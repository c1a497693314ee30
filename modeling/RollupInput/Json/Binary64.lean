import RollupInput.Text

/-!
# Numbers of IEEE 754 binary64

A finite double is a sign, a mantissa below `2 ^ 53` and an exponent of two, all exact integers.
The module rounds ratios of natural numbers to the nearest double, scales a significand by a
power of ten one rounding at a time, and writes a double with the fewest digits that read back.
-/

namespace RollupInput.Json

/-- A double's absolute value `mantissa * 2 ^ exponent`. -/
structure Magnitude where
  /-- The integer significand, below `2 ^ 53`. -/
  mantissa : Nat
  /-- The power of two, at least `-1074`. -/
  exponent : Int
  deriving DecidableEq, Repr

namespace Magnitude

/-- Zero. -/
def zero : Magnitude := ⟨0, -1074⟩

/-- The ratio with both sides scaled so that the power of two `2 ^ e` is divided out of it. -/
def withoutPower (num den : Nat) (e : Int) : Nat × Nat :=
  if e ≥ 0 then (num, den * Nat.pow 2 e.toNat) else (num * Nat.pow 2 (-e).toNat, den)

/-- The integer nearest to a ratio; a tie goes to the even neighbour. -/
def roundHalfEven (num den : Nat) : Nat :=
  let q := num / den
  let r := num % den
  if 2 * r > den || (2 * r == den && q % 2 == 1) then q + 1 else q

/-- The double nearest to a ratio, or nothing when that is infinite. -/
def nearest? (num den : Nat) : Option Magnitude :=
  if num == 0 then some zero
  else
    let guess : Int := (Nat.log2 num : Int) - (Nat.log2 den : Int) - 52
    let fit := withoutPower num den guess
    let normal := if fit.1 < fit.2 * Nat.pow 2 52 then guess - 1 else guess
    let e := max normal (-1074)
    let exact := withoutPower num den e
    let m := roundHalfEven exact.1 exact.2
    let result : Magnitude := if m == Nat.pow 2 53 then ⟨Nat.pow 2 52, e + 1⟩ else ⟨m, e⟩
    if result.exponent > 971 then none else some result

/-- A magnitude as an exact ratio. -/
def ratio (a : Magnitude) : Nat × Nat :=
  if a.exponent ≥ 0 then (a.mantissa * Nat.pow 2 a.exponent.toNat, 1)
  else (a.mantissa, Nat.pow 2 (-a.exponent).toNat)

/-- The rounded product, unless it is infinite. -/
def mul? (a b : Magnitude) : Option Magnitude :=
  nearest? (a.ratio.1 * b.ratio.1) (a.ratio.2 * b.ratio.2)

/-- The rounded quotient of `a` by a divisor that is not zero. -/
def div? (a b : Magnitude) : Option Magnitude :=
  nearest? (a.ratio.1 * b.ratio.2) (a.ratio.2 * b.ratio.1)

/-- The double nearest to a power of ten up to `10 ^ 308`. -/
def powerOfTen (k : Nat) : Magnitude := (nearest? (Nat.pow 10 k) 1).getD zero

/-- Multiply by `10 ^ exponent` in steps of at most `10 ^ 308`, rounding after each step. Four
steps are enough for every significand below `2 ^ 64`. -/
def scale : Nat → Magnitude → Int → Option Magnitude
  | 0, a, _ => some a
  | steps + 1, a, exponent =>
    if exponent.natAbs ≤ 308 then
      if exponent ≥ 0 then mul? a (powerOfTen exponent.natAbs)
      else div? a (powerOfTen exponent.natAbs)
    else if a.mantissa == 0 then some a
    else if exponent ≥ 0 then none
    else (div? a (powerOfTen 308)).bind fun b => scale steps b (exponent + 308)

/-- The double that the decimal `significand * 10 ^ exponent` is read as: the significand is
rounded first and then scaled. -/
def ofDecimal? (significand : Nat) (exponent : Int) : Option Magnitude :=
  (nearest? significand 1).bind fun a => scale 4 a exponent

/-- A run of decimal digits and the place of the point: `0.digits * 10 ^ point`. -/
structure Digits where
  /-- The digits, without zeros at either end. -/
  digits : List Char
  /-- How many places of the number stand before the point. -/
  point : Int
  deriving DecidableEq, Repr

/-- The exponent of the leading decimal digit of a positive ratio. -/
def decade (num den : Nat) : Int :=
  if num ≥ den then ((Text.decimal (num / den)).length : Int) - 1
  else
    let places := (Text.decimal (den / num)).length
    if num * Nat.pow 10 (places - 1) ≥ den then -((places : Int) - 1) else -(places : Int)

/-- The multiple `c` of the grid `10 ^ p` as a ratio. -/
def gridPoint (c : Nat) (p : Int) : Nat × Nat :=
  if p ≥ 0 then (c * Nat.pow 10 p.toNat, 1) else (c, Nat.pow 10 (-p).toNat)

/-- Whether a ratio is at most, or below when `strict`, another. -/
def below (strict : Bool) (a b : Nat × Nat) : Bool :=
  if strict then a.1 * b.2 < b.1 * a.2 else a.1 * b.2 ≤ b.1 * a.2

/-- The point of the grid of `10 ^ p` that lies in the interval and is nearest to the value; a
tie goes to the even multiple. -/
def gridHit? (low value high : Nat × Nat) (openEnds : Bool) (p : Int) : Option Nat :=
  let inside (c : Nat) : Bool :=
    below openEnds low (gridPoint c p) && below openEnds (gridPoint c p) high
  let unit := gridPoint 1 p
  let num := value.1 * unit.2
  let den := value.2 * unit.1
  let down := num / den
  let nearer := roundHalfEven num den
  if inside nearer then some nearer
  else if inside down then some down
  else if inside (down + 1) then some (down + 1)
  else none

/-- The first grid with a point in the interval, from one digit upwards. -/
def shortestFrom (low value high : Nat × Nat) (openEnds : Bool) (lead : Int) :
    Nat → Nat → Nat × Int
  | 0, _ => (0, 0)
  | tries + 1, count =>
    let p := lead - (count : Int) + 1
    match gridHit? low value high openEnds p with
    | some c => (c, p)
    | none => shortestFrom low value high openEnds lead tries (count + 1)

/-- The fewest digits that read back as this double, the nearest such decimal. -/
def shortest (a : Magnitude) : Digits :=
  let scaleBy (n : Nat) : Nat × Nat :=
    if a.exponent ≥ 0 then (n * Nat.pow 2 a.exponent.toNat, 4)
    else (n, 4 * Nat.pow 2 (-a.exponent).toNat)
  let gap := if a.mantissa == Nat.pow 2 52 && a.exponent > -1074 then 1 else 2
  let low := scaleBy (4 * a.mantissa - gap)
  let value := scaleBy (4 * a.mantissa)
  let high := scaleBy (4 * a.mantissa + 2)
  let hit := shortestFrom low value high (a.mantissa % 2 == 1) (decade value.1 value.2) 17 1
  let written := Text.decimal hit.1
  ⟨(written.reverse.dropWhile (· == '0')).reverse, hit.2 + written.length⟩

end Magnitude

/-- A finite double; zero has a sign too. -/
structure Binary64 where
  /-- Whether the sign is minus. -/
  negative : Bool
  /-- The absolute value. -/
  magnitude : Magnitude
  deriving DecidableEq, Repr

namespace Binary64

/-- The exponent mark and an exponent, always with its sign. -/
def exponentText (e : Int) : List Char :=
  'e' :: (if e < 0 then '-' else '+') :: Text.decimal e.natAbs

/-- Digits as a decimal: positional while the point stands less than five places before the
digits and at most sixteen after their start, with an exponent otherwise. A point or an exponent
is always there. -/
def digitsText (d : Magnitude.Digits) : List Char :=
  let count : Int := d.digits.length
  if count ≤ d.point && d.point ≤ 16 then
    d.digits ++ List.replicate (d.point - count).toNat '0' ++ ['.', '0']
  else if 0 < d.point && d.point ≤ 16 then
    d.digits.take d.point.toNat ++ '.' :: d.digits.drop d.point.toNat
  else if -5 < d.point && d.point ≤ 0 then
    '0' :: '.' :: (List.replicate (-d.point).toNat '0' ++ d.digits)
  else
    match d.digits with
    | [] => []
    | [c] => c :: exponentText (d.point - 1)
    | c :: cs => c :: '.' :: (cs ++ exponentText (d.point - 1))

/-- The shortest text that reads back as this double. -/
def text (x : Binary64) : List Char :=
  let body :=
    if x.magnitude.mantissa == 0 then ['0', '.', '0'] else digitsText x.magnitude.shortest
  if x.negative then '-' :: body else body

end Binary64

end RollupInput.Json
