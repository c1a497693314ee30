import RollupInput.Text

/-!
# Calendar dates

Milliseconds of the Unix epoch as a date and a time of day in the proleptic Gregorian calendar,
in UTC. Years above 9999 are written with a plus in front.
-/

namespace RollupInput.Calendar

/-- A day of the calendar. -/
structure Date where
  /-- The year. -/
  year : Nat
  /-- The month, from one. -/
  month : Nat
  /-- The day of the month, from one. -/
  day : Nat
  deriving DecidableEq, Repr

/-- The first millisecond that is out of range. -/
def limit : Nat := 8210266876800000

/-- The date of a day counted from 1970-01-01. Years are counted from March, so that the leap day
is the last day of a year, in cycles of 400 years or 146097 days. -/
def dateOfDay (day : Nat) : Date :=
  let shifted := day + 719468
  let cycle := shifted / 146097
  let dayOfCycle := shifted % 146097
  let yearOfCycle :=
    (dayOfCycle - dayOfCycle / 1460 + dayOfCycle / 36524 - dayOfCycle / 146096) / 365
  let dayOfYear := dayOfCycle - (365 * yearOfCycle + yearOfCycle / 4 - yearOfCycle / 100)
  let marchMonth := (5 * dayOfYear + 2) / 153
  let month := if marchMonth < 10 then marchMonth + 3 else marchMonth - 9
  let year := yearOfCycle + cycle * 400
  ⟨if month ≤ 2 then year + 1 else year, month, dayOfYear - (153 * marchMonth + 2) / 5 + 1⟩

/-- A number with zeros in front up to a width. -/
def padded (width n : Nat) : List Char :=
  let digits := Text.decimal n
  List.replicate (width - digits.length) '0' ++ digits

/-- The text of a date. -/
def Date.text (d : Date) : List Char :=
  let year := if d.year > 9999 then '+' :: Text.decimal d.year else padded 4 d.year
  year ++ '-' :: (padded 2 d.month ++ '-' :: padded 2 d.day)

/-- The text of the day of a time, if it is in range. -/
def dateText? (milliseconds : Nat) : Option String :=
  if milliseconds < limit then
    some (String.ofList (dateOfDay (milliseconds / 86400000)).text)
  else none

/-- The text of a time to the millisecond, if it is in range. -/
def timeText? (milliseconds : Nat) : Option String :=
  (dateText? milliseconds).map fun date =>
    let rest := milliseconds % 86400000
    date ++ String.ofList (' ' :: (padded 2 (rest / 3600000) ++ ':' ::
      (padded 2 (rest / 60000 % 60) ++ ':' :: (padded 2 (rest / 1000 % 60) ++ '.' ::
        padded 3 (rest % 1000)))))

end RollupInput.Calendar
