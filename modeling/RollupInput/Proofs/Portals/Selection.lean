import RollupInput.Matching
import RollupInput.Proofs.Portals.Message

/-!
# Choosing the specification of a portal

The sender selects the specification: among the built-in ones, the first that holds for an address
of a portal is that portal's, in whatever case the letters of its digits are written. The mark `0x`
in front is no digit and stays as it is.
-/

namespace RollupInput.Portals

open Text

/-- Whether a text is an address, but for the case of the letters among its digits. -/
def IsSpelling (address s : String) : Prop :=
  ∃ digits, s.toList = '0' :: 'x' :: digits ∧
    s.toList.map lowerAscii = address.toList.map lowerAscii

/-- Whether two texts differ in nothing but the case of letters. -/
def isSameButCase (s t : String) : Bool := s.toList.map lowerAscii == t.toList.map lowerAscii

/-- The case of a letter does not decide whether it is a hexadecimal digit. -/
theorem isHexDigit_lowerAscii (c : Char) : isHexDigit (lowerAscii c) = isHexDigit c := by
  have hsmall : ∀ n < 128, isHexDigit (lowerAscii (Char.ofNat n)) = isHexDigit (Char.ofNat n) := by
    decide
  by_cases h : c.toNat < 128
  · have hc := hsmall c.toNat h
    rwa [Char.ofNat_toNat] at hc
  · have hlower : lowerAscii c = c := by
      refine if_neg ?_
      rw [Bool.and_eq_true, decide_eq_true_eq, decide_eq_true_eq, not_and]
      intro _ hle
      have hn : c.toNat ≤ 'Z'.toNat := hle
      have hz : 'Z'.toNat = 90 := rfl
      omega
    rw [hlower]

/-- A spelling of a hexadecimal text is one. -/
theorem isHexText_of_isSpelling {address s : String} (haddress : isHexText address.toList = true)
    (h : IsSpelling address s) : isHexText s.toList = true := by
  obtain ⟨digits, hs, hsame⟩ := h
  have hall : ∀ cs : List Char, cs.all isHexDigit = (cs.map lowerAscii).all isHexDigit := by
    intro cs
    rw [List.all_map]
    congr 1
    funext c
    exact (isHexDigit_lowerAscii c).symm
  unfold isHexText after? at haddress ⊢
  by_cases hmark : ['0', 'x'].isPrefixOf address.toList = true
  · rw [if_pos hmark] at haddress
    dsimp only at haddress
    have htail : digits.map lowerAscii = (address.toList.drop 2).map lowerAscii := by
      have hdrop := congrArg (List.drop 2) hsame
      rwa [← List.map_drop, ← List.map_drop, hs] at hdrop
    rw [hs, if_pos (by rfl)]
    show digits.all isHexDigit = true
    rw [hall, htail, ← hall]
    exact haddress
  · rw [if_neg hmark] at haddress
    cases haddress

/-- A spelling of an address is the same value as another address exactly if the two addresses
differ in nothing but the case of letters. -/
theorem sameValue_of_isSpelling {address s other : String}
    (haddress : isHexText address.toList = true) (hother : isHexText other.toList = true)
    (h : IsSpelling address s) : sameValue s other = isSameButCase address other := by
  have hs := isHexText_of_isSpelling haddress h
  obtain ⟨-, -, hsame⟩ := h
  unfold sameValue isSameButCase
  rw [hs, hother, Bool.and_self, if_pos rfl, hsame]

/-- The portals in the order of matching. -/
def Portal.all : List Portal := [.ether, .erc20, .erc721, .erc1155Single, .erc1155Batch, .relay]

/-- The built-in specifications are those of the portals. -/
theorem specifications_eq : specifications = Portal.all.map Portal.specification := rfl

/-- The addresses are hexadecimal texts. -/
theorem isHexText_address (p : Portal) : isHexText p.address.toList = true := by
  cases p <;> decide

/-- A built-in specification looks at the sender. -/
theorem matches_of_sender {input : KnownInput} {s : String} (h : input.msgSender = some s)
    (p : Portal) :
    (p.specification.isSelectable && p.specification.matches input) = sameValue s p.address := by
  have hread : input.read .msgSender = some s := h
  have hholds : (⟨.msgSender, .equals, p.address⟩ : Condition).holds input =
      sameValue s p.address := by
    unfold Condition.holds
    rw [hread]
  cases p <;>
    · rw [← hholds]
      exact (Bool.or_false _).trans (Bool.or_false _)

/-- The sender of a portal, in whatever case its letters are, selects the specification of that
portal. -/
theorem choose?_of_isSpelling {input : KnownInput} {s : String} (h : input.msgSender = some s)
    {p : Portal} (hs : IsSpelling p.address s) :
    Specification.choose? (some input) specifications = some p.specification := by
  have hknown : input.isEmpty = false := by
    unfold KnownInput.isEmpty
    rw [h]
    rfl
  have htest : (fun spec : Specification => spec.isSelectable && spec.matches input) ∘
      Portal.specification = fun q => isSameButCase p.address q.address := by
    funext q
    exact (matches_of_sender h q).trans
      (sameValue_of_isSpelling (isHexText_address p) (isHexText_address q) hs)
  have hfirst : (Portal.all.find? fun q => isSameButCase p.address q.address) = some p := by
    cases p <;> decide +kernel
  unfold Specification.choose?
  dsimp only
  rw [hknown, if_neg Bool.false_ne_true, specifications_eq, List.find?_map, htest, hfirst]
  rfl

end RollupInput.Portals
