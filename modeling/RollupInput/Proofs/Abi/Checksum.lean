import RollupInput.Abi.Value
import RollupInput.Proofs.Text.Hex

/-!
# Hashes and checksums

A hash has 32 bytes, whatever the message. So the checksum of an address says of every digit whether
it is upper case, and making all of them lower case gives the digits of the address back.
-/

namespace RollupInput

/-- A hash has 32 bytes. -/
theorem Keccak.length_hash (message : List UInt8) : (Keccak.hash message).length = 32 := by
  simp [Keccak.hash, Keccak.laneBytes, List.range_succ]

namespace Abi

/-- Digits of which some are made upper case are found again by making all lower case, if there is a
mark for each. -/
theorem map_lowerAscii_zipWith {mark : Char → Char → Char}
    (hmark : ∀ c h, mark c h = c ∨ mark c h = Text.upperAscii c) {ds hs : List Char}
    (hdigits : ∀ c ∈ ds, ∃ n < 16, c = Text.Hex.digit n) (hlength : ds.length ≤ hs.length) :
    (List.zipWith mark ds hs).map Text.lowerAscii = ds := by
  induction ds generalizing hs with
  | nil => rfl
  | cons c ds ih =>
    cases hs with
    | nil => cases hlength
    | cons h hs =>
      obtain ⟨⟨n, hn, rfl⟩, hrest⟩ := List.forall_mem_cons.mp hdigits
      obtain ⟨hlower, hupper⟩ := Text.Hex.lowerAscii_digit hn
      rw [List.zipWith_cons_cons, List.map_cons, ih hrest (Nat.le_of_succ_le_succ hlength)]
      rcases hmark (Text.Hex.digit n) h with hc | hc
      · rw [hc, hlower]
      · rw [hc, hupper]

/-- The digits of an address are those of its checksummed text, in lower case. -/
theorem map_lowerAscii_checksummed {address : List UInt8} (h : address.length ≤ 32) :
    ((checksummed address).toList.drop 2).map Text.lowerAscii = Text.Hex.digits address := by
  unfold checksummed
  rw [String.toList_ofList, List.drop_succ_cons, List.drop_succ_cons, List.drop_zero]
  refine map_lowerAscii_zipWith (fun c h => ?_) (fun c => Text.Hex.exists_of_mem_digits) ?_
  · split
    · exact .inr rfl
    · exact .inl rfl
  · rw [Text.Hex.length_digits, Text.Hex.length_digits, Keccak.length_hash]
    omega

/-- Different addresses have different checksummed texts. -/
theorem checksummed_inj {as bs : List UInt8} (has : as.length = 20) (hbs : bs.length = 20)
    (h : checksummed as = checksummed bs) : as = bs := by
  have hdigits := @map_lowerAscii_checksummed as (by omega)
  rw [h, map_lowerAscii_checksummed (by omega)] at hdigits
  exact (Text.Hex.digits_inj hdigits).symm

end Abi

end RollupInput
