import RollupInput.Proofs.Decoding.Cutting
import RollupInput.Proofs.Decoding.Distinct
import RollupInput.Proofs.Decoding.Target
import RollupInput.Proofs.Payload
import Mathlib.Data.List.Pairwise

/-!
# Ranges that tile a payload

Ranges without types that lie side by side, from the first byte to the end, cut a payload into parts
and lose nothing of it. The cuts between them rise from zero and stay in front of a byte, so every
range lies within the payload. The induction runs along the cuts: the parts from one cut on are the
payload from that cut on.
-/

namespace RollupInput.Decoding

open Abi

variable {payload : List UInt8} {ranges : List ByteRange}

/-- Whether ranges without types lie side by side between cuts, under names of their own. -/
structure AreTiles (size : Nat) (cuts : List Nat) (names : List String)
    (ranges : List ByteRange) : Prop where
  /-- The first cut is in front of everything. -/
  head?_eq : cuts.head? = some 0
  /-- The cuts rise. -/
  rising : cuts.Pairwise (· < ·)
  /-- The last cut is zero or in front of a byte. -/
  last_lt : ∀ c, cuts.getLast? = some c → c = 0 ∨ c < size
  /-- The ranges start at the cuts. -/
  map_start : ranges.map ByteRange.start = cuts
  /-- Each stops where the next one starts, and the last goes up to the end. -/
  map_stop : ranges.map ByteRange.stop = cuts.tail.map some ++ [none]
  /-- None of them has a type. -/
  untyped : ∀ r ∈ ranges, r.type.bind Text.nonBlank? = none
  /-- Each has a name that is not blank. -/
  map_name : ranges.map (fun r => r.name.bind Text.nonBlank?) = names.map some
  /-- The names are distinct without the blanks around them. -/
  nodup : names.Nodup

/-- The bytes between the ends of each range. -/
def parts (payload : List UInt8) (ranges : List ByteRange) : List (List UInt8) :=
  ranges.map fun r => Payload.between payload r.start r.stop

/-- The part of a range stands in front of those of the ranges behind it. -/
theorem parts_cons (payload : List UInt8) (r : ByteRange) (rest : List ByteRange) :
    parts payload (r :: rest) =
      Payload.between payload r.start r.stop :: parts payload rest := List.map_cons

/-- There is one part per range. -/
theorem length_parts (payload : List UInt8) (ranges : List ByteRange) :
    (parts payload ranges).length = ranges.length := List.length_map _

/-- Every cut is zero or in front of a byte, if the last one is. -/
theorem lt_of_rising {size : Nat} {cuts : List Nat} (hrising : cuts.Pairwise (· < ·))
    (hlast : ∀ c, cuts.getLast? = some c → c = 0 ∨ c < size) : ∀ c ∈ cuts, c = 0 ∨ c < size := by
  intro c hc
  have hle : c ≤ cuts.getLast (List.ne_nil_of_mem hc) :=
    (hrising.imp Nat.le_of_lt).rel_getLast hc
  have hend := hlast _ (List.getLast?_eq_some_getLast (List.ne_nil_of_mem hc))
  omega

/-- Ranges that lie side by side from some cut on lie within the payload, and their parts are the
payload from that cut on. -/
theorem flatten_parts {c : Nat} {cuts : List Nat} (hrising : (c :: cuts).Pairwise (· < ·))
    (hlt : ∀ s ∈ c :: cuts, s = 0 ∨ s < payload.length)
    (hstart : ranges.map ByteRange.start = c :: cuts)
    (hstop : ranges.map ByteRange.stop = cuts.map some ++ [none]) :
    (∀ r ∈ ranges, Payload.IsWithin payload.length r.start r.stop) ∧
      (parts payload ranges).flatten = payload.drop c := by
  induction cuts generalizing c ranges with
  | nil =>
    obtain ⟨r, rfl, hr⟩ := List.map_eq_singleton_iff.mp hstart
    have hnone : r.stop = none := List.head_eq_of_cons_eq hstop
    have hfirst := hlt c (List.mem_cons_self ..)
    refine ⟨fun r' hr' => ?_, ?_⟩
    · rw [List.mem_singleton.mp hr', hr, hnone, Payload.isWithin_none_iff]
      exact hfirst
    · rw [parts, List.map_singleton, List.flatten_singleton, hr, hnone, Payload.between_none]
  | cons s rest ih =>
    obtain ⟨r, more, rfl, hr, hmore⟩ := List.map_eq_cons_iff.mp hstart
    rw [List.map_cons, List.map_cons, List.cons_append] at hstop
    have hsome : r.stop = some s := List.head_eq_of_cons_eq hstop
    have hcs : c < s := List.rel_of_pairwise_cons hrising (List.mem_cons_self ..)
    have hfirst := hlt c (List.mem_cons_self ..)
    have hsecond := hlt s (List.mem_cons_of_mem _ (List.mem_cons_self ..))
    have hend : s ≤ payload.length := by omega
    obtain ⟨hwithin, hflatten⟩ := ih hrising.of_cons
      (fun s' hs' => hlt s' (List.mem_cons_of_mem _ hs')) hmore (List.tail_eq_of_cons_eq hstop)
    refine ⟨fun r' hr' => ?_, ?_⟩
    · rcases List.mem_cons.mp hr' with rfl | hr'
      · rw [hr, hsome, Payload.isWithin_some_iff]
        omega
      · exact hwithin r' hr'
    · rw [parts_cons, List.flatten_cons, hflatten, hr, hsome]
      exact Payload.between_append_drop (Nat.le_of_lt hcs) hend

/-- A range without a type that lies within the payload gives the bytes between its ends, under its
own name. -/
theorem exists_of_untyped [Memory] {r : ByteRange} {name : String} (index : Nat)
    (huntyped : r.type.bind Text.nonBlank? = none) (hname : r.name.bind Text.nonBlank? = some name)
    (hwithin : Payload.IsWithin payload.length r.start r.stop) :
    ∃ piece, rangePiece payload index r = .ok piece ∧
      (piece.name, piece.value) = (name, .bytes (Payload.between payload r.start r.stop)) := by
  have hextract := Payload.extract_of_isWithin hwithin
  have hlisted := ByteRange.listedName_of_name hname index
  unfold rangePiece
  rw [hextract, huntyped, hlisted]
  exact ⟨_, rfl, rfl⟩

/-- Ranges without types that lie within the payload are all cut out, each under its own name. -/
theorem rangePieces_of_untyped [Memory] {names : List String} (index : Nat)
    (huntyped : ∀ r ∈ ranges, r.type.bind Text.nonBlank? = none)
    (hnames : ranges.map (fun r => r.name.bind Text.nonBlank?) = names.map some)
    (hwithin : ∀ r ∈ ranges, Payload.IsWithin payload.length r.start r.stop) :
    ∃ pieces, rangePieces payload index ranges = (pieces, none) ∧
      pieces.map (fun p => (p.name, p.value)) =
        names.zip ((parts payload ranges).map Value.bytes) := by
  induction ranges generalizing index names with
  | nil =>
    refine ⟨[], rfl, ?_⟩
    rw [parts, List.map_nil, List.map_nil, List.map_nil, List.zip_nil_right]
  | cons r rest ih =>
    obtain ⟨name, more, rfl, hname, hmore⟩ := List.map_eq_cons_iff.mp hnames.symm
    obtain ⟨piece, hpiece, hentry⟩ := exists_of_untyped index (huntyped r (List.mem_cons_self ..))
      hname.symm (hwithin r (List.mem_cons_self ..))
    obtain ⟨pieces, hpieces, hentries⟩ := ih (index + 1)
      (fun r' hr' => huntyped r' (List.mem_cons_of_mem _ hr')) hmore.symm
      (fun r' hr' => hwithin r' (List.mem_cons_of_mem _ hr'))
    refine ⟨piece :: pieces, ?_, ?_⟩
    · rw [rangePieces, hpiece]
      dsimp only
      rw [hpieces]
    · rw [List.map_cons, hentry, hentries, parts_cons, List.map_cons, List.zip_cons_cons]

/-- A tiling loses no byte of a payload and repeats none. Ranges without types that lie side by side
between cuts rising from zero, the last of which is zero or in front of a byte, resolve if their
names are distinct and there is no target. The result has one entry per cut, in order, under the
names without the blanks around them; its values are the bytes between the cuts, and joined they are
the payload. Whether a range may be missing makes no difference, since none is. -/
theorem tiles_give_back [Memory] {spec : Specification} {mode : ParamsMode} {cuts : List Nat}
    {names : List String} (hmode : spec.mode = .params mode) (hranges : mode.ranges = some ranges)
    (htarget : mode.target = none) (h : AreTiles payload.length cuts names ranges) :
    (run spec payload).isResolved = true ∧
    (run spec payload).result.size = cuts.length ∧
    (run spec payload).result.entries = names.zip ((parts payload ranges).map Value.bytes) ∧
    (parts payload ranges).flatten = payload := by
  obtain ⟨rest, rfl⟩ := List.head?_eq_some_iff.mp h.head?_eq
  obtain ⟨hwithin, hflatten⟩ := flatten_parts h.rising (lt_of_rising h.rising h.last_lt)
    h.map_start h.map_stop
  obtain ⟨pieces, hpieces, hentries⟩ := rangePieces_of_untyped 0 h.untyped h.map_name hwithin
  have hlength : ranges.length = (0 :: rest).length := by
    rw [← h.map_start, List.length_map]
  have hnames : names.length = (0 :: rest).length := by
    rw [← hlength, ← List.length_map some, ← h.map_name, List.length_map]
  have hne : ranges ≠ [] := List.ne_nil_of_length_pos (by rw [hlength]; exact Nat.succ_pos _)
  have hrun : run spec payload = finished spec payload pieces (fold none pieces) := by
    have huntargeted : spec.mode = .params { mode with target := none } := by
      rw [hmode, ← htarget]
    rw [run_of_untargeted huntargeted, cut_of_ranges hranges hne, hpieces]
  have hresult : (run spec payload).result.entries =
      names.zip ((parts payload ranges).map Value.bytes) := by
    rw [hrun, finished, fold_none, hentries]
    refine NamedValues.entries_insertAll_of_nodup ?_
    rw [List.map_fst_zip (by rw [List.length_map, length_parts]; omega)]
    exact h.nodup
  refine ⟨?_, ?_, hresult, hflatten⟩
  · rw [hrun]
    rfl
  · rw [NamedValues.size, hresult, List.length_zip, List.length_map, length_parts]
    omega

/-- A byte, two bytes and the rest, under three names, one of them between blanks. -/
def threeTiles : List ByteRange :=
  [⟨0, some 1, some "kind", none, none⟩, ⟨1, some 3, some " pair ", some " ", none⟩,
    ⟨3, none, some "rest", none, some false⟩]

attribute [local instance] Memory.usual

/-- Five bytes are cut into three parts, and given back. -/
theorem threeTiles_give_back :
    AreTiles 5 [0, 1, 3] ["kind", "pair", "rest"] threeTiles ∧
    (run (bare ⟨[], some threeTiles, none⟩) [1, 2, 3, 4, 5]).isResolved = true ∧
    (run (bare ⟨[], some threeTiles, none⟩) [1, 2, 3, 4, 5]).result.entries =
      [("kind", .bytes [1]), ("pair", .bytes [2, 3]), ("rest", .bytes [4, 5])] := by
  have htiles : AreTiles 5 [0, 1, 3] ["kind", "pair", "rest"] threeTiles :=
    { head?_eq := rfl
      rising := by decide
      last_lt := by decide
      map_start := rfl
      map_stop := rfl
      untyped := by decide +kernel
      map_name := by decide +kernel
      nodup := by decide }
  obtain ⟨hresolved, -, hentries, -⟩ := @tiles_give_back [1, 2, 3, 4, 5] threeTiles
    _ (bare ⟨[], some threeTiles, none⟩) _ _ _ rfl rfl rfl htiles
  exact ⟨htiles, hresolved, hentries⟩

end RollupInput.Decoding
