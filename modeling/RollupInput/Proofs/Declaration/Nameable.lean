import RollupInput.Proofs.Declaration.Definitions
import RollupInput.Proofs.Declaration.Inlining

/-!
# Types and names of parameters that are read

The type of a parameter that is read is put together from elementary types by array suffixes with
sizes of 64 bits and by tuples, so it has a canonical name that declarations can be made of. The name
of a parameter of a declaration is an identifier, and none of the words with a meaning of their own.
-/

namespace RollupInput.Declaration

open Abi

/-- Whether a type has a canonical name out of which a declaration can be made: it is elementary, or
put together from such types by array suffixes and tuples. -/
inductive IsNameable : AbiType → Prop where
  /-- An elementary type, under its name. -/
  | elementary {t : AbiType} (h : (t.name, t) ∈ elementaryTypes) : IsNameable t
  /-- A type with an array suffix. -/
  | suffixed {t : AbiType} (s : Suffix) (hs : ∀ n ∈ s, n < wordLimit) (h : IsNameable t) :
    IsNameable (t.suffixed s)
  /-- A tuple of types. -/
  | tuple {ts : List AbiType} (h : ∀ t ∈ ts, IsNameable t) : IsNameable (.tuple ts)

/-! ## Types -/

/-- The sized types of the table are there in all sizes. -/
theorem mem_elementaryTypes_of_lt {k : Nat} (hk : k < 32) {e : List Char × AbiType}
    (he : e ∈ [("uint".toList ++ Text.decimal (8 * k + 8), AbiType.uint (8 * k + 8)),
      ("int".toList ++ Text.decimal (8 * k + 8), .int (8 * k + 8)),
      ("bytes".toList ++ Text.decimal (k + 1), .fixedBytes (k + 1))]) : e ∈ elementaryTypes :=
  List.mem_append_right _ (List.mem_flatMap.mpr ⟨k, List.mem_range.mpr hk, he⟩)

/-- An integer of whole bytes up to 256 bits is in the table, with and without a sign. -/
theorem mem_elementaryTypes_of_bits {n : Nat} (hpos : 0 < n) (hle : n ≤ 256) (hbytes : n % 8 = 0) :
    ((AbiType.uint n).name, AbiType.uint n) ∈ elementaryTypes ∧
      ((AbiType.int n).name, AbiType.int n) ∈ elementaryTypes := by
  obtain ⟨k, hk, rfl⟩ : ∃ k, k < 32 ∧ n = 8 * k + 8 := ⟨n / 8 - 1, by omega, by omega⟩
  constructor
  · exact mem_elementaryTypes_of_lt hk List.mem_cons_self
  · exact mem_elementaryTypes_of_lt hk (List.mem_cons_of_mem _ List.mem_cons_self)

/-- A type that has a name is in the table under its canonical one. -/
theorem mem_elementaryTypes_of_ofName {name : List Char} {t : AbiType}
    (h : AbiType.ofName name = .ok t) : (t.name, t) ∈ elementaryTypes := by
  unfold AbiType.ofName at h
  dsimp only at h
  repeat' split at h
  all_goals cases h
  -- Five names stand for one type, two for integers of 256 bits, and the others have a size.
  · exact List.mem_append_left _ (List.mem_of_getElem? (i := 0) rfl)
  · exact List.mem_append_left _ (List.mem_of_getElem? (i := 2) rfl)
  · exact List.mem_append_left _ (List.mem_of_getElem? (i := 1) rfl)
  · exact List.mem_append_left _ (List.mem_of_getElem? (i := 4) rfl)
  · exact List.mem_append_left _ (List.mem_of_getElem? (i := 3) rfl)
  · exact (@mem_elementaryTypes_of_bits 256 (by decide) (by decide) rfl).1
  · exact (@mem_elementaryTypes_of_bits 256 (by decide) (by decide) rfl).2
  · rename_i n _ hsize
    rw [Bool.and_eq_true, decide_eq_true_eq, decide_eq_true_eq] at hsize
    obtain ⟨k, rfl⟩ : ∃ k, n = k + 1 := ⟨n - 1, by omega⟩
    refine mem_elementaryTypes_of_lt (by omega : k < 32) ?_
    exact List.mem_cons_of_mem _ (List.mem_cons_of_mem _ List.mem_cons_self)
  all_goals
    rename_i hsize _
    rw [Bool.and_eq_true, Bool.and_eq_true, decide_eq_true_eq, decide_eq_true_eq, beq_iff_eq]
      at hsize
    obtain ⟨⟨hpos, hle⟩, hbytes⟩ := hsize
  · exact (mem_elementaryTypes_of_bits hpos hle hbytes).1
  · exact (mem_elementaryTypes_of_bits hpos hle hbytes).2

/-- A base that is resolved as an elementary type gives one that has a canonical name. -/
theorem IsBase.isNameable {base : List Char} {t : AbiType} (h : IsBase base)
    (ht : elementary base = .ok t) : IsNameable t := by
  obtain ⟨identifier, -, hname⟩ := named_of_elementary ht h.noSuffix
  exact .elementary (mem_elementaryTypes_of_ofName hname)

/-- A size that is read is a 64 bit number. -/
theorem lt_of_readSize {size : List Char} {s : Suffix} (h : readSize size = .ok s) :
    ∀ n ∈ s, n < wordLimit := by
  unfold readSize at h
  dsimp only at h
  split at h
  · cases h
    intro n hn
    cases hn
  · split at h
    · split at h
      · rename_i hlt
        cases h
        intro n hn
        obtain rfl := Option.some.inj hn
        exact hlt
      · cases h
    · cases h

/-- Array suffixes that are read are put on a type that has a canonical name. -/
theorem isNameable_of_withSuffixes {suffixes : List (List Char)} {t type : AbiType}
    (ht : IsNameable t) (h : withSuffixes t suffixes = .ok type) : IsNameable type := by
  induction suffixes generalizing t with
  | nil =>
    cases h
    exact ht
  | cons size rest ih =>
    rw [withSuffixes] at h
    cases hsize : readSize size with
    | error e =>
      rw [hsize] at h
      cases h
    | ok s =>
      rw [hsize] at h
      exact ih (.suffixed s (lt_of_readSize hsize) ht) h

/-- The type of a parameter that is read has a canonical name. -/
theorem isNameable_of_resolve {table : FieldTable} {steps : Nat} {stack : Stack}
    {written : List Char} {p : Param}
    (hnames : ∀ name fields, table name = some fields → Text.isIdentifier name = true)
    (h : resolve table steps stack written = some (.ok p)) : IsNameable p.type := by
  induction steps generalizing stack written p with
  | zero => cases h
  | succ steps ih =>
    obtain ⟨c, -, hcut, -, -, -, hbase⟩ := exists_frame_of_resolve hnames h
    obtain ⟨d, resolved, hcut', hopen, hparam⟩ := ok_of_resolve h
    obtain rfl : c = d := Except.ok.inj (hcut.symm.trans hcut')
    obtain ⟨type, hwith, rfl⟩ := ok_of_map hparam
    refine isNameable_of_withSuffixes ?_ hwith
    cases hinside : inside? table c.base with
    | none =>
      obtain ⟨t, ht, rfl⟩ := elementary_of_openBase hopen hinside
      exact hbase.isNameable ht
    | some below =>
      obtain ⟨-, ps, rfl, hps⟩ := fields_of_openBase hopen hinside
      refine .tuple (List.forall_mem_map.mpr fun q hq => ?_)
      obtain ⟨text, hread⟩ := exists_of_forall₂ (forall₂_of_resolveEach hps).flip q hq
      exact ih hread

/-! ## Parameters of declarations -/

/-- Whether a word can be the name of a parameter of a declaration. -/
structure IsParamName (name : List Char) : Prop where
  /-- It is an identifier. -/
  isIdentifier : Text.isIdentifier name = true
  /-- It is no modifier. -/
  notMem_modifiers : name ∉ modifiers
  /-- It is not the keyword of a definition. -/
  ne_keyword : name ≠ keyword

/-- What is known of a parameter of declarations that are read. -/
structure IsDeclared (p : Param) : Prop where
  /-- Its type is shown by the canonical name. -/
  kind_eq : p.kind = p.type.text
  /-- The type has such a name. -/
  isNameable : IsNameable p.type
  /-- Its name, if it has one, can be one. -/
  name : ∀ name ∈ p.name, IsParamName name.toList

/-- A text that is read and has no keyword gives a parameter that is known in this way. -/
theorem isDeclared_of_resolve {table : FieldTable} {steps : Nat} {stack : Stack}
    {written : List Char} {p : Param}
    (hnames : ∀ name fields, table name = some fields → Text.isIdentifier name = true)
    (hfree : KeywordFree written) (h : resolve table steps stack written = some (.ok p)) :
    IsDeclared p := by
  have htype := isNameable_of_resolve hnames h
  obtain ⟨c, f, hcut, hread, -, rfl, -⟩ := exists_frame_of_resolve hnames h
  cases steps with
  | zero => cases h
  | succ steps =>
    obtain ⟨d, resolved, hcut', -, hparam⟩ := ok_of_resolve h
    obtain rfl : c = d := Except.ok.inj (hcut.symm.trans hcut')
    obtain ⟨type, -, rfl⟩ := ok_of_map hparam
    refine ⟨rfl, htype, fun name hname => ?_⟩
    obtain ⟨word, hword, rfl⟩ := Option.map_eq_some_iff.mp hname
    obtain ⟨-, hidentifier, hmodifier⟩ := of_readName_some (hword ▸ hread.name [])
    rw [String.toList_ofList]
    refine ⟨hidentifier, hmodifier, ?_⟩
    rintro rfl
    exact f.name_ne_keyword hread hfree hword

/-- The texts of the parameters of a text without the keyword have none either. -/
theorem keywordFree_ownTexts {left : List Char} (h : KeywordFree left) :
    ∀ text ∈ ownTexts left, KeywordFree text := by
  unfold ownTexts
  split
  · exact List.forall_mem_nil _
  · rw [← join_cutFrom ',' 0 left] at h
    exact keywordFree_join_iff.mp h

/-- The parameters of declarations that are read have types with canonical names, by which they are
shown, and names that are identifiers without a meaning of their own. -/
theorem isDeclared_of_parse {declarations : List String} {params : List Param}
    (h : parse declarations = .ok params) : ∀ p ∈ params, IsDeclared p := by
  obtain ⟨structs, lefts, htake, hread⟩ := takeAllStructs_of_parse h
  have hdistinct := nodup_of_takeAllStructs htake .nil
  have hnames := isIdentifier_of_fieldsOf? htake
  obtain ⟨-, -, hleft⟩ := of_takeAllStructs htake
  have hall := forall₂_of_mem (S := fun _ p => IsDeclared p)
    (forall₂_of_readParams (readDeclarations_eq_ok_iff.mp hread)) ?_
  · intro p hp
    exact (exists_of_forall₂ hall.flip p hp).elim fun _ hdeclared => hdeclared
  · intro text hmem p hp
    obtain ⟨group, hgroup, hown⟩ := List.mem_flatMap.mp hmem
    have hfree := keywordFree_ownTexts (cutAtKeyword?_eq_none_iff.mp (hleft group hgroup)) text hown
    have hresolve := resolve_eventually hdistinct text (Nat.le_refl _)
    rw [hp] at hresolve
    exact isDeclared_of_resolve hnames hfree hresolve

end RollupInput.Declaration
