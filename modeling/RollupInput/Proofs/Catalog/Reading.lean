import Mathlib.Data.List.Forall2
import RollupInput.Catalog
import RollupInput.Proofs.Json.Reading
import RollupInput.Proofs.Mapped
import RollupInput.Proofs.Text.Utf8

/-!
# What a text is read as

A text of specifications is read as a whole: it is JSON, and every item of it is a specification. If
it is not read, either it is no JSON, or the fault names the first of its items that is refused, and
nothing comes of the others. A file is read as the text that its bytes are.
-/

namespace RollupInput.Catalog

/-- The items of a value that holds specifications: those of an array, or the value alone. -/
def itemsOf : Json → List Json
  | .arr items => items
  | v => [v]

/-- Whether the item at a place is the first that is refused as a specification. -/
structure IsFirstRefused (items : List Json) (place : Nat) (cause : DecodeFault) : Prop where
  /-- It is refused for the cause. -/
  refused : ∃ v, items[place]? = some v ∧ Specification.ofJson v = .error cause
  /-- All items in front of it are taken. -/
  least : ∀ earlier < place, ∀ v, items[earlier]? = some v → ∃ s, Specification.ofJson v = .ok s

/-- Whether a text is read as it should be: as the specifications of all its items, or as the first
thing that is wrong with it. -/
structure IsReadingOf (content : String) (outcome : Except CatalogFault (List Specification)) :
    Prop where
  /-- It is read exactly if it is JSON and all its items are specifications. -/
  ok_iff : ∀ specs, outcome = .ok specs ↔ ∃ v, Json.parse content = .ok v ∧
    List.Forall₂ (fun item s => Specification.ofJson item = .ok s) (itemsOf v) specs
  /-- Otherwise it is no JSON, or some item is refused. -/
  fails_iff : (∃ fault, outcome = .error fault) ↔ (∃ cause, Json.parse content = .error cause) ∨
    ∃ v, Json.parse content = .ok v ∧
      ∃ item ∈ itemsOf v, ∃ cause, Specification.ofJson item = .error cause
  /-- A text that is no JSON is blamed as one. -/
  text_iff : ∀ cause, outcome = .error (.text cause) ↔ Json.parse content = .error cause
  /-- An item is blamed exactly if it is the first that is refused. -/
  item_iff : ∀ place cause, outcome = .error (.item place cause) ↔
    ∃ v, Json.parse content = .ok v ∧ IsFirstRefused (itemsOf v) place cause

/-- Whether the bytes of a file are read as they should be: as the text that they are, if they are
one. -/
structure IsFileReadingOf (content : List UInt8)
    (outcome : Except CatalogFault (List Specification)) : Prop where
  /-- Bytes that are no text are blamed as such. -/
  noText : FileTree.text? content = none → outcome = .error .bytes
  /-- A text is read as it should be. -/
  text : ∀ text, FileTree.text? content = some text → IsReadingOf text outcome

/-! ## Items -/

/-- A value is read item by item. -/
theorem ofJson_eq_ofItems (v : Json) : ofJson v = ofItems 0 (itemsOf v) := by
  cases v <;> rfl

/-- The first item is the first that is refused if it is refused. -/
theorem isFirstRefused_zero_iff {v : Json} {rest : List Json} {cause : DecodeFault} :
    IsFirstRefused (v :: rest) 0 cause ↔ Specification.ofJson v = .error cause := by
  constructor
  · rintro ⟨⟨w, hw, hcause⟩, -⟩
    cases hw
    exact hcause
  · intro h
    exact ⟨⟨v, rfl, h⟩, fun earlier hearlier => absurd hearlier (Nat.not_lt_zero earlier)⟩

/-- A later item is the first that is refused if the first is taken, and it is so among the rest. -/
theorem isFirstRefused_succ_iff {v : Json} {rest : List Json} {place : Nat} {cause : DecodeFault} :
    IsFirstRefused (v :: rest) (place + 1) cause ↔
      (∃ s, Specification.ofJson v = .ok s) ∧ IsFirstRefused rest place cause := by
  constructor
  · rintro ⟨hrefused, hleast⟩
    exact ⟨hleast 0 (Nat.succ_pos place) v rfl, hrefused,
      fun earlier hearlier => hleast (earlier + 1) (Nat.succ_lt_succ hearlier)⟩
  · rintro ⟨hfirst, hrefused, hleast⟩
    refine ⟨hrefused, fun earlier hearlier w hw => ?_⟩
    cases earlier with
    | zero =>
      cases hw
      exact hfirst
    | succ earlier => exact hleast earlier (Nat.lt_of_succ_lt_succ hearlier) w hw

/-- Items are read exactly if each is a specification. -/
theorem ofItems_eq_ok_iff {index : Nat} {items : List Json} {specs : List Specification} :
    ofItems index items = .ok specs ↔
      List.Forall₂ (fun item s => Specification.ofJson item = .ok s) items specs := by
  induction items generalizing index specs with
  | nil =>
    rw [ofItems, List.forall₂_nil_left_iff, Except.ok.injEq, eq_comm]
  | cons v rest ih =>
    rw [ofItems]
    cases hv : Specification.ofJson v with
    | error e =>
      refine ⟨fun h => (by cases h), fun h => ?_⟩
      obtain ⟨s, more, hs, -, -⟩ := List.forall₂_cons_left_iff.mp h
      rw [hv] at hs
      cases hs
    | ok s =>
      rw [List.forall₂_cons_left_iff]
      constructor
      · intro h
        obtain ⟨more, hmore, rfl⟩ := ok_of_map h
        exact ⟨s, more, hv, ih.mp hmore, rfl⟩
      · rintro ⟨t, more, ht, hmore, rfl⟩
        rw [hv] at ht
        cases ht
        dsimp only
        rw [ih.mpr hmore]
        rfl

/-- Items are not read exactly if one is the first that is refused. Its place is counted from the
index of the first item. -/
theorem ofItems_eq_error_iff {index : Nat} {items : List Json} {fault : CatalogFault} :
    ofItems index items = .error fault ↔
      ∃ place cause, fault = .item (index + place) cause ∧ IsFirstRefused items place cause := by
  induction items generalizing index with
  | nil =>
    refine ⟨fun h => (by cases h), ?_⟩
    rintro ⟨place, cause, -, ⟨v, hv, -⟩, -⟩
    cases hv
  | cons v rest ih =>
    rw [ofItems]
    cases hv : Specification.ofJson v with
    | error e =>
      constructor
      · intro h
        cases h
        exact ⟨0, e, rfl, isFirstRefused_zero_iff.mpr hv⟩
      · rintro ⟨place, cause, rfl, hfirst⟩
        cases place with
        | zero =>
          rw [isFirstRefused_zero_iff, hv] at hfirst
          cases hfirst
          rfl
        | succ place =>
          obtain ⟨⟨s, hs⟩, -⟩ := isFirstRefused_succ_iff.mp hfirst
          rw [hv] at hs
          cases hs
    | ok s =>
      constructor
      · intro h
        obtain ⟨place, cause, rfl, hfirst⟩ := ih.mp (error_of_map h)
        exact ⟨place + 1, cause, by rw [Nat.add_assoc, Nat.add_comm 1],
          isFirstRefused_succ_iff.mpr ⟨⟨s, hv⟩, hfirst⟩⟩
      · rintro ⟨place, cause, rfl, hfirst⟩
        cases place with
        | zero =>
          rw [isFirstRefused_zero_iff, hv] at hfirst
          cases hfirst
        | succ place =>
          have hrest := (isFirstRefused_succ_iff.mp hfirst).2
          have herror : ofItems (index + 1) rest = .error (.item (index + (place + 1)) cause) :=
            ih.mpr ⟨place, cause, by rw [Nat.add_assoc, Nat.add_comm 1], hrest⟩
          dsimp only
          rw [herror]
          rfl

/-- Where some item is refused, one is the first. -/
theorem exists_isFirstRefused_iff {items : List Json} :
    (∃ place cause, IsFirstRefused items place cause) ↔
      ∃ item ∈ items, ∃ cause, Specification.ofJson item = .error cause := by
  constructor
  · rintro ⟨place, cause, ⟨v, hv, hcause⟩, -⟩
    exact ⟨v, List.mem_of_getElem? hv, cause, hcause⟩
  · rintro ⟨item, hitem, cause, hcause⟩
    induction items with
    | nil => cases hitem
    | cons v rest ih =>
      cases hv : Specification.ofJson v with
      | error e => exact ⟨0, e, isFirstRefused_zero_iff.mpr hv⟩
      | ok s =>
        rcases List.mem_cons.mp hitem with rfl | hitem
        · rw [hcause] at hv
          cases hv
        · obtain ⟨place, cause', hfirst⟩ := ih hitem
          exact ⟨place + 1, cause', isFirstRefused_succ_iff.mpr ⟨⟨s, hv⟩, hfirst⟩⟩

/-! ## Texts -/

/-- A text is read as it should be. -/
theorem isReadingOf_parse (content : String) : IsReadingOf content (parse content) := by
  unfold parse
  cases hparse : Json.parse content with
  | error cause =>
    exact {
      ok_iff := by simp [hparse]
      fails_iff := by simp [hparse]
      text_iff := by simp [hparse]
      item_iff := by simp [hparse] }
  | ok v =>
    dsimp only
    rw [ofJson_eq_ofItems]
    exact {
      ok_iff := by simp [hparse, ofItems_eq_ok_iff]
      fails_iff := by simp [hparse, ofItems_eq_error_iff, ← exists_isFirstRefused_iff]
      text_iff := by simp [hparse, ofItems_eq_error_iff]
      item_iff := by simp [hparse, ofItems_eq_error_iff] }

/-- The bytes of a file are read as they should be. -/
theorem isFileReadingOf_parseFile (content : List UInt8) :
    IsFileReadingOf content (parseFile content) := by
  unfold parseFile
  cases htext : FileTree.text? content with
  | none =>
    refine ⟨fun _ => rfl, fun text h => ?_⟩
    rw [htext] at h
    cases h
  | some given =>
    refine ⟨fun h => ?_, fun text h => ?_⟩
    · rw [htext] at h
      cases h
    · rw [htext] at h
      cases h
      exact isReadingOf_parse given

/-- The indented text of a value is read as the value, sorted. -/
theorem parse_pretty_eq_ofJson {v : Json} (hsmall : v.HasSmallNumbers)
    (hdepth : v.height ≤ Json.maxDepth) : parse v.pretty = ofJson v.sorted := by
  unfold parse
  rw [Json.parse_pretty hsmall hdepth]

/-- A file that holds a text is read as the text. -/
theorem parseFile_encode (text : String) :
    parseFile (Text.Utf8.encode text.toList) = parse text := by
  unfold parseFile FileTree.text?
  rw [Text.Utf8.decodeStrict?_encode, Option.map_some, String.ofList_toList]

end RollupInput.Catalog
