import RollupInput.Abi.TypeText
import RollupInput.Proofs.Abi.Typing
import RollupInput.Proofs.Mapped

/-!
# Types that can be written

Every way of writing a type comes to a type that is put together from named ones by array suffixes
and tuples. What holds of the named types and is kept by both holds of all types that are read from
text; that byte strings of fixed size fit a word is such a property.
-/

namespace RollupInput.Abi

namespace AbiType

/-- Whether a type can be written: it has a name, or is put together from types that can. -/
inductive IsExpressible : AbiType → Prop where
  /-- A type that a name is given to. -/
  | named {name : List Char} {t : AbiType} (h : ofName name = .ok t) : IsExpressible t
  /-- A type with an array suffix. -/
  | suffixed {t : AbiType} (s : Suffix) (h : IsExpressible t) : IsExpressible (t.suffixed s)
  /-- A tuple of types. -/
  | tuple {ts : List AbiType} (h : ∀ t ∈ ts, IsExpressible t) : IsExpressible (.tuple ts)

/-- A type that can be written can be written with array suffixes. -/
theorem IsExpressible.suffixes {t : AbiType} (h : t.IsExpressible) (suffixes : List Suffix) :
    (suffixes.foldl AbiType.suffixed t).IsExpressible := by
  induction suffixes generalizing t with
  | nil => exact h
  | cons s rest ih => exact ih (h.suffixed s)

mutual

/-- A specifier writes a type that can be written. -/
theorem isExpressible_of_ofText (written : TypeText) {t : AbiType} (h : ofText written = .ok t) :
    t.IsExpressible := by
  cases written with
  | named identifier suffixes =>
    rw [ofText] at h
    obtain ⟨u, hu, rfl⟩ := ok_of_map h
    exact (IsExpressible.named hu).suffixes suffixes
  | tuple fields suffixes =>
    rw [ofText] at h
    obtain ⟨ts, hts, rfl⟩ := ok_of_map h
    exact (IsExpressible.tuple (forall_isExpressible_of_ofTexts fields hts)).suffixes suffixes

/-- Specifiers write types that can be written. -/
theorem forall_isExpressible_of_ofTexts (written : List TypeText) {ts : List AbiType}
    (h : ofTexts written = .ok ts) : ∀ t ∈ ts, t.IsExpressible := by
  cases written with
  | nil =>
    rw [ofTexts] at h
    cases h
    intro t ht
    cases ht
  | cons first rest =>
    rw [ofTexts] at h
    cases hfirst : ofText first with
    | error e =>
      rw [hfirst] at h
      cases h
    | ok t =>
      rw [hfirst] at h
      obtain ⟨more, hmore, rfl⟩ := ok_of_map h
      exact List.forall_mem_cons.mpr ⟨isExpressible_of_ofText first hfirst,
        forall_isExpressible_of_ofTexts rest hmore⟩

end

/-- A text writes a type that can be written. -/
theorem isExpressible_of_parse {cs : List Char} {t : AbiType} (h : parse cs = .ok t) :
    t.IsExpressible := by
  unfold parse at h
  split at h
  · cases h
  · exact isExpressible_of_ofText _ h

/-- A byte string of fixed size that has a name fits a word. -/
theorem fitsWords_of_ofName {name : List Char} {t : AbiType} (h : ofName name = .ok t) :
    t.fitsWords = true := by
  unfold ofName at h
  dsimp only at h
  -- Only the names of byte strings of fixed size bring a size that is looked at.
  repeat' split at h
  all_goals cases h
  all_goals try rfl
  rename_i hsize
  rw [Bool.and_eq_true] at hsize
  exact hsize.2

/-- Types of byte strings that fit words are those of which each is one. -/
theorem allFitWords_iff {ts : List AbiType} :
    allFitWords ts = true ↔ ∀ t ∈ ts, t.fitsWords = true := by
  induction ts with
  | nil => simp [allFitWords]
  | cons t rest ih => rw [allFitWords, Bool.and_eq_true, ih, List.forall_mem_cons]

/-- Every byte string of fixed size in a type that can be written fits a word. -/
theorem fitsWords_of_isExpressible {t : AbiType} (h : t.IsExpressible) : t.fitsWords = true := by
  induction h with
  | named h => exact fitsWords_of_ofName h
  | suffixed s _ ih => cases s <;> exact ih
  | tuple _ ih =>
    rw [fitsWords]
    exact allFitWords_iff.mpr ih

end AbiType

end RollupInput.Abi
