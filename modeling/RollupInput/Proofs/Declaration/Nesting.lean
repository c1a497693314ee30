import RollupInput.Proofs.Declaration.Balance
import RollupInput.Proofs.Text.Blanks

/-!
# Nested texts

A text is nested if its round and square brackets pair up, and characters outside of them satisfy
a condition. The passes that keep count of open brackets go through a nested text as through one
character: a cut falls into it only where the condition admits it.
-/

namespace RollupInput.Declaration

/-- A bracket of the two kinds that types and tuples are written with. -/
def IsBracketPair (l r : Char) : Prop := (l = '(' ∧ r = ')') ∨ (l = '[' ∧ r = ']')

/-- A text whose brackets pair up and whose characters outside of all brackets satisfy `p`. Inside
of brackets every character may stand. -/
inductive Nested : (Char → Prop) → List Char → Prop where
  /-- The empty text. -/
  | nil {p : Char → Prop} : Nested p []
  /-- A character outside of brackets in front of a nested text. -/
  | plain {p : Char → Prop} {c : Char} {cs : List Char} (hc : IsPlain c) (hp : p c)
      (hcs : Nested p cs) : Nested p (c :: cs)
  /-- Brackets around a nested text, in front of another one. -/
  | group {p : Char → Prop} {l r : Char} {inner cs : List Char} (hlr : IsBracketPair l r)
      (hinner : Nested (fun _ => True) inner) (hcs : Nested p cs) :
      Nested p (l :: (inner ++ r :: cs))

namespace Nested

variable {p q : Char → Prop}

/-- A weaker condition admits more. -/
theorem mono {cs : List Char} (h : Nested p cs) (hpq : ∀ c, p c → q c) : Nested q cs := by
  induction h with
  | nil => exact .nil
  | plain hc hp _ ih => exact .plain hc (hpq _ hp) (ih hpq)
  | group hlr hinner _ _ ih => exact .group hlr hinner (ih hpq)

/-- Nested texts behind each other are nested. -/
theorem append {cs ds : List Char} (hcs : Nested p cs) (hds : Nested p ds) :
    Nested p (cs ++ ds) := by
  induction hcs with
  | nil => exact hds
  | plain hc hp _ ih => exact .plain hc hp (ih hds)
  | group hlr hinner _ _ ih =>
    rw [List.cons_append, List.append_assoc, List.cons_append]
    exact .group hlr hinner (ih hds)

/-- A text without brackets is nested. -/
theorem of_forall {cs : List Char} (hplain : ∀ c ∈ cs, IsPlain c) (hp : ∀ c ∈ cs, p c) :
    Nested p cs := by
  induction cs with
  | nil => exact .nil
  | cons c cs ih =>
    refine .plain (hplain c List.mem_cons_self) (hp c List.mem_cons_self) (ih ?_ ?_)
    · intro x hx
      exact hplain x (List.mem_cons_of_mem c hx)
    · intro x hx
      exact hp x (List.mem_cons_of_mem c hx)

/-- A bracketed text by itself. -/
theorem bracketed {l r : Char} {inner : List Char} (hlr : IsBracketPair l r)
    (hinner : Nested (fun _ => True) inner) : Nested p (l :: (inner ++ [r])) :=
  .group hlr hinner .nil

end Nested

/-- The left bracket of a pair opens and the right one closes. -/
theorem IsBracketPair.opens_closes {l r : Char} (h : IsBracketPair l r) :
    opens l = true ∧ opens r = false ∧ closes r = true := by
  rcases h with ⟨rfl, rfl⟩ | ⟨rfl, rfl⟩ <;> decide

/-- The left bracket of a pair adds one to the depth, and the right one takes it away. -/
theorem IsBracketPair.bracketStep_eq {l r : Char} (h : IsBracketPair l r) :
    bracketStep l = 1 ∧ bracketStep r = -1 := by
  obtain ⟨hl, hr, hr'⟩ := h.opens_closes
  exact ⟨by simp [bracketStep, hl], by simp [bracketStep, hr, hr']⟩

/-- A nested text closes what it opens. -/
theorem Nested.depthOf_eq {p : Char → Prop} {cs : List Char} (h : Nested p cs) :
    depthOf cs = 0 := by
  induction h with
  | nil => rfl
  | plain hc _ _ ih => simp [bracketStep_of_isPlain hc, ih]
  | @group p l r inner cs hlr _ _ ihinner ih =>
    obtain ⟨hleft, hright⟩ := hlr.bracketStep_eq
    simp [hleft, hright, ihinner, ih]

/-- A nested text has no separator outside of brackets, if it is inside of some or none stands where
the condition holds. -/
theorem Nested.not_hasOuter {separator : Char} (hsep : IsPlain separator) {p : Char → Prop}
    {depth : Int} (hdepth : 0 ≤ depth) {cs : List Char} (h : Nested p cs)
    (hp : depth = 0 → ∀ c, p c → c ≠ separator) : ¬HasOuter separator depth cs := by
  induction h generalizing depth with
  | nil => exact not_hasOuter_nil separator depth
  | @plain p c cs hc hpc _ ih =>
    rw [hasOuter_cons_iff, bracketStep_of_isPlain hc, Int.add_zero, not_or]
    exact ⟨fun h => hp h.2 c hpc h.1, ih hdepth hp⟩
  | @group p l r inner cs hlr hinner _ ihinner ih =>
    obtain ⟨hl, -, hr⟩ := hlr.opens_closes
    obtain ⟨hleft, hright⟩ := hlr.bracketStep_eq
    have hl' : l ≠ separator := by
      rintro rfl
      simp [hsep.1] at hl
    have hr' : r ≠ separator := by
      rintro rfl
      simp [hsep.2] at hr
    have hin := @ihinner (depth + 1) (by omega) (by omega)
    have hback : depth + 1 + depthOf inner + -1 = depth := by
      rw [hinner.depthOf_eq]
      omega
    rw [hasOuter_cons_iff, hasOuter_append_iff, hasOuter_cons_iff, hleft, hright, hback]
    simp [hl', hr', hin, ih hdepth hp]

/-- Nested texts that hold no separator outside of brackets, with separators between them, are cut
into themselves. -/
theorem cutAtSeparators_join {separator : Char} (hsep : IsPlain separator) {texts : List (List Char)}
    (hne : texts ≠ []) (h : ∀ cs ∈ texts, Nested (· ≠ separator) cs) :
    cutAtSeparators separator (Text.join [separator] texts) = texts := by
  refine cutAtSeparators_join_of_closed hsep hne fun cs hcs => ⟨(h cs hcs).depthOf_eq, ?_⟩
  exact (h cs hcs).not_hasOuter hsep (Int.le_refl 0) fun _ _ hc => hc

/-- No type ends inside of a nested text without blanks outside of brackets. -/
theorem cutTypeFrom_of_nested {p : Char → Prop} {depth : Nat} {cs : List Char} (h : Nested p cs)
    (hp : depth = 0 → ∀ c, p c → Text.isBlank c = false) (rest : List Char) :
    cutTypeFrom depth (cs ++ rest) =
      (cutTypeFrom depth rest).map fun q => (cs ++ q.1, q.2) := by
  induction h generalizing depth rest with
  | nil =>
    rw [List.nil_append]
    cases cutTypeFrom depth rest <;> rfl
  | @plain p c cs hc hpc _ ih =>
    have hround : ¬(c == '(' || c == '[') = true := by
      intro hx
      have hopens := hc.1
      unfold opens at hopens
      rw [hx, Bool.true_or] at hopens
      cases hopens
    have hsquare : ¬(c == ')' || c == ']') = true := by
      intro hx
      have hcloses := hc.2
      unfold closes at hcloses
      rw [hx, Bool.true_or] at hcloses
      cases hcloses
    have hblank : ¬(Text.isBlank c && depth == 0) = true := by
      rw [Bool.and_eq_true, beq_iff_eq]
      rintro ⟨hb, hdepth⟩
      rw [hp hdepth c hpc] at hb
      cases hb
    rw [List.cons_append, cutTypeFrom.eq_def]
    dsimp only
    rw [if_neg hround, if_neg hsquare, if_neg hblank, ih hp rest, Option.map_map]
    rfl
  | @group p l r inner cs hlr _ _ ihinner ih =>
    have hleft : (l == '(' || l == '[') = true := by
      rcases hlr with ⟨rfl, -⟩ | ⟨rfl, -⟩ <;> rfl
    have hright : ¬(r == '(' || r == '[') = true ∧ (r == ')' || r == ']') = true := by
      rcases hlr with ⟨-, rfl⟩ | ⟨-, rfl⟩ <;> decide
    have hclose : cutTypeFrom (depth + 1) (r :: (cs ++ rest)) =
        (cutTypeFrom depth (cs ++ rest)).map fun q => (r :: q.1, q.2) := by
      rw [cutTypeFrom.eq_def]
      dsimp only
      rw [if_neg hright.1, if_pos hright.2]
    have hinner := @ihinner (depth + 1) (by omega) (r :: (cs ++ rest))
    rw [hclose, ih hp rest, Option.map_map, Option.map_map] at hinner
    rw [List.cons_append, List.append_assoc, List.cons_append, cutTypeFrom.eq_def]
    dsimp only
    rw [if_pos hleft, hinner, Option.map_map]
    congr 1
    funext q
    simp only [Function.comp_apply, List.append_assoc, List.cons_append]

/-- The type at the head of a parameter goes up to the first blank outside of brackets. -/
theorem cutType_of_nested {cs rest : List Char} (h : Nested (Text.isBlank · = false) cs)
    (hrest : Text.EndsWord rest) : cutType? (cs ++ rest) = some (cs, rest) := by
  have hstop : cutTypeFrom 0 rest = some ([], rest) := by
    cases rest with
    | nil => rfl
    | cons b rest =>
      have hb : Text.isBlank b = true := hrest b rfl
      have hopen : ¬(b == '(' || b == '[') = true := by
        rw [Bool.or_eq_true, beq_iff_eq, beq_iff_eq]
        rintro (rfl | rfl) <;> cases hb
      have hclose : ¬(b == ')' || b == ']') = true := by
        rw [Bool.or_eq_true, beq_iff_eq, beq_iff_eq]
        rintro (rfl | rfl) <;> cases hb
      rw [cutTypeFrom.eq_def]
      dsimp only
      rw [if_neg hopen, if_neg hclose, hb]
      rfl
  unfold cutType?
  rw [cutTypeFrom_of_nested h (fun _ _ hc => hc), hstop, Option.map_some, List.append_nil]

end RollupInput.Declaration
