import RollupInput.Proofs.Declaration.Groups
import RollupInput.Proofs.Declaration.Keyword

/-!
# Definitions in declarations

A definition is the text from its keyword to the closing brace, and nothing behind it is looked at
to read it. The structs that are taken out of declarations are those of the definitions that stand
in them. What is left has no keyword, also where a definition has been taken out of the middle.
-/

namespace RollupInput.Declaration

open Abi

/-! ## Where definitions stand -/

/-- No keyword comes to stand where a definition is taken out, if none stands behind it. -/
theorem cutAtKeyword?_before_append {inWord : Bool} {cs before after tail : List Char}
    (h : cutAtKeyword? inWord cs = some (before, after))
    (htail : cutAtKeyword? false tail = none) : cutAtKeyword? inWord (before ++ tail) = none := by
  induction cs generalizing inWord before with
  | nil => cases h
  | cons c cs ih =>
    have hall := of_cutAtKeyword? h
    rw [cutAtKeyword?] at h
    split at h
    · cases h
      rw [List.nil_append, hall.2.2.1 rfl]
      exact htail
    · rename_i hnot
      obtain ⟨p, hp, hpair⟩ := Option.map_eq_some_iff.mp h
      cases hpair
      rw [List.cons_append, cutAtKeyword?, ih hp, if_neg ?_, Option.map_none]
      -- A keyword at the front would end in front of `tail`, where it would have been found.
      rw [Bool.and_eq_true, Bool.and_eq_true, Bool.not_eq_true', Bool.not_eq_true',
        List.isPrefixOf_iff_prefix]
      rintro ⟨⟨hword, hprefix⟩, hafter⟩
      have hends : ¬(c :: p.1) <+: keyword := by
        rintro hshort
        obtain ⟨x, hx⟩ : ∃ x, (c :: p.1).getLast? = some x :=
          ⟨_, List.getLast?_eq_some_getLast (List.cons_ne_nil _ _)⟩
        have hchar := isIdentifierChar_of_mem_keyword x
          (hshort.subset (List.mem_of_mem_getLast? hx))
        rw [hall.2.2.2 x hx] at hchar
        cases hchar
      obtain ⟨more, hmore⟩ := (List.prefix_or_prefix_of_prefix hprefix
        (List.prefix_append (c :: p.1) tail)).resolve_right hends
      cases more with
      | nil =>
        rw [List.append_nil] at hmore
        exact hends (hmore ▸ List.prefix_rfl)
      | cons y more =>
        refine hnot ?_
        rw [hall.1, ← hmore]
        rw [← List.cons_append, ← hmore] at hafter
        rw [Bool.and_eq_true, Bool.and_eq_true, Bool.not_eq_true', Bool.not_eq_true',
          List.isPrefixOf_iff_prefix, List.append_assoc, List.drop_left]
        rw [List.append_assoc, List.drop_left] at hafter
        exact ⟨⟨hword, List.prefix_append _ _⟩, hafter⟩

/-- The keyword is found behind blanks. -/
theorem cutAtKeyword?_gap_append {gap after : List Char} (hgap : Text.IsGap gap)
    (hafter : startsInWord after = false) :
    cutAtKeyword? false (gap ++ (keyword ++ after)) = some (gap, after) := by
  induction gap with
  | nil =>
    have hhere : (!false && keyword.isPrefixOf (keyword ++ after) &&
        !startsInWord ((keyword ++ after).drop keyword.length)) = true := by
      rw [List.drop_left, hafter, List.isPrefixOf_iff_prefix.mpr (List.prefix_append _ _)]
      rfl
    exact if_pos hhere
  | cons b gap ih =>
    have hb := hgap b List.mem_cons_self
    have hchar : Text.isIdentifierChar b = false := by
      rw [Bool.eq_false_iff]
      intro hc
      rw [Text.isBlank_of_isIdentifierChar hc] at hb
      cases hb
    have hnot : ¬(!false && keyword.isPrefixOf (b :: (gap ++ (keyword ++ after))) &&
        !startsInWord ((b :: (gap ++ (keyword ++ after))).drop keyword.length)) = true := by
      rw [Bool.and_eq_true, Bool.and_eq_true, List.isPrefixOf_iff_prefix]
      rintro ⟨⟨-, rest, hrest⟩, -⟩
      rw [← (List.cons.inj hrest).1] at hb
      cases hb
    rw [List.cons_append, cutAtKeyword?, if_neg hnot, hchar,
      ih fun x hx => hgap x (List.mem_cons_of_mem b hx)]
    rfl

/-! ## Definitions -/

/-- A definition as it stands in a declaration. -/
structure Definition where
  /-- The text behind the keyword, up to the closing brace. -/
  body : List Char
  /-- The struct that is defined. -/
  struct : StructDef

/-- The text of a definition. -/
def Definition.text (d : Definition) : List Char := keyword ++ d.body

/-- Whether a definition is read, whatever stands behind it. -/
structure Definition.IsRead (d : Definition) : Prop where
  /-- The keyword ends in front of the body. -/
  word : ∀ rest, startsInWord (d.body ++ rest) = false
  /-- The struct is read from the body. -/
  read : ∀ rest, readStruct (d.body ++ rest) = .ok (d.struct, rest)

/-- The definitions that stand in a text, in order. -/
def definitionsIn (cs : List Char) : List Definition :=
  match _hc : cutAtKeyword? false cs with
  | none => []
  | some (_, after) =>
    match _hs : readStruct after with
    | .error _ => []
    | .ok (d, rest) => ⟨after.take (after.length - rest.length), d⟩ :: definitionsIn rest
termination_by cs.length
decreasing_by
  have h₁ := length_cutAtKeyword_le _hc
  have h₂ := length_readStruct_le _hs
  omega

/-- The struct of a text in front of the braces and a text between them. -/
def structOf (front between : List Char) : Except Fault StructDef :=
  let name := Text.trim front
  let fields := ((cutAtSeparators ';' between).map Text.trim).filter (!·.isEmpty)
  if !Text.isIdentifier name then .error (.structName name)
  else if fields.isEmpty then .error (.structEmpty name)
  else .ok ⟨name, fields⟩

/-- A struct is read from the text up to the first closing brace, whatever stands behind it. -/
theorem readStruct_append {front between : List Char} (hfront : ∀ c ∈ front, (c != '\x7b') = true)
    (hbetween : ∀ c ∈ between, (c != '\x7d') = true) (rest : List Char) :
    readStruct (front ++ '\x7b' :: (between ++ '\x7d' :: rest)) =
      (structOf front between).map (·, rest) := by
  unfold readStruct structOf
  rw [List.takeWhile_append_of_pos hfront, List.takeWhile_cons_of_neg (by decide), List.append_nil,
    List.dropWhile_append_of_pos hfront, List.dropWhile_cons_of_neg (by decide)]
  dsimp only
  rw [List.takeWhile_append_of_pos hbetween, List.takeWhile_cons_of_neg (by decide),
    List.append_nil, List.dropWhile_append_of_pos hbetween,
    List.dropWhile_cons_of_neg (by decide)]
  dsimp only
  split
  · rfl
  · split <;> rfl

/-- A text in which a character is found is split at the first of it. -/
theorem eq_append_of_dropWhile {stop b : Char} {cs rest : List Char}
    (h : cs.dropWhile (· != stop) = b :: rest) :
    cs = cs.takeWhile (· != stop) ++ stop :: rest := by
  have hnot := List.head?_dropWhile_not (· != stop) cs
  rw [h] at hnot
  obtain rfl : b = stop := bne_eq_false_iff_eq.mp hnot
  rw [← h]
  exact List.takeWhile_append_dropWhile.symm

/-- Reading a struct looks at nothing behind the brace that closes it. -/
theorem of_readStruct {cs rest : List Char} {d : StructDef} (h : readStruct cs = .ok (d, rest)) :
    ∃ body, cs = body ++ rest ∧ body ≠ [] ∧
      ∀ other, readStruct (body ++ other) = .ok (d, other) := by
  have hbraces : ∃ inside behind, cs = cs.takeWhile (· != '\x7b') ++ '\x7b' :: inside ∧
      inside = inside.takeWhile (· != '\x7d') ++ '\x7d' :: behind := by
    unfold readStruct at h
    dsimp only at h
    split at h
    · cases h
    · rename_i brace inside hinside
      split at h
      · cases h
      · split at h
        · cases h
        · rename_i closing behind hbehind
          exact ⟨inside, behind, eq_append_of_dropWhile hinside, eq_append_of_dropWhile hbehind⟩
  obtain ⟨inside, behind, hcs, hinside⟩ := hbraces
  have hread := @readStruct_append (cs.takeWhile (· != '\x7b')) (inside.takeWhile (· != '\x7d'))
    (fun _ hc => List.mem_takeWhile_imp (p := (· != '\x7b')) hc)
    fun _ hc => List.mem_takeWhile_imp (p := (· != '\x7d')) hc
  have hown := hread behind
  rw [← hinside, ← hcs, h] at hown
  obtain ⟨found, hfound, hpair⟩ := ok_of_map hown.symm
  cases hpair
  refine ⟨cs.takeWhile (· != '\x7b') ++
    '\x7b' :: (inside.takeWhile (· != '\x7d') ++ ['\x7d']), ?_, ?_, fun other => ?_⟩
  · rw [List.append_assoc, List.cons_append, List.append_assoc, List.singleton_append, ← hinside]
    exact hcs
  · exact List.append_ne_nil_of_right_ne_nil _ (List.cons_ne_nil _ _)
  · rw [List.append_assoc, List.cons_append, List.append_assoc, List.singleton_append, hread,
      hfound]
    rfl

/-- A text without a keyword has no definition. -/
theorem definitionsIn_of_none {cs : List Char} (h : cutAtKeyword? false cs = none) :
    definitionsIn cs = [] := by
  rw [definitionsIn]
  split
  · rfl
  · rename_i hcut
    rw [h] at hcut
    cases hcut

/-- The first definition of a text is the one that is read behind its first keyword. -/
theorem definitionsIn_of_cut {cs before after rest : List Char} {d : StructDef}
    (hcut : cutAtKeyword? false cs = some (before, after))
    (hread : readStruct after = .ok (d, rest)) :
    ∃ first : Definition, first.IsRead ∧ first.struct = d ∧
      definitionsIn cs = first :: definitionsIn rest := by
  obtain ⟨body, rfl, hne, hbody⟩ := of_readStruct hread
  obtain ⟨-, hafter, -, -⟩ := of_cutAtKeyword? hcut
  refine ⟨⟨body, d⟩, ⟨fun other => ?_, hbody⟩, rfl, ?_⟩
  · obtain ⟨c, more, rfl⟩ := List.exists_cons_of_ne_nil hne
    exact hafter
  · rw [definitionsIn]
    split
    · rename_i hnone
      rw [hcut] at hnone
      cases hnone
    · rename_i found hsome
      rw [hcut] at hsome
      cases hsome
      split
      · rename_i hfault
        rw [hread] at hfault
        cases hfault
      · rename_i other tail hsame
        rw [hread] at hsame
        cases hsame
        rw [List.length_append, Nat.add_sub_cancel, List.take_left]

/-- The structs that are taken out of a declaration are those of its definitions, and no keyword is
left in it. -/
theorem of_takeStructs {known structs : List StructDef} {cs left : List Char}
    (h : takeStructs known cs = .ok (structs, left)) :
    structs = ((definitionsIn cs).map Definition.struct).reverse ++ known ∧
      (∀ d ∈ definitionsIn cs, d.IsRead) ∧ cutAtKeyword? false left = none := by
  fun_induction takeStructs known cs generalizing left with
  | case1 known cs hcut =>
    cases h
    rw [definitionsIn_of_none hcut]
    exact ⟨rfl, List.forall_mem_nil _, hcut⟩
  | case2 => cases h
  | case3 => cases h
  | case4 known cs before after hcut d rest hread hnew ih =>
    obtain ⟨taken, htaken, hpair⟩ := ok_of_map h
    cases hpair
    obtain ⟨hstructs, hall, hleft⟩ := ih htaken
    obtain ⟨first, hfirst, rfl, hdefinitions⟩ := definitionsIn_of_cut hcut hread
    rw [hdefinitions]
    refine ⟨?_, List.forall_mem_cons.mpr ⟨hfirst, hall⟩, cutAtKeyword?_before_append hcut hleft⟩
    rw [hstructs, List.map_cons, List.reverse_cons, List.append_assoc, List.singleton_append]

/-- The structs that are taken out of declarations are those of their definitions, and no keyword is
left. -/
theorem of_takeAllStructs {known structs : List StructDef} {declarations : List String}
    {lefts : List (String × List Char)}
    (h : takeAllStructs known declarations = .ok (structs, lefts)) :
    structs = ((declarations.flatMap fun s => definitionsIn s.toList).map
        Definition.struct).reverse ++ known ∧
      (∀ s ∈ declarations, ∀ d ∈ definitionsIn s.toList, d.IsRead) ∧
      ∀ group ∈ lefts, cutAtKeyword? false group.2 = none := by
  induction declarations generalizing known lefts with
  | nil =>
    cases h
    exact ⟨rfl, List.forall_mem_nil _, List.forall_mem_nil _⟩
  | cons declaration rest ih =>
    obtain ⟨more, left, others, htake, hrest, rfl⟩ := ok_of_takeAllStructs h
    obtain ⟨hmore, hread, hleft⟩ := of_takeStructs htake
    obtain ⟨hstructs, hall, hlefts⟩ := ih hrest
    refine ⟨?_, List.forall_mem_cons.mpr ⟨hread, hall⟩, List.forall_mem_cons.mpr ⟨hleft, hlefts⟩⟩
    rw [hstructs, hmore, List.flatMap_cons, List.map_append, List.reverse_append, List.append_assoc]

end RollupInput.Declaration
