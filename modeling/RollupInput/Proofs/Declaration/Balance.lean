import RollupInput.Declaration.Params

/-!
# Cuts outside of brackets

A cut falls on a separator in front of which as many brackets have opened as closed. The parts of a
text, with the separators between them, are the text again; if its brackets are balanced, so are those
of each part, no part has a separator outside of its brackets, and there are no other such parts. The
depth from which a text is scanned is carried through all of this.
-/

namespace RollupInput.Declaration

/-- A character that is no bracket of any kind. -/
def IsPlain (c : Char) : Prop := opens c = false ∧ closes c = false

instance : DecidablePred IsPlain := fun _ => inferInstanceAs (Decidable (_ ∧ _))

/-- What a character adds to the number of open brackets. -/
def bracketStep (c : Char) : Int := if opens c then 1 else if closes c then -1 else 0

/-- How many more brackets of any kind open than close in a text. -/
def depthOf : List Char → Int
  | [] => 0
  | c :: cs => bracketStep c + depthOf cs

/-- Whether brackets are balanced in a text behind a number of open ones, all kinds counted together:
nowhere have more closed than opened, and at the end as many. -/
structure IsBalancedFrom (depth : Int) (cs : List Char) : Prop where
  /-- The depth never falls below zero. -/
  nonneg : ∀ before after, cs = before ++ after → 0 ≤ depth + depthOf before
  /-- At the end it is zero. -/
  closed : depth + depthOf cs = 0

/-- Whether a text has a separator outside of brackets, behind a number of open ones. -/
def HasOuter (separator : Char) (depth : Int) (cs : List Char) : Prop :=
  ∃ before after, cs = before ++ separator :: after ∧ depth + depthOf before = 0

/-- Whether a text that is scanned from a depth is a part between separators: its brackets are
balanced, and no separator stands outside of them. -/
structure IsPartFrom (separator : Char) (depth : Int) (part : List Char) : Prop where
  /-- The brackets are balanced. -/
  balanced : IsBalancedFrom depth part
  /-- No separator is outside of them. -/
  noOuter : ¬HasOuter separator depth part

/-- Whether texts are the parts of a text between the separators outside of brackets. A text without
any separator is one part. -/
structure IsSplit (separator : Char) (cs : List Char) (parts : List (List Char)) : Prop where
  /-- There is a part. -/
  ne_nil : parts ≠ []
  /-- With separators between them the parts are the text. -/
  join_eq : Text.join [separator] parts = cs
  /-- Each is balanced and has no separator outside of its brackets. -/
  isPart : ∀ part ∈ parts, IsPartFrom separator 0 part

/-! ## Depths -/

@[simp] theorem depthOf_nil : depthOf [] = 0 := rfl

@[simp] theorem depthOf_cons (c : Char) (cs : List Char) :
    depthOf (c :: cs) = bracketStep c + depthOf cs := rfl

/-- Depths of texts that stand one after the other add up. -/
@[simp] theorem depthOf_append (cs ds : List Char) : depthOf (cs ++ ds) = depthOf cs + depthOf ds := by
  induction cs with
  | nil => simp
  | cons c cs ih => rw [List.cons_append, depthOf_cons, ih, depthOf_cons, Int.add_assoc]

/-- A character that is no bracket leaves the depth as it is. -/
theorem bracketStep_of_isPlain {c : Char} (h : IsPlain c) : bracketStep c = 0 := by
  simp [bracketStep, h.1, h.2]

/-- The empty text is balanced behind no open brackets. -/
theorem isBalancedFrom_nil_iff {depth : Int} : IsBalancedFrom depth [] ↔ depth = 0 := by
  constructor
  · intro h
    have hclosed := h.closed
    simpa using hclosed
  · rintro rfl
    refine ⟨?_, by simp⟩
    intro before after heq
    obtain ⟨rfl, -⟩ := List.append_eq_nil_iff.mp heq.symm
    simp

/-- A text is balanced if it is so behind its first character. -/
theorem isBalancedFrom_cons_iff {depth : Int} {c : Char} {cs : List Char} :
    IsBalancedFrom depth (c :: cs) ↔ 0 ≤ depth ∧ IsBalancedFrom (depth + bracketStep c) cs := by
  constructor
  · rintro ⟨hnonneg, hclosed⟩
    have hfirst := hnonneg [] (c :: cs) rfl
    refine ⟨by simpa using hfirst, ?_, ?_⟩
    · rintro before after rfl
      have hbefore := hnonneg (c :: before) after rfl
      rw [depthOf_cons] at hbefore
      omega
    · rw [depthOf_cons] at hclosed
      omega
  · rintro ⟨hdepth, hnonneg, hclosed⟩
    refine ⟨?_, by rw [depthOf_cons]; omega⟩
    intro before after heq
    cases before with
    | nil => simpa using hdepth
    | cons b before =>
      obtain ⟨rfl, hcs⟩ := List.cons.inj heq
      have hbefore := hnonneg before after hcs
      rw [depthOf_cons]
      omega

instance decidableIsBalancedFrom : ∀ depth cs, Decidable (IsBalancedFrom depth cs)
  | _, [] => decidable_of_iff _ isBalancedFrom_nil_iff.symm
  | depth, c :: cs =>
    have := decidableIsBalancedFrom (depth + bracketStep c) cs
    decidable_of_iff _ isBalancedFrom_cons_iff.symm

/-- The empty text has no separator. -/
theorem not_hasOuter_nil (separator : Char) (depth : Int) : ¬HasOuter separator depth [] := by
  simp [HasOuter]

/-- A separator stands at the first character or behind it. -/
theorem hasOuter_cons_iff {separator : Char} {depth : Int} {c : Char} {cs : List Char} :
    HasOuter separator depth (c :: cs) ↔
      (c = separator ∧ depth = 0) ∨ HasOuter separator (depth + bracketStep c) cs := by
  constructor
  · rintro ⟨before, after, heq, hdepth⟩
    cases before with
    | nil =>
      obtain ⟨rfl, -⟩ := List.cons.inj heq
      exact .inl ⟨rfl, by simpa using hdepth⟩
    | cons b before =>
      obtain ⟨rfl, hcs⟩ := List.cons.inj heq
      rw [depthOf_cons] at hdepth
      exact .inr ⟨before, after, hcs, by omega⟩
  · rintro (⟨rfl, hdepth⟩ | ⟨before, after, rfl, hdepth⟩)
    · exact ⟨[], cs, rfl, by simpa using hdepth⟩
    · refine ⟨c :: before, after, rfl, ?_⟩
      rw [depthOf_cons]
      omega

/-- A separator stands in front of a place or behind it. -/
theorem hasOuter_append_iff {separator : Char} {depth : Int} {cs ds : List Char} :
    HasOuter separator depth (cs ++ ds) ↔
      HasOuter separator depth cs ∨ HasOuter separator (depth + depthOf cs) ds := by
  induction cs generalizing depth with
  | nil => simp [not_hasOuter_nil]
  | cons c cs ih =>
    rw [List.cons_append, hasOuter_cons_iff, hasOuter_cons_iff, ih, depthOf_cons, or_assoc,
      Int.add_assoc]

/-- A text is a part if it is one behind its first character, which is no separator outside of
brackets. -/
theorem isPartFrom_cons_iff {separator : Char} {depth : Int} {c : Char} {cs : List Char} :
    IsPartFrom separator depth (c :: cs) ↔
      0 ≤ depth ∧ ¬(c = separator ∧ depth = 0) ∧
        IsPartFrom separator (depth + bracketStep c) cs := by
  constructor
  · rintro ⟨hbalanced, hnone⟩
    obtain ⟨hdepth, hrest⟩ := isBalancedFrom_cons_iff.mp hbalanced
    rw [hasOuter_cons_iff, not_or] at hnone
    exact ⟨hdepth, hnone.1, hrest, hnone.2⟩
  · rintro ⟨hdepth, hfirst, hbalanced, hnone⟩
    refine ⟨isBalancedFrom_cons_iff.mpr ⟨hdepth, hbalanced⟩, ?_⟩
    rw [hasOuter_cons_iff, not_or]
    exact ⟨hfirst, hnone⟩

/-! ## One cut -/

/-- A text is cut at its first character if that is a separator outside of brackets; otherwise the
character stands on the first part of what follows. -/
theorem cutFrom_cons_eq_ite (separator : Char) (depth : Int) (c : Char) (cs : List Char) :
    cutFrom separator depth (c :: cs) =
      if IsPlain c ∧ c = separator ∧ depth = 0 then [] :: cutFrom separator 0 cs
      else onFirst c (cutFrom separator (depth + bracketStep c) cs) := by
  rw [cutFrom]
  by_cases hopens : opens c = true
  · simp [IsPlain, bracketStep, hopens]
  · by_cases hcloses : closes c = true
    · simp [IsPlain, bracketStep, hopens, hcloses, Int.sub_eq_add_neg]
    · by_cases hcut : c = separator ∧ depth = 0
      · obtain ⟨rfl, rfl⟩ := hcut
        simp [IsPlain, hopens, hcloses]
      · simp [IsPlain, bracketStep, hopens, hcloses, hcut]

/-- Put a text in front of the first part. -/
def ontoFirst (cs : List Char) (parts : List (List Char)) : List (List Char) :=
  cs.foldr onFirst parts

/-- A text in front of a first part makes it longer. -/
theorem ontoFirst_cons (cs part : List Char) (parts : List (List Char)) :
    ontoFirst cs (part :: parts) = (cs ++ part) :: parts := by
  induction cs with
  | nil => rfl
  | cons c cs ih =>
    have hstep : ontoFirst (c :: cs) (part :: parts) = onFirst c (ontoFirst cs (part :: parts)) :=
      rfl
    rw [hstep, ih, onFirst, List.cons_append]

/-- No cut falls into a text that has no separator outside of brackets. -/
theorem cutFrom_append {separator : Char} {depth : Int} {cs : List Char}
    (h : ¬HasOuter separator depth cs) (rest : List Char) :
    cutFrom separator depth (cs ++ rest) =
      ontoFirst cs (cutFrom separator (depth + depthOf cs) rest) := by
  induction cs generalizing depth with
  | nil => simp [ontoFirst]
  | cons c cs ih =>
    rw [hasOuter_cons_iff, not_or] at h
    have hcut : ¬(IsPlain c ∧ c = separator ∧ depth = 0) := fun hc => h.1 hc.2
    rw [List.cons_append, cutFrom_cons_eq_ite, if_neg hcut, ih h.2, depthOf_cons, Int.add_assoc]
    rfl

/-! ## All cuts -/

/-- A text is put together again from what it is cut into, at whatever depth it is scanned. -/
theorem join_cutFrom (separator : Char) (depth : Int) (cs : List Char) :
    Text.join [separator] (cutFrom separator depth cs) = cs := by
  have honto (c : Char) {parts : List (List Char)} (hne : parts ≠ []) :
      Text.join [separator] (onFirst c parts) = c :: Text.join [separator] parts := by
    match parts with
    | [] => exact absurd rfl hne
    | [part] => rfl
    | part :: second :: rest => rfl
  have hempty {parts : List (List Char)} (hne : parts ≠ []) :
      Text.join [separator] ([] :: parts) = separator :: Text.join [separator] parts := by
    cases parts with
    | nil => exact absurd rfl hne
    | cons part rest => rfl
  induction cs generalizing depth with
  | nil => rfl
  | cons c cs ih =>
    rw [cutFrom_cons_eq_ite]
    split
    · rename_i hcut
      rw [hempty (cutFrom_ne_nil _ _ _), ih, hcut.2.1]
    · rw [honto c (cutFrom_ne_nil _ _ _), ih]

/-- A text that is balanced from a depth is cut into a part from there and parts of their own. -/
theorem exists_parts_of_isBalancedFrom {separator : Char} (hsep : IsPlain separator) {depth : Int}
    {cs : List Char} (h : IsBalancedFrom depth cs) :
    ∃ first rest, cutFrom separator depth cs = first :: rest ∧ IsPartFrom separator depth first ∧
      ∀ part ∈ rest, IsPartFrom separator 0 part := by
  induction cs generalizing depth with
  | nil => exact ⟨[], [], rfl, ⟨h, not_hasOuter_nil separator depth⟩, by simp⟩
  | cons c cs ih =>
    obtain ⟨hdepth, hrest⟩ := isBalancedFrom_cons_iff.mp h
    obtain ⟨first, rest, hcut, hfirst, hparts⟩ := ih hrest
    rw [cutFrom_cons_eq_ite]
    split
    · -- The part in front of the cut is empty, and what is behind it is scanned from no depth.
      rename_i hc
      obtain ⟨hplain, rfl, rfl⟩ := hc
      rw [bracketStep_of_isPlain hplain, Int.add_zero] at hcut hfirst
      have hempty : IsPartFrom c 0 [] :=
        ⟨isBalancedFrom_nil_iff.mpr rfl, not_hasOuter_nil c 0⟩
      exact ⟨[], first :: rest, by rw [hcut], hempty, List.forall_mem_cons.mpr ⟨hfirst, hparts⟩⟩
    · rename_i hc
      have hstays : ¬(c = separator ∧ depth = 0) := fun hs => hc ⟨hs.1 ▸ hsep, hs⟩
      refine ⟨c :: first, rest, by rw [hcut, onFirst], ?_, hparts⟩
      exact isPartFrom_cons_iff.mpr ⟨hdepth, hstays, hfirst⟩

/-- Texts that close what they open and have no separator outside of brackets, with separators between
them, are cut into themselves. -/
theorem cutAtSeparators_join_of_closed {separator : Char} (hsep : IsPlain separator)
    {texts : List (List Char)} (hne : texts ≠ [])
    (h : ∀ cs ∈ texts, depthOf cs = 0 ∧ ¬HasOuter separator 0 cs) :
    cutAtSeparators separator (Text.join [separator] texts) = texts := by
  have hwhole (cs : List Char) (hcs : depthOf cs = 0 ∧ ¬HasOuter separator 0 cs) (rest : List Char) :
      cutAtSeparators separator (cs ++ rest) = ontoFirst cs (cutAtSeparators separator rest) := by
    unfold cutAtSeparators
    rw [cutFrom_append hcs.2, hcs.1, Int.add_zero]
  have hnil : cutAtSeparators separator [] = [[]] := rfl
  have hcut (rest : List Char) :
      cutAtSeparators separator (separator :: rest) = [] :: cutAtSeparators separator rest := by
    unfold cutAtSeparators
    rw [cutFrom_cons_eq_ite, if_pos ⟨hsep, rfl, rfl⟩]
  induction texts with
  | nil => exact absurd rfl hne
  | cons cs rest ih =>
    have hcs := h cs List.mem_cons_self
    cases rest with
    | nil =>
      have hjoin : Text.join [separator] [cs] = cs := rfl
      rw [hjoin, ← List.append_nil cs, hwhole cs hcs, hnil, ontoFirst_cons]
    | cons ds rest =>
      have hrest := ih (List.cons_ne_nil ds rest) fun x hx => h x (List.mem_cons_of_mem cs hx)
      rw [Text.join, hwhole cs hcs, List.singleton_append, hcut, hrest, ontoFirst_cons,
        List.append_nil]

/-- The parts of a balanced text are parts between separators. -/
theorem isSplit_cutAtSeparators {separator : Char} (hsep : IsPlain separator) {cs : List Char}
    (h : IsBalancedFrom 0 cs) : IsSplit separator cs (cutAtSeparators separator cs) where
  ne_nil := cutFrom_ne_nil separator 0 cs
  join_eq := join_cutFrom separator 0 cs
  isPart := by
    obtain ⟨first, rest, hcut, hfirst, hrest⟩ := exists_parts_of_isBalancedFrom hsep h
    rw [cutAtSeparators, hcut]
    exact List.forall_mem_cons.mpr ⟨hfirst, hrest⟩

/-- Parts between separators are what the text is cut into. -/
theorem IsSplit.eq_cutAtSeparators {separator : Char} (hsep : IsPlain separator) {cs : List Char}
    {parts : List (List Char)} (h : IsSplit separator cs parts) :
    parts = cutAtSeparators separator cs := by
  have hclosed : ∀ part ∈ parts, depthOf part = 0 ∧ ¬HasOuter separator 0 part := by
    intro part hpart
    obtain ⟨⟨-, hend⟩, hnone⟩ := h.isPart part hpart
    exact ⟨by simpa using hend, hnone⟩
  rw [← h.join_eq, cutAtSeparators_join_of_closed hsep h.ne_nil hclosed]

/-- The parts of a text at a separator, which is no bracket, put it together again. If the brackets of
the text are balanced, they are the only parts that do so, are balanced themselves and have no
separator outside of brackets. -/
theorem sole_parts {separator : Char} (hsep : IsPlain separator) (cs : List Char) :
    Text.join [separator] (cutAtSeparators separator cs) = cs ∧
      (IsBalancedFrom 0 cs → ∀ parts, IsSplit separator cs parts ↔
        parts = cutAtSeparators separator cs) := by
  refine ⟨join_cutFrom separator 0 cs, ?_⟩
  intro hbalanced parts
  constructor
  · intro h
    exact h.eq_cutAtSeparators hsep
  · rintro rfl
    exact isSplit_cutAtSeparators hsep hbalanced

/-- A list of fields and one of parameters, with a separator of the other kind, and both kinds of it
between brackets, are cut in one way each. -/
theorem orders_sole_parts :
    (IsPlain ',' ∧ IsBalancedFrom 0 "(uint a, int b)[] x,A;B y".toList ∧
      IsSplit ',' "(uint a, int b)[] x,A;B y".toList
        ["(uint a, int b)[] x".toList, "A;B y".toList]) ∧
    IsPlain ';' ∧ IsBalancedFrom 0 "(uint a, int b)[] x;{A;B} y".toList ∧
      IsSplit ';' "(uint a, int b)[] x;{A;B} y".toList
        ["(uint a, int b)[] x".toList, "{A;B} y".toList] := by
  have hcomma : IsPlain ',' := by decide
  have hsemicolon : IsPlain ';' := by decide
  have hparams : IsBalancedFrom 0 "(uint a, int b)[] x,A;B y".toList := by decide
  have hfields : IsBalancedFrom 0 "(uint a, int b)[] x;{A;B} y".toList := by decide
  have hfirst := ((sole_parts hcomma _).2 hparams _).mpr rfl
  have hsecond := ((sole_parts hsemicolon _).2 hfields _).mpr rfl
  exact ⟨⟨hcomma, hparams, hfirst⟩, hsemicolon, hfields, hsecond⟩

end RollupInput.Declaration
