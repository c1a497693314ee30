import Mathlib.Data.List.Nodup
import RollupInput.Proofs.Declaration.Cuts
import RollupInput.Proofs.Declaration.Inversion

/-!
# Resolving with a stack

Structs are looked up in one table. The open ones are on a stack: a struct is pushed before its
fields are read and popped behind them, and a struct that is on the stack already is refused.
Nothing bounds this procedure but a number of steps. It comes to the same as passing the stack down
to the fields, of which it is said once what a step can do.
-/

namespace RollupInput.Declaration

open Abi

/-- The texts of the fields of the structs that are declared, by name. -/
abbrev FieldTable : Type := List Char → Option (List (List Char))

/-- The names of the structs that are open, the innermost in front. -/
abbrev Stack : Type := List (List Char)

/-- What comes of a bounded number of steps: nothing if they do not suffice. -/
abbrev Attempt (α : Type) : Type := Option (Except Fault α)

/-- The table of the structs of a list. -/
def fieldsOf? (structs : List StructDef) : FieldTable := fun name =>
  (structs.find? (·.name == name)).map StructDef.fields

/-- The table has the names of the structs. -/
theorem isSome_fieldsOf?_iff {structs : List StructDef} {name : List Char} :
    (fieldsOf? structs name).isSome = true ↔ name ∈ structs.map StructDef.name := by
  unfold fieldsOf?
  rw [Option.isSome_map, List.find?_isSome, List.mem_map]
  exact exists_congr fun d => and_congr_right fun _ => beq_iff_eq

/-- Where names are distinct, the table has the fields of every struct. -/
theorem fieldsOf?_of_mem {structs : List StructDef} {d : StructDef}
    (hdistinct : (structs.map StructDef.name).Nodup) (hd : d ∈ structs) :
    fieldsOf? structs d.name = some d.fields := by
  unfold fieldsOf?
  cases hfind : structs.find? (·.name == d.name) with
  | none =>
    have hnot := List.find?_eq_none.mp hfind d hd
    exact absurd (beq_self_eq_true d.name) hnot
  | some e =>
    have hname : (e.name == d.name) = true :=
      List.find?_some (p := fun e : StructDef => e.name == d.name) hfind
    have hsame := List.inj_on_of_nodup_map hdistinct (List.mem_of_find?_eq_some hfind) hd
      (beq_iff_eq.mp hname)
    rw [hsame]
    rfl

/-! ## Pushing and popping -/

/-- Read texts in order, each with the stack that the one before it leaves. -/
def walkEach (one : Stack → List Char → Attempt (Param × Stack)) :
    Stack → List (List Char) → Attempt (List Param × Stack)
  | stack, [] => some (.ok ([], stack))
  | stack, text :: rest =>
    match one stack text with
    | none => none
    | some (.error e) => some (.error e)
    | some (.ok (p, left)) => (walkEach one left rest).map (·.map fun q => (p :: q.1, q.2))

/-- Resolve the base of a type. The name of a struct is pushed before its fields are read, and
popped behind them. -/
def walkBase (table : FieldTable) (one : Stack → List Char → Attempt (Param × Stack))
    (stack : Stack) (base : List Char) : Attempt ((AbiType × List Param) × Stack) :=
  match tupleFields? base with
  | some fields => (walkEach one stack fields).map (·.map fun q => (fieldsAsTuple q.1, q.2))
  | none =>
    match table base with
    | some fields =>
      if stack.contains base then some (.error (.structCycle base))
      else
        (walkEach one (base :: stack) fields).map (·.map fun q => (fieldsAsTuple q.1, q.2.tail))
    | none => some ((elementary base).map fun t => ((t, []), stack))

/-- Read a parameter with a number of steps and a stack: the parameter and the stack it leaves. -/
def walk (table : FieldTable) : Nat → Stack → List Char → Attempt (Param × Stack)
  | 0, _, _ => none
  | steps + 1, stack, written =>
    match cutParam written with
    | .error e => some (.error e)
    | .ok c =>
      (walkBase table (walk table steps) stack c.base).map (· >>= fun q =>
        (c.param q.1).map (·, q.2))

/-! ## Passing the stack down -/

/-- Read texts in order. -/
def resolveEach (one : List Char → Attempt Param) : List (List Char) → Attempt (List Param)
  | [] => some (.ok [])
  | text :: rest =>
    match one text with
    | none => none
    | some (.error e) => some (.error e)
    | some (.ok p) => (resolveEach one rest).map (·.map (p :: ·))

/-- The fields that stand in the place of a base, with the name that is pushed before they are read:
none for the fields of a tuple, the struct for those of a struct. -/
def inside? (table : FieldTable) (base : List Char) : Option (Stack × List (List Char)) :=
  match tupleFields? base with
  | some fields => some ([], fields)
  | none => (table base).map ([base], ·)

/-- Resolve the base of a type, with the structs that are open in it. -/
def openBase (table : FieldTable) (one : Stack → List Char → Attempt Param) (stack : Stack)
    (base : List Char) : Attempt (AbiType × List Param) :=
  match inside? table base with
  | some (pushed, fields) =>
    if pushed.any stack.contains then some (.error (.structCycle base))
    else (resolveEach (one (pushed ++ stack)) fields).map (·.map fieldsAsTuple)
  | none => some ((elementary base).map fun t => (t, []))

/-- Read a parameter with a number of steps, with the structs that are open in it. -/
def resolve (table : FieldTable) : Nat → Stack → List Char → Attempt Param
  | 0, _, _ => none
  | steps + 1, stack, written =>
    match cutParam written with
    | .error e => some (.error e)
    | .ok c => (openBase table (resolve table steps) stack c.base).map (· >>= c.param)

/-- Texts that each leave the stack as it is leave it so one after the other. -/
theorem walkEach_eq {one : Stack → List Char → Attempt (Param × Stack)}
    {read : List Char → Attempt Param} {stack : Stack}
    (hone : ∀ text, one stack text = (read text).map (·.map (·, stack)))
    (texts : List (List Char)) :
    walkEach one stack texts = (resolveEach read texts).map (·.map (·, stack)) := by
  induction texts with
  | nil => rfl
  | cons text rest ih =>
    rw [walkEach, resolveEach, hone]
    match read text with
    | none => rfl
    | some (.error e) => rfl
    | some (.ok p) =>
      dsimp only [Option.map_some, Except.map]
      rw [ih]
      match resolveEach read rest with
      | none => rfl
      | some (.error e) => rfl
      | some (.ok ps) => rfl

/-- Every struct that is pushed is popped again: the stack is left as it was, and what is read is
what the stack passed down gives. -/
theorem walk_eq (table : FieldTable) (steps : Nat) (stack : Stack) (written : List Char) :
    walk table steps stack written =
      (resolve table steps stack written).map (·.map (·, stack)) := by
  induction steps generalizing stack written with
  | zero => rfl
  | succ steps ih =>
    have hbase (base : List Char) : walkBase table (walk table steps) stack base =
        (openBase table (resolve table steps) stack base).map (·.map (·, stack)) := by
      unfold walkBase openBase inside?
      cases tupleFields? base with
      | some fields =>
        dsimp only
        rw [walkEach_eq (ih stack)]
        dsimp only [List.any_nil, List.nil_append]
        match resolveEach (resolve table steps stack) fields with
        | none => rfl
        | some (.error e) => rfl
        | some (.ok ps) => rfl
      | none =>
        dsimp only
        cases table base with
        | none =>
          dsimp only
          cases elementary base <;> rfl
        | some fields =>
          dsimp only [Option.map_some]
          rw [List.any_cons, List.any_nil, Bool.or_false, List.singleton_append]
          by_cases hopen : stack.contains base = true
          · rw [if_pos hopen, if_pos hopen]
            rfl
          · rw [if_neg hopen, if_neg hopen, walkEach_eq (ih (base :: stack))]
            match resolveEach (resolve table steps (base :: stack)) fields with
            | none => rfl
            | some (.error e) => rfl
            | some (.ok ps) => rfl
    rw [walk, resolve]
    cases cutParam written with
    | error e => rfl
    | ok c =>
      dsimp only
      rw [hbase]
      match openBase table (resolve table steps) stack c.base with
      | none => rfl
      | some (.error e) => rfl
      | some (.ok resolved) => rfl

/-! ## What one step can do -/

section

variable {one two : List Char → Attempt Param} {texts : List (List Char)}

/-- Texts of which each is read alike are read alike. -/
theorem resolveEach_congr (h : ∀ text ∈ texts, one text = two text) :
    resolveEach one texts = resolveEach two texts := by
  induction texts with
  | nil => rfl
  | cons text rest ih =>
    rw [resolveEach, resolveEach, h text List.mem_cons_self,
      ih fun other hother => h other (List.mem_cons_of_mem text hother)]

/-- Texts that are replaced are read as their replacements are. -/
theorem resolveEach_map (f : List Char → List Char) (texts : List (List Char)) :
    resolveEach one (texts.map f) = resolveEach (fun text => one (f text)) texts := by
  induction texts with
  | nil => rfl
  | cons text rest ih => rw [List.map_cons, resolveEach, resolveEach, ih]

/-- Texts are read within more steps as well. -/
theorem resolveEach_mono (h : ∀ text ∈ texts, ∀ r, one text = some r → two text = some r)
    {r : Except Fault (List Param)} (hr : resolveEach one texts = some r) :
    resolveEach two texts = some r := by
  induction texts generalizing r with
  | nil => exact hr
  | cons text rest ih =>
    rw [resolveEach] at hr ⊢
    cases htext : one text with
    | none =>
      rw [htext] at hr
      cases hr
    | some first =>
      rw [htext] at hr
      rw [h text List.mem_cons_self first htext]
      cases first with
      | error e => exact hr
      | ok p =>
        obtain ⟨more, hmore, rfl⟩ := Option.map_eq_some_iff.mp hr
        dsimp only
        rw [ih (fun other hother => h other (List.mem_cons_of_mem text hother)) hmore]
        rfl

/-- If texts are read, they are read one by one. -/
theorem forall₂_of_resolveEach {ps : List Param} (h : resolveEach one texts = some (.ok ps)) :
    List.Forall₂ (fun text p => one text = some (.ok p)) texts ps := by
  induction texts generalizing ps with
  | nil =>
    cases h
    exact .nil
  | cons text rest ih =>
    rw [resolveEach] at h
    match htext : one text with
    | none =>
      rw [htext] at h
      cases h
    | some (.error e) =>
      rw [htext] at h
      cases h
    | some (.ok p) =>
      rw [htext] at h
      obtain ⟨more, hmore, hmap⟩ := Option.map_eq_some_iff.mp h
      obtain ⟨qs, rfl, rfl⟩ := ok_of_map hmap
      exact .cons htext (ih hmore)

/-- If texts are read, each of them is. -/
theorem ok_of_resolveEach {ps : List Param} (h : resolveEach one texts = some (.ok ps)) :
    ∀ text ∈ texts, ∃ p, one text = some (.ok p) :=
  exists_of_forall₂ (forall₂_of_resolveEach h)

/-- A fault of texts is the fault of one of them. -/
theorem error_of_resolveEach {e : Fault} (h : resolveEach one texts = some (.error e)) :
    ∃ text ∈ texts, one text = some (.error e) := by
  induction texts with
  | nil => cases h
  | cons text rest ih =>
    rw [resolveEach] at h
    match htext : one text with
    | none =>
      rw [htext] at h
      cases h
    | some (.error fault) =>
      rw [htext] at h
      cases h
      exact ⟨text, List.mem_cons_self, htext⟩
    | some (.ok p) =>
      rw [htext] at h
      obtain ⟨more, hmore, hmap⟩ := Option.map_eq_some_iff.mp h
      obtain rfl := error_of_map hmap
      obtain ⟨other, hother, hfault⟩ := ih hmore
      exact ⟨other, List.mem_cons_of_mem text hother, hfault⟩

end

section

variable {table : FieldTable} {one two : Stack → List Char → Attempt Param} {stack : Stack}
  {base : List Char} {pushed : Stack} {fields : List (List Char)}

/-- What is pushed is the base, and then the base is the name of a struct. -/
theorem struct_of_mem_pushed (h : inside? table base = some (pushed, fields)) {name : List Char}
    (hmem : name ∈ pushed) :
    name = base ∧ tupleFields? name = none ∧ table name = some fields := by
  unfold inside? at h
  split at h
  · cases h
    cases hmem
  · rename_i htuple
    obtain ⟨found, hfound, hpair⟩ := Option.map_eq_some_iff.mp h
    cases hpair
    obtain rfl := List.mem_singleton.mp hmem
    exact ⟨rfl, htuple, hfound⟩

/-- The fields of a struct stand in its place, and its name is pushed. -/
theorem inside?_of_struct (htuple : tupleFields? base = none) (hfields : table base = some fields) :
    inside? table base = some ([base], fields) := by
  unfold inside?
  rw [htuple, hfields]
  rfl

/-- A tuple is resolved by reading what stands between its parentheses, with the same structs
open. -/
theorem openBase_of_tuple (htuple : tupleFields? base = some fields) :
    openBase table one stack base =
      (resolveEach (one stack) fields).map (·.map fieldsAsTuple) := by
  unfold openBase inside?
  rw [htuple]
  rfl

/-- A base in whose place there are no fields is an elementary type if it is resolved. -/
theorem elementary_of_openBase {resolved : AbiType × List Param}
    (h : openBase table one stack base = some (.ok resolved))
    (hinside : inside? table base = none) : ∃ t, elementary base = .ok t ∧ (t, []) = resolved := by
  unfold openBase at h
  rw [hinside] at h
  exact ok_of_map (Option.some.inj h)

/-- Two ways to resolve a base that read alike all that is below it are alike. -/
theorem openBase_congr {other : FieldTable} {otherStack : Stack}
    (htable : inside? other base = inside? table base)
    (h : ∀ pushed fields, inside? table base = some (pushed, fields) →
      pushed.any otherStack.contains = pushed.any stack.contains ∧
        ∀ text ∈ fields, two (pushed ++ otherStack) text = one (pushed ++ stack) text) :
    openBase other two otherStack base = openBase table one stack base := by
  unfold openBase
  rw [htable]
  cases hinside : inside? table base with
  | none => rfl
  | some below =>
    obtain ⟨hopen, hfields⟩ := h below.1 below.2 hinside
    dsimp only
    rw [hopen, resolveEach_congr hfields]

/-- A base is resolved within more steps as well. -/
theorem openBase_mono
    (h : ∀ inside text r, one inside text = some r → two inside text = some r)
    {r : Except Fault (AbiType × List Param)} (hr : openBase table one stack base = some r) :
    openBase table two stack base = some r := by
  unfold openBase at hr ⊢
  cases hinside : inside? table base with
  | none =>
    rw [hinside] at hr
    exact hr
  | some below =>
    rw [hinside] at hr
    dsimp only at hr ⊢
    by_cases hopen : below.1.any stack.contains = true
    · rw [if_pos hopen] at hr ⊢
      exact hr
    · rw [if_neg hopen] at hr ⊢
      obtain ⟨read, hread, rfl⟩ := Option.map_eq_some_iff.mp hr
      rw [resolveEach_mono (fun text _ => h (below.1 ++ stack) text) hread]
      rfl

/-- If a base is resolved to something, then no struct is opened twice, and it is resolved to the
tuple of all that is below it. -/
theorem fields_of_openBase {resolved : AbiType × List Param}
    (h : openBase table one stack base = some (.ok resolved))
    (hinside : inside? table base = some (pushed, fields)) :
    (∀ name ∈ pushed, name ∉ stack) ∧ ∃ ps, resolved = fieldsAsTuple ps ∧
      resolveEach (one (pushed ++ stack)) fields = some (.ok ps) := by
  unfold openBase at h
  rw [hinside] at h
  dsimp only at h
  by_cases hopen : pushed.any stack.contains = true
  · rw [if_pos hopen] at h
    cases h
  · rw [if_neg hopen] at h
    obtain ⟨read, hread, hmap⟩ := Option.map_eq_some_iff.mp h
    obtain ⟨ps, rfl, htuple⟩ := ok_of_map hmap
    refine ⟨fun name hmem hname => hopen ?_, ps, htuple.symm, hread⟩
    exact List.any_eq_true.mpr ⟨name, hmem, List.contains_iff_mem.mpr hname⟩

/-- If a base is resolved, then no struct is opened twice and all that is below it is read. -/
theorem ok_of_openBase {resolved : AbiType × List Param}
    (h : openBase table one stack base = some (.ok resolved))
    (hinside : inside? table base = some (pushed, fields)) :
    (∀ name ∈ pushed, name ∉ stack) ∧
      ∀ text ∈ fields, ∃ p, one (pushed ++ stack) text = some (.ok p) := by
  obtain ⟨hnew, ps, -, hread⟩ := fields_of_openBase h hinside
  exact ⟨hnew, ok_of_resolveEach hread⟩

/-- If a base is refused for a cycle, then it closes the cycle, or something below it is refused
for the cycle. -/
theorem cycle_of_openBase {name : List Char}
    (h : openBase table one stack base = some (.error (.structCycle name))) :
    ∃ pushed fields, inside? table base = some (pushed, fields) ∧
      ((name = base ∧ name ∈ pushed ∧ name ∈ stack) ∨
        ∃ text ∈ fields, one (pushed ++ stack) text = some (.error (.structCycle name))) := by
  unfold openBase at h
  cases hinside : inside? table base with
  | none =>
    rw [hinside] at h
    have hfault : elementary base = .error (.structCycle name) := error_of_map (Option.some.inj h)
    unfold elementary at hfault
    split at hfault <;> cases hfault
  | some below =>
    obtain ⟨pushed, fields⟩ := below
    refine ⟨pushed, fields, rfl, ?_⟩
    rw [hinside] at h
    dsimp only at h
    by_cases hopen : pushed.any stack.contains = true
    · rw [if_pos hopen] at h
      cases h
      obtain ⟨name, hmem, hname⟩ := List.any_eq_true.mp hopen
      obtain ⟨rfl, -⟩ := struct_of_mem_pushed hinside hmem
      exact .inl ⟨rfl, hmem, List.contains_iff_mem.mp hname⟩
    · rw [if_neg hopen] at h
      obtain ⟨read, hread, hmap⟩ := Option.map_eq_some_iff.mp h
      obtain rfl := error_of_map hmap
      exact .inr (error_of_resolveEach hread)

end

/-- A fault of array suffixes is one of a size. -/
theorem arraySize_of_withSuffixes {suffixes : List (List Char)} {t : AbiType} {e : Fault}
    (h : withSuffixes t suffixes = .error e) : ∃ size, e = .arraySize size := by
  induction suffixes generalizing t with
  | nil => cases h
  | cons size rest ih =>
    rw [withSuffixes] at h
    cases hsize : readSize size with
    | ok s =>
      rw [hsize] at h
      exact ih h
    | error fault =>
      rw [hsize] at h
      cases h
      unfold readSize at hsize
      dsimp only at hsize
      split at hsize
      · cases hsize
      · split at hsize
        · split at hsize
          · cases hsize
          · cases hsize
            exact ⟨_, rfl⟩
        · cases hsize
          exact ⟨_, rfl⟩

/-- Cutting a text finds no cycle. -/
theorem cutParam_ne_structCycle (written name : List Char) :
    cutParam written ≠ .error (.structCycle name) := by
  intro h
  unfold cutParam at h
  dsimp only at h
  split at h
  · cases h
  · split at h
    · cases h
    · split at h
      · rename_i fault hname
        cases h
        unfold readName at hname
        split at hname
        · cases hname
        · split at hname <;> cases hname
        · cases hname
      · split at h <;> cases h

section

variable {table : FieldTable} {steps : Nat} {stack : Stack} {written : List Char}

/-- A parameter that is cut is read by resolving its base. -/
theorem resolve_of_cut {c : Cut} (h : cutParam written = .ok c) :
    resolve table (steps + 1) stack written =
      (openBase table (resolve table steps) stack c.base).map (· >>= c.param) := by
  rw [resolve, h]

/-- If a parameter is read, it is cut and its base is resolved. -/
theorem ok_of_resolve {p : Param} (h : resolve table (steps + 1) stack written = some (.ok p)) :
    ∃ c resolved, cutParam written = .ok c ∧
      openBase table (resolve table steps) stack c.base = some (.ok resolved) ∧
      c.param resolved = .ok p := by
  rw [resolve] at h
  cases hcut : cutParam written with
  | error e =>
    rw [hcut] at h
    cases h
  | ok c =>
    rw [hcut] at h
    obtain ⟨outcome, hbase, hbind⟩ := Option.map_eq_some_iff.mp h
    obtain ⟨resolved, rfl, hparam⟩ := ok_of_bind hbind
    exact ⟨c, resolved, rfl, hbase, hparam⟩

/-- If a parameter is refused for a cycle, its base is. -/
theorem cycle_of_resolve {name : List Char}
    (h : resolve table (steps + 1) stack written = some (.error (.structCycle name))) :
    ∃ c, cutParam written = .ok c ∧
      openBase table (resolve table steps) stack c.base =
        some (.error (.structCycle name)) := by
  rw [resolve] at h
  cases hcut : cutParam written with
  | error e =>
    rw [hcut] at h
    cases h
    exact absurd hcut (cutParam_ne_structCycle written name)
  | ok c =>
    rw [hcut] at h
    obtain ⟨outcome, hbase, hbind⟩ := Option.map_eq_some_iff.mp h
    cases outcome with
    | error e =>
      cases hbind
      exact ⟨c, rfl, hbase⟩
    | ok resolved =>
      obtain ⟨size, hsize⟩ := arraySize_of_withSuffixes (error_of_map hbind)
      cases hsize

/-- More steps change nothing in what comes of a parameter. -/
theorem resolve_mono {r : Except Fault Param} {more : Nat} (hle : steps ≤ more)
    (h : resolve table steps stack written = some r) :
    resolve table more stack written = some r := by
  induction steps generalizing stack written r more with
  | zero => cases h
  | succ steps ih =>
    obtain ⟨more, rfl⟩ : ∃ k, more = k + 1 := ⟨more - 1, by omega⟩
    rw [resolve] at h ⊢
    cases hcut : cutParam written with
    | error e =>
      rw [hcut] at h
      exact h
    | ok c =>
      rw [hcut] at h
      obtain ⟨outcome, hbase, rfl⟩ := Option.map_eq_some_iff.mp h
      have hmore := openBase_mono
        (fun inside text r hr => ih (Nat.le_of_succ_le_succ hle) hr) hbase
      dsimp only
      rw [hmore]
      rfl

end

end RollupInput.Declaration
