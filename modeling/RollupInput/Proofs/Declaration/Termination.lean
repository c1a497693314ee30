import Mathlib.Data.List.Find
import RollupInput.Proofs.Declaration.Groups
import RollupInput.Proofs.Declaration.Stack

/-!
# Resolving ends

The reader of parameters takes every struct that it opens out of the ones that may be used below
it. It gives the outcomes of the procedure with the stack, and what bounds its recursion bounds the
steps of the procedure: the procedure ends on all declarations.
-/

namespace RollupInput.Declaration

open Abi

section

variable {structs : List StructDef}

/-- Finding a struct to take is finding it, and the others are those of another name. -/
theorem takeStruct?_eq (hdistinct : (structs.map StructDef.name).Nodup) (name : List Char) :
    takeStruct? name structs =
      (structs.find? (·.name == name)).map fun d => (d, structs.filter (·.name != name)) := by
  induction structs with
  | nil => rfl
  | cons d rest ih =>
    obtain ⟨hnew, hrest⟩ := List.nodup_cons.mp hdistinct
    by_cases hname : (d.name == name) = true
    · have hothers : rest.filter (·.name != name) = rest := by
        refine List.filter_eq_self.mpr fun e he => bne_iff_ne.mpr ?_
        rintro rfl
        exact hnew (beq_iff_eq.mp hname ▸ List.mem_map_of_mem he)
      have hfirst : ¬(d.name != name) = true := by
        rw [bne, hname]
        exact Bool.false_ne_true
      rw [takeStruct?, if_pos hname, List.filter_cons, if_neg hfirst, hothers, List.find?_cons,
        hname]
      rfl
    · have hfirst : (d.name != name) = true := by
        rw [bne, Bool.eq_false_iff.mpr hname]
        rfl
      rw [takeStruct?, if_neg hname, ih hrest, List.filter_cons, if_pos hfirst, List.find?_cons,
        Bool.eq_false_iff.mpr hname]
      cases rest.find? (·.name == name) <;> rfl

/-- The structs that are not open. -/
def closed (structs : List StructDef) (stack : Stack) : List StructDef :=
  structs.filter fun d => !stack.contains d.name

/-- A struct may be taken exactly if it is declared and not open, and then it is open for the
others. -/
theorem takeStruct?_closed (hdistinct : (structs.map StructDef.name).Nodup) (stack : Stack)
    (name : List Char) :
    takeStruct? name (closed structs stack) =
      if stack.contains name then none
      else (structs.find? (·.name == name)).map fun d => (d, closed structs (name :: stack)) := by
  have hnodup : ((closed structs stack).map StructDef.name).Nodup :=
    hdistinct.sublist ((List.filter_sublist).map StructDef.name)
  have hothers : (closed structs stack).filter (·.name != name) =
      closed structs (name :: stack) := by
    unfold closed
    rw [List.filter_filter]
    refine List.filter_congr fun d _ => ?_
    rw [List.contains_cons, Bool.not_or]
    rfl
  rw [takeStruct?_eq hnodup, hothers]
  unfold closed
  rw [List.find?_filter]
  by_cases hopen : stack.contains name = true
  · rw [if_pos hopen, Option.map_eq_none_iff, List.find?_eq_none]
    intro d _ hd
    obtain ⟨hclosed, hname⟩ := of_decide_eq_true hd
    rw [beq_iff_eq.mp hname, hopen] at hclosed
    cases hclosed
  · rw [if_neg hopen]
    congr 1
    refine List.find?_congr fun d _ => ?_
    by_cases hname : (d.name == name) = true
    · rw [hname, beq_iff_eq.mp hname, Bool.eq_false_iff.mpr hopen]
      rfl
    · rw [Bool.eq_false_iff.mpr hname]
      exact decide_eq_false fun h => Bool.false_ne_true h.2

/-- No struct is open at first. -/
theorem closed_nil (structs : List StructDef) : closed structs [] = structs :=
  List.filter_eq_self.mpr fun _ _ => rfl

variable (hdistinct : (structs.map StructDef.name).Nodup)

include hdistinct

/-- Resolving a base among the structs that are not open is looking it up among all and refusing
the ones that are open. -/
theorem readBase_closed {stack : Stack} (base : List Char)
    (hopen : ∀ name ∈ stack, (fieldsOf? structs name).isSome = true) :
    readBase stack (closed structs stack) base =
      match inside? (fieldsOf? structs) base with
      | some (pushed, fields) =>
        if pushed.any stack.contains then .error (.structCycle base)
        else
          (readParams (pushed ++ stack) (closed structs (pushed ++ stack)) fields).map fieldsAsTuple
      | none => (elementary base).map fun t => (t, []) := by
  unfold readBase inside?
  cases tupleFields? base with
  | some fields => rfl
  | none =>
    dsimp only
    rw [takeStruct?_closed hdistinct]
    by_cases hmem : stack.contains base = true
    · obtain ⟨fields, hfields⟩ :=
        Option.isSome_iff_exists.mp (hopen base (List.contains_iff_mem.mp hmem))
      rw [if_pos hmem, hfields]
      dsimp only [Option.map_some]
      rw [List.any_cons, hmem]
      rfl
    · rw [if_neg hmem]
      unfold fieldsOf?
      cases structs.find? (·.name == base) with
      | none => exact if_neg hmem
      | some d =>
        dsimp only [Option.map_some]
        rw [List.any_cons, Bool.eq_false_iff.mpr hmem]
        rfl

/-- The fields that stand in the place of a base weigh no more than the base and the structs that
are opened for them. -/
theorem weight_inside_le {stack pushed : Stack} {base : List Char} {fields : List (List Char)}
    (hinside : inside? (fieldsOf? structs) base = some (pushed, fields))
    (hclosed : ¬pushed.any stack.contains = true) :
    structWeight (closed structs (pushed ++ stack)) + weight fields ≤
      structWeight (closed structs stack) + 3 * base.length := by
  unfold inside? at hinside
  split at hinside
  · rename_i htuple
    cases hinside
    have hweight := weight_tupleFields_le htuple
    rw [List.nil_append]
    omega
  · obtain ⟨found, hfound, hpair⟩ := Option.map_eq_some_iff.mp hinside
    cases hpair
    obtain ⟨d, hfind, rfl⟩ := Option.map_eq_some_iff.mp hfound
    have hopen : ¬stack.contains base = true := by
      intro hmem
      rw [List.any_cons, hmem] at hclosed
      exact hclosed rfl
    have htake := takeStruct?_closed hdistinct stack base
    rw [if_neg hopen, hfind] at htake
    have hweight := structWeight_takeStruct htake
    rw [List.singleton_append]
    omega

/-- With enough steps, what comes of a parameter is what the reader makes of it among the structs
that are not open. -/
theorem resolve_eq_readParam {stack : Stack} {steps : Nat} {written : List Char}
    (hopen : ∀ name ∈ stack, (fieldsOf? structs name).isSome = true)
    (hsteps : structWeight (closed structs stack) + (3 * written.length + 2) ≤ steps) :
    resolve (fieldsOf? structs) steps stack written =
      some (readParam stack (closed structs stack) written) := by
  induction steps generalizing stack written with
  | zero => omega
  | succ steps ih =>
    have heach (stack : Stack) (texts : List (List Char))
        (hopen : ∀ name ∈ stack, (fieldsOf? structs name).isSome = true)
        (h : structWeight (closed structs stack) + weight texts ≤ steps + 1) :
        resolveEach (resolve (fieldsOf? structs) steps stack) texts =
          some (readParams stack (closed structs stack) texts) := by
      induction texts with
      | nil =>
        rw [readParams]
        rfl
      | cons text rest ihrest =>
        rw [weight] at h
        rw [resolveEach, readParams, ih hopen (by omega), ihrest (by omega)]
        cases readParam stack (closed structs stack) text <;> rfl
    rw [resolve, readParam_eq]
    cases hcut : cutParam written with
    | error e => rfl
    | ok c =>
      have hlength := length_base_le hcut
      have hbase : openBase (fieldsOf? structs) (resolve (fieldsOf? structs) steps) stack c.base =
          some (readBase stack (closed structs stack) c.base) := by
        unfold openBase
        rw [readBase_closed hdistinct c.base hopen]
        cases hinside : inside? (fieldsOf? structs) c.base with
        | none => rfl
        | some below =>
          dsimp only
          by_cases hclosed : below.1.any stack.contains = true
          · rw [if_pos hclosed, if_pos hclosed]
          · have hweight := weight_inside_le hdistinct hinside hclosed
            rw [if_neg hclosed, if_neg hclosed, heach _ below.2 ?_ (by omega)]
            · rfl
            · intro name hname
              rcases List.mem_append.mp hname with hname | hname
              · exact Option.isSome_of_eq_some (struct_of_mem_pushed hinside hname).2.2
              · exact hopen name hname
      dsimp only
      rw [hbase]
      rfl

/-- With enough steps and no struct open, what comes of a parameter is what is read. -/
theorem resolve_eventually (written : List Char) {steps : Nat}
    (hsteps : structWeight structs + (3 * written.length + 2) ≤ steps) :
    resolve (fieldsOf? structs) steps [] written = some (readParam [] structs written) := by
  have hresolve := @resolve_eq_readParam structs hdistinct [] steps written
    (fun name hname => by cases hname) (by rwa [closed_nil])
  rwa [closed_nil] at hresolve

/-- Whatever comes of a parameter within some steps is what is read. -/
theorem readParam_of_resolve {written : List Char} {steps : Nat} {r : Except Fault Param}
    (h : resolve (fieldsOf? structs) steps [] written = some r) :
    readParam [] structs written = r := by
  have hmore := resolve_mono
    (Nat.le_max_left steps (structWeight structs + (3 * written.length + 2))) h
  rw [resolve_eventually hdistinct written (Nat.le_max_right _ _)] at hmore
  exact Option.some.inj hmore

/-- A parameter that comes out well within some steps is read. -/
theorem exists_of_resolve {written : List Char} {steps : Nat}
    (h : (resolve (fieldsOf? structs) steps [] written).map Except.isOk = some true) :
    ∃ p, readParam [] structs written = .ok p := by
  obtain ⟨outcome, hresolve, hok⟩ := Option.map_eq_some_iff.mp h
  cases outcome with
  | error e => cases hok
  | ok p => exact ⟨p, readParam_of_resolve hdistinct hresolve⟩

end

/-! ## All declarations -/

/-- Read the parameters of declarations out of which the definitions are taken with a number of
steps for each parameter, each with a stack of its own. -/
def readWithin (table : FieldTable) (steps : Nat) :
    List (String × List Char) → Option (Except DecodeFault (List Param))
  | [] => some (.ok [])
  | (declaration, left) :: rest =>
    match resolveEach (fun text => (walk table steps [] text).map (·.map Prod.fst))
        (ownTexts left) with
    | none => none
    | some (.error e) => some (.error (.malformedDeclaration declaration e.message))
    | some (.ok params) => (readWithin table steps rest).map (·.map (params ++ ·))

/-- Read declarations with a number of steps for each parameter. -/
def parseWithin (steps : Nat) (declarations : List String) :
    Option (Except DecodeFault (List Param)) :=
  match takeAllStructs [] declarations with
  | .error e => some (.error e)
  | .ok (structs, lefts) => readWithin (fieldsOf? structs) steps lefts

/-- A stack that is empty at first is empty at last, and the parameter is what the stack passed down
gives. -/
theorem walk_nil (table : FieldTable) (steps : Nat) (written : List Char) :
    (walk table steps [] written).map (·.map Prod.fst) = resolve table steps [] written := by
  rw [walk_eq]
  match resolve table steps [] written with
  | none => rfl
  | some (.error e) => rfl
  | some (.ok p) => rfl

section

variable {structs : List StructDef} (hdistinct : (structs.map StructDef.name).Nodup)

include hdistinct

/-- There is a number of steps from which on texts are read as the reader reads them. -/
theorem exists_steps_of_texts (texts : List (List Char)) :
    ∃ enough, ∀ steps, enough ≤ steps →
      resolveEach (resolve (fieldsOf? structs) steps []) texts =
        some (readParams [] structs texts) := by
  induction texts with
  | nil =>
    refine ⟨0, fun steps _ => ?_⟩
    rw [readParams]
    rfl
  | cons text rest ih =>
    obtain ⟨enough, hrest⟩ := ih
    refine ⟨max enough (structWeight structs + (3 * text.length + 2)), fun steps hsteps => ?_⟩
    rw [resolveEach, readParams, resolve_eventually hdistinct text (by omega),
      hrest steps (by omega)]
    cases readParam [] structs text <;> rfl

/-- There is a number of steps from which on declarations are read as the reader reads them. -/
theorem exists_steps_of_declarations (lefts : List (String × List Char)) :
    ∃ enough, ∀ steps, enough ≤ steps →
      readWithin (fieldsOf? structs) steps lefts = some (readDeclarations structs lefts) := by
  induction lefts with
  | nil => exact ⟨0, fun _ _ => rfl⟩
  | cons group rest ih =>
    obtain ⟨enough, hrest⟩ := ih
    obtain ⟨enoughOwn, hown⟩ := exists_steps_of_texts hdistinct (ownTexts group.2)
    refine ⟨max enough enoughOwn, fun steps hsteps => ?_⟩
    rw [readWithin, readDeclarations_cons, funext fun text => walk_nil _ steps text,
      hown steps (by omega), hrest steps (by omega)]
    cases readParams [] structs (ownTexts group.2) <;> rfl

end

/-- The procedure ends on all declarations: there is a number of steps from which on its outcome is
what the declarations are read as. -/
theorem exists_steps_of_parse (declarations : List String) :
    ∃ enough, ∀ steps, enough ≤ steps →
      parseWithin steps declarations = some (parse declarations) := by
  unfold parseWithin parse
  cases htake : takeAllStructs [] declarations with
  | error e => exact ⟨0, fun _ _ => rfl⟩
  | ok taken => exact exists_steps_of_declarations (nodup_of_takeAllStructs htake .nil) taken.2

end RollupInput.Declaration
