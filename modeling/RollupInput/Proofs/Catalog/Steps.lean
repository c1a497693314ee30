import RollupInput.Proofs.Catalog.Merging
import RollupInput.Proofs.Catalog.Reading

/-!
# Building a catalog

A catalog starts empty and is built in steps: a specification is added, or all those of a text, or
the built-in ones, or another catalog is merged. Every step is a merge with what it adds, which is
nothing if it fails. So a catalog is what its steps add, put together in order, and looking a
specification up finds the earliest that was added.
-/

namespace RollupInput.Catalog

/-- A step in building a catalog. -/
inductive Step where
  /-- Add one specification. -/
  | push (spec : Specification)
  /-- Read a text and add its specifications one after the other. -/
  | parse (content : String)
  /-- Add the built-in specifications. -/
  | builtIn
  /-- Put another catalog behind. -/
  | merge (other : Catalog)

/-- The catalog with a step taken, unless the step fails. -/
def take (c : Catalog) : Step → Except CatalogFault Catalog
  | .push spec => .ok (c.push spec)
  | .parse content => (parse content).map fun specs => specs.foldl push c
  | .builtIn => .ok c.withBuiltIn
  | .merge other => .ok (c.merge other)

/-- The catalog after a step. A step that fails leaves it as it is. -/
def after (c : Catalog) (step : Step) : Catalog :=
  match c.take step with
  | .ok next => next
  | .error _ => c

/-- The catalog that is built in some steps. -/
def run (steps : List Step) : Catalog := steps.foldl after empty

/-- What a step adds: nothing if it fails. -/
def Step.added : Step → Catalog
  | .push spec => ⟨[spec], 0, []⟩
  | .parse content => ⟨(Catalog.parse content).toOption.getD [], 0, []⟩
  | .builtIn => ⟨Portals.specifications, 0, []⟩
  | .merge other => other

/-- Whether a catalog is what some steps add, in order. -/
structure IsBuiltFrom (steps : List Step) (c : Catalog) : Prop where
  /-- It has the specifications of all of them. -/
  specs : c.specs = steps.flatMap fun step => step.added.specs
  /-- Its count is the sum of theirs, up to the greatest count. -/
  scannedFiles : c.scannedFiles = min (countAll (steps.map Step.added)) maxCount
  /-- It has the errors of all of them. -/
  errors : c.errors = steps.flatMap fun step => step.added.errors

/-- Whether a specification is the earliest of some that has a property. -/
structure IsEarliest (property : Specification → Prop) (specs : List Specification)
    (s : Specification) : Prop where
  /-- It has the property. -/
  holds : property s
  /-- It is one of them, and none in front of it has the property. -/
  earliest : ∃ front back, specs = front ++ s :: back ∧ ∀ t ∈ front, ¬property t

/-- Whether a key leads to the earliest specification of its identifier, or to the earliest of its
name if no specification has the identifier. -/
structure FindsEarliest (c : Catalog) (key : String) : Prop where
  /-- What is found. -/
  some_iff : ∀ s, c.get? key = some s ↔ IsEarliest (fun t => t.id = some key) c.specs s ∨
    (∀ t ∈ c.specs, t.id ≠ some key) ∧ IsEarliest (fun t => t.name = key) c.specs s
  /-- When nothing is found. -/
  none_iff : c.get? key = none ↔ ∀ t ∈ c.specs, t.id ≠ some key ∧ t.name ≠ key

variable {c : Catalog} {key : String}

/-! ## Steps -/

/-- Specifications that are added one after the other are added together. -/
theorem foldl_push (c : Catalog) (specs : List Specification) :
    specs.foldl push c = c.append specs := by
  induction specs generalizing c with
  | nil => rw [List.foldl_nil, append, List.append_nil]
  | cons s rest ih => rw [List.foldl_cons, ih, push, append, append, List.append_assoc]; rfl

/-- Adding specifications is a merge with a catalog that has nothing else. -/
theorem append_eq_merge (h : c.IsCounted) (specs : List Specification) :
    c.append specs = c.merge ⟨specs, 0, []⟩ := by
  have hcount : min (c.scannedFiles + 0) maxCount = c.scannedFiles := Nat.min_eq_left h
  unfold merge
  rw [hcount, List.append_nil]
  rfl

/-- A step is a merge with what it adds. -/
theorem after_eq_merge (h : c.IsCounted) (step : Step) : c.after step = c.merge step.added := by
  cases step with
  | push spec => exact append_eq_merge h [spec]
  | parse content =>
    rw [after, take, Step.added]
    cases parse content with
    | error fault => exact (merge_empty h).symm
    | ok specs =>
      have hpushed := foldl_push c specs
      exact hpushed.trans (append_eq_merge h specs)
  | builtIn => exact append_eq_merge h Portals.specifications
  | merge other => rfl

/-- A catalog that is built in some steps is what they add, put together. -/
theorem run_eq_joined (steps : List Step) : run steps = joined (steps.map Step.added) :=
  foldl_eq_joined (fun _ step h => after_eq_merge h step) steps

/-- A catalog that is built in some steps is what they add, in order. -/
theorem isBuiltFrom_run (steps : List Step) : IsBuiltFrom steps (run steps) := by
  rw [run_eq_joined]
  exact ⟨List.flatMap_map .., rfl, List.flatMap_map ..⟩

/-- A step that fails changes nothing and adds nothing. -/
theorem of_take_error {step : Step} {fault : CatalogFault} (h : c.take step = .error fault) :
    c.after step = c ∧ step.added = empty := by
  have hafter : c.after step = c := by
    rw [after, h]
  refine ⟨hafter, ?_⟩
  cases step with
  | parse content =>
    have hparse : parse content = .error fault := error_of_map h
    rw [Step.added, hparse]
    rfl
  | _ => cases h

/-! ## Looking up -/

/-- What a test finds first is the earliest that it holds of. -/
theorem find?_eq_some_iff_isEarliest {test : Specification → Bool} {specs : List Specification}
    {s : Specification} :
    specs.find? test = some s ↔ IsEarliest (fun t => test t = true) specs s := by
  rw [List.find?_eq_some_iff_append]
  simp only [Bool.not_eq_true', ← Bool.not_eq_true]
  exact ⟨fun ⟨hs, hearliest⟩ => ⟨hs, hearliest⟩, fun ⟨hs, hearliest⟩ => ⟨hs, hearliest⟩⟩

/-- A key leads to the earliest specification of its identifier, else of its name. -/
theorem findsEarliest (c : Catalog) (key : String) : FindsEarliest c key := by
  constructor
  · intro s
    rw [get?, Option.or_eq_some_iff, List.find?_eq_none, find?_eq_some_iff_isEarliest,
      find?_eq_some_iff_isEarliest]
    simp only [beq_iff_eq]
  · rw [get?, Option.or_eq_none_iff, List.find?_eq_none, List.find?_eq_none]
    simp only [beq_iff_eq, forall₂_and]

/-- In a catalog that starts empty and is built in steps, the specifications are what the steps
add, in order, and a key leads to the earliest of its identifier, else of its name. Only reading a
text can fail as a step: it does if the text is no JSON or an item of it is refused, of which it then
names the first, and it changes nothing. Merging is associative, the empty catalog changes nothing
in it, and however many catalogs are grouped they come to the same, with the sum of their counts up
to the greatest count. -/
theorem catalogs_are_built :
    (∀ steps, IsBuiltFrom steps (run steps) ∧ ∀ key, FindsEarliest (run steps) key) ∧
    (∀ content, IsReadingOf content (parse content) ∧
      ∀ (c : Catalog) fault, c.take (.parse content) = .error fault ↔ parse content = .error fault) ∧
    (∀ (c : Catalog) step fault, c.take step = .error fault → c.after step = c ∧ step.added = empty) ∧
    (∀ a b c : Catalog, (a.merge b).merge c = a.merge (b.merge c)) ∧
    (∀ c : Catalog, c.IsCounted → empty.merge c = c ∧ c.merge empty = c) ∧
    ∀ g : Grouping, (∀ c ∈ g.catalogs, c.IsCounted) → g.outcome = joined g.catalogs := by
  refine ⟨fun steps => ⟨isBuiltFrom_run steps, findsEarliest _⟩, fun content => ?_,
    fun _ _ _ => of_take_error, merge_assoc, fun c h => ⟨empty_merge h, merge_empty h⟩,
    Grouping.outcome_eq_joined⟩
  refine ⟨isReadingOf_parse content, fun c fault => ⟨error_of_map, fun h => ?_⟩⟩
  rw [take, h]
  rfl

/-- A specification that declares nothing. -/
def bare (id : Option String) (name : String) : Specification :=
  ⟨id, name, 0, 0, .params ⟨[], none, none⟩, none⟩

/-- An array whose second item is no specification. -/
def halfGood : Json := .arr [.obj [("mode", .str "abi_params"), ("name", .str "t")], .null]

/-- Steps that add a specification named like a key, fail, and then add two with the key as their
identifier. The last brings the greatest count. -/
def sampleSteps : List Step :=
  [.merge ⟨[bare none "key"], 7, []⟩, .parse halfGood.pretty, .push (bare (some "key") "first"),
    .merge ⟨[bare (some "key") "second"], maxCount, ["refused"]⟩]

/-- The text of the array is refused for its second item. The step that reads it changes nothing,
the count stops at the greatest, and the key leads to the first of its identifier. -/
theorem catalog_of_sampleSteps :
    empty.take (.parse halfGood.pretty) = .error (.item 1 (.unknownMode "")) ∧
    empty.after (.parse halfGood.pretty) = empty ∧
    (run sampleSteps).specs =
      [bare none "key", bare (some "key") "first", bare (some "key") "second"] ∧
    (run sampleSteps).scannedFiles = maxCount ∧
    (run sampleSteps).get? "key" = some (bare (some "key") "first") ∧
    empty.merge (run sampleSteps) = run sampleSteps ∧
    (Grouping.merged (.single (run sampleSteps)) (.merged (.single empty) (.single empty))).outcome =
      joined [run sampleSteps, empty, empty] := by
  obtain ⟨hruns, hreads, hfails, -, hempty, hgroups⟩ := catalogs_are_built
  have hsmall : halfGood.HasSmallNumbers := ⟨⟨trivial, trivial, trivial⟩, trivial, trivial⟩
  have hdepth : halfGood.height ≤ Json.maxDepth := by decide
  have hparse : parse halfGood.pretty = .error (.item 1 (.unknownMode "")) := by
    rw [parse_pretty_eq_ofJson hsmall hdepth]
    with_unfolding_all rfl
  have htake := ((hreads halfGood.pretty).2 empty _).mpr hparse
  have hadded : (Step.parse halfGood.pretty).added = empty := (hfails _ _ _ htake).2
  obtain ⟨⟨hspecs, hcount, -⟩, hfinds⟩ := hruns sampleSteps
  have hcounted : (run sampleSteps).IsCounted := by
    rw [IsCounted, hcount]
    exact Nat.min_le_right _ _
  have hthree : (run sampleSteps).specs =
      [bare none "key", bare (some "key") "first", bare (some "key") "second"] := by
    rw [hspecs]
    simp only [sampleSteps, List.flatMap_cons, List.flatMap_nil, hadded]
    rfl
  have hmost : (run sampleSteps).scannedFiles = maxCount := by
    rw [hcount]
    simp only [sampleSteps, List.map_cons, List.map_nil, hadded]
    decide +kernel
  have hfirst : IsEarliest (fun t => t.id = some "key") (run sampleSteps).specs
      (bare (some "key") "first") :=
    ⟨rfl, [bare none "key"], [bare (some "key") "second"], hthree,
      List.forall_mem_singleton.mpr (by decide)⟩
  have hnone : empty.IsCounted := Nat.zero_le maxCount
  have hall : ∀ c ∈ [run sampleSteps, empty, empty], c.IsCounted :=
    List.forall_mem_cons.mpr
      ⟨hcounted, List.forall_mem_cons.mpr ⟨hnone, List.forall_mem_singleton.mpr hnone⟩⟩
  exact ⟨htake, (hfails _ _ _ htake).1, hthree, hmost,
    ((hfinds "key").some_iff _).mpr (.inl hfirst), (hempty _ hcounted).1,
    hgroups (.merged (.single _) (.merged (.single _) (.single _))) hall⟩

end RollupInput.Catalog
