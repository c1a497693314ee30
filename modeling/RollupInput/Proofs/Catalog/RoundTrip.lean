import RollupInput.Catalog
import RollupInput.Decoding.Run
import RollupInput.Proofs.Specification.Written

/-!
# Export and import

A list of specifications that were read is exported as a text that is imported as the same list.
A single specification is written and read in the same way, and then decodes as it did before.
-/

namespace RollupInput.Catalog

open Json

/-- Written specifications are read in order. -/
theorem ofItems_map_json_sorted {specs : List Specification} (h : ∀ s ∈ specs, s.IsReadable)
    (index : Nat) : ofItems index (specs.map fun s => s.json.sorted) = .ok specs := by
  induction specs generalizing index with
  | nil => rfl
  | cons s rest ih =>
    have hs := Specification.ofJson_json_sorted (h s List.mem_cons_self)
    have hrest := ih (fun t ht => h t (List.mem_cons_of_mem s ht)) (index + 1)
    rw [List.map_cons, ofItems, hs]
    dsimp only
    rw [hrest]
    rfl

/-- The exported array of specifications is read as its sorted form. -/
theorem parse_exportText_eq_sorted {specs : List Specification} (h : ∀ s ∈ specs, s.IsReadable)
    (hdepth : (Json.arr (specs.map Specification.json)).height ≤ maxDepth) :
    Json.parse (exportText specs) = .ok (.arr (specs.map fun s => s.json.sorted)) := by
  have hsmall : (Json.arr (specs.map Specification.json)).HasSmallNumbers := by
    refine hasSmallNumbers_arr ?_
    intro v hv
    obtain ⟨s, hs, rfl⟩ := List.mem_map.mp hv
    exact Specification.hasSmallNumbers_json (h s hs)
  have hparse := parse_pretty hsmall hdepth
  rw [sorted_arr, List.map_map] at hparse
  exact hparse

/-- Specifications that were read, with containers nested no deeper than the reader of texts
admits, are imported from their export in order. Each of them is read from its own text as well,
and its written form decodes every payload as the specification does. -/
theorem parse_exportText [Abi.Memory] {specs : List Specification}
    (hread : ∀ s ∈ specs, ∃ v, Specification.ofJson v = .ok s)
    (hdepth : (Json.arr (specs.map Specification.json)).height ≤ maxDepth) :
    parse (exportText specs) = .ok specs ∧
      ∀ s ∈ specs, Json.parse s.json.pretty = .ok s.json.sorted ∧
        ∀ payload, Decoding.runJson s.json.sorted payload = .ok (Decoding.run s payload) := by
  have hreadable : ∀ s ∈ specs, s.IsReadable := by
    intro s hs
    obtain ⟨v, hv⟩ := hread s hs
    exact Specification.isReadable_of_ofJson hv
  constructor
  · have hitems := ofItems_map_json_sorted hreadable 0
    unfold parse
    rw [parse_exportText_eq_sorted hreadable hdepth]
    exact hitems
  · intro s hs
    have hlow : s.json.height < (Json.arr (specs.map Specification.json)).height :=
      height_lt_of_mem (List.mem_map_of_mem hs)
    have hsmall := Specification.hasSmallNumbers_json (hreadable s hs)
    refine ⟨parse_pretty hsmall (by omega), fun payload => ?_⟩
    unfold Decoding.runJson
    rw [Specification.ofJson_json_sorted (hreadable s hs)]
    rfl

/-- A specification with a contract that takes payments and has a function of one list of
structs. -/
def sampleContract : Specification :=
  ⟨none, "pay", 0, 7, .contract ⟨none, none, some .payable,
    [⟨"pay", [⟨"order", "tuple[]", none,
      [⟨"to", "address", none, []⟩, ⟨"", "uint8", none, []⟩]⟩], [], .view⟩], [], []⟩, some []⟩

/-- A form that the sample is read from: kinds by position, older marks, and members left out. -/
def sampleContractJson : Json :=
  .obj [("mode", .str "json_abi"), ("name", .str "pay"), ("version", .nat 7),
    ("conditionals", .arr []),
    ("abi", .arr
      [.obj [("type", .nat 2), ("payable", .bool true)],
        .obj [("type", .str "function"), ("name", .str "pay"),
          ("inputs", .arr [.obj [("name", .str "order"), ("type", .str "tuple[]"),
            ("components", .arr [.obj [("name", .str "to"), ("type", .str "address")],
              .obj [("type", .str "uint8")]])]]),
          ("outputs", .arr []), ("constant", .bool true)]])]

attribute [local instance] Abi.Memory.usual

/-- A built-in specification and the sample are imported from their export. -/
theorem parse_exportText_sample :
    (∀ s ∈ [Portals.etherDeposit, sampleContract], ∃ v, Specification.ofJson v = .ok s) ∧
      (Json.arr ([Portals.etherDeposit, sampleContract].map Specification.json)).height ≤ maxDepth ∧
      parse (exportText [Portals.etherDeposit, sampleContract]) =
        .ok [Portals.etherDeposit, sampleContract] := by
  have hether : Specification.ofJson Portals.etherDeposit.json = .ok Portals.etherDeposit := by
    with_unfolding_all rfl
  have hsample : Specification.ofJson sampleContractJson = .ok sampleContract := by
    with_unfolding_all rfl
  have hread : ∀ s ∈ [Portals.etherDeposit, sampleContract],
      ∃ v, Specification.ofJson v = .ok s :=
    List.forall_mem_cons.mpr ⟨⟨_, hether⟩, List.forall_mem_singleton.mpr ⟨_, hsample⟩⟩
  have hdepth : (Json.arr ([Portals.etherDeposit, sampleContract].map Specification.json)).height ≤
      maxDepth := by decide
  exact ⟨hread, hdepth, (parse_exportText hread hdepth).1⟩

end RollupInput.Catalog
