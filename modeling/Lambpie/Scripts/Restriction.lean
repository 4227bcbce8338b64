/-
Restricting the operations.

What is collected for fewer operations is a part of what is collected for more,
and every parsed shape depends on the model alone.  So the restricted parse
succeeds with the other one, and each of its pieces is a piece of the other.
-/
import Mathlib.Data.List.Flatten
import Lambpie.Foundations.SortedFilter
import Lambpie.Scripts.GeneratePie
import Lambpie.Scripts.ClosedModel

namespace Lambpie.Scripts

open Foundations

def selects : Option (List String) → String → Bool
  | none, _ => true
  | some names, name => name ∈ names

private theorem selectedOperations_eq (model : ServiceModel)
    (operationNames : Option (List String)) :
    selectedOperations model operationNames =
      model.operations.filter (selects operationNames ·.1) := by
  cases operationNames with
  | none => exact (List.filter_true _).symm
  | some names => rfl

private theorem parseOperations_eq (model : ServiceModel)
    {operationNames : Option (List String)} (nonempty : operationNames ≠ some []) :
    parseOperations model operationNames =
      ((model.operations.insertionSort (·.1 ≤ ·.1)).filter
        (selects operationNames ·.1)).map parseOperation := by
  have selected : parseOperations model operationNames =
      ((selectedOperations model operationNames).insertionSort
        (·.1 ≤ ·.1)).map parseOperation := by
    cases operationNames with
    | none => rfl
    | some names =>
        cases names with
        | nil => exact absurd rfl nonempty
        | cons name names => rfl
  rw [selected, selectedOperations_eq, filter_insertionSort]

private theorem parseOperation_name (item : String × Operation) :
    (parseOperation item).name = item.1 :=
  rfl

private theorem parseOperations_restrict (model : ServiceModel)
    {larger smaller : Option (List String)} (largerNonempty : larger ≠ some [])
    (smallerNonempty : smaller ≠ some [])
    (subset : ∀ name ∈ model.operations.map Prod.fst,
      selects smaller name → selects larger name) :
    parseOperations model smaller =
      (parseOperations model larger).filter (selects smaller ·.name) := by
  rw [parseOperations_eq model largerNonempty,
    parseOperations_eq model smallerNonempty, List.filter_map, List.filter_filter]
  apply congrArg (List.map parseOperation)
  apply List.filter_congr
  intro item inside
  have listed : item.1 ∈ model.operations.map Prod.fst :=
    List.mem_map_of_mem ((List.mem_insertionSort _).mp inside)
  have both := subset item.1 listed
  simp only [Function.comp_apply, parseOperation_name]
  cases chosen : selects smaller item.1 with
  | false => rfl
  | true => rw [both chosen, Bool.and_self]

theorem Needed.mono {shapes : List (String × Shape)}
    {fewer more : List (String × Operation)} {name : String}
    (within : ∀ item ∈ fewer, item ∈ more) (needed : Needed shapes fewer name) :
    Needed shapes more name := by
  induction needed with
  | operation selected named => exact .operation (within _ selected) named
  | reference _ refers ih => exact .reference ih refers

theorem collected_exact {model : ServiceModel}
    {operationNames : Option (List String)}
    (existing : SelectsExisting model operationNames) {reachable : List String}
    (collected : collectReachableShapes model operationNames = .ok reachable) :
    (∀ name, Needed model.shapes (selectedOperations model operationNames) name →
      Defined model.shapes name) ∧
    reachable.Nodup ∧ ∀ name, name ∈ reachable ↔
      Needed model.shapes (selectedOperations model operationNames) name := by
  have allDefined (name : String)
      (needed : Needed model.shapes (selectedOperations model operationNames) name) :
      Defined model.shapes name := by
    by_contra undefined
    obtain ⟨error, raised, -⟩ := collectReachable_raises existing needed undefined
    rw [collected] at raised
    cases raised
  obtain ⟨other, ran, distinct, exact⟩ :=
    collectReachable_returns existing allDefined
  rw [collected] at ran
  cases ran
  exact ⟨allDefined, distinct, exact⟩

private theorem selectedOperations_restrict {model : ServiceModel}
    {larger smaller : Option (List String)}
    (subset : ∀ name ∈ model.operations.map Prod.fst,
      selects smaller name → selects larger name) :
    ∀ item ∈ selectedOperations model smaller,
      item ∈ selectedOperations model larger := by
  intro item inside
  rw [selectedOperations_eq, List.mem_filter] at inside ⊢
  exact ⟨inside.1, subset item.1 (List.mem_map_of_mem inside.1) inside.2⟩

private theorem parseShapes_cons (shapes : List (String × Shape)) (skip : Bool)
    (name : String) (rest : List String) :
    parseShapes shapes skip (name :: rest) = (do
      let here ← parseShapes shapes skip [name]
      let others ← parseShapes shapes skip rest
      pure (here ++ others)) := by
  have nothing : (parseShapes shapes skip rest >>= fun others =>
      (pure ([] ++ others) : Except ParseError _)) =
        parseShapes shapes skip rest := by
    cases parseShapes shapes skip rest with
    | error error => rfl
    | ok others => rfl
  rw [parseShapes, parseShapes]
  cases shapes.lookup name with
  | none => rfl
  | some shape =>
      simp only
      split
      · cases parseStructureShape shapes skip name shape with
        | error error => rfl
        | ok definition => rfl
      · split
        · split
          · exact nothing.symm
          · rfl
        · cases botocoreScalarToPie shape.type name with
          | ok pieType => rfl
          | error error =>
              simp only
              split
              · exact nothing.symm
              · rfl

private theorem parseShapes_key {shapes : List (String × Shape)} {skip : Bool}
    {name : String} {here : List (String × ShapeDef)}
    (ran : parseShapes shapes skip [name] = .ok here) :
    ∀ item ∈ here, item.1 = name := by
  intro item inside
  have key := (parseShapes_parsed ran).sublist.subset (List.mem_map_of_mem inside)
  exact List.mem_singleton.mp key

private theorem parseShapes_filter {shapes : List (String × Shape)} {skip : Bool}
    {names : List String} {parsed : List (String × ShapeDef)}
    (ran : parseShapes shapes skip names = .ok parsed) (p : String → Bool) :
    parseShapes shapes skip (names.filter p) = .ok (parsed.filter (p ·.1)) := by
  induction names generalizing parsed with
  | nil =>
      cases ran
      rfl
  | cons name rest ih =>
      rw [parseShapes_cons] at ran
      obtain ⟨here, hereRan, ran⟩ := except_bind_ok ran
      obtain ⟨others, othersRan, same⟩ := except_bind_ok ran
      cases same
      have keys := parseShapes_key hereRan
      rw [List.filter_append]
      by_cases kept : p name
      · have whole : here.filter (p ·.1) = here := by
          apply List.filter_eq_self.mpr
          intro item inside
          rw [keys item inside]
          exact kept
        rw [List.filter_cons_of_pos kept, parseShapes_cons, hereRan, ih othersRan,
          whole]
        rfl
      · have none : here.filter (p ·.1) = [] := by
          apply List.filter_eq_nil_iff.mpr
          intro item inside
          rw [keys item inside]
          exact kept
        rw [List.filter_cons_of_neg kept, ih othersRan, none, List.nil_append]

private theorem generatePieClasses_filter (shapes : List (String × ShapeDef))
    (p : String → Bool) :
    generatePieClasses (shapes.filter (p ·.1)) =
      (generatePieClasses shapes).filter (p ·.1) := by
  unfold generatePieClasses
  rw [← filter_insertionSort, List.filterMap_filter, List.filter_filterMap]
  apply List.filterMap_congr
  intro item _
  obtain ⟨name, definition | pieType⟩ := item
  · by_cases kept : p name
    · simp [kept, Option.filter]
    · simp [kept, Option.filter]
  · by_cases kept : p name
    · simp [kept]
    · simp [kept]

private theorem emittedClasses_filter (shapes : List (String × ShapeDef))
    (p : String → Bool) :
    emittedClasses (shapes.filter (p ·.1)) =
      (emittedClasses shapes).filter (p ·.1) := by
  unfold emittedClasses
  rw [generatePieClasses_filter, List.filter_map]
  rfl

private theorem stubLines_filter (shapes : List (String × ShapeDef)) (p : String → Bool)
    (operation : ParsedOperation)
    (kept : ∀ name ∈ operation.shapeNames, p name) :
    stubLines (shapes.filter (p ·.1)) operation = stubLines shapes operation := by
  have classOf (name : String) (inside : name ∈ operation.shapeNames) :
      (generatePieClasses (shapes.filter (p ·.1))).lookup name =
        (generatePieClasses shapes).lookup name := by
    rw [generatePieClasses_filter, lookup_filter, if_pos (kept name inside)]
  have shapeOf (name : String) (inside : name ∈ operation.shapeNames) :
      (shapes.filter (p ·.1)).lookup name = shapes.lookup name := by
    rw [lookup_filter, if_pos (kept name inside)]
  have params : inputParams (shapes.filter (p ·.1)) operation.inputShape =
      inputParams shapes operation.inputShape := by
    cases input : operation.inputShape with
    | none => rfl
    | some name =>
        have inside : name ∈ operation.shapeNames := by
          unfold ParsedOperation.shapeNames
          simp [input]
        unfold inputParams shapePieType
        simp only [classOf name inside, shapeOf name inside]
  have returns : returnType (shapes.filter (p ·.1)) operation.outputShape =
      returnType shapes operation.outputShape := by
    cases output : operation.outputShape with
    | none => rfl
    | some name =>
        have inside : name ∈ operation.shapeNames := by
          unfold ParsedOperation.shapeNames
          simp [output]
        unfold returnType
        simp only [classOf name inside, shapeOf name inside]
  unfold stubLines stubParams
  rw [params, returns]

private theorem heading_sublist {α : Type} {part whole : List α}
    (sublist : part.Sublist whole) (heading : List String) :
    (if part = [] then [] else heading).Sublist
      (if whole = [] then [] else heading) := by
  by_cases empty : part = []
  · rw [if_pos empty]
    exact List.nil_sublist _
  · have filled : whole ≠ [] := by
      rintro rfl
      exact empty (List.sublist_nil.mp sublist)
    rw [if_neg empty, if_neg filled]

/-- The part has nothing of its own: its shapes are entries of the whole, its
operations are those of the whole that are selected, and so with the classes and
the pieces of text. -/
structure ParsedModel.RestrictionOf (part whole : ParsedModel)
    (operationNames : Option (List String)) : Prop where
  service : part.service = whole.service
  shapes : ∀ name definition, part.shapes.lookup name = some definition →
    whole.shapes.lookup name = some definition
  operations : part.operations =
    whole.operations.filter (selects operationNames ·.name)
  classes : ∀ className lines,
    (emittedClasses part.shapes).lookup className = some lines →
      (emittedClasses whole.shapes).lookup className = some lines
  text : ∀ serviceName outputPath,
    (pieLines part serviceName outputPath).Sublist
      (pieLines whole serviceName outputPath)

/-- Keeping the shapes that the kept operations name restricts the text. -/
theorem pieLines_sublist {part whole : ParsedModel} (p : String → Bool)
    (service : part.service = whole.service)
    (shapes : part.shapes = whole.shapes.filter (p ·.1))
    (operations : part.operations.Sublist whole.operations)
    (kept : ∀ operation ∈ part.operations, ∀ name ∈ operation.shapeNames, p name)
    (serviceName outputPath : String) :
    (pieLines part serviceName outputPath).Sublist
      (pieLines whole serviceName outputPath) := by
  have classes : (emittedClasses part.shapes).Sublist
      (emittedClasses whole.shapes) := by
    rw [shapes, emittedClasses_filter]
    exact List.filter_sublist
  have stubs : part.operations.flatMap (stubLines part.shapes) =
      part.operations.flatMap (stubLines whole.shapes) := by
    apply List.flatMap_congr
    intro operation inside
    rw [shapes]
    exact stubLines_filter _ p operation (kept operation inside)
  unfold pieLines
  rw [service, stubs]
  apply List.Sublist.append
  · apply List.Sublist.append
    · apply List.Sublist.append
      · apply List.Sublist.append
        · exact List.Sublist.refl _
        · exact heading_sublist classes _
      · exact classes.flatMap _
    · exact heading_sublist operations _
  · exact operations.flatMap _

/-- For every model and every two selections, one within the other, neither
empty: when the parse of the larger selection succeeds, so does that of the
smaller one, and it is a restriction of the other. -/
theorem parseModel_restrict (model : ServiceModel)
    (larger smaller : Option (List String)) (skipUnsupported : Bool)
    (largerNonempty : larger ≠ some []) (smallerNonempty : smaller ≠ some [])
    (largerExisting : SelectsExisting model larger)
    (smallerExisting : SelectsExisting model smaller)
    (subset : ∀ name ∈ model.operations.map Prod.fst,
      selects smaller name → selects larger name)
    (whole : ParsedModel)
    (parses : parseModel model larger skipUnsupported = .ok whole) :
    ∃ part, parseModel model smaller skipUnsupported = .ok part ∧
      part.RestrictionOf whole smaller := by
  obtain ⟨reachable, collected, ran⟩ := except_bind_ok parses
  obtain ⟨service, metadata, ran⟩ := except_bind_ok ran
  obtain ⟨shapes, shapesRan, same⟩ := except_bind_ok ran
  cases same
  obtain ⟨allDefined, distinct, exact⟩ := collected_exact largerExisting collected
  have within := selectedOperations_restrict subset
  obtain ⟨fewer, fewerCollected, fewerDistinct, fewerExact⟩ :=
    collectReachable_returns smallerExisting
      (fun name needed => allDefined name (needed.mono within))
  have included : ∀ name ∈ fewer, name ∈ reachable := by
    intro name inside
    rw [exact]
    exact ((fewerExact name).mp inside).mono within
  have sorted : fewer.insertionSort (· ≤ ·) =
      (reachable.insertionSort (· ≤ ·)).filter (· ∈ fewer) :=
    insertionSort_eq_filter fewerDistinct distinct included
  have shapesPart := parseShapes_filter shapesRan (· ∈ fewer)
  rw [← sorted] at shapesPart
  have operations := parseOperations_restrict model largerNonempty
    smallerNonempty subset
  refine ⟨{ service, operations := parseOperations model smaller
            shapes := shapes.filter (decide <| ·.1 ∈ fewer) }, ?_, ?_⟩
  · unfold parseModel
    rw [fewerCollected, metadata]
    change (parseShapes model.shapes skipUnsupported
      (fewer.insertionSort (· ≤ ·)) >>= _) = _
    rw [shapesPart]
    rfl
  · refine { service := rfl, shapes := ?_, operations := operations
             classes := ?_, text := ?_ }
    · intro name definition found
      exact lookup_of_filter (p := (decide <| · ∈ fewer)) found
    · intro className lines found
      rw [emittedClasses_filter shapes (· ∈ fewer)] at found
      exact lookup_of_filter (p := (decide <| · ∈ fewer)) found
    · apply pieLines_sublist (decide <| · ∈ fewer)
      · rfl
      · rfl
      · rw [operations]
        exact List.filter_sublist
      · intro operation listed name named
        have perm := @parseOperations_perm model smaller (.inl smallerNonempty)
        obtain ⟨item, selected, rfl⟩ := List.mem_map.mp (perm.mem_iff.mp listed)
        rw [decide_eq_true_iff, fewerExact]
        exact .operation selected named

def storeModel : ServiceModel where
  operations :=
    [("Put", { input := some "PutRequest", output := none, errors := [] }),
      ("Get", { input := some "Key", output := some "Item", errors := [] })]
  shapes :=
    [("PutRequest", { plainShape "structure" with
        members := [("Key", memberOf "Key"), ("Item", memberOf "Item")] }),
      ("Item", { plainShape "structure" with members := [("Size", memberOf "Size")] }),
      ("Key", plainShape "string"), ("Size", plainShape "long")]

theorem parseModel_restrict_example :
    ∃ whole part, parseModel storeModel none false = .ok whole ∧
      parseModel storeModel (some ["Get"]) false = .ok part ∧
      part.RestrictionOf whole (some ["Get"]) := by
  have existing : SelectsExisting storeModel (some ["Get"]) := by
    intro names same name inside
    cases same
    rw [List.mem_singleton.mp inside]
    decide
  obtain ⟨part, parsed, restriction⟩ := parseModel_restrict storeModel none
    (some ["Get"]) false (by decide) (by decide)
    (fun names same => by cases same) existing (fun _ _ _ => rfl) _ rfl
  exact ⟨_, part, rfl, parsed, restriction⟩

end Lambpie.Scripts
