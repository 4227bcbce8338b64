/-
The parsed model is closed.

The operations are selected twice, once to collect their shapes and once to
list them.  The two selections differ for an empty list of names only: the
collection takes it as no operation and the listing as no restriction.
-/
import Lambpie.Scripts.SkipUnsupported

namespace Lambpie.Scripts

open Foundations

private theorem selectOperations_ok {model : ServiceModel}
    {operationNames : Option (List String)}
    {selected : List (String × Operation)}
    (selects : selectOperations model operationNames = .ok selected) :
    selected = selectedOperations model operationNames := by
  cases operationNames with
  | none =>
      cases selects
      rfl
  | some names =>
      simp only [selectOperations] at selects
      split at selects
      · cases selects
      · cases selects
        rfl

private theorem collected_roots {model : ServiceModel}
    {operationNames : Option (List String)} {reachable : List String}
    (collected : collectReachableShapes model operationNames = .ok reachable)
    {item : String × Operation}
    (selected : item ∈ selectedOperations model operationNames) {name : String}
    (named : name ∈ operationRoots item.2) : name ∈ reachable := by
  obtain ⟨operations, selects, walked⟩ := except_bind_ok collected
  have rooted := (GraphWalk.walkAll_extends _ _ walked).rooted
  rw [selectOperations_ok selects] at rooted
  exact rooted name (List.mem_flatMap.mpr ⟨item, selected, named⟩)

private theorem unsupported_of_unknown {shapes : List (String × Shape)} {name : String}
    {shape : Shape} {error : ParseError} (found : shapes.lookup name = some shape)
    (notStructure : shape.type ≠ "structure")
    (notCompound : ¬(shape.type = "list" ∨ shape.type = "map"))
    (failed : botocoreScalarToPie shape.type name = .error error) :
    ¬supported shapes name := by
  have scalar := scalar_not_compound notStructure
    (fun isList => notCompound (Or.inl isList))
    (fun isMap => notCompound (Or.inr isMap))
  rw [supported_eq found]
  unfold botocoreScalarToPie at failed
  rw [if_neg scalar] at failed
  cases typeOf : scalarTypeMap.lookup shape.type with
  | none => simp [notStructure]
  | some pieType =>
      rw [typeOf] at failed
      cases failed

/-- A name that is no key of the parsed shapes was skipped as unsupported. -/
theorem parseShapes_keys {shapes : List (String × Shape)} {skip : Bool}
    {names : List String} {parsed : List (String × ShapeDef)}
    (ran : parseShapes shapes skip names = .ok parsed) :
    ∀ name ∈ names, name ∈ parsed.map Prod.fst ∨
      (skip = true ∧ ¬supported shapes name) := by
  induction names generalizing parsed with
  | nil => exact fun _ impossible => absurd impossible List.not_mem_nil
  | cons first rest ih =>
      obtain ⟨shape, others, found, othersRan, parsedFirst⟩ := parseShapes_cases ran
      intro name inside
      rcases List.mem_cons.mp inside with rfl | later
      · cases parsedFirst with
        | structured => exact Or.inl List.mem_cons_self
        | scalar => exact Or.inl List.mem_cons_self
        | compound skips isCompound =>
            exact Or.inr ⟨skips, unsupported_of_compound found isCompound⟩
        | unknown skips notStructure notCompound failed =>
            exact Or.inr ⟨skips, unsupported_of_unknown found notStructure notCompound failed⟩
      · rcases ih othersRan name later with key | skipped
        · cases parsedFirst with
          | structured => exact Or.inl (List.mem_cons_of_mem first key)
          | scalar => exact Or.inl (List.mem_cons_of_mem first key)
          | compound => exact Or.inl key
          | unknown => exact Or.inl key
        · exact Or.inr skipped

def ParsedOperation.shapeNames (operation : ParsedOperation) : List String :=
  operation.inputShape.toList ++ operation.outputShape.toList ++
    operation.errorShapes

/-- The operations listed are those whose shapes were collected, their shapes
are keys unless skipped as unsupported, and so are the classes of members. -/
structure ParsedModel.Closed (model : ServiceModel)
    (operationNames : Option (List String)) (skipUnsupported : Bool)
    (parsed : ParsedModel) : Prop where
  operations : parsed.operations.Perm
    ((selectedOperations model operationNames).map parseOperation)
  shapes : ∀ operation ∈ parsed.operations, ∀ name ∈ operation.shapeNames,
    name ∈ parsed.shapes.map Prod.fst ∨
      (skipUnsupported = true ∧ ¬supported model.shapes name)
  classes : ∀ name definition, (name, .structure definition) ∈ parsed.shapes →
    ∀ item ∈ definition.members, item.2.pieType ≠ "str" →
      item.2.pieType ≠ "int" →
        ∃ inner, (item.2.pieType, .structure inner) ∈ parsed.shapes

/-- Both selections agree unless the list of names is empty. -/
theorem parseOperations_perm {model : ServiceModel}
    {operationNames : Option (List String)}
    (agrees : operationNames ≠ some [] ∨ model.operations = []) :
    (parseOperations model operationNames).Perm
      ((selectedOperations model operationNames).map parseOperation) := by
  have sorted (selected : List (String × Operation)) :
      ((selected.insertionSort (·.1 ≤ ·.1)).map parseOperation).Perm
        (selected.map parseOperation) :=
    (List.perm_insertionSort _ selected).map parseOperation
  cases operationNames with
  | none => exact sorted model.operations
  | some names =>
      cases names with
      | cons name names => exact sorted _
      | nil =>
          rcases agrees with impossible | none
          · exact absurd rfl impossible
          · simp [parseOperations, selectedOperations, none]

/-- A successful parse is closed if and only if the list of names is not empty
or there are no operations. -/
theorem parsedModel_closed_iff (model : ServiceModel)
    (operationNames : Option (List String)) (skipUnsupported : Bool)
    (parsed : ParsedModel)
    (parses : parseModel model operationNames skipUnsupported = .ok parsed) :
    parsed.Closed model operationNames skipUnsupported ↔
      operationNames ≠ some [] ∨ model.operations = [] := by
  obtain ⟨reachable, collected, ran⟩ := except_bind_ok parses
  obtain ⟨service, -, ran⟩ := except_bind_ok ran
  obtain ⟨shapes, shapesRan, same⟩ := except_bind_ok ran
  cases same
  constructor
  · intro closed
    by_contra disagrees
    rw [not_or, not_not] at disagrees
    obtain ⟨rfl, someOperation⟩ := disagrees
    have lengths := closed.operations.length_eq
    have listed : (parseOperations model (some [])).length =
        model.operations.length := by
      simp [parseOperations, List.length_insertionSort]
    have none : selectedOperations model (some []) = [] := by
      simp [selectedOperations]
    rw [none] at lengths
    change (parseOperations model (some [])).length = 0 at lengths
    rw [listed] at lengths
    exact someOperation (List.length_eq_zero_iff.mp lengths)
  · intro agrees
    have operations := parseOperations_perm agrees
    refine { operations := operations, shapes := ?_, classes := ?_ }
    · intro operation listed name named
      obtain ⟨item, selected, rfl⟩ :=
        List.mem_map.mp (operations.mem_iff.mp listed)
      exact parseShapes_keys shapesRan name
        ((List.mem_insertionSort _).mpr (collected_roots collected selected named))
    · intro name definition listed item member notStr notInt
      rcases parsed_member_class collected (parseShapes_parsed shapesRan) listed
        member with primitive | listedClass
      · rcases primitive with isStr | isInt
        · exact absurd isStr notStr
        · exact absurd isInt notInt
      · exact listedClass

theorem parsedModel_closed_cyclic :
    ∃ parsed, parseModel cyclicModel (some ["Walk"]) true = .ok parsed ∧
      parsed.Closed cyclicModel (some ["Walk"]) true :=
  ⟨_, rfl, (parsedModel_closed_iff cyclicModel (some ["Walk"]) true _ rfl).mpr
    (Or.inl (by decide))⟩

/-- An empty list of names lists every operation and collects no shape. -/
theorem parsedModel_open_empty :
    ∃ parsed, parseModel cyclicModel (some []) true = .ok parsed ∧
      parsed.operations.map (·.inputShape) = [some "Node"] ∧
      parsed.shapes.map Prod.fst = [] ∧
      ¬parsed.Closed cyclicModel (some []) true := by
  refine ⟨_, rfl, rfl, rfl, ?_⟩
  intro closed
  exact absurd closed.operations.length_eq (by decide)

end Lambpie.Scripts
