/-
The shapes that the selected operations need.

The parser collects shapes depth first, with one set of names for all roots.
What it collects is the least set that holds the shapes of the operations and
the references of its own shapes, whatever cycles the shapes form.
-/
import Lambpie.Scripts.ParseModels

namespace Lambpie.Scripts

open Foundations

theorem except_bind_ok {ε α β : Type} {first : Except ε α} {next : α → Except ε β}
    {result : β} (run : first >>= next = .ok result) :
    ∃ value, first = .ok value ∧ next value = .ok result := by
  cases first with
  | error error => cases run
  | ok value => exact ⟨value, rfl, run⟩

theorem reachable_closed {model : ServiceModel}
    {operationNames : Option (List String)} {reachable : List String}
    (collected : collectReachableShapes model operationNames = .ok reachable) :
    reachable.Nodup ∧ ∀ name ∈ reachable,
      (walkChildren model.shapes name).2 = none ∧
        ∀ child ∈ (walkChildren model.shapes name).1, child ∈ reachable := by
  obtain ⟨selected, -, walked⟩ := except_bind_ok collected
  have extends_ := GraphWalk.walkAll_extends _ _ walked
  exact ⟨extends_.distinct List.nodup_nil, fun name inside =>
    extends_.closed name inside List.not_mem_nil⟩

/-- The shapes that a shape refers to: the members of a structure, the element
of a list, the keys and the values of a map. -/
def Shape.references (shape : Shape) : List String :=
  if shape.type = "structure" then shape.members.map fun item => item.2.shape
  else if shape.type = "list" then shape.member.toList
  else if shape.type = "map" then shape.key.toList ++ shape.value.toList
  else []

/-- A list names its element shape, a map its key shape and its value shape. -/
def Shape.Complete (shape : Shape) : Prop :=
  (shape.type = "list" → shape.member.isSome) ∧
    (shape.type = "map" → shape.key.isSome ∧ shape.value.isSome)

def Defined (shapes : List (String × Shape)) (name : String) : Prop :=
  ∃ shape, shapes.lookup name = some shape ∧ shape.Complete

instance (shape : Shape) : Decidable shape.Complete :=
  inferInstanceAs (Decidable (_ ∧ _))

instance (shapes : List (String × Shape)) (name : String) :
    Decidable (Defined shapes name) :=
  match found : shapes.lookup name with
  | none => .isFalse fun known => by
      obtain ⟨shape, same, -⟩ := known
      rw [found] at same
      cases same
  | some shape => decidable_of_iff shape.Complete
      ⟨fun complete => ⟨shape, found, complete⟩, fun known => by
        obtain ⟨other, same, complete⟩ := known
        rw [found] at same
        cases same
        exact complete⟩

def RefersTo (shapes : List (String × Shape)) (name child : String) : Prop :=
  ∃ shape, shapes.lookup name = some shape ∧ child ∈ shape.references

def selectedOperations (model : ServiceModel) :
    Option (List String) → List (String × Operation)
  | none => model.operations
  | some names => model.operations.filter fun item => item.1 ∈ names

/-- Every name of the selection is an operation of the model. -/
def SelectsExisting (model : ServiceModel) (operationNames : Option (List String)) :
    Prop :=
  ∀ names, operationNames = some names →
    ∀ name ∈ names, name ∈ model.operations.map Prod.fst

/-- The least set with the input, output and error shapes of the operations
that is closed under the references of defined shapes. -/
inductive Needed (shapes : List (String × Shape))
    (operations : List (String × Operation)) : String → Prop
  | operation {item : String × Operation} {name : String}
      (selected : item ∈ operations) (named : name ∈ operationRoots item.2) :
      Needed shapes operations name
  | reference {name child : String} (needed : Needed shapes operations name)
      (refers : RefersTo shapes name child) : Needed shapes operations child

/-- Every shape that an operation or a shape refers to is defined. -/
structure ReferencesDefined (model : ServiceModel) : Prop where
  operations : ∀ item ∈ model.operations, ∀ name ∈ operationRoots item.2,
    Defined model.shapes name
  shapes : ∀ item ∈ model.shapes, ∀ name ∈ item.2.references,
    Defined model.shapes name

private theorem mem_of_selected {model : ServiceModel} {operationNames : Option (List String)}
    {item : String × Operation}
    (selected : item ∈ selectedOperations model operationNames) :
    item ∈ model.operations := by
  cases operationNames with
  | none => exact selected
  | some names => exact (List.mem_filter.mp selected).1

theorem mem_of_lookup {α : Type} {items : List (String × α)} {name : String}
    {value : α} (found : items.lookup name = some value) :
    (name, value) ∈ items := by
  obtain ⟨front, back, split, -⟩ := List.lookup_eq_some_iff.mp found
  rw [split]
  exact List.mem_append_right _ List.mem_cons_self

theorem ReferencesDefined.needed {model : ServiceModel}
    (references : ReferencesDefined model) {operationNames : Option (List String)}
    {name : String}
    (needed : Needed model.shapes (selectedOperations model operationNames) name) :
    Defined model.shapes name := by
  cases needed with
  | operation selected named =>
      exact references.operations _ (mem_of_selected selected) _ named
  | reference _ refers =>
      obtain ⟨shape, found, inside⟩ := refers
      exact references.shapes _ (mem_of_lookup found) _ inside

/-- The walk fails behind the children of a shape that is not defined. -/
theorem walkChildren_defined {shapes : List (String × Shape)} {name : String} :
    (walkChildren shapes name).2 = none ↔ Defined shapes name := by
  unfold walkChildren Defined
  cases found : shapes.lookup name with
  | none => simp
  | some shape =>
      simp only [Option.some.injEq, exists_eq_left', Shape.Complete]
      by_cases isList : shape.type = "list"
      · cases member : shape.member <;> simp [isList, shapeFields]
      · by_cases isMap : shape.type = "map"
        · cases key : shape.key <;> cases value : shape.value <;>
            simp [isMap, shapeFields]
        · simp only [isList, isMap, if_false, false_imp_iff, and_self, iff_true]
          split <;> rfl

private theorem walkChildren_references {shapes : List (String × Shape)} {name : String}
    {shape : Shape} (found : shapes.lookup name = some shape) :
    (∀ child ∈ (walkChildren shapes name).1, child ∈ shape.references) ∧
      (shape.Complete → (walkChildren shapes name).1 = shape.references) := by
  unfold walkChildren Shape.references Shape.Complete
  rw [found]
  by_cases isStructure : shape.type = "structure"
  · simp [isStructure]
  · by_cases isList : shape.type = "list"
    · cases member : shape.member <;> simp [isList, member, shapeFields]
    · by_cases isMap : shape.type = "map"
      · cases key : shape.key <;> cases value : shape.value <;>
          simp [isMap, key, value, shapeFields]
      · simp [isStructure, isList, isMap]

private theorem shapeFields_ne_recursionError (fields : List (String × Option String)) :
    (shapeFields fields).2 ≠ some .recursionError := by
  induction fields with
  | nil => simp [shapeFields]
  | cons field rest ih =>
      obtain ⟨field, reference⟩ := field
      cases reference with
      | none => simp [shapeFields]
      | some name => exact ih

private theorem walkChildren_ne_recursionError (shapes : List (String × Shape))
    (name : String) : (walkChildren shapes name).2 ≠ some .recursionError := by
  unfold walkChildren
  cases shapes.lookup name with
  | none => simp
  | some shape =>
      simp only
      split_ifs
      · simp
      · exact shapeFields_ne_recursionError _
      · exact shapeFields_ne_recursionError _
      · simp

private theorem walkChildren_found {shapes : List (String × Shape)} {name : String}
    (walked : (walkChildren shapes name).1 ≠ []) :
    ∃ shape, shapes.lookup name = some shape := by
  unfold walkChildren at walked
  cases found : shapes.lookup name with
  | none =>
      rw [found] at walked
      exact (walked rfl).elim
  | some shape => exact ⟨shape, rfl⟩

private theorem walkChildren_listed {shapes : List (String × Shape)} {name : String}
    (walked : (walkChildren shapes name).1 ≠ []) : name ∈ shapes.map Prod.fst := by
  obtain ⟨shape, found⟩ := walkChildren_found walked
  exact List.mem_map_of_mem (mem_of_lookup found)

def rootShapes (operations : List (String × Operation)) : List String :=
  operations.flatMap fun item => operationRoots item.2

private theorem needed_of_reached {shapes : List (String × Shape)}
    {operations : List (String × Operation)} {name : String}
    (reached : GraphWalk.Reached (GraphWalk.Child (walkChildren shapes))
      (rootShapes operations) name) : Needed shapes operations name := by
  induction reached with
  | root isRoot =>
      obtain ⟨item, selected, named⟩ := List.mem_flatMap.mp isRoot
      exact .operation selected named
  | step _ leads ih =>
      obtain ⟨shape, found⟩ := walkChildren_found (List.ne_nil_of_mem leads)
      exact .reference ih ⟨shape, found, (walkChildren_references found).1 _ leads⟩

/-- The walk reaches every needed shape, or one that is not defined. -/
theorem reached_of_needed {shapes : List (String × Shape)}
    {operations : List (String × Operation)} {name : String}
    (needed : Needed shapes operations name) :
    GraphWalk.Reached (GraphWalk.Child (walkChildren shapes))
        (rootShapes operations) name ∨
      ∃ other, GraphWalk.Reached (GraphWalk.Child (walkChildren shapes))
        (rootShapes operations) other ∧ ¬Defined shapes other := by
  induction needed with
  | operation selected named =>
      exact Or.inl (.root (List.mem_flatMap.mpr ⟨_, selected, named⟩))
  | @reference name child _ refers ih =>
      rcases ih with reached | undefined
      · by_cases known : Defined shapes name
        · obtain ⟨shape, found, inside⟩ := refers
          obtain ⟨shape', found', complete⟩ := known
          rw [found] at found'
          cases found'
          rw [← (walkChildren_references found).2 complete] at inside
          exact Or.inl (.step reached inside)
        · exact Or.inr ⟨name, reached, known⟩
      · exact Or.inr undefined

private theorem selectOperations_existing {model : ServiceModel}
    {operationNames : Option (List String)}
    (existing : SelectsExisting model operationNames) :
    selectOperations model operationNames =
      .ok (selectedOperations model operationNames) := by
  cases operationNames with
  | none => rfl
  | some names =>
      have noneUnknown : names.filter
          (fun name => name ∉ model.operations.map Prod.fst) = [] := by
        rw [List.filter_eq_nil_iff]
        intro name inside
        simpa using existing names rfl name inside
      simp only [selectOperations, selectedOperations, noneUnknown, ne_eq,
        not_true_eq_false, if_false]

private theorem collectReachableShapes_eq {model : ServiceModel}
    {operationNames : Option (List String)}
    (existing : SelectsExisting model operationNames) :
    collectReachableShapes model operationNames =
      GraphWalk.walkAll (walkChildren model.shapes) .recursionError
        (model.shapes.length + 1)
        (rootShapes (selectedOperations model operationNames)) [] := by
  unfold collectReachableShapes
  rw [selectOperations_existing existing]
  rfl

private theorem shapes_lt_depth (model : ServiceModel) :
    (model.shapes.map Prod.fst).length < model.shapes.length + 1 := by
  simp

theorem collectReachable_returns {model : ServiceModel}
    {operationNames : Option (List String)}
    (existing : SelectsExisting model operationNames)
    (allDefined : ∀ name,
      Needed model.shapes (selectedOperations model operationNames) name →
        Defined model.shapes name) :
    ∃ reachable, collectReachableShapes model operationNames = .ok reachable ∧
      reachable.Nodup ∧ ∀ name, name ∈ reachable ↔
        Needed model.shapes (selectedOperations model operationNames) name := by
  rw [collectReachableShapes_eq existing]
  obtain ⟨reachable, ran, distinct, exact⟩ := GraphWalk.walkAll_exact
    (model.shapes.map Prod.fst) (fun _ walked => walkChildren_listed walked)
    (walkChildren_ne_recursionError model.shapes) _ (shapes_lt_depth model)
    (fun name reached => walkChildren_defined.mpr
      (allDefined name (needed_of_reached reached)))
  refine ⟨reachable, ran, distinct, ?_⟩
  intro name
  rw [exact]
  constructor
  · exact needed_of_reached
  · intro needed
    rcases reached_of_needed needed with reached | ⟨other, reached, undefined⟩
    · exact reached
    · exact absurd (allDefined other (needed_of_reached reached)) undefined

theorem collectReachable_raises {model : ServiceModel}
    {operationNames : Option (List String)}
    (existing : SelectsExisting model operationNames) {name : String}
    (needed : Needed model.shapes (selectedOperations model operationNames) name)
    (undefined : ¬Defined model.shapes name) :
    ∃ error, collectReachableShapes model operationNames = .error error ∧
      error ≠ .recursionError := by
  have stuck : ∃ other, GraphWalk.Reached
      (GraphWalk.Child (walkChildren model.shapes))
      (rootShapes (selectedOperations model operationNames)) other ∧
        ¬Defined model.shapes other := by
    rcases reached_of_needed needed with reached | stuck
    · exact ⟨name, reached, undefined⟩
    · exact stuck
  obtain ⟨other, reached, unknown⟩ := stuck
  rw [collectReachableShapes_eq existing]
  cases walked : (walkChildren model.shapes other).2 with
  | none => exact absurd (walkChildren_defined.mp walked) unknown
  | some error =>
      exact GraphWalk.walkAll_fails (model.shapes.map Prod.fst)
        (fun _ walked => walkChildren_listed walked)
        (walkChildren_ne_recursionError model.shapes) _ (shapes_lt_depth model)
        reached walked

/-- For every model and every selection of existing operations: if every shape
needed is defined, exactly the shapes needed are collected, and otherwise the
walk raises.  The depth of the recursion is never exhausted. -/
theorem collectReachable_exact (model : ServiceModel)
    (operationNames : Option (List String))
    (existing : SelectsExisting model operationNames) :
    ((∀ name, Needed model.shapes (selectedOperations model operationNames) name →
        Defined model.shapes name) →
      ∃ reachable, collectReachableShapes model operationNames = .ok reachable ∧
        reachable.Nodup ∧ ∀ name, name ∈ reachable ↔
          Needed model.shapes (selectedOperations model operationNames) name) ∧
    ((∃ name, Needed model.shapes (selectedOperations model operationNames) name ∧
        ¬Defined model.shapes name) →
      ∃ error, collectReachableShapes model operationNames = .error error ∧
        error ≠ .recursionError) := by
  constructor
  · exact collectReachable_returns existing
  · intro someUndefined
    obtain ⟨name, needed, undefined⟩ := someUndefined
    exact collectReachable_raises existing needed undefined

def plainShape (type : String) : Shape where
  type := type
  members := []
  required := []
  member := none
  key := none
  value := none

def memberOf (shape : String) : MemberInfo :=
  { shape, location := none, locationName := none }

/-- A structure that refers to itself and, through a list, once more. -/
def cyclicModel : ServiceModel where
  operations := [("Walk", { input := some "Node", output := none, errors := [] })]
  shapes := [
    ("Node", { plainShape "structure" with
      members := [("Parent", memberOf "Node"), ("Children", memberOf "Nodes")] }),
    ("Nodes", { plainShape "list" with member := some "Node" }),
    ("Unused", plainShape "string")]

theorem collectReachable_exact_cyclic :
    ∃ reachable, collectReachableShapes cyclicModel (some ["Walk"]) =
        .ok reachable ∧ reachable.Nodup ∧ ∀ name, name ∈ reachable ↔
          Needed cyclicModel.shapes
            (selectedOperations cyclicModel (some ["Walk"])) name := by
  have existing : SelectsExisting cyclicModel (some ["Walk"]) := by
    intro names same
    cases same
    decide
  have references : ReferencesDefined cyclicModel :=
    { operations := by decide, shapes := by decide }
  exact (collectReachable_exact cyclicModel (some ["Walk"]) existing).1
    fun name needed => references.needed needed

end Lambpie.Scripts
