/-
When the generated text is valid Python.

For names that are identifiers and comments without line breaks the text is
always read as its classes and its stubs.  What can go wrong is a NUL in a
comment, an assignment to `__debug__`, and the parameters of a stub: the members
of its input structure stand behind the fixed `endpoint`.
-/
import Lambpie.Scripts.PieText
import Lambpie.Scripts.Restriction

namespace Lambpie.Scripts

open Foundations
open Foundations.Python

/-! ### Parsed entries -/

section Entries

variable {shapes : List (String × Shape)}

private theorem resolvePieType_supported {name pieType : String}
    (resolved : resolvePieType name shapes = .ok pieType) :
    supported shapes name := by
  unfold resolvePieType at resolved
  unfold supported
  cases found : shapes.lookup name with
  | none =>
      rw [found] at resolved
      cases resolved
  | some shape =>
      rw [found] at resolved
      simp only at resolved ⊢
      split at resolved
      · simp [*]
      · split at resolved
        · cases resolved
        · split at resolved
          · cases resolved
          · unfold botocoreScalarToPie at resolved
            split at resolved
            · cases resolved
            · split at resolved
              · simp [*]
              · cases resolved

private theorem resolvePieType_unsupported {name message : String}
    (failed : resolvePieType name shapes = .error (.notImplementedError message)) :
    ¬supported shapes name := by
  unfold resolvePieType at failed
  unfold supported
  cases found : shapes.lookup name with
  | none =>
      rw [found] at failed
      cases failed
  | some shape =>
      rw [found] at failed
      simp only at failed ⊢
      split at failed
      · cases failed
      · split at failed
        · simp [*, compoundTypes]
        · split at failed
          · simp [*, compoundTypes]
          · unfold botocoreScalarToPie at failed
            split at failed
            · cases failed
            · split at failed
              · cases failed
              · cases failed

private theorem parseMembers_names {skip : Bool} {shapeName : String} {required : List String}
    {members : List (String × MemberInfo)} {parsed : List (String × ParsedMember)}
    (ran : parseMembers shapes skip shapeName required members = .ok parsed) :
    parsed.map Prod.fst =
      (members.filter (memberSupported shapes)).map Prod.fst := by
  induction members generalizing parsed with
  | nil =>
      cases ran
      rfl
  | cons member rest ih =>
      obtain ⟨fieldName, info⟩ := member
      unfold parseMembers at ran
      split at ran
      · rename_i pieType resolved
        obtain ⟨others, othersRan, same⟩ := except_bind_ok ran
        cases same
        have kept : memberSupported shapes (fieldName, info) = true :=
          resolvePieType_supported resolved
        rw [List.filter_cons_of_pos kept, List.map_cons, List.map_cons, ih othersRan]
      · rename_i message failed
        split at ran
        · have dropped : ¬memberSupported shapes (fieldName, info) = true :=
            resolvePieType_unsupported failed
          rw [List.filter_cons_of_neg dropped, ih ran]
        · cases ran
      · cases ran

/-- A structure with its supported members, or a scalar type. -/
def FitsShape (shapes : List (String × Shape)) : String × ShapeDef → Prop
  | (name, .structure definition) => KeepsSupported shapes name definition
  | (_, .scalar pieType) => pieType = "str" ∨ pieType = "int"

private theorem parseShapes_fits {skip : Bool} {names : List String}
    {parsed : List (String × ShapeDef)}
    (ran : parseShapes shapes skip names = .ok parsed) :
    ∀ item ∈ parsed, FitsShape shapes item := by
  induction names generalizing parsed with
  | nil =>
      cases ran
      exact fun _ impossible => absurd impossible List.not_mem_nil
  | cons name rest ih =>
      obtain ⟨shape, others, found, othersRan, first⟩ := parseShapes_cases ran
      have fits := ih othersRan
      cases first with
      | structured isStructure structureRan =>
          obtain ⟨members, membersRan, same⟩ := except_bind_ok structureRan
          cases same
          intro item inside
          rcases List.mem_cons.mp inside with rfl | later
          · exact ⟨shape, found, isStructure, parseMembers_names membersRan⟩
          · exact fits item later
      | scalar _ resolved =>
          intro item inside
          rcases List.mem_cons.mp inside with rfl | later
          · exact botocoreScalarToPie_ok resolved
          · exact fits item later
      | compound => exact fits
      | unknown => exact fits

private theorem lookup_generatePieClasses {parsed : List (String × ShapeDef)}
    {name : String} {definition : StructureDef}
    (found : (generatePieClasses parsed).lookup name = some definition) :
    (name, .structure definition) ∈ parsed :=
  mem_generatePieClasses.mp (mem_of_lookup found)

private theorem mem_inputParams {parsed : List (String × ShapeDef)} {input : Option String}
    {param : String × String} (inside : param ∈ inputParams parsed input) :
    (∃ name definition,
        (generatePieClasses parsed).lookup name = some definition ∧
        ∃ field ∈ definition.members, param = (field.1, field.2.pieType)) ∨
      param.1 = "request" ∧
        (param.2 = "str" ∨ ∃ name, (name, .scalar param.2) ∈ parsed) := by
  unfold inputParams at inside
  split at inside
  · cases inside
  · rename_i inputShape
    split at inside
    · cases inside
    · split at inside
      · rename_i definition found
        obtain ⟨field, inFields, rfl⟩ := List.mem_map.mp inside
        rw [mem_orderedFields] at inFields
        exact .inl ⟨inputShape, definition, found, field, inFields, rfl⟩
      · unfold shapePieType at inside
        simp only at inside
        split at inside
        · split at inside
          · rw [List.mem_singleton.mp inside]
            exact .inr ⟨rfl, .inl rfl⟩
          · cases inside
        · rename_i pieType found
          split at inside
          · rw [List.mem_singleton.mp inside]
            exact .inr ⟨rfl, .inr ⟨inputShape, mem_of_lookup found⟩⟩
          · cases inside
        · rw [if_neg (fun differs => differs rfl)] at inside
          cases inside

private theorem lookup_of_not_class {parsed : List (String × ShapeDef)} {name : String}
    (absent : (generatePieClasses parsed).lookup name = none)
    (definition : StructureDef) : (name, .structure definition) ∉ parsed := by
  intro listed
  have inClasses := mem_generatePieClasses.mpr listed
  have differs := List.lookup_eq_none_iff.mp absent _ inClasses
  simp at differs

end Entries

section Names

variable {lexis : Lexis}

/-- Operations, shapes and members are named by identifiers. -/
structure ServiceModel.Named (lexis : Lexis) (model : ServiceModel) : Prop where
  operations : ∀ item ∈ model.operations, lexis.IsName item.1
  shapes : ∀ item ∈ model.shapes, lexis.IsName item.1
  members : ∀ item ∈ model.shapes, ∀ member ∈ item.2.members, lexis.IsName member.1

private theorem scalar_name {pieType : String} (primitive : pieType = "str" ∨ pieType = "int") :
    lexis.IsName pieType := by
  rcases primitive with rfl | rfl
  · exact Lexis.isName_of_ascii rfl (by decide)
  · exact Lexis.isName_of_ascii rfl (by decide)

private theorem class_names {model : ServiceModel} (named : model.Named lexis)
    {names : List String} {parsed : List (String × ShapeDef)}
    (shapes : ParsedShapes model.shapes names parsed) {item : String × StructureDef}
    (listed : (item.1, .structure item.2) ∈ parsed) : ClassNames lexis item := by
  obtain ⟨shape, found, -, members⟩ := shapes.parsedFrom item.1 item.2 listed
  have inModel := mem_of_lookup found
  refine { name := named.shapes _ inModel, fields := ?_ }
  intro field inside
  obtain ⟨info, isMember, resolved⟩ := members field inside
  refine { name := named.members _ inModel _ isMember, type := ?_ }
  rcases resolvePieType_ok resolved with primitive | ⟨same, inner, innerFound, -⟩
  · exact scalar_name primitive
  · change lexis.IsName field.2.pieType
    rw [same]
    exact named.shapes _ (mem_of_lookup innerFound)

section Stubs

variable {model : ServiceModel} {names : List String}
  {parsed : List (String × ShapeDef)}

private theorem inputParams_names (named : model.Named lexis)
    (shapes : ParsedShapes model.shapes names parsed)
    (fits : ∀ item ∈ parsed, FitsShape model.shapes item) (input : Option String) :
    ∀ param ∈ inputParams parsed input, PairNames lexis param := by
  intro param inside
  rcases mem_inputParams inside with
    ⟨name, definition, found, field, inFields, rfl⟩ | ⟨request, primitive⟩
  · have cls : ClassNames lexis (name, definition) :=
      class_names named shapes (lookup_generatePieClasses found)
    exact cls.fields field inFields
  · refine { name := ?_, type := ?_ }
    · rw [request]
      exact Lexis.isName_of_ascii rfl (by decide)
    · rcases primitive with isStr | ⟨name, listed⟩
      · exact scalar_name (.inl isStr)
      · exact scalar_name (fits _ listed)

private theorem returnType_name (named : model.Named lexis)
    (shapes : ParsedShapes model.shapes names parsed)
    (fits : ∀ item ∈ parsed, FitsShape model.shapes item) (output : Option String) :
    lexis.IsName (returnType parsed output) := by
  have status : lexis.IsName "int" := scalar_name (.inr rfl)
  unfold returnType
  split
  · exact status
  · split
    · exact status
    · split
      · rename_i definition found
        have cls : ClassNames lexis (_, definition) :=
          class_names named shapes (lookup_generatePieClasses found)
        exact cls.name
      · rename_i notClass
        split
        · exact status
        · rename_i pieType found
          exact scalar_name (fits _ (mem_of_lookup found))
        · rename_i definition found
          exact absurd (mem_of_lookup found) (lookup_of_not_class notClass definition)

end Stubs

private theorem parsed_names {model : ServiceModel} {operationNames : Option (List String)}
    {skipUnsupported : Bool} {parsed : ParsedModel} (named : model.Named lexis)
    (parses : parseModel model operationNames skipUnsupported = .ok parsed) :
    ParsedNames lexis parsed := by
  obtain ⟨reachable, collected, ran⟩ := except_bind_ok parses
  obtain ⟨service, metadata, ran⟩ := except_bind_ok ran
  obtain ⟨shapes, shapesRan, same⟩ := except_bind_ok ran
  cases same
  have parsedShapes := parseShapes_parsed shapesRan
  have fits := parseShapes_fits shapesRan
  refine { classes := ?_, stubs := ?_ }
  · intro item inside
    exact class_names named parsedShapes (mem_generatePieClasses.mp inside)
  · intro operation inside
    refine { name := ?_, params := ?_
             returns := returnType_name named parsedShapes fits _ }
    · obtain ⟨item, listed, rfl⟩ := List.mem_map.mp inside
      rw [List.mem_insertionSort] at listed
      apply named.operations item
      cases operationNames with
      | none => exact listed
      | some chosen =>
          cases chosen with
          | nil => exact listed
          | cons first others => exact (List.mem_filter.mp listed).1
    · intro param isParam
      rcases List.mem_cons.mp isParam with rfl | fromInput
      · exact ⟨Lexis.isName_of_ascii rfl (by decide), scalar_name (.inl rfl)⟩
      · exact inputParams_names named parsedShapes fits _ param fromInput

private theorem classStatement_checked {item : String × StructureDef} :
    (classStatement lexis item).Checked ↔ lexis.normal item.1 ≠ "__debug__" ∧
      ∀ field ∈ item.2.members, lexis.normal field.1 ≠ "__debug__" := by
  have fields : "__debug__" ∉ (classBlock lexis item.2).statements.flatMap
      Simple.boundNames ↔
      ∀ field ∈ item.2.members, lexis.normal field.1 ≠ "__debug__" := by
    unfold classBlock
    by_cases empty : item.2.members = []
    · rw [dif_pos empty, empty]
      simp [Simple.boundNames]
    · rw [dif_neg empty, List.flatMap_map]
      simp only [List.mem_flatMap, Simple.boundNames, List.mem_singleton, not_exists,
        not_and, mem_orderedFields]
      constructor
      · intro absent field inside same
        exact absent field inside same.symm
      · intro absent field inside same
        exact absent field inside same.symm
  constructor
  · intro checked
    have absent := checked.assignable
    rw [classStatement, Statement.boundNames, List.mem_cons, not_or, fields] at absent
    exact ⟨fun same => absent.1 same.symm, absent.2⟩
  · rintro ⟨name, others⟩
    refine { distinct := List.nodup_nil, assignable := ?_ }
    rw [classStatement, Statement.boundNames, List.mem_cons, not_or, fields]
    exact ⟨fun same => name same.symm, others⟩

/-- The names of a stub's parameters, as the compiler compares them. -/
def paramNames (lexis : Lexis) (shapes : List (String × ShapeDef))
    (operation : ParsedOperation) : List String :=
  (stubParams shapes operation).map (lexis.normal ·.1)

private theorem stubStatement_checked {shapes : List (String × ShapeDef)}
    {operation : ParsedOperation} :
    (stubStatement lexis shapes operation).Checked ↔
      lexis.normal operation.name ≠ "__debug__" ∧
        (paramNames lexis shapes operation).Nodup ∧
        "__debug__" ∉ paramNames lexis shapes operation := by
  have params : ((stubParams shapes operation).map (normalPair lexis)).map Prod.fst =
      paramNames lexis shapes operation := by
    rw [List.map_map]
    rfl
  have bound : (stubStatement lexis shapes operation).boundNames =
      lexis.normal operation.name :: paramNames lexis shapes operation := by
    rw [stubStatement, Statement.boundNames, params]
    exact congrArg _ (List.append_nil _)
  constructor
  · rintro ⟨distinct, assignable⟩
    rw [bound, List.mem_cons, not_or] at assignable
    rw [stubStatement, Statement.paramNames, params] at distinct
    exact ⟨fun same => assignable.1 same.symm, distinct, assignable.2⟩
  · rintro ⟨name, distinct, absent⟩
    refine { distinct := ?_, assignable := ?_ }
    · rwa [stubStatement, Statement.paramNames, params]
    · rw [bound, List.mem_cons, not_or]
      exact ⟨fun same => name same.symm, absent⟩

/-- The names of the members that a structure keeps, as the compiler compares
them. -/
def keptNames (lexis : Lexis) (shapes : List (String × Shape)) (shape : Shape) :
    List String :=
  (shape.members.filter (memberSupported shapes)).map (lexis.normal ·.1)

private theorem orderedFields_perm (definition : StructureDef) :
    (orderedFields definition).Perm definition.members := by
  have sorted (items : List (String × ParsedMember)) :
      (items.insertionSort (·.1 ≤ ·.1)).Perm items := List.perm_insertionSort _ _
  exact ((sorted _).append (sorted _)).trans (List.filter_append_perm _ _)

private theorem keeps_names {shapes : List (String × Shape)} {name : String} {shape : Shape}
    {definition : StructureDef} (keeps : KeepsSupported shapes name definition)
    (found : shapes.lookup name = some shape) :
    definition.members.map (lexis.normal ·.1) = keptNames lexis shapes shape := by
  obtain ⟨other, otherFound, -, names⟩ := keeps
  rw [found] at otherFound
  cases otherFound
  have normal := congrArg (List.map lexis.normal) names
  rwa [List.map_map, List.map_map] at normal

private theorem paramNames_structure {shapes : List (String × Shape)}
    {parsed : List (String × ShapeDef)} {operation : ParsedOperation} {name : String}
    {shape : Shape} {definition : StructureDef}
    (input : operation.inputShape = some name) (nonempty : name ≠ "")
    (isClass : (generatePieClasses parsed).lookup name = some definition)
    (keeps : KeepsSupported shapes name definition)
    (found : shapes.lookup name = some shape) :
    (paramNames lexis parsed operation).Perm
      ("endpoint" :: keptNames lexis shapes shape) := by
  have endpoint : lexis.normal "endpoint" = "endpoint" := Lexis.normal_of_ascii rfl
  unfold paramNames stubParams inputParams
  rw [input, ← keeps_names keeps found]
  simp only [nonempty, if_false, isClass, List.map_cons, endpoint, List.map_map]
  exact ((orderedFields_perm definition).map _).cons _

private theorem paramNames_other {parsed : List (String × ShapeDef)}
    {operation : ParsedOperation}
    (other : ∀ name, operation.inputShape = some name → name ≠ "" →
      (generatePieClasses parsed).lookup name = none) :
    paramNames lexis parsed operation = ["endpoint"] ∨
      paramNames lexis parsed operation = ["endpoint", "request"] := by
  have endpoint : lexis.normal "endpoint" = "endpoint" := Lexis.normal_of_ascii rfl
  have request : lexis.normal "request" = "request" := Lexis.normal_of_ascii rfl
  unfold paramNames stubParams inputParams
  split
  · left
    rw [List.map_cons, List.map_nil, endpoint]
  · rename_i name input
    split
    · left
      rw [List.map_cons, List.map_nil, endpoint]
    · rename_i nonempty
      rw [other name input nonempty]
      simp only
      split
      · right
        rw [List.map_cons, List.map_cons, List.map_nil, endpoint, request]
      · left
        rw [List.map_cons, List.map_nil, endpoint]

/-! ### Selected operations and collected shapes -/

section Collected

variable {model : ServiceModel} {operationNames : Option (List String)}
  {reachable : List String}

private theorem collected_existing
    (collected : collectReachableShapes model operationNames = .ok reachable) :
    SelectsExisting model operationNames := by
  obtain ⟨selected, selects, -⟩ := except_bind_ok collected
  intro names same name inside
  subst same
  simp only [selectOperations] at selects
  split at selects
  · cases selects
  · rename_i noneUnknown
    rw [ne_eq, not_not, List.filter_eq_nil_iff] at noneUnknown
    simpa using noneUnknown name inside

private theorem not_needed_nil {shapes : List (String × Shape)} {name : String} :
    ¬Needed shapes [] name := by
  intro needed
  induction needed with
  | operation selected _ => cases selected
  | reference _ _ ih => exact ih

private theorem parseOperations_selected {operation : ParsedOperation}
    (listed : operation ∈ parseOperations model operationNames) :
    (∃ item ∈ selectedOperations model operationNames,
        operation = parseOperation item) ∨
      ∀ name, ¬Needed model.shapes
        (selectedOperations model operationNames) name := by
  by_cases empty : operationNames = some []
  · right
    intro name
    have none : selectedOperations model operationNames = [] := by
      rw [empty]
      exact List.filter_eq_nil_iff.mpr (by simp)
    rw [none]
    exact not_needed_nil
  · left
    have perm := @parseOperations_perm model operationNames (.inl empty)
    obtain ⟨item, selected, same⟩ := List.mem_map.mp (perm.mem_iff.mp listed)
    exact ⟨item, selected, same.symm⟩

private theorem parseOperations_listed {item : String × Operation}
    (selected : item ∈ selectedOperations model operationNames) :
    parseOperation item ∈ parseOperations model operationNames := by
  have nonempty : operationNames ≠ some [] := by
    rintro rfl
    exact absurd (List.mem_filter.mp selected).2 (by simp)
  have perm := @parseOperations_perm model operationNames (.inl nonempty)
  exact perm.mem_iff.mpr (List.mem_map_of_mem selected)

end Collected

/-! ### Valid text -/

private theorem accepts_iff {parsed : ParsedModel} {serviceName outputPath : String}
    (names : ParsedNames lexis parsed)
    (unbroken : ∀ text ∈ commentTexts parsed serviceName outputPath, Unbroken text) :
    lexis.Accepts (generatePie parsed serviceName outputPath) ↔
      (∀ text ∈ commentTexts parsed serviceName outputPath, '\x00' ∉ text.toList) ∧
      (∀ item ∈ generatePieClasses parsed.shapes,
        (classStatement lexis item).Checked) ∧
      ∀ operation ∈ parsed.operations,
        (stubStatement lexis parsed.shapes operation).Checked := by
  rw [← nul_generatePie names]
  have checks : (∀ statement ∈ pieStatements lexis parsed, statement.Checked) ↔
      (∀ item ∈ generatePieClasses parsed.shapes,
        (classStatement lexis item).Checked) ∧
      ∀ operation ∈ parsed.operations,
        (stubStatement lexis parsed.shapes operation).Checked := by
    unfold pieStatements
    rw [List.forall_mem_append, List.forall_mem_map, List.forall_mem_map]
  rw [← checks]
  constructor
  · rintro ⟨statements, parses, checked⟩
    have noNul : '\x00' ∉ (generatePie parsed serviceName outputPath).toList := by
      intro inside
      rw [Lexis.parse, if_pos inside] at parses
      cases parses
    rw [parse_generatePie names unbroken noNul] at parses
    cases parses
    exact ⟨noNul, checked⟩
  · rintro ⟨noNul, checked⟩
    exact ⟨_, parse_generatePie names unbroken noNul, checked⟩

/-- No comment text holds a NUL, nothing that is written is named `__debug__`, and
the members that an input structure keeps are neither `endpoint` nor the same. -/
structure SourceConditions (lexis : Lexis) (model : ServiceModel)
    (operationNames : Option (List String)) (parsed : ParsedModel)
    (serviceName outputPath : String) : Prop where
  comments : ∀ text ∈ commentTexts parsed serviceName outputPath,
    '\x00' ∉ text.toList
  operations : ∀ operation ∈ parsed.operations,
    lexis.normal operation.name ≠ "__debug__"
  classes : ∀ name, Needed model.shapes
      (selectedOperations model operationNames) name →
    ∀ shape, model.shapes.lookup name = some shape → shape.type = "structure" →
      lexis.normal name ≠ "__debug__" ∧
        "__debug__" ∉ keptNames lexis model.shapes shape
  params : ∀ item ∈ selectedOperations model operationNames,
    ∀ name, item.2.input = some name →
    ∀ shape, model.shapes.lookup name = some shape → shape.type = "structure" →
      ("endpoint" :: keptNames lexis model.shapes shape).Nodup

private theorem paramNames_assignable {shapes : List (String × ShapeDef)}
    (classes : ∀ item ∈ generatePieClasses shapes,
      (classStatement lexis item).Checked) (operation : ParsedOperation) :
    "__debug__" ∉ paramNames lexis shapes operation := by
  intro inside
  obtain ⟨param, listed, same⟩ := List.mem_map.mp inside
  rcases List.mem_cons.mp listed with rfl | fromInput
  · rw [Lexis.normal_of_ascii rfl] at same
    exact absurd same (by decide)
  · rcases mem_inputParams fromInput with
      ⟨name, definition, found, field, inFields, rfl⟩ | ⟨request, -⟩
    · have checked := classes (name, definition)
        (mem_generatePieClasses.mpr (lookup_generatePieClasses found))
      exact (classStatement_checked.mp checked).2 field inFields same
    · rw [request, Lexis.normal_of_ascii rfl] at same
      exact absurd same (by decide)

section Parsed

variable {model : ServiceModel} {operationNames : Option (List String)}
  {skipUnsupported : Bool} {reachable : List String}
  {shapes : List (String × ShapeDef)}
  (collected : collectReachableShapes model operationNames = .ok reachable)
  (shapesRan : parseShapes model.shapes skipUnsupported
    (reachable.insertionSort (· ≤ ·)) = .ok shapes)

include collected shapesRan

private theorem class_needed {name : String} {definition : StructureDef}
    (listed : (name, .structure definition) ∈ shapes) :
    Needed model.shapes (selectedOperations model operationNames) name := by
  obtain ⟨-, -, needed_iff⟩ := collected_exact (collected_existing collected) collected
  have inNames := (parseShapes_parsed shapesRan).sublist.subset
    (List.mem_map_of_mem listed)
  exact (needed_iff name).mp ((List.mem_insertionSort _).mp inNames)

private theorem needed_class {name : String} {shape : Shape}
    (needed : Needed model.shapes (selectedOperations model operationNames) name)
    (found : model.shapes.lookup name = some shape)
    (isStructure : shape.type = "structure") :
    ∃ definition, (name, .structure definition) ∈ shapes := by
  obtain ⟨-, -, needed_iff⟩ := collected_exact (collected_existing collected) collected
  exact (parseShapes_parsed shapesRan).complete name
    ((List.mem_insertionSort _).mpr ((needed_iff name).mpr needed)) shape found
    isStructure

private theorem classes_checked_iff :
    (∀ item ∈ generatePieClasses shapes, (classStatement lexis item).Checked) ↔
      ∀ name, Needed model.shapes (selectedOperations model operationNames) name →
        ∀ shape, model.shapes.lookup name = some shape → shape.type = "structure" →
          lexis.normal name ≠ "__debug__" ∧
            "__debug__" ∉ keptNames lexis model.shapes shape := by
  have fits := parseShapes_fits shapesRan
  constructor
  · intro classes name needed shape found isStructure
    obtain ⟨definition, listed⟩ :=
      needed_class collected shapesRan needed found isStructure
    obtain ⟨notName, notFields⟩ := classStatement_checked.mp
      (classes _ (mem_generatePieClasses.mpr listed))
    refine ⟨notName, ?_⟩
    rw [← keeps_names (fits _ listed) found, List.mem_map]
    rintro ⟨field, inside, same⟩
    exact notFields field inside same
  · rintro conditions ⟨name, definition⟩ inside
    have listed := mem_generatePieClasses.mp inside
    obtain ⟨shape, found, isStructure, -⟩ := fits _ listed
    obtain ⟨notName, notFields⟩ := conditions name
      (class_needed collected shapesRan listed) shape found isStructure
    rw [classStatement_checked]
    refine ⟨notName, ?_⟩
    intro field inFields same
    rw [← keeps_names (fits _ listed) found] at notFields
    exact notFields (List.mem_map.mpr ⟨field, inFields, same⟩)

/-- The parameters of every stub are those of its input structure. -/
theorem stubs_distinct_iff (named : model.Named lexis) :
    (∀ operation ∈ parseOperations model operationNames,
        (paramNames lexis shapes operation).Nodup) ↔
      ∀ item ∈ selectedOperations model operationNames,
        ∀ name, item.2.input = some name →
        ∀ shape, model.shapes.lookup name = some shape → shape.type = "structure" →
          ("endpoint" :: keptNames lexis model.shapes shape).Nodup := by
  have fits := parseShapes_fits shapesRan
  constructor
  · intro distinct item selected name input shape found isStructure
    have root : name ∈ operationRoots item.2 := by
      unfold operationRoots
      simp [input]
    obtain ⟨definition, listed⟩ := needed_class collected shapesRan
      (.operation selected root) found isStructure
    have nonempty : name ≠ "" := by
      rintro rfl
      have word := (named.shapes _ (mem_of_lookup found)).word
      cases word
    have input : (parseOperation item).inputShape = some name := input
    cases isClass : (generatePieClasses shapes).lookup name with
    | none => exact absurd listed (lookup_of_not_class isClass definition)
    | some written =>
        have keeps := fits _ (lookup_generatePieClasses isClass)
        exact (paramNames_structure input nonempty isClass keeps found).nodup_iff.mp
          (distinct _ (parseOperations_listed selected))
  · intro conditions operation listed
    by_cases isClass : ∃ name definition, operation.inputShape = some name ∧
        name ≠ "" ∧ (generatePieClasses shapes).lookup name = some definition
    · obtain ⟨name, definition, input, nonempty, isClass⟩ := isClass
      have inShapes := lookup_generatePieClasses isClass
      obtain ⟨shape, found, isStructure, -⟩ := fits _ inShapes
      rcases parseOperations_selected listed with ⟨item, selected, rfl⟩ | nothing
      · rw [(paramNames_structure input nonempty isClass (fits _ inShapes)
          found).nodup_iff]
        exact conditions item selected name input shape found isStructure
      · exact absurd (class_needed collected shapesRan inShapes) (nothing name)
    · have other (name : String) (input : operation.inputShape = some name)
          (nonempty : name ≠ "") :
          (generatePieClasses shapes).lookup name = none := by
        cases found : (generatePieClasses shapes).lookup name with
        | none => rfl
        | some definition =>
            exact absurd ⟨name, definition, input, nonempty, found⟩ isClass
      rcases paramNames_other other with only | both
      · rw [only]
        decide
      · rw [both]
        decide

end Parsed

/-- For every model whose names are identifiers and for which the parser returns,
whatever its comment texts are without line breaks: the generated text is valid
Python if and only if the conditions on comments and names are met. -/
theorem generatePie_valid_iff (lexis : Lexis) (model : ServiceModel)
    (operationNames : Option (List String)) (skipUnsupported : Bool)
    (parsed : ParsedModel) (serviceName outputPath : String)
    (named : model.Named lexis)
    (parses : parseModel model operationNames skipUnsupported = .ok parsed)
    (unbroken : ∀ text ∈ commentTexts parsed serviceName outputPath, Unbroken text) :
    lexis.Accepts (generatePie parsed serviceName outputPath) ↔
      SourceConditions lexis model operationNames parsed serviceName outputPath := by
  rw [accepts_iff (parsed_names named parses) unbroken]
  obtain ⟨reachable, collected, ran⟩ := except_bind_ok parses
  obtain ⟨service, metadata, ran⟩ := except_bind_ok ran
  obtain ⟨shapes, shapesRan, same⟩ := except_bind_ok ran
  cases same
  have classes_iff := @classes_checked_iff lexis _ _ _ _ _ collected shapesRan
  have distinct_iff := stubs_distinct_iff collected shapesRan named
  constructor
  · rintro ⟨comments, classes, stubs⟩
    have checked (operation : ParsedOperation)
        (listed : operation ∈ parseOperations model operationNames) :=
      stubStatement_checked.mp (stubs operation listed)
    exact
      { comments := comments
        operations := fun operation listed => (checked operation listed).1
        classes := classes_iff.mp classes
        params := distinct_iff.mp fun operation listed => (checked operation listed).2.1 }
  · intro conditions
    have classes := classes_iff.mpr conditions.classes
    refine ⟨conditions.comments, classes, ?_⟩
    intro operation listed
    rw [stubStatement_checked]
    exact ⟨conditions.operations operation listed,
      distinct_iff.mpr conditions.params operation listed,
      paramNames_assignable classes operation⟩

theorem generatePie_valid_iff_example :
    ∃ parsed, parseModel storeModel none false = .ok parsed ∧
      (Lexis.ascii.Accepts (generatePie parsed "store" "store.pie") ↔
        SourceConditions Lexis.ascii storeModel none parsed "store" "store.pie") := by
  have named : storeModel.Named Lexis.ascii :=
    { operations := by decide +kernel
      shapes := by decide +kernel
      members := by decide +kernel }
  exact ⟨_, rfl, generatePie_valid_iff Lexis.ascii storeModel none false _ "store"
    "store.pie" named rfl (unbroken_of_all rfl)⟩

/-- An operation whose input structure has a member `endpoint`. -/
def endpointModel : ServiceModel where
  operations := [("Subscribe",
    { input := some "SubscribeRequest", output := none, errors := [] })]
  shapes := [
    ("SubscribeRequest", { plainShape "structure" with
      members := [("endpoint", memberOf "Url")] }),
    ("Url", plainShape "string")]

/-- The stub has two parameters `endpoint`. -/
theorem generatePie_endpoint_twice :
    endpointModel.Named Lexis.ascii ∧
      ∃ parsed, parseModel endpointModel none false = .ok parsed ∧
        (∀ text ∈ commentTexts parsed "push" "push.pie", Unbroken text) ∧
        ¬Lexis.ascii.Accepts (generatePie parsed "push" "push.pie") := by
  have named : endpointModel.Named Lexis.ascii :=
    { operations := by decide +kernel
      shapes := by decide +kernel
      members := by decide +kernel }
  refine ⟨named, _, rfl, unbroken_of_all rfl, ?_⟩
  have names := @parsed_names Lexis.ascii endpointModel none false _ named rfl
  rw [accepts_iff names (unbroken_of_all rfl)]
  rintro ⟨-, -, stubs⟩
  have checked := stubs _ List.mem_cons_self
  have distinct := (stubStatement_checked.mp checked).2.1
  exact absurd distinct (by decide +kernel)

end Names

end Lambpie.Scripts
