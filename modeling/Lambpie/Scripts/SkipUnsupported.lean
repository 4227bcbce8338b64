/-
Parsing with `skip_unsupported`.

Lists, maps and scalars without a type of their own are left out as shapes.
As the type of a member, a list or a map is left out as well, but an unknown
scalar raises a `TypeError` that nothing catches.
-/
import Lambpie.Scripts.Parsing

namespace Lambpie.Scripts

open Foundations

/-- A structure, or a scalar with a type in the scalar map. -/
def supported (shapes : List (String × Shape)) (name : String) : Bool :=
  match shapes.lookup name with
  | some shape =>
      shape.type = "structure" ||
        (shape.type ∉ compoundTypes && (scalarTypeMap.lookup shape.type).isSome)
  | none => false

def UnknownScalar (shapes : List (String × Shape)) (name : String) : Prop :=
  ∃ shape, shapes.lookup name = some shape ∧ shape.type ∉ compoundTypes ∧
    scalarTypeMap.lookup shape.type = none

instance (shapes : List (String × Shape)) (name : String) :
    Decidable (UnknownScalar shapes name) :=
  match found : shapes.lookup name with
  | none => .isFalse fun unknown => by
      obtain ⟨shape, same, -⟩ := unknown
      rw [found] at same
      cases same
  | some shape =>
      decidable_of_iff (shape.type ∉ compoundTypes ∧
        scalarTypeMap.lookup shape.type = none)
        ⟨fun both => ⟨shape, found, both⟩, fun unknown => by
          obtain ⟨other, same, both⟩ := unknown
          rw [found] at same
          cases same
          exact both⟩

/-- No member of the structure has an unknown scalar for its type. -/
def MembersKnown (shapes : List (String × Shape)) (name : String) : Prop :=
  ∀ shape, shapes.lookup name = some shape → shape.type = "structure" →
    ∀ item ∈ shape.members, ¬UnknownScalar shapes item.2.shape

private theorem membersKnown_of_listed {shapes : List (String × Shape)}
    (listed : ∀ item ∈ shapes, item.2.type = "structure" →
      ∀ member ∈ item.2.members, ¬UnknownScalar shapes member.2.shape)
    (name : String) : MembersKnown shapes name :=
  fun shape found isStructure => listed (name, shape) (mem_of_lookup found) isStructure

theorem scalar_not_compound {type : String} (notStructure : type ≠ "structure")
    (notList : type ≠ "list") (notMap : type ≠ "map") :
    type ∉ compoundTypes := by
  simp [compoundTypes, notStructure, notList, notMap]

/-- A defined member type resolves, is a list or a map, or is an unknown
scalar. -/
theorem resolvePieType_cases {shapes : List (String × Shape)} {name : String}
    (known : Defined shapes name) :
    (supported shapes name ∧ ¬UnknownScalar shapes name ∧
      ∃ pieType, resolvePieType name shapes = .ok pieType) ∨
    (¬supported shapes name ∧ ¬UnknownScalar shapes name ∧
      ∃ message, resolvePieType name shapes = .error (.notImplementedError message)) ∨
    (¬supported shapes name ∧ UnknownScalar shapes name ∧
      ∃ message, resolvePieType name shapes = .error (.typeError message)) := by
  obtain ⟨shape, found, -⟩ := known
  have unknown_iff : UnknownScalar shapes name ↔ shape.type ∉ compoundTypes ∧
      scalarTypeMap.lookup shape.type = none := by
    unfold UnknownScalar
    rw [found]
    simp
  rw [unknown_iff]
  unfold supported resolvePieType
  rw [found]
  simp only
  by_cases isStructure : shape.type = "structure"
  · refine Or.inl ⟨by simp [isStructure], ?_, by simp [isStructure]⟩
    rw [isStructure]
    decide
  · by_cases isList : shape.type = "list"
    · refine Or.inr (Or.inl ⟨?_, ?_, by simp [isList]⟩)
      · rw [isList]
        decide
      · rw [isList]
        decide
    · by_cases isMap : shape.type = "map"
      · refine Or.inr (Or.inl ⟨?_, ?_, by simp [isMap]⟩)
        · rw [isMap]
          decide
        · rw [isMap]
          decide
      · have scalar := scalar_not_compound isStructure isList isMap
        simp only [isStructure, isList, isMap, if_false, botocoreScalarToPie,
          scalar]
        cases scalarTypeMap.lookup shape.type with
        | none => exact Or.inr (Or.inr ⟨by simp, by simp, _, rfl⟩)
        | some pieType => exact Or.inl ⟨by simp, by simp, pieType, rfl⟩

def memberSupported (shapes : List (String × Shape))
    (item : String × MemberInfo) : Bool :=
  supported shapes item.2.shape

private theorem parseMembers_skipping {shapes : List (String × Shape)}
    {members : List (String × MemberInfo)}
    (known : ∀ item ∈ members, Defined shapes item.2.shape)
    (typed : ∀ item ∈ members, ¬UnknownScalar shapes item.2.shape)
    (shapeName : String) (required : List String) :
    ∃ parsed, parseMembers shapes true shapeName required members = .ok parsed ∧
      parsed.map Prod.fst =
        (members.filter (memberSupported shapes)).map Prod.fst := by
  induction members with
  | nil => exact ⟨[], rfl, rfl⟩
  | cons item rest ih =>
      obtain ⟨parsed, ran, names⟩ := ih
        (fun other inside => known other (List.mem_cons_of_mem item inside))
        (fun other inside => typed other (List.mem_cons_of_mem item inside))
      obtain ⟨fieldName, info⟩ := item
      rcases resolvePieType_cases (known _ List.mem_cons_self) with
        ⟨isSupported, -, pieType, resolved⟩ | ⟨unsupported, -, message, failed⟩ |
        ⟨-, unknown, -⟩
      · have kept : memberSupported shapes (fieldName, info) = true := isSupported
        refine ⟨_, by simp only [parseMembers, resolved, ran]; rfl, ?_⟩
        rw [List.filter_cons_of_pos kept, List.map_cons, List.map_cons, names]
      · have dropped : ¬memberSupported shapes (fieldName, info) = true :=
          unsupported
        refine ⟨parsed, by simp only [parseMembers, failed, ran, if_true], ?_⟩
        rw [List.filter_cons_of_neg dropped, names]
      · exact absurd unknown (typed _ List.mem_cons_self)

private theorem parseMembers_unknown {shapes : List (String × Shape)}
    {members : List (String × MemberInfo)}
    (known : ∀ item ∈ members, Defined shapes item.2.shape)
    (untyped : ∃ item ∈ members, UnknownScalar shapes item.2.shape)
    (shapeName : String) (required : List String) :
    ∃ error, parseMembers shapes true shapeName required members =
      .error error := by
  induction members with
  | nil =>
      obtain ⟨item, impossible, -⟩ := untyped
      exact absurd impossible List.not_mem_nil
  | cons item rest ih =>
      have later (notHere : ¬UnknownScalar shapes item.2.shape) :
          ∃ error, parseMembers shapes true shapeName required rest =
            .error error := by
        apply ih (fun other inside => known other (List.mem_cons_of_mem item inside))
        obtain ⟨other, inside, unknown⟩ := untyped
        rcases List.mem_cons.mp inside with rfl | inRest
        · exact absurd unknown notHere
        · exact ⟨other, inRest, unknown⟩
      obtain ⟨fieldName, info⟩ := item
      rcases resolvePieType_cases (known _ List.mem_cons_self) with
        ⟨-, typed, pieType, resolved⟩ | ⟨-, typed, message, failed⟩ |
        ⟨-, -, message, failed⟩
      · obtain ⟨error, failed⟩ := later typed
        exact ⟨error, by simp only [parseMembers, resolved, failed]; rfl⟩
      · obtain ⟨error, laterFailed⟩ := later typed
        exact ⟨error, by simp only [parseMembers, failed, laterFailed, if_true]⟩
      · exact ⟨_, by simp only [parseMembers, failed]; rfl⟩

/-- The members that a structure keeps are those of a supported type. -/
def KeepsSupported (shapes : List (String × Shape)) (name : String)
    (definition : StructureDef) : Prop :=
  ∃ shape, shapes.lookup name = some shape ∧ shape.type = "structure" ∧
    definition.members.map Prod.fst =
      (shape.members.filter (memberSupported shapes)).map Prod.fst

/-- What is parsed of a list of names: the supported ones, in order, each
structure with its supported members. -/
structure ParsedSupported (shapes : List (String × Shape)) (names : List String)
    (parsed : List (String × ShapeDef)) : Prop where
  names : parsed.map Prod.fst = names.filter (supported shapes)
  members : ∀ name definition, (name, .structure definition) ∈ parsed →
    KeepsSupported shapes name definition

theorem ParsedSupported.skip {shapes : List (String × Shape)} {name : String}
    {names : List String} {parsed : List (String × ShapeDef)}
    (rest : ParsedSupported shapes names parsed)
    (unsupported : ¬supported shapes name) :
    ParsedSupported shapes (name :: names) parsed where
  names := by rw [List.filter_cons_of_neg unsupported, rest.names]
  members := rest.members

theorem ParsedSupported.cons {shapes : List (String × Shape)} {name : String}
    {shapeDef : ShapeDef} {names : List String}
    {parsed : List (String × ShapeDef)}
    (rest : ParsedSupported shapes names parsed)
    (isSupported : supported shapes name)
    (here : ∀ definition, shapeDef = .structure definition →
      KeepsSupported shapes name definition) :
    ParsedSupported shapes (name :: names) ((name, shapeDef) :: parsed) where
  names := by
    rw [List.filter_cons_of_pos isSupported, List.map_cons, rest.names]
  members := by
    intro other definition inside
    rcases List.mem_cons.mp inside with same | later
    · cases same
      exact here definition rfl
    · exact rest.members other definition later

theorem supported_eq {shapes : List (String × Shape)} {name : String}
    {shape : Shape} (found : shapes.lookup name = some shape) :
    supported shapes name =
      (shape.type = "structure" ||
        (shape.type ∉ compoundTypes &&
          (scalarTypeMap.lookup shape.type).isSome)) := by
  unfold supported
  rw [found]

theorem unsupported_of_compound {shapes : List (String × Shape)} {name : String}
    {shape : Shape} (found : shapes.lookup name = some shape)
    (isCompound : shape.type = "list" ∨ shape.type = "map") : ¬supported shapes name := by
  rw [supported_eq found]
  rcases isCompound with isList | isMap
  · rw [isList]
    decide
  · rw [isMap]
    decide

/-- What every shape among the names refers to is defined. -/
def MembersDefined (shapes : List (String × Shape)) (name : String) : Prop :=
  ∃ shape, shapes.lookup name = some shape ∧
    (shape.type = "structure" →
      ∀ item ∈ shape.members, Defined shapes item.2.shape)

private theorem parseShapes_skipping {shapes : List (String × Shape)}
    {names : List String} (known : ∀ name ∈ names, MembersDefined shapes name)
    (typed : ∀ name ∈ names, MembersKnown shapes name) :
    ∃ parsed, parseShapes shapes true names = .ok parsed ∧
      ParsedSupported shapes names parsed := by
  induction names with
  | nil =>
      exact ⟨[], rfl, { names := rfl, members := fun _ _ inside => by cases inside }⟩
  | cons name rest ih =>
      obtain ⟨parsed, ran, parsedRest⟩ := ih
        (fun other inside => known other (List.mem_cons_of_mem name inside))
        (fun other inside => typed other (List.mem_cons_of_mem name inside))
      obtain ⟨shape, found, membersDefined⟩ := known name List.mem_cons_self
      have isSupported := supported_eq found
      by_cases isStructure : shape.type = "structure"
      · have membersTyped :=
          typed name List.mem_cons_self shape found isStructure
        obtain ⟨members, membersRan, kept⟩ := parseMembers_skipping
          (membersDefined isStructure) membersTyped name shape.required
        refine ⟨_, by
          simp only [parseShapes, found, isStructure, if_true,
            parseStructureShape, membersRan, ran]
          rfl, parsedRest.cons (by rw [isSupported]; simp [isStructure]) ?_⟩
        intro definition same
        cases same
        exact ⟨shape, found, isStructure, kept⟩
      · by_cases isCompound : shape.type = "list" ∨ shape.type = "map"
        · refine ⟨parsed, ?_, parsedRest.skip (unsupported_of_compound found isCompound)⟩
          simp only [parseShapes, found, isStructure, if_false, isCompound,
            if_true, ran]
        · have scalar := scalar_not_compound isStructure
            (fun isList => isCompound (Or.inl isList))
            (fun isMap => isCompound (Or.inr isMap))
          cases typeOf : scalarTypeMap.lookup shape.type with
          | none =>
              refine ⟨parsed, ?_, parsedRest.skip (by
                rw [isSupported, typeOf]
                simp [isStructure])⟩
              simp only [parseShapes, found, isStructure, if_false, isCompound,
                botocoreScalarToPie, scalar, typeOf, if_true, ran]
          | some pieType =>
              refine ⟨_, by
                simp only [parseShapes, found, isStructure, if_false, isCompound,
                  botocoreScalarToPie, scalar, typeOf, ran]
                rfl, parsedRest.cons (by
                  rw [isSupported, typeOf]
                  simp [scalar]) ?_⟩
              intro definition impossible
              cases impossible

private theorem parseShapes_unknown {shapes : List (String × Shape)}
    {names : List String} (known : ∀ name ∈ names, MembersDefined shapes name)
    (untyped : ∃ name ∈ names, ¬MembersKnown shapes name) :
    ∃ error, parseShapes shapes true names = .error error := by
  induction names with
  | nil =>
      obtain ⟨name, impossible, -⟩ := untyped
      exact absurd impossible List.not_mem_nil
  | cons name rest ih =>
      have later (notHere : MembersKnown shapes name) :
          ∃ error, parseShapes shapes true rest = .error error := by
        apply ih (fun other inside => known other (List.mem_cons_of_mem name inside))
        obtain ⟨other, inside, unknown⟩ := untyped
        rcases List.mem_cons.mp inside with rfl | inRest
        · exact absurd notHere unknown
        · exact ⟨other, inRest, unknown⟩
      obtain ⟨shape, found, membersDefined⟩ := known name List.mem_cons_self
      by_cases isStructure : shape.type = "structure"
      · by_cases typed : ∀ item ∈ shape.members,
            ¬UnknownScalar shapes item.2.shape
        · obtain ⟨members, membersRan, -⟩ := parseMembers_skipping
            (membersDefined isStructure) typed name shape.required
          obtain ⟨error, failed⟩ := later (by
            intro other otherFound _isStructure
            rw [found] at otherFound
            cases otherFound
            exact typed)
          exact ⟨error, by
            simp only [parseShapes, found, isStructure, if_true,
              parseStructureShape, membersRan, failed]
            rfl⟩
        · have bad : ∃ item ∈ shape.members, UnknownScalar shapes item.2.shape := by
            simpa using typed
          obtain ⟨error, failed⟩ := parseMembers_unknown
            (membersDefined isStructure) bad name shape.required
          exact ⟨error, by
            simp only [parseShapes, found, isStructure, if_true,
              parseStructureShape, failed]
            rfl⟩
      · obtain ⟨error, failed⟩ := later (by
          intro other otherFound otherStructure
          rw [found] at otherFound
          cases otherFound
          exact absurd otherStructure isStructure)
        by_cases isCompound : shape.type = "list" ∨ shape.type = "map"
        · exact ⟨error, by
            simp only [parseShapes, found, isStructure, if_false, isCompound,
              if_true, failed]⟩
        · cases resolved : botocoreScalarToPie shape.type name with
          | error scalarError =>
              exact ⟨error, by
                simp only [parseShapes, found, isStructure, if_false, isCompound,
                  resolved, if_true, failed]⟩
          | ok pieType =>
              exact ⟨error, by
                simp only [parseShapes, found, isStructure, if_false, isCompound,
                  resolved, failed]
                rfl⟩

/-- The metadata names a protocol, or does not have an empty list of them. -/
def ProtocolReadable (metadata : Metadata) : Prop :=
  (∃ protocol, metadata.protocol = some protocol ∧ protocol ≠ "") ∨
    metadata.protocols ≠ some []

private theorem serviceProtocol_readable {metadata : Metadata} :
    (∃ protocol, serviceProtocol metadata = .ok protocol) ↔
      ProtocolReadable metadata := by
  have fromList : (∃ protocol, serviceProtocol.fromList metadata = .ok protocol) ↔
      metadata.protocols ≠ some [] := by
    unfold serviceProtocol.fromList
    cases metadata.protocols with
    | none => simp
    | some protocols => cases protocols <;> simp
  unfold serviceProtocol ProtocolReadable
  cases metadata.protocol with
  | none => simpa using fromList
  | some protocol =>
      by_cases named : protocol = ""
      · simpa [named] using fromList
      · simp [named]

/-- The parser returns; the shapes are the supported ones among those needed,
and every structure has exactly its supported members. -/
def SkipsUnsupported (model : ServiceModel) (operationNames : Option (List String)) :
    Prop :=
  ∃ parsed, parseModel model operationNames true = .ok parsed ∧
    (∀ name, name ∈ parsed.shapes.map Prod.fst ↔
      Needed model.shapes (selectedOperations model operationNames) name ∧
        supported model.shapes name) ∧
    ∀ name definition, (name, .structure definition) ∈ parsed.shapes →
      KeepsSupported model.shapes name definition

/-- For every model whose references are defined and every selection of its
operations, parsing with `skip_unsupported` succeeds if and only if no needed
structure has a member of an unknown scalar type and a protocol can be read
from the metadata. -/
theorem skip_unsupported_iff (model : ServiceModel)
    (operationNames : Option (List String))
    (existing : SelectsExisting model operationNames)
    (references : ReferencesDefined model) :
    SkipsUnsupported model operationNames ↔
      ProtocolReadable model.metadata ∧
        ∀ name, Needed model.shapes
            (selectedOperations model operationNames) name →
          MembersKnown model.shapes name := by
  obtain ⟨reachable, collected, -, exact⟩ :=
    collectReachable_returns existing
      fun name needed => references.needed needed
  have known : ∀ name ∈ reachable.insertionSort (· ≤ ·),
      MembersDefined model.shapes name := by
    intro name inside
    have needed := (exact name).mp ((List.mem_insertionSort _).mp inside)
    obtain ⟨shape, found, -⟩ := references.needed needed
    refine ⟨shape, found, ?_⟩
    intro isStructure item member
    apply references.shapes _ (mem_of_lookup found)
    unfold Shape.references
    rw [if_pos isStructure]
    exact List.mem_map_of_mem member
  have needed_iff (name : String) : name ∈ reachable.insertionSort (· ≤ ·) ↔
      Needed model.shapes (selectedOperations model operationNames) name := by
    rw [List.mem_insertionSort, exact]
  constructor
  · intro skips
    obtain ⟨parsed, ran, -⟩ := skips
    obtain ⟨reachable', collected', ran⟩ := except_bind_ok ran
    rw [collected, Except.ok.injEq] at collected'
    subst collected'
    obtain ⟨service, serviceRan, ran⟩ := except_bind_ok ran
    obtain ⟨shapes, shapesRan, -⟩ := except_bind_ok ran
    obtain ⟨protocol, protocolRan, -⟩ := except_bind_ok serviceRan
    refine ⟨serviceProtocol_readable.mp ⟨protocol, protocolRan⟩, ?_⟩
    intro name needed
    by_contra unknown
    obtain ⟨error, failed⟩ := parseShapes_unknown known
      ⟨name, (needed_iff name).mpr needed, unknown⟩
    rw [failed] at shapesRan
    cases shapesRan
  · intro condition
    obtain ⟨readable, typed⟩ := condition
    obtain ⟨protocol, protocolRan⟩ := serviceProtocol_readable.mpr readable
    obtain ⟨shapes, shapesRan, parsed⟩ := parseShapes_skipping known
      fun name inside => typed name ((needed_iff name).mp inside)
    refine ⟨_, by
      unfold parseModel parseServiceMetadata
      rw [collected, protocolRan]
      simp only [bind, Except.bind, shapesRan]
      rfl, ?_, parsed.members⟩
    intro name
    change name ∈ shapes.map Prod.fst ↔ _
    rw [parsed.names, List.mem_filter, needed_iff]

theorem skip_unsupported_cyclic :
    SkipsUnsupported cyclicModel (some ["Walk"]) := by
  have existing : SelectsExisting cyclicModel (some ["Walk"]) := by
    intro names same
    cases same
    decide
  refine (skip_unsupported_iff cyclicModel (some ["Walk"]) existing
    { operations := by decide, shapes := by decide }).mpr ?_
  refine ⟨Or.inr (by decide), ?_⟩
  intro name _needed
  exact membersKnown_of_listed (by decide) name

/-- A structure with one member whose shape is a `float`. -/
def floatModel : ServiceModel where
  operations := [("GetRate",
    { input := some "GetRateRequest", output := none, errors := [] })]
  shapes := [
    ("GetRateRequest", { plainShape "structure" with
      members := [("Rate", memberOf "Rate")] }),
    ("Rate", plainShape "float")]

/-- The unknown scalar is skipped as a shape and raises as a member. -/
theorem skip_unsupported_float :
    (SelectsExisting floatModel none ∧ ReferencesDefined floatModel) ∧
      ¬SkipsUnsupported floatModel none := by
  refine ⟨⟨?_, { operations := by decide, shapes := by decide }⟩, ?_⟩
  · intro names same
    cases same
  · intro skips
    obtain ⟨parsed, ran, -⟩ := skips
    have raised : parseModel floatModel none true =
        .error (.typeError
          "Unknown botocore type 'float' on shape 'Rate'. Add it to _SCALAR_TYPE_MAP or handle it explicitly.") := by
      rfl
    rw [raised] at ran
    cases ran

end Lambpie.Scripts
