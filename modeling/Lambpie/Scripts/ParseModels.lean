/-
The generator of class definitions from botocore service models.

A model is the part of a `service-2.json` that the parser reads; a dictionary
is the list of its items in insertion order, and a key that may be absent is
an option.
-/
import Mathlib.Data.List.Sort
import Mathlib.Data.String.Basic
import Lambpie.Compiler.Syntax
import Lambpie.Foundations.GraphWalk

namespace Lambpie.Scripts

open Foundations
open Lambpie.Compiler (Node)

structure MemberInfo where
  shape : String
  location : Option String
  locationName : Option String

/-- `member` is the element of a list, `key` and `value` those of a map. -/
structure Shape where
  type : String
  members : List (String × MemberInfo)
  required : List String
  member : Option String
  key : Option String
  value : Option String

structure Operation where
  input : Option String
  output : Option String
  errors : List String
  httpMethod : Option String := none
  httpRequestUri : Option String := none

structure Metadata where
  endpointPrefix : Option String := none
  protocol : Option String := none
  protocols : Option (List String) := none
  apiVersion : Option String := none
  signatureVersion : Option String := none
  serviceId : Option String := none
  globalEndpoint : Option String := none
  signingName : Option String := none

structure ServiceModel where
  operations : List (String × Operation)
  shapes : List (String × Shape)
  metadata : Metadata := {}

inductive ParseError where
  | exit (message : String)
  | runtimeError (message : String)
  | notImplementedError (message : String)
  | typeError (message : String)
  | keyError (key : String)
  | indexError (message : String)
  | recursionError
deriving DecidableEq, Repr

def scalarTypeMap : List (String × String) :=
  [("string", "str"), ("integer", "int"), ("long", "int"), ("boolean", "int"),
    ("blob", "str"), ("timestamp", "int")]

def compoundTypes : List String := ["structure", "list", "map"]

def botocoreScalarToPie (botocoreType shapeName : String) :
    Except ParseError String :=
  if botocoreType ∈ compoundTypes then
    .error (.typeError
      s!"Shape '{shapeName}' has compound type '{botocoreType}': resolve to a scalar before calling _botocore_scalar_to_pie.")
  else
    match scalarTypeMap.lookup botocoreType with
    | some pie => .ok pie
    | none =>
        .error (.typeError
          s!"Unknown botocore type '{botocoreType}' on shape '{shapeName}'. Add it to _SCALAR_TYPE_MAP or handle it explicitly.")

/-- `shape[field]["shape"]` for one field after the other; a missing one raises
when it is its turn. -/
def shapeFields : List (String × Option String) → List String × Option ParseError
  | [] => ([], none)
  | (field, none) :: _ => ([], some (.keyError field))
  | (_, some name) :: rest => (name :: (shapeFields rest).1, (shapeFields rest).2)

/-- The shapes that `_walk` goes on to, and what it raises behind them. -/
def walkChildren (shapes : List (String × Shape)) (shapeName : String) :
    List String × Option ParseError :=
  match shapes.lookup shapeName with
  | none =>
      ([], some (.runtimeError
        s!"Shape '{shapeName}' referenced but not defined in the model."))
  | some shape =>
      if shape.type = "structure" then
        (shape.members.map fun item => item.2.shape, none)
      else if shape.type = "list" then shapeFields [("member", shape.member)]
      else if shape.type = "map" then
        shapeFields [("key", shape.key), ("value", shape.value)]
      else ([], none)

def operationRoots (operation : Operation) : List String :=
  operation.input.toList ++ operation.output.toList ++ operation.errors

def selectOperations (model : ServiceModel) (operationNames : Option (List String)) :
    Except ParseError (List (String × Operation)) :=
  match operationNames with
  | none => .ok model.operations
  | some names =>
      let unknown := names.filter fun name => name ∉ model.operations.map Prod.fst
      if unknown ≠ [] then
        let listed := ", ".intercalate (unknown.dedup.insertionSort (· ≤ ·))
        let available :=
          ", ".intercalate ((model.operations.map Prod.fst).insertionSort (· ≤ ·))
        .error (.exit
          s!"Error: unknown operation(s): {listed}.\nAvailable: {available}")
      else .ok (model.operations.filter fun item => item.1 ∈ names)

/-- `_collect_reachable_shapes`; a shape is entered once, so the depth is at
most the number of shapes. -/
def collectReachableShapes (model : ServiceModel)
    (operationNames : Option (List String)) : Except ParseError (List String) := do
  let selected ← selectOperations model operationNames
  GraphWalk.walkAll (walkChildren model.shapes) .recursionError
    (model.shapes.length + 1)
    (selected.flatMap fun item => operationRoots item.2) []

def resolvePieType (shapeName : String) (shapes : List (String × Shape)) :
    Except ParseError String :=
  match shapes.lookup shapeName with
  | none =>
      .error (.runtimeError s!"Shape '{shapeName}' not found in model shapes dict.")
  | some shape =>
      if shape.type = "structure" then .ok shapeName
      else if shape.type = "list" then
        .error (.notImplementedError
          s!"Shape '{shapeName}' is a list — .pie does not support list types yet. Skip or filter this shape.")
      else if shape.type = "map" then
        .error (.notImplementedError
          s!"Shape '{shapeName}' is a map — .pie does not support map types yet. Skip or filter this shape.")
      else botocoreScalarToPie shape.type shapeName

structure ParsedMember where
  pieType : String
  required : Bool
  location : String
  locationName : String

structure StructureDef where
  members : List (String × ParsedMember)
  requiredMembers : List String

inductive ShapeDef where
  | structure (definition : StructureDef)
  | scalar (pieType : String)

/-- The members whose type resolves; with `skip_unsupported` the list and map
members are left out. -/
def parseMembers (shapes : List (String × Shape)) (skipUnsupported : Bool)
    (shapeName : String) (required : List String) :
    List (String × MemberInfo) → Except ParseError (List (String × ParsedMember))
  | [] => .ok []
  | (fieldName, info) :: rest =>
      match resolvePieType info.shape shapes with
      | .ok pieType => do
          let others ← parseMembers shapes skipUnsupported shapeName required rest
          let parsed : ParsedMember :=
            { pieType
              required := fieldName ∈ required
              location := info.location.getD "body"
              locationName := info.locationName.getD fieldName }
          pure ((fieldName, parsed) :: others)
      | .error (.notImplementedError _) =>
          if skipUnsupported then
            parseMembers shapes skipUnsupported shapeName required rest
          else
            let shape := info.shape
            .error (.notImplementedError
              s!"Member '{shapeName}.{fieldName}' references unsupported shape '{shape}'. Re-run with --skip-unsupported to skip.")
      | .error error => .error error

def parseStructureShape (shapes : List (String × Shape)) (skipUnsupported : Bool)
    (shapeName : String) (shape : Shape) : Except ParseError StructureDef := do
  let members ←
    parseMembers shapes skipUnsupported shapeName shape.required shape.members
  let present := shape.required.dedup.filter fun name => name ∈ members.map Prod.fst
  pure { members, requiredMembers := present.insertionSort (· ≤ ·) }

/-- The definitions of the shapes named, in the order given. -/
def parseShapes (shapes : List (String × Shape)) (skipUnsupported : Bool) :
    List String → Except ParseError (List (String × ShapeDef))
  | [] => .ok []
  | shapeName :: rest =>
      match shapes.lookup shapeName with
      | none => .error (.keyError shapeName)
      | some shape =>
          if shape.type = "structure" then do
            let definition ←
              parseStructureShape shapes skipUnsupported shapeName shape
            let others ← parseShapes shapes skipUnsupported rest
            pure ((shapeName, .structure definition) :: others)
          else if shape.type = "list" ∨ shape.type = "map" then
            if skipUnsupported then parseShapes shapes skipUnsupported rest
            else
              let type := shape.type
              .error (.notImplementedError
                s!"Shape '{shapeName}' has type '{type}' — not supported in .pie yet. Re-run with --skip-unsupported to ignore these.")
          else
            match botocoreScalarToPie shape.type shapeName with
            | .ok pieType => do
                let others ← parseShapes shapes skipUnsupported rest
                pure ((shapeName, .scalar pieType) :: others)
            | .error error =>
                if skipUnsupported then parseShapes shapes skipUnsupported rest
                else .error error

/-- The `shapes` of `BotocoreModelParser.parse()`. -/
def parse (model : ServiceModel) (operationNames : Option (List String))
    (skipUnsupported : Bool) : Except ParseError (List (String × ShapeDef)) := do
  let reachable ← collectReachableShapes model operationNames
  parseShapes model.shapes skipUnsupported (reachable.insertionSort (· ≤ ·))

structure ServiceInfo where
  endpointPrefix : String
  protocol : String
  apiVersion : String
  signatureVersion : String
  serviceId : Option String
  globalEndpoint : Option String
  signingName : Option String

/-- `meta.get("protocol") or (meta.get("protocols", [None])[0] or "")`: the
empty string is no protocol. -/
def serviceProtocol (metadata : Metadata) : Except ParseError String :=
  match metadata.protocol with
  | some protocol => if protocol ≠ "" then .ok protocol else fromList
  | none => fromList
where
  fromList : Except ParseError String :=
    match metadata.protocols with
    | none => .ok ""
    | some [] => .error (.indexError "list index out of range")
    | some (protocol :: _) => .ok protocol

def parseServiceMetadata (metadata : Metadata) : Except ParseError ServiceInfo := do
  let protocol ← serviceProtocol metadata
  pure
    { endpointPrefix := metadata.endpointPrefix.getD ""
      protocol
      apiVersion := metadata.apiVersion.getD ""
      signatureVersion := metadata.signatureVersion.getD "v4"
      serviceId := metadata.serviceId
      globalEndpoint := metadata.globalEndpoint
      signingName := metadata.signingName }

structure ParsedOperation where
  name : String
  httpMethod : String
  httpUri : String
  inputShape : Option String
  outputShape : Option String
  errorShapes : List String

def parseOperation (item : String × Operation) : ParsedOperation where
  name := item.1
  httpMethod := item.2.httpMethod.getD "POST"
  httpUri := item.2.httpRequestUri.getD "/"
  inputShape := item.2.input
  outputShape := item.2.output
  errorShapes := item.2.errors

/-- `_parse_operations`: `k in (self._operation_names or ops)`, where an empty
list of names is no list. -/
def parseOperations (model : ServiceModel) (operationNames : Option (List String)) :
    List ParsedOperation :=
  let selected : List (String × Operation) :=
    match operationNames with
    | some (name :: names) =>
        model.operations.filter fun item => item.1 ∈ name :: names
    | some [] => model.operations
    | none => model.operations
  (selected.insertionSort (·.1 ≤ ·.1)).map parseOperation

structure ParsedModel where
  service : ServiceInfo
  operations : List ParsedOperation
  shapes : List (String × ShapeDef)

/-- `BotocoreModelParser.parse()`. -/
def parseModel (model : ServiceModel) (operationNames : Option (List String))
    (skipUnsupported : Bool) : Except ParseError ParsedModel := do
  let reachable ← collectReachableShapes model operationNames
  let service ← parseServiceMetadata model.metadata
  let operations := parseOperations model operationNames
  let shapes ←
    parseShapes model.shapes skipUnsupported (reachable.insertionSort (· ≤ ·))
  pure { service, operations, shapes }

/-- Required members first, each group sorted by name. -/
def orderedFields (definition : StructureDef) : List (String × ParsedMember) :=
  let isRequired (item : String × ParsedMember) : Bool :=
    item.1 ∈ definition.requiredMembers
  (definition.members.filter isRequired).insertionSort (·.1 ≤ ·.1) ++
    (definition.members.filter (! isRequired ·)).insertionSort (·.1 ≤ ·.1)

/-- The lines `field: type` of a class, as the trees they are read as. -/
def classBody (definition : StructureDef) : List Node :=
  if definition.members = [] then [.pass]
  else
    (orderedFields definition).map fun item =>
      .annAssign (.name item.1) (.name item.2.pieType) none

/-- The class definitions of `generate_pie`, in the order they are written. -/
def generatePieClasses (parsed : List (String × ShapeDef)) :
    List (String × StructureDef) :=
  (parsed.insertionSort (·.1 ≤ ·.1)).filterMap fun item =>
    match item.2 with
    | .structure definition => some (item.1, definition)
    | .scalar _ => none

end Lambpie.Scripts
