/-
The text that `generate_pie` writes for a parsed model.

The text is a list of pieces with line breaks between them.  Each class and
each stub has its own pieces, so that what is written for it can be told apart
from the rest.
-/
import Mathlib.Data.List.DropRight
import Lambpie.Scripts.ParseModels

namespace Lambpie.Scripts

/-- The characters of `str.isspace`. -/
def isspace (c : Char) : Bool :=
  let code := c.toNat
  (0x09 ≤ code && code ≤ 0x0D) || (0x1C ≤ code && code ≤ 0x20) ||
    code = 0x85 || code = 0xA0 || code = 0x1680 ||
    (0x2000 ≤ code && code ≤ 0x200A) || code = 0x2028 || code = 0x2029 ||
    code = 0x202F || code = 0x205F || code = 0x3000

def rstrip (text : String) : String := String.ofList (text.toList.rdropWhile isspace)

/-- `_PIE_HEADER.format(...)`. -/
def pieHeader (serviceId protocol apiVersion serviceName outputPath : String) :
    String :=
  "# Auto-generated by scripts/parse_models.py from botocore model.\n" ++
    s!"# Service: {serviceId}  Protocol: {protocol}  API version: {apiVersion}\n" ++
    "# DO NOT EDIT BY HAND — regenerate with:\n" ++
    s!"#   python scripts/parse_models.py {serviceName} --output {outputPath}\n"

def pieStubComment : String :=
  "# --- Operation stubs ---\n" ++
    "# These are placeholder function signatures.\n" ++
    "# Actual HTTP dispatch will be implemented in .pie once SigV4 is ready.\n"

def fieldLine (item : String × ParsedMember) : String :=
  s!"    {item.1}: {item.2.pieType}"

def classLines (className : String) (definition : StructureDef) : List String :=
  s!"class {className}:" ::
    (if definition.members = [] then ["    pass"]
      else (orderedFields definition).map fieldLine) ++ [""]

def emittedClasses (shapes : List (String × ShapeDef)) :
    List (String × List String) :=
  (generatePieClasses shapes).map fun item => (item.1, classLines item.1 item.2)

/-- `shapes.get(name, {}).get("pie_type", "str")`. -/
def shapePieType (shapes : List (String × ShapeDef)) (name : String) : String :=
  match shapes.lookup name with
  | none => "str"
  | some (.scalar pieType) => pieType
  | some (.structure _) => "class"

/-- The parameters that the input shape gives; an empty name is no shape. -/
def inputParams (shapes : List (String × ShapeDef)) :
    Option String → List (String × String)
  | none => []
  | some inputShape =>
      if inputShape = "" then []
      else
        match (generatePieClasses shapes).lookup inputShape with
        | some definition =>
            (orderedFields definition).map fun item => (item.1, item.2.pieType)
        | none =>
            let pieType := shapePieType shapes inputShape
            if pieType ≠ "class" then [("request", pieType)] else []

def stubParams (shapes : List (String × ShapeDef)) (operation : ParsedOperation) :
    List (String × String) :=
  ("endpoint", "str") :: inputParams shapes operation.inputShape

/-- The status code, unless the output shape says otherwise. -/
def returnType (shapes : List (String × ShapeDef)) : Option String → String
  | none => "int"
  | some outputShape =>
      if outputShape = "" then "int"
      else
        match (generatePieClasses shapes).lookup outputShape with
        | some _ => outputShape
        | none =>
            match shapes.lookup outputShape with
            | none => "int"
            | some (.scalar pieType) => pieType
            | some (.structure _) => "class"

def paramText (param : String × String) : String := s!"{param.1}: {param.2}"

def stubLines (shapes : List (String × ShapeDef)) (operation : ParsedOperation) :
    List String :=
  let paramStr := ", ".intercalate ((stubParams shapes operation).map paramText)
  let returns := returnType shapes operation.outputShape
  [s!"# HTTP {operation.httpMethod} {operation.httpUri}",
    s!"def {operation.name}({paramStr}) -> {returns}:",
    "    pass  # TODO: implement SigV4 + HTTP dispatch",
    ""]

def pieLines (parsed : ParsedModel) (serviceName outputPath : String) :
    List String :=
  let service := parsed.service
  let classes := emittedClasses parsed.shapes
  [rstrip (pieHeader (service.serviceId.getD serviceName) service.protocol
      service.apiVersion serviceName outputPath), ""] ++
    (if classes = [] then [] else ["# --- Type definitions ---", ""]) ++
    classes.flatMap (·.2) ++
    (if parsed.operations = [] then [] else [rstrip pieStubComment, ""]) ++
    parsed.operations.flatMap (stubLines parsed.shapes)

def generatePie (parsed : ParsedModel) (serviceName outputPath : String) : String :=
  "\n".intercalate (pieLines parsed serviceName outputPath)

end Lambpie.Scripts
