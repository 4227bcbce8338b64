/-
The visitor methods of the compiler.

A method takes the computations that visiting its children gives, so that each
is a definition of its own and only `visit` recurses over the tree.
-/
import Mathlib.Data.List.Sort
import Lambpie.Compiler.Builder

namespace Lambpie.Compiler

open Foundations
open Lambpie.Runtime (Bytes)

/-! ### Annotations -/

/-- `self.types` and then the registered classes. -/
def namedType (typeName : String) : Visit LType := do
  let types ← Comp.reads (·.types)
  if typeName = "bytes" then lookup (·.types) "__ptr__"
  else
    match types typeName with
    | some type => pure type
    | none => do
        match ← Comp.reads fun state => state.classLayouts typeName with
        | some _ => do
            let type := LType.ptr (.struct typeName)
            setType typeName type
            pure type
        | none => Comp.fail (.typeError s!"Unknown type: {typeName}")

/-- An integer literal of an annotation; a `bool` is one. -/
def countLiteral : Node → Option Nat
  | .constant (.int value) => some value.toNat
  | .constant (.bool value) => some value.toNat
  | _ => none

def getType : Node → Visit LType
  | .name typeName => namedType typeName
  | .constant .none => lookup (·.types) "None"
  | .subscript (.name "ptr") slice => do
      let inner ← getType slice
      asPointer inner
  | .subscript (.name "array") (.other .tuple [elem, count]) => do
      let elemType ← getType elem
      match countLiteral count with
      | some count => pure (.array elemType count)
      | none => Comp.fail (.typeError "array[T, N]: N must be an integer literal")
  | .subscript (.name "array") _ =>
      Comp.fail (.typeError
        "array[T, N]: expected two-element subscript, e.g. array[int, 64]")
  | .subscript (.name head) _ =>
      Comp.fail (.typeError
        s!"Unknown subscript type annotation head '{head}': expected 'ptr' or 'array'")
  | .sliced (.name head) bounds =>
      if head = "ptr" then
        Comp.fail (.typeErrorDumping "Unsupported type annotation: " bounds)
      else if head = "array" then
        Comp.fail (.typeError
          "array[T, N]: expected two-element subscript, e.g. array[int, 64]")
      else
        Comp.fail (.typeError
          s!"Unknown subscript type annotation head '{head}': expected 'ptr' or 'array'")
  | .subscript value slice =>
      Comp.fail (.typeErrorDumping "Unsupported subscript type annotation: "
        [.subscript value slice])
  | .sliced value bounds =>
      Comp.fail (.typeErrorDumping "Unsupported subscript type annotation: "
        [.sliced value bounds])
  | annotation =>
      Comp.fail (.typeErrorDumping "Unsupported type annotation: " [ annotation])

/-- An annotation that may be missing, of which there is no `ast.dump`. -/
def getType? : Option Node → Visit LType
  | some annotation => getType annotation
  | none => Comp.fail (.typeError "expected AST, got 'NoneType'")

/-! ### Expressions -/

def visitConstant : Literal → Visit PyVal
  | .int value => do
      let type ← lookup (·.types) "int"
      let const ← constant type (.int value)
      pure (.value const)
  | .bool value => do
      let type ← lookup (·.types) "int"
      let const ← constant type (.bool value)
      pure (.value const)
  | .str text => do
      let counter ← nextName
      let ptr ← addGlobal s!".str.{counter}" (text.length + 1)
        (utf8 text ++ [0]) false
      pure (.value ptr)
  | .bytes data => do
      let counter ← nextName
      let ptr ← addGlobal s!".bytes.{counter}" data.length data true
      pure (.value ptr)
  | _ => pure .none

def visitName (id : String) : Visit PyVal := do
  match ← Comp.reads fun state => state.localScope id with
  | some alloc =>
      match alloc.type with
      | .ptr (.array _ _) => pure (.value alloc)
      | _ => do
          let loaded ← load (.value alloc)
          pure (.value loaded)
  | none => do
      match ← Comp.reads fun state => state.globalScope id with
      | some value => pure value
      | none => do
          match ← Comp.reads fun state => state.types id with
          | some type => pure (.type type)
          | none => Comp.fail (.nameError s!"Name not found in any scope: {id}")

def binOpcode : BinaryOp → Option BinOpcode
  | .add => some .add
  | .sub => some .sub
  | .mult => some .mul
  | .bitAnd => some .and
  | .bitOr => some .or
  | .bitXor => some .xor
  | .lShift => some .shl
  | .rShift => some .lshr
  | .mod => some .srem
  | _ => none

def visitBinOp (left : Visit PyVal) (op : BinaryOp) (right : Visit PyVal) :
    Visit PyVal := do
  let lhs ← left
  let rhs ← right
  match binOpcode op with
  | some opcode => do
      let value ← binop opcode lhs rhs
      pure (.value value)
  | none =>
      Comp.fail (.notImplementedError s!"Unsupported binary operator: {op.className}")

def visitUnaryOp (op : UnaryOp) (operand : Visit PyVal) : Visit PyVal := do
  let operand ← operand
  match op with
  | .invert => do
      let value ← asValue operand
      let allOnes ← constant value.type (.int (-1))
      let result ← binop .xor operand (.value allOnes)
      pure (.value result)
  | .uSub => do
      let value ← asValue operand
      let zero ← constant value.type (.int 0)
      let result ← binop .sub (.value zero) operand
      pure (.value result)
  | .uAdd => pure operand
  | .not => Comp.fail (.notImplementedError "Unsupported unary operator: Not")

def comparePredicate : CompareOp → Option Predicate
  | .eq => some .eq
  | .notEq => some .ne
  | .lt => some .slt
  | .ltE => some .sle
  | .gt => some .sgt
  | .gtE => some .sge
  | _ => none

/-- `comparator` is the only comparison; a chain has none. -/
def visitCompare (left : Visit PyVal)
    (comparator : Option (CompareOp × Visit PyVal)) : Visit PyVal := do
  let lhs ← left
  match comparator with
  | none =>
      Comp.fail (.notImplementedError "Chained comparisons are not supported")
  | some (op, right) => do
      let rhs ← right
      match comparePredicate op with
      | some predicate => do
          let value ← icmpSigned predicate lhs rhs
          pure (.value value)
      | none =>
          Comp.fail
            (.notImplementedError s!"Unsupported comparison operator: {op.className}")

/-- The pointer to a field: `gep ptr, 0, index`. -/
def fieldPtr (ptr : PyVal) (index : Nat) : Visit Value :=
  gep ptr [.value (i32Const 0), .value (i32Const index)]

def visitAttribute (value : Visit PyVal) (attr : String) : Visit PyVal := do
  let object ← value
  let objPtr ← asValue object
  let typeName ← structName objPtr
  match ← Comp.reads fun state => state.globalScope s!"{typeName}_{attr}" with
  | some method => pure (.method objPtr method)
  | none => do
      let layout ← Comp.reads fun state => state.classLayouts typeName
      match layout.bind fun layout => layout.lookup attr with
      | some field => do
          let ptr ← fieldPtr object field.index
          let loaded ← load (.value ptr)
          pure (.value loaded)
      | none =>
          Comp.fail (.nameError s!"Attribute '{attr}' not found on type '{typeName}'")

/-- An array's pointer is indexed through a leading zero. -/
def subscriptPtr (value slice : Visit PyVal) : Visit Value := do
  let ptr ← value
  let idx ← slice
  let ptrValue ← asValue ptr
  match ptrValue.type with
  | .ptr (.array _ _) => gep ptr [.value (i64Const 0), idx]
  | _ => gep ptr [idx]

def visitSubscript (value slice : Visit PyVal) : Visit PyVal := do
  let addr ← subscriptPtr value slice
  let loaded ← load (.value addr)
  pure (.value loaded)

/-! ### Objects -/

def isStrType : LType → Bool
  | .ptr (.struct name) => name = "str"
  | _ => false

/-- The size of a struct, as the address after a null pointer's first
element, and its allocation with the tag given. -/
def allocStruct (ptrType sizeType : LType) (tag : ArenaTag) : Visit Value := do
  let nullPtr ← constant ptrType .null
  let sizePtr ← gep (.value nullPtr) [.value (i32Const 1)]
  let size ← ptrtoint sizePtr sizeType
  let arenaAlloc ← lookup (·.globalScope) "lambpie_arena_alloc"
  let raw ← call arenaAlloc [.value (i32Const tag.code), .value size]
  bitcast raw ptrType

def layoutIndex (layout : Layout) (name : String) : Visit Nat :=
  match layout.lookup name with
  | some field => pure field.index
  | none => Comp.fail (.keyError name)

def storeField (ptr : Value) (index : Nat) (value : PyVal) : Visit Unit := do
  let fieldPtr ← fieldPtr (.value ptr) index
  store value (.value fieldPtr)

def wrapCstrToStr (i8Ptr : Value) : Visit Value := do
  let strPtrType ← lookup (·.types) "str"
  let sizeType ← lookup (·.types) "int"
  let tag ← Comp.reads (·.currentArena)
  let strPtr ← allocStruct strPtrType sizeType tag
  let layout ← lookup (·.classLayouts) "str"
  let refIdx ← layoutIndex layout "__ref_count__"
  storeField strPtr refIdx (.value (i32Const 1))
  let strlenFn ← lookup (·.globalScope) "strlen"
  let length ← call strlenFn [.value i8Ptr]
  let lenIdx ← layoutIndex layout "len"
  storeField strPtr lenIdx (.value length)
  let bufIdx ← layoutIndex layout "buffer"
  storeField strPtr bufIdx (.value i8Ptr)
  pure strPtr

def coerceArg (arg : PyVal) (expected : LType) : Visit PyVal :=
  if isStrType expected then do
    let value ← asValue arg
    if value.type = .ptr .i8 then do
      let wrapped ← wrapCstrToStr value
      pure (.value wrapped)
    else pure arg
  else pure arg

/-- The arguments against the parameters after `self`. -/
def coerceArgs : List PyVal → List LType → Visit (List PyVal)
  | [], _ => pure []
  | _ :: _, [] => Comp.fail .indexError
  | arg :: args, expected :: rest => do
      let coerced ← coerceArg arg expected
      let others ← coerceArgs args rest
      pure (coerced :: others)

/-- `init_func.type.pointee.args` of a function. -/
def functionParams (func : PyVal) : Visit (List LType) := do
  let value ← asValue func
  match ← pointee value with
  | .function _ params _ => pure params.toList
  | _ => Comp.fail .attributeError

def construct (name : String) (args : Visit (List PyVal)) : Visit PyVal := do
  let sizeType ← lookup (·.types) "int"
  let tag ← Comp.reads (·.currentArena)
  let objPtr ← allocStruct (.ptr (.struct name)) sizeType tag
  match ← Comp.reads fun state => state.globalScope s!"{name}___init__" with
  | none => pure (.value objPtr)
  | some initFunc => do
      let rawArgs ← args
      let params ← functionParams initFunc
      let coerced ← coerceArgs rawArgs (params.drop 1)
      let _ ← call initFunc (.value objPtr :: coerced)
      pure (.value objPtr)

def visitCall (func : Visit PyVal) (args : Visit (List PyVal)) :
    Visit PyVal := do
  match ← func with
  | .method receiver method => do
      let args ← args
      let result ← call method (.value receiver :: args)
      pure (.value result)
  | .type (.ptr (.struct name)) => construct name args
  | callee => do
      let args ← args
      let result ← call callee args
      pure (.value result)

/-! ### Statements -/

/-- `self.builder.branch(label)` unless the block has its terminator. -/
def branchUnlessTerminated (target : Label) : Visit Unit := do
  if ← isTerminated then pure () else branch target

def visitIf (test : Visit PyVal) (body : Visit Unit)
    (orelse : Option (Visit Unit)) : Visit PyVal := do
  let func ← currentFunction
  let entryBlock ← appendBlock func
  let thenBlock ← appendBlock func
  match orelse with
  | some orelse => do
      let elseBlock ← appendBlock func
      let mergeBlock ← appendBlock func
      branch entryBlock
      positionAtEnd entryBlock
      let condition ← test
      cbranch condition thenBlock elseBlock
      positionAtEnd thenBlock
      body
      branchUnlessTerminated mergeBlock
      positionAtEnd elseBlock
      orelse
      branchUnlessTerminated mergeBlock
      positionAtEnd mergeBlock
      pure .none
  | none => do
      let mergeBlock ← appendBlock func
      branch entryBlock
      positionAtEnd entryBlock
      let condition ← test
      cbranch condition thenBlock mergeBlock
      positionAtEnd thenBlock
      body
      branchUnlessTerminated mergeBlock
      positionAtEnd mergeBlock
      pure .none

def visitWhile (test : Visit PyVal) (body : Visit Unit) : Visit PyVal := do
  let func ← currentFunction
  let headerBlock ← appendBlock func
  let bodyBlock ← appendBlock func
  let exitBlock ← appendBlock func
  branch headerBlock
  positionAtEnd headerBlock
  let condition ← test
  cbranch condition bodyBlock exitBlock
  positionAtEnd bodyBlock
  body
  branchUnlessTerminated headerBlock
  positionAtEnd exitBlock
  pure .none

def visitReturn (value : Option (Visit PyVal)) : Visit PyVal := do
  match value with
  | some value => do
      let result ← value
      ret result
      pure .none
  | none => do
      retVoid
      pure .none

def targetName : Node → Visit String
  | .name id => pure id
  | _ => Comp.fail .attributeError

def isArrayType : LType → Bool
  | .array _ _ => true
  | _ => false

def visitAnnAssign (target annotation : Node) (value : Option (Visit PyVal)) :
    Visit PyVal := do
  let varName ← targetName target
  let varType ← getType annotation
  let varAlloc ← alloca varType
  setLocal varName varAlloc
  match value with
  | some value =>
      if isArrayType varType then
        Comp.fail (.notImplementedError
          s!"Array variable '{varName}': initializer not supported — declare without a value and assign elements individually")
      else do
        let value ← value
        store value (.value varAlloc)
        pure .none
  | none => pure .none

/-- `target[slice] = value`. -/
def assignSubscript (target slice value : Visit PyVal) : Visit PyVal := do
  let addr ← subscriptPtr target slice
  let value ← value
  store value (.value addr)
  pure .none

def assignName (varName : String) (value : Visit PyVal) : Visit PyVal := do
  match ← Comp.reads fun state => state.localScope varName with
  | none =>
      Comp.fail (.nameError s!"Cannot assign to undeclared variable: {varName}")
  | some varAlloc => do
      let value ← value
      store value (.value varAlloc)
      pure .none

/-! ### Functions, classes and imports -/

/-- The types of the parameters, `self` skipped wherever it stands. -/
def paramTypes : List (String × Option Node) → Visit (List LType)
  | [] => pure []
  | (arg, annotation) :: rest =>
      if arg = "self" then paramTypes rest
      else do
        let type ← getType? annotation
        let types ← paramTypes rest
        pure (type :: types)

def paramNames (args : List (String × Option Node)) : List String :=
  (args.map Prod.fst).filter (· ≠ "self")

/-- Each argument is stored in a slot of its own, in order from the index
given. -/
def storeParams : Nat → List (String × LType) → Visit Unit
  | _, [] => pure ()
  | index, (name, type) :: rest => do
      let argAlloc ← alloca type
      store (.value { type, operand := .arg index }) (.value argAlloc)
      setLocal name argAlloc
      storeParams (index + 1) rest

/-- `func_name` of a method or of a top-level function. -/
def functionName : Option String → String → String
  | some className, name => s!"{className}_{name}"
  | none, name => name

/-- The top-level `handle` allocates in the request arena. -/
def switchArena (className : Option String) (name : String) : Visit Unit :=
  Comp.modify fun state =>
    if className = none ∧ name = "handle" then
      { state with currentArena := .req }
    else state

def selfParam : Option String → Visit (List (String × LType))
  | some className => do
      let type ← lookup (·.types) className
      pure [("self", type)]
  | none => pure []

/-- From the signature to the parameters' slots; gives the return type. -/
def openFunction (className : Option String) (name : String)
    (args : List (String × Option Node)) (returns : Option Node) :
    Visit LType := do
  switchArena className name
  let returnType ← getType? returns
  let self ← selfParam className
  let argTypes ← paramTypes args
  let params := self ++ (paramNames args).zip argTypes
  let func ← beginFunction (functionName className name) returnType
    (params.map Prod.snd)
  setGlobal (functionName className name) (.value func)
  clearLocals
  storeParams 0 params
  pure returnType

/-- The end of the body, where control may fall off. -/
def closeFunction (returnType : LType) : Visit Unit := do
  if ← isTerminated then pure ()
  else if returnType ≠ .void then unreachable
  else retVoid

def visitFunctionDef (className : Option String) (name : String)
    (args : List (String × Option Node)) (returns : Option Node)
    (body : Visit Unit) : Visit PyVal := do
  let savedArena ← Comp.reads (·.currentArena)
  let returnType ← openFunction className name args returns
  body
  closeFunction returnType
  Comp.modify fun state => { state with currentArena := savedArena }
  pure .none

def classFields : Nat → List Node → Visit (List LayoutField)
  | _, [] => pure []
  | index, .annAssign target annotation _ :: rest => do
      let name ← targetName target
      let type ← getType annotation
      let fields ← classFields (index + 1) rest
      pure ({ name, index, type } :: fields)
  | index, _ :: rest => classFields index rest

def refCountField : LayoutField :=
  { name := "__ref_count__", index := 0, type := .i32 }

/-- `context.get_identified_type(name)`. -/
def getIdentifiedType (name : String) : Visit Unit :=
  Comp.modify fun state =>
    match state.module.struct? name with
    | some _ => state
    | none =>
        { state with module :=
          { state.module with
            structs := state.module.structs ++ [{ name, elements := none }] } }

/-- `class_type.set_body(...)`, which raises on a second call. -/
def setBody (name : String) (elements : List LType) : Visit Unit := do
  match ← Comp.reads fun state => state.module.struct? name with
  | some { elements := some _, .. } =>
      Comp.fail (.runtimeError s!"{name} is already defined")
  | _ =>
      Comp.modify fun state =>
        { state with module :=
          { state.module with
            structs := state.module.structs.map fun struct =>
              if struct.name = name then { struct with elements := some elements }
              else struct } }

/-- The fields of a layout without the reference count, by index. -/
def dataFields (layout : Layout) : List LayoutField :=
  (layout.filter (·.name ≠ "__ref_count__")).insertionSort (·.index ≤ ·.index)

def storeFields (selfPtr : Value) : Nat → List LayoutField → Visit Unit
  | _, [] => pure ()
  | arg, field :: rest => do
      let ptr ← fieldPtr (.value selfPtr) field.index
      store (.value { type := field.type, operand := .arg arg }) (.value ptr)
      storeFields selfPtr (arg + 1) rest

/-- `__init__` of a class without one: a parameter for each field. -/
def generateAutoInit (className : String) (layout : Layout) : Visit Unit := do
  let fields := dataFields layout
  let selfPtrType := LType.ptr (.struct className)
  let funcName := s!"{className}___init__"
  let savedBuilder ← Comp.reads (·.builder)
  let func ← beginFunction funcName .void (selfPtrType :: fields.map (·.type))
  setGlobal funcName (.value func)
  let selfAlloc ← alloca selfPtrType
  store (.value { type := selfPtrType, operand := .arg 0 }) (.value selfAlloc)
  let selfPtr ← load (.value selfAlloc)
  match layout.lookup "__ref_count__" with
  | none => Comp.fail (.keyError "__ref_count__")
  | some field => storeField selfPtr field.index (.value (i32Const 1))
  storeFields selfPtr 1 fields
  retVoid
  Comp.modify fun state => { state with builder := savedBuilder }

def isMethod : Node → Option String
  | .functionDef name _ _ _ _ => some name
  | _ => none

def hasInit (body : List Node) : Bool :=
  body.any fun stmt => isMethod stmt = some "__init__"

/-- The struct, its layout and, without an explicit one, its `__init__`. -/
def declareClass (className : String) (body : List Node) : Visit Unit := do
  getIdentifiedType className
  let fields ← classFields 1 body
  let layout := (refCountField :: fields).foldl Layout.insert []
  setBody className (refCountField.type :: fields.map (·.type))
  setType className (.ptr (.struct className))
  Comp.modify fun state =>
    { state with classLayouts := state.classLayouts.set className layout }
  if hasInit body then pure () else generateAutoInit className layout

def visitClassDef (className : String) (body : List Node)
    (methods : Visit Unit) : Visit PyVal := do
  declareClass className body
  methods
  pure .none

structure CSignature where
  ret : LType
  params : List LType
  varArg : Bool

/-- `C_SIGNATURES`, built from the current types. -/
def cSignature (name : String) : Visit CSignature := do
  let ptr ← lookup (·.types) "__ptr__"
  let int ← lookup (·.types) "int"
  if name = "printf" then pure { ret := .i32, params := [ptr], varArg := true }
  else if name = "atoi" then pure { ret := int, params := [ptr], varArg := false }
  else if name = "strlen" then
    pure { ret := int, params := [ptr], varArg := false }
  else if name = "free" then
    pure { ret := .void, params := [ptr], varArg := false }
  else
    Comp.fail (.typeError
      s!"Unknown C function signature: {name}. Add it to C_SIGNATURES in visit_ImportFrom.")

def importNames : List (String × Option String) → Visit Unit
  | [] => pure ()
  | (name, _) :: rest => do
      match ← Comp.reads fun state => state.globalScope name with
      | some _ => importNames rest
      | none => do
          let signature ← cSignature name
          let func ← addFunction name signature.ret signature.params signature.varArg
          setGlobal name (.value func)
          importNames rest

def visitImportFrom (module : Option String)
    (names : List (String × Option String)) : Visit PyVal :=
  if module = some "C" then do
    importNames names
    pure .none
  else
    let named := module.getD "None"
    Comp.fail (.importError
      s!"Unknown module: {named}. Only 'from C import ...' is supported.")

/-- `generic_visit`, which returns nothing. -/
def visitNone (children : Visit Unit) : Visit PyVal := do
  children
  pure .none

/-! ### The recursion over the tree -/

mutual

def visit : Node → Visit PyVal
  | .name id => visitName id
  | .constant value => visitConstant value
  | .binOp left op right => visitBinOp (visit left) op (visit right)
  | .unaryOp op operand => visitUnaryOp op (visit operand)
  | .compare left [(op, comparator)] =>
      visitCompare (visit left) (some (op, visit comparator))
  | .compare left _ => visitCompare (visit left) none
  | .call func args _ => visitCall (visit func) (visitArgs args)
  | .attribute value attr => visitAttribute (visit value) attr
  | .subscript value slice => visitSubscript (visit value) (visit slice)
  | .sliced value bounds =>
      visitSubscript (visit value) (visitNone (visitBody bounds))
  | .return_ (some value) => visitReturn (some (visit value))
  | .return_ none => visitReturn none
  | .assign (.subscript target slice) _ value =>
      assignSubscript (visit target) (visit slice) (visit value)
  | .assign (.sliced target bounds) _ value =>
      assignSubscript (visit target) (visitNone (visitBody bounds)) (visit value)
  | .assign (.name varName) _ value => assignName varName (visit value)
  | .assign target _ _ =>
      Comp.fail (.notImplementedErrorDumping "Unsupported assignment target: " target)
  | .annAssign target annotation (some value) =>
      visitAnnAssign target annotation (some (visit value))
  | .annAssign target annotation none => visitAnnAssign target annotation none
  | .ifStmt test body [] => visitIf (visit test) (visitBody body) none
  | .ifStmt test body orelse =>
      visitIf (visit test) (visitBody body) (some (visitBody orelse))
  | .whileStmt test body _ => visitWhile (visit test) (visitBody body)
  | .expr value => do
      let _ ← visit value
      pure .none
  | .pass => pure .none
  | .functionDef name args returns body _ =>
      visitFunctionDef none name args returns (visitBody body)
  | .classDef name body _ => visitClassDef name body (visitMethods name body)
  | .importFrom module names _ => visitImportFrom module names
  | .other _ children => visitNone (visitBody children)

def visitBody : List Node → Visit Unit
  | [] => pure ()
  | stmt :: rest => do
      let _ ← visit stmt
      visitBody rest

def visitArgs : List Node → Visit (List PyVal)
  | [] => pure []
  | arg :: rest => do
      let value ← visit arg
      let values ← visitArgs rest
      pure (value :: values)

def visitMethods (className : String) : List Node → Visit Unit
  | [] => pure ()
  | .functionDef name args returns body _ :: rest => do
      let _ ← visitFunctionDef (some className) name args returns (visitBody body)
      visitMethods className rest
  | _ :: rest => visitMethods className rest

end

end Lambpie.Compiler
