/-
The module level of the compiler and the two functions it synthesises.

`lambpie_init` runs the top-level statements; `lambpie_handle` decodes the
event into a struct, calls the user's `handle` and encodes the response.
-/
import Lambpie.Compiler.Visitor

namespace Lambpie.Compiler

open Foundations
open Lambpie.Runtime (Bytes)

def mallocFunction : Function where
  name := "malloc"
  ret := .ptr .i8
  params := [.i64]
  varArg := false
  entry := none

def memcpyFunction : Function where
  name := "memcpy"
  ret := .ptr .i8
  params := [.ptr .i8, .ptr .i8, .i64]
  varArg := false
  entry := none

def arenaAllocFunction : Function where
  name := "lambpie_arena_alloc"
  ret := .ptr .i8
  params := [.i32, .i64]
  varArg := false
  entry := none

def functionValue (func : Function) (index : Nat) : PyVal :=
  .value { type := .ptr func.type, operand := .func index }

/-- `Compiler.__init__`: the built-in types, `__name__` and the three functions
declared beforehand. -/
def CompilerState.initial : CompilerState where
  module :=
    { Module.empty with
      functions := [mallocFunction, memcpyFunction, arenaAllocFunction]
      globals := [{ name := ".str.__main__", length := 9
                    bytes := utf8 "__main__" ++ [0], isConstant := false }] }
  types :=
    (((Scope.empty.set "int" .i64).set "float" .double).set "None" .void).set
      "__ptr__" (.ptr .i8)
  globalScope :=
    (((Scope.empty.set "__name__"
      (.value { type := .ptr .i8, operand := .global 0 })).set
      "malloc" (functionValue mallocFunction 0)).set
      "memcpy" (functionValue memcpyFunction 1)).set
      "lambpie_arena_alloc" (functionValue arenaAllocFunction 2)
  localScope := .empty
  classLayouts := .empty
  builder := none
  currentArena := .static
  nameCounter := 0
  handleNode := none
  initStmts := []

/-- `if __name__ == '__main__':`. -/
def isMainBlock : Node → Bool
  | .ifStmt (.compare (.name id) [(.eq, .constant (.str text))]) _ _ =>
      id = "__name__" && text = "__main__"
  | _ => false

/-- One statement of the module: `handle` and the init statements are kept for
later. -/
def visitTopLevel (stmt : Node) : Visit Unit :=
  if isMainBlock stmt then pure ()
  else
    match stmt with
    | .functionDef name args returns body dropped =>
        if name = "handle" then
          Comp.modify fun state =>
            { state with handleNode := some { name, args, returns, body } }
        else do
          let _ ← visit (.functionDef name args returns body dropped)
          pure ()
    | .annAssign .. | .assign .. | .expr _ =>
        Comp.modify fun state =>
          { state with initStmts := state.initStmts ++ [stmt] }
    | _ => do
        let _ ← visit stmt
        pure ()

def visitModule : List Node → Visit Unit
  | [] => pure ()
  | stmt :: rest => do
      visitTopLevel stmt
      visitModule rest

/-- The global that holds a field's key, with its length in characters. -/
def keyGlobal (name : String) : Visit Value := do
  let counter ← nextName
  addGlobal s!".key.{counter}" (name.length + 1) (utf8 name ++ [0]) false

structure JsonFunctions where
  getStr : PyVal
  getInt : PyVal
  open_ : PyVal
  writeStr : PyVal
  writeInt : PyVal
  close : PyVal

def declare (name : String) (ret : LType) (params : List LType) : Visit PyVal := do
  let func ← addFunction name ret params false
  pure (.value func)

def declareJson (i8Ptr i64 : LType) : Visit JsonFunctions := do
  let getStr ← declare "json_get_str" i8Ptr [i8Ptr, i64, i8Ptr, i64, .ptr i64]
  let getInt ← declare "json_get_int" i64 [i8Ptr, i64, i8Ptr, i64]
  let open_ ← declare "json_open" i64 [i8Ptr, i64]
  let writeStr ← declare "json_write_str" i64
    [i8Ptr, i64, i8Ptr, i64, i8Ptr, i64]
  let writeInt ← declare "json_write_int" i64 [i8Ptr, i64, i8Ptr, i64, i64]
  let close ← declare "json_close" i64 [i8Ptr, i64]
  pure { getStr, getInt, open_, writeStr, writeInt, close }

/-- The parameters of `lambpie_handle` and the types they are used at. -/
structure EntryContext where
  i64 : LType
  eventPtr : PyVal
  eventLen : PyVal
  responsePtr : PyVal
  json : JsonFunctions

/-- `ir.Constant(i64, n)`. -/
def lengthConst (context : EntryContext) (number : Nat) : Visit PyVal := do
  let const ← constant context.i64 (.int number)
  pure (.value const)

/-- A str field: what `json_get_str` finds, in a str of the request arena. -/
def decodeStr (context : EntryContext) (keyPtr : Value) (keyLen : PyVal)
    (fieldPtr : Value) : Visit Unit := do
  let outLen ← alloca context.i64
  let data ← call context.json.getStr
    [context.eventPtr, context.eventLen, .value keyPtr, keyLen, .value outLen]
  let len ← load (.value outLen)
  let strPtrType ← lookup (·.types) "str"
  let strStruct ← allocStruct strPtrType context.i64 .req
  let layout ← lookup (·.classLayouts) "str"
  let refIdx ← layoutIndex layout "__ref_count__"
  storeField strStruct refIdx (.value (i32Const 1))
  let lenIdx ← layoutIndex layout "len"
  storeField strStruct lenIdx (.value len)
  let bufIdx ← layoutIndex layout "buffer"
  storeField strStruct bufIdx (.value data)
  store (.value strStruct) (.value fieldPtr)

def decodeInt (context : EntryContext) (keyPtr : Value) (keyLen : PyVal)
    (fieldPtr : Value) : Visit Unit := do
  let value ← call context.json.getInt
    [context.eventPtr, context.eventLen, .value keyPtr, keyLen]
  store (.value value) (.value fieldPtr)

def decodeField (context : EntryContext) (eventStruct : Value)
    (field : LayoutField) : Visit Unit := do
  let keyPtr ← keyGlobal field.name
  let keyLen ← lengthConst context field.name.length
  let ptr ← fieldPtr (.value eventStruct) field.index
  if isStrType field.type then decodeStr context keyPtr keyLen ptr
  else if field.type = context.i64 then decodeInt context keyPtr keyLen ptr
  else
    Comp.fail (.runtimeError
      s!"Unsupported event field type for JSON deserialization: {field.name}")

def decodeFields (context : EntryContext) (eventStruct : Value) :
    List LayoutField → Visit Unit
  | [] => pure ()
  | field :: rest => do
      decodeField context eventStruct field
      decodeFields context eventStruct rest

/-- The position after the field, from the position before it. -/
def encodeField (context : EntryContext) (responseStruct : Value)
    (pos : PyVal) (field : LayoutField) : Visit PyVal := do
  let keyPtr ← keyGlobal field.name
  let keyLen ← lengthConst context field.name.length
  if isStrType field.type then do
    let strFieldPtr ← fieldPtr (.value responseStruct) field.index
    let strStruct ← load (.value strFieldPtr)
    let layout ← lookup (·.classLayouts) "str"
    let bufIdx ← layoutIndex layout "buffer"
    let bufPtr ← fieldPtr (.value strStruct) bufIdx
    let bufVal ← load (.value bufPtr)
    let lenIdx ← layoutIndex layout "len"
    let lenPtr ← fieldPtr (.value strStruct) lenIdx
    let lenVal ← load (.value lenPtr)
    let next ← call context.json.writeStr
      [context.responsePtr, pos, .value keyPtr, keyLen, .value bufVal,
        .value lenVal]
    pure (.value next)
  else if field.type = context.i64 then do
    let intFieldPtr ← fieldPtr (.value responseStruct) field.index
    let intVal ← load (.value intFieldPtr)
    let next ← call context.json.writeInt
      [context.responsePtr, pos, .value keyPtr, keyLen, .value intVal]
    pure (.value next)
  else
    Comp.fail (.runtimeError
      s!"Unsupported response field type for JSON serialization: {field.name}")

def encodeFields (context : EntryContext) (responseStruct : Value) :
    PyVal → List LayoutField → Visit PyVal
  | pos, [] => pure pos
  | pos, field :: rest => do
      let next ← encodeField context responseStruct pos field
      encodeFields context responseStruct next rest

def annotationName : Node → Visit String
  | .name id => pure id
  | _ => Comp.fail .attributeError

def entryTypes (node : FunctionNode) : Visit (String × String) := do
  match node.args, node.returns with
  | (_, some annotation) :: _, some returns => do
      let eventType ← annotationName annotation
      let responseType ← annotationName returns
      pure (eventType, responseType)
  | (_, some _) :: _, none =>
      Comp.fail (.runtimeError
        "handle() must have a return type annotation, e.g. def handle(event: Request) -> Response")
  | _, _ =>
      Comp.fail (.runtimeError
        "handle() must have a typed event parameter, e.g. def handle(event: Request) -> Response")

def entryLayout (role typeName : String) : Visit Layout := do
  match ← Comp.reads fun state => state.classLayouts typeName with
  | some layout => pure layout
  | none =>
      Comp.fail (.runtimeError
        s!"{role} type '{typeName}' not defined. Define it as a class with typed fields.")

/-- `lambpie_init`: the init statements, allocating in the static arena. -/
def synthesizeInit : Visit Unit := do
  let _ ← beginFunction "lambpie_init" .void []
  clearLocals
  Comp.modify fun state => { state with currentArena := .static }
  let stmts ← Comp.reads (·.initStmts)
  visitBody stmts
  if ← isTerminated then pure () else retVoid

/-- `lambpie_handle`: event in, response length out. -/
def synthesizeHandle (i8Ptr i64 eventPtrType : LType) (json : JsonFunctions)
    (eventLayout responseLayout : Layout) : Visit Unit := do
  let _ ← beginFunction "lambpie_handle" i64 [i8Ptr, i64, i8Ptr, i64]
  clearLocals
  Comp.modify fun state => { state with currentArena := .req }
  let context : EntryContext := {
    i64
    eventPtr := .value { type := i8Ptr, operand := .arg 0 }
    eventLen := .value { type := i64, operand := .arg 1 }
    responsePtr := .value { type := i8Ptr, operand := .arg 2 }
    json }
  let eventStruct ← allocStruct eventPtrType i64 .req
  storeField eventStruct 0 (.value (i32Const 1))
  decodeFields context eventStruct (dataFields eventLayout)
  let userHandle ← lookup (·.globalScope) "handle"
  let responseStruct ← call userHandle [.value eventStruct]
  let zero ← lengthConst context 0
  let pos ← call json.open_ [context.responsePtr, zero]
  let pos ← encodeFields context responseStruct (.value pos)
    (dataFields responseLayout)
  let pos ← call json.close [context.responsePtr, pos]
  ret (.value pos)

def synthesizeLambdaEntry : Visit Unit := do
  match ← Comp.reads (·.handleNode) with
  | none =>
      Comp.fail (.runtimeError
        "No handle() function found. Every .pie file must define a top-level handle() function.")
  | some node => do
      let (eventTypeName, responseTypeName) ← entryTypes node
      let eventLayout ← entryLayout "Event" eventTypeName
      let responseLayout ← entryLayout "Response" responseTypeName
      let eventPtrType ← lookup (·.types) eventTypeName
      let _ ← lookup (·.types) responseTypeName
      let i8Ptr ← lookup (·.types) "__ptr__"
      let i64 ← lookup (·.types) "int"
      let _ ← visitFunctionDef none node.name node.args node.returns
        (visitBody node.body)
      let json ← declareJson i8Ptr i64
      synthesizeInit
      synthesizeHandle i8Ptr i64 eventPtrType json eventLayout responseLayout

/-- `Compiler().compile(tree)`, with the state it leaves. -/
def compileState (tree : List Node) : Except PyErr CompilerState :=
  match (do visitModule tree; synthesizeLambdaEntry : Visit Unit)
      CompilerState.initial with
  | .ok (_, state) => .ok state
  | .error error => .error error

theorem compileState_ok_iff {tree : List Node} {state : CompilerState} :
    compileState tree = .ok state ↔
      ∃ middle, visitModule tree CompilerState.initial = .ok ((), middle) ∧
        synthesizeLambdaEntry middle = .ok ((), state) := by
  unfold compileState
  constructor
  · intro compiled
    split at compiled
    · rename_i run
      cases compiled
      obtain ⟨_, middle, visited, synthesized⟩ := Comp.bind_ok_iff.mp run
      exact ⟨middle, visited, synthesized⟩
    · cases compiled
  · rintro ⟨middle, visited, synthesized⟩
    have run : (do visitModule tree; synthesizeLambdaEntry : Visit Unit)
        CompilerState.initial = .ok ((), state) :=
      Comp.bind_ok_iff.mpr ⟨(), middle, visited, synthesized⟩
    rw [run]

def compile (tree : List Node) : Except PyErr Module :=
  (compileState tree).map (·.module)

theorem compile_ok_iff {tree : List Node} {module : Module} :
    compile tree = .ok module ↔
      ∃ state, compileState tree = .ok state ∧ state.module = module := by
  unfold compile
  cases compileState tree with
  | ok state => simp [Except.map]
  | error error => simp [Except.map]

theorem exists_compiled {tree : List Node}
    (accepted : (compile tree).toOption.isSome = true) :
    ∃ module, compile tree = .ok module := by
  cases compiled : compile tree with
  | ok module => exact ⟨module, rfl⟩
  | error error =>
      rw [compiled] at accepted
      cases accepted

/-- `builtins.pie`. -/
def builtins : List Node :=
  [.importFrom (some "C")
      [("malloc", none), ("free", none), ("strlen", none), ("memcpy", none)] 0,
    .classDef "str"
      [.annAssign (.name "len") (.name "int") none,
        .annAssign (.name "buffer") (.name "__ptr__") none,
        .functionDef "__init__" [("self", none), ("c_str", some (.name "__ptr__"))]
          (some (.constant .none)) [.pass] [],
        .functionDef "__del__" [("self", none)] (some (.constant .none)) [.pass] []]
      [],
    .classDef "bytearray"
      [.annAssign (.name "len") (.name "int") none,
        .annAssign (.name "buffer") (.name "__ptr__") none,
        .functionDef "__init__" [("self", none), ("size", some (.name "int"))]
          (some (.constant .none)) [.pass] [],
        .functionDef "__del__" [("self", none)] (some (.constant .none)) [.pass] []]
      []]

/-- What `main` compiles: the builtins and then the source file. -/
def compileProgram (source : List Node) : Except PyErr Module :=
  compile (builtins ++ source)

end Lambpie.Compiler
