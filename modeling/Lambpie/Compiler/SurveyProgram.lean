/-
A survey of the source program.

It has a step for each visitor, and fails where the visitor raises: at a name
that is not found or taken already, a type that does not fit, a form without a
lowering that some visitor looks at.  It knows nothing of operands and code.
-/
import Lambpie.Compiler.Survey

namespace Lambpie.Compiler

open Foundations

def annotationType (types : Scope LType) : Node → Option LType
  | .name typeName => if typeName = "bytes" then types "__ptr__" else types typeName
  | .constant .none => types "None"
  | .subscript (.name "ptr") slice => (annotationType types slice).bind pointerTo
  | .subscript (.name "array") (.other .tuple [elem, count]) => do
      let elemType ← annotationType types elem
      let count ← countLiteral count
      pure (.array elemType count)
  | _ => none

def annotated ( annotation : Node) : Check LType := do
  found (← Comp.reads fun survey => annotationType survey.types annotation)

def annotated? : Option Node → Check LType
  | some annotation => annotated annotation
  | none => Comp.fail ()

def surveyConstant : Literal → Check Kind
  | .int _ => do
      let type ← find (·.types) "int"
      surveyConst type
  | .bool _ => do
      let type ← find (·.types) "int"
      surveyConst type
  | .str _ => surveyText fun counter => s!".str.{counter}"
  | .bytes _ => surveyText fun counter => s!".bytes.{counter}"
  | _ => pure .none

def surveyName (id : String) : Check Kind := do
  match ← Comp.reads fun survey => survey.locals id with
  | some slot =>
      match slot.held with
      | some (.ptr (.array _ _)) => pure slot
      | _ => surveyLoad slot
  | none => do
      match ← Comp.reads fun survey => survey.globals id with
      | some kind => pure kind
      | none => do
          match ← Comp.reads fun survey => survey.types id with
          | some type => pure (.type type)
          | none => Comp.fail ()

def surveyBinOp (left : Check Kind) (op : BinaryOp) (right : Check Kind) :
    Check Kind := do
  let lhs ← left
  let rhs ← right
  match binOpcode op with
  | some _ => surveyOp lhs rhs
  | none => Comp.fail ()

def surveyUnaryOp (op : UnaryOp) (operand : Check Kind) : Check Kind := do
  let operand ← operand
  match op with
  | .invert => do
      let type ← heldType operand
      let allOnes ← surveyConst type
      surveyOp operand allOnes
  | .uSub => do
      let type ← heldType operand
      let zero ← surveyConst type
      surveyOp zero operand
  | .uAdd => pure operand
  | .not => Comp.fail ()

def surveyCompare (left : Check Kind) (op : CompareOp) (right : Check Kind) :
    Check Kind := do
  let lhs ← left
  let _ ← right
  match comparePredicate op with
  | some _ => surveyTest lhs
  | none => Comp.fail ()

def pointedStruct : LType → Option String
  | .ptr (.struct name) => some name
  | _ => none

def surveyAttribute (value : Check Kind) (attr : String) : Check Kind := do
  let object ← value
  let type ← heldType object
  let typeName ← found (pointedStruct type)
  match ← Comp.reads fun survey => survey.globals s!"{typeName}_{attr}" with
  | some method => pure (.method object method)
  | none => do
      let layout ← Comp.reads fun survey => survey.layouts typeName
      let field ← found (layout.bind fun layout => layout.lookup attr)
      let ptr ← surveyFieldPtr object field.index
      surveyLoad ptr

def surveySubscriptPtr (value slice : Check Kind) : Check Kind := do
  let ptr ← value
  let idx ← slice
  surveyIndex ptr idx

def surveySubscript (value slice : Check Kind) : Check Kind := do
  let addr ← surveySubscriptPtr value slice
  surveyLoad addr

def surveyAlloc (ptrType sizeType : LType) : Check Kind := do
  let nullPtr ← surveyConst ptrType
  let sizePtr ← surveyOffset nullPtr (.value .i32)
  let size ← surveyCast sizePtr sizeType
  let arenaAlloc ← find (·.globals) "lambpie_arena_alloc"
  let raw ← surveyCallee arenaAlloc [.value .i32, size]
  surveyCast raw ptrType

def fieldIndex (layout : Layout) (name : String) : Check Nat := do
  let field ← found (layout.lookup name)
  pure field.index

def surveyStoreField (ptr : Kind) (index : Nat) (val : Kind) : Check Unit := do
  let field ← surveyFieldPtr ptr index
  surveyStore val field

/-- A struct of the class str for a character pointer. -/
def surveyWrap (i8Ptr : Kind) : Check Kind := do
  let strPtrType ← find (·.types) "str"
  let sizeType ← find (·.types) "int"
  let strPtr ← surveyAlloc strPtrType sizeType
  let layout ← find (·.layouts) "str"
  let refIdx ← fieldIndex layout "__ref_count__"
  surveyStoreField strPtr refIdx (.value .i32)
  let strlenFn ← find (·.globals) "strlen"
  let length ← surveyCallee strlenFn [i8Ptr]
  let lenIdx ← fieldIndex layout "len"
  surveyStoreField strPtr lenIdx length
  let bufIdx ← fieldIndex layout "buffer"
  surveyStoreField strPtr bufIdx i8Ptr
  pure strPtr

def surveyCoerce (arg : Kind) (expected : LType) : Check Kind :=
  if isStrType expected then do
    let type ← heldType arg
    if type = .ptr .i8 then surveyWrap arg else pure arg
  else pure arg

def surveyCoerceAll : List Kind → List LType → Check (List Kind)
  | [], _ => pure []
  | _ :: _, [] => Comp.fail ()
  | arg :: args, expected :: rest => do
      let coerced ← surveyCoerce arg expected
      let others ← surveyCoerceAll args rest
      pure (coerced :: others)

def paramKinds (func : Kind) : Check (List LType) := do
  match ← heldType func with
  | .ptr (.function _ params _) => pure params.toList
  | _ => Comp.fail ()

def surveyConstruct (name : String) (args : Check (List Kind)) : Check Kind := do
  let sizeType ← find (·.types) "int"
  let object ← surveyAlloc (.ptr (.struct name)) sizeType
  match ← Comp.reads fun survey => survey.globals s!"{name}___init__" with
  | none => pure object
  | some initFunc => do
      let rawArgs ← args
      let params ← paramKinds initFunc
      let coerced ← surveyCoerceAll rawArgs (params.drop 1)
      let _ ← surveyCallee initFunc (object :: coerced)
      pure object

def surveyCall (func : Check Kind) (args : Check (List Kind)) : Check Kind := do
  match ← func with
  | .method receiver method => do
      let args ← args
      surveyCallee method (receiver :: args)
  | .type (.ptr (.struct name)) => surveyConstruct name args
  | callee => do
      let args ← args
      surveyCallee callee args

/-- A block of its own, which goes on to the block after the construct. -/
def surveyArm (ret : LType) (body : Check Unit) : Check Unit := do
  stand ret
  body
  closeIfOpen fun _ => true

def surveyElse (ret : LType) : Option (Check Unit) → Check Unit
  | some orelse => surveyArm ret orelse
  | none => pure ()

def surveyIf (test : Check Kind) (body : Check Unit)
    (orelse : Option (Check Unit)) : Check Kind := do
  let ret ← currentReturn
  closeWith fun _ => true
  stand ret
  let condition ← test
  closeWith fun _ => condition.isTest
  surveyArm ret body
  surveyElse ret orelse
  stand ret
  pure .none

def surveyWhile (test : Check Kind) (body : Check Unit) : Check Kind := do
  let ret ← currentReturn
  closeWith fun _ => true
  stand ret
  let condition ← test
  closeWith fun _ => condition.isTest
  surveyArm ret body
  stand ret
  pure .none

def surveyReturn (value : Option (Check Kind)) : Check Kind := do
  match value with
  | some value => do
      let result ← value
      closeWith result.fitsReturn
      pure .none
  | none => do
      closeWith (· = .void)
      pure .none

def surveyTarget : Node → Check String
  | .name id => pure id
  | _ => Comp.fail ()

/-- An array variable has no initial value. -/
def surveyAnnAssign (target annotation : Node) (value : Option (Check Kind)) :
    Check Kind := do
  let varName ← surveyTarget target
  let varType ← annotated annotation
  let slot ← surveyAddress varType
  surveyLocal varName slot
  match value with
  | some value =>
      if isArrayType varType then Comp.fail ()
      else do
        let value ← value
        surveyStore value slot
        pure .none
  | none => pure .none

def surveyAssignSubscript (target slice value : Check Kind) : Check Kind := do
  let addr ← surveySubscriptPtr target slice
  let value ← value
  surveyStore value addr
  pure .none

def surveyAssignName (varName : String) (value : Check Kind) : Check Kind := do
  match ← Comp.reads fun survey => survey.locals varName with
  | none => Comp.fail ()
  | some slot => do
      let value ← value
      surveyStore value slot
      pure .none

/-! ### Functions, classes and imports -/

def surveyParamTypes : List (String × Option Node) → Check (List LType)
  | [] => pure []
  | (arg, annotation) :: rest =>
      if arg = "self" then surveyParamTypes rest
      else do
        let type ← annotated? annotation
        let types ← surveyParamTypes rest
        pure (type :: types)

def surveyParams : List (String × LType) → Check Unit
  | [] => pure ()
  | (name, type) :: rest => do
      let slot ← surveyAddress type
      surveyStore (.value type) slot
      surveyLocal name slot
      surveyParams rest

def surveySelf : Option String → Check (List (String × LType))
  | some className => do
      let type ← find (·.types) className
      pure [("self", type)]
  | none => pure []

def surveyEnter (name : String) (ret : LType) (params : List LType) :
    Check Kind := do
  surveyUse name
  stand ret
  pure (functionKind ret params false)

/-- The block before the function is not continued. -/
def surveyBegin (name : String) (ret : LType) (params : List LType) :
    Check Kind := do
  Comp.modify Survey.leave
  surveyEnter name ret params

def surveyClearLocals : Check Unit :=
  Comp.modify fun survey => { survey with locals := .empty }

def surveyOpen (className : Option String) (name : String)
    (args : List (String × Option Node)) (returns : Option Node) :
    Check LType := do
  let returnType ← annotated? returns
  let self ← surveySelf className
  let argTypes ← surveyParamTypes args
  let params := self ++ (paramNames args).zip argTypes
  let func ← surveyBegin (functionName className name) returnType
    (params.map Prod.snd)
  surveyGlobal (functionName className name) func
  surveyClearLocals
  surveyParams params
  pure returnType

/-- `unreachable` fits any function, `ret void` one that returns nothing. -/
def surveyClose (returnType : LType) : Check Unit :=
  closeIfOpen fun ret => returnType ≠ .void || ret = .void

def surveyFunctionDef (className : Option String) (name : String)
    (args : List (String × Option Node)) (returns : Option Node)
    (body : Check Unit) : Check Kind := do
  let returnType ← surveyOpen className name args returns
  body
  surveyClose returnType
  pure .none

def surveyFields : Nat → List Node → Check (List LayoutField)
  | _, [] => pure []
  | index, .annAssign target annotation _ :: rest => do
      let name ← surveyTarget target
      let type ← annotated annotation
      let fields ← surveyFields (index + 1) rest
      pure ({ name, index, type } :: fields)
  | index, _ :: rest => surveyFields index rest

/-- The struct types with the one named, if it was not there. -/
def identify (structs : List StructType) (name : String) : List StructType :=
  match structs.find? (·.name = name) with
  | some _ => structs
  | none => structs ++ [{ name, elements := none }]

def withBody (structs : List StructType) (name : String) (elements : List LType) :
    List StructType :=
  structs.map fun struct =>
    if struct.name = name then { struct with elements := some elements } else struct

def surveyIdentify (className : String) : Check Unit :=
  Comp.modify fun survey =>
    { survey with structs := identify survey.structs className }

def surveyStruct (className : String) (elements : List LType) : Check Unit := do
  match ← Comp.reads fun survey => survey.structs.find? (·.name = className) with
  | some { elements := some _, .. } => Comp.fail ()
  | _ =>
      Comp.modify fun survey =>
        { survey with structs := withBody survey.structs className elements }

def surveyClass (className : String) (layout : Layout) : Check Unit :=
  Comp.modify (·.setClass className layout)

def surveyStoreFields (self : Kind) : List LayoutField → Check Unit
  | [] => pure ()
  | field :: rest => do
      let ptr ← surveyFieldPtr self field.index
      surveyStore (.value field.type) ptr
      surveyStoreFields self rest

/-- The generated `__init__`, after which the builder is back where it was. -/
def surveyAutoInit (className : String) (layout : Layout) : Check Unit := do
  let fields := dataFields layout
  let selfPtrType := LType.ptr (.struct className)
  let funcName := s!"{className}___init__"
  let saved ← Comp.reads (·.place)
  let func ← surveyEnter funcName .void (selfPtrType :: fields.map (·.type))
  surveyGlobal funcName func
  let slot ← surveyAddress selfPtrType
  surveyStore (.value selfPtrType) slot
  let self ← surveyLoad slot
  let refIndex ← fieldIndex layout "__ref_count__"
  surveyStoreField self refIndex (.value .i32)
  surveyStoreFields self fields
  closeWith (· = .void)
  Comp.modify fun survey => { survey with place := saved }

def surveyDeclareClass (className : String) (body : List Node) : Check Unit := do
  surveyIdentify className
  let fields ← surveyFields 1 body
  let layout := (refCountField :: fields).foldl Layout.insert []
  surveyStruct className (refCountField.type :: fields.map (·.type))
  surveyClass className layout
  if hasInit body then pure () else surveyAutoInit className layout

def surveyClassDef (className : String) (body : List Node)
    (methods : Check Unit) : Check Kind := do
  surveyDeclareClass className body
  methods
  pure .none

def surveySignature (name : String) : Check CSignature := do
  let ptr ← find (·.types) "__ptr__"
  let int ← find (·.types) "int"
  if name = "printf" then pure { ret := .i32, params := [ptr], varArg := true }
  else if name = "atoi" then pure { ret := int, params := [ptr], varArg := false }
  else if name = "strlen" then
    pure { ret := int, params := [ptr], varArg := false }
  else if name = "free" then
    pure { ret := .void, params := [ptr], varArg := false }
  else Comp.fail ()

def surveyDeclare (name : String) (signature : CSignature) : Check Kind := do
  surveyUse name
  pure (functionKind signature.ret signature.params signature.varArg)

def surveyImports : List (String × Option String) → Check Unit
  | [] => pure ()
  | (name, _) :: rest => do
      match ← Comp.reads fun survey => survey.globals name with
      | some _ => surveyImports rest
      | none => do
          let signature ← surveySignature name
          let kind ← surveyDeclare name signature
          surveyGlobal name kind
          surveyImports rest

def surveyImportFrom (module : Option String)
    (names : List (String × Option String)) : Check Kind :=
  if module = some "C" then do
    surveyImports names
    pure .none
  else Comp.fail ()

def surveyNone (children : Check Unit) : Check Kind := do
  children
  pure .none

/-! ### The recursion over the tree -/

mutual

def surveyNode : Node → Check Kind
  | .name id => surveyName id
  | .constant value => surveyConstant value
  | .binOp left op right => surveyBinOp (surveyNode left) op (surveyNode right)
  | .unaryOp op operand => surveyUnaryOp op (surveyNode operand)
  | .compare left [(op, comparator)] =>
      surveyCompare (surveyNode left) op (surveyNode comparator)
  | .compare _ _ => Comp.fail ()
  | .call func args _ => surveyCall (surveyNode func) (surveyArgs args)
  | .attribute value attr => surveyAttribute (surveyNode value) attr
  | .subscript value slice => surveySubscript (surveyNode value) (surveyNode slice)
  | .sliced _ _ => Comp.fail ()
  | .return_ (some value) => surveyReturn (some (surveyNode value))
  | .return_ none => surveyReturn none
  | .assign (.subscript target slice) _ value =>
      surveyAssignSubscript (surveyNode target) (surveyNode slice) (surveyNode value)
  | .assign (.name varName) _ value => surveyAssignName varName (surveyNode value)
  | .assign _ _ _ => Comp.fail ()
  | .annAssign target annotation (some value) =>
      surveyAnnAssign target annotation (some (surveyNode value))
  | .annAssign target annotation none => surveyAnnAssign target annotation none
  | .ifStmt test body [] => surveyIf (surveyNode test) (surveyBody body) none
  | .ifStmt test body orelse =>
      surveyIf (surveyNode test) (surveyBody body) (some (surveyBody orelse))
  | .whileStmt test body _ => surveyWhile (surveyNode test) (surveyBody body)
  | .expr value => do
      let _ ← surveyNode value
      pure .none
  | .pass => pure .none
  | .functionDef name args returns body _ =>
      surveyFunctionDef none name args returns (surveyBody body)
  | .classDef name body _ => surveyClassDef name body (surveyMethods name body)
  | .importFrom module names _ => surveyImportFrom module names
  | .other _ children => surveyNone (surveyBody children)

def surveyBody : List Node → Check Unit
  | [] => pure ()
  | stmt :: rest => do
      let _ ← surveyNode stmt
      surveyBody rest

def surveyArgs : List Node → Check (List Kind)
  | [] => pure []
  | arg :: rest => do
      let kind ← surveyNode arg
      let kinds ← surveyArgs rest
      pure (kind :: kinds)

def surveyMethods (className : String) : List Node → Check Unit
  | [] => pure ()
  | .functionDef name args returns body _ :: rest => do
      let _ ← surveyFunctionDef (some className) name args returns (surveyBody body)
      surveyMethods className rest
  | _ :: rest => surveyMethods className rest

end

/-! ### The module and its entry functions -/

def surveyTopLevel (stmt : Node) : Check Unit :=
  if isMainBlock stmt then pure ()
  else
    match stmt with
    | .functionDef name args returns body dropped =>
        if name = "handle" then
          Comp.modify fun survey =>
            { survey with handleNode := some { name, args, returns, body } }
        else do
          let _ ← surveyNode (.functionDef name args returns body dropped)
          pure ()
    | .annAssign .. | .assign .. | .expr _ =>
        Comp.modify fun survey =>
          { survey with initStmts := survey.initStmts ++ [stmt] }
    | _ => do
        let _ ← surveyNode stmt
        pure ()

def surveyModule : List Node → Check Unit
  | [] => pure ()
  | stmt :: rest => do
      surveyTopLevel stmt
      surveyModule rest

structure JsonKinds where
  getStr : Kind
  getInt : Kind
  open_ : Kind
  writeStr : Kind
  writeInt : Kind
  close : Kind

def surveyJson (i8Ptr i64 : LType) : Check JsonKinds := do
  let declare (name : String) (ret : LType) (params : List LType) : Check Kind :=
    surveyDeclare name { ret, params, varArg := false }
  let getStr ← declare "json_get_str" i8Ptr [i8Ptr, i64, i8Ptr, i64, .ptr i64]
  let getInt ← declare "json_get_int" i64 [i8Ptr, i64, i8Ptr, i64]
  let open_ ← declare "json_open" i64 [i8Ptr, i64]
  let writeStr ← declare "json_write_str" i64
    [i8Ptr, i64, i8Ptr, i64, i8Ptr, i64]
  let writeInt ← declare "json_write_int" i64 [i8Ptr, i64, i8Ptr, i64, i64]
  let close ← declare "json_close" i64 [i8Ptr, i64]
  pure { getStr, getInt, open_, writeStr, writeInt, close }

/-- An `EntryContext` without the operands. -/
structure EntryKinds where
  i64 : LType
  eventPtr : Kind
  eventLen : Kind
  responsePtr : Kind
  json : JsonKinds

def surveyKey : Check Kind := surveyText fun counter => s!".key.{counter}"

def surveyDecodeStr (context : EntryKinds) (keyPtr keyLen fieldPtr : Kind) :
    Check Unit := do
  let outLen ← surveyAddress context.i64
  let data ← surveyCallee context.json.getStr
    [context.eventPtr, context.eventLen, keyPtr, keyLen, outLen]
  let len ← surveyLoad outLen
  let strPtrType ← find (·.types) "str"
  let strStruct ← surveyAlloc strPtrType context.i64
  let layout ← find (·.layouts) "str"
  let refIdx ← fieldIndex layout "__ref_count__"
  surveyStoreField strStruct refIdx (.value .i32)
  let lenIdx ← fieldIndex layout "len"
  surveyStoreField strStruct lenIdx len
  let bufIdx ← fieldIndex layout "buffer"
  surveyStoreField strStruct bufIdx data
  surveyStore strStruct fieldPtr

def surveyDecodeInt (context : EntryKinds) (keyPtr keyLen fieldPtr : Kind) :
    Check Unit := do
  let value ← surveyCallee context.json.getInt
    [context.eventPtr, context.eventLen, keyPtr, keyLen]
  surveyStore value fieldPtr

def surveyDecodeField (context : EntryKinds) (eventStruct : Kind)
    (field : LayoutField) : Check Unit := do
  let keyPtr ← surveyKey
  let keyLen ← surveyConst context.i64
  let ptr ← surveyFieldPtr eventStruct field.index
  if isStrType field.type then surveyDecodeStr context keyPtr keyLen ptr
  else if field.type = context.i64 then surveyDecodeInt context keyPtr keyLen ptr
  else Comp.fail ()

def surveyDecode (context : EntryKinds) (eventStruct : Kind) :
    List LayoutField → Check Unit
  | [] => pure ()
  | field :: rest => do
      surveyDecodeField context eventStruct field
      surveyDecode context eventStruct rest

def surveyEncodeField (context : EntryKinds) (responseStruct pos : Kind)
    (field : LayoutField) : Check Kind := do
  let keyPtr ← surveyKey
  let keyLen ← surveyConst context.i64
  if isStrType field.type then do
    let strFieldPtr ← surveyFieldPtr responseStruct field.index
    let strStruct ← surveyLoad strFieldPtr
    let layout ← find (·.layouts) "str"
    let bufIdx ← fieldIndex layout "buffer"
    let bufPtr ← surveyFieldPtr strStruct bufIdx
    let bufVal ← surveyLoad bufPtr
    let lenIdx ← fieldIndex layout "len"
    let lenPtr ← surveyFieldPtr strStruct lenIdx
    let lenVal ← surveyLoad lenPtr
    surveyCallee context.json.writeStr
      [context.responsePtr, pos, keyPtr, keyLen, bufVal, lenVal]
  else if field.type = context.i64 then do
    let intFieldPtr ← surveyFieldPtr responseStruct field.index
    let intVal ← surveyLoad intFieldPtr
    surveyCallee context.json.writeInt
      [context.responsePtr, pos, keyPtr, keyLen, intVal]
  else Comp.fail ()

def surveyEncode (context : EntryKinds) (responseStruct : Kind) :
    Kind → List LayoutField → Check Kind
  | pos, [] => pure pos
  | pos, field :: rest => do
      let next ← surveyEncodeField context responseStruct pos field
      surveyEncode context responseStruct next rest

/-- `handle` has an event and a response class. -/
def surveyEntryTypes (node : FunctionNode) : Check (String × String) := do
  match node.args, node.returns with
  | (_, some annotation) :: _, some returns => do
      let eventType ← surveyTarget annotation
      let responseType ← surveyTarget returns
      pure (eventType, responseType)
  | _, _ => Comp.fail ()

def surveyInit : Check Unit := do
  let _ ← surveyBegin "lambpie_init" .void []
  surveyClearLocals
  let stmts ← Comp.reads (·.initStmts)
  surveyBody stmts
  closeIfOpen (· = .void)

/-- `lambpie_handle`, which returns a length. -/
def surveyHandle (i8Ptr i64 eventPtrType : LType) (json : JsonKinds)
    (eventLayout responseLayout : Layout) : Check Unit := do
  let _ ← surveyBegin "lambpie_handle" i64 [i8Ptr, i64, i8Ptr, i64]
  surveyClearLocals
  let context : EntryKinds := {
    i64
    eventPtr := .value i8Ptr
    eventLen := .value i64
    responsePtr := .value i8Ptr
    json }
  let eventStruct ← surveyAlloc eventPtrType i64
  surveyStoreField eventStruct 0 (.value .i32)
  surveyDecode context eventStruct (dataFields eventLayout)
  let userHandle ← find (·.globals) "handle"
  let responseStruct ← surveyCallee userHandle [eventStruct]
  let zero ← surveyConst i64
  let pos ← surveyCallee json.open_ [context.responsePtr, zero]
  let pos ← surveyEncode context responseStruct pos (dataFields responseLayout)
  let pos ← surveyCallee json.close [context.responsePtr, pos]
  closeWith pos.fitsReturn

def surveyEntry : Check Unit := do
  match ← Comp.reads (·.handleNode) with
  | none => Comp.fail ()
  | some node => do
      let (eventTypeName, responseTypeName) ← surveyEntryTypes node
      let eventLayout ← find (·.layouts) eventTypeName
      let responseLayout ← find (·.layouts) responseTypeName
      let eventPtrType ← find (·.types) eventTypeName
      let _ ← find (·.types) responseTypeName
      let i8Ptr ← find (·.types) "__ptr__"
      let i64 ← find (·.types) "int"
      let _ ← surveyFunctionDef none node.name node.args node.returns
        (surveyBody node.body)
      let json ← surveyJson i8Ptr i64
      surveyInit
      surveyHandle i8Ptr i64 eventPtrType json eventLayout responseLayout

def Survey.initial : Survey where
  toTables := CompilerState.initial.tables
  place := none
  tidy := true
  typed := true

def survey (tree : List Node) : Option Survey :=
  match (do surveyModule tree; surveyEntry : Check Unit) Survey.initial with
  | .ok (_, result) => some result
  | .error _ => none

/-- No statement that needs an instruction follows the end of its block, and no
function is defined where a block is still open. -/
def IsTidy (tree : List Node) : Prop := (survey tree).any (·.tidy) = true

/-- What is returned has the type the function declares, and what is branched
on is a truth value. -/
def IsTyped (tree : List Node) : Prop := (survey tree).any (·.typed) = true

end Lambpie.Compiler
