/-
The operands of an accepted module.

The entry functions pass on what their parameters and the declared codec
functions are, so that nothing in the module refers to what is not there.
-/
import Lambpie.Compiler.OperandVisits
import Lambpie.Compiler.Dropped

namespace Lambpie.Compiler

open Foundations
open Foundations.Comp

variable {least most : TableSizes}

structure JsonFunctions.Within (sizes : TableSizes) (json : JsonFunctions) : Prop where
  getStr : json.getStr.Within sizes
  getInt : json.getInt.Within sizes
  open_ : json.open_.Within sizes
  writeStr : json.writeStr.Within sizes
  writeInt : json.writeInt.Within sizes
  close : json.close.Within sizes

theorem JsonFunctions.Within.mono {json : JsonFunctions} (within : json.Within least)
    (more : least ≤ most) : json.Within most where
  getStr := within.getStr.mono more
  getInt := within.getInt.mono more
  open_ := within.open_.mono more
  writeStr := within.writeStr.mono more
  writeInt := within.writeInt.mono more
  close := within.close.mono more

private theorem yields_declare (name : String) (ret : LType) (params : List LType) :
    YieldsVal least (declare name ret params) := by
  have added : YieldsValue least (addFunction name ret params false) := by
    intro state value state' before run
    obtain ⟨-, rfl, rfl⟩ := addFunction_ok_iff.mp run
    refine ⟨?_, before.declare _⟩
    change state.module.functions.length < (state.module.functions ++ [_]).length
    simp
  exact added.toVal

private theorem yields_declareJson (i8Ptr i64 : LType) :
    Yields (fun sizes json => json.Within sizes) least (declareJson i8Ptr i64) := by
  refine (yields_declare _ _ _).bind fun getStr _ _ k₁ => ?_
  refine (yields_declare _ _ _).bind fun getInt _ g₁ k₂ => ?_
  refine (yields_declare _ _ _).bind fun open_ _ g₂ k₃ => ?_
  refine (yields_declare _ _ _).bind fun writeStr _ g₃ k₄ => ?_
  refine (yields_declare _ _ _).bind fun writeInt _ g₄ k₅ => ?_
  refine (yields_declare _ _ _).bind fun close last g₅ k₆ => ?_
  have within : JsonFunctions.Within last { getStr, getInt, open_, writeStr, writeInt, close } :=
    ⟨k₁.mono (g₁.trans (g₂.trans (g₃.trans (g₄.trans g₅)))),
      k₂.mono (g₂.trans (g₃.trans (g₄.trans g₅))), k₃.mono (g₃.trans (g₄.trans g₅)),
      k₄.mono (g₄.trans g₅), k₅.mono g₅, k₆⟩
  exact .pure within fun _ more known => known.mono more

private theorem yields_keyGlobal (name : String) : YieldsValue least (keyGlobal name) :=
  yields_nextName.bind fun _ _ _ _ => yields_addGlobal _ _ _ _

structure EntryContext.Within (sizes : TableSizes) (context : EntryContext) : Prop where
  eventPtr : context.eventPtr.Within sizes
  eventLen : context.eventLen.Within sizes
  responsePtr : context.responsePtr.Within sizes
  json : context.json.Within sizes

theorem EntryContext.Within.mono {context : EntryContext} (within : context.Within least)
    (more : least ≤ most) : context.Within most where
  eventPtr := within.eventPtr.mono more
  eventLen := within.eventLen.mono more
  responsePtr := within.responsePtr.mono more
  json := within.json.mono more

private theorem yields_lengthConst (context : EntryContext) (number : Nat) :
    YieldsVal least (lengthConst context number) :=
  (yields_of_ensures (keeps_constant _ _)).bind fun const _ _ same => by
    rw [same]
    exact yields_val (within_int _ _)

private theorem within_args {args : List PyVal} (within : args.Forall (·.Within least)) :
    ∀ arg ∈ args, arg.Within least := List.forall_iff_forall_mem.mp within

section

variable {context : EntryContext}

private theorem yields_decodeStr {keyPtr fieldPtr : Value} {keyLen : PyVal}
    (within : context.Within least) (withinKey : keyPtr.operand.Within least)
    (withinLen : keyLen.Within least) (withinField : fieldPtr.operand.Within least) :
    YieldsUnit least (decodeStr context keyPtr keyLen fieldPtr) := by
  refine (yields_alloca _).bind fun outLen m₁ g₁ knownOut => ?_
  have called : YieldsValue m₁ (call context.json.getStr
      [context.eventPtr, context.eventLen, .value keyPtr, keyLen, .value outLen]) :=
    yields_call (within.json.getStr.mono g₁) (within_args ⟨within.eventPtr.mono g₁,
      within.eventLen.mono g₁, within_value.mpr (withinKey.mono g₁), withinLen.mono g₁,
      within_value.mpr knownOut⟩)
  refine called.bind fun data m₂ g₂ knownData => ?_
  refine (yields_load (within_value.mpr (knownOut.mono g₂))).bind fun len m₃ g₃ knownLen => ?_
  refine (yields_of_keeps (keeps_lookup_only _ _)).bind fun strPtrType m₄ g₄ _ => ?_
  refine (yields_allocStruct _ _ _).bind fun str m₅ g₅ knownStr => ?_
  refine (yields_of_keeps (keeps_lookup_only _ _)).bind fun layout m₆ g₆ _ => ?_
  refine (yields_of_keeps (keeps_layoutIndex _ _)).bind fun refIdx m₇ g₇ _ => ?_
  have knownStr := knownStr.mono (g₆.trans g₇)
  refine (yields_storeField knownStr (within_int _ _) refIdx).bind fun _ m₈ g₈ _ => ?_
  refine (yields_of_keeps (keeps_layoutIndex _ _)).bind fun lenIdx m₉ g₉ _ => ?_
  have knownStr := knownStr.mono (g₈.trans g₉)
  have upToLen := g₄.trans (g₅.trans (g₆.trans (g₇.trans (g₈.trans g₉))))
  refine (yields_storeField knownStr (within_value.mpr (knownLen.mono upToLen)) lenIdx).bind
    fun _ m₁₀ g₁₀ _ => ?_
  refine (yields_of_keeps (keeps_layoutIndex _ _)).bind fun bufIdx m₁₁ g₁₁ _ => ?_
  have knownStr := knownStr.mono (g₁₀.trans g₁₁)
  have upToData := g₃.trans (upToLen.trans (g₁₀.trans g₁₁))
  refine (yields_storeField knownStr (within_value.mpr (knownData.mono upToData)) bufIdx).bind
    fun _ m₁₂ g₁₂ _ => ?_
  have upToField := g₁.trans (g₂.trans (upToData.trans g₁₂))
  exact yields_store (within_value.mpr (knownStr.mono g₁₂))
    (within_value.mpr (withinField.mono upToField))

private theorem yields_decodeInt {keyPtr fieldPtr : Value} {keyLen : PyVal}
    (within : context.Within least) (withinKey : keyPtr.operand.Within least)
    (withinLen : keyLen.Within least) (withinField : fieldPtr.operand.Within least) :
    YieldsUnit least (decodeInt context keyPtr keyLen fieldPtr) := by
  have called : YieldsValue least (call context.json.getInt
      [context.eventPtr, context.eventLen, .value keyPtr, keyLen]) :=
    yields_call within.json.getInt (within_args ⟨within.eventPtr, within.eventLen,
      within_value.mpr withinKey, withinLen⟩)
  exact called.bind fun value _ grown known =>
    yields_store (within_value.mpr known) (within_value.mpr (withinField.mono grown))

private theorem yields_decodeFields {eventStruct : Value} (fields : List LayoutField)
    (within : context.Within least) (withinEvent : eventStruct.operand.Within least) :
    YieldsUnit least (decodeFields context eventStruct fields) := by
  induction fields generalizing least with
  | nil => exact yields_unit
  | cons field rest ih =>
      have decoded : YieldsUnit least (decodeField context eventStruct field) := by
        refine (yields_keyGlobal field.name).bind fun keyPtr m₁ g₁ knownKey => ?_
        refine (yields_lengthConst context _).bind fun keyLen m₂ g₂ knownLen => ?_
        have withinEvent := withinEvent.mono (g₁.trans g₂)
        refine (yields_fieldPtr (within_value.mpr withinEvent) _).bind fun ptr m₃ g₃ knownPtr => ?_
        have within := within.mono (g₁.trans (g₂.trans g₃))
        have knownKey := knownKey.mono (g₂.trans g₃)
        have knownLen := knownLen.mono g₃
        split
        · exact yields_decodeStr within knownKey knownLen knownPtr
        split
        · exact yields_decodeInt within knownKey knownLen knownPtr
        · exact .fail _
      exact decoded.bind fun _ _ grown _ => ih (within.mono grown) (withinEvent.mono grown)

private theorem yields_encodeFields {responseStruct : Value} {pos : PyVal}
    (fields : List LayoutField)
    (within : context.Within least) (withinResponse : responseStruct.operand.Within least)
    (withinPos : pos.Within least) :
    YieldsVal least (encodeFields context responseStruct pos fields) := by
  induction fields generalizing least pos with
  | nil => exact yields_val withinPos
  | cons field rest ih =>
      have encoded : YieldsVal least (encodeField context responseStruct pos field) := by
        refine (yields_keyGlobal field.name).bind fun keyPtr m₁ g₁ knownKey => ?_
        refine (yields_lengthConst context _).bind fun keyLen m₂ g₂ knownLen => ?_
        have within := within.mono (g₁.trans g₂)
        have withinPos := withinPos.mono (g₁.trans g₂)
        have withinResponse := withinResponse.mono (g₁.trans g₂)
        have knownKey := knownKey.mono g₂
        split
        · refine (yields_fieldPtr (within_value.mpr withinResponse) _).bind fun _ m₃ g₃ k₃ => ?_
          refine (yields_load (within_value.mpr k₃)).bind fun str m₄ g₄ knownStr => ?_
          refine (yields_of_keeps (keeps_lookup_only _ _)).bind fun layout m₅ g₅ _ => ?_
          refine (yields_of_keeps (keeps_layoutIndex _ _)).bind fun bufIdx m₆ g₆ _ => ?_
          have knownStr := knownStr.mono (g₅.trans g₆)
          refine (yields_fieldPtr (within_value.mpr knownStr) _).bind fun _ m₇ g₇ k₇ => ?_
          refine (yields_load (within_value.mpr k₇)).bind fun bufVal m₈ g₈ knownBuf => ?_
          refine (yields_of_keeps (keeps_layoutIndex _ _)).bind fun lenIdx m₉ g₉ _ => ?_
          have knownStr := knownStr.mono (g₇.trans (g₈.trans g₉))
          refine (yields_fieldPtr (within_value.mpr knownStr) _).bind fun _ m₁₀ g₁₀ k₁₀ => ?_
          refine (yields_load (within_value.mpr k₁₀)).bind fun lenVal m₁₁ g₁₁ knownLenVal => ?_
          have upToBuf := g₉.trans (g₁₀.trans g₁₁)
          have all := g₃.trans (g₄.trans (g₅.trans (g₆.trans (g₇.trans (g₈.trans upToBuf)))))
          have called : YieldsValue m₁₁ (call context.json.writeStr
              [context.responsePtr, pos, .value keyPtr, keyLen, .value bufVal, .value lenVal]) :=
            yields_call (within.mono all).json.writeStr (within_args
              ⟨(within.mono all).responsePtr, withinPos.mono all,
                within_value.mpr (knownKey.mono all), knownLen.mono all,
                within_value.mpr (knownBuf.mono upToBuf), within_value.mpr knownLenVal⟩)
          exact called.toVal
        split
        · refine (yields_fieldPtr (within_value.mpr withinResponse) _).bind fun _ m₃ g₃ k₃ => ?_
          refine (yields_load (within_value.mpr k₃)).bind fun intVal m₄ g₄ knownInt => ?_
          have all := g₃.trans g₄
          have called : YieldsValue m₄ (call context.json.writeInt
              [context.responsePtr, pos, .value keyPtr, keyLen, .value intVal]) :=
            yields_call (within.mono all).json.writeInt (within_args
              ⟨(within.mono all).responsePtr, withinPos.mono all,
                within_value.mpr (knownKey.mono all), knownLen.mono all,
                within_value.mpr knownInt⟩)
          exact called.toVal
        · exact .fail _
      exact encoded.bind fun next _ grown known =>
        ih (within.mono grown) (withinResponse.mono grown) known

end

theorem Referring.begin {state : CompilerState} (referring : Referring least state)
    (func : Function) : Referring least (state.begin func) :=
  ((referring.declare func).appendBlock _).update _ rfl (le_refl _) rfl rfl

private theorem yields_opened {next : Visit Unit} (name : String) (ret : LType)
    (params : List LType)
    (tag : ArenaTag) (yields : ∀ more, least ≤ more → YieldsUnit more next) :
    YieldsUnit least (do
      let _ ← beginFunction name ret params
      clearLocals
      Comp.modify fun state => { state with currentArena := tag }
      next) := by
  have begun : Keeps (Referring least) (beginFunction name ret params) := by
    intro state value state' before run
    obtain ⟨-, -, rfl⟩ := beginFunction_ok_iff.mp run
    exact before.begin _
  refine (yields_of_keeps begun).bind fun _ m₁ g₁ _ => ?_
  have cleared : Keeps (Referring m₁) clearLocals :=
    .modify fun _ before => before.clearLocals
  refine (yields_of_keeps cleared).bind fun _ m₂ g₂ _ => ?_
  have tagged : Keeps (Referring m₂)
      (Comp.modify fun state => { state with currentArena := tag } : Visit Unit) :=
    keeps_referring _ fun _ => ⟨rfl, le_refl _, rfl, rfl⟩
  exact (yields_of_keeps tagged).bind fun _ m₃ g₃ _ => yields m₃ (g₁.trans (g₂.trans g₃))

private theorem yields_synthesizeInit : YieldsUnit least synthesizeInit := by
  apply yields_opened
  intro more _
  refine (yields_of_keeps (keeps_reads _)).bind fun stmts m₁ _ _ => ?_
  refine (yields_visitBody stmts m₁).bind fun _ m₂ _ _ => ?_
  refine (yields_of_keeps keeps_isTerminated).bind fun terminated m₃ _ _ => ?_
  cases terminated with
  | true => exact yields_unit
  | false => exact yields_terminate fun _ member => (List.not_mem_nil member).elim

private theorem yields_synthesizeHandle (i8Ptr i64 eventPtrType : LType) {json : JsonFunctions}
    (eventLayout responseLayout : Layout) (within : json.Within least) :
    YieldsUnit least
      (synthesizeHandle i8Ptr i64 eventPtrType json eventLayout responseLayout) := by
  apply yields_opened
  intro more grown
  have withinContext : EntryContext.Within more
      { i64
        eventPtr := .value { type := i8Ptr, operand := .arg 0 }
        eventLen := .value { type := i64, operand := .arg 1 }
        responsePtr := .value { type := i8Ptr, operand := .arg 2 }
        json } :=
    ⟨within_arg _ _, within_arg _ _, within_arg _ _, within.mono grown⟩
  dsimp only
  refine (yields_allocStruct _ _ _).bind fun event m₁ g₁ knownEvent => ?_
  refine (yields_storeField knownEvent (within_int _ _) 0).bind fun _ m₂ g₂ _ => ?_
  refine (yields_decodeFields _ (withinContext.mono (g₁.trans g₂)) (knownEvent.mono g₂)).bind
    fun _ m₃ g₃ _ => ?_
  refine (yields_lookup_global "handle").bind fun userHandle m₄ g₄ knownHandle => ?_
  have knownEvent := knownEvent.mono (g₂.trans (g₃.trans g₄))
  have called : YieldsValue m₄ (call userHandle [.value event]) :=
    yields_call knownHandle (within_args (within_value.mpr knownEvent))
  refine called.bind fun response m₅ g₅ knownResponse => ?_
  refine (yields_lengthConst _ 0).bind fun zero m₆ g₆ knownZero => ?_
  have all := g₁.trans (g₂.trans (g₃.trans (g₄.trans (g₅.trans g₆))))
  have withinContext := withinContext.mono all
  have opened : YieldsValue m₆
      (call json.open_ [.value { type := i8Ptr, operand := .arg 2 }, zero]) :=
    yields_call withinContext.json.open_ (within_args ⟨withinContext.responsePtr, knownZero⟩)
  refine opened.bind fun pos m₇ g₇ knownPos => ?_
  refine (yields_encodeFields _ (withinContext.mono g₇) (knownResponse.mono (g₆.trans g₇))
    (within_value.mpr knownPos)).bind fun pos m₈ g₈ knownPos => ?_
  have withinContext := withinContext.mono (g₇.trans g₈)
  have closed : YieldsValue m₈
      (call json.close [.value { type := i8Ptr, operand := .arg 2 }, pos]) :=
    yields_call withinContext.json.close (within_args ⟨withinContext.responsePtr, knownPos⟩)
  exact closed.bind fun pos _ _ knownPos => yields_ret (within_value.mpr knownPos)

private theorem yields_synthesizeLambdaEntry : YieldsUnit least synthesizeLambdaEntry := by
  refine (yields_of_keeps (keeps_reads _)).bind fun found _ _ _ => ?_
  cases found with
  | none => exact .fail _
  | some node =>
      refine (yields_of_keeps (keeps_entryTypes node)).bind fun types _ _ _ => ?_
      refine (yields_of_keeps (keeps_entryLayout _ _)).bind fun eventLayout _ _ _ => ?_
      refine (yields_of_keeps (keeps_entryLayout _ _)).bind fun responseLayout _ _ _ => ?_
      refine (yields_of_keeps (keeps_lookup_only _ _)).bind fun eventPtrType _ _ _ => ?_
      refine (yields_of_keeps (keeps_lookup_only _ _)).bind fun _ _ _ _ => ?_
      refine (yields_of_keeps (keeps_lookup_only _ _)).bind fun i8Ptr _ _ _ => ?_
      refine (yields_of_keeps (keeps_lookup_only _ _)).bind fun i64 _ _ _ => ?_
      refine (yields_visitFunctionDef _ _ (yields_visitBody node.body)).bind fun _ _ _ _ => ?_
      refine (yields_declareJson i8Ptr i64).bind fun json _ _ within => ?_
      refine yields_synthesizeInit.bind fun _ _ grown _ => ?_
      exact yields_synthesizeHandle _ _ _ _ _ (within.mono grown)

private theorem yields_visitTopLevel (stmt : Node) : YieldsUnit least (visitTopLevel stmt) := by
  have visited : YieldsUnit least (do
      let _ ← visit stmt
      pure () : Visit Unit) :=
    (yields_visit stmt least).bind fun _ _ _ _ => yields_unit
  have kept (change : CompilerState → CompilerState)
      (same : ∀ state, (change state).module = state.module ∧
        (change state).localScope = state.localScope ∧
        (change state).globalScope = state.globalScope) :
      YieldsUnit least (Comp.modify change : Visit Unit) := by
    apply yields_of_keeps
    apply keeps_referring
    intro state
    obtain ⟨module, locals, globals⟩ := same state
    exact ⟨by rw [module], by rw [module], locals, globals⟩
  unfold visitTopLevel
  split
  · exact yields_unit
  · cases stmt with
    | functionDef name args returns body dropped =>
        dsimp only
        split
        · exact kept _ fun _ => ⟨rfl, rfl, rfl⟩
        · exact visited
    | annAssign | assign | expr => exact kept _ fun _ => ⟨rfl, rfl, rfl⟩
    | _ => exact visited

private theorem yields_visitModule (tree : List Node) : YieldsUnit least (visitModule tree) := by
  induction tree generalizing least with
  | nil => exact yields_unit
  | cons stmt rest ih => exact (yields_visitTopLevel stmt).bind fun _ _ _ _ => ih

private theorem referring_initial :
    Referring CompilerState.initial.module.sizes CompilerState.initial where
  least := le_refl _
  code _ _ found := nomatch found
  locals _ _ bound := nomatch bound
  globals name val bound := by
    simp only [CompilerState.initial, Scope.set, Scope.empty, functionValue] at bound
    split_ifs at bound <;> cases bound <;> exact within_value.mpr (by decide)

/-- `while n < 1: n = double(n)`, and a bytes literal. -/
def doublingProgram : List Node :=
  programWith [doubleFunction]
    [loop [.assign nameN [] (.call (.name "double") [nameN] [])] [],
      .expr (.constant (.bytes [0x6F, 0x6B]))]

end Lambpie.Compiler
