/-
The survey agrees with the compiler.

A step of the survey succeeds where the step of the compiler does, and then
describes the tables, the blocks and the code that the compiler has.
-/
import Lambpie.Compiler.ControlFlow
import Lambpie.Compiler.Definitions
import Lambpie.Compiler.SurveyProgram
import Lambpie.Foundations.Lockstep

namespace Lambpie.Compiler

open Foundations
open Foundations.Comp

def Module.rets (module : Module) : List LType := module.functions.map (·.ret)

@[simp] theorem rets_appendBlock (state : CompilerState) (index : Nat) :
    (state.appendBlock index).module.rets = state.module.rets :=
  map_modify (·.ret) _ _ _ fun _ => rfl

@[simp] theorem rets_addFunction (state : CompilerState) (func : Function) :
    (state.addFunction func).module.rets = state.module.rets ++ [func.ret] := by
  simp [Module.rets, CompilerState.addFunction]

@[simp] theorem rets_begin (state : CompilerState) (func : Function) :
    (state.begin func).module.rets = state.module.rets ++ [func.ret] := by
  unfold CompilerState.begin
  exact (rets_appendBlock _ _).trans (rets_addFunction state func)

theorem length_rets (module : Module) : module.rets.length = module.functions.length :=
  List.length_map _

theorem tables_appendBlock (state : CompilerState) (index : Nat) :
    (state.appendBlock index).tables = state.tables := by
  have names : (state.appendBlock index).module.nameUsed = state.module.nameUsed :=
    funext (nameUsed_appendBlock state index)
  unfold CompilerState.tables
  rw [names]
  rfl

inductive Standing (pending : List LiveBlock) (rets : List LType) (blockCount : Nat)
    (code : List Emitted) (tidy typed : Bool) : Option Label → Option Place → Prop
  | nowhere (facts : CodeFacts pending rets blockCount code tidy typed) :
      Standing pending rets blockCount code tidy typed none none
  | ended {label : Label} {ret : LType} {last : Emitted} (member : last ∈ code)
      (inBlock : last.block = label) (terminates : last.instr.isTerminator = true)
      (known : rets[label.func]? = some ret)
      (facts : CodeFacts pending rets blockCount code tidy typed) :
      Standing pending rets blockCount code tidy typed (some label)
        (some { ret, isOpen := false })
  | continued {label : Label} {ret : LType}
      (facts : CodeFacts ((label, ret) :: pending) rets blockCount code tidy typed) :
      Standing pending rets blockCount code tidy typed (some label)
        (some { ret, isOpen := true })

namespace Standing

variable {pending : List LiveBlock} {rets : List LType} {blockCount : Nat}
  {code : List Emitted} {tidy typed : Bool} {builder : Option Label}
  {place : Option Place} {label : Label} {ret : LType} {instr : Instr}

theorem append (stands : Standing pending rets blockCount code tidy typed builder place)
    (standing : builder = some label) (inBlock : instr.isTerminator = false) :
    Standing pending rets blockCount (code ++ [{ block := label, instr }])
      (tidy && place.all (·.isOpen)) typed builder place := by
  cases stands with
  | nowhere facts => cases standing
  | ended member atLabel terminates known facts =>
      cases standing
      have bound := (facts.bounds _ member).1
      rw [atLabel] at bound
      have apart : ∀ item ∈ pending, label.index ≠ item.1.index := by
        intro item isPending same
        have unfinished := facts.unfinished item isPending _ member
          (by rw [atLabel, same])
        rw [terminates] at unfinished
        cases unfinished.2
      refine .ended (List.mem_append_left _ member) atLabel terminates known ?_
      have appended := facts.appendDead inBlock bound known apart
      simpa using appended
  | continued facts =>
      cases standing
      exact .continued (by simpa using facts.appendLive inBlock)

theorem terminate
    (stands : Standing pending rets blockCount code tidy typed builder place)
    (standing : builder = some label) (isPlace : place = some { ret, isOpen := true })
    (terminates : instr.isTerminator = true) :
    Standing pending rets blockCount (code ++ [{ block := label, instr }]) tidy
      (typed && instr.fits ret) builder (some { ret, isOpen := false }) := by
  subst standing isPlace
  cases stands with
  | continued facts =>
      exact .ended (List.mem_append_right _ List.mem_cons_self) rfl terminates
        (facts.inside _ List.mem_cons_self).2 (facts.terminate terminates)

theorem facts_of_ended
    (stands : Standing pending rets blockCount code tidy typed builder place)
    (ended : ∀ ret, place ≠ some { ret, isOpen := true }) :
    CodeFacts pending rets blockCount code tidy typed := by
  cases stands with
  | nowhere facts => exact facts
  | ended _ _ _ _ facts => exact facts
  | continued facts => exact (ended _ rfl).elim

theorem appendBlock
    (stands : Standing pending rets blockCount code tidy typed builder place)
    (isNew : label.index = blockCount) (known : rets[label.func]? = some ret) :
    Standing ((label, ret) :: pending) rets (blockCount + 1) code tidy typed builder
      place := by
  cases stands with
  | nowhere facts => exact .nowhere (facts.appendBlock isNew known)
  | ended member atLabel terminates isRet facts =>
      exact .ended member atLabel terminates isRet (facts.appendBlock isNew known)
  | continued facts =>
      exact .continued ((facts.appendBlock isNew known).perm (List.Perm.swap _ _ _))

theorem perm {other : List LiveBlock}
    (stands : Standing pending rets blockCount code tidy typed builder place)
    (same : pending.Perm other) :
    Standing other rets blockCount code tidy typed builder place := by
  cases stands with
  | nowhere facts => exact .nowhere (facts.perm same)
  | ended member atLabel terminates known facts =>
      exact .ended member atLabel terminates known (facts.perm same)
  | continued facts => exact .continued (facts.perm (same.cons _))

theorem leave (stands : Standing pending rets blockCount code tidy typed builder place) :
    CodeFacts pending rets blockCount code (tidy && !place.any (·.isOpen)) typed := by
  cases stands with
  | nowhere facts => simpa using facts
  | ended _ _ _ _ facts => simpa using facts
  | continued facts => simpa using facts.abandon

theorem declare (stands : Standing pending rets blockCount code tidy typed builder place)
    (ret : LType) :
    Standing pending (rets ++ [ret]) blockCount code tidy typed builder place := by
  cases stands with
  | nowhere facts => exact .nowhere (facts.declare ret)
  | ended member atLabel terminates known facts =>
      refine .ended member atLabel terminates ?_ (facts.declare ret)
      rw [List.getElem?_append_left (List.getElem?_eq_some_iff.mp known).1]
      exact known
  | continued facts => exact .continued (facts.declare ret)

end Standing

/-- `pending` are the blocks that the visitors further out will continue. -/
def Agrees (pending : List LiveBlock) (state : CompilerState) (survey : Survey) : Prop :=
  (state.tables = survey.toTables ∧
    ∀ name, (survey.layouts name).isSome → (survey.types name).isSome) ∧
  Standing pending state.module.rets state.module.blockCount state.module.code
    survey.tidy survey.typed state.builder survey.place

/-- Agreement where the current block has its terminator. -/
def Ended (pending : List LiveBlock) (state : CompilerState) (survey : Survey) : Prop :=
  (∀ ret, survey.place ≠ some { ret, isOpen := true }) ∧ Agrees pending state survey

section

variable {pending : List LiveBlock} {state : CompilerState} {survey : Survey}

theorem Ended.agrees (ended : Ended pending state survey) :
    Agrees pending state survey := ended.2

theorem Agrees.types (agrees : Agrees pending state survey) :
    state.types = survey.types := congrArg Tables.types agrees.1.1

theorem Agrees.layouts (agrees : Agrees pending state survey) :
    state.classLayouts = survey.layouts := congrArg Tables.layouts agrees.1.1

theorem Agrees.structs (agrees : Agrees pending state survey) :
    state.module.structs = survey.structs := congrArg Tables.structs agrees.1.1

theorem Agrees.used (agrees : Agrees pending state survey) :
    state.module.nameUsed = survey.used := congrArg Tables.used agrees.1.1

theorem Agrees.counter (agrees : Agrees pending state survey) :
    state.nameCounter = survey.counter := congrArg Tables.counter agrees.1.1

theorem Agrees.global (agrees : Agrees pending state survey) (name : String) :
    (state.globalScope name).map PyVal.kind = survey.globals name :=
  congrFun (congrArg Tables.globals agrees.1.1) name

private theorem Agrees.local (agrees : Agrees pending state survey) (name : String) :
    (state.localScope name).map Value.kind = survey.locals name :=
  congrFun (congrArg Tables.locals agrees.1.1) name

theorem Agrees.struct? (agrees : Agrees pending state survey) (name : String) :
    state.module.struct? name = survey.structs.find? (·.name = name) := by
  rw [← agrees.structs]
  rfl

theorem Agrees.registered (agrees : Agrees pending state survey) (name : String)
    (laidOut : (state.classLayouts name).isSome) : (state.types name).isSome := by
  rw [agrees.layouts] at laidOut
  rw [agrees.types]
  exact agrees.1.2 name laidOut

theorem Agrees.perm {other : List LiveBlock} (agrees : Agrees pending state survey)
    (same : pending.Perm other) : Agrees other state survey :=
  ⟨agrees.1, agrees.2.perm same⟩

theorem Agrees.append {label : Label} {instr : Instr}
    (agrees : Agrees pending state survey) (standing : state.builder = some label)
    (inBlock : instr.isTerminator = false) :
    Agrees pending (state.append { block := label, instr }) survey.emit :=
  ⟨agrees.1, agrees.2.append standing inBlock⟩

end

/-- The survey succeeds where the visitor does, with what is read off its
result. -/
def Follows {α γ : Type} (read : α → γ) (visit : Visit α) (check : Check γ) : Prop :=
  ∀ pending, Tracks (Agrees pending) visit check fun result answer state survey =>
    read result = answer ∧ Agrees pending state survey

namespace Follows

variable {α β γ η : Type} {read : α → γ} {view : β → η} {visit : Visit α}
  {check : Check γ}

theorem pure {result : α} {answer : γ} (same : read result = answer) :
    Follows read (Pure.pure result : Visit α) (Pure.pure answer : Check γ) :=
  fun _ => .pure fun _ _ agrees => ⟨same, agrees⟩

theorem fail (error : PyErr) :
    Follows read (Comp.fail error : Visit α) (Comp.fail () : Check γ) :=
  fun _ => .fail error ()

theorem andThen {pending : List LiveBlock} {next : α → Visit β} {follow : γ → Check η}
    {post : β → η → CompilerState → Survey → Prop} (head : Follows read visit check)
    (tail : ∀ result,
      Tracks (Agrees pending) (next result) (follow (read result)) post) :
    Tracks (Agrees pending) (visit >>= next) (check >>= follow) post :=
  (head pending).bind fun result _ => .assume fun same => same ▸ tail result

theorem bind {next : α → Visit β} {follow : γ → Check η}
    (head : Follows read visit check)
    (tail : ∀ result, Follows view (next result) (follow (read result))) :
    Follows view (visit >>= next) (check >>= follow) :=
  fun pending => head.andThen fun result => tail result pending

/-- A step that the survey does not make. -/
theorem before {next : α → Visit β} {follow : Check η}
    (head : Follows (fun _ => PUnit.unit) visit (Pure.pure .unit))
    (tail : ∀ result, Follows view (next result) follow) :
    Follows view (visit >>= next) follow :=
  fun pending => .before ((head pending).weaken fun _ _ _ _ after => after.2)
    fun result => tail result pending

theorem result {pack : α → β} {view : β → γ} (follows : Follows read visit check)
    (same : ∀ value, view (pack value) = read value) :
    Follows view (visit >>= fun value => Pure.pure (pack value)) check :=
  fun pending => (follows pending).packs fun value _ _ _ after =>
    ⟨(same value).trans after.1, after.2⟩

theorem never (fails : Ensures (fun _ => True) visit fun _ _ => False) :
    Follows read visit (Comp.fail ()) :=
  fun _ => .never () fun _ => fails.strengthen fun _ _ => trivial

end Follows

section

variable {α γ : Type}

theorem follows_reads {read : CompilerState → α} {look : Survey → γ} (view : α → γ)
    (same : ∀ pending state survey, Agrees pending state survey →
      view (read state) = look survey) :
    Follows view (Comp.reads read) (Comp.reads look) :=
  fun pending => .reads fun state survey agrees =>
    ⟨same pending state survey agrees, agrees⟩

theorem follows_modify {change : CompilerState → CompilerState}
    {alter : Survey → Survey}
    (keeps : ∀ pending state survey, Agrees pending state survey →
      Agrees pending (change state) (alter survey)) :
    Follows id (Comp.modify change) (Comp.modify alter) :=
  fun pending => .modify fun state survey agrees =>
    ⟨rfl, keeps pending state survey agrees⟩

theorem follows_aside {change : CompilerState → CompilerState}
    (keeps : ∀ pending state survey, Agrees pending state survey →
      Agrees pending (change state) survey) :
    Follows (fun _ => PUnit.unit) (Comp.modify change) (pure .unit) :=
  fun pending state survey agrees => .both ⟨rfl, keeps pending state survey agrees⟩

theorem follows_looking (read : CompilerState → α) :
    Follows (fun _ => PUnit.unit) (Comp.reads read : Visit α) (pure .unit) :=
  fun _ _ _ agrees => .both ⟨rfl, agrees⟩

private theorem follows_option {read : CompilerState → Option α} {look : Survey → Option γ}
    (view : α → γ) {error : PyErr}
    (same : ∀ pending state survey, Agrees pending state survey →
      (read state).map view = look survey) :
    Follows view
      (do
        match ← Comp.reads read with
        | some value => pure value
        | none => Comp.fail error)
      (do found (← Comp.reads look)) := by
  refine (follows_reads (Option.map view) same).bind fun value => ?_
  cases value with
  | some value => exact .pure rfl
  | none => exact .fail error

theorem follows_type (key : String) :
    Follows id (lookup (·.types) key) (find (·.types) key) :=
  follows_option id fun _ _ _ agrees =>
    Option.map_id_apply.trans (congrFun agrees.types key)

theorem follows_types (key : String) :
    Follows id (Comp.reads fun state => state.types key : Visit _)
      (Comp.reads fun survey => survey.types key) :=
  follows_reads id fun _ _ _ agrees => congrFun agrees.types key

theorem follows_layout (key : String) :
    Follows id (lookup (·.classLayouts) key) (find (·.layouts) key) :=
  follows_option id fun _ _ _ agrees =>
    Option.map_id_apply.trans (congrFun agrees.layouts key)

theorem follows_function (key : String) :
    Follows PyVal.kind (lookup (·.globalScope) key) (find (·.globals) key) :=
  follows_option PyVal.kind fun _ _ _ agrees => agrees.global key

theorem follows_global (key : String) :
    Follows (Option.map PyVal.kind)
      (Comp.reads fun state => state.globalScope key : Visit _)
      (Comp.reads fun survey => survey.globals key) :=
  follows_reads _ fun _ _ _ agrees => agrees.global key

theorem follows_local (key : String) :
    Follows (Option.map Value.kind)
      (Comp.reads fun state => state.localScope key : Visit _)
      (Comp.reads fun survey => survey.locals key) :=
  follows_reads _ fun _ _ _ agrees => agrees.local key

theorem follows_layouts (key : String) :
    Follows id (Comp.reads fun state => state.classLayouts key : Visit _)
      (Comp.reads fun survey => survey.layouts key) :=
  follows_reads id fun _ _ _ agrees => congrFun agrees.layouts key

private theorem map_set (scope : Scope α) (key : String) (value : α) (read : α → γ) :
    (fun name => (scope.set key value name).map read) =
      Scope.set (fun name => (scope name).map read) key (read value) := by
  funext name
  unfold Scope.set
  split <;> rfl

theorem Agrees.setLocal {pending : List LiveBlock} {state : CompilerState}
    {survey : Survey} (agrees : Agrees pending state survey) (name : String)
    (alloc : Value) :
    Agrees pending { state with localScope := state.localScope.set name alloc }
      (survey.setLocal name alloc.kind) := by
  refine ⟨⟨?_, agrees.1.2⟩, agrees.2⟩
  unfold CompilerState.tables Survey.setLocal
  rw [map_set, ← agrees.1.1]
  rfl

theorem Agrees.setGlobal {pending : List LiveBlock} {state : CompilerState}
    {survey : Survey} (agrees : Agrees pending state survey) (name : String)
    (val : PyVal) :
    Agrees pending { state with globalScope := state.globalScope.set name val }
      (survey.setGlobal name val.kind) := by
  refine ⟨⟨?_, agrees.1.2⟩, agrees.2⟩
  unfold CompilerState.tables Survey.setGlobal
  rw [map_set, ← agrees.1.1]
  rfl

theorem follows_setLocal (name : String) (alloc : Value) :
    Follows id (setLocal name alloc) (surveyLocal name alloc.kind) :=
  follows_modify fun _ _ _ agrees => agrees.setLocal name alloc

theorem follows_setGlobal (name : String) (val : PyVal) :
    Follows id (setGlobal name val) (surveyGlobal name val.kind) :=
  follows_modify fun _ _ _ agrees => agrees.setGlobal name val

theorem follows_clearLocals : Follows id clearLocals surveyClearLocals := by
  refine follows_modify fun _ state survey agrees => ⟨⟨?_, agrees.1.2⟩, agrees.2⟩
  have same := agrees.1.1
  unfold CompilerState.tables at same ⊢
  rw [← same]
  rfl

theorem follows_nextName : Follows id nextName surveyCount := by
  unfold nextName surveyCount
  refine Follows.bind (follows_modify fun _ _ _ agrees => ⟨⟨?_, agrees.1.2⟩, agrees.2⟩)
    fun _ => follows_reads id fun _ _ _ agrees => agrees.counter
  have same := agrees.1.1
  unfold CompilerState.tables at same ⊢
  rw [← same]

theorem Agrees.addGlobal {pending : List LiveBlock} {state : CompilerState}
    {survey : Survey} (agrees : Agrees pending state survey) (global : Global) :
    Agrees pending (state.addGlobal global) (survey.use global.name) := by
  refine ⟨⟨?_, agrees.1.2⟩, agrees.2⟩
  have same := agrees.1.1
  have names : (state.addGlobal global).module.nameUsed =
      fun other => state.module.nameUsed other || global.name = other :=
    funext (nameUsed_addGlobal state global)
  unfold CompilerState.tables Survey.use at *
  rw [names, ← same]
  rfl

theorem tables_addFunction {state : CompilerState} {survey : Survey}
    (same : state.tables = survey.toTables) (func : Function) :
    (state.addFunction func).tables = (survey.use func.name).toTables := by
  have names : (state.addFunction func).module.nameUsed =
      fun other => state.module.nameUsed other || func.name = other :=
    funext (nameUsed_addFunction state func)
  unfold CompilerState.tables Survey.use at *
  rw [names, ← same]
  rfl

theorem Agrees.addFunction {pending : List LiveBlock} {state : CompilerState}
    {survey : Survey} (agrees : Agrees pending state survey) (func : Function) :
    Agrees pending (state.addFunction func) (survey.use func.name) := by
  refine ⟨⟨tables_addFunction agrees.1.1 func, agrees.1.2⟩, ?_⟩
  rw [rets_addFunction]
  exact agrees.2.declare func.ret

theorem follows_addGlobal (name : String) (length : Nat) (bytes : List UInt8)
    (isConstant : Bool) :
    Follows Value.kind (addGlobal name length bytes isConstant)
      (do
        surveyUse name
        pure (.value (.ptr .i8))) := by
  intro pending state survey agrees
  have named : state.module.nameUsed name = survey.used name :=
    congrFun agrees.used name
  cases isUsed : survey.used name with
  | true =>
      rw [isUsed] at named
      unfold addGlobal surveyUse
      rw [then_assoc, reads_then, reads_then, named, isUsed]
      exact .neither
  | false =>
      rw [isUsed] at named
      unfold addGlobal surveyUse
      rw [then_assoc, reads_then, reads_then, named, isUsed]
      exact .both ⟨rfl, agrees.addGlobal _⟩

theorem follows_addFunction (name : String) (ret : LType) (params : List LType)
    (varArg : Bool) :
    Follows Value.kind (addFunction name ret params varArg)
      (surveyDeclare name { ret, params, varArg }) := by
  intro pending state survey agrees
  have named : state.module.nameUsed name = survey.used name :=
    congrFun agrees.used name
  unfold addFunction surveyDeclare surveyUse
  rw [then_assoc, reads_then, reads_then, named]
  cases survey.used name with
  | true => exact .neither
  | false => exact .both ⟨rfl, agrees.addFunction _⟩

end

end Lambpie.Compiler
