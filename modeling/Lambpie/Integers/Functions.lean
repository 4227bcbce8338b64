/-
Functions of integers.

The header of a function puts the arguments into slots, and its body, run with
the functions that it may call, computes what the interpreter does.
-/
import Lambpie.Integers.Control

namespace Lambpie.Integers

open Foundations
open Foundations.Comp
open Lambpie.Compiler
open Lambpie.Machine
open CompilerState

variable {module : Compiler.Module} {act : Activation} {fuel : Nat} {visible : List String}
  {env : Env} {slots : String → Nat} {state state' : CompilerState} {machine : MachineState}

def paramAt (state : CompilerState) (block : Label) (index : Nat) (name : String) :
    CompilerState :=
  (declareAt state block .i64 name).append
    { block
      instr := .store { type := .i64, operand := .arg index }
        { type := .ptr .i64, operand := .reg state.module.code.length } }

private theorem grown_paramAt {block : Label} {index : Nat} {name : String} :
    Grown [name] state (paramAt state block index name) :=
  grown_declareAt.after ((Undisturbed.refl _).append _).grown

private theorem storeParams_ok {index : Nat} {name : String} {rest : List (String × LType)}
    {done : Unit}
    (run : storeParams index ((name, .i64) :: rest) state = .ok (done, state')) :
    ∃ block, state.builder = some block ∧
      storeParams (index + 1) rest (paramAt state block index name) = .ok ((), state') := by
  obtain ⟨alloc, _, allocated, stored⟩ := bind_ok_iff.mp run
  obtain ⟨block, standing, rfl, rfl⟩ := emit_ok_iff.mp allocated
  obtain ⟨_, _, written, bound⟩ := bind_ok_iff.mp stored
  obtain ⟨argument, address, result, isArg, isAddress, -, appends⟩ := store_ok written
  cases isArg
  cases isAddress
  obtain ⟨other, again, -, rfl⟩ := appends
  have sameBlock : state.builder = some other := again
  cases standing.symm.trans sameBlock
  obtain ⟨_, _, isLocal, onward⟩ := bind_ok_iff.mp bound
  cases modify_ok_iff.mp isLocal
  exact ⟨block, standing, onward⟩

private theorem grown_storeParams {index : Nat} {names : List String} {done : Unit}
    (run : storeParams index (names.map fun name => (name, .i64)) state = .ok (done, state')) :
    Grown names state state' := by
  induction names generalizing index state with
  | nil =>
      obtain ⟨-, rfl⟩ := pure_ok_iff.mp run
      exact (Undisturbed.refl _).grown
  | cons name rest ih =>
      obtain ⟨block, -, onward⟩ := storeParams_ok run
      exact grown_paramAt.trans (ih onward)

private theorem reaches_param {block : Label} {index : Nat} {name : String} {number : Word}
    (isHomes : Homes module act.homes)
    (running : Running module act visible env slots state machine)
    (standing : state.builder = some block)
    (included : (paramAt state block index name).module.code <+: module.code)
    (covers : Covers act.homes (paramAt state block index name))
    (isArg : act.args[index]? = some (.i64 number)) :
    ∃ after slots', Reaches (step module) machine after ∧
      Running module act (name :: visible) (env.set name (.int (some number))) slots'
        (paramAt state block index name) after := by
  have isDeclared : declared (.name "int") = some (.int none) := rfl
  have before : (declareAt state block (Variable.int none).type name).module.code <+: module.code :=
    (List.prefix_append _ _).trans included
  obtain ⟨between, slots', reached, running⟩ := reaches_declare isHomes running standing before
    covers (nothing_declared isDeclared)
  obtain ⟨content, slot, bound, isLocal, isAddress, -⟩ := running.slot List.mem_cons_self
  rw [Scope.set_self] at bound
  cases bound
  cases isLocal.symm.trans (Scope.set_self _ _ _)
  have start : eval between.frame { type := .ptr .i64, operand := .reg state.module.code.length } =
      .ptr (.stack (slots' name)) ((8 * 0 : Nat) : Int) := isAddress
  have isNumber : eval between.frame { type := .i64, operand := .arg index } = .i64 number := by
    change (between.frame.args[index]?).getD .undefined = _
    rw [running.active.args, isArg]
    rfl
  have appends : Appends (declareAt state block .i64 name)
      (.store { type := .i64, operand := .arg index }
        { type := .ptr .i64, operand := .reg state.module.code.length }) .void
      { type := .void, operand := .reg (declareAt state block .i64 name).module.code.length }
      (paramAt state block index name) := ⟨block, standing, rfl, rfl⟩
  obtain ⟨last, arrived, ends⟩ := ends_store isHomes running (.refl _) running.stands
    (.refl 0 between) appends included (isOpen_append running.isOpen rfl) isNumber start
    (Scope.set_self _ _ _) Nat.zero_lt_one
  rw [set_set] at ends
  obtain ⟨slots, running⟩ := ends
  exact ⟨last, slots, reached.trans arrived, running⟩

private theorem reaches_params {index : Nat} {names later : List String} {numbers : List Word}
    {done : Unit}
    (isHomes : Homes module act.homes)
    (run : storeParams index (names.map fun name => (name, .i64)) state = .ok (done, state'))
    (included : state'.module.code <+: module.code) (covers : Covers act.homes state')
    (fresh : Fresh names state) (counted : numbers.length = names.length)
    (isArgs : act.args.drop index = numbers.map .i64)
    (running : Running module act visible env slots state machine)
    (subset : ∀ name ∈ later, name ∈ names ∨ name ∈ visible) :
    ∃ after slots', Reaches (step module) machine after ∧
      Running module act later ((names.zip numbers).foldl
        (fun env (name, value) => env.set name (.int (some value))) env) slots' state' after := by
  induction names generalizing index numbers state machine env slots visible with
  | nil =>
      obtain ⟨-, rfl⟩ := pure_ok_iff.mp run
      exact ⟨machine, slots, .refl machine, running.weaken fun name member =>
        (subset name member).resolve_left List.not_mem_nil⟩
  | cons name rest ih =>
      cases numbers with
      | nil => cases counted
      | cons number others =>
          obtain ⟨block, standing, onward⟩ := storeParams_ok run
          have grown := grown_storeParams onward
          have freshRest : Fresh rest (paramAt state block index name) :=
            @Fresh.right [name] rest _ _ fresh grown_paramAt
          have isArg : act.args[index]? = some (.i64 number) := by
            rw [← List.head?_drop, isArgs]
            rfl
          have isRest : act.args.drop (index + 1) = others.map .i64 := by
            rw [← List.tail_drop, isArgs]
            rfl
          obtain ⟨between, slots', reached, running⟩ := reaches_param isHomes running standing
            (grown.code.trans included) (covers.before grown freshRest) isArg
          obtain ⟨after, slots, arrived, running⟩ := ih onward freshRest (Nat.succ.inj counted) isRest
            running fun other member => by
              rcases subset other member with isParam | isVisible
              · rcases List.mem_cons.mp isParam with rfl | inRest
                · exact .inr List.mem_cons_self
                · exact .inl inRest
              · exact .inr (List.mem_cons_of_mem _ isVisible)
          exact ⟨after, slots, reached.trans arrived, running⟩

/-- A function of the language as it stands in the source. -/
structure IsIntFunction (before : List String) (name : String)
    (args : List (String × Option Node)) (body : List Node) : Prop where
  notHandle : name ≠ "handle"
  ints : ∀ arg ∈ args, arg.1 ≠ "self" → arg.2 = some (.name "int")
  stmts : areIntStmts (name :: before) (paramNames args) body = true
  nodup : (paramNames args ++ declaresAll body).Nodup

theorem intFunction_eq_some {before : List String} {node : Node} {func : IntFunction}
    (isFunction : intFunction? before node = some func) :
    ∃ name args body dropped, node = .functionDef name args (some (.name "int")) body dropped ∧
      func = { name, params := paramNames args, body } ∧ IsIntFunction before name args body := by
  unfold intFunction? at isFunction
  split at isFunction
  · rename_i name args body dropped
    split at isFunction
    · rename_i conditions
      obtain ⟨notHandle, ints, stmts, nodup⟩ := conditions
      cases isFunction
      refine ⟨name, args, body, dropped, rfl, rfl, notHandle, ?_, stmts, nodup⟩
      intro arg member notSelf
      have isInt := List.all_eq_true.mp ints arg member
      have typed := (of_decide_eq_true isInt).resolve_left notSelf
      unfold intFunction?.isIntName at typed
      split at typed
      · rename_i same
        exact same
      · cases typed
    · cases isFunction
  · cases isFunction

private theorem paramTypes_int {args : List (String × Option Node)}
    (int : state.types "int" = some .i64)
    (ints : ∀ arg ∈ args, arg.1 ≠ "self" → arg.2 = some (.name "int")) :
    paramTypes args state = .ok ((paramNames args).map fun _ => .i64, state) := by
  induction args with
  | nil => rfl
  | cons arg rest ih =>
      obtain ⟨name, annotation⟩ := arg
      have others := ih fun other member => ints other (List.mem_cons_of_mem _ member)
      by_cases isSelf : name = "self"
      · rw [paramTypes, if_pos isSelf, others, isSelf]
        rfl
      · have typed := ints _ List.mem_cons_self isSelf
        have isInt : getType? annotation state = .ok (.i64, state) := by
          rw [show annotation = some (.name "int") from typed]
          exact getType_int int
        have names : paramNames ((name, annotation) :: rest) = name :: paramNames rest :=
          List.filter_cons_of_pos (decide_eq_true isSelf)
        rw [paramTypes, if_neg isSelf, bind_of_ok isInt, bind_of_ok others, names]
        rfl

private theorem zip_types (names : List String) :
    names.zip (names.map fun _ => LType.i64) = names.map fun name => (name, .i64) := by
  induction names with
  | nil => rfl
  | cons name rest ih => rw [List.map_cons, List.map_cons, List.zip_cons_cons, ih]

def enteredAt (state : CompilerState) (name : String) (params : List String) : CompilerState :=
  { state.define name .i64 (params.map fun _ => .i64) with localScope := .empty }

theorem openFunction_int {before : List String} {name : String}
    {args : List (String × Option Node)} {body : List Node} {type : LType}
    {opened : CompilerState} (int : state.types "int" = some .i64)
    (isFunction : IsIntFunction before name args body)
    (run : openFunction none name args (some (.name "int")) state = .ok (type, opened)) :
    type = .i64 ∧ state.module.nameUsed name = false ∧
      storeParams 0 ((paramNames args).map fun name => (name, .i64))
        (enteredAt state name (paramNames args)) = .ok ((), opened) := by
  have switched : switchArena none name state = .ok ((), state) := by
    unfold switchArena
    rw [modify_ok_iff, if_neg fun both => isFunction.notHandle both.2]
  unfold openFunction at run
  rw [bind_of_ok switched, bind_of_ok (show getType? (some (.name "int")) state = _ from
    getType_int int), bind_of_ok (show selfParam none state = .ok ([], state) from rfl),
    bind_of_ok (paramTypes_int int isFunction.ints)] at run
  have params : [] ++ (paramNames args).zip ((paramNames args).map fun _ => LType.i64) =
      (paramNames args).map fun name => (name, .i64) := by
    rw [List.nil_append, zip_types]
  rw [params] at run
  obtain ⟨func, _, began, rest⟩ := bind_ok_iff.mp run
  obtain ⟨unused, rfl, rfl⟩ := beginFunction_ok_iff.mp began
  obtain ⟨_, _, registered, rest⟩ := bind_ok_iff.mp rest
  cases modify_ok_iff.mp registered
  obtain ⟨_, _, cleared, rest⟩ := bind_ok_iff.mp rest
  cases modify_ok_iff.mp cleared
  obtain ⟨_, _, stored, finished⟩ := bind_ok_iff.mp rest
  obtain ⟨rfl, rfl⟩ := pure_ok_iff.mp finished
  refine ⟨rfl, unused, ?_⟩
  have types : ((paramNames args).map fun name => (name, LType.i64)).map Prod.snd =
      (paramNames args).map fun _ => LType.i64 := by
    rw [List.map_map]
    rfl
  rw [types] at stored
  exact stored

private theorem begun_enteredAt (state : CompilerState) (name : String) (params : List String) :
    Begun state (enteredAt state name params) :=
  (begun_begin state _).update _ rfl rfl rfl rfl

private theorem running_entered {name : String} {params : List String} {numbers : List Word}
    {homes : Scope Value} {dst : Nat} {callers : List Frame} {memory : Memory} (tidy : state.Tidy)
    (int : state.types "int" = some .i64) (included : state.module.code <+: module.code) :
    Running module
      { homes, globals := (enteredAt state name params).globalScope, args := numbers.map .i64,
        dst, callers, memory }
      [] .empty (fun _ => 0) (enteredAt state name params)
      { frame := enter module (state.nextLabel state.module.functions.length) (numbers.map .i64)
          dst,
        callers, memory } := by
  have unused : ∀ entry ∈ (enteredAt state name params).module.code,
      entry.block ≠ state.nextLabel state.module.functions.length := by
    intro entry member same
    have below := tidy.code entry member
    rw [same] at below
    exact Nat.lt_irrefl _ below
  constructor
  · constructor
    · exact ⟨int, rfl, fun _ _ bound => (Option.some_ne_none _ bound.symm).elim,
        fun _ member => (List.not_mem_nil member).elim⟩
    · intro name member
      cases member
    · exact at_start rfl unused included rfl rfl
    · exact stored_empty _ _ _ _ _
  · refine ⟨_, rfl, ?_⟩
    rintro ⟨entry, member, same, -⟩
    exact unused entry member same
  · exact ⟨rfl, rfl, rfl, fun _ member => (List.not_mem_nil member).elim, .refl _ _⟩

private theorem grown_body {calls : String → List Word → Ran Word} {functions : List String}
    {globals : Scope PyVal} {params : List String} {body : List Node} {done : Unit}
    (memory : Memory) (linked : Linked module calls fuel functions globals)
    (ints : areIntStmts functions params body = true) (int : state.types "int" = some .i64)
    (run : visitBody body state = .ok (done, state')) :
    Grown (declaresAll body) state state' := by
  let bare : Activation :=
    { homes := .empty, globals, args := [], dst := 0, callers := [], memory }
  have noHomes : Homes module bare.homes :=
    ⟨fun _ _ bound => (Option.some_ne_none _ bound.symm).elim,
      fun _ _ _ _ bound => (Option.some_ne_none _ bound.symm).elim⟩
  exact (@executes_all module bare fuel functions calls noHomes linked params body ints _ _ _ run
    int).1

/-- A call of the function does what the interpreter does with its body. -/
theorem tracks_function {calls : String → List Word → Ran Word} {before : List String}
    {name : String} {args : List (String × Option Node)} {body dropped : List Node}
    {val : PyVal} (isFunction : IsIntFunction before name args body)
    (int : state.types "int" = some .i64) (tidy : state.Tidy)
    (run : visit (.functionDef name args (some (.name "int")) body dropped) state =
      .ok (val, state'))
    (included : state'.module.code <+: module.code)
    (linked : Linked module calls fuel (name :: before)
      (enteredAt state name (paramNames args)).globalScope)
    {numbers : List Word} (counted : numbers.length = (paramNames args).length) (dst : Nat)
    (callers : List Frame) (memory : Memory) :
    Tracks (step module) (fuel + 1)
      { frame := enter module (state.nextLabel state.module.functions.length) (numbers.map .i64)
          dst,
        callers, memory }
      (execAll calls fuel body (bindParams (paramNames args) numbers) >>=
        Sum.elim (fun _ => .stuck) .done)
      (Returning dst callers memory) := by
  change visitFunctionDef none name args (some (.name "int")) (visitBody body) state = _ at run
  simp only [visitFunctionDef, bind_ok_iff, reads_ok_iff, modify_ok_iff, pure_ok_iff] at run
  obtain ⟨_, _, ⟨rfl, rfl⟩, returnType, opened, openRun, _, finished, bodyRun, _, closed,
    closeRun, _, _, rfl, -, rfl⟩ := run
  obtain ⟨rfl, -, stores⟩ := openFunction_int int isFunction openRun
  have grown := grown_storeParams stores
  have tidyEntered := (begun_enteredAt state name (paramNames args)).tidy tidy
  have straight := ensures_storeParams (enteredAt state name (paramNames args))
    ((paramNames args).map fun name => (name, .i64)) 0 0 _ _ _ (.refl _) stores
  obtain ⟨slots, params⟩ := straight.segment tidyEntered
  have tidyOpened := params.tidy tidyEntered
  have formed := areWellFormed_of_areIntStmts body isFunction.stmts
  obtain ⟨inner, segment⟩ := lays_visitBody body formed _ _ _ tidyOpened bodyRun
  obtain ⟨⟨last, close⟩, -⟩ := halts_of_close (segment.tidy tidyOpened) closeRun
  have closes : finished.module.code <+: module.code := by
    have whole : closed.module.code <+: module.code := included
    rw [close.code] at whole
    exact (List.prefix_append _ _).trans whole
  have isInt : opened.types "int" = some .i64 := by
    rw [grown.types]
    exact int
  have grownBody := grown_body memory linked isFunction.stmts isInt bodyRun
  have fresh : Fresh (paramNames args ++ declaresAll body)
      (enteredAt state name (paramNames args)) := ⟨isFunction.nodup, fun _ _ => rfl⟩
  have freshBody := fresh.right grown
  let act : Activation :=
    { homes := finished.localScope
      globals := (enteredAt state name (paramNames args)).globalScope
      args := numbers.map .i64, dst, callers, memory }
  have isHomes : Homes module act.homes := (grown.trans grownBody).homes rfl closes
  have covers : Covers act.homes finished := fun _ _ bound => bound
  have before : opened.module.code <+: module.code := grownBody.code.trans closes
  have entered : Running module act [] .empty (fun _ => 0) _ _ :=
    running_entered tidy int (grown.code.trans before)
  obtain ⟨started, slots, reached, running⟩ := reaches_params isHomes stores before
    (covers.before grownBody freshBody) fresh.left
    counted rfl entered
    fun name member => .inl member
  obtain ⟨-, tracks⟩ := executes_all isHomes linked (paramNames args) body isFunction.stmts
    _ _ _ bodyRun isInt
  have ran := tracks closes covers freshBody tidyOpened _ slots started running
  apply Tracks.of_reaches reached
  apply ran.bind
  intro result after ends
  cases result with
  | inl env => trivial
  | inr number => exact .done ends

end Lambpie.Integers
