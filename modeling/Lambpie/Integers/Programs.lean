/-
Programs with functions of integers.

Every function is compiled with the ones before it already bound, so that by
induction on the fuel the code of each does what the interpreter does.
-/
import Lambpie.Compiler.Dropped
import Lambpie.Compiler.Later
import Lambpie.Integers.Functions

namespace Lambpie.Integers

open Foundations
open Foundations.Comp
open Lambpie.Compiler
open Lambpie.Machine
open CompilerState

variable {module : Compiler.Module} {state state' : CompilerState}

private theorem prefix_intFunctions (before : List IntFunction) (tree : List Node) :
    before <+: intFunctions before tree := by
  induction tree generalizing before with
  | nil => exact List.prefix_rfl
  | cons stmt rest ih =>
      unfold intFunctions
      split
      · rename_i func _
        exact (List.prefix_append before [func]).trans (ih _)
      · exact ih _

private theorem callInt_succ {functions : List IntFunction} {func : IntFunction} {args : List Word}
    (found : functions.find? (·.name = func.name) = some func)
    (counted : args.length = func.params.length) (fuel : Nat) :
    callInt functions (fuel + 1) func.name args =
      execAll (callInt functions fuel) fuel func.body (bindParams func.params args) >>=
        Sum.elim (fun _ => .stuck) .done := by
  rw [callInt, found]
  dsimp only
  rw [if_pos counted]
  congr 1
  funext result
  cases result <;> rfl

private theorem callInt_arity {functions : List IntFunction} {func : IntFunction} {args : List Word}
    (found : functions.find? (·.name = func.name) = some func)
    (other : args.length ≠ func.params.length) (fuel : Nat) :
    callInt functions (fuel + 1) func.name args = .stuck := by
  rw [callInt, found]
  dsimp only
  rw [if_neg other]

def headerOf (func : IntFunction) : Function where
  name := func.name
  ret := .i64
  params := func.params.map fun _ => .i64
  varArg := false
  entry := none

/-- Where the function is, and what a call of it does. -/
structure Located (module : Compiler.Module) (functions : List IntFunction)
    (globals : Scope PyVal) (func : IntFunction) (index : Nat) (entry : Label) : Prop where
  bound : globals func.name = some (.value (functionValueOf (headerOf func) index))
  defined : module.functions[index]? = some { headerOf func with entry := some entry }
  tracks : ∀ fuel numbers dst callers memory, Tracks (step module) fuel
    { frame := enter module entry (numbers.map .i64) dst, callers, memory }
    (callInt functions fuel func.name numbers) (Returning dst callers memory)

structure Compiled (module : Compiler.Module) (functions before : List IntFunction)
    (state : CompilerState) : Prop where
  used : ∀ func ∈ before, state.module.nameUsed func.name = true
  located : ∀ func ∈ before, ∃ index entry,
    Located module functions state.globalScope func index entry

theorem Compiled.later {functions before : List IntFunction}
    (compiled : Compiled module functions before state) (later : Later state state') :
    Compiled module functions before state' where
  used func member := later.used _ (compiled.used func member)
  located func member := by
    obtain ⟨index, entry, located⟩ := compiled.located func member
    have bound := (later.globals _ (compiled.used func member)).trans located.bound
    exact ⟨index, entry, bound, located.defined, located.tracks⟩

theorem Compiled.find {functions before : List IntFunction} {func : IntFunction}
    (compiled : Compiled module functions before state)
    (unused : state.module.nameUsed func.name = false)
    (included : before ++ [func] <+: functions) :
    functions.find? (·.name = func.name) = some func := by
  obtain ⟨more, rfl⟩ := included
  have others : before.find? (·.name = func.name) = none := by
    rw [List.find?_eq_none]
    intro other member same
    have isUsed := compiled.used other member
    rw [of_decide_eq_true same, unused] at isUsed
    cases isUsed
  rw [List.append_assoc, List.find?_append, others]
  simp

private theorem later_functionDef {before : List String} {name : String}
    {args : List (String × Option Node)} {body dropped : List Node} {val : PyVal}
    (known : Later state state) (int : state.types "int" = some .i64)
    (isFunction : IsIntFunction before name args body)
    (run : visit (.functionDef name args (some (.name "int")) body dropped) state =
      .ok (val, state')) :
    state.module.nameUsed name = false ∧
      Later state (enteredAt state name (paramNames args)) ∧
      Later (enteredAt state name (paramNames args)) state' := by
  change visitFunctionDef none name args (some (.name "int")) (visitBody body) state = _ at run
  simp only [visitFunctionDef, bind_ok_iff, reads_ok_iff, modify_ok_iff, pure_ok_iff] at run
  obtain ⟨_, _, ⟨rfl, rfl⟩, returnType, opened, openRun, _, finished, bodyRun, _, closed,
    closeRun, _, _, rfl, -, rfl⟩ := run
  obtain ⟨rfl, unused, stores⟩ := openFunction_int int isFunction openRun
  have entered : Later state (enteredAt state name (paramNames args)) :=
    (known.define unused _ _).update _ rfl rfl rfl rfl rfl rfl
  have params := keeps_storeParams Later.emits.plain
    (fun _ _ _ _ before => before.update _ rfl rfl rfl rfl rfl rfl) _ _ _ _ _ entered.start stores
  have last := keeps_closeFunction Later.emits _ _ _ _
    (Later.visitBody body _ _ _ params bodyRun) closeRun
  exact ⟨unused, entered, last.update _ rfl rfl rfl rfl rfl rfl⟩

private theorem bound_enteredAt {name : String} {params : List String} {body : List Node} :
    (enteredAt state name params).module.nameUsed name = true ∧
      (enteredAt state name params).globalScope name =
        some (.value (functionValueOf (headerOf { name, params, body })
          state.module.functions.length)) ∧
      (enteredAt state name params).module.functions[state.module.functions.length]? =
        some { headerOf { name, params, body } with
          entry := some (state.nextLabel state.module.functions.length) } := by
  refine ⟨?_, Scope.set_self _ _ _, ?_⟩
  · change ((state.addFunction _).appendBlock _).module.nameUsed name = true
    rw [nameUsed_appendBlock, nameUsed_addFunction, decide_eq_true rfl, Bool.or_true]
  · change (List.modify (_ ++ [_]) _ _)[state.module.functions.length]? = _
    rw [List.getElem?_modify, List.getElem?_append_right (Nat.le_refl _), Nat.sub_self]
    change some (if _ then _ else _) = _
    rw [if_pos rfl]
    rfl

private theorem linked_of_located {functions known : List IntFunction} {globals : Scope PyVal}
    {fuel : Nat}
    (located : ∀ func ∈ known, ∃ index entry,
      globals func.name = some (.value (functionValueOf (headerOf func) index)) ∧
      module.functions[index]? = some { headerOf func with entry := some entry } ∧
      ∀ numbers dst callers memory, Tracks (step module) fuel
        { frame := enter module entry (numbers.map .i64) dst, callers, memory }
        (callInt functions fuel func.name numbers) (Returning dst callers memory)) :
    Linked module (callInt functions fuel) fuel (known.map (·.name)) globals := by
  intro name member
  obtain ⟨func, isKnown, rfl⟩ := List.mem_map.mp member
  obtain ⟨index, entry, bound, defined, tracks⟩ := located func isKnown
  exact ⟨index, _, false, _, entry, bound, defined, rfl, tracks⟩

/-- The function that was compiled last is in the module as well. -/
theorem Compiled.functionDef {functions before : List IntFunction} {name : String}
    {args : List (String × Option Node)} {body dropped : List Node} {val : PyVal}
    {final : CompilerState} (compiled : Compiled final.module functions before state)
    (known : Later state state) (int : state.types "int" = some .i64) (tidy : state.Tidy)
    (isFunction : IsIntFunction (before.map (·.name)) name args body)
    (run : visit (.functionDef name args (some (.name "int")) body dropped) state =
      .ok (val, state'))
    (later : Later state' final)
    (included : before ++ [{ name, params := paramNames args, body }] <+: functions) :
    Compiled final.module functions (before ++ [{ name, params := paramNames args, body }])
      state' := by
  let func : IntFunction := { name, params := paramNames args, body }
  obtain ⟨unused, entered, rest⟩ := later_functionDef known int isFunction run
  obtain ⟨isUsed, bound, defined⟩ := @bound_enteredAt state name (paramNames args) body
  have found : functions.find? (·.name = func.name) = some func := compiled.find unused included
  have inFinal := (rest.trans later).functions _ _ defined rfl
  have whole := compiled.later entered
  have tracks : ∀ fuel numbers dst callers memory, Tracks (step final.module) fuel
      { frame := enter final.module (state.nextLabel state.module.functions.length)
          (numbers.map .i64) dst,
        callers, memory }
      (callInt functions fuel name numbers) (Returning dst callers memory) := by
    intro fuel
    induction fuel with
    | zero => exact fun _ _ _ _ => RunsFor.zero _
    | succ fuel ih =>
        intro numbers dst callers memory
        by_cases counted : numbers.length = func.params.length
        · have linked : Linked final.module (callInt functions fuel) fuel
              ((func :: before).map (·.name))
              (enteredAt state name (paramNames args)).globalScope := by
            apply linked_of_located
            intro other member
            rcases List.mem_cons.mp member with rfl | earlier
            · exact ⟨_, _, bound, inFinal, ih⟩
            · obtain ⟨index, entry, located⟩ := whole.located other earlier
              exact ⟨index, entry, located.bound, located.defined, located.tracks fuel⟩
          rw [show callInt functions (fuel + 1) name numbers = _ from
            callInt_succ found counted fuel]
          exact tracks_function isFunction int tidy run later.code linked
            counted dst callers memory
        · rw [show callInt functions (fuel + 1) name numbers = _ from
            callInt_arity found counted fuel]
          trivial
  constructor
  · intro other member
    rcases List.mem_append.mp member with earlier | last
    · exact rest.used _ (whole.used other earlier)
    · cases List.mem_singleton.mp last
      exact rest.used _ isUsed
  · intro other member
    rcases List.mem_append.mp member with earlier | last
    · exact (whole.later rest).located other earlier
    · cases List.mem_singleton.mp last
      exact ⟨_, _, (rest.globals _ isUsed).trans bound, inFinal, tracks⟩

private theorem tidy_visitTopLevel {stmt : Node} {done : Unit} (formed : isWellFormed stmt = true)
    (tidy : state.Tidy) (run : visitTopLevel stmt state = .ok (done, state')) : state'.Tidy := by
  obtain ⟨added, segment⟩ := laysTo_visitTopLevel formed _ _ _ tidy run
  exact segment.tidy (Tidy.keeping tidy _)

private theorem visitTopLevel_function {before : List String} {name : String}
    {args : List (String × Option Node)} {body dropped : List Node} {done : Unit}
    (isFunction : IsIntFunction before name args body)
    (run : visitTopLevel (.functionDef name args (some (.name "int")) body dropped) state =
      .ok (done, state')) :
    ∃ val, visit (.functionDef name args (some (.name "int")) body dropped) state =
      .ok (val, state') := by
  unfold visitTopLevel at run
  have notMain : ¬isMainBlock (.functionDef name args (some (.name "int")) body dropped) = true :=
    Bool.false_ne_true
  rw [if_neg notMain] at run
  dsimp only at run
  rw [if_neg isFunction.notHandle] at run
  obtain ⟨val, _, visited, finished⟩ := bind_ok_iff.mp run
  obtain ⟨-, rfl⟩ := pure_ok_iff.mp finished
  exact ⟨val, visited⟩

private theorem compiled_visitModule {tree : List Node} {before : List IntFunction} {done : Unit}
    {final : CompilerState} (formed : areWellFormed tree = true)
    (noClass : state'.classLayouts "int" = none) (tidy : state.Tidy) (known : Later state state)
    (run : visitModule tree state = .ok (done, state')) (later : Later state' final)
    (compiled : Compiled final.module (intFunctions before tree) before state) :
    Compiled final.module (intFunctions before tree) (intFunctions before tree) state' := by
  induction tree generalizing state before with
  | nil =>
      obtain ⟨-, rfl⟩ := pure_ok_iff.mp run
      exact compiled
  | cons stmt rest ih =>
      obtain ⟨_, middle, headRun, restRun⟩ := bind_ok_iff.mp run
      have tidyMiddle := tidy_visitTopLevel (and_left formed) tidy headRun
      have front := Later.visitTopLevel stmt _ _ _ known headRun
      have between := Later.visitModule rest _ _ _ front.start restRun
      have back := between.trans later
      have int := known.builtinInt ((front.trans between).noClass noClass)
      cases isFunction : intFunction? (before.map (·.name)) stmt with
      | none =>
          rw [intFunctions, isFunction] at compiled ⊢
          exact ih (and_right formed) tidyMiddle front.start restRun (compiled.later front)
      | some func =>
          rw [intFunctions, isFunction] at compiled ⊢
          obtain ⟨name, args, body, dropped, rfl, rfl, isInt⟩ := intFunction_eq_some isFunction
          obtain ⟨val, visited⟩ := visitTopLevel_function isInt headRun
          have next := compiled.functionDef known int tidy isInt visited back
            (prefix_intFunctions _ rest)
          exact ih (and_right formed) tidyMiddle front.start restRun next

theorem Returning.halts {dst : Nat} {memory : Memory} {number : Word} {machine : MachineState}
    (returning : Returning dst [] memory number machine) :
    ∃ returned, step module machine = .halt (.ok returned) ∧ returned.value = .i64 number ∧
      Untouched memory.nextStack memory returned.memory := by
  obtain ⟨id, val, code, atReturn, isNumber⟩ := returning.returns
  refine ⟨{ value := .i64 number, memory := releaseSlots machine.memory machine.frame.slots },
    ?_, rfl, ?_⟩
  · unfold step
    rw [atReturn]
    change returnFrom (machine.fetched code) (evalPyVal { machine.frame with code } val) = _
    have evaluated : evalPyVal { machine.frame with code } val = .i64 number := isNumber
    have waiting : (machine.fetched code).callers = [] := returning.callers
    simp only [returnFrom, waiting, evaluated]
    rfl
  · exact returning.untouched.trans (untouched_releaseSlots _ returning.slots) (Nat.le_refl _)

private theorem visitModule_back {front back : List Node} {reached : CompilerState}
    {done done' : Unit} (visited : visitModule front state = .ok (done, reached))
    (run : visitModule (front ++ back) state = .ok (done', state')) :
    visitModule back reached = .ok ((), state') := by
  induction front generalizing state with
  | nil =>
      obtain ⟨-, rfl⟩ := pure_ok_iff.mp visited
      exact run
  | cons stmt rest ih =>
      obtain ⟨_, middle, head, visited⟩ := bind_ok_iff.mp visited
      rw [List.cons_append, visitModule, bind_of_ok head] at run
      exact ih visited run

/-- Each function of integers in the first part of an accepted program is in the
module. -/
private theorem located_intFunction {front back : List Node} {reached : CompilerState}
    (compiled : compileState (front ++ back) = .ok state) (formed : areWellFormed front = true)
    (visited : visitModule front .initial = .ok ((), reached))
    (noClass : reached.classLayouts "int" = none) {func : IntFunction}
    (member : func ∈ intFunctions [] front) :
    ∃ index entry,
      Located state.module (intFunctions [] front) reached.globalScope func index entry := by
  obtain ⟨middle, whole, synthesized⟩ := compileState_ok_iff.mp compiled
  have first := Later.visitModule front _ _ _ later_initial visited
  have second := Later.visitModule back _ _ _ first.start (visitModule_back visited whole)
  have last := Later.synthesizeLambdaEntry _ _ _ second.start synthesized
  have tidy : CompilerState.initial.Tidy :=
    ⟨fun _ inCode => (List.not_mem_nil inCode).elim, fun _ standing => nomatch standing⟩
  have nothing : Compiled state.module (intFunctions [] front) [] CompilerState.initial :=
    ⟨fun _ inNil => (List.not_mem_nil inNil).elim, fun _ inNil => (List.not_mem_nil inNil).elim⟩
  have all := compiled_visitModule formed noClass tidy later_initial visited (second.trans last)
    nothing
  exact all.located func member

private theorem Located.call {functions : List IntFunction} {globals : Scope PyVal}
    {func : IntFunction} {index : Nat} {entry : Label}
    (located : Located module functions globals func index entry) (args : List Word)
    (memory : Memory) :
    ∃ start, (module.functions[index]?).map (·.name) = some func.name ∧
      callState module index (args.map .i64) memory = some start ∧
      ∀ fuel, Tracks (step module) fuel start (callInt functions fuel func.name args)
        (Returning 0 [] memory) := by
  refine ⟨{ frame := enter module entry (args.map .i64) 0, callers := [], memory }, ?_, ?_,
    fun fuel => located.tracks fuel args 0 [] memory⟩
  · rw [located.defined]
    rfl
  · unfold callState
    rw [located.defined]
    rfl

private theorem halts_of_tracks {fuel : Nat} {start : MachineState} {ran : Ran Word}
    {memory : Memory} {number : Word}
    (tracks : Tracks (step module) fuel start ran (Returning 0 [] memory))
    (done : ran = .done number) :
    ∃ returned, Halts (step module) start (.ok returned) ∧ returned.value = .i64 number ∧
      Untouched memory.nextStack memory returned.memory := by
  rw [done] at tracks
  obtain ⟨last, reached, returning⟩ := tracks
  obtain ⟨returned, halted, rest⟩ := returning.halts
  exact ⟨returned, .of_reaches reached (.of_step halted), rest⟩

/-- A call of a function of integers returns what the interpreter does, leaving
the caller's memory as it was, and goes on forever where the interpreter does. -/
theorem call_intFunction {tree : List Node} (compiled : compileState tree = .ok state)
    (formed : areWellFormed tree = true) (noClass : state.classLayouts "int" = none)
    {func : IntFunction} (member : func ∈ intFunctions [] tree) (args : List Word)
    (memory : Memory) :
    ∃ index start, (state.module.functions[index]?).map (·.name) = some func.name ∧
      callState state.module index (args.map .i64) memory = some start ∧
      (∀ fuel number, callInt (intFunctions [] tree) fuel func.name args = .done number →
        ∃ returned, Halts (step state.module) start (.ok returned) ∧
          returned.value = .i64 number ∧ Untouched memory.nextStack memory returned.memory) ∧
      ∀ fuel, callInt (intFunctions [] tree) fuel func.name args = .spent →
        ∃ later, runFor (step state.module) fuel start = .next later := by
  obtain ⟨reached, visited, synthesized⟩ := compileState_ok_iff.mp compiled
  have front := Later.visitModule tree _ _ _ later_initial visited
  have back := Later.synthesizeLambdaEntry _ _ _ front.start synthesized
  have whole : compileState (tree ++ []) = .ok state := by rw [List.append_nil, compiled]
  obtain ⟨index, entry, located⟩ :=
    located_intFunction whole formed visited (back.noClass noClass) member
  obtain ⟨start, named, called, tracks⟩ := located.call args memory
  refine ⟨index, start, named, called, fun fuel number done => halts_of_tracks (tracks fuel) done,
    fun fuel spent => ?_⟩
  have runs := tracks fuel
  rw [spent] at runs
  exact RunsFor.last runs

/-- `total(n)` adds up to `n` in a loop. -/
def totalFunction : Node :=
  .functionDef "total" [("n", some (.name "int"))] (some (.name "int"))
    [.annAssign (.name "i") (.name "int") (some (.constant (.int 0))),
      .annAssign (.name "sum") (.name "int") (some (.constant (.int 0))),
      .whileStmt (.compare (.name "i") [(.lt, .name "n")])
        [.assign (.name "i") [] (.binOp (.name "i") .add (.constant (.int 1))),
          .assign (.name "sum") [] (.binOp (.name "sum") .add (.name "i"))] [],
      .return_ (some (.name "sum"))] []

/-- `twice` calls `total`. -/
def totalProgram : List Node :=
  programWith
    [totalFunction,
      .functionDef "twice" [("n", some (.name "int"))] (some (.name "int"))
        [.return_ (some (.binOp (.call (.name "total") [.name "n"] []) .add
          (.call (.name "total") [.name "n"] [])))] []] []

/-- `twice(3)` is 12. -/
theorem call_intFunction_example :
    ∃ state, compileState (builtins ++ totalProgram) = .ok state ∧ ∀ memory,
      ∃ index start returned, callState state.module index [.i64 3] memory = some start ∧
        Halts (step state.module) start (.ok returned) ∧ returned.value = .i64 12 := by
  have formed : areWellFormed (builtins ++ totalProgram) = true := by decide +kernel
  have computed : callInt (intFunctions [] (builtins ++ totalProgram)) 9 "twice" [3] = .done 12 := by
    decide +kernel
  have accepted : (compileState (builtins ++ totalProgram)).toOption.any
      (fun state => (state.classLayouts "int").isNone) = true := by decide +kernel
  have known : (intFunctions [] (builtins ++ totalProgram)).any (·.name = "twice") = true := by
    decide +kernel
  obtain ⟨func, member, named⟩ := List.any_eq_true.mp known
  cases compiled : compileState (builtins ++ totalProgram) with
  | error error =>
      rw [compiled] at accepted
      cases accepted
  | ok state =>
      rw [compiled] at accepted
      refine ⟨state, rfl, fun memory => ?_⟩
      obtain ⟨index, start, -, called, returns, -⟩ := call_intFunction compiled formed
        (Option.isNone_iff_eq_none.mp accepted) member [3] memory
      rw [of_decide_eq_true named] at returns
      obtain ⟨returned, halted, isNumber, -⟩ := returns 9 12 computed
      exact ⟨index, start, returned, called, halted, isNumber⟩

/-- Where the interpreter is not stuck, a call of a function of integers returns a
number exactly if the interpreter does. -/
theorem intFunction_returns_iff {front back : List Node} {reached : CompilerState}
    (compiled : compileState (front ++ back) = .ok state) (formed : areWellFormed front = true)
    (visited : visitModule front .initial = .ok ((), reached))
    (noClass : reached.classLayouts "int" = none) {func : IntFunction}
    (member : func ∈ intFunctions [] front) (args : List Word) (memory : Memory)
    (notStuck : ∀ fuel, callInt (intFunctions [] front) fuel func.name args ≠ .stuck) :
    ∃ index start, (state.module.functions[index]?).map (·.name) = some func.name ∧
      callState state.module index (args.map .i64) memory = some start ∧
      ∀ number, (∃ returned, Halts (step state.module) start (.ok returned) ∧
          returned.value = .i64 number) ↔
        ∃ fuel, callInt (intFunctions [] front) fuel func.name args = .done number := by
  obtain ⟨index, entry, located⟩ := located_intFunction compiled formed visited noClass member
  obtain ⟨start, named, called, tracks⟩ := located.call args memory
  refine ⟨index, start, named, called, fun number => ⟨?_, ?_⟩⟩
  · rintro ⟨returned, halts, isNumber⟩
    obtain ⟨fuel, other, done⟩ := Tracks.done_of_halts tracks notStuck halts
    obtain ⟨returned', halts', isOther, -⟩ := halts_of_tracks (tracks fuel) done
    cases halts.unique halts'
    cases isNumber.symm.trans isOther
    exact ⟨fuel, done⟩
  · rintro ⟨fuel, done⟩
    obtain ⟨returned, halts, isNumber, -⟩ := halts_of_tracks (tracks fuel) done
    exact ⟨returned, halts, isNumber⟩

/-- `lookup(n)` fills an array with the totals and adds `n` to the one at `n`. -/
def lookupProgram : List Node :=
  [eventClass, responseClass, totalFunction,
    .functionDef "lookup" [("n", some (.name "int"))] (some (.name "int"))
      [.annAssign (.name "cells") (.subscript (.name "array")
          (.other .tuple [.name "int", .constant (.int 4)])) none,
        .annAssign (.name "i") (.name "int") (some (.constant (.int 0))),
        .whileStmt (.compare (.name "i") [(.lt, .constant (.int 4))])
          [.assign (.subscript (.name "cells") (.name "i")) []
              (.call (.name "total") [.name "i"] []),
            .assign (.name "i") [] (.binOp (.name "i") .add (.constant (.int 1)))] [],
        .ifStmt (.compare (.name "n") [(.lt, .constant (.int 4))])
          [.annAssign (.name "found") (.name "int") (some (.subscript (.name "cells") (.name "n")))]
          [.return_ (some (.unaryOp .uSub (.constant (.int 1))))],
        .return_ (some (.binOp (.name "found") .add (.name "n")))] []]

/-- `lookup(3)` is 9. -/
theorem intFunction_returns_iff_example :
    ∃ state, compileState (builtins ++ lookupProgram ++ [handleWith []]) = .ok state ∧ ∀ memory,
      ∃ index start returned, callState state.module index [.i64 3] memory = some start ∧
        Halts (step state.module) start (.ok returned) ∧ returned.value = .i64 9 := by
  have formed : areWellFormed (builtins ++ lookupProgram) = true := by decide +kernel
  have computed : callInt (intFunctions [] (builtins ++ lookupProgram)) 9 "lookup" [3] =
      .done 9 := by
    decide +kernel
  have accepted : (compileState (builtins ++ lookupProgram ++ [handleWith []])).toOption.isSome =
      true := by
    decide +kernel
  have noClass : (visitModule (builtins ++ lookupProgram) .initial).toOption.any
      (fun result => (result.2.classLayouts "int").isNone) = true := by
    decide +kernel
  have known : (intFunctions [] (builtins ++ lookupProgram)).any (·.name = "lookup") = true := by
    decide +kernel
  obtain ⟨func, member, named⟩ := List.any_eq_true.mp known
  cases compiled : compileState (builtins ++ lookupProgram ++ [handleWith []]) with
  | error error =>
      rw [compiled] at accepted
      cases accepted
  | ok state =>
      cases visited : visitModule (builtins ++ lookupProgram) .initial with
      | error error =>
          rw [visited] at noClass
          cases noClass
      | ok result =>
          rw [visited] at noClass
          refine ⟨state, rfl, fun memory => ?_⟩
          have notStuck (fuel : Nat) :
              callInt (intFunctions [] (builtins ++ lookupProgram)) fuel func.name [3] ≠ .stuck := by
            rw [of_decide_eq_true named]
            exact notStuck_of_done computed fuel
          obtain ⟨index, start, -, called, returns⟩ := intFunction_returns_iff compiled formed
            visited (Option.isNone_iff_eq_none.mp noClass) member [3] memory notStuck
          rw [of_decide_eq_true named] at returns
          obtain ⟨returned, halted, isNumber⟩ := (returns 9).mpr ⟨9, computed⟩
          exact ⟨index, start, returned, called, halted, isNumber⟩

end Lambpie.Integers
