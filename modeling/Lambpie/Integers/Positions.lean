/-
Where the machine stands while the code of a visit is run.

When a frame has come to the place in its block at which the compiler stood, the
instruction that the compiler appended next is the one to run next.
-/
import Lambpie.Compiler.Expressions
import Lambpie.Machine.StepCases
import Lambpie.Foundations.Fuelled

namespace Lambpie.Integers

open Foundations
open Foundations.Comp
open Lambpie.Compiler
open Lambpie.Machine

variable {module : Module} {state : CompilerState} {frame : Frame}

def codeFrom (module : Module) (label : Label) (start : Nat) : List (Nat × Instr) :=
  (((module.code.drop start).zipIdx start).filter (·.1.block = label)).map fun (entry, id) =>
    (id, entry.instr)

private theorem codeFrom_zero (module : Module) (label : Label) :
    codeFrom module label 0 = module.block label := rfl

private theorem codeFrom_here {label : Label} {start : Nat} {instr : Instr}
    (found : module.code[start]? = some { block := label, instr }) :
    codeFrom module label start = (start, instr) :: codeFrom module label (start + 1) := by
  obtain ⟨inside, isEntry⟩ := List.getElem?_eq_some_iff.mp found
  unfold codeFrom
  rw [List.drop_eq_getElem_cons inside, isEntry, List.zipIdx_cons, List.filter_cons,
    if_pos (decide_eq_true rfl)]
  rfl

private theorem codeFrom_elsewhere {label : Label} {start : Nat}
    (elsewhere : ∀ entry, module.code[start]? = some entry → entry.block ≠ label) :
    codeFrom module label start = codeFrom module label (start + 1) := by
  unfold codeFrom
  by_cases inside : start < module.code.length
  · have other := elsewhere module.code[start] (List.getElem?_eq_getElem inside)
    rw [List.drop_eq_getElem_cons inside, List.zipIdx_cons, List.filter_cons,
      if_neg fun same => other (of_decide_eq_true same)]
  · have nothing (index : Nat) (beyond : start ≤ index) : module.code.drop index = [] :=
      List.drop_eq_nil_of_le (Nat.le_trans (Nat.le_of_not_lt inside) beyond)
    rw [nothing start (Nat.le_refl _), nothing (start + 1) (Nat.le_succ _)]
    rfl

private theorem codeFrom_skip {label : Label} {start last : Nat} (ordered : start ≤ last)
    (elsewhere : ∀ id entry, start ≤ id → id < last → module.code[id]? = some entry →
      entry.block ≠ label) : codeFrom module label start = codeFrom module label last := by
  induction last, ordered using Nat.le_induction with
  | base => rfl
  | succ last ordered ih =>
      rw [ih fun id entry above below => elsewhere id entry above (Nat.lt_succ_of_lt below)]
      exact codeFrom_elsewhere fun entry => elsewhere last entry ordered (Nat.lt_succ_self _)

structure At (module : Module) (state : CompilerState) (frame : Frame) : Prop where
  builder : state.builder = some frame.block
  code : frame.code = codeFrom module frame.block state.module.code.length

theorem getElem_of_included {block : Label} {instr : Instr}
    (included : (state.append { block, instr }).module.code <+: module.code) :
    module.code[state.module.code.length]? = some { block, instr } := by
  obtain ⟨rest, whole⟩ := included
  rw [← whole]
  simp [CompilerState.append]

theorem At.next {block : Label} {instr : Instr} (stands : At module state frame)
    (standing : state.builder = some block)
    (included : (state.append { block, instr }).module.code <+: module.code) :
    frame.code = (state.module.code.length, instr) ::
        codeFrom module frame.block (state.module.code.length + 1) ∧
      ∀ code, code = codeFrom module frame.block (state.module.code.length + 1) →
        At module (state.append { block, instr }) { frame with code } := by
  cases standing.symm.trans stands.builder
  refine ⟨?_, ?_⟩
  · rw [stands.code]
    exact codeFrom_here (getElem_of_included included)
  · rintro code rfl
    refine ⟨standing, ?_⟩
    simp [CompilerState.append]

/-- A position is kept when only registers and slots of the frame change. -/
theorem At.change {other : Frame} (stands : At module state frame)
    (block : other.block = frame.block) (code : other.code = frame.code) :
    At module state other where
  builder := by rw [block]; exact stands.builder
  code := by rw [block, code]; exact stands.code

theorem at_start {label : Label} (standing : state.builder = some label)
    (unused : ∀ entry ∈ state.module.code, entry.block ≠ label)
    (included : state.module.code <+: module.code) (block : frame.block = label)
    (code : frame.code = module.block label) : At module state frame where
  builder := by rw [block]; exact standing
  code := by
    rw [code, block, ← codeFrom_zero]
    apply codeFrom_skip (Nat.zero_le _)
    intro id entry _ below found
    obtain ⟨rest, whole⟩ := included
    rw [← whole, List.getElem?_append_left below] at found
    exact unused entry (List.mem_of_getElem? found)

theorem step_of_execute {machine next : MachineState} {id : Nat} {instr : Instr}
    {code : List (Nat × Instr)} (pending : machine.frame.code = (id, instr) :: code)
    (run : execute module (machine.fetched code) id instr = .ok next) :
    step module machine = .next next := by
  unfold step
  rw [pending]
  cases instr with
  | ret value => cases run
  | retVoid => cases run
  | _ =>
      change progressOf _ = _
      change execute module (machine.fetched code) id _ = _ at run
      rw [show execute module { machine with frame := { machine.frame with code } } id _ = _
        from run]
      rfl

structure Undisturbed (base state : CompilerState) : Prop where
  code : base.module.code <+: state.module.code
  builder : state.builder = base.builder
  types : state.types = base.types
  globals : state.globalScope = base.globalScope
  locals : state.localScope = base.localScope

theorem Undisturbed.refl (state : CompilerState) : Undisturbed state state :=
  ⟨List.prefix_rfl, rfl, rfl, rfl, rfl⟩

theorem Undisturbed.trans {base middle state : CompilerState} (front : Undisturbed base middle)
    (back : Undisturbed middle state) : Undisturbed base state where
  code := front.code.trans back.code
  builder := back.builder.trans front.builder
  types := back.types.trans front.types
  globals := back.globals.trans front.globals
  locals := back.locals.trans front.locals

theorem Undisturbed.append {base state : CompilerState} (same : Undisturbed base state)
    (entry : Emitted) : Undisturbed base (state.append entry) where
  code := same.code.trans (List.prefix_append _ _)
  builder := same.builder
  types := same.types
  globals := same.globals
  locals := same.locals

theorem quiet_undisturbed (base : CompilerState) : Quiet (Undisturbed base) where
  emits _ _ _ _ _ same _ := same.append _
  counter _ same := ⟨same.code, same.builder, same.types, same.globals, same.locals⟩
  global _ _ same := ⟨same.code, same.builder, same.types, same.globals, same.locals⟩

end Lambpie.Integers
