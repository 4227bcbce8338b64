/-
Runs that stay inside the functions.

Control moves along the branches of the code, from the entry of a function.
So a run keeps to the blocks that a walk leads to, and where the functions
return on every path there is no `unreachable` in those.
-/
import Lambpie.Compiler.NoUnreachable
import Lambpie.Compiler.SlotCycles
import Lambpie.Machine.ArenaDiscipline

namespace Lambpie.Machine

open Foundations
open Lambpie.Compiler
open Relation

def MachineState.instr? (state : MachineState) : Option Instr :=
  state.frame.code.head?.map (·.2)

/-- The walks along the branches lead out of no function's blocks. -/
theorem closedBlocks_walk (compiled : CompilerState) :
    ClosedBlocks compiled.module fun label => ∃ count, compiled.graph.Walk count label := by
  rintro ⟨block, instr⟩ written ⟨count, walk⟩ target leads
  cases instr with
  | call index args =>
      obtain ⟨func, found, defined⟩ := Option.bind_eq_some_iff.mp (Option.mem_toList.mp leads)
      refine ⟨0, .entry (List.mem_map.mpr ⟨func, List.mem_of_getElem? found, defined⟩)⟩
  | _ => exact ⟨count + 1, walk.branch ⟨_, written, rfl, leads⟩⟩

private theorem instr?_eq_some {state : MachineState} {instr : Instr}
    (next : state.instr? = some instr) :
    ∃ id code, state.frame.code = (id, instr) :: code := by
  obtain ⟨⟨id, other⟩, isHead, rfl⟩ := Option.map_eq_some_iff.mp next
  obtain ⟨code, pending⟩ := List.head?_eq_some_iff.mp isHead
  exact ⟨id, code, pending⟩

private theorem walk_of_branches {compiled : CompilerState} {func : Function} {first label : Label}
    (member : func ∈ compiled.module.functions) (defined : func.entry = some first)
    (branches : ReflTransGen compiled.module.Branches first label) :
    ∃ count, compiled.graph.Walk count label := by
  induction branches with
  | refl => exact ⟨0, .entry (List.mem_map.mpr ⟨func, member, defined⟩)⟩
  | tail _ edge ih =>
      obtain ⟨count, walk⟩ := ih
      exact ⟨count + 1, walk.branch edge⟩

/-- No path through the branches of a function leads to `unreachable`, and no call
of any function of the module does, with any arguments and from any memory. -/
theorem never_unreachable {tree : List Node} {module : Module}
    (compiled : compile tree = .ok module) (returns : returnsEverywhere tree = true) :
    (∀ func ∈ module.functions, ∀ first ∈ func.entry, ∀ entry ∈ module.code,
      entry.instr = .unreachable → ¬ReflTransGen module.Branches first entry.block) ∧
    ∀ index args memory start, callState module index args memory = some start →
      ∀ state, Reaches (step module) start state → state.instr? ≠ some .unreachable := by
  obtain ⟨last, ran, rfl⟩ := compile_ok_iff.mp compiled
  constructor
  · intro func member first defined entry written isUnreachable branches
    obtain ⟨count, walk⟩ := walk_of_branches member defined branches
    exact unreachable_unwalked ran returns written isUnreachable count walk
  · intro index args memory start called state reached next
    obtain ⟨id, code, pending⟩ := instr?_eq_some next
    have placed := (placed_callState called).reached reached
    have starts : Inside (fun label => ∃ count, last.graph.Walk count label) start :=
      inside_callState called fun func entry found defined =>
        ⟨0, .entry (List.mem_map.mpr ⟨func, List.mem_of_getElem? found, defined⟩)⟩
    obtain ⟨count, walk⟩ :=
      (starts.reached (closedBlocks_walk last) (placed_callState called) reached).frame
    exact unreachable_unwalked ran returns (placed.frame.mem_code pending) rfl count walk

/-- `while n < 3: n = n + 1`, then `if n == 3: return Response(n)` and
`else: return Response(1)`. -/
def countingProgram : List Node :=
  programWith [] [.whileStmt (.compare nameN [(.lt, .constant (.int 3))])
      [.assign nameN [] (.binOp nameN .add one)] [],
    .ifStmt (.compare nameN [(.eq, .constant (.int 3))])
      [.return_ (some (.call (.name "Response") [nameN] []))]
      [.return_ (some (.call (.name "Response") [one] []))]]

/-- The call of `handle` for an event with the number 1 goes round the loop twice
and constructs the answer in a branch. -/
theorem never_unreachable_example :
    ∃ module memory start state, compileProgram countingProgram = .ok module ∧
      handleState module memory numberEvent (fun _ => .byte 0) = some start ∧
      Reaches (step module) start state ∧ state.callers.length = 2 ∧
      state.instr? ≠ some .unreachable := by
  obtain ⟨module, compiled, returns, evaluated⟩ : ∃ module,
      compileProgram countingProgram = .ok module ∧
        returnsEverywhere (builtins ++ countingProgram) = true ∧
        (firstEvent module sampleMappings 20 numberEvent).any (fun start =>
          decide ((runFor (step module) 46 start).Running
            fun state => state.callers.length = 2)) = true :=
    exists_compiled_of_check (by decide +kernel)
  obtain ⟨start, called, evaluated⟩ := (Option.any_eq_true _ _).mp evaluated
  obtain ⟨memory, -, called⟩ := serving_firstEvent called
  obtain ⟨state, reached, inCall⟩ :=
    exists_reaches_of_runFor (step module) _ 46 start (of_decide_eq_true evaluated)
  obtain ⟨index, -, calledFunction⟩ := Option.bind_eq_some_iff.mp called
  exact ⟨module, memory, start, state, compiled, called, reached, inCall,
    (never_unreachable compiled returns).2 _ _ _ _ calledFunction state reached⟩

/-- `def handle(event: Request) -> Response: pass`. -/
def stubProgram : List Node :=
  [eventClass, responseClass,
    .functionDef "handle" [("event", some (.name "Request"))] (some (.name "Response"))
      [.pass] []]

/-- The stub is accepted, and an event reaches its `unreachable`. -/
theorem stub_reaches_unreachable :
    ∃ module, compileProgram stubProgram = .ok module ∧
      ¬∀ memory, Serving module memory →
        ∀ event residue start, handleState module memory event residue = some start →
          ∀ state, Reaches (step module) start state →
            state.instr? ≠ some .unreachable := by
  obtain ⟨module, compiled, evaluated⟩ : ∃ module,
      compileProgram stubProgram = .ok module ∧
        (firstEvent module sampleMappings 20 numberEvent).any (fun start =>
          decide ((runFor (step module) 12 start).Running
            fun state => state.instr? = some .unreachable)) = true :=
    exists_compiled_of_check (by decide +kernel)
  refine ⟨module, compiled, fun never => ?_⟩
  obtain ⟨start, called, evaluated⟩ := (Option.any_eq_true _ _).mp evaluated
  obtain ⟨memory, serving, called⟩ := serving_firstEvent called
  obtain ⟨state, reached, next⟩ :=
    exists_reaches_of_runFor (step module) _ 12 start (of_decide_eq_true evaluated)
  exact never memory serving _ _ start called state reached next

end Lambpie.Machine
