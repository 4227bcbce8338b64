/-
Statements of integers.

The code of a statement does to the slots what the interpreter does to the
variables, or stands at the return of the result.
-/
import Lambpie.Integers.Growth

namespace Lambpie.Integers

open Foundations
open Foundations.Comp
open Lambpie.Compiler
open Lambpie.Machine
open CompilerState

variable {module : Compiler.Module}

/-- A call, with the variables of the function and the memory it started in. -/
structure Activation where
  homes : Scope Value
  globals : Scope PyVal
  args : List RtVal
  dst : Nat
  callers : List Frame
  memory : Memory

variable {act : Activation} {fuel : Nat} {visible : List String} {env : Env}
  {slots : String → Nat} {state state' : CompilerState} {machine after : MachineState}

/-- What the caller left is as it was. -/
structure Active (act : Activation) (machine : MachineState) : Prop where
  args : machine.frame.args = act.args
  callers : machine.callers = act.callers
  dst : machine.frame.dst = act.dst
  slots : ∀ slot ∈ machine.frame.slots, act.memory.nextStack ≤ slot
  untouched : Untouched act.memory.nextStack act.memory machine.memory

theorem Active.evaluates {start : Nat} (active : Active act machine)
    (evaluates : Evaluates module start machine after) : Active act after where
  args := evaluates.frame.args.trans active.args
  callers := evaluates.callers.trans active.callers
  dst := evaluates.frame.dst.trans active.dst
  slots := by rw [evaluates.frame.slots]; exact active.slots
  untouched := active.untouched.trans evaluates.memory active.untouched.grown

structure Running (module : Compiler.Module) (act : Activation) (visible : List String)
    (env : Env) (slots : String → Nat) (state : CompilerState) (machine : MachineState) : Prop
    extends Poised module act.homes act.globals visible act.memory.nextStack env slots state machine
    where
  isOpen : state.IsOpen
  active : Active act machine

theorem Running.weaken {fewer : List String}
    (running : Running module act visible env slots state machine)
    (subset : ∀ name ∈ fewer, name ∈ visible) :
    Running module act fewer env slots state machine where
  known :=
    { int := running.known.int
      globals := running.known.globals
      locals := running.known.locals
      visible := fun name member => running.known.visible name (subset name member) }
  bound name member := running.bound name (subset name member)
  stands := running.stands
  stored := running.stored
  isOpen := running.isOpen
  active := running.active

def Ends (module : Compiler.Module) (act : Activation) (visible : List String)
    (state : CompilerState) (result : Env ⊕ Word) (after : MachineState) : Prop :=
  match result with
  | .inl env => ∃ slots, Running module act visible env slots state after
  | .inr number => Returning act.dst act.callers act.memory number after

/-- The code of the visit does what the interpreter does. -/
def Executes {α : Type} (module : Compiler.Module) (act : Activation) (fuel : Nat)
    (visible later names : List String) (compile : Visit α) (ran : Env → Ran (Env ⊕ Word)) : Prop :=
  ∀ state val state', compile state = .ok (val, state') → state.types "int" = some .i64 →
    Grown names state state' ∧
      (state'.module.code <+: module.code → Covers act.homes state' → Fresh names state →
        state.Tidy → ∀ env slots machine, Running module act visible env slots state machine →
          Tracks (step module) (fuel + 1) machine (ran env) (Ends module act later state'))

private theorem isOpen_of_lays {α : Type} {count : Nat} {visit : Visit α} {val : α}
    (lays : Lays (.straight count) visit) (tidy : state.Tidy) (isOpen : state.IsOpen)
    (run : visit state = .ok (val, state')) : state'.IsOpen := by
  obtain ⟨added, segment⟩ := lays _ _ _ tidy run
  exact ((segment.region.falls isOpen).mp rfl).1

theorem executes_pass : Executes module act fuel visible visible [] (visit .pass)
    fun env => .done (.inl env) := by
  intro state val state' run int
  obtain ⟨rfl, rfl⟩ := pure_ok_iff.mp run
  refine ⟨(Undisturbed.refl _).grown, fun _ _ _ _ env slots machine running => ?_⟩
  exact .done ⟨slots, running⟩

theorem executes_expr {node : Node} {ran : Env → Ran Word} (isHomes : Homes module act.homes)
    (expression : isExpression node = true)
    (computes : ∀ env slots, Computes module fuel act.homes act.globals visible
      act.memory.nextStack env slots (visit node) .i64 .i64 (ran env)) :
    Executes module act fuel visible visible [] (visit (.expr node))
      fun env => ran env >>= fun _ => .done (.inl env) := by
  intro state val state' run int
  obtain ⟨inner, _, visited, finished⟩ := bind_ok_iff.mp run
  obtain ⟨rfl, rfl⟩ := pure_ok_iff.mp finished
  have same := keeps_expression (quiet_undisturbed state) node expression _ _ _ (.refl state) visited
  refine ⟨same.grown, fun included covers fresh tidy env slots machine running => ?_⟩
  obtain ⟨-, tracks⟩ := computes env slots _ _ _ visited
  refine (tracks included machine running.toPoised).bind fun number after leaves => .done ?_
  exact ⟨slots, running.evaluates isHomes same leaves.stands leaves.evaluates,
    isOpen_of_lays (lays_expression expression) tidy running.isOpen visited,
    running.active.evaluates leaves.evaluates⟩

theorem executes_return {node : Node} {ran : Env → Ran Word}
    (expression : isExpression node = true)
    (computes : ∀ env slots, Computes module fuel act.homes act.globals visible
      act.memory.nextStack env slots (visit node) .i64 .i64 (ran env)) :
    Executes module act fuel visible visible [] (visit (.return_ (some node)))
      fun env => ran env >>= fun number => .done (.inr number) := by
  intro state val state' run int
  obtain ⟨inner, middle, visited, rest⟩ := bind_ok_iff.mp run
  obtain ⟨_, _, ended, finished⟩ := bind_ok_iff.mp rest
  obtain ⟨rfl, rfl⟩ := pure_ok_iff.mp finished
  obtain ⟨block, isOpen, rfl⟩ := terminate_ok ended
  have same := keeps_expression (quiet_undisturbed state) node expression _ _ _ (.refl state) visited
  refine ⟨(same.append _).grown, fun included covers fresh tidy env slots machine running => ?_⟩
  obtain ⟨-, tracks⟩ := computes env slots _ _ _ visited
  have before := (List.prefix_append _ _).trans included
  refine (tracks before machine running.toPoised).bind fun number after leaves => .done ?_
  have active := running.active.evaluates leaves.evaluates
  obtain ⟨pending, -⟩ := leaves.stands.next isOpen.1 included
  obtain ⟨value, rfl, -, evaluated, -⟩ := leaves.operand
  exact ⟨active.callers, active.dst, active.slots, active.untouched, _, _, _, pending, evaluated⟩

def MachineState.stored (machine : MachineState) (code : List (Nat × Instr)) (memory : Memory) :
    MachineState :=
  { machine with frame := { machine.frame with code }, memory }

private theorem execute_store {stored address : Value} {memory : Memory} {id : Nat}
    (code : List (Nat × Instr))
    (run : storeCells module machine.memory (eval machine.frame address)
      (encode (eval machine.frame stored) (sizeOf module stored.type)) = .ok memory) :
    execute module (machine.fetched code) id (.store stored address) =
      .ok (MachineState.stored machine code memory) := by
  have written : storeCells module (machine.fetched code).memory
      (eval (machine.fetched code).frame address)
      (encode (eval (machine.fetched code).frame stored) (sizeOf module stored.type)) =
        .ok memory := run
  simp only [execute, written, Outcome.ok_bind]
  rfl

private theorem reaches_store {stored address result : Value} {memory : Memory}
    (appends : Appends state (.store stored address) .void result state')
    (included : state'.module.code <+: module.code) (stands : At module state machine.frame)
    (run : storeCells module machine.memory (eval machine.frame address)
      (encode (eval machine.frame stored) (sizeOf module stored.type)) = .ok memory) :
    ∃ code, Reaches (step module) machine (MachineState.stored machine code memory) ∧
      At module state' { machine.frame with code } := by
  obtain ⟨block, standing, -, rfl⟩ := appends
  obtain ⟨pending, next⟩ := stands.next standing included
  exact ⟨_, .of_step (step_of_execute pending (execute_store _ run)), next _ rfl⟩

theorem ends_store {base : CompilerState} {stored address result : Value} {id : String}
    {content : Variable} {index : Nat} {number : Word} {start : Nat}
    (isHomes : Homes module act.homes)
    (running : Running module act visible env slots base machine)
    (same : Undisturbed base state) (stands : At module state after.frame)
    (evaluates : Evaluates module start machine after)
    (appends : Appends state (.store stored address) .void result state')
    (included : state'.module.code <+: module.code) (isOpen : state'.IsOpen)
    (isNumber : eval after.frame stored = .i64 number)
    (isAddress : eval after.frame address = .ptr (.stack (slots id)) ((8 * index : Nat) : Int))
    (found : env id = some content) (inside : index < content.cells.length) :
    ∃ last, Reaches (step module) after last ∧
      Ends module act visible state' (.inl (env.set id (content.write index number))) last := by
  have poised := running.evaluates isHomes same stands evaluates
  have active := running.active.evaluates evaluates
  have holds := poised.stored.content id content found
  obtain ⟨memory, run, written, sameStack, rest, others⟩ :=
    @Holds.store module _ _ _ _ holds number (sizeOf module stored.type) inside
  rw [← isNumber, ← isAddress] at run
  obtain ⟨code, reached, next⟩ := reaches_store appends included stands run
  refine ⟨_, reached, slots, ⟨⟨?_, ?_, next, ?_⟩, isOpen, active.args, active.callers,
    active.dst, active.slots, ?_⟩⟩
  · exact poised.known.undisturbed (appends.undisturbed (.refl state))
  · intro name member
    by_cases isId : name = id
    · subst isId
      exact ⟨_, Scope.set_self _ _ _⟩
    · obtain ⟨other, bound⟩ := poised.bound name member
      exact ⟨other, by rw [Scope.set_of_ne _ _ isId, bound]⟩
  · have frame := poised.stored.write found (content.write_type index number) written sameStack others
    exact frame.change rfl
  · have above := (poised.stored.allocated id content found).1
    have apart {block : Block} (below : Below act.memory.nextStack block) :
        block ≠ .stack (slots id) := by
      intro equal
      subst equal
      exact Nat.lt_irrefl _ (Nat.lt_of_lt_of_le below above)
    have last : Untouched act.memory.nextStack after.memory memory := by
      refine ⟨?_, sameStack.ge, fun block below => (others block (apart below)).1,
        fun block below => (others block (apart below)).2⟩
      rw [sameStack]
      exact rest
    exact active.untouched.trans last (Nat.le_refl _)

theorem executes_assignName {id : String} {node : Node} {ran : Env → Ran Word}
    (isHomes : Homes module act.homes) (member : id ∈ visible)
    (expression : isExpression node = true)
    (computes : ∀ env slots, Computes module fuel act.homes act.globals visible
      act.memory.nextStack env slots (visit node) .i64 .i64 (ran env)) :
    Executes module act fuel visible visible [] (assignName id (visit node))
      fun env => ran env >>= fun number => writeInt env id number >>= fun env =>
        .done (.inl env) := by
  intro state val state' run int
  obtain ⟨found, _, read, rest⟩ := bind_ok_iff.mp run
  obtain ⟨isFound, rfl⟩ := reads_ok_iff.mp read
  cases found with
  | none => exact (fail_ok_iff.mp rest).elim
  | some alloc =>
      obtain ⟨inner, middle, visited, written⟩ := bind_ok_iff.mp rest
      obtain ⟨_, _, storing, finished⟩ := bind_ok_iff.mp written
      obtain ⟨rfl, rfl⟩ := pure_ok_iff.mp finished
      obtain ⟨stored, address, result, rfl, isAlloc, -, appends⟩ := store_ok storing
      cases isAlloc
      have same := keeps_expression (quiet_undisturbed state) node expression _ _ _ (.refl state)
        visited
      refine ⟨(appends.undisturbed same).grown,
        fun included covers fresh tidy env slots machine running => ?_⟩
      obtain ⟨-, tracks⟩ := computes env slots _ _ _ visited
      have before := (appends.undisturbed (.refl middle)).code.trans included
      refine (tracks before machine running.toPoised).bind fun number between leaves => ?_
      have poised := running.evaluates isHomes same leaves.stands leaves.evaluates
      obtain ⟨content, slot, bound, isLocal, isAddress, -⟩ := poised.slot member
      rw [same.locals, isFound] at isLocal
      cases isLocal
      unfold writeInt
      rw [bound]
      cases content with
      | array cells => trivial
      | int old =>
          have isOpen : CompilerState.IsOpen _ := isOpen_of_lays
            (lays_assignName id expression) tidy running.isOpen run
          obtain ⟨value, isValue, -, evaluated, -⟩ := leaves.operand
          cases isValue
          have start : eval between.frame { type := .ptr .i64, operand := .reg slot } =
              .ptr (.stack (slots id)) ((8 * 0 : Nat) : Int) := isAddress
          obtain ⟨last, reached, ends⟩ := ends_store isHomes running same leaves.stands
            leaves.evaluates appends included isOpen evaluated start bound Nat.zero_lt_one
          exact .of_reaches reached (.done ends)

theorem executes_assignSubscript {id : String} {slice node : Node} {ranSlice ran : Env → Ran Word}
    (isHomes : Homes module act.homes) (member : id ∈ visible)
    (expressions : isExpression slice = true ∧ isExpression node = true)
    (computesSlice : ∀ env slots, Computes module fuel act.homes act.globals visible
      act.memory.nextStack env slots (visit slice) .i64 .i64 (ranSlice env))
    (computes : ∀ env slots, Computes module fuel act.homes act.globals visible
      act.memory.nextStack env slots (visit node) .i64 .i64 (ran env)) :
    Executes module act fuel visible visible []
      (assignSubscript (visitName id) (visit slice) (visit node))
      fun env => ranSlice env >>= fun index => ran env >>= fun number =>
        writeCell env id index number >>= fun env => .done (.inl env) := by
  intro state val state' run int
  obtain ⟨address, middle, addressed, rest⟩ := bind_ok_iff.mp run
  obtain ⟨inner, last, visited, written⟩ := bind_ok_iff.mp rest
  obtain ⟨_, _, storing, finished⟩ := bind_ok_iff.mp written
  obtain ⟨rfl, rfl⟩ := pure_ok_iff.mp finished
  obtain ⟨stored, ptr, result, rfl, isPtr, -, appends⟩ := store_ok storing
  cases isPtr
  have sameAddress := keeps_subscriptPtr (quiet_undisturbed state)
    (keeps_visitName (quiet_undisturbed state) id)
    (keeps_expression (quiet_undisturbed state) slice expressions.1) _ _ _ (.refl state) addressed
  have sameValue := keeps_expression (quiet_undisturbed middle) node expressions.2 _ _ _
    (.refl middle) visited
  have same := sameAddress.trans sameValue
  refine ⟨(appends.undisturbed same).grown,
    fun included covers fresh tidy env slots machine running => ?_⟩
  have before := (appends.undisturbed (.refl last)).code.trans included
  obtain ⟨content, slot, bound, isLocal, -, -⟩ := running.slot member
  cases content with
  | int value => exact absurd addressed (not_subscriptPtr_int isLocal)
  | array cells =>
      have tracks := tracks_subscriptPtr isHomes (computesSlice env slots) member bound addressed
        (sameValue.code.trans before) running.toPoised
      refine tracks.bind fun index between leaves => ?_
      have poised := running.evaluates isHomes sameAddress leaves.stands leaves.evaluates
      obtain ⟨-, tracks⟩ := computes env slots _ _ _ visited
      refine (tracks before between poised).bind fun number after leaves' => ?_
      have ordered := sameAddress.code.length_le
      have ordered' := sameValue.code.length_le
      obtain ⟨ptr, isPtr, -, isAddress, -⟩ :=
        leaves.operand.keep leaves'.evaluates.frame ordered'
      cases isPtr
      obtain ⟨value, isValue, -, evaluated, -⟩ := leaves'.operand
      cases isValue
      unfold writeCell
      rw [bound]
      by_cases inside : 0 ≤ index.toInt ∧ index.toInt.toNat < cells.length
      · simp only [if_pos inside]
        have place : (8 * index.toInt : Int) = ((8 * index.toInt.toNat : Nat) : Int) := by
          omega
        rw [place] at isAddress
        have quiet {base : CompilerState → Prop} (quiet : Quiet base) :
            Keeps base (visit slice) ∧ Keeps base (visit node) :=
          ⟨keeps_expression quiet slice expressions.1, keeps_expression quiet node expressions.2⟩
        have isOpen : CompilerState.IsOpen _ := isOpen_of_lays (lays_assignSubscript
          (fun holds => keeps_visitName holds id) (fun holds => (quiet holds).1)
          (fun holds => (quiet holds).2)) tidy running.isOpen run
        obtain ⟨last, reached, ends⟩ := ends_store isHomes running same leaves'.stands
          (leaves.evaluates.trans leaves'.evaluates ordered) appends included isOpen evaluated
          isAddress bound inside.2
        exact .of_reaches reached (.done ends)
      · simp only [if_neg inside]
        trivial

theorem getType_int (int : state.types "int" = some .i64) :
    getType (.name "int") state = .ok (.i64, state) := by
  change namedType "int" state = _
  unfold namedType
  rw [reads_then, if_neg (by decide), int]
  rfl

private theorem getType_declared { annotation : Node} {fresh : Variable}
    (int : state.types "int" = some .i64) (isDeclared : declared annotation = some fresh) :
    getType annotation state = .ok (fresh.type, state) := by
  unfold declared at isDeclared
  split at isDeclared
  · cases isDeclared
    exact getType_int int
  · obtain ⟨count, isArray, rfl⟩ := Option.map_eq_some_iff.mp isDeclared
    unfold arrayLength at isArray
    split at isArray
    · cases isArray
      change (getType (.name "int") >>= fun elemType =>
        (pure (.array elemType count) : Visit LType)) state = _
      rw [bind_of_ok (getType_int int), Variable.type, List.length_replicate]
      rfl
    · cases isArray

theorem nothing_declared { annotation : Node} {fresh : Variable}
    (isDeclared : declared annotation = some fresh) (index : Nat) (value : Word) :
    fresh.cells[index]? ≠ some (some value) := by
  unfold declared at isDeclared
  split at isDeclared
  · cases isDeclared
    cases index with
    | zero => intro found; cases found
    | succ index => intro found; cases found
  · obtain ⟨count, -, rfl⟩ := Option.map_eq_some_iff.mp isDeclared
    intro found
    have member := List.mem_of_getElem? found
    cases List.eq_of_mem_replicate member

def declareAt (state : CompilerState) (block : Label) (type : LType) (id : String) :
    CompilerState :=
  { state.append { block, instr := .alloca type } with
    localScope := state.localScope.set id
      { type := .ptr type, operand := .reg state.module.code.length } }

private theorem declare_ok {α : Type} { annotation : Node} {id : String} {fresh : Variable}
    {val : α}
    {next : String → LType → Value → Visit α} (int : state.types "int" = some .i64)
    (isDeclared : declared annotation = some fresh)
    (run : (do
      let varName ← targetName (.name id)
      let varType ← getType annotation
      let varAlloc ← alloca varType
      setLocal varName varAlloc
      next varName varType varAlloc : Visit α) state = .ok (val, state')) :
    ∃ block, state.builder = some block ∧
      next id fresh.type { type := .ptr fresh.type, operand := .reg state.module.code.length }
        (declareAt state block fresh.type id) = .ok (val, state') := by
  obtain ⟨name, _, named, typed⟩ := bind_ok_iff.mp run
  obtain ⟨rfl, rfl⟩ := pure_ok_iff.mp named
  rw [bind_of_ok (getType_declared int isDeclared)] at typed
  obtain ⟨alloc, _, allocated, bound⟩ := bind_ok_iff.mp typed
  obtain ⟨block, standing, rfl, rfl⟩ := alloca_ok allocated
  obtain ⟨_, _, isLocal, rest⟩ := bind_ok_iff.mp bound
  cases modify_ok_iff.mp isLocal
  exact ⟨block, standing, rest⟩

theorem grown_declareAt {block : Label} {type : LType} {id : String} :
    Grown [id] state (declareAt state block type id) where
  code := List.prefix_append _ _
  types := rfl
  globals := rfl
  kept name outside := Scope.set_of_ne _ _ fun same => outside (List.mem_singleton.mpr same)
  declared name member := by
    cases List.mem_singleton.mp member
    refine ⟨type, state.module.code.length, Scope.set_self _ _ _, Nat.le_refl _,
      { block, instr := .alloca type }, ?_, rfl⟩
    simp [declareAt, CompilerState.append]
  apart name other value value' member member' _ _ _ :=
    (List.mem_singleton.mp member).trans (List.mem_singleton.mp member').symm

theorem isOpen_append {block : Label} {instr : Instr} (isOpen : state.IsOpen)
    (inBlock : instr.isTerminator = false) : (state.append { block, instr }).IsOpen := by
  obtain ⟨label, standing, isOpen⟩ := isOpen
  refine ⟨label, standing, ?_⟩
  rintro ⟨entry, member, same, terminates⟩
  rcases List.mem_append.mp member with earlier | last
  · exact isOpen ⟨entry, earlier, same, terminates⟩
  · cases List.mem_singleton.mp last
    rw [inBlock] at terminates
    cases terminates

theorem reaches_declare {block : Label} {id : String} {fresh : Variable}
    (isHomes : Homes module act.homes)
    (running : Running module act visible env slots state machine)
    (standing : state.builder = some block)
    (included : (declareAt state block fresh.type id).module.code <+: module.code)
    (covers : Covers act.homes (declareAt state block fresh.type id))
    (nothing : ∀ (index : Nat) (value : Word), fresh.cells[index]? ≠ some (some value)) :
    ∃ after slots', Reaches (step module) machine after ∧
      Running module act (id :: visible) (env.set id fresh) slots'
        (declareAt state block fresh.type id) after := by
  obtain ⟨pending, next⟩ := running.stands.next standing included
  have isHome : act.homes id =
      some { type := .ptr fresh.type, operand := .reg state.module.code.length } :=
    covers id _ (Scope.set_self _ _ _)
  have allocated : step module machine = .next _ := step_of_execute pending rfl
  have above := running.active.untouched.grown
  have stored := running.stored.declare isHomes above isHome nothing
  refine ⟨_, _, .of_step allocated, ⟨⟨?_, ?_, ?_, stored.change rfl⟩,
    isOpen_append running.isOpen rfl, running.active.args, running.active.callers,
    running.active.dst, ?_, ?_⟩⟩
  · refine ⟨running.known.int, running.known.globals, covers, fun name member => ?_⟩
    by_cases same : name = id
    · subst same
      exact Option.isSome_iff_exists.mpr ⟨_, Scope.set_self _ _ _⟩
    · have earlier := running.known.visible name ((List.mem_cons.mp member).resolve_left same)
      change (Scope.set _ _ _ name).isSome
      rwa [Scope.set_of_ne _ _ same]
  · intro name member
    by_cases same : name = id
    · subst same
      exact ⟨_, Scope.set_self _ _ _⟩
    · obtain ⟨content, bound⟩ := running.bound name ((List.mem_cons.mp member).resolve_left same)
      exact ⟨content, by rw [Scope.set_of_ne _ _ same, bound]⟩
  · have stands := next _ rfl
    exact ⟨stands.builder, stands.code⟩
  · intro slot member
    rcases List.mem_cons.mp member with rfl | earlier
    · exact above
    · exact running.active.slots slot earlier
  · exact running.active.untouched.trans (untouched_pushSlot _ _) above

theorem executes_declaration { annotation : Node} {id : String} {fresh : Variable}
    (isHomes : Homes module act.homes) (isDeclared : declared annotation = some fresh) :
    Executes module act fuel visible (id :: visible) [id]
      (visit (.annAssign (.name id) annotation none)) fun env => .done (.inl (env.set id fresh)) := by
  intro state val state' run int
  obtain ⟨block, standing, finished⟩ := declare_ok int isDeclared run
  obtain ⟨rfl, rfl⟩ := pure_ok_iff.mp finished
  refine ⟨grown_declareAt, fun included covers _ _ env slots machine running => ?_⟩
  obtain ⟨after, slots', reached, running'⟩ := reaches_declare isHomes running standing included
    covers (nothing_declared isDeclared)
  exact .of_reaches reached (.done ⟨slots', running'⟩)

theorem set_set (env : Env) (id : String) (old new : Variable) :
    (env.set id old).set id new = env.set id new := by
  funext name
  by_cases same : name = id
  · rw [same, Scope.set_self, Scope.set_self]
  · rw [Scope.set_of_ne _ _ same, Scope.set_of_ne _ _ same, Scope.set_of_ne _ _ same]

/-- The initial value is evaluated when the variable is there already, but it
cannot name it. -/
theorem executes_initial {id : String} {node : Node} {ran : Env → Ran Word}
    (isHomes : Homes module act.homes) (expression : isExpression node = true)
    (congr : ∀ env env', (∀ name ∈ visible, env' name = env name) → ran env' = ran env)
    (computes : ∀ env slots, Computes module fuel act.homes act.globals visible
      act.memory.nextStack env slots (visit node) .i64 .i64 (ran env)) :
    Executes module act fuel visible (id :: visible) [id]
      (visit (.annAssign (.name id) (.name "int") (some node)))
      fun env => ran env >>= fun number => .done (.inl (env.set id (.int (some number)))) := by
  intro state val state' run int
  have isDeclared : declared (.name "int") = some (.int none) := rfl
  obtain ⟨block, standing, rest⟩ := declare_ok int isDeclared run
  obtain ⟨inner, middle, visited, written⟩ := bind_ok_iff.mp rest
  obtain ⟨_, _, storing, finished⟩ := bind_ok_iff.mp written
  obtain ⟨rfl, rfl⟩ := pure_ok_iff.mp finished
  obtain ⟨stored, address, result, rfl, isAddress, -, appends⟩ := store_ok storing
  cases isAddress
  have same := keeps_expression (quiet_undisturbed _) node expression _ _ _ (.refl _) visited
  have last := appends.undisturbed same
  refine ⟨grown_declareAt.trans last.grown,
    fun included covers fresh tidy env slots machine running => ?_⟩
  have covers' : Covers act.homes (declareAt state block .i64 id) := by
    intro name value bound
    apply covers name value
    rw [last.locals]
    exact bound
  obtain ⟨between, slots', reached, running'⟩ := reaches_declare isHomes running standing
    (last.code.trans included) covers' (nothing_declared isDeclared)
  have unseen : ran (env.set id (.int none)) = ran env := by
    apply congr
    intro name member
    apply Scope.set_of_ne
    intro same
    have isBound := running.known.visible name member
    rw [same, fresh.unbound id List.mem_cons_self] at isBound
    cases isBound
  dsimp only
  rw [← unseen]
  apply Tracks.of_reaches reached
  have poised := (running'.weaken fun name member => List.mem_cons_of_mem id member).toPoised
  obtain ⟨-, tracks⟩ := computes (env.set id (.int none)) slots' _ _ _ visited
  have before := (appends.undisturbed (.refl middle)).code.trans included
  refine (tracks before between poised).bind fun number after leaves => ?_
  obtain ⟨content, slot, bound, isLocal, isAddress, -⟩ :=
    (running'.evaluates isHomes same leaves.stands leaves.evaluates).slot List.mem_cons_self
  rw [Scope.set_self] at bound
  cases bound
  rw [same.locals] at isLocal
  cases isLocal.symm.trans (Scope.set_self _ _ _)
  have start : eval after.frame { type := .ptr .i64, operand := .reg state.module.code.length } =
      .ptr (.stack (slots' id)) ((8 * 0 : Nat) : Int) := isAddress
  have isOpen : CompilerState.IsOpen _ := isOpen_of_lays
    (lays_visitAnnAssign _ _ expression) tidy running.isOpen run
  obtain ⟨value, isValue, -, evaluated, -⟩ := leaves.operand
  cases isValue
  obtain ⟨final, arrived, ends⟩ := ends_store isHomes running' same leaves.stands leaves.evaluates
    appends included isOpen evaluated start (Scope.set_self _ _ _) Nat.zero_lt_one
  rw [set_set] at ends
  exact .of_reaches arrived (.done ends)

end Lambpie.Integers
