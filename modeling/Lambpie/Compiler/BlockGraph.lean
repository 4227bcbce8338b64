/-
The branches between the blocks of a module under construction.

A visit adds blocks and branches, and the branches it adds lead to blocks it
added.  So what leads to a block is known once the visit that made the block is
over, and a block that no walk from a function's entry reaches can be told from
the code of that visit alone.
-/
import Lambpie.Compiler.Definitions

namespace Lambpie.Compiler

open Foundations
open Foundations.Comp

theorem targets_of_inBlock {instr : Instr} (inBlock : instr.isTerminator = false) :
    instr.targets = [] := by
  cases instr with
  | br | cbr | ret | retVoid | unreachable => cases inBlock
  | _ => rfl

/-- What the branches of a module depend on: its code, the entry block of each
function and the block that is written to. -/
@[ext]
structure Graph where
  code : List Emitted
  blockCount : Nat
  entries : List (Option Label)
  builder : Option Label

def CompilerState.graph (state : CompilerState) : Graph where
  code := state.module.code
  blockCount := state.module.blockCount
  entries := state.module.functions.map (·.entry)
  builder := state.builder

namespace Graph

def Edge (graph : Graph) (block label : Label) : Prop :=
  ∃ entry ∈ graph.code, entry.block = block ∧ label ∈ entry.instr.targets

/-- A walk of so many branches from the entry of a function. -/
inductive Walk (graph : Graph) : Nat → Label → Prop where
  | entry {label : Label} (isEntry : some label ∈ graph.entries) :
      Walk graph 0 label
  | branch {count : Nat} {block label : Label} (before : Walk graph count block)
      (edge : graph.Edge block label) : Walk graph (count + 1) label

def Terminated (graph : Graph) (label : Label) : Prop :=
  ∃ entry ∈ graph.code, entry.block = label ∧ entry.instr.isTerminator = true

structure Sound (graph : Graph) : Prop where
  targets : ∀ entry ∈ graph.code, ∀ label ∈ entry.instr.targets,
    label.index < graph.blockCount
  entries : ∀ (index : Nat) (label : Label), graph.entries[index]? = some (some label) →
    label.func = index ∧ label.index < graph.blockCount
  builder : ∀ label, graph.builder = some label →
    ∃ entry, graph.entries[label.func]? = some (some entry)

structure Extends (base graph : Graph) : Prop where
  code : base.code <+: graph.code
  blocks : base.blockCount ≤ graph.blockCount
  entries : ∀ (index : Nat) (label : Label), base.entries[index]? = some (some label) →
    graph.entries[index]? = some (some label)
  fresh : ∀ label, some label ∈ graph.entries →
    some label ∈ base.entries ∨ base.blockCount ≤ label.index

/-- The branches that are added lead to blocks that are added. -/
structure Grows (base graph : Graph) : Prop extends Extends base graph where
  edges : ∀ block label, graph.Edge block label →
    base.Edge block label ∨ base.blockCount ≤ label.index

theorem Terminated.mono {base graph : Graph} {label : Label}
    (terminated : base.Terminated label) (added : Extends base graph) :
    graph.Terminated label := by
  obtain ⟨entry, member, facts⟩ := terminated
  exact ⟨entry, added.code.subset member, facts⟩

theorem Extends.refl (graph : Graph) : Extends graph graph where
  code := List.prefix_refl _
  blocks := Nat.le_refl _
  entries _ _ same := same
  fresh _ member := .inl member

theorem Extends.trans {base middle graph : Graph} (head : Extends base middle)
    (tail : Extends middle graph) : Extends base graph where
  code := head.code.trans tail.code
  blocks := head.blocks.trans tail.blocks
  entries index label same := tail.entries index label (head.entries index label same)
  fresh := by
    intro label member
    rcases tail.fresh label member with inMiddle | later
    · exact head.fresh label inMiddle
    · exact .inr (head.blocks.trans later)

theorem Grows.refl (graph : Graph) : Grows graph graph where
  toExtends := Extends.refl graph
  edges _ _ edge := .inl edge

theorem Grows.trans {base middle graph : Graph} (head : base.Grows middle)
    (tail : middle.Grows graph) : base.Grows graph where
  toExtends := head.toExtends.trans tail.toExtends
  edges := by
    intro block label edge
    rcases tail.edges block label edge with inMiddle | later
    · exact head.edges block label inMiddle
    · exact .inr (head.blocks.trans later)

/-! ### Blocks without a walk -/

/-- A walk of so many branches leads to a block that is added only from the
entry of a function or along a branch of the code. -/
def Grounded (walks : Nat → Label → Prop) (base graph : Graph) : Prop :=
  ∀ label, base.blockCount ≤ label.index → label.index < graph.blockCount →
    ∀ count, walks count label →
      some label ∈ graph.entries ∨
        ∃ block earlier, earlier < count ∧ walks earlier block ∧
          graph.Edge block label

theorem grounded_walk (base graph : Graph) : Grounded graph.Walk base graph := by
  intro label _ _ count walk
  cases walk with
  | entry isEntry => exact .inl isEntry
  | branch before edge => exact .inr ⟨_, _, Nat.lt_succ_self _, before, edge⟩

/-- What is added between two points of a visit is grounded in what was written
by the second, if nothing written after leads there. -/
theorem Grounded.inner {walks : Nat → Label → Prop} {base first second graph : Graph}
    (grounded : Grounded walks base graph)
    (front : base.blockCount ≤ first.blockCount) (rest : Extends second graph)
    (edges : ∀ block label, first.blockCount ≤ label.index →
      label.index < second.blockCount → graph.Edge block label →
        second.Edge block label) :
    Grounded walks first second := by
  intro label from_ below count walk
  rcases grounded label (front.trans from_) (Nat.lt_of_lt_of_le below rest.blocks)
    count walk with isEntry | ⟨block, earlier, shorter, before, edge⟩
  · rcases rest.fresh label isEntry with inSecond | later
    · exact .inl inSecond
    · omega
  · exact .inr ⟨block, earlier, shorter, before, edges block label from_ below edge⟩

theorem Grounded.front {walks : Nat → Label → Prop} {base middle graph : Graph}
    (grounded : Grounded walks base graph) (rest : middle.Grows graph) :
    Grounded walks base middle := by
  apply grounded.inner (Nat.le_refl _) rest.toExtends
  intro block label _ below edge
  rcases rest.edges block label edge with inMiddle | later
  · exact inMiddle
  · omega

theorem Grounded.back {walks : Nat → Label → Prop} {base middle graph : Graph}
    (grounded : Grounded walks base graph)
    (blocks : base.blockCount ≤ middle.blockCount) :
    Grounded walks middle graph :=
  grounded.inner blocks (Extends.refl graph) fun _ _ _ _ edge => edge

/-- Control does not go on in the block that is written to: it has its
terminator, or no walk of at most so many branches leads there. -/
def Done (walks : Nat → Label → Prop) (bound : Nat) (graph : Graph) : Prop :=
  ∀ label, graph.builder = some label →
    graph.Terminated label ∨ ∀ count ≤ bound, ¬walks count label

/-- What is added keeps the graph sound, and an `unreachable` among it stands in
a block that no walk leads to. -/
structure Adds (base graph : Graph) : Prop where
  sound : graph.Sound
  grows : base.Grows graph
  unreachable : ∀ walks, Grounded walks base graph →
    ∀ entry ∈ graph.code, entry.instr = .unreachable → entry ∈ base.code ∨
      ∀ count, ¬walks count entry.block

/-- Of a visit: where control cannot go on before it, or cannot pass through
what is visited, it does not go on after it. -/
structure Passes (falls : Bool) (base graph : Graph) : Prop extends
    Adds base graph where
  done : ∀ walks, Grounded walks base graph → ∀ bound,
    falls = false ∨ Done walks bound base → Done walks bound graph

theorem Adds.refl {graph : Graph} (sound : graph.Sound) : Adds graph graph where
  sound := sound
  grows := Grows.refl graph
  unreachable _ _ _ member _ := .inl member

theorem Adds.trans {base middle graph : Graph} (head : Adds base middle)
    (tail : Adds middle graph) : Adds base graph where
  sound := tail.sound
  grows := head.grows.trans tail.grows
  unreachable := by
    intro walks grounded entry member isUnreachable
    have front := grounded.front tail.grows
    have back := grounded.back head.grows.blocks
    rcases tail.unreachable walks back entry member isUnreachable with inMiddle | dead
    · exact head.unreachable walks front entry inMiddle isUnreachable
    · exact .inr dead

theorem Adds.passes {base graph : Graph} (adds : Adds base graph)
    (builder : graph.builder = base.builder) : Passes true base graph where
  toAdds := adds
  done := by
    rintro walks - bound (isFalse | done)
    · cases isFalse
    · intro label standing
      rcases done label (builder ▸ standing) with terminated | dead
      · exact .inl (terminated.mono adds.grows.toExtends)
      · exact .inr dead

theorem Passes.refl {graph : Graph} (sound : graph.Sound) : Passes true graph graph :=
  (Adds.refl sound).passes rfl

theorem Passes.trans {first second : Bool} {base middle graph : Graph}
    (head : Passes first base middle) (tail : Passes second middle graph) :
    Passes (first && second) base graph where
  toAdds := head.toAdds.trans tail.toAdds
  done := by
    intro walks grounded bound cannot
    have front := grounded.front tail.grows
    have back := grounded.back head.grows.blocks
    apply tail.done walks back bound
    rcases cannot with neither | done
    · rcases Bool.and_eq_false_iff.mp neither with first | second
      · exact .inr (head.done walks front bound (.inl first))
      · exact .inl second
    · exact .inr (head.done walks front bound (.inr done))

theorem Passes.weaken {falls : Bool} {base graph : Graph}
    (passes : Passes falls base graph) : Passes true base graph where
  toAdds := passes.toAdds
  done := by
    rintro walks grounded bound (isFalse | done)
    · cases isFalse
    · exact passes.done walks grounded bound (.inr done)

/-! ### Adding to a graph -/

def write (graph : Graph) (entry : Emitted) : Graph :=
  { graph with code := graph.code ++ [entry] }

def addBlock (graph : Graph) : Graph :=
  { graph with blockCount := graph.blockCount + 1 }

def declare (graph : Graph) : Graph :=
  { graph with entries := graph.entries ++ [none] }

/-- A function with its entry block, which is written to. -/
def begin (graph : Graph) : Graph where
  code := graph.code
  blockCount := graph.blockCount + 1
  entries := graph.entries ++
    [some { func := graph.entries.length, index := graph.blockCount }]
  builder := some { func := graph.entries.length, index := graph.blockCount }

def standAt (graph : Graph) (label : Label) : Graph :=
  { graph with builder := some label }

theorem mem_write {graph : Graph} {entry other : Emitted} :
    other ∈ (graph.write entry).code ↔ other ∈ graph.code ∨ other = entry := by
  rw [write, List.mem_append, List.mem_singleton]

theorem Edge.write {graph : Graph} {entry : Emitted} {block label : Label}
    (edge : (graph.write entry).Edge block label) :
    graph.Edge block label ∨ (entry.block = block ∧ label ∈ entry.instr.targets) := by
  obtain ⟨other, member, atBlock, target⟩ := edge
  rcases mem_write.mp member with inGraph | rfl
  · exact .inl ⟨other, inGraph, atBlock, target⟩
  · exact .inr ⟨atBlock, target⟩

theorem extends_write (graph : Graph) (entry : Emitted) :
    Extends graph (graph.write entry) where
  code := List.prefix_append _ _
  blocks := Nat.le_refl _
  entries _ _ same := same
  fresh _ member := .inl member

theorem extends_addBlock (graph : Graph) : Extends graph graph.addBlock where
  code := List.prefix_refl _
  blocks := Nat.le_succ _
  entries _ _ same := same
  fresh _ member := .inl member

theorem extends_standAt (graph : Graph) (label : Label) :
    Extends graph (graph.standAt label) where
  code := List.prefix_refl _
  blocks := Nat.le_refl _
  entries _ _ same := same
  fresh _ member := .inl member

private theorem getElem?_concat_some {entries : List (Option Label)} {last : Option Label}
    {index : Nat} {label : Label}
    (found : (entries ++ [last])[index]? = some (some label)) :
    entries[index]? = some (some label) ∨
      (index = entries.length ∧ last = some label) := by
  rcases Nat.lt_trichotomy index entries.length with below | same | above
  · rw [List.getElem?_append_left below] at found
    exact .inl found
  · subst same
    rw [List.getElem?_concat_length] at found
    exact .inr ⟨rfl, Option.some.inj found⟩
  · have outside : (entries ++ [last]).length ≤ index := by
      rw [List.length_append, List.length_singleton]
      omega
    rw [List.getElem?_eq_none outside] at found
    cases found

private theorem grows_declare (graph : Graph) : Grows graph graph.declare where
  code := List.prefix_refl _
  blocks := Nat.le_refl _
  entries index label same := by
    have below := (List.getElem?_eq_some_iff.mp same).1
    rw [declare, List.getElem?_append_left below]
    exact same
  fresh label member := by
    rcases List.mem_append.mp member with inGraph | added
    · exact .inl inGraph
    · cases List.mem_singleton.mp added
  edges _ _ edge := .inl edge

private theorem grows_begin (graph : Graph) : Grows graph graph.begin where
  code := List.prefix_refl _
  blocks := Nat.le_succ _
  entries index label same := by
    have below := (List.getElem?_eq_some_iff.mp same).1
    rw [begin, List.getElem?_append_left below]
    exact same
  fresh label member := by
    rcases List.mem_append.mp member with inGraph | added
    · exact .inl inGraph
    · have isNew := Option.some.inj (List.mem_singleton.mp added)
      rw [isNew]
      exact .inr (Nat.le_refl _)
  edges _ _ edge := .inl edge

namespace Sound

variable {graph : Graph}

theorem write (sound : graph.Sound) {entry : Emitted}
    (leads : ∀ label ∈ entry.instr.targets, label.index < graph.blockCount) :
    (graph.write entry).Sound where
  targets := by
    intro other member
    rcases mem_write.mp member with inGraph | rfl
    · exact sound.targets other inGraph
    · exact leads
  entries := sound.entries
  builder := sound.builder

theorem addBlock (sound : graph.Sound) : graph.addBlock.Sound where
  targets entry member label target :=
    Nat.lt_succ_of_lt (sound.targets entry member label target)
  entries index label found :=
    ⟨(sound.entries index label found).1,
      Nat.lt_succ_of_lt (sound.entries index label found).2⟩
  builder := sound.builder

theorem standAt (sound : graph.Sound) {label entry : Label}
    (inside : graph.entries[label.func]? = some (some entry)) :
    (graph.standAt label).Sound where
  targets := sound.targets
  entries := sound.entries
  builder := by
    rintro other same
    cases same
    exact ⟨entry, inside⟩

theorem declare (sound : graph.Sound) : graph.declare.Sound where
  targets := sound.targets
  entries index label found := by
    rcases getElem?_concat_some found with inGraph | ⟨-, absent⟩
    · exact sound.entries index label inGraph
    · cases absent
  builder label standing := by
    obtain ⟨entry, found⟩ := sound.builder label standing
    exact ⟨entry, (grows_declare graph).entries _ _ found⟩

theorem begin (sound : graph.Sound) : graph.begin.Sound where
  targets entry member label target :=
    Nat.lt_succ_of_lt (sound.targets entry member label target)
  entries index label found := by
    rcases getElem?_concat_some found with inGraph | ⟨isLast, same⟩
    · have inside := sound.entries index label inGraph
      exact ⟨inside.1, Nat.lt_succ_of_lt inside.2⟩
    · cases same
      exact ⟨isLast.symm, Nat.lt_succ_self _⟩
  builder := by
    rintro label same
    cases same
    exact ⟨_, List.getElem?_concat_length⟩

end Sound

theorem adds_write {graph : Graph} (sound : graph.Sound) {entry : Emitted}
    (leaves : entry.instr.targets = []) (plain : entry.instr ≠ .unreachable) :
    Adds graph (graph.write entry) where
  sound := by
    apply sound.write
    rw [leaves]
    intro label member
    cases member
  grows := by
    refine { toExtends := extends_write graph entry, edges := ?_ }
    intro block label edge
    rcases edge.write with inGraph | ⟨-, target⟩
    · exact .inl inGraph
    · rw [leaves] at target
      cases target
  unreachable := by
    intro walks _ other member isUnreachable
    rcases mem_write.mp member with inGraph | rfl
    · exact .inl inGraph
    · exact absurd isUnreachable plain

theorem ne_unreachable {instr : Instr} (inBlock : instr.isTerminator = false) :
    instr ≠ .unreachable := by
  rintro rfl
  cases inBlock

theorem adds_declare {graph : Graph} (sound : graph.Sound) :
    Adds graph graph.declare where
  sound := sound.declare
  grows := grows_declare graph
  unreachable _ _ _ member _ := .inl member

theorem adds_begin {graph : Graph} (sound : graph.Sound) :
    Adds graph graph.begin where
  sound := sound.begin
  grows := grows_begin graph
  unreachable _ _ _ member _ := .inl member

theorem passes_terminate {graph : Graph} (sound : graph.Sound) {entry : Emitted}
    (standing : graph.builder = some entry.block)
    (terminates : entry.instr.isTerminator = true)
    (leaves : entry.instr.targets = [])
    (plain : entry.instr ≠ .unreachable) :
    Passes false graph (graph.write entry) where
  toAdds := adds_write sound leaves plain
  done := by
    intro walks _ bound _ label same
    have isBlock : entry.block = label := Option.some.inj (standing.symm.trans same)
    exact .inl ⟨entry, mem_write.mpr (.inr rfl), isBlock, terminates⟩

def OpenAt (graph : Graph) (label : Label) : Prop :=
  graph.builder = some label ∧ ¬graph.Terminated label

def Leaves (instr : Instr) (before after : Graph) : Prop :=
  ∃ label, before.OpenAt label ∧ after = before.write { block := label, instr }

/-- The block written to goes on to the target unless it has its terminator. -/
def Joins (target : Label) (before after : Graph) : Prop :=
  (∃ label, before.builder = some label ∧ before.Terminated label ∧ after = before) ∨
    Leaves (.br target) before after

section

variable {instr : Instr} {target block label : Label} {before after : Graph}

theorem Leaves.extends_ (leaves : Leaves instr before after) : Extends before after := by
  obtain ⟨label, -, rfl⟩ := leaves
  exact extends_write before { block := label, instr }

theorem Leaves.blocks (leaves : Leaves instr before after) :
    after.blockCount = before.blockCount := by
  obtain ⟨_, -, rfl⟩ := leaves
  rfl

theorem Leaves.edge (leaves : Leaves instr before after)
    (edge : after.Edge block label) :
    before.Edge block label ∨ (before.OpenAt block ∧ label ∈ instr.targets) := by
  obtain ⟨_, isOpen, rfl⟩ := leaves
  rcases edge.write with earlier | ⟨rfl, leads⟩
  · exact .inl earlier
  · exact .inr ⟨isOpen, leads⟩

theorem Leaves.sound (leaves : Leaves instr before after) (sound : before.Sound)
    (leads : ∀ label ∈ instr.targets, label.index < before.blockCount) :
    after.Sound := by
  obtain ⟨_, -, rfl⟩ := leaves
  exact sound.write leads

theorem Leaves.unreachable (leaves : Leaves instr before after)
    (plain : instr ≠ .unreachable) :
    ∀ entry ∈ after.code, entry.instr = .unreachable → entry ∈ before.code := by
  obtain ⟨_, -, rfl⟩ := leaves
  intro entry member isUnreachable
  rcases mem_write.mp member with earlier | rfl
  · exact earlier
  · exact absurd isUnreachable plain

theorem Joins.extends_ (joins : Joins target before after) : Extends before after := by
  rcases joins with ⟨_, -, -, rfl⟩ | leaves
  · exact Extends.refl _
  · exact leaves.extends_

theorem Joins.blocks (joins : Joins target before after) :
    after.blockCount = before.blockCount := by
  rcases joins with ⟨_, -, -, rfl⟩ | leaves
  · rfl
  · exact leaves.blocks

theorem Joins.edge (joins : Joins target before after)
    (edge : after.Edge block label) :
    before.Edge block label ∨ (before.OpenAt block ∧ label = target) := by
  rcases joins with ⟨_, -, -, rfl⟩ | leaves
  · exact .inl edge
  · rcases leaves.edge edge with earlier | ⟨isOpen, leads⟩
    · exact .inl earlier
    · exact .inr ⟨isOpen, List.mem_singleton.mp leads⟩

theorem Joins.sound (joins : Joins target before after) (sound : before.Sound)
    (inside : target.index < before.blockCount) : after.Sound := by
  rcases joins with ⟨_, -, -, rfl⟩ | leaves
  · exact sound
  · exact leaves.sound sound fun label member => List.mem_singleton.mp member ▸ inside

theorem Joins.unreachable (joins : Joins target before after) :
    ∀ entry ∈ after.code, entry.instr = .unreachable → entry ∈ before.code := by
  rcases joins with ⟨_, -, -, rfl⟩ | leaves
  · exact fun _ member _ => member
  · exact leaves.unreachable Instr.noConfusion

def Dead (walks : Nat → Label → Prop) (bound : Nat) (label : Label) : Prop :=
  ∀ count ≤ bound, ¬walks count label

theorem Done.dead {walks : Nat → Label → Prop} {bound : Nat} {graph : Graph}
    (done : Done walks bound graph) (isOpen : graph.OpenAt label) :
    Dead walks bound label :=
  (done label isOpen.1).resolve_left isOpen.2

theorem Dead.done {walks : Nat → Label → Prop} {bound : Nat} (graph : Graph)
    (dead : Dead walks bound label) : Done walks bound (graph.standAt label) := by
  rintro other same
  cases same
  exact .inr dead

end

theorem Grounded.edge {walks : Nat → Label → Prop} {base graph : Graph}
    {label entry : Label} {count : Nat} (grounded : Grounded walks base graph)
    (sound : graph.Sound) (has : graph.entries[label.func]? = some (some entry))
    (earlier : entry.index < base.blockCount)
    (from_ : base.blockCount ≤ label.index) (below : label.index < graph.blockCount)
    (walk : walks count label) :
    ∃ block shorter, shorter < count ∧ walks shorter block ∧
      graph.Edge block label := by
  rcases grounded label from_ below count walk with isEntry | along
  · obtain ⟨index, inside, found⟩ := List.getElem_of_mem isEntry
    have isSome : graph.entries[index]? = some (some label) :=
      List.getElem?_eq_some_iff.mpr ⟨inside, found⟩
    have own := (sound.entries index label isSome).1
    subst own
    rw [isSome] at has
    cases has
    omega
  · exact along

/-- If none of the blocks that branch to it is reached, nor is the block. -/
theorem Grounded.dead {walks : Nat → Label → Prop} {base graph : Graph}
    {label entry : Label} {bound : Nat} (grounded : Grounded walks base graph)
    (sound : graph.Sound) (has : graph.entries[label.func]? = some (some entry))
    (earlier : entry.index < base.blockCount)
    (from_ : base.blockCount ≤ label.index) (below : label.index < graph.blockCount)
    (dead : ∀ block, graph.Edge block label → Dead walks bound block) :
    Dead walks bound label := by
  intro count small walk
  obtain ⟨block, shorter, less, before, edge⟩ :=
    grounded.edge sound has earlier from_ below walk
  exact dead block edge shorter (by omega) before

end Graph

/-! ### The graph of a state -/

namespace CompilerState

variable (state : CompilerState)

theorem graph_append (entry : Emitted) :
    (state.append entry).graph = state.graph.write entry := rfl

theorem graph_addFunction (func : Function) (declared : func.entry = none) :
    (state.addFunction func).graph = state.graph.declare := by
  simp [graph, addFunction, Graph.declare, declared]

theorem graph_begin (func : Function) (declared : func.entry = none) :
    (state.begin func).graph = state.graph.begin := by
  have entries : (state.begin func).graph.entries = state.graph.begin.entries := by
    apply List.ext_getElem?
    intro index
    rcases Nat.lt_trichotomy index state.module.functions.length with below | rfl | above
    · simp [graph, begin, addFunction, appendBlock, Graph.begin,
        Nat.ne_of_gt below, List.getElem?_append_left, below]
    · simp [graph, begin, addFunction, appendBlock, nextLabel, Graph.begin, declared]
    · have past : (state.begin func).graph.entries.length ≤ index := by
        simp only [graph, begin, addFunction, appendBlock, List.length_map,
          List.length_modify, List.length_append, List.length_singleton]
        omega
      have pastGraph : state.graph.begin.entries.length ≤ index := by
        simp only [graph, Graph.begin, List.length_append, List.length_map,
          List.length_singleton]
        omega
      rw [List.getElem?_eq_none past, List.getElem?_eq_none pastGraph]
  have builder : (state.begin func).graph.builder = state.graph.begin.builder := by
    simp [graph, begin, addFunction, nextLabel, Graph.begin]
  exact Graph.ext rfl rfl entries builder

theorem graph_appendBlock {func : Nat} {entry : Label}
    (has : state.graph.entries[func]? = some (some entry)) :
    (state.appendBlock func).graph = state.graph.addBlock := by
  have same : (state.appendBlock func).graph.entries = state.graph.entries := by
    apply List.ext_getElem?
    intro index
    simp only [graph, appendBlock, List.getElem?_map, List.getElem?_modify] at has ⊢
    by_cases isFunc : func = index
    · subst isFunc
      cases found : state.module.functions[func]? with
      | none => rfl
      | some function =>
          rw [found] at has
          have isSome : function.entry = some entry := Option.some.inj has
          simp [isSome]
    · simp [isFunc]
  exact Graph.ext rfl rfl same rfl

theorem graph_appendBlock_twice {func : Nat} {entry : Label}
    (has : state.graph.entries[func]? = some (some entry)) :
    ((state.appendBlock func).appendBlock func).graph =
      state.graph.addBlock.addBlock := by
  have once := state.graph_appendBlock has
  have still : (state.appendBlock func).graph.entries[func]? = some (some entry) := by
    rw [once]
    exact has
  rw [graph_appendBlock _ still, once]

end CompilerState

end Lambpie.Compiler
