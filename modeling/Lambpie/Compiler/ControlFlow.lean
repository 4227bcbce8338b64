/-
Blocks, terminators and the types at them.

What the builder has written so far is described by the blocks that may still
be continued: each of these has no terminator yet, and every other block is
either finished as it should be or a reason for the module to be ill formed.
-/
import Lambpie.Compiler.Survey

namespace Lambpie.Compiler

def blockInstrs (code : List Emitted) (index : Nat) : List Instr :=
  (code.filter (·.block.index = index)).map (·.instr)

/-- One terminator, and it is the last instruction. -/
def Sealed (instrs : List Instr) : Prop :=
  ∃ body last, instrs = body ++ [last] ∧ last.isTerminator = true ∧
    ∀ instr ∈ body, instr.isTerminator = false

private theorem sealed_iff {instrs : List Instr} :
    Sealed instrs ↔ instrs.getLast?.any (·.isTerminator) = true ∧
      ∀ instr ∈ instrs.dropLast, instr.isTerminator = false := by
  constructor
  · rintro ⟨body, last, rfl, terminates, inBlock⟩
    rw [List.getLast?_concat, List.dropLast_concat]
    exact ⟨terminates, inBlock⟩
  · rintro ⟨terminates, inBlock⟩
    cases isLast : instrs.getLast? with
    | none =>
        rw [isLast] at terminates
        cases terminates
    | some last =>
        rw [isLast] at terminates
        exact ⟨instrs.dropLast, last, (List.dropLast_append_getLast? last isLast).symm,
          terminates, inBlock⟩

instance (instrs : List Instr) : Decidable (Sealed instrs) :=
  decidable_of_iff _ sealed_iff.symm

def Module.BlocksWellFormed (module : Module) : Prop :=
  ∀ index < module.blockCount, Sealed (blockInstrs module.code index)

instance (module : Module) : Decidable module.BlocksWellFormed :=
  inferInstanceAs (Decidable (∀ index < module.blockCount, _))

/-- A `ret` carries a value of the return type, `ret void` stands in functions
that return nothing, and a conditional branch is on an `i1`. -/
def Instr.fits (instr : Instr) (returnType : LType) : Bool :=
  match instr with
  | .ret result => result.kind.fitsReturn returnType
  | .retVoid => returnType = .void
  | .cbr condition _ _ => condition.kind.isTest
  | _ => true

def Module.WellTyped (module : Module) : Prop :=
  ∀ entry ∈ module.code, ∃ func,
    module.functions[entry.block.func]? = some func ∧
      entry.instr.fits func.ret = true

instance (module : Module) : Decidable module.WellTyped :=
  inferInstanceAs (Decidable (∀ entry ∈ module.code, _))

private theorem fits_of_inBlock {instr : Instr} (inBlock : instr.isTerminator = false)
    (returnType : LType) : instr.fits returnType = true := by
  cases instr with
  | br | cbr | ret | retVoid | unreachable => cases inBlock
  | _ => rfl

section

variable {code : List Emitted} {label : Label} {instr : Instr} {index : Nat}

private theorem blockInstrs_append_self :
    blockInstrs (code ++ [{ block := label, instr }]) label.index =
      blockInstrs code label.index ++ [instr] := by
  simp [blockInstrs]

private theorem blockInstrs_append_other (other : label.index ≠ index) :
    blockInstrs (code ++ [{ block := label, instr }]) index =
      blockInstrs code index := by
  simp [blockInstrs, other]

private theorem mem_blockInstrs :
    instr ∈ blockInstrs code index ↔
      ∃ entry ∈ code, entry.block.index = index ∧ entry.instr = instr := by
  simp [blockInstrs, and_assoc]

end

private theorem not_sealed_of_open {instrs : List Instr}
    (isOpen : ∀ instr ∈ instrs, instr.isTerminator = false) : ¬Sealed instrs := by
  rintro ⟨body, last, rfl, terminates, -⟩
  have inBlock := isOpen last (List.mem_append_right _ List.mem_cons_self)
  rw [terminates] at inBlock
  cases inBlock

private theorem not_sealed_append {instrs : List Instr} {instr : Instr}
    (inBlock : instr.isTerminator = false) : ¬Sealed (instrs ++ [instr]) := by
  rintro ⟨body, last, same, terminates, -⟩
  obtain ⟨-, same⟩ := List.append_inj' same rfl
  cases same
  rw [terminates] at inBlock
  cases inBlock

/-- A block that may still be continued, with the return type of its function. -/
abbrev LiveBlock := Label × LType

def entryFits (rets : List LType) (entry : Emitted) : Prop :=
  ∃ ret, rets[entry.block.func]? = some ret ∧ entry.instr.fits ret = true

structure CodeFacts (live : List LiveBlock) (rets : List LType)
    (blockCount : Nat) (code : List Emitted) (tidy typed : Bool) : Prop where
  bounds : ∀ entry ∈ code,
    entry.block.index < blockCount ∧ entry.block.func < rets.length
  inside : ∀ item ∈ live, item.1.index < blockCount ∧
    rets[item.1.func]? = some item.2
  unfinished : ∀ item ∈ live, ∀ entry ∈ code,
    entry.block.index = item.1.index →
      entry.block = item.1 ∧ entry.instr.isTerminator = false
  distinct : live.Pairwise fun item other => item.1.index ≠ other.1.index
  tidy_iff : tidy = true ↔ ∀ index < blockCount,
    (∀ item ∈ live, item.1.index ≠ index) → Sealed (blockInstrs code index)
  typed_iff : typed = true ↔ ∀ entry ∈ code, entryFits rets entry

namespace CodeFacts

variable {live : List LiveBlock} {rets : List LType} {blockCount : Nat}
  {code : List Emitted} {tidy typed : Bool} {label : Label} {ret : LType}
  {instr : Instr}

theorem initial (rets : List LType) : CodeFacts [] rets 0 [] true true where
  bounds _ member := nomatch member
  inside _ member := nomatch member
  unfinished _ member := nomatch member
  distinct := .nil
  tidy_iff := ⟨fun _ _ below => (Nat.not_lt_zero _ below).elim, fun _ => rfl⟩
  typed_iff := ⟨fun _ => nofun, fun _ => rfl⟩

theorem perm {other : List LiveBlock}
    (facts : CodeFacts live rets blockCount code tidy typed)
    (same : live.Perm other) :
    CodeFacts other rets blockCount code tidy typed where
  bounds := facts.bounds
  inside item member := facts.inside item (same.mem_iff.mpr member)
  unfinished item member := facts.unfinished item (same.mem_iff.mpr member)
  distinct := (same.pairwise_iff fun different => Ne.symm different).mp facts.distinct
  tidy_iff := by
    rw [facts.tidy_iff]
    simp only [same.mem_iff]
  typed_iff := facts.typed_iff

private theorem typed_append_iff (facts : CodeFacts live rets blockCount code tidy typed)
    (instr : Instr) (known : rets[label.func]? = some ret) :
    (typed && instr.fits ret) = true ↔
      ∀ entry ∈ code ++ [{ block := label, instr }], entryFits rets entry := by
  have last : entryFits rets { block := label, instr } ↔ instr.fits ret = true := by
    constructor
    · rintro ⟨other, isRet, fits⟩
      rw [known] at isRet
      cases isRet
      exact fits
    · exact fun fits => ⟨ret, known, fits⟩
  rw [Bool.and_eq_true, facts.typed_iff, List.forall_mem_append, List.forall_mem_singleton,
    last]

private theorem bounds_append (facts : CodeFacts live rets blockCount code tidy typed)
    (below : label.index < blockCount) (known : rets[label.func]? = some ret) :
    ∀ entry ∈ code ++ [{ block := label, instr }],
      entry.block.index < blockCount ∧ entry.block.func < rets.length := by
  rw [List.forall_mem_append, List.forall_mem_singleton]
  exact ⟨facts.bounds, below, (List.getElem?_eq_some_iff.mp known).1⟩

private theorem unfinished_append {rest : List LiveBlock}
    (unfinished : ∀ item ∈ rest, ∀ entry ∈ code,
      entry.block.index = item.1.index →
        entry.block = item.1 ∧ entry.instr.isTerminator = false)
    (apart : ∀ item ∈ rest, label.index ≠ item.1.index) :
    ∀ item ∈ rest, ∀ entry ∈ code ++ [{ block := label, instr }],
      entry.block.index = item.1.index →
        entry.block = item.1 ∧ entry.instr.isTerminator = false := by
  intro item member
  rw [List.forall_mem_append, List.forall_mem_singleton]
  exact ⟨unfinished item member, fun same => (apart item member same).elim⟩

theorem appendLive
    (facts : CodeFacts ((label, ret) :: live) rets blockCount code tidy typed)
    (inBlock : instr.isTerminator = false) :
    CodeFacts ((label, ret) :: live) rets blockCount
      (code ++ [{ block := label, instr }]) tidy typed where
  bounds := facts.bounds_append (facts.inside _ List.mem_cons_self).1
    (facts.inside _ List.mem_cons_self).2
  inside := facts.inside
  unfinished := by
    have apart := (List.pairwise_cons.mp facts.distinct).1
    refine List.forall_mem_cons.mpr ⟨?_, unfinished_append
      (fun item member => facts.unfinished item (List.mem_cons_of_mem _ member)) apart⟩
    rw [List.forall_mem_append, List.forall_mem_singleton]
    exact ⟨facts.unfinished _ List.mem_cons_self, fun _ => ⟨rfl, inBlock⟩⟩
  distinct := facts.distinct
  tidy_iff := by
    rw [facts.tidy_iff]
    refine forall_congr' fun index => forall_congr' fun _ => forall_congr' fun free => ?_
    rw [blockInstrs_append_other (free _ List.mem_cons_self)]
  typed_iff := by
    have appended := facts.typed_append_iff instr
      (facts.inside _ List.mem_cons_self).2
    rwa [fits_of_inBlock inBlock, Bool.and_true] at appended

theorem appendDead (facts : CodeFacts live rets blockCount code tidy typed)
    (inBlock : instr.isTerminator = false) (below : label.index < blockCount)
    (known : rets[label.func]? = some ret)
    (apart : ∀ item ∈ live, label.index ≠ item.1.index) :
    CodeFacts live rets blockCount (code ++ [{ block := label, instr }]) false
      typed where
  bounds := facts.bounds_append below known
  inside := facts.inside
  unfinished := unfinished_append facts.unfinished apart
  distinct := facts.distinct
  tidy_iff := by
    refine ⟨nofun, fun all => ?_⟩
    have isSealed := all label.index below fun item member => (apart item member).symm
    rw [blockInstrs_append_self] at isSealed
    exact (not_sealed_append inBlock isSealed).elim
  typed_iff := by
    have appended := facts.typed_append_iff instr known
    rwa [fits_of_inBlock inBlock, Bool.and_true] at appended

theorem terminate
    (facts : CodeFacts ((label, ret) :: live) rets blockCount code tidy typed)
    (terminates : instr.isTerminator = true) :
    CodeFacts live rets blockCount (code ++ [{ block := label, instr }]) tidy
      (typed && instr.fits ret) where
  bounds := facts.bounds_append (facts.inside _ List.mem_cons_self).1
    (facts.inside _ List.mem_cons_self).2
  inside item member := facts.inside item (List.mem_cons_of_mem _ member)
  unfinished := unfinished_append
    (fun item member => facts.unfinished item (List.mem_cons_of_mem _ member))
    (List.pairwise_cons.mp facts.distinct).1
  distinct := (List.pairwise_cons.mp facts.distinct).2
  tidy_iff := by
    have apart := (List.pairwise_cons.mp facts.distinct).1
    rw [facts.tidy_iff]
    constructor
    · intro all index below free
      by_cases same : label.index = index
      · subst same
        rw [blockInstrs_append_self]
        refine ⟨_, instr, rfl, terminates, fun other member => ?_⟩
        obtain ⟨entry, inCode, atLabel, rfl⟩ := mem_blockInstrs.mp member
        exact (facts.unfinished _ List.mem_cons_self entry inCode atLabel).2
      · rw [blockInstrs_append_other same]
        exact all index below (List.forall_mem_cons.mpr ⟨same, free⟩)
    · intro all index below free
      obtain ⟨different, free⟩ := List.forall_mem_cons.mp free
      have isSealed := all index below free
      rwa [blockInstrs_append_other different] at isSealed
  typed_iff := facts.typed_append_iff instr (facts.inside _ List.mem_cons_self).2

theorem abandon
    (facts : CodeFacts ((label, ret) :: live) rets blockCount code tidy typed) :
    CodeFacts live rets blockCount code false typed where
  bounds := facts.bounds
  inside item member := facts.inside item (List.mem_cons_of_mem _ member)
  unfinished item member := facts.unfinished item (List.mem_cons_of_mem _ member)
  distinct := (List.pairwise_cons.mp facts.distinct).2
  tidy_iff := by
    refine ⟨nofun, fun all => ?_⟩
    have isSealed := all label.index (facts.inside _ List.mem_cons_self).1 fun item member =>
      ((List.pairwise_cons.mp facts.distinct).1 item member).symm
    refine (not_sealed_of_open (fun other member => ?_) isSealed).elim
    obtain ⟨entry, inCode, atLabel, rfl⟩ := mem_blockInstrs.mp member
    exact (facts.unfinished _ List.mem_cons_self entry inCode atLabel).2
  typed_iff := facts.typed_iff

theorem appendBlock (facts : CodeFacts live rets blockCount code tidy typed)
    (isNew : label.index = blockCount) (known : rets[label.func]? = some ret) :
    CodeFacts ((label, ret) :: live) rets (blockCount + 1) code tidy typed where
  bounds entry member :=
    ⟨Nat.lt_succ_of_lt (facts.bounds entry member).1, (facts.bounds entry member).2⟩
  inside := List.forall_mem_cons.mpr ⟨⟨by rw [isNew]; exact Nat.lt_succ_self _, known⟩,
    fun item member =>
      ⟨Nat.lt_succ_of_lt (facts.inside item member).1, (facts.inside item member).2⟩⟩
  unfinished := by
    refine List.forall_mem_cons.mpr ⟨fun entry member same => ?_, facts.unfinished⟩
    have below := (facts.bounds entry member).1
    change entry.block.index = label.index at same
    omega
  distinct := by
    refine List.pairwise_cons.mpr ⟨fun item member => ?_, facts.distinct⟩
    have below := (facts.inside item member).1
    change label.index ≠ item.1.index
    omega
  tidy_iff := by
    rw [facts.tidy_iff]
    constructor
    · intro all index below free
      obtain ⟨different, free⟩ := List.forall_mem_cons.mp free
      change label.index ≠ index at different
      exact all index (by omega) free
    · intro all index below free
      refine all index (Nat.lt_succ_of_lt below) (List.forall_mem_cons.mpr ⟨?_, free⟩)
      change label.index ≠ index
      omega
  typed_iff := facts.typed_iff

theorem declare (facts : CodeFacts live rets blockCount code tidy typed)
    (ret : LType) : CodeFacts live (rets ++ [ret]) blockCount code tidy typed where
  bounds entry member := by
    rw [List.length_append]
    exact ⟨(facts.bounds entry member).1, Nat.lt_add_right _ (facts.bounds entry member).2⟩
  inside item member := by
    have inside := facts.inside item member
    have below := (List.getElem?_eq_some_iff.mp inside.2).1
    rw [List.getElem?_append_left below]
    exact inside
  unfinished := facts.unfinished
  distinct := facts.distinct
  tidy_iff := facts.tidy_iff
  typed_iff := by
    rw [facts.typed_iff]
    refine forall_congr' fun entry => forall_congr' fun member => ?_
    unfold entryFits
    rw [List.getElem?_append_left (facts.bounds entry member).2]

end CodeFacts

end Lambpie.Compiler
