/-
Histories of the two arenas.

A history interleaves allocations under any tag with resets of the request
arena and remembers every block that is still live: all static blocks, and the
request blocks handed out since the last reset.  The invariant is carried by
one natural-number pool per arena.
-/
import Lambpie.Foundations.BumpPool
import Lambpie.Runtime.Arena

namespace Lambpie.Runtime

open Foundations

/-- A page-aligned anonymous mapping that ends inside the address space. -/
structure Mapping where
  base : Word
  capacity : Word
  pageAligned : 4096 ∣ base.toNat
  fits : base.toNat + capacity.toNat < 2 ^ 64

def Mapping.Separated (left right : Mapping) : Prop :=
  left.base.toNat + left.capacity.toNat ≤ right.base.toNat ∨
    right.base.toNat + right.capacity.toNat ≤ left.base.toNat

inductive Owner where
  | static
  | req
deriving DecidableEq, Repr

def ownerOf (tag : BitVec 32) : Owner :=
  if tag = arenaStatic then .static else .req

def Arenas.of (arenas : Arenas) : Owner → Arena
  | .static => arenas.staticArena
  | .req => arenas.reqArena

structure LiveBlock where
  owner : Owner
  start : Word
  size : Word
deriving DecidableEq, Repr

def LiveBlock.extent (block : LiveBlock) : Extent :=
  ⟨block.start.toNat, block.size.toNat⟩

inductive ArenaCall where
  | alloc (tag : BitVec 32) (size : Word)
  | resetReq
deriving DecidableEq, Repr

structure History where
  arenas : Arenas
  live : List LiveBlock
deriving DecidableEq, Repr

def History.step (history : History) : ArenaCall → Outcome History
  | .alloc tag size => do
      let (arenas, ptr) ← lambpieArenaAlloc history.arenas tag size
      pure { arenas := arenas
             live := ⟨ownerOf tag, ptr, size⟩ :: history.live }
  | .resetReq =>
      .ok { arenas :=
              { history.arenas with
                reqArena := arenaReset history.arenas.reqArena }
            live := history.live.filter (fun block => block.owner = .static) }

/-- Runs the calls in order, up to the first abort. -/
def History.run (history : History) : List ArenaCall → Outcome History
  | [] => .ok history
  | call :: rest => do
      let next ← history.step call
      next.run rest

def Mapping.arena (mapping : Mapping) : Arena :=
  { base := mapping.base
    cursor := mapping.base
    limit := mapping.base + mapping.capacity }

def History.start (staticMap reqMap : Mapping) : History :=
  { arenas := { staticArena := staticMap.arena, reqArena := reqMap.arena }
    live := [] }

/-- Neither the rounding nor the cursor addition of this call wraps. -/
def NoWrap (arenas : Arenas) : ArenaCall → Prop
  | .alloc tag size =>
      size.toNat + 7 < 2 ^ 64 ∧
        (arenas.of (ownerOf tag)).cursor.toNat + roundUp8 size.toNat < 2 ^ 64
  | .resetReq => True

instance (arenas : Arenas) : (call : ArenaCall) →
    Decidable (NoWrap arenas call)
  | .alloc _ _ => inferInstanceAs (Decidable (_ ∧ _))
  | .resetReq => inferInstanceAs (Decidable True)

/-- Every call of the run up to the first abort avoids the wrap. -/
def History.NoWrapAlong (history : History) : List ArenaCall → Prop
  | [] => True
  | call :: rest =>
      NoWrap history.arenas call ∧
        match history.step call with
        | .ok next => next.NoWrapAlong rest
        | _ => True

instance History.decidableNoWrapAlong (history : History) :
    (calls : List ArenaCall) → Decidable (history.NoWrapAlong calls)
  | [] => inferInstanceAs (Decidable True)
  | call :: rest =>
      have : Decidable (match history.step call with
          | .ok next => next.NoWrapAlong rest
          | _ => True) :=
        match history.step call with
        | .ok next => next.decidableNoWrapAlong rest
        | .exit _ _ => inferInstanceAs (Decidable True)
        | .fault => inferInstanceAs (Decidable True)
      inferInstanceAs (Decidable (_ ∧ _))

structure Arena.Within (arena : Arena) (mapping : Mapping) : Prop where
  base_eq : arena.base = mapping.base
  limit_eq : arena.limit.toNat = mapping.base.toNat + mapping.capacity.toNat
  base_le_cursor : arena.base.toNat ≤ arena.cursor.toNat
  cursor_le_limit : arena.cursor.toNat ≤ arena.limit.toNat
  cursor_aligned : 8 ∣ arena.cursor.toNat - arena.base.toNat

structure History.Invariant (staticMap reqMap : Mapping)
    (history : History) : Prop where
  staticWithin : history.arenas.staticArena.Within staticMap
  reqWithin : history.arenas.reqArena.Within reqMap
  aligned : ∀ block ∈ history.live, 8 ∣ block.start.toNat
  inside : ∀ block ∈ history.live,
    (history.arenas.of block.owner).base.toNat ≤ block.start.toNat ∧
      block.start.toNat + block.size.toNat ≤
        (history.arenas.of block.owner).cursor.toNat
  apart : history.live.Pairwise
    (fun left right => left.extent.Apart right.extent)

/-- The pool an arena stands for once its words are read as numbers. -/
structure Arena.Reads (arena : Arena) (pool : BumpPool) : Prop where
  base_eq : arena.base.toNat = pool.base
  cursor_eq : arena.cursor.toNat = pool.cursor
  limit_eq : arena.limit.toNat = pool.limit

private theorem Mapping.arena_reads (mapping : Mapping) :
    mapping.arena.Reads
      (BumpPool.fresh mapping.base.toNat mapping.capacity.toNat) := by
  refine ⟨rfl, rfl, ?_⟩
  have fits := mapping.fits
  change (mapping.base + mapping.capacity).toNat = _
  rw [BitVec.toNat_add, Nat.mod_eq_of_lt fits]
  rfl

/-- An allocation that does not wrap is a `take` on the pool it reads as. -/
theorem arenaAlloc_reads_take {arena arena' : Arena} {pool : BumpPool}
    {size ptr : Word} (reads : arena.Reads pool)
    (sizeFits : size.toNat + 7 < 2 ^ 64)
    (cursorFits : arena.cursor.toNat + roundUp8 size.toNat < 2 ^ 64)
    (allocated : arenaAlloc arena size = .ok (arena', ptr)) :
    ∃ room : pool.cursor + roundUp8 size.toNat ≤ pool.limit,
      arena'.Reads (pool.take (roundUp8 size.toNat) room) ∧
        ptr.toNat = pool.cursor := by
  obtain ⟨bounded, rfl, rfl⟩ := (arenaAlloc_ok_iff _ _ _ _).mp allocated
  have sumEq : (arena.cursor + alignUp size).toNat =
      pool.cursor + roundUp8 size.toNat := by
    rw [BitVec.toNat_add, alignUp_toNat size sizeFits,
      Nat.mod_eq_of_lt cursorFits, reads.cursor_eq]
  have room : pool.cursor + roundUp8 size.toNat ≤ pool.limit := by
    have asNat := BitVec.le_def.mp bounded
    rw [sumEq, reads.limit_eq] at asNat
    exact asNat
  exact ⟨room, ⟨reads.base_eq, sumEq, reads.limit_eq⟩, reads.cursor_eq⟩

def History.extents (history : History) (owner : Owner) : List Extent :=
  (history.live.filter (fun block => block.owner = owner)).map
    LiveBlock.extent

/-- The inductive form of the invariant: each arena is a pool that owns the
live blocks of its tag. -/
structure History.Carries (staticMap reqMap : Mapping) (history : History)
    (staticPool reqPool : BumpPool) : Prop where
  staticReads : history.arenas.staticArena.Reads staticPool
  reqReads : history.arenas.reqArena.Reads reqPool
  staticBase : staticPool.base = staticMap.base.toNat
  reqBase : reqPool.base = reqMap.base.toNat
  staticLimit :
    staticPool.limit = staticMap.base.toNat + staticMap.capacity.toNat
  reqLimit : reqPool.limit = reqMap.base.toNat + reqMap.capacity.toNat
  staticOwns : staticPool.Owns 8 (history.extents .static)
  reqOwns : reqPool.Owns 8 (history.extents .req)

private theorem History.carries_start (staticMap reqMap : Mapping) :
    (History.start staticMap reqMap).Carries staticMap reqMap
      (BumpPool.fresh staticMap.base.toNat staticMap.capacity.toNat)
      (BumpPool.fresh reqMap.base.toNat reqMap.capacity.toNat) :=
  { staticReads := staticMap.arena_reads
    reqReads := reqMap.arena_reads
    staticBase := rfl
    reqBase := rfl
    staticLimit := rfl
    reqLimit := rfl
    staticOwns := BumpPool.owns_fresh _ _ _
    reqOwns := BumpPool.owns_fresh _ _ _ }

theorem History.Carries.step {staticMap reqMap : Mapping}
    {history next : History} {staticPool reqPool : BumpPool}
    (carries : history.Carries staticMap reqMap staticPool reqPool)
    (call : ArenaCall) (noWrap : NoWrap history.arenas call)
    (stepped : history.step call = .ok next) :
    ∃ staticPool' reqPool',
      next.Carries staticMap reqMap staticPool' reqPool' := by
  cases call with
  | alloc tag size =>
      obtain ⟨⟨arenas', ptr⟩, allocated, returned⟩ :=
        (Outcome.bind_eq_ok_iff _ _ _).mp stepped
      cases returned
      obtain ⟨sizeFits, cursorFits⟩ := noWrap
      rcases (lambpieArenaAlloc_ok_iff _ _ _ _ _).mp allocated with
        ⟨isStatic, arena, arenaAllocated, rfl⟩ |
        ⟨notStatic, arena, arenaAllocated, rfl⟩
      · have owner : ownerOf tag = .static := if_pos isStatic
        rw [owner] at cursorFits
        obtain ⟨room, reads, ptrEq⟩ := arenaAlloc_reads_take
          carries.staticReads sizeFits cursorFits arenaAllocated
        have owns := carries.staticOwns.take room
          (eight_dvd_roundUp8 size.toNat) (le_roundUp8 size.toNat)
        refine ⟨staticPool.take _ room, reqPool, ?_⟩
        refine { carries with
          staticReads := reads, staticOwns := ?_, reqOwns := ?_ }
        · simpa [History.extents, LiveBlock.extent, owner, ptrEq] using owns
        · simpa [History.extents, owner] using carries.reqOwns
      · have owner : ownerOf tag = .req := if_neg notStatic
        rw [owner] at cursorFits
        obtain ⟨room, reads, ptrEq⟩ := arenaAlloc_reads_take
          carries.reqReads sizeFits cursorFits arenaAllocated
        have owns := carries.reqOwns.take room
          (eight_dvd_roundUp8 size.toNat) (le_roundUp8 size.toNat)
        refine ⟨staticPool, reqPool.take _ room, ?_⟩
        refine { carries with
          reqReads := reads, staticOwns := ?_, reqOwns := ?_ }
        · simpa [History.extents, owner] using carries.staticOwns
        · simpa [History.extents, LiveBlock.extent, owner, ptrEq] using owns
  | resetReq =>
      cases stepped
      refine ⟨staticPool, reqPool.clear, ?_⟩
      refine { carries with
        reqReads := ⟨carries.reqReads.base_eq, carries.reqReads.base_eq,
          carries.reqReads.limit_eq⟩
        staticOwns := ?_, reqOwns := ?_ }
      · simpa [History.extents, List.filter_filter] using carries.staticOwns
      · have noneLeft :
            (history.live.filter (fun block => block.owner = .static)).filter
              (fun block => block.owner = .req) = [] := by
          rw [List.filter_filter, List.filter_eq_nil_iff]
          intro block _member both
          cases owned : block.owner <;> simp [owned] at both
        simpa [History.extents, noneLeft] using
          BumpPool.owns_clear reqPool 8

theorem History.Carries.run {staticMap reqMap : Mapping}
    (calls : List ArenaCall) {history final : History}
    {staticPool reqPool : BumpPool}
    (carries : history.Carries staticMap reqMap staticPool reqPool)
    (noWrap : history.NoWrapAlong calls)
    (completed : history.run calls = .ok final) :
    ∃ staticPool' reqPool',
      final.Carries staticMap reqMap staticPool' reqPool' := by
  induction calls generalizing history staticPool reqPool with
  | nil =>
      cases completed
      exact ⟨staticPool, reqPool, carries⟩
  | cons call rest ih =>
      obtain ⟨next, stepped, continued⟩ :=
        (Outcome.bind_eq_ok_iff _ _ _).mp completed
      obtain ⟨_staticPool', _reqPool', carries'⟩ :=
        carries.step call noWrap.1 stepped
      have noWrapRest : next.NoWrapAlong rest := by
        have both := noWrap.2
        rw [stepped] at both
        exact both
      exact ih carries' noWrapRest continued

private theorem pairwise_of_owners {relation : LiveBlock → LiveBlock → Prop}
    (blocks : List LiveBlock)
    (statics : (blocks.filter (fun block => block.owner = .static)).Pairwise
      relation)
    (reqs : (blocks.filter (fun block => block.owner = .req)).Pairwise
      relation)
    (cross : ∀ left ∈ blocks, ∀ right ∈ blocks,
      left.owner ≠ right.owner → relation left right) :
    blocks.Pairwise relation := by
  induction blocks with
  | nil => exact List.Pairwise.nil
  | cons head tail ih =>
      refine List.pairwise_cons.mpr ⟨?_, ?_⟩
      · intro other member
        by_cases same : other.owner = head.owner
        · cases owner : head.owner with
          | static =>
              rw [owner] at same
              rw [List.filter_cons_of_pos (by simp [owner])] at statics
              exact (List.pairwise_cons.mp statics).1 other
                (List.mem_filter.mpr ⟨member, by simp [same]⟩)
          | req =>
              rw [owner] at same
              rw [List.filter_cons_of_pos (by simp [owner])] at reqs
              exact (List.pairwise_cons.mp reqs).1 other
                (List.mem_filter.mpr ⟨member, by simp [same]⟩)
        · exact cross head List.mem_cons_self other
            (List.mem_cons_of_mem _ member) (fun equal => same equal.symm)
      · apply ih
        · exact statics.sublist ((List.sublist_cons_self head tail).filter _)
        · exact reqs.sublist ((List.sublist_cons_self head tail).filter _)
        · intro left leftMember right rightMember
          exact cross left (List.mem_cons_of_mem _ leftMember) right
            (List.mem_cons_of_mem _ rightMember)

private theorem Arena.within_of_reads {arena : Arena} {pool : BumpPool}
    {mapping : Mapping} {live : List Extent} (reads : arena.Reads pool)
    (base : pool.base = mapping.base.toNat)
    (limit : pool.limit = mapping.base.toNat + mapping.capacity.toNat)
    (owns : pool.Owns 8 live) : arena.Within mapping := by
  have lower := pool.base_le_cursor
  have upper := pool.cursor_le_limit
  have cursorAligned := owns.cursorAligned
  rw [← reads.base_eq, ← reads.cursor_eq] at cursorAligned lower
  rw [← reads.cursor_eq, ← reads.limit_eq] at upper
  exact
    { base_eq := BitVec.eq_of_toNat_eq (reads.base_eq.trans base)
      limit_eq := reads.limit_eq.trans limit
      base_le_cursor := lower
      cursor_le_limit := upper
      cursor_aligned := cursorAligned }

private theorem History.Carries.owner {staticMap reqMap : Mapping}
    {history : History} {staticPool reqPool : BumpPool}
    (carries : history.Carries staticMap reqMap staticPool reqPool)
    {block : LiveBlock} (member : block ∈ history.live) :
    ∃ (pool : BumpPool) (mapping : Mapping),
      (history.arenas.of block.owner).Reads pool ∧
      pool.base = mapping.base.toNat ∧
      pool.Owns 8 (history.extents block.owner) ∧
      block.extent ∈ history.extents block.owner := by
  have listed : block.extent ∈ history.extents block.owner :=
    List.mem_map_of_mem (List.mem_filter.mpr ⟨member, by simp⟩)
  cases owned : block.owner with
  | static =>
      rw [owned] at listed
      exact ⟨staticPool, staticMap, carries.staticReads, carries.staticBase,
        carries.staticOwns, listed⟩
  | req =>
      rw [owned] at listed
      exact ⟨reqPool, reqMap, carries.reqReads, carries.reqBase,
        carries.reqOwns, listed⟩

theorem History.Carries.invariant {staticMap reqMap : Mapping}
    {history : History} {staticPool reqPool : BumpPool}
    (carries : history.Carries staticMap reqMap staticPool reqPool)
    (separated : staticMap.Separated reqMap) :
    history.Invariant staticMap reqMap := by
  refine ⟨?_, ?_, ?_, ?_, ?_⟩
  · exact Arena.within_of_reads carries.staticReads carries.staticBase
      carries.staticLimit carries.staticOwns
  · exact Arena.within_of_reads carries.reqReads carries.reqBase
      carries.reqLimit carries.reqOwns
  · intro block member
    obtain ⟨pool, mapping, _reads, base, owns, listed⟩ := carries.owner member
    have offset := owns.aligned _ listed
    have lower := (owns.inside _ listed).1
    have page := mapping.pageAligned
    rw [← base] at page
    have split : block.start.toNat =
        pool.base + (block.start.toNat - pool.base) :=
      (Nat.add_sub_cancel' lower).symm
    rw [split]
    exact Nat.dvd_add (Nat.dvd_trans (by decide) page) offset
  · intro block member
    obtain ⟨pool, _mapping, reads, _base, owns, listed⟩ := carries.owner member
    have bounds := owns.inside _ listed
    rw [reads.base_eq, reads.cursor_eq]
    exact bounds
  · apply pairwise_of_owners
    · exact List.pairwise_map.mp carries.staticOwns.apart
    · exact List.pairwise_map.mp carries.reqOwns.apart
    · intro left leftMember right rightMember different
      have leftListed : left.extent ∈ history.extents left.owner :=
        List.mem_map_of_mem (List.mem_filter.mpr ⟨leftMember, by simp⟩)
      have rightListed : right.extent ∈ history.extents right.owner :=
        List.mem_map_of_mem (List.mem_filter.mpr ⟨rightMember, by simp⟩)
      have gap : staticPool.limit ≤ reqPool.base ∨
          reqPool.limit ≤ staticPool.base := by
        rw [carries.staticLimit, carries.reqLimit, carries.staticBase,
          carries.reqBase]
        exact separated
      cases leftOwner : left.owner <;> cases rightOwner : right.owner
      · exact absurd (leftOwner.trans rightOwner.symm) different
      · rw [leftOwner] at leftListed
        rw [rightOwner] at rightListed
        exact carries.staticOwns.apart_of_separated carries.reqOwns gap
          leftListed rightListed
      · rw [leftOwner] at leftListed
        rw [rightOwner] at rightListed
        exact carries.reqOwns.apart_of_separated carries.staticOwns gap.symm
          leftListed rightListed
      · exact absurd (leftOwner.trans rightOwner.symm) different

theorem History.step_frame {history next : History} (call : ArenaCall)
    (stepped : history.step call = .ok next) :
    (∀ tag size, call = .alloc tag size → tag ≠ arenaStatic →
        next.arenas.staticArena = history.arenas.staticArena) ∧
      (∀ tag size, call = .alloc tag size → tag = arenaStatic →
        next.arenas.reqArena = history.arenas.reqArena) ∧
      (call = .resetReq →
        next.arenas.staticArena = history.arenas.staticArena) := by
  cases call with
  | alloc tag size =>
      obtain ⟨⟨arenas', ptr⟩, allocated, returned⟩ :=
        (Outcome.bind_eq_ok_iff _ _ _).mp stepped
      cases returned
      refine ⟨?_, ?_, nofun⟩
      · intro tag' size' same notStatic
        cases same
        rcases (lambpieArenaAlloc_ok_iff _ _ _ _ _).mp allocated with
          ⟨isStatic, _⟩ | ⟨_, arena, _, rfl⟩
        · exact absurd isStatic notStatic
        · rfl
      · intro tag' size' same isStatic
        cases same
        rcases (lambpieArenaAlloc_ok_iff _ _ _ _ _).mp allocated with
          ⟨_, arena, _, rfl⟩ | ⟨notStatic, _⟩
        · rfl
        · exact absurd isStatic notStatic
  | resetReq =>
      cases stepped
      exact ⟨nofun, nofun, fun _ => rfl⟩

/-- Over every history up to its first abort: both arenas stay inside their
mappings with an aligned cursor, every live block is aligned and lies inside
the arena of its tag, no two live blocks share an address, and the next call on
one arena changes nothing of the other. -/
theorem arena_history_invariant (staticMap reqMap : Mapping)
    (separated : staticMap.Separated reqMap) (calls : List ArenaCall)
    (noWrap : (History.start staticMap reqMap).NoWrapAlong calls)
    (final : History)
    (completed : (History.start staticMap reqMap).run calls = .ok final) :
    final.Invariant staticMap reqMap ∧
      (∀ tag size next, final.step (.alloc tag size) = .ok next →
        (tag ≠ arenaStatic →
          next.arenas.staticArena = final.arenas.staticArena) ∧
        (tag = arenaStatic →
          next.arenas.reqArena = final.arenas.reqArena)) ∧
      (∀ next, final.step .resetReq = .ok next →
        next.arenas.staticArena = final.arenas.staticArena) := by
  obtain ⟨_staticPool, _reqPool, carries⟩ := (History.carries_start
    staticMap reqMap).run calls noWrap completed
  refine ⟨carries.invariant separated, ?_, ?_⟩
  · intro tag size next stepped
    have frame := History.step_frame _ stepped
    exact ⟨frame.1 tag size rfl, frame.2.1 tag size rfl⟩
  · intro next stepped
    exact (History.step_frame _ stepped).2.2 rfl

private def exampleStatic : Mapping :=
  ⟨0x10000, 0x10000, by decide, by decide⟩

private def exampleReq : Mapping :=
  ⟨0x40000, 0x40000, by decide, by decide⟩

theorem arena_history_invariant_example :
    ∃ final,
      (History.start exampleStatic exampleReq).run
        [.alloc 1 24, .alloc 0 13, .alloc 1 5, .resetReq, .alloc 1 40] =
          .ok final ∧
      final.live.length = 2 ∧ final.Invariant exampleStatic exampleReq := by
  refine ⟨_, rfl, rfl, ?_⟩
  refine (arena_history_invariant exampleStatic exampleReq
    (Or.inl (by decide))
    [.alloc 1 24, .alloc 0 13, .alloc 1 5, .resetReq, .alloc 1 40]
    (by decide) _ rfl).1

end Lambpie.Runtime
