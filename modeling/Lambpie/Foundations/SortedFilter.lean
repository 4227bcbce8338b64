/-
Sorting and looking up in a part of a list.

Insertion sort is stable, so sorting what is kept of a list is keeping the same
of the sorted list.  A key that is kept is looked up as before.
-/
import Mathlib.Data.List.Sort

namespace Foundations

universe u v

section Sorting

variable {α : Type u} {r : α → α → Prop} [DecidableRel r]

private theorem orderedInsert_of_forall {a : α} {l : List α} (least : ∀ b ∈ l, r a b) :
    l.orderedInsert r a = a :: l := by
  cases l with
  | nil => rfl
  | cons b l => exact List.orderedInsert_cons_of_le r l (least b List.mem_cons_self)

private theorem filter_orderedInsert [IsTrans α r] (p : α → Bool) (a : α) {l : List α}
    (sorted : l.Pairwise r) :
    (l.orderedInsert r a).filter p =
      if p a then (l.filter p).orderedInsert r a else l.filter p := by
  induction l with
  | nil =>
      by_cases kept : p a
      · rw [if_pos kept, List.orderedInsert_nil, List.filter_cons_of_pos kept]
        rfl
      · rw [if_neg kept, List.orderedInsert_nil, List.filter_cons_of_neg kept]
  | cons b l ih =>
      rw [List.pairwise_cons] at sorted
      obtain ⟨below, sortedRest⟩ := sorted
      by_cases before : r a b
      · have least : ∀ c ∈ (b :: l).filter p, r a c := by
          intro c inside
          rcases List.mem_cons.mp (List.mem_filter.mp inside).1 with rfl | later
          · exact before
          · exact trans_of r before (below c later)
        rw [List.orderedInsert_cons_of_le r l before, orderedInsert_of_forall least]
        by_cases kept : p a
        · rw [if_pos kept, List.filter_cons_of_pos kept]
        · rw [if_neg kept, List.filter_cons_of_neg kept]
      · rw [List.orderedInsert_of_not_le r l before]
        by_cases keptHere : p b
        · rw [List.filter_cons_of_pos keptHere, List.filter_cons_of_pos keptHere,
            ih sortedRest, List.orderedInsert_of_not_le r _ before]
          split <;> rfl
        · rw [List.filter_cons_of_neg keptHere, List.filter_cons_of_neg keptHere,
            ih sortedRest]

theorem filter_insertionSort [IsTrans α r] [Std.Total r] (p : α → Bool)
    (l : List α) :
    (l.insertionSort r).filter p = (l.filter p).insertionSort r := by
  induction l with
  | nil => rfl
  | cons a l ih =>
      rw [List.insertionSort_cons,
        filter_orderedInsert p a (List.pairwise_insertionSort r l), ih]
      by_cases kept : p a
      · rw [if_pos kept, List.filter_cons_of_pos kept, List.insertionSort_cons]
      · rw [if_neg kept, List.filter_cons_of_neg kept]

theorem insertionSort_eq_filter [IsTrans α r] [Std.Total r] [Std.Antisymm r]
    [DecidableEq α] {part whole : List α} (partDistinct : part.Nodup)
    (wholeDistinct : whole.Nodup) (subset : ∀ a ∈ part, a ∈ whole) :
    part.insertionSort r = (whole.insertionSort r).filter (· ∈ part) := by
  rw [filter_insertionSort]
  have same : List.Perm part (whole.filter (· ∈ part)) := by
    rw [List.perm_ext_iff_of_nodup partDistinct (wholeDistinct.filter _)]
    intro a
    rw [List.mem_filter, decide_eq_true_iff]
    constructor
    · intro inside
      exact ⟨subset a inside, inside⟩
    · intro both
      exact both.2
  have sorted : List.Perm (part.insertionSort r)
      ((whole.filter (· ∈ part)).insertionSort r) :=
    ((List.perm_insertionSort r part).trans same).trans
      (List.perm_insertionSort r _).symm
  exact sorted.eq_of_pairwise (fun a b _ _ before after => antisymm_of r before after)
    (List.pairwise_insertionSort r _) (List.pairwise_insertionSort r _)

end Sorting

section Lookup

variable {α : Type u} {β : Type v}

private theorem filter_key_of_pos {p : α → Bool} {key : α} (kept : p key) (value : β)
    (rest : List (α × β)) :
    ((key, value) :: rest).filter (p ·.1) = (key, value) :: rest.filter (p ·.1) :=
  List.filter_cons_of_pos kept

private theorem filter_key_of_neg {p : α → Bool} {key : α} (dropped : ¬p key) (value : β)
    (rest : List (α × β)) :
    ((key, value) :: rest).filter (p ·.1) = rest.filter (p ·.1) :=
  List.filter_cons_of_neg dropped

variable [BEq α] [LawfulBEq α]

theorem lookup_filter (p : α → Bool) (name : α) (items : List (α × β)) :
    (items.filter (p ·.1)).lookup name =
      if p name then items.lookup name else none := by
  induction items with
  | nil => simp
  | cons item rest ih =>
      obtain ⟨key, value⟩ := item
      by_cases here : name = key
      · subst here
        by_cases kept : p name
        · rw [filter_key_of_pos kept, if_pos kept, List.lookup_cons_self,
            List.lookup_cons_self]
        · rw [filter_key_of_neg kept, ih, if_neg kept, if_neg kept]
      · have other : (name == key) = false := beq_false_of_ne here
        by_cases kept : p key
        · rw [filter_key_of_pos kept, List.lookup_cons, List.lookup_cons, other, ih]
        · rw [filter_key_of_neg kept, ih, List.lookup_cons, other]

theorem lookup_of_filter {p : α → Bool} {name : α} {items : List (α × β)}
    {value : β} (found : (items.filter (p ·.1)).lookup name = some value) :
    items.lookup name = some value := by
  rw [lookup_filter] at found
  by_cases kept : p name
  · rwa [if_pos kept] at found
  · rw [if_neg kept] at found
    cases found

end Lookup

end Foundations
