/-
First occurrences of a pattern in a list.

The search slides over every suffix of the text.  The lemmas describe how it
passes over a stretch that cannot start the pattern and what it does at a
delimiter, so a text built from delimited segments can be searched segment by
segment.
-/
import Mathlib.Data.List.Basic

namespace Foundations

variable {α : Type*} [DecidableEq α]

def OccursAt (pattern text : List α) (index : Nat) : Prop :=
  pattern <+: text.drop index

instance (pattern text : List α) (index : Nat) :
    Decidable (OccursAt pattern text index) :=
  inferInstanceAs (Decidable (_ <+: _))

/-- The least index at which the pattern occurs completely inside the text. -/
def firstOccurrence (pattern : List α) : List α → Option Nat
  | [] => if pattern <+: [] then some 0 else none
  | head :: tail =>
      if pattern <+: head :: tail then some 0
      else (firstOccurrence pattern tail).map (· + 1)

theorem firstOccurrence_at_start {pattern text : List α}
    (occurs : pattern <+: text) : firstOccurrence pattern text = some 0 := by
  cases text with
  | nil => simp [firstOccurrence, occurs]
  | cons head tail => simp [firstOccurrence, occurs]

theorem firstOccurrence_later {pattern tail : List α} {head : α}
    (absent : ¬pattern <+: head :: tail) :
    firstOccurrence pattern (head :: tail) =
      (firstOccurrence pattern tail).map (· + 1) := by
  simp [firstOccurrence, absent]

theorem firstOccurrence_eq_some_iff (pattern text : List α) (index : Nat) :
    firstOccurrence pattern text = some index ↔
      OccursAt pattern text index ∧
        ∀ earlier < index, ¬OccursAt pattern text earlier := by
  induction text generalizing index with
  | nil =>
      by_cases occurs : pattern <+: []
      · rw [firstOccurrence_at_start occurs]
        constructor
        · rintro ⟨⟩
          exact ⟨occurs, fun earlier impossible => absurd impossible (by omega)⟩
        · rintro ⟨_, minimal⟩
          cases index with
          | zero => rfl
          | succ index => exact absurd occurs (minimal 0 (by omega))
      · simp [firstOccurrence, occurs, OccursAt]
  | cons head tail ih =>
      by_cases occurs : pattern <+: head :: tail
      · rw [firstOccurrence_at_start occurs]
        constructor
        · rintro ⟨⟩
          exact ⟨occurs, fun earlier impossible => absurd impossible (by omega)⟩
        · rintro ⟨_, minimal⟩
          cases index with
          | zero => rfl
          | succ index => exact absurd occurs (minimal 0 (by omega))
      · rw [firstOccurrence_later occurs, Option.map_eq_some_iff]
        constructor
        · rintro ⟨inner, found, rfl⟩
          have both := (ih inner).mp found
          refine ⟨both.1, ?_⟩
          intro earlier before
          cases earlier with
          | zero => exact occurs
          | succ earlier => exact both.2 earlier (by omega)
        · rintro ⟨here, minimal⟩
          cases index with
          | zero => exact absurd here occurs
          | succ index =>
              refine ⟨index, (ih index).mpr ⟨here, ?_⟩, rfl⟩
              intro earlier before
              exact minimal (earlier + 1) (by omega)

private theorem firstOccurrence_eq_none_iff (pattern text : List α) :
    firstOccurrence pattern text = none ↔
      ∀ index, ¬OccursAt pattern text index := by
  induction text with
  | nil =>
      by_cases occurs : pattern <+: []
      · rw [firstOccurrence_at_start occurs]
        constructor
        · intro impossible
          cases impossible
        · intro never
          exact absurd occurs (never 0)
      · simp [firstOccurrence, occurs, OccursAt]
  | cons head tail ih =>
      by_cases occurs : pattern <+: head :: tail
      · rw [firstOccurrence_at_start occurs]
        constructor
        · intro impossible
          cases impossible
        · intro never
          exact absurd occurs (never 0)
      · rw [firstOccurrence_later occurs, Option.map_eq_none_iff,
          ih]
        constructor
        · intro never index
          cases index with
          | zero => exact occurs
          | succ index => exact never index
        · intro never index
          exact never (index + 1)

theorem firstOccurrence_none_of_short {pattern text : List α}
    (short : text.length < pattern.length) :
    firstOccurrence pattern text = none := by
  rw [firstOccurrence_eq_none_iff]
  intro index occurs
  have lengths := occurs.length_le
  rw [List.length_drop] at lengths
  omega

variable {mark : α}

theorem firstOccurrence_skip {body segment rest : List α}
    (clean : mark ∉ segment) :
    firstOccurrence (mark :: body) (segment ++ rest) =
      (firstOccurrence (mark :: body) rest).map (segment.length + ·) := by
  induction segment with
  | nil => simp
  | cons head tail ih =>
      have headNe : mark ≠ head := fun equal =>
        clean (equal ▸ List.mem_cons_self)
      have tailClean : mark ∉ tail := fun member =>
        clean (List.mem_cons_of_mem _ member)
      have notHere : ¬(mark :: body) <+: head :: (tail ++ rest) := by
        intro occurs
        exact headNe (List.cons_prefix_cons.mp occurs).1
      rw [List.cons_append, firstOccurrence_later notHere,
        ih tailClean, Option.map_map]
      congr 1
      funext found
      simp only [Function.comp_apply, List.length_cons]
      omega

omit [DecidableEq α] in
/-- Between two marks, a mark-free key is matched only by itself. -/
theorem marked_prefix_iff {key segment rest : List α}
    (keyClean : mark ∉ key) (segmentClean : mark ∉ segment) :
    (mark :: (key ++ [mark])) <+: mark :: (segment ++ mark :: rest) ↔
      segment = key := by
  rw [List.cons_prefix_cons]
  simp only [true_and]
  induction key generalizing segment with
  | nil =>
      cases segment with
      | nil => simp
      | cons head tail =>
          have headNe : mark ≠ head := fun equal =>
            segmentClean (equal ▸ List.mem_cons_self)
          simp [headNe]
  | cons keyHead keyTail ih =>
      have keyNe : keyHead ≠ mark := fun equal =>
        keyClean (equal ▸ List.mem_cons_self)
      cases segment with
      | nil => simp [keyNe]
      | cons head tail =>
          have inner := @ih tail
            (fun member => keyClean (List.mem_cons_of_mem _ member))
            (fun member => segmentClean (List.mem_cons_of_mem _ member))
          rw [List.cons_append, List.cons_append, List.cons_prefix_cons, inner]
          constructor
          · rintro ⟨rfl, rfl⟩
            rfl
          · rintro ⟨⟩
            exact ⟨rfl, rfl⟩

/-- A delimited segment other than the key is passed over up to its closing
mark, where the search continues. -/
theorem firstOccurrence_skip_segment {key segment rest : List α}
    (keyClean : mark ∉ key) (segmentClean : mark ∉ segment)
    (different : segment ≠ key) :
    firstOccurrence (mark :: (key ++ [mark])) (mark :: (segment ++ mark :: rest)) =
      (firstOccurrence (mark :: (key ++ [mark])) (mark :: rest)).map
        (segment.length + 1 + ·) := by
  have notHere : ¬(mark :: (key ++ [mark])) <+:
      mark :: (segment ++ mark :: rest) := by
    rw [marked_prefix_iff keyClean segmentClean]
    exact different
  rw [firstOccurrence_later notHere,
    firstOccurrence_skip segmentClean, Option.map_map]
  congr 1
  funext found
  simp only [Function.comp_apply]
  omega

end Foundations
