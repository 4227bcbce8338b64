/-
What the statements of integer functions add to the scopes.

A statement binds the variables that it declares to slots of its own and leaves
the other names as they are.
-/
import Lambpie.Compiler.SlotFlow
import Lambpie.Integers.Expressions

namespace Lambpie.Integers

open Foundations
open Foundations.Comp
open Lambpie.Compiler
open CompilerState

/-- The names are bound to slots allocated since the base. -/
structure Grown (names : List String) (base state : CompilerState) : Prop where
  code : base.module.code <+: state.module.code
  types : state.types = base.types
  globals : state.globalScope = base.globalScope
  kept : ∀ name, name ∉ names → state.localScope name = base.localScope name
  declared : ∀ name ∈ names, ∃ type id,
    state.localScope name = some { type := .ptr type, operand := .reg id } ∧
      base.module.code.length ≤ id ∧ IsSlot state.module id
  apart : ∀ name other value value', name ∈ names → other ∈ names →
    state.localScope name = some value → state.localScope other = some value' →
      value.operand = value'.operand → name = other

private theorem isSlot_of_prefix {front whole : Compiler.Module} {id : Nat}
    (isSlot : IsSlot front id) (included : front.code <+: whole.code) : IsSlot whole id := by
  obtain ⟨entry, found, slot⟩ := isSlot
  obtain ⟨rest, same⟩ := included
  refine ⟨entry, ?_, slot⟩
  rw [← same, List.getElem?_append_left (List.getElem?_eq_some_iff.mp found).1, found]

theorem IsSlot.below {module : Compiler.Module} {id : Nat} (isSlot : IsSlot module id) :
    id < module.code.length := by
  obtain ⟨entry, found, -⟩ := isSlot
  exact (List.getElem?_eq_some_iff.mp found).1

section

variable {names front back : List String} {base middle state : CompilerState}

theorem grown_of_same (code : base.module.code <+: state.module.code)
    (types : state.types = base.types) (globals : state.globalScope = base.globalScope)
    (locals : state.localScope = base.localScope) : Grown [] base state where
  code := code
  types := types
  globals := globals
  kept name _ := by rw [locals]
  declared name member := (List.not_mem_nil member).elim
  apart name other value value' member := (List.not_mem_nil member).elim

theorem Undisturbed.grown (same : Undisturbed base state) : Grown [] base state :=
  grown_of_same same.code same.types same.globals same.locals

theorem Grown.moved (grown : Grown names base state) (label : Label) :
    Grown names base (state.standAt label) :=
  ⟨grown.code, grown.types, grown.globals, grown.kept, grown.declared, grown.apart⟩

theorem Grown.slot (grown : Grown names base state) {name : String} {value : Value}
    (member : name ∈ names) (bound : state.localScope name = some value) :
    ∃ type id, value = { type := .ptr type, operand := .reg id } ∧
      base.module.code.length ≤ id ∧ IsSlot state.module id := by
  obtain ⟨type, id, found, above, isSlot⟩ := grown.declared name member
  cases bound.symm.trans found
  exact ⟨type, id, rfl, above, isSlot⟩

theorem Grown.trans (head : Grown front base middle) (tail : Grown back middle state) :
    Grown (front ++ back) base state where
  code := head.code.trans tail.code
  types := tail.types.trans head.types
  globals := tail.globals.trans head.globals
  kept name outside := by
    rw [List.mem_append, not_or] at outside
    rw [tail.kept name outside.2, head.kept name outside.1]
  declared name member := by
    by_cases inBack : name ∈ back
    · obtain ⟨type, id, found, above, isSlot⟩ := tail.declared name inBack
      exact ⟨type, id, found, Nat.le_trans head.code.length_le above, isSlot⟩
    · have inFront := (List.mem_append.mp member).resolve_right inBack
      obtain ⟨type, id, found, above, isSlot⟩ := head.declared name inFront
      rw [← tail.kept name inBack] at found
      exact ⟨type, id, found, above, isSlot_of_prefix isSlot tail.code⟩
  apart name other value value' member member' bound bound' same := by
    -- the slots of the second part come after those of the first one
    have later {name other : String} {value value' : Value} (inBack : name ∈ back)
        (member : other ∈ front ++ back) (outside : other ∉ back)
        (bound : state.localScope name = some value)
        (bound' : state.localScope other = some value') :
        value.operand ≠ value'.operand := by
      have inFront := (List.mem_append.mp member).resolve_right outside
      rw [tail.kept other outside] at bound'
      obtain ⟨_, id, rfl, above, -⟩ := tail.slot inBack bound
      obtain ⟨_, id', rfl, -, isSlot⟩ := head.slot inFront bound'
      have below := isSlot.below
      intro equal
      cases equal
      omega
    by_cases inBack : name ∈ back
    · by_cases inBack' : other ∈ back
      · exact tail.apart name other value value' inBack inBack' bound bound' same
      · exact absurd same (later inBack member' inBack' bound bound')
    · by_cases inBack' : other ∈ back
      · exact absurd same.symm (later inBack' member inBack bound' bound)
      · have inFront := (List.mem_append.mp member).resolve_right inBack
        have inFront' := (List.mem_append.mp member').resolve_right inBack'
        rw [tail.kept name inBack] at bound
        rw [tail.kept other inBack'] at bound'
        exact head.apart name other value value' inFront inFront' bound bound' same

structure Fresh (names : List String) (state : CompilerState) : Prop where
  nodup : names.Nodup
  unbound : ∀ name ∈ names, state.localScope name = none

theorem Fresh.nil (state : CompilerState) : Fresh [] state where
  nodup := List.nodup_nil
  unbound _ member := (List.not_mem_nil member).elim

theorem Fresh.left (fresh : Fresh (front ++ back) state) : Fresh front state where
  nodup := (List.nodup_append.mp fresh.nodup).1
  unbound name member := fresh.unbound name (List.mem_append_left _ member)

theorem Fresh.right (fresh : Fresh (front ++ back) base) (grown : Grown front base state) :
    Fresh back state where
  nodup := (List.nodup_append.mp fresh.nodup).2.1
  unbound name member := by
    have outside : name ∉ front := fun inFront =>
      (List.nodup_append.mp fresh.nodup).2.2 name inFront name member rfl
    rw [grown.kept name outside]
    exact fresh.unbound name (List.mem_append_right _ member)

def Covers (homes : Scope Value) (state : CompilerState) : Prop :=
  ∀ name value, state.localScope name = some value → homes name = some value

theorem Covers.before {homes : Scope Value} (covers : Covers homes state)
    (grown : Grown names base state) (fresh : Fresh names base) : Covers homes base := by
  intro name value bound
  apply covers name value
  rw [grown.kept name ?_, bound]
  intro member
  rw [fresh.unbound name member] at bound
  cases bound

end

/-- Each variable of a function that was begun without any has a slot of its
own. -/
theorem Grown.homes {names : List String} {base state : CompilerState} {module : Compiler.Module}
    (grown : Grown names base state) (empty : base.localScope = .empty)
    (included : state.module.code <+: module.code) : Homes module state.localScope := by
  have member {name : String} {value : Value} (bound : state.localScope name = some value) :
      name ∈ names := by
    by_contra outside
    rw [grown.kept name outside, empty] at bound
    cases bound
  constructor
  · intro name value bound
    obtain ⟨type, id, same, -, isSlot⟩ := grown.slot (member bound) bound
    exact ⟨type, id, same, isSlot_of_prefix isSlot included⟩
  · intro name other value value' bound bound' same
    exact grown.apart name other value value' (member bound) (member bound') bound bound' same

theorem isInt_of_initial {functions visible : List String} {target annotation value : Node}
    (int : isIntStmt functions visible (.annAssign target annotation (some value)) = true) :
    (∃ id, target = .name id) ∧ annotation = .name "int" ∧ isInt functions visible value = true := by
  unfold isIntStmt at int
  split at int
  · rename_i same
    cases same
    exact ⟨⟨_, rfl⟩, rfl, int⟩
  all_goals first
    | (rename_i same; cases same)
    | cases int

mutual

theorem isWellFormed_of_isIntStmt {functions visible : List String} (node : Node)
    (int : isIntStmt functions visible node = true) : isWellFormed node = true := by
  match node, int with
  | .annAssign target annotation (some value), int =>
      obtain ⟨-, -, int⟩ := isInt_of_initial int
      exact isExpression_of_isInt value int
  | .annAssign target annotation none, _ => rfl
  | .assign (.name id) [] value, both => exact isExpression_of_isInt value (and_right both)
  | .assign (.subscript (.name id) slice) [] value, both =>
      have expressions := Bool.and_eq_true_iff.mpr
        ⟨isExpression_of_isInt slice (and_right (and_left both)),
          isExpression_of_isInt value (and_right both)⟩
      exact expressions
  | .ifStmt test body orelse, both =>
      exact Bool.and_eq_true_iff.mpr ⟨Bool.and_eq_true_iff.mpr
        ⟨isExpression_of_isTest test (and_left (and_left both)),
          areWellFormed_of_areIntStmts body (and_right (and_left both))⟩,
        areWellFormed_of_areIntStmts orelse (and_right both)⟩
  | .whileStmt test body [], both =>
      exact Bool.and_eq_true_iff.mpr ⟨isExpression_of_isTest test (and_left both),
        areWellFormed_of_areIntStmts body (and_right both)⟩
  | .return_ (some value), int => exact isExpression_of_isInt value int
  | .expr value, int => exact isExpression_of_isInt value int
  | .pass, _ => rfl

theorem areWellFormed_of_areIntStmts {functions visible : List String} (body : List Node)
    (ints : areIntStmts functions visible body = true) : areWellFormed body = true := by
  match body, ints with
  | [], _ => rfl
  | stmt :: rest, both =>
      exact Bool.and_eq_true_iff.mpr ⟨isWellFormed_of_isIntStmt stmt (and_left both),
        areWellFormed_of_areIntStmts rest (and_right both)⟩

end

end Lambpie.Integers
