/-
What the builder calls for integers have appended.

A visit that succeeded has made builder calls that succeeded, and each of them
has appended its instruction to the block that the builder stands in.
-/
import Lambpie.Compiler.Expressions

namespace Lambpie.Integers

open Foundations
open Foundations.Comp
open Lambpie.Compiler

variable {state state' : CompilerState} {result : Value} {val : PyVal}

def Appends (state : CompilerState) (instr : Instr) (type : LType) (result : Value)
    (state' : CompilerState) : Prop :=
  ∃ block, state.builder = some block ∧
    result = { type, operand := .reg state.module.code.length } ∧
    state' = state.append { block, instr }

private theorem appends_of_emit {instr : Instr} {type : LType}
    (run : emit instr type state = .ok (result, state')) :
    Appends state instr type result state' :=
  emit_ok_iff.mp run

theorem asValue_ok (run : asValue val state = .ok (result, state')) :
    val = .value result ∧ state' = state := by
  cases val with
  | value value =>
      obtain ⟨rfl, rfl⟩ := pure_ok_iff.mp run
      exact ⟨rfl, rfl⟩
  | none => cases run
  | type type => cases run
  | method object method => cases run

theorem lookup_ok {α : Type} {scope : CompilerState → Scope α} {key : String} {found : α}
    (run : lookup scope key state = .ok (found, state')) :
    scope state key = some found ∧ state' = state := by
  unfold lookup at run
  rw [reads_then] at run
  cases bound : scope state key with
  | some value =>
      rw [bound] at run
      obtain ⟨rfl, rfl⟩ := pure_ok_iff.mp run
      exact ⟨rfl, rfl⟩
  | none =>
      rw [bound] at run
      exact (fail_ok_iff.mp run).elim

theorem constant_ok {type : LType} {operand : Operand}
    (run : constant type operand state = .ok (result, state')) :
    result = { type, operand } ∧ state' = state := by
  unfold constant at run
  by_cases void : type = .void
  · rw [if_pos void] at run
    exact (fail_ok_iff.mp run).elim
  · rw [if_neg void] at run
    obtain ⟨rfl, rfl⟩ := pure_ok_iff.mp run
    exact ⟨rfl, rfl⟩

theorem load_ok (run : load val state = .ok (result, state')) :
    ∃ ptr type, val = .value ptr ∧ ptr.type = .ptr type ∧
      Appends state (.load ptr) type result state' := by
  obtain ⟨ptr, middle, same, emitted⟩ := bind_ok_iff.mp run
  obtain ⟨rfl, rfl⟩ := asValue_ok same
  obtain ⟨type, operand⟩ := ptr
  cases type with
  | ptr type => exact ⟨_, type, rfl, rfl, appends_of_emit emitted⟩
  | _ => cases emitted

theorem store_ok {ptr : PyVal} {done : Unit} (run : store val ptr state = .ok (done, state')) :
    ∃ stored address result, val = .value stored ∧ ptr = .value address ∧
      address.type = .ptr stored.type ∧
      Appends state (.store stored address) .void result state' := by
  obtain ⟨address, middle, same, rest⟩ := bind_ok_iff.mp run
  obtain ⟨rfl, rfl⟩ := asValue_ok same
  obtain ⟨type, operand⟩ := address
  cases type with
  | ptr type =>
      obtain ⟨stored, last, again, checked⟩ := bind_ok_iff.mp rest
      obtain ⟨rfl, rfl⟩ := asValue_ok again
      by_cases fits : stored.type = type
      · rw [if_pos fits] at checked
        obtain ⟨result, final, emitted, finished⟩ := bind_ok_iff.mp checked
        obtain ⟨-, rfl⟩ := pure_ok_iff.mp finished
        exact ⟨stored, _, result, rfl, rfl, by rw [fits], appends_of_emit emitted⟩
      · rw [if_neg fits] at checked
        exact (fail_ok_iff.mp checked).elim
  | _ => cases rest

theorem binop_ok {op : BinOpcode} {lhs rhs : PyVal}
    (run : binop op lhs rhs state = .ok (result, state')) :
    ∃ left right, lhs = .value left ∧ rhs = .value right ∧
      Appends state (.binop op left right) left.type result state' := by
  obtain ⟨left, middle, same, rest⟩ := bind_ok_iff.mp run
  obtain ⟨rfl, rfl⟩ := asValue_ok same
  obtain ⟨right, last, again, checked⟩ := bind_ok_iff.mp rest
  obtain ⟨rfl, rfl⟩ := asValue_ok again
  by_cases fits : left.type = right.type
  · rw [if_pos fits] at checked
    exact ⟨left, right, rfl, rfl, appends_of_emit checked⟩
  · rw [if_neg fits] at checked
    exact (fail_ok_iff.mp checked).elim

theorem icmp_ok {predicate : Predicate} {lhs rhs : PyVal}
    (run : icmpSigned predicate lhs rhs state = .ok (result, state')) :
    ∃ left, lhs = .value left ∧
      Appends state (.icmp predicate left rhs) .i1 result state' := by
  obtain ⟨left, middle, same, emitted⟩ := bind_ok_iff.mp run
  obtain ⟨rfl, rfl⟩ := asValue_ok same
  exact ⟨left, rfl, appends_of_emit emitted⟩

private theorem asValues_ok {vals : List PyVal} {values : List Value}
    (run : asValues vals state = .ok (values, state')) :
    vals = values.map .value ∧ state' = state := by
  induction vals generalizing values with
  | nil =>
      obtain ⟨rfl, rfl⟩ := pure_ok_iff.mp run
      exact ⟨rfl, rfl⟩
  | cons val vals ih =>
      obtain ⟨value, _, same, others⟩ := bind_ok_iff.mp run
      obtain ⟨rfl, rfl⟩ := asValue_ok same
      obtain ⟨rest, _, again, listed⟩ := bind_ok_iff.mp others
      obtain ⟨rfl, rfl⟩ := pure_ok_iff.mp listed
      obtain ⟨rfl, rfl⟩ := ih again
      exact ⟨rfl, rfl⟩

private theorem gepInto_array {elem type : LType} {count : Nat} {index : Value}
    (run : gepInto (.array elem count) index state = .ok (type, state')) :
    type = elem ∧ state' = state := by
  unfold gepInto at run
  cases isInt : isIntType index.type with
  | true =>
      rw [isInt] at run
      obtain ⟨rfl, rfl⟩ := pure_ok_iff.mp run
      exact ⟨rfl, rfl⟩
  | false =>
      rw [isInt] at run
      cases run

private theorem gep_ok {elem : LType} {count : Nat} {operand : Operand}
    (run : gep (.value { type := .ptr (.array elem count), operand })
      [.value (i64Const 0), val] state = .ok (result, state')) :
    ∃ index, val = .value index ∧
      Appends state (.gep { type := .ptr (.array elem count), operand } [i64Const 0, index])
        (.ptr elem) result state' := by
  obtain ⟨ptr, _, same, indexed⟩ := bind_ok_iff.mp run
  obtain ⟨isPtr, rfl⟩ := asValue_ok same
  cases isPtr
  obtain ⟨indices, _, values, typed⟩ := bind_ok_iff.mp indexed
  obtain ⟨isIndices, rfl⟩ := asValues_ok values
  match indices, isIndices with
  | [zero, index], isIndices =>
      cases isIndices
      obtain ⟨inner, _, leads, pointed⟩ := bind_ok_iff.mp typed
      obtain ⟨outer, _, first, onward⟩ := bind_ok_iff.mp leads
      obtain ⟨rfl, rfl⟩ := pure_ok_iff.mp first
      obtain ⟨cell, _, second, stops⟩ := bind_ok_iff.mp onward
      obtain ⟨rfl, rfl⟩ := gepInto_array second
      obtain ⟨rfl, rfl⟩ := pure_ok_iff.mp stops
      obtain ⟨ptrType, _, isPtr, emitted⟩ := bind_ok_iff.mp pointed
      obtain ⟨rfl, rfl⟩ := asPointer_ok isPtr
      exact ⟨index, rfl, appends_of_emit emitted⟩

private theorem checkArgs_ok {types : List LType} {args : List PyVal} {done : Unit}
    (run : checkArgs types args state = .ok (done, state')) : state' = state := by
  induction types generalizing args with
  | nil =>
      obtain ⟨-, rfl⟩ := pure_ok_iff.mp run
      rfl
  | cons type types ih =>
      cases args with
      | nil => exact (fail_ok_iff.mp run).elim
      | cons arg args =>
          obtain ⟨value, middle, same, rest⟩ := bind_ok_iff.mp run
          obtain ⟨-, rfl⟩ := asValue_ok same
          by_cases fits : value.type = type
          · rw [if_pos fits] at rest
            exact ih rest
          · rw [if_neg fits] at rest
            exact (fail_ok_iff.mp rest).elim

theorem call_ok {ret : LType} {params : LTypes} {varArg : Bool} {index : Nat}
    {args : List PyVal}
    (run : call (.value { type := .ptr (.function ret params varArg), operand := .func index })
      args state = .ok (result, state')) :
    Appends state (.call index args) ret result state' := by
  obtain ⟨done, middle, checked, run⟩ := bind_ok_iff.mp run
  rw [checkArgs_ok checked] at run
  exact appends_of_emit run

private theorem call_reg {type : LType} {id : Nat} {args : List PyVal} :
    call (.value { type, operand := .reg id }) args state ≠ .ok (result, state') := by
  intro run
  cases type with
  | ptr pointee =>
      cases pointee with
      | function ret params varArg => cases run
      | _ => cases run
  | _ => cases run

theorem visitName_ok {id : String} {alloc : Value} (found : state.localScope id = some alloc)
    (run : visitName id state = .ok (val, state')) :
    (∃ elem count, alloc.type = .ptr (.array elem count) ∧ val = .value alloc ∧ state' = state) ∨
      ∃ result, load (.value alloc) state = .ok (result, state') ∧ val = .value result := by
  unfold visitName at run
  rw [reads_then, found] at run
  have loads (run : (load (.value alloc) >>= fun loaded => pure (.value loaded)) state =
      .ok (val, state')) :
      ∃ result, load (.value alloc) state = .ok (result, state') ∧ val = .value result := by
    obtain ⟨result, middle, loaded, run⟩ := bind_ok_iff.mp run
    obtain ⟨rfl, rfl⟩ := pure_ok_iff.mp run
    exact ⟨result, loaded, rfl⟩
  obtain ⟨type, operand⟩ := alloc
  cases type with
  | ptr pointee =>
      cases pointee with
      | array elem count =>
          obtain ⟨rfl, rfl⟩ := pure_ok_iff.mp run
          exact .inl ⟨elem, count, rfl, rfl, rfl⟩
      | _ => exact .inr (loads run)
  | _ => exact .inr (loads run)

theorem visitName_int {id : String} {slot : Nat}
    (found : state.localScope id = some { type := .ptr .i64, operand := .reg slot })
    (run : visitName id state = .ok (val, state')) :
    ∃ result, val = .value result ∧
      Appends state (.load { type := .ptr .i64, operand := .reg slot }) .i64 result state' := by
  rcases visitName_ok found run with ⟨elem, count, isArray, -⟩ | ⟨result, loaded, same⟩
  · cases isArray
  · obtain ⟨ptr, type, isPtr, isType, appends⟩ := load_ok loaded
    cases isPtr
    cases isType
    exact ⟨result, same, appends⟩

private theorem visitName_array {id : String} {slot count : Nat}
    (found : state.localScope id = some { type := .ptr (.array .i64 count), operand := .reg slot })
    (run : visitName id state = .ok (val, state')) :
    val = .value { type := .ptr (.array .i64 count), operand := .reg slot } ∧ state' = state := by
  unfold visitName at run
  rw [reads_then, found] at run
  obtain ⟨rfl, rfl⟩ := pure_ok_iff.mp run
  exact ⟨rfl, rfl⟩

theorem visitName_global {id : String} {global : PyVal} (unbound : state.localScope id = none)
    (found : state.globalScope id = some global) :
    visitName id state = .ok (global, state) := by
  unfold visitName
  rw [reads_then, unbound]
  dsimp only
  rw [reads_then, found]
  rfl

theorem not_call_local {id : String} {type : LType} {slot : Nat} {args : List PyVal}
    {middle : CompilerState}
    (found : state.localScope id = some { type := .ptr type, operand := .reg slot })
    (run : visitName id state = .ok (val, middle)) (last : CompilerState) :
    call val args last ≠ .ok (result, state') := by
  rcases visitName_ok found run with ⟨elem, count, -, rfl, -⟩ | ⟨value, loaded, rfl⟩
  · exact call_reg
  · obtain ⟨ptr, type, -, -, block, -, rfl, -⟩ := load_ok loaded
    exact call_reg

theorem subscriptPtr_ok {id : String} {slot count : Nat} {slice : Visit PyVal}
    (found : state.localScope id = some { type := .ptr (.array .i64 count), operand := .reg slot })
    (run : subscriptPtr (visitName id) slice state = .ok (result, state')) :
    ∃ middle index, slice state = .ok (.value index, middle) ∧
      Appends middle
        (.gep { type := .ptr (.array .i64 count), operand := .reg slot } [i64Const 0, index])
        (.ptr .i64) result state' := by
  obtain ⟨ptr, _, named, rest⟩ := bind_ok_iff.mp run
  obtain ⟨rfl, rfl⟩ := visitName_array found named
  obtain ⟨idx, middle, sliced, rest⟩ := bind_ok_iff.mp rest
  obtain ⟨ptr, _, same, addressed⟩ := bind_ok_iff.mp rest
  obtain ⟨isPtr, rfl⟩ := asValue_ok same
  cases isPtr
  obtain ⟨index, rfl, appends⟩ := gep_ok addressed
  exact ⟨_, index, sliced, appends⟩

theorem not_subscriptPtr_int {id : String} {slot : Nat} {slice : Visit PyVal}
    (found : state.localScope id = some { type := .ptr .i64, operand := .reg slot }) :
    subscriptPtr (visitName id) slice state ≠ .ok (result, state') := by
  intro run
  obtain ⟨ptr, _, named, rest⟩ := bind_ok_iff.mp run
  obtain ⟨value, rfl, block, -, rfl, rfl⟩ := visitName_int found named
  obtain ⟨idx, middle, sliced, rest⟩ := bind_ok_iff.mp rest
  obtain ⟨ptr, _, same, addressed⟩ := bind_ok_iff.mp rest
  obtain ⟨isPtr, rfl⟩ := asValue_ok same
  cases isPtr
  obtain ⟨ptr, _, same, indexed⟩ := bind_ok_iff.mp addressed
  obtain ⟨isPtr, rfl⟩ := asValue_ok same
  cases isPtr
  obtain ⟨indices, _, values, failed⟩ := bind_ok_iff.mp indexed
  exact (fail_ok_iff.mp failed).elim

end Lambpie.Integers
