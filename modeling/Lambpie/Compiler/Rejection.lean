/-
Which programs with unlowered forms are rejected.

A form that no visitor raises for is dropped wherever it is reached, so such a
program is rejected for another reason or not at all.  The survey finds what
there is to reject, in the order in which the compiler visits the program.
-/
import Lambpie.Compiler.SurveyRecursion

namespace Lambpie.Compiler

/-- The programs whose unlowered forms are of the given ones, if they have any,
are all rejected exactly when each is a form for which a visitor raises. -/
theorem rejects_forms_iff (uses : Form → Prop) :
    (∀ tree, (∀ form ∈ moduleForms tree, uses form) → moduleForms tree ≠ [] →
        ∀ module, compile tree ≠ .ok module) ↔
      ∀ form, uses form → form.rejected = true := by
  constructor
  · intro rejects form isUsed
    by_contra silent
    have sample := sampleProgram_accepted form (Bool.eq_false_iff.mpr silent)
    obtain ⟨module, compiled⟩ := exists_compiled sample.2
    refine rejects (sampleProgram form) ?_ ?_ module compiled
    · intro other member
      rw [sample.1, List.mem_singleton] at member
      exact member ▸ isUsed
    · rw [sample.1]
      exact List.cons_ne_nil _ _
  · intro raises tree used present module compiled
    obtain ⟨state, ran, -⟩ := compile_ok_iff.mp compiled
    exact present (moduleForms_eq_nil (fun form member =>
      raises form (used form member)) ran)

private theorem rejected_iff_survey (tree : List Node) :
    (∀ module, compile tree ≠ .ok module) ↔ survey tree = none := by
  rw [← not_iff_not, ← ne_eq, ← compiles_iff_survey]
  push Not
  rfl

/-- `n / 1` before `while n < 1: break`. -/
def divisionProgram : List Node :=
  programWith [] [.expr (.binOp nameN .div one), loop [.other .break_ []] []]

/-- `while n < 1: break` in `handle`. -/
def breakProgram : List Node := programWith [] [loop [.other .break_ []] []]

end Lambpie.Compiler
