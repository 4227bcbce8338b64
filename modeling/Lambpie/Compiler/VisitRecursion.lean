/-
An invariant of the visitors is one of the whole recursion.

The recursion is followed once: whatever invariant the visitors and the
definitions keep, `visit` keeps.  Where classes are known to be initialised,
what was visited without an error has none of the forms that raise.
-/
import Lambpie.Compiler.Forms
import Lambpie.Compiler.VisitInvariant

namespace Lambpie.Compiler

open Foundations
open Foundations.Comp
open VisitInvariant

/-- Every form found is one for which a visitor raises. -/
def Raising (ready : Prop) (found : List Form) : Prop :=
  ready → ∀ form ∈ found, form.rejected = true

section

variable {ready : Prop} {first second : List Form}

theorem Raising.front (raising : Raising ready (first ++ second)) : Raising ready first :=
  fun isReady form member => raising isReady form (List.mem_append_left _ member)

theorem Raising.back (raising : Raising ready (first ++ second)) : Raising ready second :=
  fun isReady form member => raising isReady form (List.mem_append_right _ member)

theorem Raising.formIf_eq_nil {present : Bool} {form : Form}
    (raising : Raising ready (formIf present form)) (silent : form.rejected = false)
    (isReady : ready) : formIf present form = [] := by
  cases present with
  | false => rfl
  | true =>
      have raises := raising isReady form List.mem_cons_self
      rw [silent] at raises
      cases raises

end

private theorem formIf_of_false {present : Bool} {form : Form} (absent : present = false) :
    formIf present form = [] := by
  rw [absent]
  rfl

def MethodsDo {ι : Type} (holds : ι → CompilerState → Prop) (fact : List Node → Prop)
    (body : List Node) : Prop :=
  ∀ name args returns methodBody dropped,
    .functionDef name args returns methodBody dropped ∈ body →
      ∀ index, Does (holds index) (fact methodBody) (visitBody methodBody)

structure ClassShape (fact : List Node → Prop) (body : List Node) : Prop where
  field : ∀ target annotation default, .annAssign target annotation default ∈ body →
    ∃ id, target = .name id
  method : ∀ name args returns methodBody dropped,
    .functionDef name args returns methodBody dropped ∈ body → fact methodBody

/-- The invariants of a family are kept by the visitors of definitions.  A
function's body may be visited under another member than the function is. -/
structure DefinitionsKept {ι : Type} (holds : ι → CompilerState → Prop)
    (value : PyVal → Prop) (ready : Prop) : Prop where
  functionDef : ∀ name args returns (body : Visit Unit) (fact : Prop),
    (∀ index, Does (holds index) fact body) →
      ∀ index, Gives (holds index) value ready fact
        (visitFunctionDef none name args returns body)
  classDef : ∀ className body (fact : List Node → Prop),
    (ready → isLateInit body = false) → MethodsDo holds fact body →
      ∀ index, Gives (holds index) value ready (ClassShape fact body)
        (visitClassDef className body (visitMethods className body))
  importFrom : ∀ module names index,
    Gives (holds index) value ready (module = some "C") (visitImportFrom module names)

private theorem Raising.cons_tail {ready : Prop} {form : Form} {found : List Form}
    (raising : Raising ready (form :: found)) : Raising ready found :=
  fun isReady other member => raising isReady other (List.mem_cons_of_mem _ member)

/-- Of the members of a class, the forms that raise do not occur, if the class
has the shape of one that was visited. -/
theorem formsMembers_eq_nil {ready : Prop} {body : List Node} (isReady : ready)
    (raising : Raising ready (formsMembers body))
    (shape : ClassShape (fun methodBody => ready → formsAll methodBody = []) body) :
    formsMembers body = [] := by
  induction body with
  | nil => rfl
  | cons stmt rest ih =>
      have restShape :
          ClassShape (fun methodBody => ready → formsAll methodBody = []) rest :=
        { field := fun _ _ _ member => shape.field _ _ _ (List.mem_cons_of_mem _ member)
          method := fun _ _ _ _ _ member =>
            shape.method _ _ _ _ _ (List.mem_cons_of_mem _ member) }
      have silent (raising : Raising ready (.classStatement :: formsMembers rest)) :
          Form.classStatement :: formsMembers rest = [] :=
        nomatch raising isReady .classStatement List.mem_cons_self
      cases stmt with
      | functionDef name args returns methodBody dropped =>
          have noExtras := raising.front.front.formIf_eq_nil rfl isReady
          have noBody := shape.method _ _ _ _ _ List.mem_cons_self isReady
          rw [formsMembers, noExtras, noBody, ih raising.back restShape]
          rfl
      | annAssign target annotation default =>
          obtain ⟨id, rfl⟩ := shape.field _ _ _ List.mem_cons_self
          have noDefault := raising.front.back.formIf_eq_nil rfl isReady
          rw [formsMembers, noDefault, ih raising.back restShape]
          rfl
      | pass => exact ih raising restShape
      | _ => exact silent raising

private theorem raising_members_tail {ready : Prop} {stmt : Node} {rest : List Node}
    (raising : Raising ready (formsMembers (stmt :: rest))) :
    Raising ready (formsMembers rest) := by
  cases stmt with
  | functionDef => exact raising.back
  | annAssign => exact raising.back
  | pass => exact raising
  | _ => exact raising.cons_tail

/-- The forms that raise do not occur in what was visited. -/
def Lowered (ready : Prop) (found : List Form) : Prop := ready → found = []

section

variable {ι : Type} {holds : ι → CompilerState → Prop} {value : PyVal → Prop}
  {func : ι → Nat → Prop} {ready : Prop}

mutual

theorem gives_visit (family : VisitFamily holds value func ready)
    (kept : DefinitionsKept holds value ready)
    (node : Node) (raising : Raising ready (forms node))
    (index : ι) :
    Gives (holds index) value ready (Lowered ready (forms node)) (visit node) := by
  have inv := family.invariant index
  match node, raising with
  | .name id, _ => exact (inv.gives_name id).imp fun _ _ => rfl
  | .constant literal, raising =>
      refine (inv.gives_constant literal).imp fun _ isReady => ?_
      cases literal with
      | float => exact nomatch raising isReady _ List.mem_cons_self
      | complex => exact nomatch raising isReady _ List.mem_cons_self
      | ellipsis => exact nomatch raising isReady _ List.mem_cons_self
      | _ => rfl
  | .binOp left op right, raising =>
      have givesLeft := gives_visit family kept left raising.front.back index
      have givesRight := gives_visit family kept right raising.back index
      refine (inv.gives_binOp op givesLeft givesRight).imp
        fun ⟨shownLeft, shownRight, known⟩ isReady => ?_
      have supported : (binOpcode op).isNone = false := by simpa using known
      rw [forms, formIf_of_false supported, shownLeft isReady, shownRight isReady]
      rfl
  | .unaryOp op operand, raising =>
      have gives := gives_visit family kept operand raising.back index
      refine (inv.gives_unaryOp op gives).imp fun ⟨shown, different⟩ isReady => ?_
      rw [forms, formIf_of_false (decide_eq_false different), shown isReady]
      rfl
  | .compare left [(op, comparator)], raising =>
      have givesLeft := gives_visit family kept left raising.front.back index
      have givesRight := gives_visit family kept comparator raising.back index
      refine (inv.gives_compare op givesLeft givesRight).imp
        fun ⟨shownLeft, shownRight, known⟩ isReady => ?_
      have supported : (comparePredicate op).isNone = false := by simpa using known
      rw [forms, formIf_of_false supported, shownLeft isReady, shownRight isReady]
      rfl
  | .compare left [], raising =>
      have gives := gives_visit family kept left raising.cons_tail index
      exact (gives_chain gives).imp False.elim
  | .compare left (_ :: _ :: _), raising =>
      have gives := gives_visit family kept left raising.cons_tail index
      exact (gives_chain gives).imp False.elim
  | .call callee args dropped, raising =>
      have givesCallee := gives_visit family kept callee raising.front.back index
      have givesArgs := gives_visitArgs family kept args raising.back index
      refine (inv.gives_call givesCallee givesArgs).imp
        fun ⟨shownCallee, shownArgs⟩ isReady => ?_
      rw [forms, raising.front.front.formIf_eq_nil rfl isReady,
        shownCallee isReady, shownArgs isReady isReady]
      rfl
  | .attribute object attr, raising =>
      exact inv.gives_attribute attr (gives_visit family kept object raising index)
  | .subscript object slice, raising =>
      have givesObject := gives_visit family kept object raising.front index
      have givesSlice := gives_visit family kept slice raising.back index
      refine (inv.gives_subscript givesObject givesSlice).imp
        fun ⟨shownObject, shownSlice⟩ isReady => ?_
      rw [forms, shownObject isReady, shownSlice isReady]
      rfl
  | .sliced object bounds, raising =>
      exact fails_sliced.bind_never
  | .return_ (some result), raising =>
      exact inv.gives_return (gives_visit family kept result raising index)
  | .return_ none, _ => exact inv.gives_returnNone.imp fun _ _ => rfl
  | .assign target moreTargets assigned, raising =>
      cases target with
      | subscript object slice =>
          have givesObject := gives_visit family kept object raising.front.front.back index
          have givesSlice := gives_visit family kept slice raising.front.back index
          have gives := gives_visit family kept assigned raising.back index
          refine (inv.gives_assignSubscript givesObject givesSlice gives).imp
            fun ⟨⟨shownObject, shownSlice⟩, shown⟩ isReady => ?_
          rw [forms, raising.front.front.front.formIf_eq_nil rfl isReady,
            shownObject isReady, shownSlice isReady, shown isReady]
          rfl
      | sliced object bounds =>
          exact fails_sliced.bind_never
      | name id =>
          have gives := gives_visit family kept assigned raising.back index
          refine (inv.gives_assignName id gives).imp fun shown isReady => ?_
          rw [forms, raising.front.formIf_eq_nil rfl isReady, shown isReady]
          rfl
      | _ => exact .fail _
  | .annAssign target annotation (some initial), raising =>
      have gives := gives_visit family kept initial raising.back index
      refine (inv.gives_annAssign target annotation gives).imp
        fun ⟨shown, id, isName⟩ isReady => ?_
      rw [forms, isName, shown isReady]
      rfl
  | .annAssign target annotation none, _ =>
      refine (inv.gives_declaration target annotation).imp fun ⟨id, isName⟩ _ => ?_
      rw [forms, isName]
      rfl
  | .ifStmt test body [], raising =>
      have givesTest := gives_visit family kept test raising.front.front
      have doesBody := does_visitBody family kept body raising.front.back
      refine (family.gives_if index givesTest doesBody).imp
        fun ⟨shownTest, shownBody⟩ isReady => ?_
      rw [forms, shownTest isReady, shownBody isReady]
      rfl
  | .ifStmt test body (stmt :: orelse), raising =>
      have givesTest := gives_visit family kept test raising.front.front
      have doesBody := does_visitBody family kept body raising.front.back
      have doesElse := does_visitBody family kept (stmt :: orelse) raising.back
      refine (family.gives_ifElse index givesTest doesBody doesElse).imp
        fun ⟨shownTest, shownBody, shownElse⟩ isReady => ?_
      rw [forms, shownTest isReady, shownBody isReady, shownElse isReady]
      rfl
  | .whileStmt test body orelse, raising =>
      have givesTest := gives_visit family kept test raising.front.back
      have doesBody := does_visitBody family kept body raising.back
      refine (family.gives_while index givesTest doesBody).imp
        fun ⟨shownTest, shownBody⟩ isReady => ?_
      rw [forms, raising.front.front.formIf_eq_nil rfl isReady, shownTest isReady,
        shownBody isReady]
      rfl
  | .expr inner, raising =>
      exact (gives_visit family kept inner raising index).plain.bind fun _ =>
        .assume fun shown => inv.gives_none shown.1
  | .pass, _ => exact inv.gives_none fun _ => rfl
  | .functionDef name args returns body dropped, raising =>
      have does := fun other => does_visitBody family kept body raising.back other
      refine (kept.functionDef name args returns _ _ does index).imp
        fun shown isReady => ?_
      rw [forms, raising.front.formIf_eq_nil rfl isReady, shown isReady]
      rfl
  | .classDef className body dropped, raising =>
      have notLate (isReady : ready) : isLateInit body = false := by
        have absent := raising.front.back.formIf_eq_nil rfl isReady
        cases late : isLateInit body with
        | false => rfl
        | true =>
            rw [late] at absent
            cases absent
      have does := does_methods family kept body raising.back
      refine (kept.classDef className body _ notLate does index).imp
        fun shape isReady => ?_
      rw [forms, raising.front.front.formIf_eq_nil rfl isReady,
        formIf_of_false (notLate isReady),
        formsMembers_eq_nil isReady raising.back shape]
      rfl
  | .importFrom module names level, raising =>
      refine (kept.importFrom module names index).imp fun isC isReady => ?_
      rw [forms, raising.front.back.formIf_eq_nil rfl isReady,
        raising.back.formIf_eq_nil rfl isReady, isC]
      rfl
  | .other kind children, raising =>
      have does := does_visitBody family kept children raising.cons_tail index
      refine (inv.gives_generic does).imp fun _ isReady => ?_
      exact nomatch raising isReady _ List.mem_cons_self

theorem does_visitBody (family : VisitFamily holds value func ready)
    (kept : DefinitionsKept holds value ready)
    (body : List Node) (raising : Raising ready (formsAll body))
    (index : ι) :
    Does (holds index) (Lowered ready (formsAll body)) (visitBody body) := by
  match body, raising with
  | [], _ => exact .pure fun _ before => ⟨fun _ => rfl, before⟩
  | stmt :: rest, raising =>
      refine (gives_visit family kept stmt raising.front index).plain.bind fun _ =>
        .assume fun shown => ?_
      refine (does_visitBody family kept rest raising.back index).weaken fun _ _ after =>
        ⟨fun isReady => ?_, after.2⟩
      rw [formsAll, shown.1 isReady, after.1 isReady]
      rfl

private theorem gives_visitArgs (family : VisitFamily holds value func ready)
    (kept : DefinitionsKept holds value ready)
    (args : List Node) (raising : Raising ready (formsAll args))
    (index : ι) :
    GivesAll (holds index) value (Lowered ready (formsAll args)) (visitArgs args) := by
  match args, raising with
  | [], _ =>
      exact .pure fun _ before => ⟨⟨fun _ => rfl, fun _ member => nomatch member⟩, before⟩
  | arg :: rest, raising =>
      refine (gives_visit family kept arg raising.front index).plain.bind fun val =>
        .assume fun shown => ?_
      refine (gives_visitArgs family kept rest raising.back index).bind fun vals =>
        .assume fun shownRest => ?_
      refine .pure fun _ before => ⟨⟨fun isReady => ?_, ?_⟩, before⟩
      · rw [formsAll, shown.1 isReady, shownRest.1 isReady]
        rfl
      · exact List.forall_mem_cons.mpr ⟨shown.2, shownRest.2⟩

private theorem does_methods (family : VisitFamily holds value func ready)
    (kept : DefinitionsKept holds value ready)
    (body : List Node) (raising : Raising ready (formsMembers body)) :
    MethodsDo holds (fun methodBody => Lowered ready (formsAll methodBody)) body := by
  match body, raising with
  | [], _ => exact fun _ _ _ _ _ member => nomatch member
  | stmt :: rest, raising =>
      intro name args returns methodBody dropped member
      have fromRest := does_methods family kept rest (raising_members_tail raising)
      match stmt, raising, List.mem_cons.mp member with
      | _, _, .inr later => exact fromRest _ _ _ _ _ later
      | .functionDef _ _ _ _ _, raising, .inl rfl =>
          exact does_visitBody family kept methodBody raising.front.back

end

end

end Lambpie.Compiler
