/-
Depth-first collection of the nodes reachable in a graph.

A node's children are walked as they are computed, and the computation may fail
behind any of them.  Each node is entered once; the counter bounds the depth,
and the number of nodes with children is always enough of it.  The result is
closed: the children of everything collected are collected.
-/
import Mathlib.Data.List.Nodup

namespace Foundations.GraphWalk

universe u v

variable {α : Type u} {ε : Type v}

section

variable [DecidableEq α]

/-- The nodes seen after the walk from a node; `exhausted` is the failure of
the counter. -/
def walk (children : α → List α × Option ε) (exhausted : ε) :
    Nat → α → List α → Except ε (List α)
  | 0, _, _ => .error exhausted
  | depth + 1, node, seen =>
      if node ∈ seen then .ok seen
      else do
        let after ← (children node).1.foldlM
          (fun seen child => walk children exhausted depth child seen) (node :: seen)
        match (children node).2 with
        | none => .ok after
        | some error => .error error

def walkAll (children : α → List α × Option ε) (exhausted : ε) (depth : Nat)
    (roots seen : List α) : Except ε (List α) :=
  roots.foldlM (fun seen root => walk children exhausted depth root seen) seen

end

/-- What a walk adds: the nodes given, and nothing whose children are left
out. -/
structure Extends (children : α → List α × Option ε) (roots seen after : List α) :
    Prop where
  grows : ∀ node ∈ seen, node ∈ after
  rooted : ∀ root ∈ roots, root ∈ after
  distinct : seen.Nodup → after.Nodup
  closed : ∀ node ∈ after, node ∉ seen →
    (children node).2 = none ∧ ∀ child ∈ (children node).1, child ∈ after

variable {children : α → List α × Option ε} {exhausted : ε}

theorem Extends.nil (seen : List α) : Extends children [] seen seen where
  grows := fun _ inside => inside
  rooted := fun _ inside => absurd inside List.not_mem_nil
  distinct := fun nodup => nodup
  closed := fun _ inside outside => absurd inside outside

theorem Extends.cons {root : α} {roots seen middle after : List α}
    (first : Extends children [root] seen middle)
    (rest : Extends children roots middle after) :
    Extends children (root :: roots) seen after where
  grows := fun node inside => rest.grows node (first.grows node inside)
  rooted := by
    intro other inside
    cases List.mem_cons.mp inside with
    | inl same =>
        rw [same]
        exact rest.grows root (first.rooted root List.mem_cons_self)
    | inr later => exact rest.rooted other later
  distinct := fun nodup => rest.distinct (first.distinct nodup)
  closed := by
    intro node inside outside
    by_cases early : node ∈ middle
    · obtain ⟨computed, collected⟩ := first.closed node early outside
      exact ⟨computed, fun child member => rest.grows child (collected child member)⟩
    · exact rest.closed node inside early

private theorem foldlM_extends {visit : α → List α → Except ε (List α)}
    (visits : ∀ node seen after, visit node seen = .ok after →
      Extends children [node] seen after)
    (roots : List α) {seen after : List α}
    (ran : roots.foldlM (fun seen root => visit root seen) seen = .ok after) :
    Extends children roots seen after := by
  induction roots generalizing seen with
  | nil =>
      cases ran
      exact Extends.nil _
  | cons root roots ih =>
      rw [List.foldlM_cons] at ran
      cases first : visit root seen with
      | error error =>
          rw [first] at ran
          cases ran
      | ok middle =>
          rw [first] at ran
          exact (visits root seen middle first).cons (ih ran)

variable [DecidableEq α]

private theorem walk_extends (depth : Nat) {node : α} {seen after : List α}
    (ran : walk children exhausted depth node seen = .ok after) :
    Extends children [node] seen after := by
  induction depth generalizing node seen after with
  | zero => cases ran
  | succ depth ih =>
      unfold walk at ran
      split at ran
      · rename_i already
        cases ran
        refine { Extends.nil seen with rooted := ?_ }
        intro root inside
        rw [List.mem_singleton.mp inside]
        exact already
      · rename_i fresh
        cases walked : (children node).1.foldlM
            (fun seen child => walk children exhausted depth child seen)
            (node :: seen) with
        | error error =>
            rw [walked] at ran
            cases ran
        | ok last =>
            rw [walked] at ran
            cases computed : (children node).2 with
            | some error =>
                rw [computed] at ran
                cases ran
            | none =>
                rw [computed] at ran
                cases ran
                have below := foldlM_extends (fun _ _ _ run => ih run) _ walked
                have here := below.grows node List.mem_cons_self
                refine ⟨?_, ?_, ?_, ?_⟩
                · exact fun other inside =>
                    below.grows other (List.mem_cons_of_mem node inside)
                · intro root inside
                  rw [List.mem_singleton.mp inside]
                  exact here
                · exact fun nodup =>
                    below.distinct (List.nodup_cons.mpr ⟨fresh, nodup⟩)
                · intro other inside outside
                  by_cases same : other = node
                  · rw [same]
                    exact ⟨computed, below.rooted⟩
                  · refine below.closed other inside ?_
                    rw [List.mem_cons, not_or]
                    exact ⟨same, outside⟩

theorem walkAll_extends (depth : Nat) (roots : List α) {seen after : List α}
    (ran : walkAll children exhausted depth roots seen = .ok after) :
    Extends children roots seen after :=
  foldlM_extends (fun _ _ _ run => walk_extends depth run) roots ran

def unseen (nodes seen : List α) : List α := nodes.filter (· ∉ seen)

private theorem unseen_length_le {nodes seen after : List α}
    (grows : ∀ node ∈ seen, node ∈ after) :
    (unseen nodes after).length ≤ (unseen nodes seen).length := by
  refine (List.monotone_filter_right nodes ?_).length_le
  intro node outside
  simp only [decide_eq_true_eq] at outside ⊢
  exact fun inside => outside (grows node inside)

private theorem unseen_length_lt {nodes seen : List α} {node : α} (inside : node ∈ nodes)
    (fresh : node ∉ seen) :
    (unseen nodes (node :: seen)).length < (unseen nodes seen).length := by
  have sublist : List.Sublist (unseen nodes (node :: seen)) (unseen nodes seen) := by
    refine List.monotone_filter_right nodes ?_
    intro other outside
    simp only [List.mem_cons, not_or, decide_eq_true_eq] at outside ⊢
    exact outside.2
  rcases Nat.lt_or_ge (unseen nodes (node :: seen)).length
    (unseen nodes seen).length with shorter | longer
  · exact shorter
  · have same := sublist.eq_of_length_le longer
    have member : node ∈ unseen nodes seen := by
      simp [unseen, inside, fresh]
    rw [← same] at member
    simp [unseen] at member

private theorem foldlM_not_exhausted {visit : α → List α → Except ε (List α)}
    {nodes : List α} {depth : Nat}
    (visits : ∀ node seen, (unseen nodes seen).length < depth →
      visit node seen ≠ .error exhausted)
    (grows : ∀ node seen after, visit node seen = .ok after →
      Extends children [node] seen after)
    (roots : List α) {seen : List α} (enough : (unseen nodes seen).length < depth) :
    roots.foldlM (fun seen root => visit root seen) seen ≠ .error exhausted := by
  induction roots generalizing seen with
  | nil =>
      intro same
      cases same
  | cons root roots ih =>
      rw [List.foldlM_cons]
      cases first : visit root seen with
      | error error =>
          intro same
          refine visits root seen enough ?_
          rw [first]
          exact same
      | ok middle =>
          refine ih (Nat.lt_of_le_of_lt ?_ enough)
          exact unseen_length_le (grows root seen middle first).grows

private theorem walk_not_exhausted {nodes : List α}
    (known : ∀ node, (children node).1 ≠ [] → node ∈ nodes)
    (otherError : ∀ node, (children node).2 ≠ some exhausted) (depth : Nat)
    {node : α} {seen : List α} (enough : (unseen nodes seen).length < depth) :
    walk children exhausted depth node seen ≠ .error exhausted := by
  induction depth generalizing node seen with
  | zero => omega
  | succ depth ih =>
      unfold walk
      split
      · intro same
        cases same
      · rename_i fresh
        have below : (children node).1.foldlM
            (fun seen child => walk children exhausted depth child seen)
            (node :: seen) ≠ .error exhausted := by
          cases leaf : (children node).1 with
          | nil =>
              intro same
              cases same
          | cons child rest =>
              have inside := known node (by rw [leaf]; exact List.cons_ne_nil _ _)
              have fewer := unseen_length_lt inside fresh
              exact foldlM_not_exhausted (fun _ _ room => ih room)
                (fun _ _ _ run => walk_extends depth run) _ (by omega)
        intro same
        cases walked : (children node).1.foldlM
            (fun seen child => walk children exhausted depth child seen)
            (node :: seen) with
        | error error =>
            rw [walked] at same below
            exact below same
        | ok last =>
            rw [walked] at same
            cases computed : (children node).2 with
            | none =>
                rw [computed] at same
                cases same
            | some error =>
                rw [computed] at same
                exact otherError node (computed.trans (congrArg some
                  (Except.error.inj same)))

private theorem walkAll_not_exhausted (nodes : List α)
    (known : ∀ node, (children node).1 ≠ [] → node ∈ nodes)
    (otherError : ∀ node, (children node).2 ≠ some exhausted) (roots : List α)
    {depth : Nat} (enough : nodes.length < depth) :
    walkAll children exhausted depth roots [] ≠ .error exhausted := by
  refine foldlM_not_exhausted
    (fun _ _ room => walk_not_exhausted known otherError depth room)
    (fun _ _ _ run => walk_extends depth run) roots ?_
  exact Nat.lt_of_le_of_lt (List.length_filter_le _ _) enough

section

omit [DecidableEq α]

/-- The least set that contains the roots and is closed under the edges. -/
inductive Reached (edge : α → α → Prop) (roots : List α) : α → Prop
  | root {node : α} (isRoot : node ∈ roots) : Reached edge roots node
  | step {node child : α} (reached : Reached edge roots node)
      (leads : edge node child) : Reached edge roots child

def Child (children : α → List α × Option ε) (node child : α) : Prop :=
  child ∈ (children node).1

theorem Reached.bind {edge : α → α → Prop} {roots nodes : List α} {node : α}
    (reached : Reached edge nodes node)
    (below : ∀ other ∈ nodes, Reached edge roots other) :
    Reached edge roots node := by
  induction reached with
  | root isRoot => exact below _ isRoot
  | step _ leads ih => exact .step ih leads

theorem Reached.mono {edge : α → α → Prop} {roots nodes : List α} {node : α}
    (reached : Reached edge nodes node) (within : ∀ other ∈ nodes, other ∈ roots) :
    Reached edge roots node :=
  reached.bind fun other inside => .root (within other inside)

/-- A walk that returns has added reachable nodes only, and one that fails has
failed at the counter or at a reachable node. -/
def Explores (children : α → List α × Option ε) (exhausted : ε)
    (roots seen : List α) : Except ε (List α) → Prop
  | .ok after => ∀ node ∈ after, node ∈ seen ∨ Reached (Child children) roots node
  | .error error => error = exhausted ∨
      ∃ node, Reached (Child children) roots node ∧ (children node).2 = some error

private theorem foldlM_explores {visit : α → List α → Except ε (List α)}
    (visits : ∀ node seen,
      Explores children exhausted [node] seen (visit node seen))
    (roots seen : List α) :
    Explores children exhausted roots seen
      (roots.foldlM (fun seen root => visit root seen) seen) := by
  induction roots generalizing seen with
  | nil => exact fun node inside => Or.inl inside
  | cons root roots ih =>
      have here := visits root seen
      have fromRoot {node : α} (reached : Reached (Child children) [root] node) :
          Reached (Child children) (root :: roots) node :=
        reached.mono fun other inside =>
          List.mem_singleton.mp inside ▸ List.mem_cons_self
      rw [List.foldlM_cons]
      cases first : visit root seen with
      | error error =>
          rw [first] at here
          rcases here with spent | ⟨node, reached, failed⟩
          · exact Or.inl spent
          · exact Or.inr ⟨node, fromRoot reached, failed⟩
      | ok middle =>
          rw [first] at here
          have later := ih middle
          have fromLater {node : α}
              (reached : Reached (Child children) roots node) :
              Reached (Child children) (root :: roots) node :=
            reached.mono fun other inside => List.mem_cons_of_mem root inside
          change Explores children exhausted (root :: roots) seen
            (roots.foldlM (fun seen root => visit root seen) middle)
          cases rest : roots.foldlM (fun seen root => visit root seen) middle with
          | error error =>
              rw [rest] at later
              rcases later with spent | ⟨node, reached, failed⟩
              · exact Or.inl spent
              · exact Or.inr ⟨node, fromLater reached, failed⟩
          | ok after =>
              rw [rest] at later
              intro node inside
              rcases later node inside with early | reached
              · rcases here node early with old | reached
                · exact Or.inl old
                · exact Or.inr (fromRoot reached)
              · exact Or.inr (fromLater reached)

end

private theorem walk_explores (depth : Nat) (node : α) (seen : List α) :
    Explores children exhausted [node] seen
      (walk children exhausted depth node seen) := by
  induction depth generalizing node seen with
  | zero => exact Or.inl rfl
  | succ depth ih =>
      have here : Reached (Child children) [node] node :=
        .root List.mem_cons_self
      unfold walk
      split
      · exact fun other inside => Or.inl inside
      · have below := foldlM_explores
          (fun child seen => ih child seen) (children node).1 (node :: seen)
        have fromNode {other : α}
            (reached : Reached (Child children) (children node).1 other) :
            Reached (Child children) [node] other :=
          reached.bind fun child inside => .step here inside
        cases rest : (children node).1.foldlM (fun seen child =>
            walk children exhausted depth child seen) (node :: seen) with
        | error error =>
            rw [rest] at below
            rcases below with spent | ⟨other, reached, failed⟩
            · exact Or.inl spent
            · exact Or.inr ⟨other, fromNode reached, failed⟩
        | ok after =>
            rw [rest] at below
            cases computed : (children node).2 with
            | some error => exact Or.inr ⟨node, here, computed⟩
            | none =>
                intro other inside
                rcases below other inside with early | reached
                · rcases List.mem_cons.mp early with rfl | old
                  · exact Or.inr here
                  · exact Or.inl old
                · exact Or.inr (fromNode reached)

omit [DecidableEq α] in
/-- A closed collection that starts from nothing holds everything reachable. -/
theorem Extends.complete {roots after : List α}
    (collected : Extends children roots [] after) {node : α}
    (reached : Reached (Child children) roots node) : node ∈ after := by
  induction reached with
  | root isRoot => exact collected.rooted _ isRoot
  | step _ leads ih =>
      exact (collected.closed _ ih List.not_mem_nil).2 _ leads

/-- When every reachable node has its children computed, the walk returns
exactly the reachable nodes. -/
theorem walkAll_exact (nodes : List α)
    (known : ∀ node, (children node).1 ≠ [] → node ∈ nodes)
    (otherError : ∀ node, (children node).2 ≠ some exhausted) (roots : List α)
    {depth : Nat} (enough : nodes.length < depth)
    (computed : ∀ node, Reached (Child children) roots node →
      (children node).2 = none) :
    ∃ after, walkAll children exhausted depth roots [] = .ok after ∧
      after.Nodup ∧ ∀ node, node ∈ after ↔ Reached (Child children) roots node := by
  have explores : Explores children exhausted roots []
      (walkAll children exhausted depth roots []) :=
    foldlM_explores (fun node seen => walk_explores depth node seen) roots []
  have terminates :=
    walkAll_not_exhausted nodes known otherError roots enough
  cases ran : walkAll children exhausted depth roots [] with
  | error error =>
      rw [ran] at explores
      rcases explores with spent | ⟨node, reached, failed⟩
      · exact absurd (spent ▸ ran) terminates
      · rw [computed node reached] at failed
        cases failed
  | ok after =>
      rw [ran] at explores
      have collected := walkAll_extends depth roots ran
      refine ⟨after, rfl, collected.distinct List.nodup_nil, ?_⟩
      intro node
      constructor
      · intro inside
        rcases explores node inside with impossible | reached
        · exact absurd impossible List.not_mem_nil
        · exact reached
      · exact collected.complete

/-- A reachable node whose children cannot all be computed makes the walk fail, and not
at the counter. -/
theorem walkAll_fails (nodes : List α)
    (known : ∀ node, (children node).1 ≠ [] → node ∈ nodes)
    (otherError : ∀ node, (children node).2 ≠ some exhausted) (roots : List α)
    {depth : Nat} (enough : nodes.length < depth) {node : α}
    (reached : Reached (Child children) roots node) {error : ε}
    (failed : (children node).2 = some error) :
    ∃ error, walkAll children exhausted depth roots [] = .error error ∧
      error ≠ exhausted := by
  have terminates :=
    walkAll_not_exhausted nodes known otherError roots enough
  cases ran : walkAll children exhausted depth roots [] with
  | error error =>
      refine ⟨error, rfl, ?_⟩
      intro spent
      exact terminates (spent ▸ ran)
  | ok after =>
      have collected := walkAll_extends depth roots ran
      obtain ⟨computed, -⟩ :=
        collected.closed node (collected.complete reached) List.not_mem_nil
      rw [computed] at failed
      cases failed

end Foundations.GraphWalk
