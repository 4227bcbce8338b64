/-
What the parser makes of the shapes it has collected.
-/
import Mathlib.Tactic.Tauto
import Lambpie.Scripts.Reachability

namespace Lambpie.Scripts

open Foundations

theorem botocoreScalarToPie_ok {type shapeName pieType : String}
    (resolved : botocoreScalarToPie type shapeName = .ok pieType) :
    pieType = "str" ∨ pieType = "int" := by
  unfold botocoreScalarToPie at resolved
  split at resolved
  · cases resolved
  · split at resolved
    · rename_i pie found
      cases resolved
      obtain ⟨front, back, split, -⟩ := List.lookup_eq_some_iff.mp found
      have inside : (type, pieType) ∈ scalarTypeMap := by
        rw [split]
        exact List.mem_append_right _ List.mem_cons_self
      simp only [scalarTypeMap, List.mem_cons, Prod.mk.injEq, List.not_mem_nil,
        or_false] at inside
      tauto
    · cases resolved

theorem resolvePieType_ok {shapes : List (String × Shape)} {name pieType : String}
    (resolved : resolvePieType name shapes = .ok pieType) :
    (pieType = "str" ∨ pieType = "int") ∨
      pieType = name ∧ ∃ shape, shapes.lookup name = some shape ∧
        shape.type = "structure" := by
  unfold resolvePieType at resolved
  split at resolved
  · cases resolved
  · rename_i shape found
    split at resolved
    · rename_i isStructure
      cases resolved
      exact Or.inr ⟨rfl, shape, found, isStructure⟩
    · split at resolved
      · cases resolved
      · split at resolved
        · cases resolved
        · exact Or.inl (botocoreScalarToPie_ok resolved)

private theorem parseMembers_mem {shapes : List (String × Shape)} {skip : Bool}
    {shapeName : String} {required : List String}
    {members : List (String × MemberInfo)}
    {parsed : List (String × ParsedMember)}
    (ran : parseMembers shapes skip shapeName required members = .ok parsed) :
    ∀ item ∈ parsed, ∃ info, (item.1, info) ∈ members ∧
      resolvePieType info.shape shapes = .ok item.2.pieType := by
  induction members generalizing parsed with
  | nil =>
      cases ran
      exact fun _ inside => absurd inside List.not_mem_nil
  | cons member rest ih =>
      obtain ⟨fieldName, info⟩ := member
      have later {parsed : List (String × ParsedMember)}
          (ran : parseMembers shapes skip shapeName required rest = .ok parsed) :
          ∀ item ∈ parsed, ∃ found, (item.1, found) ∈ (fieldName, info) :: rest ∧
            resolvePieType found.shape shapes = .ok item.2.pieType := by
        intro item inside
        obtain ⟨found, member, resolved⟩ := ih ran item inside
        exact ⟨found, List.mem_cons_of_mem _ member, resolved⟩
      unfold parseMembers at ran
      split at ran
      · rename_i pieType resolved
        obtain ⟨others, othersRan, same⟩ := except_bind_ok ran
        cases same
        intro item inside
        cases List.mem_cons.mp inside with
        | inl here =>
            rw [here]
            exact ⟨info, List.mem_cons_self, resolved⟩
        | inr inOthers => exact later othersRan item inOthers
      · split at ran
        · exact later ran
        · cases ran
      · cases ran

private theorem parseStructureShape_mem {shapes : List (String × Shape)} {skip : Bool}
    {shapeName : String} {shape : Shape} {definition : StructureDef}
    (ran : parseStructureShape shapes skip shapeName shape = .ok definition) :
    ∀ item ∈ definition.members, ∃ info, (item.1, info) ∈ shape.members ∧
      resolvePieType info.shape shapes = .ok item.2.pieType := by
  obtain ⟨members, parsed, same⟩ := except_bind_ok ran
  cases same
  exact parseMembers_mem parsed

/-- What the first of the names adds in front of the definitions of the others. -/
inductive ParsedFirst (shapes : List (String × Shape)) (skip : Bool) (name : String)
    (shape : Shape) (others : List (String × ShapeDef)) :
    List (String × ShapeDef) → Prop where
  | structured {definition : StructureDef} (isStructure : shape.type = "structure")
      (ran : parseStructureShape shapes skip name shape = .ok definition) :
      ParsedFirst shapes skip name shape others ((name, .structure definition) :: others)
  | scalar {pieType : String} (notStructure : shape.type ≠ "structure")
      (resolved : botocoreScalarToPie shape.type name = .ok pieType) :
      ParsedFirst shapes skip name shape others ((name, .scalar pieType) :: others)
  | compound (skips : skip = true) (isCompound : shape.type = "list" ∨ shape.type = "map") :
      ParsedFirst shapes skip name shape others others
  | unknown {error : ParseError} (skips : skip = true)
      (notStructure : shape.type ≠ "structure")
      (notCompound : ¬(shape.type = "list" ∨ shape.type = "map"))
      (failed : botocoreScalarToPie shape.type name = .error error) :
      ParsedFirst shapes skip name shape others others

theorem parseShapes_cases {shapes : List (String × Shape)} {skip : Bool} {name : String}
    {rest : List String} {parsed : List (String × ShapeDef)}
    (ran : parseShapes shapes skip (name :: rest) = .ok parsed) :
    ∃ shape others, shapes.lookup name = some shape ∧
      parseShapes shapes skip rest = .ok others ∧
        ParsedFirst shapes skip name shape others parsed := by
  unfold parseShapes at ran
  split at ran
  · cases ran
  · rename_i shape found
    split at ran
    · rename_i isStructure
      obtain ⟨definition, structureRan, ran⟩ := except_bind_ok ran
      obtain ⟨others, othersRan, same⟩ := except_bind_ok ran
      cases same
      exact ⟨shape, others, found, othersRan, .structured isStructure structureRan⟩
    · rename_i notStructure
      split at ran
      · rename_i isCompound
        split at ran
        · rename_i skips
          exact ⟨shape, parsed, found, ran, .compound skips isCompound⟩
        · cases ran
      · rename_i notCompound
        split at ran
        · rename_i pieType resolved
          obtain ⟨others, othersRan, same⟩ := except_bind_ok ran
          cases same
          exact ⟨shape, others, found, othersRan, .scalar notStructure resolved⟩
        · rename_i error failed
          split at ran
          · rename_i skips
            exact ⟨shape, parsed, found, ran,
              .unknown skips notStructure notCompound failed⟩
          · cases ran

/-- The definitions belong to the names given, in order, and every structure
among these names has one. -/
structure ParsedShapes (shapes : List (String × Shape)) (names : List String)
    (parsed : List (String × ShapeDef)) : Prop where
  sublist : (parsed.map Prod.fst).Sublist names
  parsedFrom : ∀ name definition, (name, .structure definition) ∈ parsed →
    ∃ shape, shapes.lookup name = some shape ∧ shape.type = "structure" ∧
      ∀ item ∈ definition.members, ∃ info, (item.1, info) ∈ shape.members ∧
        resolvePieType info.shape shapes = .ok item.2.pieType
  complete : ∀ name ∈ names, ∀ shape, shapes.lookup name = some shape →
    shape.type = "structure" → ∃ definition, (name, .structure definition) ∈ parsed

private theorem ParsedShapes.skip {shapes : List (String × Shape)} {names : List String}
    {parsed : List (String × ShapeDef)} {name : String} {shape : Shape}
    (others : ParsedShapes shapes names parsed) (found : shapes.lookup name = some shape)
    (notStructure : shape.type ≠ "structure") :
    ParsedShapes shapes (name :: names) parsed := by
  refine { sublist := others.sublist.cons _
           parsedFrom := others.parsedFrom, complete := ?_ }
  intro other inside otherShape otherFound isStructure
  cases List.mem_cons.mp inside with
  | inl same =>
      rw [same, found] at otherFound
      cases otherFound
      exact absurd isStructure notStructure
  | inr later => exact others.complete other later _ otherFound isStructure

private theorem ParsedShapes.addStructure {shapes : List (String × Shape)}
    {names : List String} {parsed : List (String × ShapeDef)} {skip : Bool}
    {name : String} {shape : Shape} {definition : StructureDef}
    (others : ParsedShapes shapes names parsed) (found : shapes.lookup name = some shape)
    (isStructure : shape.type = "structure")
    (ran : parseStructureShape shapes skip name shape = .ok definition) :
    ParsedShapes shapes (name :: names) ((name, .structure definition) :: parsed) := by
  refine { sublist := others.sublist.cons_cons name
           parsedFrom := ?_, complete := ?_ }
  · intro other otherDefinition inside
    cases List.mem_cons.mp inside with
    | inl same =>
        cases same
        exact ⟨shape, found, isStructure, parseStructureShape_mem ran⟩
    | inr later => exact others.parsedFrom other _ later
  · intro other inside otherShape otherFound otherStructure
    cases List.mem_cons.mp inside with
    | inl same =>
        rw [same]
        exact ⟨definition, List.mem_cons_self⟩
    | inr later =>
        obtain ⟨otherDefinition, member⟩ :=
          others.complete other later _ otherFound otherStructure
        exact ⟨otherDefinition, List.mem_cons_of_mem _ member⟩

private theorem ParsedShapes.addScalar {shapes : List (String × Shape)}
    {names : List String} {parsed : List (String × ShapeDef)} {name pieType : String}
    {shape : Shape} (others : ParsedShapes shapes names parsed)
    (found : shapes.lookup name = some shape) (notStructure : shape.type ≠ "structure") :
    ParsedShapes shapes (name :: names) ((name, .scalar pieType) :: parsed) := by
  have skipped := others.skip found notStructure
  refine { sublist := others.sublist.cons_cons name
           parsedFrom := ?_, complete := ?_ }
  · intro other definition inside
    cases List.mem_cons.mp inside with
    | inl same => cases same
    | inr later => exact others.parsedFrom other _ later
  · intro other inside otherShape otherFound isStructure
    obtain ⟨definition, member⟩ := skipped.complete other inside _ otherFound isStructure
    exact ⟨definition, List.mem_cons_of_mem _ member⟩

theorem parseShapes_parsed {shapes : List (String × Shape)} {skip : Bool}
    {names : List String} {parsed : List (String × ShapeDef)}
    (ran : parseShapes shapes skip names = .ok parsed) :
    ParsedShapes shapes names parsed := by
  induction names generalizing parsed with
  | nil =>
      cases ran
      exact { sublist := List.Sublist.refl _
              parsedFrom := fun _ _ inside => absurd inside List.not_mem_nil
              complete := fun _ inside => absurd inside List.not_mem_nil }
  | cons name rest ih =>
      obtain ⟨shape, others, found, othersRan, first⟩ := parseShapes_cases ran
      have parsedOthers := ih othersRan
      cases first with
      | structured isStructure structureRan =>
          exact parsedOthers.addStructure found isStructure structureRan
      | scalar notStructure _ => exact parsedOthers.addScalar found notStructure
      | compound _ isCompound =>
          apply parsedOthers.skip found
          rcases isCompound with isList | isMap
          · rw [isList]
            decide
          · rw [isMap]
            decide
      | unknown _ notStructure => exact parsedOthers.skip found notStructure

theorem parsed_member_class {model : ServiceModel}
    {operationNames : Option (List String)} {reachable : List String}
    (collected : collectReachableShapes model operationNames = .ok reachable)
    {parsed : List (String × ShapeDef)}
    (shapes : ParsedShapes model.shapes (reachable.insertionSort (· ≤ ·)) parsed)
    {name : String} {definition : StructureDef}
    (listed : (name, .structure definition) ∈ parsed)
    {item : String × ParsedMember} (member : item ∈ definition.members) :
    (item.2.pieType = "str" ∨ item.2.pieType = "int") ∨
      ∃ inner, (item.2.pieType, .structure inner) ∈ parsed := by
  obtain ⟨shape, found, isStructure, members⟩ :=
    shapes.parsedFrom name definition listed
  obtain ⟨info, infoMember, resolved⟩ := members item member
  rcases resolvePieType_ok resolved with primitive | structured
  · exact Or.inl primitive
  · obtain ⟨same, inner, innerFound, innerStructure⟩ := structured
    have outer : name ∈ reachable := by
      have inNames := shapes.sublist.subset (List.mem_map_of_mem listed)
      exact (List.mem_insertionSort _).mp inNames
    obtain ⟨-, below⟩ := reachable_closed collected
    obtain ⟨-, collectedChildren⟩ := below name outer
    -- the walk goes on to the shapes of a structure's members
    have inReachable : info.shape ∈ reachable := by
      apply collectedChildren
      unfold walkChildren
      rw [found]
      dsimp only
      rw [if_pos isStructure]
      exact List.mem_map_of_mem infoMember
    obtain ⟨innerDefinition, emitted⟩ := shapes.complete info.shape
      ((List.mem_insertionSort _).mpr inReachable) inner innerFound innerStructure
    rw [same]
    exact Or.inr ⟨innerDefinition, emitted⟩

end Lambpie.Scripts
