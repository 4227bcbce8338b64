/-
The statements that the generated text is read as.

Each piece of `generate_pie` is a line of a statement, a comment or blank.  The
tokens of the lines are followed for any names, so that the whole text is read
as the classes and the stubs, in order.
-/
import Lambpie.Foundations.PythonSource
import Lambpie.Scripts.GeneratePie
import Lambpie.Scripts.ClassOrder

namespace Lambpie.Scripts

open Foundations
open Foundations.Python

section Pieces

variable {lexis : Lexis}

def Without (bad : Char → Bool) (text : String) : Prop :=
  ∀ c ∈ text.toList, bad c = false

theorem Without.append {bad : Char → Bool} {left right : String}
    (first : Without bad left) (second : Without bad right) :
    Without bad (left ++ right) := by
  intro c inside
  rw [String.toList_append, List.mem_append] at inside
  rcases inside with inLeft | inRight
  · exact first c inLeft
  · exact second c inRight

theorem without_intercalate {bad : Char → Bool} {separator : String}
    (between : Without bad separator) {pieces : List String}
    (each : ∀ piece ∈ pieces, Without bad piece) :
    Without bad (separator.intercalate pieces) := by
  induction pieces with
  | nil => exact fun _ impossible => absurd impossible List.not_mem_nil
  | cons piece rest ih =>
      have here := each piece List.mem_cons_self
      have others := ih fun other inside => each other (List.mem_cons_of_mem _ inside)
      cases rest with
      | nil => rwa [String.intercalate_singleton]
      | cons next rest =>
          rw [String.intercalate_cons_cons]
          exact (here.append between).append others

theorem mem_intercalate {separator piece : String} {pieces : List String}
    (listed : piece ∈ pieces) {c : Char} (inside : c ∈ piece.toList) :
    c ∈ (separator.intercalate pieces).toList := by
  induction pieces with
  | nil => cases listed
  | cons first rest ih =>
      cases rest with
      | nil =>
          rw [String.intercalate_singleton]
          rwa [List.mem_singleton.mp listed] at inside
      | cons next rest =>
          rw [String.intercalate_cons_cons, String.toList_append,
            String.toList_append, List.mem_append, List.mem_append]
          rcases List.mem_cons.mp listed with rfl | later
          · exact .inl (.inl inside)
          · exact .inr (ih later)

theorem without_literal {bad : Char → Bool} {text : String}
    (checked : text.toList.all (! bad ·) = true) : Without bad text := by
  intro c inside
  have kept := List.all_eq_true.mp checked c inside
  rwa [Bool.not_eq_true'] at kept

/-- Control characters only, which neither a name nor a sign is. -/
def Control (bad : Char → Bool) : Prop := ∀ c, bad c → c.toNat < 32

theorem control_lineBreak : Control isLineBreak := by
  intro c breaks
  rw [isLineBreak, Bool.or_eq_true, decide_eq_true_iff, decide_eq_true_iff] at breaks
  rcases breaks with rfl | rfl
  · decide
  · decide

private theorem without_name {bad : Char → Bool} (control : Control bad) {name : String}
    (isName : lexis.IsName name) : Without bad name := by
  intro c inside
  by_contra found
  rw [Bool.not_eq_false] at found
  have small := control c found
  exact isName.not_mem (small.trans (by decide)) (control_sign small) inside

theorem without_printable {bad : Char → Bool} (control : Control bad) {text : String}
    (printable : text.toList.all (32 ≤ ·.toNat) = true) : Without bad text := by
  intro c inside
  have above := List.all_eq_true.mp printable c inside
  by_contra found
  rw [Bool.not_eq_false] at found
  exact absurd (control c found) (Nat.not_lt.mpr (of_decide_eq_true above))

def Unbroken (text : String) : Prop := Without isLineBreak text

theorem unbroken_of_all {texts : List String}
    (checked : texts.all (·.toList.all (! isLineBreak ·)) = true) :
    ∀ text ∈ texts, Unbroken text :=
  fun text listed => without_literal (List.all_eq_true.mp checked text listed)

/-- The pieces have the lines given. -/
def Reads (lexis : Lexis) (pieces : List String) (lines : List Line) : Prop :=
  lexis.lines (pieces.flatMap physicalLines) = some lines

theorem reads_nil : Reads lexis [] [] := rfl

theorem Reads.append {front back : List String} {first second : List Line}
    (frontReads : Reads lexis front first) (backReads : Reads lexis back second) :
    Reads lexis (front ++ back) (first ++ second) := by
  unfold Reads
  rw [List.flatMap_append]
  exact Lexis.lines_append frontReads backReads

theorem Reads.cons {piece : String} {rest : List String} {first second : List Line}
    (here : Reads lexis [piece] first) (others : Reads lexis rest second) :
    Reads lexis (piece :: rest) (first ++ second) :=
  here.append others

theorem reads_flatMap {α : Type} {items : List α} {pieces : α → List String}
    {lines : α → List Line}
    (each : ∀ item ∈ items, Reads lexis (pieces item) (lines item)) :
    Reads lexis (items.flatMap pieces) (items.flatMap lines) := by
  induction items with
  | nil => exact reads_nil
  | cons item rest ih =>
      rw [List.flatMap_cons, List.flatMap_cons]
      apply (each item List.mem_cons_self).append
      exact ih fun other inside => each other (List.mem_cons_of_mem _ inside)

private theorem Reads.of_tokens {piece : String} {tokens : List Token}
    (unbroken : Unbroken piece)
    (found : lexis.tokenize [] piece.toList = some tokens) (nonempty : tokens ≠ []) :
    Reads lexis [piece]
      [{ indent := (piece.toList.takeWhile (· = ' ')).length, tokens }] := by
  unfold Reads
  rw [List.flatMap_cons, List.flatMap_nil, List.append_nil,
    physicalLines_single unbroken]
  exact Lexis.lines_singleton (Lexis.line_of_tokens found nonempty)

theorem Reads.of_comments {piece : String}
    (comments : ∀ chars ∈ physicalLines piece, IsComment chars) :
    Reads lexis [piece] [] := by
  unfold Reads
  rw [List.flatMap_cons, List.flatMap_nil, List.append_nil]
  exact Lexis.lines_comments comments

theorem reads_blank : Reads lexis [""] [] := by
  apply Reads.of_comments
  intro chars inside
  exact .inl (List.mem_singleton.mp inside)

theorem comment_line {piece : String} {rest : List Char} (unbroken : Unbroken piece)
    (starts : piece.toList = '#' :: rest) :
    ∀ chars ∈ physicalLines piece, IsComment chars := by
  intro chars inside
  rw [physicalLines_single unbroken, List.mem_singleton] at inside
  exact .inr ⟨rest, inside.trans starts⟩

theorem comments_append {front back : String} {rest : List Char}
    (unbroken : Unbroken front) (starts : front.toList = '#' :: rest)
    (comments : ∀ chars ∈ physicalLines back, IsComment chars) :
    ∀ chars ∈ physicalLines (front ++ "\n" ++ back), IsComment chars := by
  have pieces : front ++ "\n" ++ back = "\n".intercalate [front, back] := by
    rw [String.intercalate_cons_cons, String.intercalate_singleton]
  intro chars inside
  rw [pieces, physicalLines_intercalate (List.cons_ne_nil _ _)] at inside
  obtain ⟨piece, listed, found⟩ := List.mem_flatMap.mp inside
  rcases List.mem_cons.mp listed with rfl | later
  · exact comment_line unbroken starts chars found
  · rw [List.mem_singleton.mp later] at found
    exact comments chars found

theorem rstrip_begins (text : String) : (rstrip text).toList <+: text.toList := by
  rw [rstrip, String.toList_ofList]
  exact List.rdropWhile_prefix _ _

theorem comments_rstrip {text : String}
    (comments : ∀ chars ∈ physicalLines text, IsComment chars) :
    ∀ chars ∈ physicalLines (rstrip text), IsComment chars :=
  comments_beginning (rstrip_begins text) comments

private theorem indent_of_name {name : String} (isName : lexis.IsName name) (count : Nat)
    (rest : List Char) :
    ((List.replicate count ' ' ++ (name.toList ++ rest)).takeWhile
      (· = ' ')).length = count := by
  have noSpace : ' ' ∉ name.toList := isName.not_mem (by decide) (by decide)
  have word := isName.word
  have stops : (name.toList ++ rest).takeWhile (· = ' ') = [] := by
    generalize name.toList = chars at noSpace word
    cases chars with
    | nil => cases word
    | cons c chars =>
        rw [List.mem_cons, not_or] at noSpace
        rw [List.cons_append, List.takeWhile_cons_of_neg]
        simpa using fun same => noSpace.1 same.symm
  induction count with
  | zero =>
      rw [List.replicate_zero, List.nil_append, stops]
      rfl
  | succ count ih =>
      rw [List.replicate_succ, List.cons_append, List.takeWhile_cons_of_pos (by simp),
        List.length_cons, ih]

private theorem tokenize_spaces (count : Nat) (rest : List Char) :
    lexis.tokenize [] (List.replicate count ' ' ++ rest) = lexis.tokenize [] rest := by
  induction count with
  | zero => rfl
  | succ count ih =>
      rw [List.replicate_succ, List.cons_append, Lexis.tokenize_space, ih]

structure PairNames (lexis : Lexis) (pair : String × String) : Prop where
  name : lexis.IsName pair.1
  type : lexis.IsName pair.2

def normalPair (lexis : Lexis) (pair : String × String) : String × String :=
  (lexis.normal pair.1, lexis.normal pair.2)

private theorem without_paramText {bad : Char → Bool} (control : Control bad)
    {param : String × String} (names : PairNames lexis param) :
    Without bad (paramText param) :=
  ((without_name control names.name).append (without_printable control rfl)).append
    (without_name control names.type)

private theorem paramText_toList (param : String × String) :
    (paramText param).toList =
      param.1.toList ++ (':' :: ' ' :: param.2.toList) := by
  change (param.1 ++ ": " ++ param.2).toList = _
  rw [String.toList_append, String.toList_append, List.append_assoc]
  rfl

private theorem tokenize_paramText {param : String × String} (names : PairNames lexis param)
    {rest : List Char} (ends : lexis.Ends rest) :
    lexis.tokenize [] ((paramText param).toList ++ rest) =
      ([.name (lexis.normal param.1), .colon, .name (lexis.normal param.2)] ++ ·) <$>
        lexis.tokenize [] rest := by
  rw [paramText_toList, List.append_assoc, List.cons_append, List.cons_append,
    Lexis.tokenize_name names.name (Lexis.ends_cons _ (by decide) (by decide)),
    Lexis.tokenize_colon, Lexis.tokenize_space, Lexis.tokenize_name names.type ends]
  cases lexis.tokenize [] rest with
  | none => rfl
  | some tokens => rfl

private theorem tokenize_params {params : List (String × String)}
    (names : ∀ param ∈ params, PairNames lexis param) (rest : List Char) :
    lexis.tokenize [] ((", ".intercalate (params.map paramText)).toList ++ ')' :: rest) =
      (parametersTokens (params.map (normalPair lexis)) ++ ·) <$>
        lexis.tokenize [] rest := by
  induction params with
  | nil => exact Lexis.tokenize_closing rest
  | cons param others ih =>
      have here := names param List.mem_cons_self
      have later := ih fun other inside => names other (List.mem_cons_of_mem _ inside)
      cases others with
      | nil =>
          rw [List.map_cons, List.map_nil, String.intercalate_singleton,
            tokenize_paramText here (Lexis.ends_cons _ (by decide) (by decide)),
            Lexis.tokenize_closing]
          cases lexis.tokenize [] rest with
          | none => rfl
          | some tokens => rfl
      | cons next others =>
          have text : (", ".intercalate ((param :: next :: others).map
              paramText)).toList ++ ')' :: rest =
              (paramText param).toList ++ (',' :: ' ' ::
                ((", ".intercalate ((next :: others).map paramText)).toList ++
                  ')' :: rest)) := by
            rw [List.map_cons, List.map_cons, String.intercalate_cons_cons,
              String.toList_append, String.toList_append]
            simp only [List.append_assoc]
            rfl
          rw [text, tokenize_paramText here (Lexis.ends_cons _ (by decide) (by decide)),
            Lexis.tokenize_comma, Lexis.tokenize_space, later]
          cases lexis.tokenize [] rest with
          | none => rfl
          | some tokens => rfl

structure ClassNames (lexis : Lexis) (item : String × StructureDef) : Prop where
  name : lexis.IsName item.1
  fields : ∀ field ∈ item.2.members, PairNames lexis (field.1, field.2.pieType)

private theorem fieldLine_eq (item : String × ParsedMember) :
    fieldLine item = "    " ++ paramText (item.1, item.2.pieType) := by
  change "    " ++ item.1 ++ ": " ++ item.2.pieType =
    "    " ++ (item.1 ++ ": " ++ item.2.pieType)
  rw [String.append_assoc, String.append_assoc, String.append_assoc]

private theorem without_fieldLine {bad : Char → Bool} (control : Control bad)
    {item : String × ParsedMember} (names : PairNames lexis (item.1, item.2.pieType)) :
    Without bad (fieldLine item) := by
  rw [fieldLine_eq]
  exact (without_printable control rfl).append (without_paramText control names)

private theorem reads_fieldLine {item : String × ParsedMember}
    (names : PairNames lexis (item.1, item.2.pieType)) :
    Reads lexis [fieldLine item]
      [{ indent := 4
         tokens := (Simple.annotated (lexis.normal item.1)
           (lexis.normal item.2.pieType)).tokens }] := by
  have chars : (fieldLine item).toList = List.replicate 4 ' ' ++
      (paramText (item.1, item.2.pieType)).toList := by
    rw [fieldLine_eq, String.toList_append]
    rfl
  have tokens : lexis.tokenize [] (fieldLine item).toList =
      some (Simple.annotated (lexis.normal item.1)
        (lexis.normal item.2.pieType)).tokens := by
    have read := tokenize_paramText names lexis.ends_nil
    rw [List.append_nil] at read
    rw [chars, tokenize_spaces, read]
    rfl
  have read := Reads.of_tokens (without_fieldLine control_lineBreak names) tokens
    (List.cons_ne_nil _ _)
  rwa [chars, paramText_toList, indent_of_name names.name] at read

/-- A line with the one word `pass`, whatever comment follows it. -/
theorem reads_pass {text : String} (rest : List Char)
    (chars : text.toList = List.replicate 4 ' ' ++ ("pass".toList ++ rest))
    (unbroken : Unbroken text) (ends : lexis.Ends rest)
    (nothing : lexis.tokenize [] rest = some []) :
    Reads lexis [text] [{ indent := 4, tokens := Simple.pass.tokens }] := by
  have tokens : lexis.tokenize [] text.toList = some Simple.pass.tokens := by
    rw [chars, tokenize_spaces, Lexis.tokenize_keyword rfl (by decide) ends, nothing]
    rfl
  have read := Reads.of_tokens unbroken tokens (List.cons_ne_nil _ _)
  have column : (text.toList.takeWhile (· = ' ')).length = 4 := by
    rw [chars]
    rfl
  rwa [column] at read

private theorem without_classHeader {bad : Char → Bool} (control : Control bad)
    {className : String} (isName : lexis.IsName className) :
    Without bad s!"class {className}:" :=
  ((without_printable control rfl).append (without_name control isName)).append
    (without_printable control rfl)

private theorem reads_classHeader {className : String} (isName : lexis.IsName className) :
    Reads lexis [s!"class {className}:"]
      [{ indent := 0
         tokens := (Header.classDef (lexis.normal className)).tokens }] := by
  have chars : (s!"class {className}:").toList =
      "class".toList ++ (' ' :: (className.toList ++ [':'])) := by
    change ("class " ++ className ++ ":").toList = _
    rw [String.toList_append, String.toList_append, List.append_assoc]
    rfl
  have tokens : lexis.tokenize [] (s!"class {className}:").toList =
      some (Header.classDef (lexis.normal className)).tokens := by
    rw [chars, Lexis.tokenize_keyword rfl (by decide)
        (Lexis.ends_cons _ (by decide) (by decide)), Lexis.tokenize_space,
      Lexis.tokenize_name isName (Lexis.ends_cons _ (by decide) (by decide)),
      Lexis.tokenize_colon, Lexis.tokenize_nil]
    rfl
  have read := Reads.of_tokens (without_classHeader control_lineBreak isName) tokens
    (List.cons_ne_nil _ _)
  have column : ((s!"class {className}:").toList.takeWhile (· = ' ')).length = 0 := by
    rw [chars]
    rfl
  rwa [column] at read

private theorem orderedFields_ne_nil {definition : StructureDef}
    (nonempty : definition.members ≠ []) : orderedFields definition ≠ [] := by
  obtain ⟨item, rest, split⟩ := List.exists_cons_of_ne_nil nonempty
  have inside : item ∈ orderedFields definition := by
    rw [mem_orderedFields, split]
    exact List.mem_cons_self
  exact List.ne_nil_of_mem inside

def classBlock (lexis : Lexis) (definition : StructureDef) : Block :=
  if nonempty : definition.members = [] then
    { statements := [.pass], nonempty := List.cons_ne_nil _ _ }
  else
    { statements := (orderedFields definition).map fun item =>
        .annotated (lexis.normal item.1) (lexis.normal item.2.pieType)
      nonempty := by
        rw [ne_eq, List.map_eq_nil_iff]
        exact orderedFields_ne_nil nonempty }

def classStatement (lexis : Lexis) (item : String × StructureDef) : Statement :=
  .classDef (lexis.normal item.1) (classBlock lexis item.2)

theorem reads_class {item : String × StructureDef} (names : ClassNames lexis item) :
    Reads lexis (classLines item.1 item.2) ((classStatement lexis item).lines 4) := by
  obtain ⟨className, definition⟩ := item
  have body : Reads lexis
      (if definition.members = [] then ["    pass"]
        else (orderedFields definition).map fieldLine)
      (blockLines 4 (classBlock lexis definition).statements) := by
    unfold classBlock
    by_cases empty : definition.members = []
    · rw [if_pos empty, dif_pos empty]
      exact reads_pass [] rfl (without_printable control_lineBreak rfl)
        lexis.ends_nil rfl
    · rw [if_neg empty, dif_neg empty]
      unfold blockLines
      rw [List.map_map, List.map_eq_flatMap, List.map_eq_flatMap]
      apply reads_flatMap
      intro field inside
      rw [mem_orderedFields] at inside
      exact reads_fieldLine (names.fields field inside)
  have whole := ((reads_classHeader names.name).cons body).append reads_blank
  rwa [List.append_nil] at whole

theorem without_classLines {bad : Char → Bool} (control : Control bad)
    {item : String × StructureDef} (names : ClassNames lexis item) :
    ∀ piece ∈ classLines item.1 item.2, Without bad piece := by
  intro piece inside
  unfold classLines at inside
  rw [List.mem_append, List.mem_cons] at inside
  rcases inside with (rfl | inBody) | blank
  · exact without_classHeader control names.name
  · by_cases empty : item.2.members = []
    · rw [if_pos empty, List.mem_singleton] at inBody
      rw [inBody]
      exact without_printable control rfl
    · rw [if_neg empty] at inBody
      obtain ⟨field, listed, rfl⟩ := List.mem_map.mp inBody
      rw [mem_orderedFields] at listed
      exact without_fieldLine control (names.fields field listed)
  · rw [List.mem_singleton.mp blank]
    exact without_printable control rfl

/-- The names of a stub, of its parameters and of their types. -/
structure StubNames (lexis : Lexis) (shapes : List (String × ShapeDef))
    (operation : ParsedOperation) : Prop where
  name : lexis.IsName operation.name
  params : ∀ param ∈ stubParams shapes operation, PairNames lexis param
  returns : lexis.IsName (returnType shapes operation.outputShape)

def stubStatement (lexis : Lexis) (shapes : List (String × ShapeDef))
    (operation : ParsedOperation) : Statement :=
  .functionDef (lexis.normal operation.name)
    ((stubParams shapes operation).map (normalPair lexis))
    (lexis.normal (returnType shapes operation.outputShape))
    { statements := [.pass], nonempty := List.cons_ne_nil _ _ }

def stubHeader (name : String) (params : List (String × String)) (returns : String) :
    String :=
  let paramStr := ", ".intercalate (params.map paramText)
  s!"def {name}({paramStr}) -> {returns}:"

theorem without_stubHeader {bad : Char → Bool} (control : Control bad)
    {name returns : String} {params : List (String × String)}
    (isName : lexis.IsName name) (names : ∀ param ∈ params, PairNames lexis param)
    (isReturns : lexis.IsName returns) : Without bad (stubHeader name params returns) := by
  have paramStr : Without bad (", ".intercalate (params.map paramText)) := by
    apply without_intercalate (without_printable control rfl)
    intro piece listed
    obtain ⟨param, inside, rfl⟩ := List.mem_map.mp listed
    exact without_paramText control (names param inside)
  exact ((((((without_printable control rfl).append (without_name control isName)).append
    (without_printable control rfl)).append paramStr).append
      (without_printable control rfl)).append (without_name control isReturns)).append
        (without_printable control rfl)

private theorem reads_stubHeader {name returns : String} {params : List (String × String)}
    (isName : lexis.IsName name) (names : ∀ param ∈ params, PairNames lexis param)
    (isReturns : lexis.IsName returns) :
    Reads lexis [stubHeader name params returns]
      [{ indent := 0
         tokens := (Header.functionDef (lexis.normal name)
           (params.map (normalPair lexis)) (lexis.normal returns)).tokens }] := by
  have chars : (stubHeader name params returns).toList =
      "def".toList ++ (' ' :: (name.toList ++ ('(' ::
        ((", ".intercalate (params.map paramText)).toList ++ (')' ::
          (' ' :: '-' :: '>' :: ' ' :: (returns.toList ++ [':']))))))) := by
    change ("def " ++ name ++ "(" ++ ", ".intercalate (params.map paramText) ++ ") -> " ++
      returns ++ ":").toList = _
    simp only [String.toList_append, List.append_assoc]
    rfl
  have tokens : lexis.tokenize [] (stubHeader name params returns).toList =
      some (Header.functionDef (lexis.normal name) (params.map (normalPair lexis))
        (lexis.normal returns)).tokens := by
    rw [chars, Lexis.tokenize_keyword rfl (by decide)
        (Lexis.ends_cons _ (by decide) (by decide)), Lexis.tokenize_space,
      Lexis.tokenize_name isName (Lexis.ends_cons _ (by decide) (by decide)),
      Lexis.tokenize_opening, tokenize_params names, Lexis.tokenize_space,
      Lexis.tokenize_arrow, Lexis.tokenize_space,
      Lexis.tokenize_name isReturns (Lexis.ends_cons _ (by decide) (by decide)),
      Lexis.tokenize_colon, Lexis.tokenize_nil]
    rfl
  have read := Reads.of_tokens (without_stubHeader control_lineBreak isName names isReturns)
    tokens (List.cons_ne_nil _ _)
  have column : ((stubHeader name params returns).toList.takeWhile
      (· = ' ')).length = 0 := by
    rw [chars]
    rfl
  rwa [column] at read

private theorem reads_stubBody :
    Reads lexis ["    pass  # TODO: implement SigV4 + HTTP dispatch"]
      [{ indent := 4, tokens := Simple.pass.tokens }] := by
  have comment : lexis.tokenize []
      "  # TODO: implement SigV4 + HTTP dispatch".toList = some [] := by
    change lexis.tokenize [] (' ' :: ' ' :: '#' ::
      " TODO: implement SigV4 + HTTP dispatch".toList) = _
    rw [Lexis.tokenize_space, Lexis.tokenize_space, Lexis.tokenize_comment]
  exact reads_pass _ rfl (without_printable control_lineBreak rfl)
    (Lexis.ends_cons _ (by decide) (by decide)) comment

def httpComment (operation : ParsedOperation) : String :=
  s!"# HTTP {operation.httpMethod} {operation.httpUri}"

theorem without_httpComment {bad : Char → Bool} (control : Control bad)
    {operation : ParsedOperation} (method : Without bad operation.httpMethod)
    (uri : Without bad operation.httpUri) : Without bad (httpComment operation) :=
  (((without_printable control rfl).append method).append
    (without_printable control rfl)).append uri

private theorem reads_httpComment {operation : ParsedOperation}
    (method : Unbroken operation.httpMethod) (uri : Unbroken operation.httpUri) :
    Reads lexis [httpComment operation] [] := by
  have starts : (httpComment operation).toList =
      '#' :: (" HTTP " ++ operation.httpMethod ++ " " ++ operation.httpUri).toList := by
    change ("# HTTP " ++ operation.httpMethod ++ " " ++ operation.httpUri).toList = _
    simp only [String.toList_append]
    rfl
  exact Reads.of_comments
    (comment_line (without_httpComment control_lineBreak method uri) starts)

theorem stubLines_eq (shapes : List (String × ShapeDef)) (operation : ParsedOperation) :
    stubLines shapes operation =
      [httpComment operation,
        stubHeader operation.name (stubParams shapes operation)
          (returnType shapes operation.outputShape),
        "    pass  # TODO: implement SigV4 + HTTP dispatch", ""] :=
  rfl

theorem reads_stub {shapes : List (String × ShapeDef)} {operation : ParsedOperation}
    (names : StubNames lexis shapes operation) (method : Unbroken operation.httpMethod)
    (uri : Unbroken operation.httpUri) :
    Reads lexis (stubLines shapes operation)
      ((stubStatement lexis shapes operation).lines 4) := by
  rw [stubLines_eq]
  apply (reads_httpComment method uri).cons
  apply (reads_stubHeader names.name names.params names.returns).cons
  have ends := (@reads_stubBody lexis).cons reads_blank
  rwa [List.append_nil] at ends

end Pieces

end Lambpie.Scripts
