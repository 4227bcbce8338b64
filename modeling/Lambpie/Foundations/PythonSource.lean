/-
Python source of classes, functions, annotated names and `pass`.

This is the part of the Python 3 grammar without expressions other than names:
the text is cut into lines, a line into tokens, and lines with an indentation
form the block of the line in front of them.  Which characters names are made
of, and which names are the same, is what the Unicode tables say; here it is a
parameter with its values on ASCII.
-/
import Mathlib.Data.List.Basic
import Mathlib.Data.List.Nodup

namespace Foundations.Python

/-- The identifier characters of Python and the NFKC form of names. -/
structure Lexis where
  start : Char → Bool
  continues : Char → Bool
  normal : String → String
  start_ascii : ∀ c : Char, c.toNat < 128 → start c = (c.isAlpha || c = '_')
  continues_ascii : ∀ c : Char, c.toNat < 128 →
    continues c = (c.isAlphanum || c = '_')
  continues_of_start : ∀ c : Char, start c → continues c
  normal_ascii : ∀ name : String, (∀ c ∈ name.toList, c.toNat < 128) →
    normal name = name

def keywords : List String :=
  ["False", "None", "True", "and", "as", "assert", "async", "await", "break",
    "class", "continue", "def", "del", "elif", "else", "except", "finally", "for",
    "from", "global", "if", "import", "in", "is", "lambda", "nonlocal", "not",
    "or", "pass", "raise", "return", "try", "while", "with", "yield"]

def isLineBreak (c : Char) : Bool := c = '\n' || c = '\r'

def Lexis.isWord (lexis : Lexis) : List Char → Bool
  | [] => false
  | c :: rest => lexis.start c && rest.all lexis.continues

structure Lexis.IsName (lexis : Lexis) (name : String) : Prop where
  word : lexis.isWord name.toList
  free : name ∉ keywords

instance (lexis : Lexis) (name : String) : Decidable (lexis.IsName name) :=
  decidable_of_iff (lexis.isWord name.toList ∧ name ∉ keywords)
    ⟨fun both => ⟨both.1, both.2⟩, fun isName => ⟨isName.word, isName.free⟩⟩

inductive Token where
  | keyword (word : String)
  | name (name : String)
  | colon
  | comma
  | opening
  | closing
  | arrow
deriving DecidableEq, Repr

section Tokens

variable (lexis : Lexis)

def Lexis.token (word : List Char) : Token :=
  let text := String.ofList word
  if text ∈ keywords then .keyword text else .name (lexis.normal text)

/-- The token of the word read so far, if there is one. -/
def Lexis.flush (word : List Char) (tokens : List Token) : List Token :=
  if word = [] then tokens else lexis.token word :: tokens

/-- The tokens of a line, up to its comment. -/
def Lexis.tokenize : List Char → List Char → Option (List Token)
  | word, [] => some (lexis.flush word [])
  | word, c :: rest =>
      if word ≠ [] ∧ lexis.continues c then tokenize (word ++ [c]) rest
      else if lexis.start c then tokenize [c] rest
      else
        lexis.flush word <$>
          match c, rest with
          | '#', _ => some []
          | ' ', rest => tokenize [] rest
          | ':', rest => (Token.colon :: ·) <$> tokenize [] rest
          | ',', rest => (Token.comma :: ·) <$> tokenize [] rest
          | '(', rest => (Token.opening :: ·) <$> tokenize [] rest
          | ')', rest => (Token.closing :: ·) <$> tokenize [] rest
          | '-', '>' :: rest => (Token.arrow :: ·) <$> tokenize [] rest
          | _, _ => none

structure Line where
  indent : Nat
  tokens : List Token
deriving DecidableEq, Repr

/-- A line without tokens is blank and has no part in the grammar. -/
def Lexis.line (chars : List Char) : Option (List Line) :=
  (fun tokens =>
    if tokens = [] then []
    else [{ indent := (chars.takeWhile (· = ' ')).length, tokens }]) <$>
    lexis.tokenize [] chars

def Lexis.lines : List (List Char) → Option (List Line)
  | [] => some []
  | chars :: rest => do
      let here ← lexis.line chars
      let others ← lines rest
      pure (here ++ others)

end Tokens

inductive Simple where
  | pass
  | annotated (target annotation : String)
deriving DecidableEq, Repr

structure Block where
  statements : List Simple
  nonempty : statements ≠ []
deriving DecidableEq, Repr

inductive Statement where
  | simple (statement : Simple)
  | classDef (name : String) (body : Block)
  | functionDef (name : String) (params : List (String × String))
      (returns : String) (body : Block)
deriving DecidableEq, Repr

inductive Header where
  | classDef (name : String)
  | functionDef (name : String) (params : List (String × String)) (returns : String)
deriving DecidableEq, Repr

def Header.withBody (body : Block) : Header → Statement
  | .classDef name => .classDef name body
  | .functionDef name params returns => .functionDef name params returns body

/-- The parameters behind the opening parenthesis, and what follows them. -/
def parameters : List Token → Option (List (String × String) × List Token)
  | .closing :: rest => some ([], rest)
  | .name param :: .colon :: .name annotation :: .comma :: rest =>
      (fun found => ((param, annotation) :: found.1, found.2)) <$> parameters rest
  | .name param :: .colon :: .name annotation :: .closing :: rest =>
      some ([(param, annotation)], rest)
  | _ => none

def header : List Token → Option Header
  | [.keyword "class", .name name, .colon] => some (.classDef name)
  | .keyword "def" :: .name name :: .opening :: rest =>
      match parameters rest with
      | some (params, [.arrow, .name returns, .colon]) =>
          some (.functionDef name params returns)
      | _ => none
  | _ => none

def simple : List Token → Option Simple
  | [.keyword "pass"] => some .pass
  | [.name target, .colon, .name annotation] => some (.annotated target annotation)
  | _ => none

def block : List (Nat × Simple) → Option Block
  | [] => none
  | (indent, statement) :: rest =>
      if rest.all (·.1 = indent) then
        some { statements := statement :: rest.map Prod.snd
               nonempty := List.cons_ne_nil _ _ }
      else none

/-- What is read from some line on: the indented statements that the line in
front has to open a block for, then the statements behind them. -/
structure Reading where
  indented : List (Nat × Simple)
  statements : List Statement
deriving DecidableEq, Repr

def Reading.addLine (line : Line) (after : Reading) : Option Reading :=
  if line.indent ≠ 0 then do
    let statement ← simple line.tokens
    pure { after with indented := (line.indent, statement) :: after.indented }
  else
    match header line.tokens with
    | some opened => do
        let body ← block after.indented
        pure { indented := [], statements := opened.withBody body :: after.statements }
    | none =>
        if after.indented ≠ [] then none
        else do
          let statement ← simple line.tokens
          pure { indented := [], statements := .simple statement :: after.statements }

def readLines : List Line → Option Reading
  | [] => some { indented := [], statements := [] }
  | line :: rest => do
      let after ← readLines rest
      after.addLine line

/-- The statements of a source text, which holds no NUL. -/
def Lexis.parse (lexis : Lexis) (text : String) : Option (List Statement) :=
  if '\x00' ∈ text.toList then none
  else do
    let lines ← lexis.lines (text.toList.splitOnP isLineBreak)
    let reading ← readLines lines
    if reading.indented = [] then some reading.statements else none

def Simple.boundNames : Simple → List String
  | .pass => []
  | .annotated target _ => [target]

def Statement.boundNames : Statement → List String
  | .simple statement => statement.boundNames
  | .classDef name body => name :: body.statements.flatMap Simple.boundNames
  | .functionDef name params _ body =>
      name :: (params.map Prod.fst ++ body.statements.flatMap Simple.boundNames)

def Statement.paramNames : Statement → List String
  | .simple _ => []
  | .classDef _ _ => []
  | .functionDef _ params _ _ => params.map Prod.fst

/-- What the compiler checks of a statement that the grammar derives: no
parameter has the name of another, and nothing is assigned to `__debug__`. -/
structure Statement.Checked (statement : Statement) : Prop where
  distinct : statement.paramNames.Nodup
  assignable : "__debug__" ∉ statement.boundNames

/-- The text is derived by the grammar, in which every block has a statement,
and its statements pass the checks. -/
def Lexis.Accepts (lexis : Lexis) (text : String) : Prop :=
  ∃ statements, lexis.parse text = some statements ∧
    ∀ statement ∈ statements, statement.Checked

/-! ### Tokens of a text made of names and signs -/

section Reading

variable {lexis : Lexis}

private theorem Lexis.start_sign {c : Char} (small : c.toNat < 128)
    (sign : (c.isAlphanum || c = '_') = false) : lexis.start c = false := by
  by_contra starts
  rw [Bool.not_eq_false] at starts
  have continued := lexis.continues_of_start c starts
  rw [lexis.continues_ascii c small, sign] at continued
  cases continued

private theorem Lexis.continues_sign {c : Char} (small : c.toNat < 128)
    (sign : (c.isAlphanum || c = '_') = false) : lexis.continues c = false := by
  rw [lexis.continues_ascii c small, sign]

/-- The first character does not continue a name. -/
def Lexis.Ends (lexis : Lexis) (rest : List Char) : Prop :=
  ∀ c tail, rest = c :: tail → lexis.continues c = false

theorem Lexis.ends_cons {c : Char} (tail : List Char) (small : c.toNat < 128)
    (sign : (c.isAlphanum || c = '_') = false) : lexis.Ends (c :: tail) := by
  intro c' tail' same
  cases same
  exact Lexis.continues_sign small sign

theorem Lexis.ends_nil : lexis.Ends [] := by
  intro c tail same
  cases same

private theorem Lexis.tokenize_extend {word : List Char} {c : Char} (rest : List Char)
    (nonempty : word ≠ []) (continued : lexis.continues c) :
    lexis.tokenize word (c :: rest) = lexis.tokenize (word ++ [c]) rest := by
  conv_lhs => unfold Lexis.tokenize
  rw [if_pos ⟨nonempty, continued⟩]

private theorem Lexis.tokenize_start {c : Char} (rest : List Char) (starts : lexis.start c) :
    lexis.tokenize [] (c :: rest) = lexis.tokenize [c] rest := by
  conv_lhs => unfold Lexis.tokenize
  rw [if_neg (by simp), if_pos starts]

private theorem Lexis.tokenize_flush {word rest : List Char} (nonempty : word ≠ [])
    (ends : lexis.Ends rest) :
    lexis.tokenize word rest = (lexis.token word :: ·) <$> lexis.tokenize [] rest := by
  cases rest with
  | nil => simp [Lexis.tokenize, Lexis.flush, nonempty]
  | cons c rest =>
      have stops := ends c rest rfl
      have notStart : lexis.start c = false := by
        by_contra starts
        rw [Bool.not_eq_false] at starts
        rw [lexis.continues_of_start c starts] at stops
        cases stops
      have flushed : lexis.flush word = (lexis.token word :: ·) := by
        funext tokens
        rw [Lexis.flush, if_neg nonempty]
      have kept : lexis.flush [] = id := rfl
      have notContinued : ¬(word ≠ [] ∧ lexis.continues c) := by simp [stops]
      have notStarted : ¬lexis.start c := by simp [notStart]
      unfold Lexis.tokenize
      rw [if_neg notContinued, if_neg notStarted, if_neg (by simp),
        if_neg notStarted, flushed, kept, id_map]

private theorem Lexis.tokenize_continues {word chars rest : List Char} (nonempty : word ≠ [])
    (continued : chars.all lexis.continues) :
    lexis.tokenize word (chars ++ rest) = lexis.tokenize (word ++ chars) rest := by
  induction chars generalizing word with
  | nil => rw [List.nil_append, List.append_nil]
  | cons c chars ih =>
      rw [List.all_cons, Bool.and_eq_true] at continued
      have grown : word ++ [c] ≠ [] := List.append_ne_nil_of_left_ne_nil nonempty _
      rw [List.cons_append, Lexis.tokenize_extend _ nonempty continued.1,
        ih grown continued.2, List.append_assoc]
      rfl

private theorem Lexis.tokenize_word {word rest : List Char} (isWord : lexis.isWord word)
    (ends : lexis.Ends rest) :
    lexis.tokenize [] (word ++ rest) =
      (lexis.token word :: ·) <$> lexis.tokenize [] rest := by
  cases word with
  | nil => cases isWord
  | cons c chars =>
      rw [Lexis.isWord, Bool.and_eq_true] at isWord
      rw [List.cons_append, Lexis.tokenize_start _ isWord.1,
        Lexis.tokenize_continues (List.cons_ne_nil _ _) isWord.2,
        List.singleton_append, Lexis.tokenize_flush (List.cons_ne_nil _ _) ends]

theorem Lexis.tokenize_name {name : String} {rest : List Char}
    (isName : lexis.IsName name) (ends : lexis.Ends rest) :
    lexis.tokenize [] (name.toList ++ rest) =
      (Token.name (lexis.normal name) :: ·) <$> lexis.tokenize [] rest := by
  rw [Lexis.tokenize_word isName.word ends, Lexis.token, String.ofList_toList,
    if_neg isName.free]

theorem Lexis.tokenize_nil : lexis.tokenize [] [] = some [] := rfl

private theorem Lexis.tokenize_sign {c : Char} (rest : List Char) :
    c.toNat < 128 → (c.isAlphanum || c = '_') = false →
    lexis.tokenize [] (c :: rest) =
      match c, rest with
      | '#', _ => some []
      | ' ', rest => lexis.tokenize [] rest
      | ':', rest => (Token.colon :: ·) <$> lexis.tokenize [] rest
      | ',', rest => (Token.comma :: ·) <$> lexis.tokenize [] rest
      | '(', rest => (Token.opening :: ·) <$> lexis.tokenize [] rest
      | ')', rest => (Token.closing :: ·) <$> lexis.tokenize [] rest
      | '-', '>' :: rest => (Token.arrow :: ·) <$> lexis.tokenize [] rest
      | _, _ => none := by
  intro small sign
  have notStarted : ¬lexis.start c := by
    rw [Lexis.start_sign small sign]
    exact Bool.false_ne_true
  have kept : lexis.flush [] = id := rfl
  conv_lhs => unfold Lexis.tokenize
  rw [if_neg (by simp), if_neg notStarted, kept, id_map]

theorem Lexis.tokenize_space (rest : List Char) :
    lexis.tokenize [] (' ' :: rest) = lexis.tokenize [] rest :=
  Lexis.tokenize_sign rest (by decide) (by decide)

theorem Lexis.tokenize_comment (rest : List Char) :
    lexis.tokenize [] ('#' :: rest) = some [] :=
  Lexis.tokenize_sign rest (by decide) (by decide)

theorem Lexis.tokenize_colon (rest : List Char) :
    lexis.tokenize [] (':' :: rest) =
      (Token.colon :: ·) <$> lexis.tokenize [] rest :=
  Lexis.tokenize_sign rest (by decide) (by decide)

theorem Lexis.tokenize_comma (rest : List Char) :
    lexis.tokenize [] (',' :: rest) =
      (Token.comma :: ·) <$> lexis.tokenize [] rest :=
  Lexis.tokenize_sign rest (by decide) (by decide)

theorem Lexis.tokenize_opening (rest : List Char) :
    lexis.tokenize [] ('(' :: rest) =
      (Token.opening :: ·) <$> lexis.tokenize [] rest :=
  Lexis.tokenize_sign rest (by decide) (by decide)

theorem Lexis.tokenize_closing (rest : List Char) :
    lexis.tokenize [] (')' :: rest) =
      (Token.closing :: ·) <$> lexis.tokenize [] rest :=
  Lexis.tokenize_sign rest (by decide) (by decide)

theorem Lexis.tokenize_arrow (rest : List Char) :
    lexis.tokenize [] ('-' :: '>' :: rest) =
      (Token.arrow :: ·) <$> lexis.tokenize [] rest :=
  Lexis.tokenize_sign _ (by decide) (by decide)

def asciiWord : List Char → Bool
  | [] => false
  | c :: rest =>
      (c.toNat < 128 && (c.isAlpha || c = '_')) &&
        rest.all fun c => c.toNat < 128 && (c.isAlphanum || c = '_')

private theorem Lexis.isWord_of_ascii {word : List Char} (ascii : asciiWord word) :
    lexis.isWord word := by
  cases word with
  | nil => cases ascii
  | cons c rest =>
      rw [asciiWord, Bool.and_eq_true, Bool.and_eq_true, decide_eq_true_iff,
        List.all_eq_true] at ascii
      obtain ⟨⟨small, first⟩, others⟩ := ascii
      rw [Lexis.isWord, Bool.and_eq_true, lexis.start_ascii c small, List.all_eq_true]
      refine ⟨first, ?_⟩
      intro other inside
      have both := others other inside
      rw [Bool.and_eq_true, decide_eq_true_iff] at both
      rw [lexis.continues_ascii other both.1]
      exact both.2

theorem Lexis.isName_of_ascii {name : String} (ascii : asciiWord name.toList)
    (free : name ∉ keywords) : lexis.IsName name :=
  ⟨Lexis.isWord_of_ascii ascii, free⟩

theorem Lexis.normal_of_ascii {name : String} (ascii : asciiWord name.toList) :
    lexis.normal name = name := by
  apply lexis.normal_ascii
  generalize name.toList = word at ascii
  cases word with
  | nil => cases ascii
  | cons c rest =>
      rw [asciiWord, Bool.and_eq_true, Bool.and_eq_true, decide_eq_true_iff,
        List.all_eq_true] at ascii
      intro other inside
      rcases List.mem_cons.mp inside with rfl | later
      · exact ascii.1.1
      · have both := ascii.2 other later
        rw [Bool.and_eq_true, decide_eq_true_iff] at both
        exact both.1

theorem control_sign {c : Char} (control : c.toNat < 32) :
    (c.isAlphanum || c = '_') = false := by
  have table : ∀ n < 32, ((Char.ofNat n).isAlphanum || Char.ofNat n = '_') = false := by
    decide
  have sign := table c.toNat control
  rwa [Char.ofNat_toNat] at sign

theorem Lexis.tokenize_keyword {word : String} {rest : List Char}
    (ascii : asciiWord word.toList) (isKeyword : word ∈ keywords)
    (ends : lexis.Ends rest) :
    lexis.tokenize [] (word.toList ++ rest) =
      (Token.keyword word :: ·) <$> lexis.tokenize [] rest := by
  rw [Lexis.tokenize_word (Lexis.isWord_of_ascii ascii) ends, Lexis.token,
    String.ofList_toList, if_pos isKeyword]

theorem Lexis.IsName.not_mem {name : String} (isName : lexis.IsName name) {c : Char}
    (small : c.toNat < 128) (sign : (c.isAlphanum || c = '_') = false) :
    c ∉ name.toList := by
  have word := isName.word
  intro inside
  generalize name.toList = chars at word inside
  cases chars with
  | nil => cases inside
  | cons first rest =>
      rw [Lexis.isWord, Bool.and_eq_true, List.all_eq_true] at word
      have continued : lexis.continues c := by
        rcases List.mem_cons.mp inside with rfl | later
        · exact lexis.continues_of_start _ word.1
        · exact word.2 c later
      rw [Lexis.continues_sign small sign] at continued
      cases continued

/-- The Unicode tables without their part above ASCII. -/
def Lexis.ascii : Lexis where
  start c := c.isAlpha || c = '_'
  continues c := c.isAlphanum || c = '_'
  normal := id
  start_ascii _ _ := rfl
  continues_ascii _ _ := rfl
  continues_of_start := by
    intro c starts
    have alphanum : c.isAlphanum = (c.isAlpha || c.isDigit) := rfl
    rw [alphanum, Bool.or_eq_true, Bool.or_eq_true]
    rw [Bool.or_eq_true] at starts
    rcases starts with letter | underscore
    · exact .inl (.inl letter)
    · exact .inr underscore
  normal_ascii _ _ := rfl

/-! ### Lines of a text -/

def IsComment (chars : List Char) : Prop :=
  chars = [] ∨ ∃ rest, chars = '#' :: rest

private theorem IsComment.beginning {chars part : List Char} (isComment : IsComment chars)
    (before : part <+: chars) : IsComment part := by
  rcases isComment with rfl | ⟨rest, rfl⟩
  · exact .inl (List.prefix_nil.mp before)
  · cases part with
    | nil => exact .inl rfl
    | cons c tail =>
        obtain ⟨same, -⟩ := List.cons_prefix_cons.mp before
        exact .inr ⟨tail, by rw [same]⟩

private theorem Lexis.line_comment {chars : List Char} (isComment : IsComment chars) :
    lexis.line chars = some [] := by
  rcases isComment with rfl | ⟨rest, rfl⟩
  · rfl
  · rw [Lexis.line, Lexis.tokenize_comment]
    rfl

theorem Lexis.line_of_tokens {chars : List Char} {tokens : List Token}
    (found : lexis.tokenize [] chars = some tokens) (nonempty : tokens ≠ []) :
    lexis.line chars =
      some [{ indent := (chars.takeWhile (· = ' ')).length, tokens }] := by
  rw [Lexis.line, found]
  simp [nonempty]

theorem Lexis.lines_append {front back : List (List Char)} {first second : List Line}
    (frontLines : lexis.lines front = some first)
    (backLines : lexis.lines back = some second) :
    lexis.lines (front ++ back) = some (first ++ second) := by
  induction front generalizing first with
  | nil =>
      cases frontLines
      exact backLines
  | cons chars rest ih =>
      rw [Lexis.lines, Option.bind_eq_bind, Option.bind_eq_some_iff] at frontLines
      obtain ⟨here, isHere, frontLines⟩ := frontLines
      rw [Option.bind_eq_some_iff] at frontLines
      obtain ⟨others, isOthers, same⟩ := frontLines
      cases same
      rw [List.cons_append, Lexis.lines, isHere, ih isOthers, List.append_assoc]
      rfl

theorem Lexis.lines_singleton {chars : List Char} {found : List Line}
    (here : lexis.line chars = some found) : lexis.lines [chars] = some found := by
  rw [Lexis.lines, here, Lexis.lines]
  simp

theorem Lexis.lines_comments {lines : List (List Char)}
    (comments : ∀ chars ∈ lines, IsComment chars) : lexis.lines lines = some [] := by
  induction lines with
  | nil => rfl
  | cons chars rest ih =>
      have here : lexis.lines [chars] = some [] :=
        Lexis.lines_singleton (Lexis.line_comment (comments chars List.mem_cons_self))
      exact Lexis.lines_append here
        (ih fun other inside => comments other (List.mem_cons_of_mem _ inside))

def physicalLines (text : String) : List (List Char) :=
  text.toList.splitOnP isLineBreak

theorem physicalLines_single {text : String}
    (unbroken : ∀ c ∈ text.toList, isLineBreak c = false) :
    physicalLines text = [text.toList] :=
  List.splitOnP_eq_singleton unbroken

/-- Pieces with line breaks between them have the lines of the pieces. -/
theorem physicalLines_intercalate {pieces : List String} (nonempty : pieces ≠ []) :
    physicalLines ("\n".intercalate pieces) = pieces.flatMap physicalLines := by
  induction pieces with
  | nil => exact absurd rfl nonempty
  | cons piece rest ih =>
      cases rest with
      | nil =>
          rw [String.intercalate_singleton, List.flatMap_cons, List.flatMap_nil,
            List.append_nil]
      | cons next rest =>
          have tail := ih (List.cons_ne_nil _ _)
          have breaks : isLineBreak '\n' = true := rfl
          have text : ("\n".intercalate (piece :: next :: rest)).toList =
              piece.toList ++ '\n' :: ("\n".intercalate (next :: rest)).toList := by
            rw [String.intercalate_cons_cons, String.toList_append,
              String.toList_append, List.append_assoc]
            rfl
          rw [List.flatMap_cons, ← tail]
          unfold physicalLines
          rw [text, List.splitOnP_append_cons _ _ breaks]

/-- The first line of the beginning of a text begins the first line of the text,
and every other one a later line. -/
theorem split_beginning {part text : List Char} (before : part <+: text) :
    ∃ first later line lines, part.splitOnP isLineBreak = first :: later ∧
      text.splitOnP isLineBreak = line :: lines ∧ first <+: line ∧
      ∀ chars ∈ later, ∃ other ∈ lines, chars <+: other := by
  induction part generalizing text with
  | nil =>
      obtain ⟨line, lines, split⟩ :=
        List.exists_cons_of_ne_nil (List.splitOnP_ne_nil isLineBreak text)
      exact ⟨[], [], line, lines, List.splitOnP_nil, split, List.nil_prefix,
        fun _ impossible => absurd impossible List.not_mem_nil⟩
  | cons c part ih =>
      obtain ⟨behind, rfl⟩ := before
      obtain ⟨first, later, line, lines, splitPart, splitText, begins, others⟩ :=
        ih (List.prefix_append part behind)
      rw [List.cons_append, List.splitOnP_cons_eq_if_modifyHead,
        List.splitOnP_cons_eq_if_modifyHead, splitPart, splitText]
      by_cases breaks : isLineBreak c
      · rw [if_pos breaks, if_pos breaks]
        refine ⟨[], _, [], _, rfl, rfl, List.nil_prefix, ?_⟩
        intro chars inside
        rcases List.mem_cons.mp inside with rfl | inLater
        · exact ⟨line, List.mem_cons_self, begins⟩
        · obtain ⟨other, found, extends_⟩ := others chars inLater
          exact ⟨other, List.mem_cons_of_mem _ found, extends_⟩
      · rw [if_neg breaks, if_neg breaks]
        exact ⟨_, _, _, _, rfl, rfl, List.cons_prefix_cons.mpr ⟨rfl, begins⟩, others⟩

theorem comments_beginning {part text : List Char} (before : part <+: text)
    (comments : ∀ chars ∈ text.splitOnP isLineBreak, IsComment chars) :
    ∀ chars ∈ part.splitOnP isLineBreak, IsComment chars := by
  obtain ⟨first, later, line, lines, splitPart, splitText, begins, others⟩ :=
    split_beginning before
  rw [splitText] at comments
  rw [splitPart]
  intro chars inside
  rcases List.mem_cons.mp inside with rfl | inLater
  · exact (comments line List.mem_cons_self).beginning begins
  · obtain ⟨other, found, extends_⟩ := others chars inLater
    exact (comments other (List.mem_cons_of_mem _ found)).beginning extends_

/-! ### Statements from their lines -/

def Simple.tokens : Simple → List Token
  | .pass => [.keyword "pass"]
  | .annotated target annotation => [.name target, .colon, .name annotation]

def parametersTokens : List (String × String) → List Token
  | [] => [.closing]
  | [(param, annotation)] => [.name param, .colon, .name annotation, .closing]
  | (param, annotation) :: next :: rest =>
      .name param :: .colon :: .name annotation :: .comma ::
        parametersTokens (next :: rest)

def Header.tokens : Header → List Token
  | .classDef name => [.keyword "class", .name name, .colon]
  | .functionDef name params returns =>
      .keyword "def" :: .name name :: .opening ::
        (parametersTokens params ++ [.arrow, .name returns, .colon])

def blockLines (indent : Nat) (body : List Simple) : List Line :=
  body.map fun statement => { indent, tokens := statement.tokens }

def Statement.lines (indent : Nat) : Statement → List Line
  | .simple statement => [{ indent := 0, tokens := statement.tokens }]
  | .classDef name body =>
      { indent := 0, tokens := (Header.classDef name).tokens } ::
        blockLines indent body.statements
  | .functionDef name params returns body =>
      { indent := 0, tokens := (Header.functionDef name params returns).tokens } ::
        blockLines indent body.statements

private theorem simple_tokens (statement : Simple) : simple statement.tokens = some statement := by
  cases statement with
  | pass => rfl
  | annotated target annotation => rfl

private theorem parameters_tokens (params : List (String × String)) (rest : List Token) :
    parameters (parametersTokens params ++ rest) = some (params, rest) := by
  induction params with
  | nil => rfl
  | cons param others ih =>
      obtain ⟨param, annotation⟩ := param
      cases others with
      | nil => rfl
      | cons next others =>
          rw [parametersTokens, List.cons_append, List.cons_append, List.cons_append,
            List.cons_append, parameters, ih]
          rfl

private theorem header_tokens (opened : Header) : header opened.tokens = some opened := by
  cases opened with
  | classDef name => rfl
  | functionDef name params returns =>
      rw [Header.tokens, header, parameters_tokens]

private theorem header_simple (statement : Simple) : header statement.tokens = none := by
  cases statement with
  | pass => rfl
  | annotated target annotation => rfl

private theorem block_map (indent : Nat) (body : Block) :
    block (body.statements.map fun statement => (indent, statement)) = some body := by
  obtain ⟨statements, nonempty⟩ := body
  cases statements with
  | nil => exact absurd rfl nonempty
  | cons statement rest =>
      have aligned : (rest.map fun other => (indent, other)).all
          (·.1 = indent) = true := by simp
      have same : (rest.map fun other => (indent, other)).map Prod.snd = rest := by
        rw [List.map_map]
        exact List.map_id _
      rw [List.map_cons, block, if_pos aligned]
      simp only [same]

private theorem readLines_block {indent : Nat} (indented : indent ≠ 0) {rest : List Line}
    {statements : List Statement}
    (read : readLines rest = some { indented := [], statements })
    (body : List Simple) :
    readLines (blockLines indent body ++ rest) =
      some { indented := body.map fun statement => (indent, statement)
             statements } := by
  induction body with
  | nil => exact read
  | cons statement body ih =>
      rw [blockLines, List.map_cons, List.cons_append, readLines]
      change (readLines (blockLines indent body ++ rest) >>= _) = _
      rw [ih]
      change Reading.addLine _ _ = _
      rw [Reading.addLine, if_pos indented, simple_tokens]
      rfl

/-- What opens a block takes the indented statements behind it. -/
theorem addLine_header (opened : Header) (indent : Nat) (body : Block)
    (statements : List Statement) :
    Reading.addLine { indent := 0, tokens := opened.tokens }
        { indented := body.statements.map fun statement => (indent, statement)
          statements } =
      some { indented := [], statements := opened.withBody body :: statements } := by
  rw [Reading.addLine, if_neg (fun differs => differs rfl), header_tokens]
  simp only [block_map]
  rfl

private theorem readLines_lines {indent : Nat} (indented : indent ≠ 0)
    (statements : List Statement) :
    readLines (statements.flatMap (Statement.lines indent)) =
      some { indented := [], statements } := by
  induction statements with
  | nil => rfl
  | cons statement rest ih =>
      rw [List.flatMap_cons]
      cases statement with
      | simple statement =>
          rw [Statement.lines, List.singleton_append, readLines, ih,
            Option.bind_eq_bind, Option.bind_some, Reading.addLine, if_neg (fun differs => differs rfl), header_simple]
          simp only [simple_tokens]
          rfl
      | classDef name body =>
          rw [Statement.lines, List.cons_append, readLines,
            readLines_block indented ih, Option.bind_eq_bind, Option.bind_some]
          exact addLine_header _ indent body rest
      | functionDef name params returns body =>
          rw [Statement.lines, List.cons_append, readLines,
            readLines_block indented ih, Option.bind_eq_bind, Option.bind_some]
          exact addLine_header _ indent body rest

theorem Lexis.parse_of_lines {text : String} {indent : Nat} (indented : indent ≠ 0)
    {statements : List Statement} (noNul : '\x00' ∉ text.toList)
    (lines : lexis.lines (physicalLines text) =
      some (statements.flatMap (Statement.lines indent))) :
    lexis.parse text = some statements := by
  unfold physicalLines at lines
  rw [Lexis.parse, if_neg noNul, lines]
  change (readLines (statements.flatMap (Statement.lines indent)) >>= _) = _
  rw [readLines_lines indented]
  rfl

end Reading

end Foundations.Python
