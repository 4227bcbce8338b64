/-
Flat RFC 8259 object texts, token by token.

A flat object is given by its tokens: the whitespace between them, the
characters of every string and the parts of every number are fields, each with
what the grammar asks of it.  So every value of `FlatObject` is a well-formed
text, and the place of each of its tokens is known.
-/
import Mathlib.Data.Rat.Cast.Order
import Lambpie.Foundations.Rfc8259

namespace Foundations.Rfc8259

/-- `ws`. -/
structure Blank where
  chars : List Char
  allBlank : ∀ c ∈ chars, isWhitespace c

/-- `char = unescaped / escape ( ... )`. -/
inductive StringChar where
  | unescaped (c : Char) (plain : isUnescaped c)
  | short (c : Char) (legal : (shortEscape c).isSome)
  | unicode (a b c d : Char) (legal : (hexUnit a b c d).isSome)

def StringChar.chars : StringChar → List Char
  | .unescaped c _ => [c]
  | .short c _ => [escape, c]
  | .unicode a b c d _ => [escape, 'u', a, b, c, d]

def rawChars (body : List StringChar) : List Char :=
  body.flatMap StringChar.chars

def quoted (body : List StringChar) : List Char :=
  quotationMark :: (rawChars body ++ [quotationMark])

def digitChars (ds : List (Fin 10)) : List Char :=
  ds.map fun d => Char.ofNat (0x30 + d.val)

def naturalValue (ds : List (Fin 10)) : Nat :=
  Decimal.value (ds.map Fin.val)

/-- `exp = e [ minus / plus ] 1*DIGIT`. -/
structure ExponentToken where
  upper : Bool
  /-- `some true` is a minus sign. -/
  sign : Option Bool
  digits : List (Fin 10)
  nonempty : digits ≠ []

def ExponentToken.chars (token : ExponentToken) : List Char :=
  (if token.upper then 'E' else 'e') ::
    ((match token.sign with
      | none => []
      | some true => ['-']
      | some false => ['+']) ++ digitChars token.digits)

def ExponentToken.power (token : ExponentToken) : Int :=
  if token.sign = some true then -(naturalValue token.digits : Int)
  else naturalValue token.digits

/-- `number = [ minus ] int [ frac ] [ exp ]`; no digits stand for no
fraction. -/
structure NumberToken where
  negative : Bool
  whole : List (Fin 10)
  fraction : List (Fin 10)
  exponent : Option ExponentToken
  wholeNonempty : whole ≠ []
  noLeadingZero : whole = [0] ∨ whole.head? ≠ some 0

namespace NumberToken

def fractionChars (token : NumberToken) : List Char :=
  if token.fraction = [] then [] else '.' :: digitChars token.fraction

def exponentChars (token : NumberToken) : List Char :=
  match token.exponent with
  | none => []
  | some exponent => exponent.chars

def chars (token : NumberToken) : List Char :=
  (if token.negative then ['-'] else []) ++ digitChars token.whole ++
    (token.fractionChars ++ token.exponentChars)

def power (token : NumberToken) : Int :=
  match token.exponent with
  | none => 0
  | some exponent => exponent.power

def value (token : NumberToken) : ℚ :=
  (if token.negative then -1 else 1) *
    naturalValue (token.whole ++ token.fraction) *
      (10 : ℚ) ^ (token.power - token.fraction.length)

def wholePart (token : NumberToken) : Int :=
  if token.negative then -(naturalValue token.whole : Int)
  else naturalValue token.whole

end NumberToken

inductive FlatValue where
  | null
  | bool (value : Bool)
  | number (token : NumberToken)
  | string (body : List StringChar)

def FlatValue.chars : FlatValue → List Char
  | .null => ['n', 'u', 'l', 'l']
  | .bool true => ['t', 'r', 'u', 'e']
  | .bool false => ['f', 'a', 'l', 's', 'e']
  | .number token => token.chars
  | .string body => quoted body

/-- `member = string name-separator value`, with the whitespace around each of
them. -/
structure FlatMember where
  beforeName : Blank
  name : List StringChar
  afterName : Blank
  beforeValue : Blank
  value : FlatValue
  afterValue : Blank

def FlatMember.separator (member : FlatMember) : List Char :=
  member.afterName.chars ++ ':' :: member.beforeValue.chars

def FlatMember.chars (member : FlatMember) : List Char :=
  member.beforeName.chars ++ (quoted member.name ++ (member.separator ++
    (member.value.chars ++ member.afterValue.chars)))

def joinMembers : List FlatMember → List Char
  | [] => []
  | [member] => member.chars
  | member :: rest => member.chars ++ ',' :: joinMembers rest

structure FlatObject where
  leading : Blank
  /-- What stands between the braces of an object without members. -/
  inside : Blank
  members : List FlatMember
  trailing : Blank

def FlatObject.chars (object : FlatObject) : List Char :=
  object.leading.chars ++ '\x7b' ::
    ((if object.members = [] then object.inside.chars
      else joinMembers object.members) ++ '\x7d' :: object.trailing.chars)

def FlatObject.front (object : FlatObject) (before : List FlatMember)
    (member : FlatMember) : List Char :=
  object.leading.chars ++ '\x7b' ::
    (before.flatMap (fun other => other.chars ++ [',']) ++
      member.beforeName.chars)

def FlatObject.tail (object : FlatObject) (member : FlatMember)
    (after : List FlatMember) : List Char :=
  member.afterValue.chars ++
    (after.flatMap (fun other => ',' :: other.chars) ++
      '\x7d' :: object.trailing.chars)

private theorem joinMembers_cons (member : FlatMember) (after : List FlatMember) :
    joinMembers (member :: after) =
      member.chars ++ after.flatMap (fun other => ',' :: other.chars) := by
  induction after generalizing member with
  | nil =>
      rw [List.flatMap_nil, List.append_nil]
      rfl
  | cons next after ih =>
      rw [List.flatMap_cons, List.cons_append, ← ih next]
      rfl

private theorem joinMembers_split (before : List FlatMember) (member : FlatMember)
    (after : List FlatMember) :
    joinMembers (before ++ member :: after) =
      before.flatMap (fun other => other.chars ++ [',']) ++
        (member.chars ++ after.flatMap (fun other => ',' :: other.chars)) := by
  induction before with
  | nil => exact joinMembers_cons member after
  | cons first before ih =>
      have longer : joinMembers (first :: (before ++ member :: after)) =
          first.chars ++ ',' :: joinMembers (before ++ member :: after) := by
        cases before <;> rfl
      rw [List.cons_append, longer, ih, List.flatMap_cons]
      simp only [List.append_assoc, List.cons_append, List.nil_append]

/-- An object text is cut at the name, the separator and the value of any one
of its members. -/
theorem FlatObject.chars_split {object : FlatObject}
    {before after : List FlatMember} {member : FlatMember}
    (members : object.members = before ++ member :: after) :
    object.chars = object.front before member ++ (quoted member.name ++
      (member.separator ++ (member.value.chars ++
        object.tail member after))) := by
  have nonempty : object.members ≠ [] := by
    rw [members]
    simp
  unfold FlatObject.chars FlatObject.front FlatObject.tail
  rw [if_neg nonempty, members, joinMembers_split, FlatMember.chars]
  simp only [List.append_assoc, List.cons_append]

theorem FlatObject.tail_head (object : FlatObject) (member : FlatMember)
    (after : List FlatMember) :
    ∃ c rest, object.tail member after = c :: rest ∧
      (isWhitespace c ∨ c = ',' ∨ c = '\x7d') := by
  unfold FlatObject.tail
  cases blank : member.afterValue.chars with
  | cons c rest =>
      refine ⟨c, _, rfl, Or.inl (member.afterValue.allBlank c ?_)⟩
      rw [blank]
      exact List.mem_cons_self
  | nil =>
      cases after with
      | nil => exact ⟨_, _, rfl, Or.inr (Or.inr rfl)⟩
      | cons next after => exact ⟨_, _, rfl, Or.inr (Or.inl rfl)⟩

end Foundations.Rfc8259
