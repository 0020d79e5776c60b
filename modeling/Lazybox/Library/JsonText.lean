import Lazybox.Library.JsonString

/-!
# JSON texts

A JSON text is a sequence of tokens with whitespace before, between and after them: the six
structural characters, strings, numbers and three literals.  `Tree` is a document, with its strings
and numbers as they are spelled, and `Tree.tokens` are the tokens it is written with.  So `bytes` is
the document `t` exactly when `Spells bytes t.tokens`.
-/

namespace Json

/-! ### Numbers -/

def IsDigit (byte : UInt8) : Prop := 0x30 ≤ byte ∧ byte ≤ 0x39

instance (byte : UInt8) : Decidable (IsDigit byte) := inferInstanceAs (Decidable (_ ∧ _))

/-- A zero, or digits of which the first is not zero. -/
inductive IsInteger : List UInt8 → Prop where
  | zero : IsInteger [0x30]
  | digits {first : UInt8} {rest : List UInt8} (nonzero : 0x31 ≤ first ∧ first ≤ 0x39)
      (digits : ∀ byte ∈ rest, IsDigit byte) : IsInteger (first :: rest)

/-- Nothing, or a point and digits. -/
inductive IsFraction : List UInt8 → Prop where
  | none : IsFraction []
  | digits {first : UInt8} {rest : List UInt8} (digit : IsDigit first)
      (digits : ∀ byte ∈ rest, IsDigit byte) : IsFraction (0x2E :: first :: rest)

/-- Nothing, or an `e` and digits that may have a sign. -/
inductive IsExponent : List UInt8 → Prop where
  | none : IsExponent []
  | digits {e first : UInt8} {sign rest : List UInt8} (e_or_E : e = 0x65 ∨ e = 0x45)
      (plus_or_minus : sign = [] ∨ sign = [0x2B] ∨ sign = [0x2D]) (digit : IsDigit first)
      (digits : ∀ byte ∈ rest, IsDigit byte) : IsExponent (e :: (sign ++ first :: rest))

/-- A number: an integer that may have a minus sign, a fraction and an exponent. -/
def IsNumber (text : List UInt8) : Prop :=
  ∃ sign integer fraction exponent, (sign = [] ∨ sign = [0x2D]) ∧ IsInteger integer
    ∧ IsFraction fraction ∧ IsExponent exponent
    ∧ text = sign ++ integer ++ fraction ++ exponent

/-! ### Tokens -/

/-- What stands between the quotes of a string. -/
def StringBody : Type := { body : List UInt8 // (decode body).isSome }

/-- The text a string stands for. -/
def StringBody.text (body : StringBody) : String := (decode body.val).get body.property

theorem StringBody.decode_val (body : StringBody) : decode body.val = some body.text := by
  rw [StringBody.text, Option.some_get]

/-- A number as it is spelled. -/
def NumberText : Type := { text : List UInt8 // IsNumber text }

inductive Literal where
  | null
  | bool (value : Bool)
deriving DecidableEq, Repr

/-- `null`, `true` and `false`. -/
def Literal.spelling : Literal → List UInt8
  | null => [0x6E, 0x75, 0x6C, 0x6C]
  | bool true => [0x74, 0x72, 0x75, 0x65]
  | bool false => [0x66, 0x61, 0x6C, 0x73, 0x65]

inductive Token where
  | beginObject
  | endObject
  | beginArray
  | endArray
  | colon
  | comma
  | string (body : StringBody)
  | number (text : NumberText)
  | literal (value : Literal)

/-- A string between its quotes. -/
def quoted (body : List UInt8) : List UInt8 := 0x22 :: (body ++ [0x22])

def Token.spelling : Token → List UInt8
  | beginObject => [0x7B]
  | endObject => [0x7D]
  | beginArray => [0x5B]
  | endArray => [0x5D]
  | colon => [0x3A]
  | comma => [0x2C]
  | string body => quoted body.val
  | number text => text.val
  | literal value => value.spelling

def isWhitespace (byte : UInt8) : Bool :=
  byte = 0x20 || byte = 0x09 || byte = 0x0A || byte = 0x0D

/-- The bytes spell the tokens, with whitespace anywhere around them. -/
inductive Spells : List UInt8 → List Token → Prop where
  | done {ws : List UInt8} (space : ∀ byte ∈ ws, isWhitespace byte = true) : Spells ws []
  | token {ws bytes : List UInt8} {token : Token} {tokens : List Token}
      (space : ∀ byte ∈ ws, isWhitespace byte = true) (later : Spells bytes tokens) :
      Spells (ws ++ token.spelling ++ bytes) (token :: tokens)

namespace Spells

variable {tokens : List Token} {bytes : List UInt8}

theorem space_append
    {ws : List UInt8} (space : ∀ byte ∈ ws, isWhitespace byte = true) (h : Spells bytes tokens) :
  Spells (ws ++ bytes) tokens
  := by
  have hspace : ∀ {ws' : List UInt8}, (∀ byte ∈ ws', isWhitespace byte = true) →
      ∀ byte ∈ ws ++ ws', isWhitespace byte = true := by
    intro ws' space' byte hbyte
    obtain hbyte | hbyte := List.mem_append.mp hbyte
    · apply space byte hbyte
    · apply space' byte hbyte
  cases h with
  | done space' => exact done (hspace space')
  | token space' later =>
    rw [← List.append_assoc, ← List.append_assoc]
    exact token (hspace space') later

theorem append {bytes' : List UInt8} {tokens' : List Token} (h : Spells bytes tokens)
    (h' : Spells bytes' tokens') :
  Spells (bytes ++ bytes') (tokens ++ tokens')
  := by
  induction h with
  | done space => apply space_append space h'
  | token space _ ih =>
    rw [List.append_assoc]
    exact token space ih

theorem concat (h : Spells bytes tokens) (t : Token) :
  Spells (bytes ++ t.spelling) (tokens ++ [t])
  := by
  have hsingle : Spells ([] ++ t.spelling ++ []) [t] := token (by simp) (done (by simp))
  rw [List.nil_append, List.append_nil] at hsingle
  apply h.append hsingle

theorem concat_space (h : Spells bytes tokens) {byte : UInt8} (space : isWhitespace byte = true) :
  Spells (bytes ++ [byte]) tokens
  := by
  have hsingle : Spells [byte] [] := done (by simpa using space)
  simpa using h.append hsingle

/-- Tokens may be written with nothing between them. -/
theorem of_tokens (tokens : List Token) : Spells (tokens.flatMap Token.spelling) tokens := by
  induction tokens with
  | nil => exact done (by simp)
  | cons t tokens ih => exact token (by simp : ∀ byte ∈ [], isWhitespace byte = true) ih

end Spells

/-! ### Documents -/

inductive Tree where
  | string (body : StringBody)
  | number (text : NumberText)
  | literal (value : Literal)
  | array (items : List Tree)
  | object (members : List (StringBody × Tree))

/-- Put commas between. -/
def separated : List (List Token) → List Token
  | [] => []
  | [part] => part
  | part :: part' :: parts => part ++ .comma :: separated (part' :: parts)

namespace Tree

mutual

/-- The tokens a document is written with. -/
def tokens : Tree → List Token
  | string body => [.string body]
  | number text => [.number text]
  | literal value => [.literal value]
  | array items => .beginArray :: (separated (itemTokens items) ++ [.endArray])
  | object members => .beginObject :: (separated (memberTokens members) ++ [.endObject])

def itemTokens : List Tree → List (List Token)
  | [] => []
  | item :: items => item.tokens :: itemTokens items

def memberTokens : List (StringBody × Tree) → List (List Token)
  | [] => []
  | (key, value) :: members => (.string key :: .colon :: value.tokens) :: memberTokens members

end

mutual

/-- How deep the containers of a document are nested. -/
def depth : Tree → ℕ
  | string _ | number _ | literal _ => 0
  | array items => itemDepth items + 1
  | object members => memberDepth members + 1

def itemDepth : List Tree → ℕ
  | [] => 0
  | item :: items => max item.depth (itemDepth items)

def memberDepth : List (StringBody × Tree) → ℕ
  | [] => 0
  | (_, value) :: members => max value.depth (memberDepth members)

end

end Tree

/-- The parts that come first each have a comma after them. -/
theorem separated_concat (parts : List (List Token)) (part : List Token) :
  separated (parts ++ [part]) = parts.flatMap (· ++ [.comma]) ++ part
  := by
  induction parts with
  | nil => rfl
  | cons part' parts ih =>
    cases parts with
    | nil => simp [separated]
    | cons part'' parts =>
      rw [List.cons_append, List.cons_append, separated, ← List.cons_append, ih]
      simp

/-- The parts after the first each have a comma before them. -/
theorem separated_cons (part : List Token) (parts : List (List Token)) :
  separated (part :: parts) = part ++ parts.flatMap (.comma :: ·)
  := by
  induction parts generalizing part with
  | nil => simp [separated]
  | cons part' parts ih => rw [separated, ih, List.flatMap_cons, List.cons_append]

end Json
