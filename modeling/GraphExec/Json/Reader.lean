import GraphExec.Json.Basic

/-!
# Reading JSON

A text is read in two passes. `tokens?` splits it into tokens, one character at a time.
`ofTokens?` feeds the tokens to a machine whose state is the stack of open arrays and objects, so
that nesting costs no recursion.
-/

namespace GraphExec.Json

/-- A token of a JSON text. -/
inductive Token where
  /-- An opening bracket. -/
  | openArray
  /-- A closing bracket. -/
  | closeArray
  /-- An opening brace. -/
  | openObject
  /-- A closing brace. -/
  | closeObject
  /-- A comma. -/
  | comma
  /-- A colon. -/
  | colon
  /-- A text. -/
  | text (s : String)
  /-- A number or one of the words `null`, `true` and `false`. -/
  | scalar (value : Json)

/-- What the lexer is in the middle of. -/
inductive LexState where
  /-- Between tokens. -/
  | idle
  /-- In a number or a word; its characters, last first. -/
  | word (chars : List Char)
  /-- In a text; its characters, last first. -/
  | text (chars : List Char)
  /-- Behind a backslash in a text. -/
  | escape (chars : List Char)
  /-- In a four-digit escape: digits still to come and the value so far, and the first half of a
  surrogate pair if one came before. -/
  | unit (chars : List Char) (left : Nat) (value : Nat) (high : Option Nat)
  /-- Behind the first half of a surrogate pair. -/
  | halfPair (chars : List Char) (high : Nat)
  /-- Behind a backslash after the first half of a surrogate pair. -/
  | halfPairEscape (chars : List Char) (high : Nat)

/-- The value that a word or numeral stands for. -/
def ofWord? (chars : List Char) : Option Json :=
  match String.ofList chars with
  | "null" => some .null
  | "true" => some (.bool true)
  | "false" => some (.bool false)
  | _ => (Number.ofText? chars).map .number

/-- The token that a single character is. -/
def punctuator? : Char → Option Token
  | '[' => some .openArray
  | ']' => some .closeArray
  | '{' => some .openObject
  | '}' => some .closeObject
  | ',' => some .comma
  | ':' => some .colon
  | _ => none

/-- Whether a character separates tokens and means nothing else. -/
def isBlank (c : Char) : Bool :=
  c = ' ' || c = '\t' || c = '\n' || c = '\r'

/-- Whether a character may be part of a number or a word. -/
def isWordChar (c : Char) : Bool :=
  c.isAlphanum || c = '-' || c = '+' || c = '.'

/-- The value of a hexadecimal digit. -/
def hexDigit? (c : Char) : Option Nat :=
  if c.isDigit then some (c.toNat - 48)
  else if 'a' ≤ c ∧ c ≤ 'f' then some (c.toNat - 87)
  else if 'A' ≤ c ∧ c ≤ 'F' then some (c.toNat - 55)
  else none

/-- The character that a letter stands for behind a backslash. -/
def unescape? : Char → Option Char
  | '"' => some '"'
  | '\\' => some '\\'
  | '/' => some '/'
  | 'b' => some (Char.ofNat 8)
  | 'f' => some (Char.ofNat 12)
  | 'n' => some '\n'
  | 'r' => some '\r'
  | 't' => some '\t'
  | _ => none

/-- One character outside any token, and the tokens it completes. -/
def lexIdle? (c : Char) : Option (LexState × List Token) :=
  if isBlank c then some (.idle, [])
  else if c = '"' then some (.text [], [])
  else match punctuator? c with
    | some token => some (.idle, [token])
    | none => if isWordChar c then some (.word [c], []) else none

/-- One character read by the lexer: the next state and the tokens it completes. -/
def lexChar? : LexState → Char → Option (LexState × List Token)
  | .idle, c => lexIdle? c
  | .word chars, c =>
    if isWordChar c then some (.word (c :: chars), [])
    else do
      let value ← ofWord? chars.reverse
      let (state, tokens) ← lexIdle? c
      pure (state, .scalar value :: tokens)
  | .text chars, c =>
    if c = '"' then some (.idle, [.text (String.ofList chars.reverse)])
    else if c = '\\' then some (.escape chars, [])
    else if c.toNat < 32 then none
    else some (.text (c :: chars), [])
  | .escape chars, c =>
    if c = 'u' then some (.unit chars 4 0 none, [])
    else (unescape? c).map fun u => (.text (u :: chars), [])
  | .unit chars left value high, c => do
    let digit ← hexDigit? c
    let value := value * 16 + digit
    if 1 < left then pure (.unit chars (left - 1) value high, [])
    else match high with
      | some h =>
        if 0xDC00 ≤ value ∧ value < 0xE000 then
          pure (.text (Char.ofNat (0x10000 + (h - 0xD800) * 0x400 + (value - 0xDC00)) :: chars), [])
        else none
      | none =>
        if 0xD800 ≤ value ∧ value < 0xDC00 then pure (.halfPair chars value, [])
        else if 0xDC00 ≤ value ∧ value < 0xE000 then none
        else pure (.text (Char.ofNat value :: chars), [])
  | .halfPair chars high, c => if c = '\\' then some (.halfPairEscape chars high, []) else none
  | .halfPairEscape chars high, c =>
    if c = 'u' then some (.unit chars 4 0 (some high), []) else none

/-- The tokens of a text, or nothing if it has none of that form. -/
def tokens? (s : List Char) : Option (List Token) :=
  go .idle [] s
where
  /-- Reads on from a state; the tokens so far are last first. -/
  go : LexState → List Token → List Char → Option (List Token)
    | .idle, tokens, [] => some tokens.reverse
    | .word chars, tokens, [] =>
      (ofWord? chars.reverse).map fun value => (Token.scalar value :: tokens).reverse
    | _, _, [] => none
    | state, tokens, c :: rest =>
      match lexChar? state c with
      | some (next, added) => go next (added.reverse ++ tokens) rest
      | none => none

/-- An array or object that is still open. -/
inductive Frame where
  /-- An array with the items so far, last first. -/
  | array (items : List Json)
  /-- An object with the members so far and the name whose value is being read. -/
  | object (members : List (String × Json)) (name : String)

/-- What the machine expects next. -/
inductive Expectation where
  /-- A value. -/
  | value
  /-- A value, or the end of an array that has just been opened. -/
  | valueOrEnd
  /-- A member name, or the end of an object that has just been opened. -/
  | nameOrEnd (members : List (String × Json))
  /-- A member name. -/
  | name (members : List (String × Json))
  /-- The colon behind a member name. -/
  | colon (members : List (String × Json)) (name : String)
  /-- A comma or the end of the innermost open array or object. -/
  | separator (value : Json)

/-- One token: the next expectation and the stack of open arrays and objects. -/
def readToken? : Expectation → List Frame → Token → Option (Expectation × List Frame)
  | .value, stack, .text s => some (.separator (.string s), stack)
  | .value, stack, .scalar v => some (.separator v, stack)
  | .value, stack, .openArray => some (.valueOrEnd, .array [] :: stack)
  | .value, stack, .openObject => some (.nameOrEnd [], stack)
  | .value, _, _ => none
  | .valueOrEnd, .array [] :: stack, .closeArray => some (.separator (.array []), stack)
  | .valueOrEnd, stack, .text s => some (.separator (.string s), stack)
  | .valueOrEnd, stack, .scalar v => some (.separator v, stack)
  | .valueOrEnd, stack, .openArray => some (.valueOrEnd, .array [] :: stack)
  | .valueOrEnd, stack, .openObject => some (.nameOrEnd [], stack)
  | .valueOrEnd, _, _ => none
  | .nameOrEnd members, stack, .text s => some (.colon members s, stack)
  | .nameOrEnd members, stack, .closeObject => some (.separator (.object members), stack)
  | .nameOrEnd _, _, _ => none
  | .name members, stack, .text s => some (.colon members s, stack)
  | .name _, _, _ => none
  | .colon members s, stack, .colon => some (.value, .object members s :: stack)
  | .colon _ _, _, _ => none
  | .separator v, .array items :: stack, .comma => some (.value, .array (v :: items) :: stack)
  | .separator v, .array items :: stack, .closeArray =>
    some (.separator (.array (v :: items).reverse), stack)
  | .separator v, .object members s :: stack, .comma =>
    some (.name (Fields.insert members s v), stack)
  | .separator v, .object members s :: stack, .closeObject =>
    some (.separator (.object (Fields.insert members s v)), stack)
  | .separator _, _, _ => none

/-- The value that a list of tokens writes. -/
def ofTokens? (tokens : List Token) : Option Json :=
  go .value [] tokens
where
  /-- Reads on from an expectation and a stack. -/
  go : Expectation → List Frame → List Token → Option Json
    | .separator v, [], [] => some v
    | _, _, [] => none
    | expectation, stack, token :: rest =>
      match readToken? expectation stack token with
      | some (next, stack) => go next stack rest
      | none => none

/-- The value that a text writes, or nothing if it is no JSON text. -/
def parse? (s : String) : Option Json :=
  (tokens? s.toList).bind ofTokens?

end GraphExec.Json
