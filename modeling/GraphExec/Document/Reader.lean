import GraphExec.Document.Literal
import GraphExec.Json.Reader

/-!
# Reading documents

The grammar of executable documents, without a separate pass for tokens: a keyword needs no break
behind it, so `queryQ` is the keyword `query` and the name `Q`. An alternative that has matched is
never taken back. Blanks, commas and comments may stand before any token, except inside types and
behind the `on` of a type condition.
-/

namespace GraphExec.Document

/-- A place in a text and the characters from there on. -/
structure Cursor where
  /-- The characters not yet read. -/
  rest : List Char
  /-- The place of the next character. -/
  location : Location
  /-- The number of characters read. -/
  offset : Nat
  /-- The first fault of a text that follows the grammar so far. -/
  fault : Option DocumentError

namespace Cursor

/-- The start of a text. -/
def start (text : String) : Cursor :=
  ⟨text.toList, ⟨1, 1⟩, 0, none⟩

/-- The place behind one more character. A line feed starts a line; a carriage return goes back to
the first column. -/
def locationAfter (l : Location) (c : Char) : Location :=
  if c = '\n' then ⟨l.line + 1, 1⟩
  else if c = '\r' then ⟨l.line, 1⟩
  else ⟨l.line, l.column + 1⟩

/-- The cursor some characters further on. -/
def advance (cursor : Cursor) (count : Nat) : Cursor :=
  { cursor with
    rest := cursor.rest.drop count
    location := (cursor.rest.take count).foldl locationAfter cursor.location
    offset := cursor.offset + count }

end Cursor

/-- Whether a character separates tokens and means nothing else. -/
def isIgnored (c : Char) : Bool :=
  c = ' ' || c = ',' || c = '\t' || c = '\n' || c = '\r' || c = '\ufeff'

/-- The number of leading characters that separate tokens, comments included; `comment` says
whether the first one is inside a comment. -/
def ignoredLength (comment : Bool) : List Char → Nat
  | [] => 0
  | c :: rest =>
    if comment then 1 + ignoredLength (c ≠ '\n' && c ≠ '\r') rest
    else if isIgnored c then 1 + ignoredLength false rest
    else if c = '#' then 1 + ignoredLength true rest
    else 0

/-- Whether a name may start with a character. -/
def isNameStart (c : Char) : Bool :=
  c.isAlpha || c = '_'

/-- Whether a name may go on with a character. -/
def isNameChar (c : Char) : Bool :=
  c.isAlphanum || c = '_'

/-- The name at the head of a text. -/
def leadingName? (s : List Char) : Option (List Char) :=
  match s with
  | c :: _ => if isNameStart c then some (s.takeWhile isNameChar) else none
  | [] => none

/-- A reader: a result and the cursor behind it, or nothing. -/
abbrev Reader := StateT Cursor Option

/-- Goes past blanks, commas and comments. -/
def skip : Reader Unit :=
  modify fun cursor => cursor.advance (ignoredLength false cursor.rest)

/-- Reads an exact text where the cursor stands. -/
def exactly (text : String) : Reader Unit := do
  let cursor ← get
  if text.toList.isPrefixOf cursor.rest then set (cursor.advance text.length) else failure

/-- Reads an exact text behind blanks. -/
def token (text : String) : Reader Unit := do
  skip
  exactly text

/-- Reads a name where the cursor stands. -/
def nameHere : Reader String := do
  let cursor ← get
  match leadingName? cursor.rest with
  | some chars => set (cursor.advance chars.length); pure (String.ofList chars)
  | none => failure

/-- Reads a name behind blanks. -/
def name : Reader String := do
  skip
  nameHere

/-- Reads something or nothing. -/
def optional {α : Type} (reader : Reader α) : Reader (Option α) :=
  (some <$> reader) <|> pure none

/-- Reads as many as there are, up to `fuel`. -/
def upTo {α : Type} (reader : Reader α) : Nat → Reader (List α)
  | 0 => pure []
  | fuel + 1 => do
    match ← optional reader with
    | some item => return item :: (← upTo reader fuel)
    | none => return []

/-- Reads as many as there are; each takes at least one character. -/
def many {α : Type} (reader : Reader α) : Reader (List α) := do
  upTo reader (← get).rest.length

/-- Reads one or more. -/
def oneOrMore {α : Type} (reader : Reader α) : Reader (List α) := do
  let items ← many reader
  if items.isEmpty then failure else pure items

/-- Records a fault of the text, unless one was found before. -/
def report (fault : DocumentError) : Reader Unit :=
  modify fun cursor => { cursor with fault := cursor.fault.or (some fault) }

/-! ### Texts -/

/-- The character of a four-digit escape; halves of surrogate pairs stand for none. -/
def escapedUnit? (digits : List Char) : Option Char := do
  let values ← digits.mapM Json.hexDigit?
  let n := values.foldl (fun n d => n * 16 + d) 0
  if 0xD800 ≤ n ∧ n < 0xE000 then none else some (Char.ofNat n)

/-- The content of a quoted text up to its closing quote, and the number of characters read. -/
def quotedContent? : List Char → Option (List Char × Nat)
  | [] => none
  | '"' :: _ => some ([], 1)
  | '\\' :: 'u' :: a :: b :: c :: d :: rest => do
    let char ← escapedUnit? [a, b, c, d]
    let (content, count) ← quotedContent? rest
    pure (char :: content, count + 6)
  | '\\' :: c :: rest => do
    let char ← Json.unescape? c
    let (content, count) ← quotedContent? rest
    pure (char :: content, count + 2)
  | c :: rest =>
    if c = '\n' ∨ c = '\r' ∨ c = '\\' then none
    else (quotedContent? rest).map fun (content, count) => (c :: content, count + 1)

/-- The raw content of a block text up to its three closing quotes, and the number of characters
read. Three quotes behind a backslash do not close it. -/
def blockContent? : List Char → Option (List Char × Nat)
  | [] => none
  | '\\' :: '"' :: '"' :: '"' :: rest =>
    (blockContent? rest).map fun (content, count) =>
      ('\\' :: '"' :: '"' :: '"' :: content, count + 4)
  | '"' :: '"' :: '"' :: _ => some ([], 3)
  | c :: rest => (blockContent? rest).map fun (content, count) => (c :: content, count + 1)

/-- Splits a text into lines at line feeds, carriage returns and pairs of both. -/
def lines : List Char → List (List Char)
  | [] => [[]]
  | '\r' :: '\n' :: rest => [] :: lines rest
  | c :: rest =>
    if c = '\n' ∨ c = '\r' then [] :: lines rest
    else match lines rest with
      | line :: others => (c :: line) :: others
      | [] => [[c]]

/-- Whether a character indents a line. -/
def isIndent (c : Char) : Bool :=
  c = ' ' || c = '\t'

/-- The least indent of the lines that hold more than indent; zero if there is none. -/
def commonIndent (ls : List (List Char)) : Nat :=
  let indents := (ls.filter fun line => !line.all isIndent).map fun line =>
    (line.takeWhile isIndent).length
  indents.min?.getD 0

/-- The value of a block text: the common indent of all lines but the first is removed, and so
are the blank lines at both ends. -/
def blockValue (raw : List Char) : List Char :=
  let ls := lines raw
  let indent := commonIndent (ls.drop 1)
  let dedent (line : List Char) : List Char :=
    if indent ≤ line.length then line.drop indent else line
  let dedented := match ls with
    | [] => []
    | first :: others => first :: others.map dedent
  let blank : List Char → Bool := fun line => line.all isIndent
  -- Whether a line is blank is decided before its indent is removed; removing it changes nothing.
  let kept := ((dedented.dropWhile blank).reverse.dropWhile blank).reverse
  List.intercalate ['\n'] kept

/-- Reads a block text. -/
def blockText : Reader String := do
  token "\"\"\""
  let cursor ← get
  match blockContent? cursor.rest with
  | some (raw, count) => set (cursor.advance count); pure (String.ofList (blockValue raw))
  | none => failure

/-- Reads a quoted text. -/
def quotedText : Reader String := do
  token "\""
  let cursor ← get
  match quotedContent? cursor.rest with
  | some (content, count) => set (cursor.advance count); pure (String.ofList content)
  | none => failure

/-! ### Literals -/

/-- Reads a number. One beyond the finite doubles is a fault; a name may not follow at once. -/
def number : Reader Number := do
  skip
  let cursor ← get
  match Number.splitNumeral? cursor.rest with
  | none => failure
  | some (numeral, rest) =>
    if (rest.head?.map isNameStart).getD false then failure
    else
      set (cursor.advance (cursor.rest.length - rest.length))
      match numeral.value? with
      | some n => pure n
      | none => report .malformed; pure (.int 0)

/-- Reads a literal that is no list, no object and no variable. -/
def scalarLiteral : Reader Literal :=
  (.number <$> number)
  <|> (.string <$> (blockText <|> quotedText))
  <|> (do token "true"; pure (.bool true))
  <|> (do token "false"; pure (.bool false))
  <|> (do token "null"; pure .null)
  <|> (.enum <$> name)

/-- Reads a variable. -/
def variableLiteral : Reader Literal := do
  token "$"
  return .variable (← name)

/-- Reads a literal; `constant` rules variables out, and `fuel` bounds its nesting. -/
def literal (constant : Bool) : Nat → Reader Literal
  | 0 => failure
  | fuel + 1 =>
    (if constant then failure else variableLiteral)
    <|> scalarLiteral
    <|> (do
      token "["
      let items ← many (literal constant fuel)
      token "]"
      pure (.list items))
    <|> (do
      token "\x7b"
      let fields ← many (do
        let key ← name
        token ":"
        let value ← literal constant fuel
        pure (key, value))
      token "\x7d"
      pure (.object (Fields.ofList fields)))

/-- Reads a literal whose nesting the rest of the text bounds. -/
def anyLiteral (constant : Bool) : Reader Literal := do
  literal constant ((← get).rest.length + 1)

/-- Reads a type; no blanks are allowed inside. -/
def typeHere : Nat → Reader TypeRef
  | 0 => failure
  | fuel + 1 => do
    let base ← (TypeRef.named <$> nameHere) <|> (do
      exactly "["
      let item ← typeHere fuel
      exactly "]"
      pure (.list item))
    match ← optional (exactly "!") with
    | some _ => pure (.nonNull base)
    | none => pure base

/-! ### Selections -/

/-- Reads arguments in parentheses. -/
def arguments : Reader (List (String × Literal)) := do
  token "("
  let pairs ← oneOrMore (do
    let key ← name
    token ":"
    let value ← anyLiteral false
    pure (key, value))
  token ")"
  pure pairs

/-- Reads a directive. -/
def directive : Reader Directive := do
  skip
  let cursor ← get
  exactly "@"
  let directiveName ← name
  let pairs ← optional arguments
  pure ⟨directiveName, pairs.getD [], cursor.location, cursor.offset⟩

/-- Reads a type condition; at least one blank and no comment may stand behind `on`. -/
def typeCondition : Reader String := do
  token "on"
  let cursor ← get
  let blanks := cursor.rest.takeWhile isIgnored
  if blanks.isEmpty then failure
  set (cursor.advance blanks.length)
  nameHere

/-- The deepest nesting of selections below those of an operation or fragment. -/
def greatestDepth : Nat := 64

/-- Reads a set of selections at some depth; `fuel` bounds its nesting. -/
def selectionSet (depth : Nat) : Nat → Reader (List Selection)
  | 0 => failure
  | fuel + 1 => do
    token "\x7b"
    if greatestDepth < depth then report .tooDeep
    let below := selectionSet (depth + 1) fuel
    let selections ← oneOrMore (field below <|> inlineFragment below <|> spread)
    token "\x7d"
    pure selections
where
  /-- Reads a field. -/
  field (below : Reader (List Selection)) : Reader Selection := do
    skip
    let cursor ← get
    let alias? ← optional (do
      let key ← name
      token ":"
      pure key)
    let fieldName ← name
    let pairs ← optional arguments
    let directives ← many directive
    let selections ← optional below
    pure (.field ⟨alias?, fieldName, pairs.getD [], directives, selections.getD [],
      cursor.location, cursor.offset⟩)
  /-- Reads a fragment in place. -/
  inlineFragment (below : Reader (List Selection)) : Reader Selection := do
    token "..."
    let condition ← optional typeCondition
    let directives ← many directive
    let selections ← below
    pure (.inline condition directives selections)
  /-- Reads the use of a fragment. -/
  spread : Reader Selection := do
    token "..."
    match ← optional typeCondition with
    | some _ => failure
    | none =>
      let fragment ← name
      let directives ← many directive
      pure (.spread fragment directives)

/-- Reads a set of selections whose nesting the rest of the text bounds. -/
def topSelections : Reader (List Selection) := do
  selectionSet 0 ((← get).rest.length + 1)

/-! ### Definitions -/

/-- Reads the definition of a variable. -/
def variableDefinition : Reader VariableDefinition := do
  token "$"
  let variableName ← name
  token ":"
  skip
  let type ← typeHere ((← get).rest.length + 1)
  let _ ← many directive
  let written ← optional (do
    token "="
    anyLiteral true)
  pure ⟨variableName, type, written.bind (Literal.value? [])⟩

/-- Reads the keyword of an operation. -/
def operationKind : Reader OperationKind :=
  (do token "query"; pure .query)
  <|> (do token "mutation"; pure .mutation)
  <|> (do token "subscription"; pure .subscription)

/-- Reads an operation that starts with its keyword. -/
def keywordOperation (location : Location) : Reader Operation := do
  let kind ← operationKind
  let name? ← optional name
  let definitions ← optional (do
    token "("
    let definitions ← many variableDefinition
    token ")"
    pure definitions)
  let _ ← many directive
  let selections ← topSelections
  pure ⟨name?, kind, definitions.getD [], selections, location⟩

/-- Reads a query that is only its selections. -/
def bareOperation (location : Location) : Reader Operation := do
  let selections ← topSelections
  pure ⟨none, .query, [], selections, location⟩

/-- Reads the definition of a fragment. -/
def fragmentDefinition (location : Location) : Reader Fragment := do
  token "fragment"
  let fragmentName ← name
  let condition ← typeCondition
  let _ ← many directive
  let selections ← topSelections
  pure ⟨fragmentName, condition, selections, location⟩

/-- Reads an operation or a fragment. -/
def definition : Reader Definition := do
  skip
  let location := (← get).location
  (.operation <$> (keywordOperation location <|> bareOperation location))
  <|> (.fragment <$> fragmentDefinition location)

/-- Reads the definitions of a whole text. -/
def definitions : Reader (List Definition) := do
  let found ← oneOrMore definition
  skip
  if (← get).rest.isEmpty then pure found else failure

/-- The document that a text writes. A text that does not follow the grammar is malformed; after
that the first fault in the text counts, then the first clash of names. -/
def parse (text : String) : Except DocumentError Document :=
  match definitions.run (Cursor.start text) with
  | none => .error .malformed
  | some (found, cursor) =>
    match cursor.fault with
    | some fault => .error fault
    | none => ofDefinitions found

end GraphExec.Document
