/-!
# White space

The characters with the Unicode property White_Space, and trimming by it.
-/

namespace GraphExec.Text

/-- Closed ranges of the code points that are white space, ascending and apart. -/
def blankRanges : List (Nat × Nat) :=
  [(0x09, 0x0D), (0x20, 0x20), (0x85, 0x85), (0xA0, 0xA0), (0x1680, 0x1680), (0x2000, 0x200A),
   (0x2028, 0x2029), (0x202F, 0x202F), (0x205F, 0x205F), (0x3000, 0x3000)]

/-- Whether a character is white space. -/
def isBlank (c : Char) : Bool :=
  blankRanges.any fun range => range.1 ≤ c.toNat && c.toNat ≤ range.2

/-- The characters without white space at either end. -/
def trimChars (s : List Char) : List Char :=
  ((s.dropWhile isBlank).reverse.dropWhile isBlank).reverse

/-- The natural number written by decimal digits, a leading plus allowed. -/
def readNat? (s : List Char) : Option Nat :=
  let digits := match s with
    | '+' :: rest => rest
    | s => s
  if digits.isEmpty || !digits.all Char.isDigit then none
  else some (digits.foldl (fun n c => n * 10 + (c.toNat - 48)) 0)

/-- The integer written by decimal digits, a leading sign allowed. -/
def readInt? (s : List Char) : Option Int :=
  match s with
  | '-' :: rest =>
    match rest with
    | '+' :: _ => none
    | rest => (readNat? rest).map fun n => -(n : Int)
  | s => (readNat? s).map fun n => (n : Int)

end GraphExec.Text
