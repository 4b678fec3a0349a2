import GraphExec.Text.Hidden

/-!
# Texts inside messages

A text inside a message stands between quotes, on one line, and with every character visible:
what could not be seen is written by its code point.
-/

namespace GraphExec.Text

/-- A character written by its code point. -/
def byCodePoint (c : Char) : String :=
  "\\u\x7b" ++ String.ofList (Nat.toDigits 16 c.toNat) ++ "\x7d"

/-- A character inside a shown text: a short escape where there is one, the code point of a
hidden character, and all else as it is. -/
def shownChar (c : Char) : String :=
  if c = '"' then "\\\""
  else if c = '\\' then "\\\\"
  else if c = '\n' then "\\n"
  else if c = '\r' then "\\r"
  else if c = '\t' then "\\t"
  else if c.toNat = 0 then "\\0"
  else if isHidden c then byCodePoint c
  else String.singleton c

/-- A text as a message shows it. -/
def shown (s : String) : String :=
  "\"" ++ String.join (s.toList.map shownChar) ++ "\""

end GraphExec.Text
