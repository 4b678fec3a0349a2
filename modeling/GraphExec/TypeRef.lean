/-!
# Type references

A reference to a type at a field or argument position, such as `[Int!]!`, and its syntax.
-/

namespace GraphExec

/-- A reference to a type. -/
inductive TypeRef where
  /-- A type by its name. -/
  | named (name : String)
  /-- A list of items of a type. -/
  | list (item : TypeRef)
  /-- A type without null. -/
  | nonNull (inner : TypeRef)
deriving DecidableEq, Repr, Inhabited

namespace TypeRef

/-- The characters of a type reference in type syntax. -/
def chars : TypeRef → List Char
  | named name => name.toList
  | list item => '[' :: item.chars ++ [']']
  | nonNull inner => inner.chars ++ ['!']

/-- A type reference in type syntax. -/
def text (t : TypeRef) : String :=
  String.ofList t.chars

/-- Splits off one trailing exclamation mark. -/
def splitBang (s : List Char) : Bool × List Char :=
  if s.getLast? = some '!' then (true, s.dropLast) else (false, s)

theorem length_splitBang_le (s : List Char) : (splitBang s).2.length ≤ s.length := by
  unfold splitBang
  split
  · simp
  · exact Nat.le_refl _

/-- Reads type syntax: a name or a bracketed type, each perhaps with one exclamation mark. What
stands for a name is any text that does not open a bracket. -/
def read? (s : List Char) : Option TypeRef :=
  let split := splitBang s
  let base := match _shape : split.2 with
    | '[' :: inner =>
      if inner.getLast? = some ']' then (read? inner.dropLast).map list else none
    | name => some (named (String.ofList name))
  base.map fun t => if split.1 then nonNull t else t
termination_by s.length
decreasing_by
  have size : split.2.length = inner.length + 1 := by rw [_shape]; rfl
  have bound : split.2.length ≤ s.length := length_splitBang_le s
  rw [List.length_dropLast]
  omega

/-- The type reference that a text writes. A text that is no type syntax is taken as a name, so
that a schema reports it as an unknown type. -/
def parse (source : String) : TypeRef :=
  (read? source.toList).getD (named source)

/-- Whether null is ruled out at the outermost level. -/
def isNonNull : TypeRef → Bool
  | nonNull _ => true
  | _ => false

/-- The type without its outermost non-null wrapper. -/
def nullable : TypeRef → TypeRef
  | nonNull inner => inner
  | t => t

/-- Whether the type is a list, with or without null. -/
def isList (t : TypeRef) : Bool :=
  match t.nullable with
  | list _ => true
  | _ => false

/-- The name under all wrappers. -/
def namedType : TypeRef → String
  | named name => name
  | list item => item.namedType
  | nonNull inner => inner.namedType

end TypeRef

end GraphExec
