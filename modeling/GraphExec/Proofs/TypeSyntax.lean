import Mathlib
import GraphExec.TypeRef

/-!
# Type syntax

A reference to a type is written down and read back. Whatever a text is, the reference that is read
from it is written as that text again, and nowhere rules out null twice. A reference that does so is
read back as it was, provided that its name cannot be taken for syntax.
-/

namespace GraphExec

namespace TypeRef

/-- Null is nowhere ruled out twice. -/
def Separated : TypeRef → Prop
  | named _ => True
  | list item => item.Separated
  | nonNull inner => inner.isNonNull = false ∧ inner.Separated

/-- A name that cannot be taken for syntax: it opens no bracket and ends in no exclamation mark. -/
def PlainName (name : String) : Prop :=
  name.toList.head? ≠ some '[' ∧ name.toList.getLast? ≠ some '!'
deriving Decidable

/-! ### What is read before an exclamation mark -/

/-- The type that stands before an exclamation mark: a bracketed one, or a name. -/
def bare? : List Char → Option TypeRef
  | '[' :: inner => if inner.getLast? = some ']' then (read? inner.dropLast).map list else none
  | name => some (named (String.ofList name))

theorem bare?_brackets (s : List Char) : bare? ('[' :: s ++ [']']) = (read? s).map list := by
  simp [bare?]

theorem bare?_name {s : List Char} (opens : s.head? ≠ some '[') :
    bare? s = some (named (String.ofList s)) := by
  unfold bare?
  split
  · simp at opens
  · rfl

/-- A type is read by splitting off an exclamation mark and reading what stands before it. -/
theorem read?_eq (s : List Char) :
    read? s = (bare? (splitBang s).2).map fun t => if (splitBang s).1 then nonNull t else t := by
  rw [read?]
  generalize (splitBang s).2 = rest
  congr 1
  unfold bare?
  split
  · rfl
  · rename_i opens
    split
    · exact absurd rfl (opens _)
    · rfl

theorem splitBang_bang (s : List Char) : splitBang (s ++ ['!']) = (true, s) := by
  simp [splitBang]

theorem splitBang_of_ne {s : List Char} (ends : s.getLast? ≠ some '!') :
    splitBang s = (false, s) := by
  simp [splitBang, ends]

theorem read?_bang (s : List Char) : read? (s ++ ['!']) = (bare? s).map nonNull := by
  rw [read?_eq, splitBang_bang]
  rfl

theorem read?_of_ne {s : List Char} (ends : s.getLast? ≠ some '!') : read? s = bare? s := by
  rw [read?_eq, splitBang_of_ne ends]
  simp

theorem getLast?_brackets (s : List Char) : ('[' :: s ++ [']']).getLast? = some ']' := by
  rw [List.getLast?_append, List.getLast?_singleton]
  rfl

theorem read?_brackets (s : List Char) : read? ('[' :: s ++ [']']) = (read? s).map list := by
  have ends : ('[' :: s ++ [']']).getLast? ≠ some '!' := by
    rw [getLast?_brackets]
    decide
  rw [read?_of_ne ends, bare?_brackets]

/-! ### What has been read is written as it was -/

/-- A text is a reading of a reference that rules out null nowhere twice. -/
def Writes (s : List Char) (t : TypeRef) : Prop :=
  t.chars = s ∧ t.Separated

/-- Brackets are closed where they are opened, so nothing between them is lost. -/
theorem writes_bare {s : List Char} {t : TypeRef} (reads : bare? s = some t)
    (inside : ∀ (inner : List Char) (item : TypeRef), inner.length < s.length →
      read? inner = some item → Writes inner item) :
    Writes s t ∧ t.isNonNull = false := by
  unfold bare? at reads
  split at reads
  · rename_i inner
    split at reads
    · rename_i closed
      obtain ⟨item, read, rfl⟩ := Option.map_eq_some_iff.mp reads
      have shorter : inner.dropLast.length < ('[' :: inner).length := by
        rw [List.length_dropLast, List.length_cons]
        omega
      obtain ⟨written, separated⟩ := inside inner.dropLast item shorter read
      refine ⟨⟨?_, separated⟩, rfl⟩
      calc (list item).chars
        _ = '[' :: (inner.dropLast ++ [']']) := by rw [chars, written]; rfl
        _ = '[' :: inner := by rw [List.dropLast_append_getLast? _ closed]
    · cases reads
  · injection reads with reads
    subst reads
    exact ⟨⟨String.toList_ofList, trivial⟩, rfl⟩

/-- By induction on the length of the text: what is between brackets is shorter. -/
theorem writes_read (n : Nat) : ∀ (s : List Char) (t : TypeRef), s.length ≤ n →
    read? s = some t → Writes s t := by
  induction n with
  | zero =>
      intro s t short reads
      have empty : s = [] := List.eq_nil_of_length_eq_zero (Nat.le_zero.mp short)
      subst empty
      rw [read?_of_ne (by simp)] at reads
      exact (writes_bare reads fun inner item shorter => absurd shorter (Nat.not_lt_zero _)).1
  | succ n ih =>
      intro s t short reads
      by_cases bang : s.getLast? = some '!'
      · -- what is before the exclamation mark rules out null nowhere at the outermost level
        obtain ⟨front, rfl⟩ : ∃ front, s = front ++ ['!'] :=
          ⟨s.dropLast, (List.dropLast_append_getLast? _ bang).symm⟩
        rw [List.length_append, List.length_singleton] at short
        rw [read?_bang] at reads
        obtain ⟨inner, read, rfl⟩ := Option.map_eq_some_iff.mp reads
        obtain ⟨⟨written, separated⟩, nullable⟩ :=
          writes_bare read fun s t shorter => ih s t (by omega)
        refine ⟨?_, nullable, separated⟩
        rw [chars, written]
      · rw [read?_of_ne bang] at reads
        exact (writes_bare reads fun s t shorter => ih s t (by omega)).1

/-! ### What has been written is read as it was -/

/-- A type without an exclamation mark of its own is written without one at its end. -/
theorem getLast?_chars {t : TypeRef} (nullable : t.isNonNull = false)
    (plain : PlainName t.namedType) : t.chars.getLast? ≠ some '!' := by
  cases t with
  | named name => exact plain.2
  | list item =>
      rw [chars, getLast?_brackets]
      decide
  | nonNull inner => cases nullable

theorem read?_chars {t : TypeRef} (separated : t.Separated) (plain : PlainName t.namedType) :
    read? t.chars = some t := by
  induction t with
  | named name =>
      obtain ⟨opens, ends⟩ : PlainName name := plain
      rw [chars, read?_of_ne ends, bare?_name opens, String.ofList_toList]
  | list item ih =>
      rw [chars, read?_brackets, ih separated plain]
      rfl
  | nonNull inner ih =>
      obtain ⟨nullable, separated⟩ := separated
      have read := ih separated plain
      rw [read?_of_ne (getLast?_chars nullable plain)] at read
      rw [chars, read?_bang, read]
      rfl

/-! ### References and their texts -/

/-- A text that is no type syntax is a name, and is written as that. -/
theorem writes_parse (source : String) : Writes source.toList (parse source) := by
  unfold parse
  cases read : read? source.toList with
  | none => exact ⟨rfl, trivial⟩
  | some t => exact writes_read _ _ t (Nat.le_refl _) read

/-- A reference that rules out null nowhere twice is read back from its text. -/
theorem parse_text {t : TypeRef} (separated : t.Separated) (plain : PlainName t.namedType) :
    parse t.text = t := by
  rw [parse, text, String.toList_ofList, read?_chars separated plain]
  rfl

/-- What is read from a text is written as that text; a reference that rules out null nowhere twice
and whose name cannot be taken for syntax is read back from its text; and nothing that is read rules
out null twice. -/
theorem syntax_round_trips :
    (∀ source : String, (parse source).text = source) ∧
    (∀ t : TypeRef, t.Separated → PlainName t.namedType → parse t.text = t) ∧
    (∀ source : String, (parse source).Separated) := by
  refine ⟨fun source => ?_, fun t separated plain => parse_text separated plain,
    fun source => (writes_parse source).2⟩
  rw [text, (writes_parse source).1, String.ofList_toList]

/-- Brackets and exclamation marks in a row are read and written alike, whether or not they make up a
type; a list of lists is read back. -/
theorem syntax_round_trips_brackets :
    (parse "[[!]!!").text = "[[!]!!" ∧
      (list (nonNull (list (nonNull (named "Int"))))).Separated ∧ PlainName "Int" ∧
      parse (list (nonNull (list (nonNull (named "Int"))))).text =
        list (nonNull (list (nonNull (named "Int")))) := by
  have separated : (list (nonNull (list (nonNull (named "Int"))))).Separated :=
    ⟨rfl, rfl, trivial⟩
  have plain : PlainName "Int" := by decide
  exact ⟨syntax_round_trips.1 _, separated, plain, syntax_round_trips.2.1 _ separated plain⟩

end TypeRef

end GraphExec
