/-!
# Named entries in order of arrival

Objects, argument bags, variables and registries all keep their entries in the order in which
the names first arrived. Writing to a name that is present replaces its value and moves nothing.
-/

namespace GraphExec

/-- Values under names, in order of first arrival. -/
abbrev Fields (α : Type) := List (String × α)

namespace Fields

variable {α β : Type}

/-- The value under a name. -/
def get? : Fields α → String → Option α
  | [], _ => none
  | (k, v) :: rest, name => if k = name then some v else get? rest name

/-- Whether a name is present. -/
def has (fields : Fields α) (name : String) : Bool :=
  (get? fields name).isSome

/-- Writes a value under a name: in place if the name is present, else at the end. -/
def insert : Fields α → String → α → Fields α
  | [], name, value => [(name, value)]
  | (k, v) :: rest, name, value =>
    if k = name then (k, value) :: rest else (k, v) :: insert rest name value

/-- Removes a name and keeps the order of the others. -/
def erase : Fields α → String → Fields α
  | [], _ => []
  | (k, v) :: rest, name => if k = name then rest else (k, v) :: erase rest name

theorem length_erase_lt {fields : Fields α} {name : String} {value : α}
    (found : get? fields name = some value) :
    (erase fields name).length < fields.length := by
  induction fields with
  | nil => simp [Fields.get?] at found
  | cons entry rest ih =>
    obtain ⟨k, v⟩ := entry
    unfold get? at found
    unfold Fields.erase
    split
    · simp
    · rename_i differs
      simp only [differs, if_false] at found
      simpa using ih found

/-- The names, in order. -/
def keys (fields : Fields α) : List String :=
  fields.map (·.1)

/-- The values, in order. -/
def values (fields : Fields α) : List α :=
  fields.map (·.2)

/-- Entries from a list of pairs; of a repeated name the first place and the last value count. -/
def ofList (pairs : List (String × α)) : Fields α :=
  pairs.foldl (fun fields pair => insert fields pair.1 pair.2) []

end Fields

/-- Adds a name at the end of a list of names unless it is there. -/
def addName (names : List String) (name : String) : List String :=
  if name ∈ names then names else names ++ [name]

end GraphExec
