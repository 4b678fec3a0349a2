import GraphExec.Document.Reader
import Mathlib.Data.List.Basic

/-!
# Offsets in a text

A reader never goes back: what it reads later stands further on. So the offsets of the field nodes
and directives of a document that has been read ascend in the order of its text, and tell them apart.
-/

namespace GraphExec.Document

variable {α β : Type}

/-! ### Runs of readers -/

section Runs

variable {reader other : Reader α} {f : α → Reader β} {cursor after : Cursor} {a : α} {b : β}

theorem run_bind (read : (reader >>= f).run cursor = some (b, after)) :
    ∃ a middle, reader.run cursor = some (a, middle) ∧ (f a).run middle = some (b, after) := by
  rw [StateT.run_bind] at read
  cases first : reader.run cursor with
  | none => simp [first] at read
  | some result =>
      obtain ⟨a, middle⟩ := result
      exact ⟨a, middle, rfl, by simpa [first] using read⟩

theorem run_map {g : α → β} (read : (g <$> reader).run cursor = some (b, after)) :
    ∃ a, reader.run cursor = some (a, after) ∧ g a = b := by
  rw [StateT.run_map] at read
  cases first : reader.run cursor with
  | none => simp [first] at read
  | some result =>
      obtain ⟨a, middle⟩ := result
      obtain ⟨made, same⟩ : g a = b ∧ middle = after := by simpa [first] using read
      exact ⟨a, by rw [same], made⟩

theorem run_pure {a' : α} (read : (pure a : Reader α).run cursor = some (a', after)) :
    a = a' ∧ cursor = after := by
  simpa using read

theorem run_get {here : Cursor} (read : (get : Reader Cursor).run cursor = some (here, after)) :
    cursor = here ∧ cursor = after := by
  simpa using read

theorem run_set {here : Cursor} {u : Unit}
    (read : (set here : Reader Unit).run cursor = some (u, after)) : here = after := by
  simpa using read

theorem run_failure : (failure : Reader α).run cursor ≠ some (a, after) := by
  simp

theorem run_orElse (read : (reader <|> other).run cursor = some (a, after)) :
    reader.run cursor = some (a, after) ∨ other.run cursor = some (a, after) := by
  rw [StateT.run_orElse] at read
  cases first : reader.run cursor with
  | none => exact .inr (by simpa [first] using read)
  | some result => exact .inl (by simpa [first] using read)

theorem run_optional {a? : Option α} (read : (optional reader).run cursor = some (a?, after)) :
    (∃ a, a? = some a ∧ reader.run cursor = some (a, after)) ∨ (a? = none ∧ cursor = after) := by
  rcases run_orElse read with read | read
  · obtain ⟨a, one, rfl⟩ := run_map read
    exact .inl ⟨a, rfl, one⟩
  · obtain ⟨rfl, rfl⟩ := run_pure read
    exact .inr ⟨rfl, rfl⟩

end Runs

/-! ### Readers that go onward -/

/-- What holds of where a reader starts, what it reads and where it stops. -/
def Reads (reader : Reader α) (holds : Nat → α → Nat → Prop) : Prop :=
  ∀ cursor a after, reader.run cursor = some (a, after) → holds cursor.offset a after.offset

/-- A reader does not go back. -/
def Onward (reader : Reader α) : Prop :=
  Reads reader fun lo _ hi => lo ≤ hi

section Readers

variable {reader other : Reader α} {holds : Nat → α → Nat → Prop}

theorem Reads.orElse (one : Reads reader holds) (two : Reads other holds) :
    Reads (reader <|> other) holds :=
  fun cursor a after read => (run_orElse read).elim (one cursor a after) (two cursor a after)

theorem reads_failure : Reads (failure : Reader α) holds :=
  fun _ _ _ read => absurd read run_failure

/-- What is read as often as it is there. -/
theorem reads_upTo {all : Nat → List α → Nat → Prop} (reads : Reads reader holds)
    (nil : ∀ lo, all lo [] lo)
    (cons : ∀ {lo middle hi a rest}, holds lo a middle → all middle rest hi → all lo (a :: rest) hi) :
    ∀ fuel, Reads (upTo reader fuel) all := by
  intro fuel
  induction fuel with
  | zero =>
      intro cursor items after read
      obtain ⟨rfl, rfl⟩ := run_pure read
      exact nil _
  | succ fuel ih =>
      intro cursor items after read
      obtain ⟨item?, middle, first, read⟩ := run_bind read
      rcases run_optional first with ⟨item, rfl, one⟩ | ⟨rfl, rfl⟩
      · obtain ⟨rest, last, others, read⟩ := run_bind read
        obtain ⟨rfl, rfl⟩ := run_pure read
        exact cons (reads _ _ _ one) (ih _ _ _ others)
      · obtain ⟨rfl, rfl⟩ := run_pure read
        exact nil _

theorem reads_many {all : Nat → List α → Nat → Prop} (reads : Reads reader holds)
    (nil : ∀ lo, all lo [] lo)
    (cons : ∀ {lo middle hi a rest}, holds lo a middle → all middle rest hi → all lo (a :: rest) hi) :
    Reads (many reader) all := by
  intro cursor items after read
  obtain ⟨here, _, got, read⟩ := run_bind read
  obtain ⟨rfl, rfl⟩ := run_get got
  exact reads_upTo reads nil cons _ _ _ _ read

theorem reads_oneOrMore {all : Nat → List α → Nat → Prop} (reads : Reads (many reader) all) :
    Reads (oneOrMore reader) all := by
  intro cursor items after read
  obtain ⟨found, middle, first, read⟩ := run_bind read
  split at read
  · exact absurd read run_failure
  · obtain ⟨rfl, rfl⟩ := run_pure read
    exact reads _ _ _ first

theorem onward_pure (a : α) : Onward (pure a : Reader α) := by
  intro cursor b after read
  obtain ⟨-, rfl⟩ := run_pure read
  exact Nat.le_refl _

theorem Onward.bind {f : α → Reader β} (first : Onward reader) (then_ : ∀ a, Onward (f a)) :
    Onward (reader >>= f) := by
  intro cursor b after read
  obtain ⟨a, middle, one, two⟩ := run_bind read
  exact Nat.le_trans (first _ _ _ one) (then_ a _ _ _ two)

theorem Onward.map {g : α → β} (onward : Onward reader) : Onward (g <$> reader) := by
  intro cursor b after read
  obtain ⟨a, read, -⟩ := run_map read
  exact onward _ _ _ read

theorem onward_optional (onward : Onward reader) : Onward (optional reader) :=
  Reads.orElse onward.map (onward_pure none)

theorem onward_many (onward : Onward reader) : Onward (many reader) :=
  reads_many onward (fun _ => Nat.le_refl _) Nat.le_trans

theorem onward_oneOrMore (onward : Onward reader) : Onward (oneOrMore reader) :=
  reads_oneOrMore (onward_many onward)

/-- A reader that looks at where it is. -/
theorem onward_get {f : Cursor → Reader α} (then_ : ∀ here a after,
    (f here).run here = some (a, after) → here.offset ≤ after.offset) : Onward (get >>= f) := by
  intro cursor a after read
  obtain ⟨here, _, got, read⟩ := run_bind read
  obtain ⟨rfl, rfl⟩ := run_get got
  exact then_ _ _ _ read

/-- A reader that has gone past some characters. -/
theorem le_of_advance {here cursor after : Cursor} {count : Nat} {next : Reader α} {a : α}
    (onward : Onward next)
    (read : (set (here.advance count) >>= fun _ => next).run cursor = some (a, after)) :
    here.offset + count ≤ after.offset := by
  obtain ⟨_, _, put, read⟩ := run_bind read
  obtain rfl := run_set put
  exact onward _ _ _ read

end Readers

/-! ### Tokens -/

theorem onward_skip : Onward skip := by
  intro cursor a after read
  obtain ⟨-, rfl⟩ : a = () ∧ cursor.advance (ignoredLength false cursor.rest) = after := by
    simpa [skip] using read
  exact Nat.le_add_right _ _

theorem reads_exactly (text : String) :
    Reads (exactly text) fun lo _ hi => hi = lo + text.length := by
  intro cursor a after read
  obtain ⟨here, _, got, read⟩ := run_bind read
  obtain ⟨rfl, rfl⟩ := run_get got
  split at read
  · obtain rfl := run_set read
    rfl
  · exact absurd read run_failure

theorem onward_exactly (text : String) : Onward (exactly text) := by
  intro cursor a after read
  rw [reads_exactly text _ _ _ read]
  exact Nat.le_add_right _ _

theorem onward_token (text : String) : Onward (token text) :=
  onward_skip.bind fun _ => onward_exactly text

/-- A name has a character. -/
theorem reads_nameHere : Reads nameHere fun lo _ hi => lo < hi := by
  intro cursor a after read
  obtain ⟨here, _, got, read⟩ := run_bind read
  obtain ⟨rfl, rfl⟩ := run_get got
  split at read
  · rename_i chars leading
    have some_char : 0 < chars.length := by
      unfold leadingName? at leading
      split at leading
      · rename_i c _ _
        split at leading
        · rename_i starts
          injection leading with leading
          have goes_on : isNameChar c = true := by
            unfold isNameStart at starts
            unfold isNameChar Char.isAlphanum
            simp only [Bool.or_eq_true] at starts ⊢
            exact starts.imp .inl id
          rw [← leading, ‹cursor.rest = _›, List.takeWhile_cons_of_pos goes_on]
          exact Nat.succ_pos _
        · cases leading
      · cases leading
    have past := le_of_advance (onward_pure _) read
    omega
  · exact absurd read run_failure

theorem onward_nameHere : Onward nameHere :=
  fun cursor a after read => Nat.le_of_lt (reads_nameHere cursor a after read)

theorem reads_name : Reads name fun lo _ hi => lo < hi := by
  intro cursor a after read
  obtain ⟨_, middle, skipped, read⟩ := run_bind read
  exact Nat.lt_of_le_of_lt (onward_skip _ _ _ skipped) (reads_nameHere _ _ _ read)

theorem onward_name : Onward name :=
  fun cursor a after read => Nat.le_of_lt (reads_name cursor a after read)

theorem onward_report (fault : DocumentError) : Onward (report fault) := by
  intro cursor a after read
  obtain ⟨-, rfl⟩ : a = () ∧ { cursor with fault := cursor.fault.or (some fault) } = after := by
    simpa [report] using read
  exact Nat.le_refl _

theorem onward_blockText : Onward blockText := by
  refine (onward_token _).bind fun _ => onward_get fun here a after read => ?_
  split at read
  · exact Nat.le_of_add_right_le (le_of_advance (onward_pure _) read)
  · exact absurd read run_failure

theorem onward_quotedText : Onward quotedText := by
  refine (onward_token _).bind fun _ => onward_get fun here a after read => ?_
  split at read
  · exact Nat.le_of_add_right_le (le_of_advance (onward_pure _) read)
  · exact absurd read run_failure

theorem onward_number : Onward number := by
  refine onward_skip.bind fun _ => onward_get fun here a after read => ?_
  split at read
  · exact absurd read run_failure
  · rename_i numeral rest _
    split at read
    · exact absurd read run_failure
    · refine Nat.le_of_add_right_le (le_of_advance ?_ read)
      split
      · exact onward_pure _
      · exact (onward_report _).bind fun _ => onward_pure _

/-! ### Literals, arguments and directives -/

theorem onward_keyword {a : α} (text : String) :
    Onward (do token text; pure a : Reader α) :=
  (onward_token text).bind fun _ => onward_pure a

theorem onward_scalarLiteral : Onward scalarLiteral := by
  have text : Onward (blockText <|> quotedText) := onward_blockText.orElse onward_quotedText
  exact onward_number.map.orElse <| text.map.orElse <| (onward_keyword _).orElse <|
    (onward_keyword _).orElse <| (onward_keyword _).orElse onward_name.map

theorem onward_variableLiteral : Onward variableLiteral :=
  (onward_token _).bind fun _ => onward_name.bind fun _ => onward_pure _

theorem onward_literal (constant : Bool) : ∀ fuel, Onward (literal constant fuel) := by
  intro fuel
  induction fuel with
  | zero => exact reads_failure
  | succ fuel ih =>
      have outside : Onward (if constant then failure else variableLiteral) := by
        split
        · exact reads_failure
        · exact onward_variableLiteral
      have member : Onward (do
          let key ← name
          token ":"
          let value ← literal constant fuel
          pure (key, value)) :=
        onward_name.bind fun _ => (onward_token _).bind fun _ => ih.bind fun _ => onward_pure _
      refine outside.orElse <| onward_scalarLiteral.orElse <| Reads.orElse ?_ ?_
      · exact (onward_token _).bind fun _ => (onward_many ih).bind fun _ =>
          (onward_token _).bind fun _ => onward_pure _
      · exact (onward_token _).bind fun _ => (onward_many member).bind fun _ =>
          (onward_token _).bind fun _ => onward_pure _

theorem onward_anyLiteral (constant : Bool) : Onward (anyLiteral constant) :=
  onward_get fun _ _ _ read => onward_literal _ _ _ _ _ read

theorem onward_typeHere : ∀ fuel, Onward (typeHere fuel) := by
  intro fuel
  induction fuel with
  | zero => exact reads_failure
  | succ fuel ih =>
      refine Onward.bind (onward_nameHere.map.orElse ?_) fun base =>
        (onward_optional (onward_exactly _)).bind fun mark? => ?_
      · exact (onward_exactly _).bind fun _ => ih.bind fun _ =>
          (onward_exactly _).bind fun _ => onward_pure _
      · cases mark? <;> exact onward_pure _

theorem onward_arguments : Onward arguments := by
  have one : Onward (do
      let key ← name
      token ":"
      let value ← anyLiteral false
      pure (key, value)) :=
    onward_name.bind fun _ => (onward_token _).bind fun _ => (onward_anyLiteral _).bind fun _ =>
      onward_pure _
  exact (onward_token _).bind fun _ => (onward_oneOrMore one).bind fun _ =>
    (onward_token _).bind fun _ => onward_pure _

theorem onward_typeCondition : Onward typeCondition := by
  refine (onward_token _).bind fun _ => onward_get fun here a after read => ?_
  dsimp only at read
  split at read
  · obtain ⟨_, _, read, -⟩ := run_bind read
    exact absurd read run_failure
  · exact Nat.le_of_add_right_le (le_of_advance onward_nameHere read)

/-- The offset of a directive is that of its at sign. -/
theorem reads_directive : Reads directive fun lo directive hi =>
    lo ≤ directive.offset ∧ directive.offset < hi := by
  intro cursor a after read
  obtain ⟨_, start, skipped, read⟩ := run_bind read
  obtain ⟨_, _, got, read⟩ := run_bind read
  obtain ⟨rfl, rfl⟩ := run_get got
  obtain ⟨_, behind, sign, read⟩ := run_bind read
  obtain ⟨_, _, named, read⟩ := run_bind read
  obtain ⟨_, _, pairs, read⟩ := run_bind read
  obtain ⟨rfl, rfl⟩ := run_pure read
  have to_sign := onward_skip _ _ _ skipped
  have past_sign : behind.offset = start.offset + 1 := reads_exactly _ _ _ _ sign
  have past_name := onward_name _ _ _ named
  have past_pairs := onward_optional onward_arguments _ _ _ pairs
  refine ⟨to_sign, ?_⟩
  show start.offset < _
  omega

end GraphExec.Document
