import GraphExec.Proofs.Run.Consultations
import GraphExec.Proofs.Run.Weave

/-!
# The bags of arguments of a run

A run is followed with all that has to do with its store of bags: the transitions, each with its
consultations, and the answers that waiting steps are given. The first consultation under a key
starts a coercion, and no other one does. The bag is driven forward by whoever waits for it until
its result is there, and that is what everybody is given.
-/

namespace GraphExec

variable {σ : Type} {job : Job σ}

/-! ### Bags -/

/-- What becomes of a bag by polls. -/
inductive SharedArguments.Becomes (first : SharedArguments σ) : SharedArguments σ → Prop
  | refl : Becomes first first
  | poll {bag : SharedArguments σ} (becomes : Becomes first bag) (world : World σ) :
      Becomes first (bag.poll.run world).1

namespace SharedArguments

variable {first second third : SharedArguments σ}

theorem Becomes.trans (one : first.Becomes second) (two : second.Becomes third) :
    first.Becomes third := by
  induction two with
  | refl => exact one
  | poll _ world ih => exact .poll ih world

/-- A bag that is there stays as it is. -/
theorem Becomes.of_ready {result : ArgumentsResult} {bag : SharedArguments σ}
    (becomes : (SharedArguments.ready result).Becomes bag) : bag = .ready result := by
  induction becomes with
  | refl => rfl
  | poll _ world ih =>
      rw [ih]
      rfl

theorem eq_ready_of_result? {result : ArgumentsResult} {bag : SharedArguments σ}
    (there : bag.result? = some result) : bag = .ready result := by
  cases bag with
  | ready other =>
      injection there with there
      exact there ▸ rfl
  | pending rest => cases there

end SharedArguments

/-- The bags of one store have become those of another. -/
def ArgumentStore.Becomes (before after : ArgumentStore σ) : Prop :=
  ∀ key bag, before.get? key = some bag → ∃ bag', after.get? key = some bag' ∧ bag.Becomes bag'

namespace ArgumentStore

variable {before middle after store : ArgumentStore σ}

theorem Becomes.refl (store : ArgumentStore σ) : store.Becomes store :=
  fun _ bag there => ⟨bag, there, .refl⟩

theorem Becomes.trans (one : before.Becomes middle) (two : middle.Becomes after) :
    before.Becomes after := by
  intro key bag there
  obtain ⟨bag', there', becomes⟩ := one key bag there
  obtain ⟨bag'', there'', becomes'⟩ := two key bag' there'
  exact ⟨bag'', there'', becomes.trans becomes'⟩

theorem Becomes.start {key : ArgumentKey} (fresh : store.get? key = none)
    (bag : SharedArguments σ) : store.Becomes (store.insert key bag) := by
  intro other old there
  refine ⟨old, ?_, .refl⟩
  rw [get?_insert, if_neg]
  · exact there
  · rintro rfl
    cases fresh.symm.trans there

theorem Becomes.drive {key : ArgumentKey} {bag : SharedArguments σ}
    (there : store.get? key = some bag) (world : World σ) :
    store.Becomes (store.insert key (bag.poll.run world).1) := by
  intro other old found
  rw [get?_insert]
  by_cases same : key = other
  · subst same
    rw [there] at found
    injection found with found
    subst found
    exact ⟨_, if_pos rfl, .poll .refl world⟩
  · exact ⟨old, by rw [if_neg same]; exact found, .refl⟩

end ArgumentStore

/-- The result that a consultation finds, under its key. -/
def Consultation.given? (c : Consultation σ) : Option (ArgumentKey × ArgumentsResult) :=
  c.found.map fun result => (c.inquiry.key, result)

/-! ### What holds of a store -/

/-- A store of bags that has come about by consultations, and what requesters have been given. -/
structure Sharing (job : Job σ) (cs : List (Consultation σ))
    (given : List (ArgumentKey × ArgumentsResult)) (store : ArgumentStore σ) : Prop where
  /-- What has been asked for is in the store. -/
  kept : ∀ c ∈ cs, ∃ bag, store.get? c.inquiry.key = some bag
  /-- What is in the store has come of a coercion that a consultation has started. -/
  begun : ∀ key bag, store.get? key = some bag →
    ∃ c ∈ cs, c.inquiry.key = key ∧ c.Starts ∧ (c.bag job).Becomes bag
  /-- After a consultation no other one under its key starts a coercion. -/
  once : cs.Pairwise fun earlier later =>
    earlier.inquiry.key = later.inquiry.key → ¬ later.Starts
  /-- What requesters have been given is what is in the store. -/
  same : ∀ key result, (key, result) ∈ given → store.get? key = some (.ready result)
  /-- Whatever has come to a result has been given to somebody. -/
  told : ∀ key result, store.get? key = some (.ready result) → (key, result) ∈ given

namespace Sharing

variable {cs ds : List (Consultation σ)} {given : List (ArgumentKey × ArgumentsResult)}
  {store : ArgumentStore σ}

theorem nil (job : Job σ) : Sharing job [] [] ([] : ArgumentStore σ) where
  kept _ mem := absurd mem List.not_mem_nil
  begun key bag there := by cases there
  once := .nil
  same _ _ mem := absurd mem List.not_mem_nil
  told key result there := by cases there

/-- A bag that is driven forward comes of the same coercion. If it comes to a result, this is given
to somebody. -/
theorem drive (sharing : Sharing job cs given store) {key : ArgumentKey}
    {bag : SharedArguments σ} (there : store.get? key = some bag) (world : World σ)
    {more : List (ArgumentKey × ArgumentsResult)}
    (fine : ∀ entry ∈ more, entry.1 = key ∧ (bag.poll.run world).1 = .ready entry.2)
    (told : ∀ result, (bag.poll.run world).1 = .ready result → (key, result) ∈ given ++ more) :
    Sharing job cs (given ++ more) (store.insert key (bag.poll.run world).1) := by
  have becomes := ArgumentStore.Becomes.drive there world
  refine ⟨fun c mem => ?_, fun other old found => ?_, sharing.once, fun other result mem => ?_,
    fun other result found => ?_⟩
  · obtain ⟨old, found⟩ := sharing.kept c mem
    obtain ⟨new, found', -⟩ := becomes _ _ found
    exact ⟨new, found'⟩
  · rw [ArgumentStore.get?_insert] at found
    split at found
    · rename_i is_key
      obtain ⟨c, mem, key', starts, came⟩ := sharing.begun key bag there
      injection found with found
      exact ⟨c, mem, key'.trans is_key, starts, found ▸ .poll came world⟩
    · exact sharing.begun other old found
  · rcases List.mem_append.mp mem with mem | mem
    · obtain ⟨new, found, became⟩ := becomes _ _ (sharing.same other result mem)
      rw [found, became.of_ready]
    · obtain ⟨same, came⟩ := fine _ mem
      rw [ArgumentStore.get?_insert, if_pos same.symm, came]
  · rw [ArgumentStore.get?_insert] at found
    split at found
    · rename_i is_key
      injection found with found
      exact is_key ▸ told result found
    · exact List.mem_append_left _ (sharing.told other result found)

/-- A requester is given what it has been given so far, or what the last consultation finds. -/
theorem mem_given_concat {c : Consultation σ} {key : ArgumentKey} {result : ArgumentsResult}
    (mem : (key, result) ∈ given ++ c.given?.toList) :
    (key, result) ∈ given ∨ c.inquiry.key = key ∧ c.found = some result := by
  refine (List.mem_append.mp mem).imp id fun mem => ?_
  obtain ⟨other, found, same⟩ := Option.map_eq_some_iff.mp (Option.mem_toList.mp mem)
  injection same with key_eq result_eq
  exact ⟨key_eq, result_eq ▸ found⟩

/-- One more consultation starts no coercion under a key that has been asked for. -/
theorem once_concat (sharing : Sharing job cs given store) {c : Consultation σ}
    (idle : (∃ bag, store.get? c.inquiry.key = some bag) → ¬ c.Starts) :
    (cs ++ [c]).Pairwise fun earlier later =>
      earlier.inquiry.key = later.inquiry.key → ¬ later.Starts := by
  refine List.pairwise_append.mpr ⟨sharing.once, List.pairwise_singleton _ _, ?_⟩
  intro earlier mem later mem' same
  obtain rfl := List.mem_singleton.mp mem'
  exact idle (same ▸ sharing.kept earlier mem)

/-- A consultation that finds a bag is given its result, if it has come to one. -/
theorem hit (sharing : Sharing job cs given store) {c : Consultation σ} {bag : SharedArguments σ}
    (there : store.get? c.inquiry.key = some bag) (starts_none : ¬ c.Starts)
    (found : c.found = bag.result?) :
    Sharing job (cs ++ [c]) (given ++ c.given?.toList) store where
  kept d mem := by
    rcases List.mem_append.mp mem with mem | mem
    · exact sharing.kept d mem
    · exact List.mem_singleton.mp mem ▸ ⟨bag, there⟩
  begun key other there' := by
    obtain ⟨d, mem, rest⟩ := sharing.begun key other there'
    exact ⟨d, List.mem_append_left _ mem, rest⟩
  once := sharing.once_concat fun _ => starts_none
  same key result mem := by
    rcases mem_given_concat mem with mem | ⟨rfl, found'⟩
    · exact sharing.same key result mem
    · rw [there, SharedArguments.eq_ready_of_result? (found.symm.trans found')]
  told key result there' := List.mem_append_left _ (sharing.told key result there')

/-- A consultation that finds nothing starts the bag that others find. -/
theorem miss (sharing : Sharing job cs given store) {c : Consultation σ}
    (fresh : store.get? c.inquiry.key = none) (starts : c.Starts)
    (found : c.found = (c.bag job).result?) :
    Sharing job (cs ++ [c]) (given ++ c.given?.toList)
      (store.insert c.inquiry.key (c.bag job)) where
  kept d mem := by
    rcases List.mem_append.mp mem with mem | mem
    · obtain ⟨old, found⟩ := sharing.kept d mem
      obtain ⟨new, found', -⟩ := ArgumentStore.Becomes.start fresh (c.bag job) _ _ found
      exact ⟨new, found'⟩
    · exact List.mem_singleton.mp mem ▸ ⟨_, (ArgumentStore.get?_insert ..).trans (if_pos rfl)⟩
  begun key bag there := by
    rw [ArgumentStore.get?_insert] at there
    split at there
    · rename_i is_key
      injection there with same
      exact ⟨c, List.mem_append_right _ (List.mem_singleton_self c), is_key, starts, same ▸ .refl⟩
    · obtain ⟨d, mem, rest⟩ := sharing.begun key bag there
      exact ⟨d, List.mem_append_left _ mem, rest⟩
  once := sharing.once_concat fun ⟨_, held⟩ => by cases fresh.symm.trans held
  same key result mem := by
    rcases mem_given_concat mem with mem | ⟨rfl, found'⟩
    · obtain ⟨new, found'', became⟩ :=
        ArgumentStore.Becomes.start fresh (c.bag job) _ _ (sharing.same key result mem)
      rw [found'', became.of_ready]
    · rw [ArgumentStore.get?_insert, if_pos rfl,
        SharedArguments.eq_ready_of_result? (found.symm.trans found')]
  told key result there := by
    rw [ArgumentStore.get?_insert] at there
    split at there
    · rename_i is_key
      injection there with is_bag
      refine List.mem_append_right _ (Option.mem_toList.mpr ?_)
      unfold Consultation.given?
      rw [found, is_bag, ← is_key]
      rfl
    · exact List.mem_append_left _ (sharing.told key result there)

/-- A consultation starts what is not there, and nothing else. -/
theorem consult (sharing : Sharing job cs given store) {c : Consultation σ}
    (before : c.before.run.arguments = store) (made : c.Made job) :
    Sharing job (cs ++ [c]) (given ++ c.given?.toList) c.after.run.arguments := by
  subst before
  cases there : c.before.run.arguments.get? c.inquiry.key with
  | some bag =>
      obtain ⟨found, after⟩ := made.hit there
      rw [after]
      exact sharing.hit there (fun starts => by cases there.symm.trans starts) found
  | none =>
      obtain ⟨found, after⟩ := made.miss there
      rw [after]
      exact sharing.miss there there found

/-- Consultations in a row. -/
theorem consulted {s t : Stage σ} (consulted : Consulted job s ds t) :
    ∀ {cs : List (Consultation σ)} {given : List (ArgumentKey × ArgumentsResult)},
      Sharing job cs given s.run.arguments →
      Sharing job (cs ++ ds) (given ++ ds.filterMap (·.given?)) t.run.arguments := by
  induction consulted with
  | nil same =>
      intro cs given sharing
      have same : _ = _ := same
      simpa [same] using sharing
  | @cons s t c rest same made _ ih =>
      intro cs given sharing
      have after := ih (sharing.consult same made)
      rw [List.append_assoc, List.append_assoc] at after
      have split : c.given?.toList ++ rest.filterMap (·.given?) =
          (c :: rest).filterMap (·.given?) := by
        rw [List.filterMap_cons]
        cases c.given? <;> rfl
      rwa [split] at after

end Sharing

namespace Wait

/-- A poll leaves the store, or drives a bag forward; the answer is then the result of the bag. -/
theorem poll_bags (s : Stage σ) (wait : Wait σ) :
    (wait.poll s).2.run.arguments = s.run.arguments ∨ ∃ key bag,
      wait = .arguments key ∧ s.run.arguments.get? key = some bag ∧
        (wait.poll s).2.run.arguments = s.run.arguments.insert key (bag.poll.run s.world).1 ∧
        ((∃ result, (bag.poll.run s.world).1 = .ready result ∧
            (wait.poll s).1 = .ready (.arguments result)) ∨
          (∀ result, (bag.poll.run s.world).1 ≠ .ready result) ∧ (wait.poll s).1 = .pending wait) := by
  have by_kind : ∀ {α : Type} (rest : Pending σ α) (answer : α → Resumption σ)
      (wait : Pending σ α → Wait σ),
      (pollBy rest answer wait s).2.run.arguments = s.run.arguments := by
    intro α rest answer wait
    unfold pollBy
    split <;> rfl
  cases wait with
  | value rest => exact .inl (by_kind rest _ _)
  | type rest => exact .inl (by_kind rest _ _)
  | authorization rest => exact .inl (by_kind rest _ _)
  | directive rest => exact .inl (by_kind rest _ _)
  | arguments key =>
      cases there : s.run.arguments.get? key with
      | none => exact .inl (by simp only [poll, pollBag, there])
      | some bag =>
          refine .inr ⟨key, bag, rfl, there, ?_⟩
          simp only [poll, pollBag, there]
          rcases bag.poll.run s.world with ⟨bag, world⟩
          cases bag with
          | ready result => exact ⟨rfl, .inl ⟨result, rfl, rfl⟩⟩
          | pending rest => exact ⟨rfl, .inr ⟨(by intro _ same; cases same), rfl⟩⟩

/-- A poll of a bag that is answered is answered its result. -/
theorem poll_answered {key : ArgumentKey} {s t : Stage σ} {resumption : Resumption σ}
    (polled : (Wait.arguments key).poll s = (.ready resumption, t)) :
    ∃ bag result, resumption = .arguments result ∧ s.run.arguments.get? key = some bag ∧
      (bag.poll.run s.world).1 = .ready result ∧
      t.run.arguments = s.run.arguments.insert key (bag.poll.run s.world).1 := by
  cases there : s.run.arguments.get? key with
  | none =>
      have polled : pollBag key s = _ := polled
      unfold pollBag at polled
      rw [there] at polled
      cases polled
  | some bag =>
      have polled : pollBag key s = _ := polled
      unfold pollBag at polled
      rw [there] at polled
      simp only at polled
      rcases driven : bag.poll.run s.world with ⟨bag' | bag', world⟩
      · rw [driven] at polled
        injection polled with answer after
        injection answer with answer
        exact ⟨bag, bag', answer.symm, rfl, by rw [driven], by rw [driven, ← after]⟩
      · rw [driven] at polled
        cases polled

/-- What is left of another wait is not for a bag. -/
theorem poll_pending_arguments {wait : Wait σ} {key : ArgumentKey} {s t : Stage σ}
    (polled : wait.poll s = (.pending (.arguments key), t)) : wait = .arguments key := by
  have by_kind : ∀ {α : Type} (rest : Pending σ α) (answer : α → Resumption σ)
      (wait : Pending σ α → Wait σ), (∀ rest, wait rest ≠ .arguments key) →
      pollBy rest answer wait s ≠ (.pending (.arguments key), t) := by
    intro α rest answer wait other polled
    unfold pollBy at polled
    split at polled
    · cases polled
    · injection polled with same
      injection same with same
      exact other _ same
  cases wait with
  | value rest => exact absurd polled (by_kind rest _ _ (by intro _ same; cases same))
  | type rest => exact absurd polled (by_kind rest _ _ (by intro _ same; cases same))
  | authorization rest => exact absurd polled (by_kind rest _ _ (by intro _ same; cases same))
  | directive rest => exact absurd polled (by_kind rest _ _ (by intro _ same; cases same))
  | arguments other =>
      have polled : pollBag other s = _ := polled
      unfold pollBag at polled
      cases there : s.run.arguments.get? other with
      | none =>
          rw [there] at polled
          injection polled with same
          injection same
      | some bag =>
          rw [there] at polled
          simp only at polled
          rcases driven : bag.poll.run s.world with ⟨bag' | bag', world⟩
          · rw [driven] at polled
            cases polled
          · rw [driven] at polled
            injection polled with same
            injection same

end Wait

namespace Consulted

/-- Consultations leave what is in the store as it is. -/
theorem keeps {s t : Stage σ} {cs : List (Consultation σ)} (consulted : Consulted job s cs t)
    {key : ArgumentKey} {bag : SharedArguments σ} (there : s.run.arguments.get? key = some bag) :
    t.run.arguments.get? key = some bag := by
  induction consulted with
  | nil same =>
      have same : _ = _ := same
      rw [same]
      exact there
  | @cons s t c rest same made _ ih =>
      have same : _ = _ := same
      refine ih ?_
      rw [← same] at there
      cases held : c.before.run.arguments.get? c.inquiry.key with
      | some other => exact (made.hit held).2 ▸ there
      | none =>
          rw [(made.miss held).2]
          refine (ArgumentStore.get?_insert _ _ _ _).trans ((if_neg fun same => ?_).trans there)
          cases (same ▸ held).symm.trans there

theorem becomes {s t : Stage σ} {cs : List (Consultation σ)} (consulted : Consulted job s cs t) :
    s.run.arguments.Becomes t.run.arguments :=
  fun _ bag there => ⟨bag, consulted.keeps there, .refl⟩

/-- What was asked for and had no result has a bag that is waited for. -/
theorem pending {s t : Stage σ} {cs : List (Consultation σ)} (consulted : Consulted job s cs t)
    {c : Consultation σ} (mem : c ∈ cs) (missing : c.found = none) :
    ∃ rest, t.run.arguments.get? c.inquiry.key = some (.pending rest) := by
  induction consulted with
  | nil same => cases mem
  | @cons s t d rest same made behind ih =>
      rcases List.mem_cons.mp mem with rfl | mem
      · have put : ∃ bag, c.after.run.arguments.get? c.inquiry.key = some bag ∧
            bag.result? = none := by
          cases held : c.before.run.arguments.get? c.inquiry.key with
          | some bag =>
              obtain ⟨found, after⟩ := made.hit held
              exact ⟨bag, after ▸ held, found.symm.trans missing⟩
          | none =>
              obtain ⟨found, after⟩ := made.miss held
              refine ⟨c.bag job, ?_, found.symm.trans missing⟩
              rw [after]
              exact (ArgumentStore.get?_insert _ _ _ _).trans (if_pos rfl)
        obtain ⟨bag, there, waits⟩ := put
        cases bag with
        | ready result => cases waits
        | pending left => exact ⟨left, behind.keeps there⟩
      · exact ih mem

end Consulted

/-! ### What happens in a run -/

/-- Something that has to do with the store of bags. -/
inductive BagEvent (σ : Type) where
  /-- A step goes on, and makes its consultations. -/
  | turn (step : Step σ) (consultations : List (Consultation σ)) (progress : Progress σ)
  /-- A step that waits for the bag under a key is given its result. -/
  | answer (step : Step σ) (key : ArgumentKey) (result : ArgumentsResult)

namespace BagEvent

def consultations : BagEvent σ → List (Consultation σ)
  | turn _ consultations _ => consultations
  | answer _ _ _ => []

/-- The results that requesters are given, each under its key. -/
def given : BagEvent σ → List (ArgumentKey × ArgumentsResult)
  | turn _ consultations _ => consultations.filterMap (·.given?)
  | answer _ key result => [(key, result)]

end BagEvent

namespace Weave

/-- A run has come about by moves of a kind, with all that has to do with its store of bags. -/
inductive Consults (job : Job σ) (seen : Sight σ → Prop) (first : Weave σ) :
    List (BagEvent σ) → Weave σ → Prop
  | refl : Consults job seen first [] first
  | advance {events : List (BagEvent σ)} {second : Weave σ} {step : Step σ}
      {ready : List (Step σ)} {cs : List (Consultation σ)} {progress : Progress σ} {s : Stage σ}
      (before : Consults job seen first events second)
      (picked : second.run.ready.Perm (step :: ready))
      (allowed : seen (.advanced step ⟨{ second.run with ready }, second.world⟩))
      (advanced : (step.advance job).Gives ⟨{ second.run with ready }, second.world⟩ progress s)
      (consults : step.Consults job ⟨{ second.run with ready }, second.world⟩ cs progress s) :
      Consults job seen first (events ++ [.turn step cs progress])
        (place { second with run := s.run, world := s.world } progress)
  | answer {events : List (BagEvent σ)} {second : Weave σ} {step : Step σ} {key : ArgumentKey}
      {result : ArgumentsResult} {others : List (Step σ × Wait σ)} {s : Stage σ}
      (before : Consults job seen first events second)
      (picked : second.asleep.Perm ((step, .arguments key) :: others))
      (allowed : seen (.polled (.arguments key) second.stage))
      (polled : (Wait.arguments key).poll second.stage = (.ready (.arguments result), s)) :
      Consults job seen first (events ++ [.answer step key result])
        { run := s.run, world := s.world, asleep := others
          called := (step, .arguments result) :: second.called }
  | aside {events : List (BagEvent σ)} {second last : Weave σ} {sight : Sight σ}
      (before : Consults job seen first events second) (allowed : seen sight)
      (move : Move job second sight last) (other : ∀ step s, sight ≠ .advanced step s)
      (unanswered : ∀ key s, sight = .polled (.arguments key) s → last.called = second.called) :
      Consults job seen first events last

/-- All consultations among what happens. -/
def consultations (events : List (BagEvent σ)) : List (Consultation σ) :=
  events.flatMap (·.consultations)

/-- All results that requesters are given. -/
def given (events : List (BagEvent σ)) : List (ArgumentKey × ArgumentsResult) :=
  events.flatMap (·.given)

variable {seen : Sight σ → Prop} {first second last : Weave σ} {events : List (BagEvent σ)}

theorem Consults.path (consults : Consults job seen first events last) :
    Path job seen first last := by
  induction consults with
  | refl => exact .refl _
  | advance _ picked allowed advanced _ ih => exact .step ih allowed (.advance picked advanced)
  | answer _ picked allowed polled ih => exact .step ih allowed (.answer picked polled)
  | aside _ allowed move _ _ ih => exact .step ih allowed move

/-- Every run has a record of what has to do with its store of bags. -/
theorem Path.consults (path : Path job seen first last) :
    ∃ events, Consults job seen first events last := by
  induction path with
  | refl => exact ⟨[], .refl⟩
  | @step second last sight path allowed move ih =>
      obtain ⟨events, before⟩ := ih
      cases move with
      | advance picked advanced =>
          obtain ⟨cs, consults⟩ := Step.advance_consults advanced
          exact ⟨_, .advance before picked allowed advanced consults⟩
      | release idle top none_parked =>
          exact ⟨events, .aside before allowed (.release idle top none_parked)
            (by intro _ _ same; cases same) (by intro _ _ same; cases same)⟩
      | wait picked polled =>
          exact ⟨events, .aside before allowed (.wait picked polled)
            (by intro _ _ same; cases same) (fun _ _ _ => rfl)⟩
      | @answer step wait resumption others s picked polled =>
          by_cases shared : ∃ key, wait = .arguments key
          · obtain ⟨key, rfl⟩ := shared
            obtain ⟨bag, result, rfl, -⟩ := Wait.poll_answered polled
            exact ⟨_, .answer before picked allowed polled⟩
          · refine ⟨events, .aside before allowed (.answer picked polled)
              (by intro _ _ same; cases same) fun key s same => ?_⟩
            injection same with same
            exact absurd ⟨key, same⟩ shared
      | resume picked resumes =>
          exact ⟨events, .aside before allowed (.resume picked resumes)
            (by intro _ _ same; cases same) (by intro _ _ same; cases same)⟩
      | change world =>
          exact ⟨events, .aside before allowed (.change world)
            (by intro _ _ same; cases same) (by intro _ _ same; cases same)⟩

theorem consultations_append (events : List (BagEvent σ)) (event : BagEvent σ) :
    consultations (events ++ [event]) = consultations events ++ event.consultations := by
  simp [consultations]

theorem given_append (events : List (BagEvent σ)) (event : BagEvent σ) :
    given (events ++ [event]) = given events ++ event.given := by
  simp [given]

theorem arguments_place (weave : Weave σ) (progress : Progress σ) :
    (weave.place progress).run.arguments = weave.run.arguments := by
  cases progress <;> rfl

/-- Whatever is not a transition of a step leaves the store, or drives a bag forward, which comes to a
result only if somebody who waits for it is answered. -/
theorem Move.bags {sight : Sight σ} (move : Move job first sight last)
    (other : ∀ step s, sight ≠ .advanced step s) :
    last.run.arguments = first.run.arguments ∨ ∃ key bag world,
      first.run.arguments.get? key = some bag ∧
        last.run.arguments = first.run.arguments.insert key (bag.poll.run world).1 ∧
        ((∀ result, (bag.poll.run world).1 ≠ .ready result) ∨
          ∃ s, sight = .polled (.arguments key) s ∧ last.called ≠ first.called) := by
  cases move with
  | advance picked advanced => exact absurd rfl (other _ _)
  | release idle top none_parked => exact .inl rfl
  | @wait step wait rest others s picked polled =>
      have bags := wait.poll_bags first.stage
      rw [polled] at bags
      rcases bags with same | ⟨key, bag, -, there, put, ⟨result, -, answer⟩ | ⟨waits, -⟩⟩
      · exact .inl same
      · cases answer
      · exact .inr ⟨key, bag, _, there, put, .inl waits⟩
  | @answer step wait resumption others s picked polled =>
      have bags := wait.poll_bags first.stage
      rw [polled] at bags
      rcases bags with same | ⟨key, bag, rfl, there, put, -⟩
      · exact .inl same
      · exact .inr ⟨key, bag, _, there, put, .inr ⟨_, rfl, List.cons_ne_self _ _⟩⟩
  | resume picked resumes => exact .inl rfl
  | change world => exact .inl rfl

/-- What holds of the store of a run, by all that has happened since it had none. -/
theorem Consults.sharing (consults : Consults job seen first events last)
    (none_yet : first.run.arguments = []) :
    Sharing job (consultations events) (given events) last.run.arguments := by
  induction consults with
  | refl => exact none_yet ▸ .nil job
  | @advance events second step ready cs progress s before picked allowed advanced consults ih =>
      rw [consultations_append, given_append, arguments_place]
      exact ih.consulted consults.consulted
  | @answer events second step key result others s before picked allowed polled ih =>
      rw [consultations_append, given_append]
      simp only [BagEvent.consultations, BagEvent.given, List.append_nil]
      obtain ⟨bag, result', same, there, became, put⟩ := Wait.poll_answered polled
      injection same with same
      subst same
      rw [put]
      refine ih.drive there second.world (fun entry mem => ?_) fun other came => ?_
      · obtain rfl := List.mem_singleton.mp mem
        exact ⟨rfl, became⟩
      · injection became.symm.trans came with same
        exact same ▸ List.mem_append_right _ (List.mem_singleton_self _)
  | aside before allowed move other unanswered ih =>
      rcases move.bags other with same | ⟨key, bag, world, there, put, waits | ⟨s, polled, answered⟩⟩
      · exact same ▸ ih
      · have driven := ih.drive there world (fun _ mem => absurd mem List.not_mem_nil)
          fun result came => absurd came (waits result)
        rw [List.append_nil] at driven
        exact put ▸ driven
      · exact absurd (unanswered key s polled) answered

theorem Move.becomes {sight : Sight σ} (move : Move job first sight last) :
    first.run.arguments.Becomes last.run.arguments := by
  by_cases other : ∀ step s, sight ≠ .advanced step s
  · rcases move.bags other with same | ⟨key, bag, world, there, put, -⟩
    · exact same ▸ .refl _
    · exact put ▸ .drive there world
  · cases move with
    | advance picked advanced =>
        obtain ⟨cs, consults⟩ := Step.advance_consults advanced
        rw [arguments_place]
        exact consults.consulted.becomes
    | _ => exact absurd (by intro _ _ same; cases same) other

/-- Whatever is in the store of a run stays there, and is only driven forward. -/
theorem Path.becomes (path : Path job seen first last) :
    first.run.arguments.Becomes last.run.arguments := by
  induction path with
  | refl => exact .refl _
  | step _ _ move ih => exact ih.trans move.becomes

/-! ### Who waits for a bag -/

/-- Something stands at the end of a list, or before the end. -/
theorem split_of_concat {α : Type} {list front back : List α} {last x : α}
    (split : list ++ [last] = front ++ x :: back) :
    (front = list ∧ x = last) ∨ ∃ back, list = front ++ x :: back := by
  rcases List.eq_nil_or_concat back with rfl | ⟨back, other, rfl⟩
  · obtain ⟨same, ends⟩ := List.append_inj' split rfl
    injection ends with ends
    exact .inl ⟨same.symm, ends.symm⟩
  · rw [List.concat_eq_append, ← List.cons_append, ← List.append_assoc] at split
    exact .inr ⟨back, (List.append_inj' split rfl).1⟩

/-- A step has been parked to wait for the bag under a key, when it had asked for it. -/
def Asked (events : List (BagEvent σ)) (step : Step σ) (key : ArgumentKey) : Prop :=
  ∃ asker cs depth, .turn asker cs (.parked step depth (.arguments key)) ∈ events ∧
    ∃ c ∈ cs, c.inquiry.key = key ∧ c.found = none

theorem Asked.append {step : Step σ} {key : ArgumentKey} (asked : Asked events step key)
    (more : List (BagEvent σ)) : Asked (events ++ more) step key := by
  obtain ⟨asker, cs, depth, mem, missing⟩ := asked
  exact ⟨asker, cs, depth, List.mem_append_left _ mem, missing⟩

/-- Whoever waits for a bag has asked for it, and whoever is given one. -/
structure AllAsked (events : List (BagEvent σ)) (weave : Weave σ) : Prop where
  asleep : ∀ step key, (step, .arguments key) ∈ weave.asleep → Asked events step key
  answered : ∀ front back step key result,
    events = front ++ .answer step key result :: back → Asked front step key

theorem AllAsked.turn {weave : Weave σ} (asked : AllAsked events weave) {step : Step σ}
    {cs : List (Consultation σ)} {progress : Progress σ} {s t : Stage σ}
    (consults : step.Consults job s cs progress t) (run : Run σ) (world : World σ) :
    AllAsked (events ++ [.turn step cs progress]) (place { weave with run, world } progress) := by
  refine ⟨fun other key mem => ?_, fun front back other key result split => ?_⟩
  · rcases asleep_place mem with mem | ⟨depth, rfl⟩
    · exact (asked.asleep other key mem).append _
    · exact ⟨step, cs, depth, List.mem_append_right _ (List.mem_singleton_self _),
        consults.parked⟩
  · rcases split_of_concat split with ⟨-, same⟩ | ⟨back, before⟩
    · cases same
    · exact asked.answered _ _ _ _ _ before

theorem AllAsked.answer {weave last : Weave σ} (asked : AllAsked events weave) {step : Step σ}
    {key : ArgumentKey} {others : List (Step σ × Wait σ)}
    (picked : weave.asleep.Perm ((step, .arguments key) :: others)) (result : ArgumentsResult)
    (left : last.asleep = others) : AllAsked (events ++ [.answer step key result]) last := by
  refine ⟨fun other key' mem => ?_, fun front back other key' result' split => ?_⟩
  · rw [left] at mem
    exact (asked.asleep other key' (picked.mem_iff.mpr (List.mem_cons_of_mem _ mem))).append _
  · rcases split_of_concat split with ⟨rfl, same⟩ | ⟨back, before⟩
    · injection same with same_step same_key
      subst same_step same_key
      exact asked.asleep _ _ (picked.mem_iff.mpr List.mem_cons_self)
    · exact asked.answered _ _ _ _ _ before

/-- Nobody begins to wait for a bag but by a transition of its own. -/
theorem Move.asleep {sight : Sight σ} (move : Move job first sight last)
    (other : ∀ step s, sight ≠ .advanced step s) {step : Step σ} {key : ArgumentKey}
    (mem : (step, .arguments key) ∈ last.asleep) : (step, .arguments key) ∈ first.asleep := by
  cases move with
  | advance picked advanced => exact absurd rfl (other _ _)
  | release idle top none_parked => exact mem
  | @wait waiting wait rest others s picked polled =>
      refine picked.mem_iff.mpr ?_
      rcases List.mem_cons.mp mem with same | mem
      · injection same with same_step same_wait
        subst same_step same_wait
        rw [Wait.poll_pending_arguments polled]
        exact List.mem_cons_self
      · exact List.mem_cons_of_mem _ mem
  | answer picked polled => exact picked.mem_iff.mpr (List.mem_cons_of_mem _ mem)
  | resume picked resumes => exact mem
  | change world => exact mem

theorem Consults.asked (consults : Consults job seen first events last)
    (none_yet : first.asleep = []) : AllAsked events last := by
  induction consults with
  | refl =>
      refine ⟨fun step key mem => ?_, fun front back step key result split => ?_⟩
      · rw [none_yet] at mem
        exact absurd mem List.not_mem_nil
      · cases front <;> cases split
  | advance before picked allowed advanced consults ih => exact ih.turn consults _ _
  | answer before picked allowed polled ih => exact ih.answer picked _ rfl
  | aside before allowed move other unanswered ih =>
      exact ⟨fun step key mem => ih.asleep step key (move.asleep other mem), ih.answered⟩

end Weave

end GraphExec
