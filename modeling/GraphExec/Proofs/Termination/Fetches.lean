import GraphExec.Proofs.Run.Attended
import GraphExec.Proofs.Termination.Polls
import Mathlib.Logic.Hydra

/-!
# How fetches for a bucket come to an end

The fetches that are made for a bucket are polled round after round. A fetch that is not served is
left as it is, and so is what surrounds it; but nobody else is served meanwhile, so in each round a
fetch gets on.
-/

namespace GraphExec

variable {σ : Type}

namespace World

/-- A fetch for a bucket has been begun, or has got on. -/
inductive FlushLater : Flush σ → Flush σ → Prop
  | begun (id : SourceId) (progress : FetchProgress σ) : FlushLater (id, some progress) (id, none)
  | goesOn {id : SourceId} {before after : FetchProgress σ} (later : after.Later before) :
    FlushLater (id, some after) (id, some before)

theorem flushLater_wellFounded : WellFounded (FlushLater (σ := σ)) := by
  have going (id : SourceId) (progress : FetchProgress σ) : Acc FlushLater (id, some progress) := by
    induction FetchProgress.later_wellFounded.apply progress with
    | intro progress _ ih =>
        refine ⟨_, fun flush later => ?_⟩
        cases later with
        | goesOn later => exact ih _ later
  refine ⟨fun flush => ?_⟩
  obtain ⟨id, progress?⟩ := flush
  cases progress? with
  | some progress => exact going id progress
  | none =>
      refine ⟨_, fun flush later => ?_⟩
      cases later with
      | begun id progress => exact going id progress

/-- Less is left of some fetches than of others. -/
def LessLeft (after before : List (Flush σ)) : Prop :=
  Relation.TransGen (Relation.CutExpand FlushLater) (after : Multiset (Flush σ)) before

theorem lessLeft_wellFounded : WellFounded (LessLeft (σ := σ)) :=
  InvImage.wf _ flushLater_wellFounded.cutExpand.transGen

theorem LessLeft.behind {after before : List (Flush σ)} (front : List (Flush σ))
    (less : LessLeft after before) : LessLeft (front ++ after) (front ++ before) := by
  unfold LessLeft at less ⊢
  rw [← Multiset.coe_add, ← Multiset.coe_add]
  exact less.lift ((front : Multiset (Flush σ)) + ·) fun _ _ cut =>
    (Relation.cutExpand_add_left _).mpr cut

/-- A fetch is replaced by others that have got on. -/
theorem lessLeft_of_later {flush : Flush σ} {fresh : List (Flush σ)}
    (later : ∀ other ∈ fresh, FlushLater other flush) (rest : List (Flush σ)) :
    LessLeft (fresh ++ rest) (flush :: rest) := by
  unfold LessLeft
  rw [← Multiset.coe_add, ← Multiset.cons_coe, ← Multiset.singleton_add]
  exact .single ((Relation.cutExpand_add_right _).mpr (Relation.cutExpand_singleton later))

/-- A fetch waits for its turn at a source. -/
def Queues (world : World σ) (flush : Flush σ) : Prop :=
  ∃ ticket, flush.2 = some (.queued ticket) ∧ world.isServed flush.1 ticket = false

/-- A poll of a fetch ends it or gets on with it, unless the fetch waits for its turn: then nothing
changes. -/
theorem pollFlush_cases (flush : Flush σ) (world : World σ) :
    (pollFlush flush world).1 = .ready () ∨
      (∃ progress, (pollFlush flush world).1 = .pending progress ∧
        FlushLater (flush.1, some progress) flush) ∨
      ∃ progress, flush.2 = some progress ∧ world.Queues flush ∧
        pollFlush flush world = (.pending progress, world) := by
  obtain ⟨id, progress?⟩ := flush
  cases progress? with
  | none =>
      cases begun : (pollFlush (id, none) world).1 with
      | ready answer => exact .inl rfl
      | pending progress => exact .inr (.inl ⟨progress, rfl, .begun id progress⟩)
  | some progress =>
      cases resumed : (pollFlush (id, some progress) world).1 with
      | ready answer => exact .inl rfl
      | pending left =>
          by_cases serves : world.Serves id progress
          · exact .inr (.inl ⟨left, rfl, .goesOn (later_resumeFetch serves resumed)⟩)
          · simp only [Serves, not_forall, Bool.not_eq_true] at serves
            obtain ⟨ticket, rfl, waits⟩ := serves
            cases found : world.source? id with
            | none => simp [pollFlush, resumeFetch, found] at resumed
            | some state =>
                exact .inr (.inr ⟨_, rfl, ⟨ticket, rfl, waits⟩, resumeFetch_of_queued found waits⟩)

/-- A round of polls leaves less of fetches, unless all of them wait for their turn. -/
theorem pollFlushes_gets_on (flushes : List (Flush σ)) : ∀ world : World σ,
    LessLeft (pollFlushes flushes world).1 flushes ∨
      pollFlushes flushes world = (flushes, world) ∧ ∀ flush ∈ flushes, world.Queues flush := by
  induction flushes with
  | nil => exact fun world => .inr ⟨rfl, fun _ mem => absurd mem List.not_mem_nil⟩
  | cons flush rest ih =>
      intro world
      have goes_on (fresh : List (Flush σ)) (later : ∀ other ∈ fresh, FlushLater other flush)
          (after : World σ) : LessLeft (fresh ++ (pollFlushes rest after).1) (flush :: rest) := by
        have first : LessLeft (fresh ++ rest) (flush :: rest) := lessLeft_of_later later rest
        rcases ih after with less | ⟨same, -⟩
        · exact (less.behind fresh).trans first
        · rw [same]
          exact first
      rw [pollFlushes_cons]
      rcases pollFlush_cases flush world with
        ended | ⟨progress, left, later⟩ | ⟨progress, own, queues, same⟩
      · rw [ended]
        exact .inl (goes_on [] (fun _ mem => absurd mem List.not_mem_nil) _)
      · rw [left]
        refine .inl (goes_on [(flush.1, some progress)] (fun other mem => ?_) _)
        rw [List.mem_singleton.mp mem]
        exact later
      · have kept : (flush.1, some progress) = flush := by rw [← own]
        simp only [same, kept]
        rcases ih world with less | ⟨unchanged, all⟩
        · exact .inl (less.behind [flush])
        · rw [unchanged]
          exact .inr ⟨rfl, List.forall_mem_cons.mpr ⟨queues, all⟩⟩

end World

namespace Schedule

variable {schedule : Schedule σ}

/-- While nothing else has been polled, a round of polls leaves less of the fetches for a bucket. -/
theorem PolledFor.flushes_get_on (polled : schedule.PolledFor [])
    (tally : ∀ watched, ∃ book, Tally watched schedule.world (schedule.holds watched) book)
    (some_left : schedule.phase.flushes ≠ []) :
    World.LessLeft (World.pollFlushes schedule.phase.flushes schedule.world).1
      schedule.phase.flushes := by
  refine (World.pollFlushes_gets_on _ schedule.world).resolve_right ?_
  rintro ⟨-, queue⟩
  obtain ⟨flush, mem⟩ := List.exists_mem_of_ne_nil _ some_left
  obtain ⟨ticket, waits, -⟩ := queue flush mem
  obtain ⟨book, tally⟩ := tally flush.1
  have held : FetchProgress.queued ticket ∈ schedule.holds flush.1 := by
    rw [holds_eq]
    refine List.mem_filterMap.mpr ⟨.flush flush.1 flush.2, ?_, ?_⟩
    · exact List.mem_append_left _ (List.mem_append_left _ (List.mem_map.mpr ⟨flush, mem, rfl⟩))
    · rw [waits]
      exact if_pos rfl
  -- Somebody is served, and it is one of the fetches.
  obtain ⟨-, progress, among, serves⟩ := tally.served held
  rw [holds_eq] at among
  obtain ⟨future, there, holds⟩ := List.mem_filterMap.mp among
  obtain ⟨other, mem', rfl⟩ | ⟨parked, mem', -⟩ := polled.drives there holds
  · obtain ⟨ticket', waits', unserved⟩ := queue other mem'
    rw [waits'] at holds
    change (if other.1 = flush.1 then some (FetchProgress.queued ticket') else none) = _ at holds
    split at holds
    · rename_i same
      obtain rfl := Option.some.inj holds
      rw [same, serves ticket' rfl] at unserved
      cases unserved
    · cases holds
  · exact absurd mem' List.not_mem_nil

end Schedule

end GraphExec
