import GraphExec.Proofs.Loading.Feeds
import GraphExec.Proofs.Loading.Line
import GraphExec.Resolved
import GraphExec.Run.State
import Mathlib.Order.RelClasses

/-!
# How waits come to an end

A lazy is a tree of finite depth, though it may branch without bound, and a poll leaves a part of
it. While the key that it waits for is not known, the fetch of the key gets on instead. What a lazy
answers may be a lazy again, but such a chain is itself part of the first of them, and ends. A
refused value ends it too if the application replaces it by something that is written as it is.
-/

namespace GraphExec

variable {σ α : Type}

/-! ### Parts of lazies -/

/-- What a lazy goes on as when it has done the first thing that it is to do. -/
inductive Lazy.Part : Lazy σ α → Lazy σ α → Prop
  | read {next : σ → Lazy σ α} (state : σ) : Part (next state) (.read next)
  | write {state : σ} {next : Lazy σ α} : Part next (.write state next)
  | useSource {id : SourceId} {source : BatchSource σ} {next : Lazy σ α} :
    Part next (.useSource id source next)
  | request {key : LoadKey σ} {next : Lazy σ α} : Part next (.request key next)
  | pause {next : Lazy σ α} : Part next (.pause next)
  | await {key : LoadKey σ} {next : LoadOutcome → Lazy σ α} (outcome : LoadOutcome) :
    Part (next outcome) (.await key next)

theorem Lazy.part_wellFounded : WellFounded (Part (σ := σ) (α := α)) := by
  refine ⟨fun lazy => ?_⟩
  induction lazy with
  | done answer => exact ⟨_, by intro _ part; cases part⟩
  | read next ih => exact ⟨_, by intro _ part; cases part with | read state => exact ih state⟩
  | write state next ih => exact ⟨_, by intro _ part; cases part; exact ih⟩
  | useSource id source next ih => exact ⟨_, by intro _ part; cases part; exact ih⟩
  | request key next ih => exact ⟨_, by intro _ part; cases part; exact ih⟩
  | pause next ih => exact ⟨_, by intro _ part; cases part; exact ih⟩
  | await key next ih =>
      exact ⟨_, by intro _ part; cases part with | await outcome => exact ih outcome⟩

/-- What is a part of a lazy, be it of a part of it. -/
abbrev Lazy.Within : Lazy σ α → Lazy σ α → Prop :=
  Relation.TransGen Part

theorem Lazy.Part.feeds {part lazy : Lazy σ α} (h : part.Part lazy) :
    ∃ fed, lazy.Feeds fed part := by
  cases h with
  | read state => exact ⟨_, .read state (.here _)⟩
  | write => exact ⟨_, .write (.here _)⟩
  | useSource => exact ⟨_, .useSource (.here _)⟩
  | request => exact ⟨_, .request (.here _)⟩
  | pause => exact ⟨_, .pause (.here _)⟩
  | await outcome => exact ⟨_, .await outcome (.here _)⟩

theorem Lazy.Within.feeds {part lazy : Lazy σ α} (within : part.Within lazy) :
    ∃ fed, lazy.Feeds fed part := by
  induction within with
  | single first => exact first.feeds
  | tail _ last ih =>
      obtain ⟨fed, one⟩ := last.feeds
      obtain ⟨more, two⟩ := ih
      exact ⟨fed ++ more, one.trans two⟩

/-! ### What is left of lazies -/

namespace Pending

/-- How far the key that is waited for has got with its fetch. -/
def progress? : Pending σ α → Option (FetchProgress σ)
  | start _ => none
  | waiting _ progress? _ => progress?

/-- How a lazy that has been polled gets on: a part of it is left, or the fetch of the key that it
waits for is called, or gets on. -/
inductive Later : Pending σ α → Pending σ α → Prop
  | further {rest pending : Pending σ α} (within : rest.lazy.Within pending.lazy) :
    Later rest pending
  | called {rest pending : Pending σ α} {progress : FetchProgress σ}
      (same : rest.lazy = pending.lazy) (before : pending.progress? = none)
      (after : rest.progress? = some progress) : Later rest pending
  | fetching {rest pending : Pending σ α} {progress left : FetchProgress σ}
      (same : rest.lazy = pending.lazy) (before : pending.progress? = some progress)
      (after : rest.progress? = some left) (later : left.Later progress) : Later rest pending

theorem Later.feeds {rest pending : Pending σ α} (later : rest.Later pending) :
    ∃ fed, pending.lazy.Feeds fed rest.lazy := by
  cases later with
  | further within => exact within.feeds
  | called same _ _ => exact ⟨[], same ▸ .here _⟩
  | fetching same _ _ _ => exact ⟨[], same ▸ .here _⟩

/-- Something that is left of a lazy gets on finitely often. -/
theorem later_wellFounded : WellFounded (Later (σ := σ) (α := α)) := by
  have of_lazy (lazy : Lazy σ α) : ∀ pending : Pending σ α, pending.lazy = lazy →
      Acc Later pending := by
    induction Lazy.part_wellFounded.transGen.apply lazy with
    | intro lazy _ smaller =>
      -- First those for whose key a fetch has been called, by how far it has got.
      have fetching (progress : FetchProgress σ) : ∀ pending : Pending σ α,
          pending.lazy = lazy → pending.progress? = some progress → Acc Later pending := by
        induction FetchProgress.later_wellFounded.apply progress with
        | intro progress _ ih =>
          intro pending here going
          refine ⟨_, fun rest later => ?_⟩
          cases later with
          | further within => exact smaller _ (here ▸ within) rest rfl
          | called _ before _ => cases going.symm.trans before
          | fetching same before after later =>
              obtain rfl := Option.some.inj (going.symm.trans before)
              exact ih _ later rest (same.trans here) after
      intro pending here
      cases going : pending.progress? with
      | some progress => exact fetching progress pending here going
      | none =>
          refine ⟨_, fun rest later => ?_⟩
          cases later with
          | further within => exact smaller _ (here ▸ within) rest rfl
          | called same _ after => exact fetching _ rest (same.trans here) after
          | fetching _ before _ _ => cases going.symm.trans before
  exact ⟨fun pending => of_lazy _ pending rfl⟩

end Pending

namespace Wait

/-- How a wait gets on by its own kind. -/
inductive Later : Wait σ → Wait σ → Prop
  | value {rest pending : Pending σ (FieldResult σ)} (later : rest.Later pending) :
    Later (.value rest) (.value pending)
  | type {rest pending : Pending σ (Except ResolverError String)} (later : rest.Later pending) :
    Later (.type rest) (.type pending)
  | authorization {rest pending : Pending σ (Except ResolverError Bool)}
      (later : rest.Later pending) : Later (.authorization rest) (.authorization pending)
  | directive {rest pending : Pending σ (Except ResolverError DirectiveFlow)}
      (later : rest.Later pending) : Later (.directive rest) (.directive pending)

/-- A wait gets on finitely often. -/
theorem later_wellFounded : WellFounded (Later (σ := σ)) := by
  refine ⟨fun wait => ?_⟩
  cases wait with
  | value rest | type rest | authorization rest | directive rest =>
      induction Pending.later_wellFounded.apply rest with
      | intro rest _ ih => exact ⟨_, by intro _ later; cases later; exact ih _ ‹_›⟩
  | arguments key => exact ⟨_, by intro _ later; cases later⟩

/-- What somebody who waits may be resumed with, when the bags of its run have come to a store. -/
def Brings (store : ArgumentStore σ) : Wait σ → Resumption σ → Prop
  | .value rest, .value result => ∃ fed, rest.lazy.Feeds fed (.done result)
  | .type rest, .type result => ∃ fed, rest.lazy.Feeds fed (.done result)
  | .authorization rest, .authorization result => ∃ fed, rest.lazy.Feeds fed (.done result)
  | .directive rest, .directive result => ∃ fed, rest.lazy.Feeds fed (.done result)
  | .arguments key, .arguments result => store.get? key = some (.ready result)
  | _, _ => False

/-- What somebody is resumed with who has waited for a while could have been foreseen. -/
theorem Later.brings {store : ArgumentStore σ} {rest wait : Wait σ} {resumption : Resumption σ}
    (later : rest.Later wait) (brings : rest.Brings store resumption) :
    wait.Brings store resumption := by
  cases later <;> rename_i later <;> obtain ⟨fed, one⟩ := later.feeds <;> cases resumption <;>
    first
    | exact absurd brings id
    | exact ⟨_, one.trans brings.choose_spec⟩

end Wait

/-! ### Chains of results -/

/-- Whether a value is written as it is, whatever the type of its position: a null, an error, a mark
for a position to leave out, or raw output. -/
def ResolvedValue.isFinal : ResolvedValue σ → Bool
  | .value .null => true
  | .error _ => true
  | .skip => true
  | .raw _ => true
  | _ => false

/-- Which result a position may come to next: what a lazy answers, or what replaces a refusal. -/
inductive FieldResult.Follows : FieldResult σ → FieldResult σ → Prop
  | answered {lazy : Lazy σ (FieldResult σ)} {fed : Feed σ} {result : FieldResult σ}
      (feeds : lazy.Feeds fed (.done result)) : Follows result (.ok (.lazy lazy))
  | replaced {refusal : UnauthorizedError} {value : ResolvedValue σ} (final : value.isFinal = true) :
    Follows (.ok value) (.ok (.unauthorized refusal))

mutual

/-- A chain that begins with a value ends. -/
theorem ResolvedValue.chain_ends : ∀ value : ResolvedValue σ, Acc FieldResult.Follows (.ok value)
  | .lazy lazy => ⟨_, by intro _ follows; cases follows with
      | answered feeds => exact Lazy.chain_ends lazy feeds⟩
  | .unauthorized refusal => ⟨_, by
      intro _ follows
      cases follows with
      | replaced final => exact ⟨_, by intro _ follows; cases follows <;> cases final⟩⟩
  | .value _ => ⟨_, by intro _ follows; cases follows⟩
  | .object _ => ⟨_, by intro _ follows; cases follows⟩
  | .list _ => ⟨_, by intro _ follows; cases follows⟩
  | .error _ => ⟨_, by intro _ follows; cases follows⟩
  | .skip => ⟨_, by intro _ follows; cases follows⟩
  | .raw _ => ⟨_, by intro _ follows; cases follows⟩

/-- A chain that begins with what a lazy answers ends. -/
theorem Lazy.chain_ends : ∀ (lazy : Lazy σ (Except ResolverError (ResolvedValue σ))) {fed : Feed σ}
    {result : FieldResult σ}, lazy.Feeds fed (.done result) → Acc FieldResult.Follows result
  | .done answer, _, _, feeds => by cases feeds; exact FieldResult.chain_ends answer
  | .read next, _, _, feeds => by
      cases feeds with | read state after => exact Lazy.chain_ends (next state) after
  | .write _ next, _, _, feeds => by
      cases feeds with | write after => exact Lazy.chain_ends next after
  | .useSource _ _ next, _, _, feeds => by
      cases feeds with | useSource after => exact Lazy.chain_ends next after
  | .request _ next, _, _, feeds => by
      cases feeds with | request after => exact Lazy.chain_ends next after
  | .pause next, _, _, feeds => by
      cases feeds with | pause after => exact Lazy.chain_ends next after
  | .await _ next, _, _, feeds => by
      cases feeds with | await outcome after => exact Lazy.chain_ends (next outcome) after

theorem FieldResult.chain_ends :
    ∀ result : Except ResolverError (ResolvedValue σ), Acc FieldResult.Follows result
  | .ok value => ResolvedValue.chain_ends value
  | .error _ => ⟨_, by intro _ follows; cases follows⟩

end

end GraphExec
