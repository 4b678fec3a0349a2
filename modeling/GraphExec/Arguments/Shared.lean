import GraphExec.Arguments.Coercion

/-!
# Shared bags of arguments

The arguments written at a node of the document are the same for every object that the node is
resolved for, unless one of them loads an object. They are coerced once, and whoever needs them
shares the bag. While it is waited for, each waiter may drive it forward.
-/

namespace GraphExec

/-- What a bag of arguments depends on. -/
structure ArgumentKey where
  /-- The offset of the node that the arguments are written at. -/
  offset : Nat
  /-- Whose arguments they are. -/
  owner : ArgumentOwner
  /-- The object at hand, if one of the arguments loads an object. -/
  parent? : Option Identity
deriving DecidableEq, Repr

/-- A key, given the definitions of the arguments and the object at hand. -/
def ArgumentKey.new {σ : Type} (offset : Nat) (owner : ArgumentOwner)
    (definitions : Fields (InputDefinition σ)) (parent : Identity) : ArgumentKey :=
  ⟨offset, owner, if definitions.values.any (·.isLoading) then some parent else none⟩

/-- A bag of arguments that has been started. -/
inductive SharedArguments (σ : Type) where
  /-- It is there, or failed. -/
  | ready (result : ArgumentsResult)
  /-- It is waited for. -/
  | pending (rest : Pending σ ArgumentsResult)

/-- The bags of arguments of a run. -/
abbrev ArgumentStore (σ : Type) := List (ArgumentKey × SharedArguments σ)

namespace ArgumentStore

variable {σ : Type}

/-- The bag under a key. -/
def get? : ArgumentStore σ → ArgumentKey → Option (SharedArguments σ)
  | [], _ => none
  | (k, bag) :: rest, key => if k = key then some bag else get? rest key

/-- Puts a bag under a key. -/
def insert : ArgumentStore σ → ArgumentKey → SharedArguments σ → ArgumentStore σ
  | [], key, bag => [(key, bag)]
  | (k, b) :: rest, key, bag =>
    if k = key then (k, bag) :: rest else (k, b) :: insert rest key bag

end ArgumentStore

/-- The bag that a coercion starts. -/
def SharedArguments.ofCoercion {σ : Type} : Coercion σ → SharedArguments σ
  | .ready result => .ready result
  | .pending lazy => .pending (.start lazy)

/-- The result, if it is there. -/
def SharedArguments.result? {σ : Type} : SharedArguments σ → Option ArgumentsResult
  | .ready result => some result
  | .pending _ => none

/-- Drives a bag forward. -/
def SharedArguments.poll {σ : Type} : SharedArguments σ → StateM (World σ) (SharedArguments σ)
  | .ready result => pure (.ready result)
  | .pending rest => do
    match ← rest.poll with
    | .ready result => return .ready result
    | .pending rest => return .pending rest

end GraphExec
