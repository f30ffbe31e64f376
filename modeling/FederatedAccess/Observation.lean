/-!
# Observations

What operators see of the work: how often each operation was entered and how it ended, and a few
totals for each broker.
-/

namespace FederatedAccess

/-- The operations that are observed. -/
inductive Operation
  | getToken
  | readAssertion
  | exchange
deriving DecidableEq, Repr

namespace Operation

/-- The operations in order. -/
def all : List Operation := [.getToken, .readAssertion, .exchange]

/-- The label of an operation. -/
def label : Operation → String
  | .getToken => "get_token"
  | .readAssertion => "read_assertion"
  | .exchange => "exchange"

end Operation

/-- What is counted of an operation. -/
inductive Outcome
  | attempt
  | cacheHit
  | coalesced
  | success
  | failure
deriving DecidableEq, Repr

namespace Outcome

/-- The outcomes in order. -/
def all : List Outcome := [.attempt, .cacheHit, .coalesced, .success, .failure]

/-- The label of an outcome. -/
def label : Outcome → String
  | .attempt => "attempt"
  | .cacheHit => "cache_hit"
  | .coalesced => "coalesced"
  | .success => "success"
  | .failure => "failure"

/-- The outcome of an operation that has ended. -/
def ofExcept {ε α : Type} : Except ε α → Outcome
  | .ok _ => .success
  | .error _ => .failure

end Outcome

/-- A count for each operation and outcome. -/
structure Tally where
  count : Operation → Outcome → Nat

namespace Tally

/-- Nothing counted. -/
def zero : Tally := ⟨fun _ _ => 0⟩

/-- Counts one more. -/
def add (t : Tally) (operation : Operation) (outcome : Outcome) : Tally :=
  ⟨fun o c => if o = operation ∧ c = outcome then t.count o c + 1 else t.count o c⟩

/-- The counts that are not zero, with their labels. -/
def entries (t : Tally) : List (String × Nat) :=
  (Operation.all.flatMap fun o => Outcome.all.map fun c =>
    (o.label ++ "/" ++ c.label, t.count o c)).filter fun e => e.2 ≠ 0

@[simp] theorem count_zero (o : Operation) (c : Outcome) : zero.count o c = 0 := rfl

theorem count_add (t : Tally) (operation : Operation) (outcome : Outcome) (o : Operation)
    (c : Outcome) :
    (t.add operation outcome).count o c =
      t.count o c + if o = operation ∧ c = outcome then 1 else 0 := by
  simp only [add]
  split <;> rfl

end Tally

/-- The totals of a broker. -/
structure Metrics where
  requests : Nat := 0
  cacheHits : Nat := 0
  coalesced : Nat := 0
  exchanges : Nat := 0
  assertionReads : Nat := 0
  failures : Nat := 0
deriving DecidableEq, Repr

end FederatedAccess
