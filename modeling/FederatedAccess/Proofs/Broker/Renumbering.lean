import FederatedAccess.Proofs.Broker.Move

/-!
# What a broker shows apart from its stores

Slots are numbered as they are stored, and a ticket counts what its slot has published. Where the
numbers of slots and tickets are struck out, and the stored tokens and slots with them, there
remains what happens to calls and when (`Broker.plain`). Each part of a step is the same whether
they are struck out before it or after it.
-/

namespace FederatedAccess

/-- A phase without the ticket. -/
def Phase.plain : Phase → Phase
  | .queued _ => .queued 0
  | p => p

/-- A call without its slot and ticket. -/
def Call.plain (c : Call) : Call := { c with slot := 0, phase := c.phase.plain }

/-- An occurrence without the number of a slot and the ticket. -/
def Occurrence.plain : Occurrence → Occurrence
  | .queued _ _ => .queued 0 0
  | .boarded _ => .boarded 0
  | .published _ outcome => .published 0 outcome
  | w => w

/-- An entry without the number of a slot and the ticket. -/
def Entry.plain (x : Entry) : Entry := { x with what := x.what.plain }

@[simp] theorem Phase.isQueued_plain (p : Phase) : p.plain.isQueued = p.isQueued := by
  cases p <;> rfl

theorem Phase.plain_eq_queued_iff {p : Phase} : p.plain = .queued 0 ↔ ∃ n, p = .queued n := by
  cases p <;> simp [plain]

/-- Of phases, only that of queueing has a ticket. -/
theorem Phase.plain_eq {p : Phase} (h : p.isQueued = false) : p.plain = p := by
  cases p with
  | queued n => cases h
  | _ => rfl

namespace Broker

/-- A broker without its stored tokens and slots, and without the numbers of slots and tickets. -/
def plain (b : Broker) : Broker :=
  { b with
    tokens := { b.tokens with entries := [] }
    slots := {}
    calls := b.calls.map Call.plain
    journal := b.journal.map Entry.plain }

variable {b : Broker} {c : Call}

@[simp] theorem plain_note (id : CallId) (what : Occurrence) :
    (b.note id what).plain = b.plain.note id what.plain := by
  simp only [note, plain, List.map_append]
  rfl

@[simp] theorem plain_count (operation : Operation) (outcome : Outcome) :
    (b.count operation outcome).plain = b.plain.count operation outcome := rfl

@[simp] theorem plain_measure (f : Metrics → Metrics) :
    (b.measure f).plain = b.plain.measure f := rfl

theorem call?_plain (id : CallId) : b.plain.call? id = (b.call? id).map Call.plain :=
  List.find?_map

@[simp] theorem plain_enter (id : CallId) (phase : Phase) :
    (b.enter id phase).plain = b.plain.enter id phase.plain := by
  simp only [enter, plain, List.map_map]
  congr 1
  apply List.map_congr_left
  intro c _
  change (if c.id = id then _ else c).plain = if c.id = id then _ else c.plain
  split <;> rfl

@[simp] theorem plain_forget (id : CallId) : (b.forget id).plain = b.plain.forget id := by
  simp only [forget, plain, List.filter_map]
  rfl

@[simp] theorem plain_report (id : CallId) (r : Except Failure AccessToken) :
    (b.report id r).plain = b.plain.report id r := by
  simp only [report, plain_measure, plain_count, plain_note]
  rfl

theorem plain_with_slots (slots : Slots) : { b with slots }.plain = b.plain := rfl

@[simp] theorem plain_finish (r : Except Failure AccessToken) :
    (b.finish c r).plain = (b.plain.report c.id r).forget c.id := by
  rw [finish, plain_forget, plain_report, plain_with_slots]

@[simp] theorem plain_publish (r : Except Failure AccessToken) :
    (b.publish c r).plain = b.plain.note c.id (.published 0 r) := by
  rw [publish, plain_note, plain_with_slots]
  rfl

@[simp] theorem plain_store (id : CallId) (t : AccessToken) :
    (b.store id t).plain = b.plain.note id (.stored t) := by
  rw [store, plain_note]
  rfl

theorem plain_joinQueue (id : CallId) (scope : ScopeSet) (deadline : Option Nat) :
    (b.joinQueue id scope deadline).plain =
      ({ b.plain with
        calls := b.plain.calls ++ [⟨id, scope, b.time, deadline, 0, .queued 0⟩] } : Broker).note id
          (.queued 0 0) := by
  rw [joinQueue, plain_note]
  simp only [plain, List.map_append]
  rfl

theorem plain_tick (time : Nat) : (b.tick time).plain = b.plain.tick time := by
  have hcalls : b.plain.calls.all (fun c => (lastWait c).all (time ≤ ·)) =
      b.calls.all fun c => (lastWait c).all (time ≤ ·) := List.all_map
  unfold tick
  rw [hcalls, apply_ite plain]
  rfl

end Broker

end FederatedAccess
