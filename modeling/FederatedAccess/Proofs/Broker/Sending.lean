import FederatedAccess.Proofs.Broker.Ledger

/-!
# Every request is prepared

Only a call that goes on to an exchange sends, and what it sends is the request that the exchanger
has prepared. So every request in a journal, also that of a call that is cancelled later, is one of
the exchanger (`Posting`).
-/

namespace FederatedAccess

/-- If an occurrence sends a request, an exchanger has prepared it. -/
def Occurrence.Prepared (x : Exchanger) : Occurrence → Prop
  | .sent assertion scope request => x.prepare assertion scope = .ok request
  | _ => True

/-- The request that an occurrence sends. -/
def Occurrence.request? : Occurrence → Option TokenRequest
  | .sent _ _ request => some request
  | _ => none

namespace Broker

/-- An exchanger has prepared all that a broker has sent and prepares what it will send. -/
structure Posting (x : Exchanger) (b : Broker) : Prop where
  exchanger : b.exchanger = x
  journal : ∀ y ∈ b.journal, y.what.Prepared x

namespace Posting

variable {x : Exchanger} {b b' w : Broker} {c : Call} {e : Event} {p : Phase} {id : CallId}
  {log : List Occurrence}

theorem make (config : Config) (x : Exchanger) (clock : Instant) : Posting x (make config x clock) :=
  ⟨rfl, by simp [Broker.make]⟩

/-- Nothing else of a broker matters. -/
theorem of_eq (h : Posting x b) (exchanger : w.exchanger = b.exchanger)
    (journal : w.journal = b.journal) : Posting x w :=
  ⟨exchanger.trans h.exchanger, journal ▸ h.journal⟩

/-- It is enough to look at what is entered. -/
theorem adds (h : Posting x b) (exchanger : w.exchanger = b.exchanger)
    (journal : w.journal = b.journal ++ log.map (b.entry id)) (prepared : ∀ o ∈ log, o.Prepared x) :
    Posting x w := by
  refine ⟨exchanger.trans h.exchanger, fun y hy => ?_⟩
  rw [journal] at hy
  rcases List.mem_append.mp hy with hy | hy
  · exact h.journal y hy
  · obtain ⟨o, ho, rfl⟩ := List.mem_map.mp hy
    exact prepared o ho

theorem logged (h : Posting x b) (hl : Logged b id log w) (prepared : ∀ o ∈ log, o.Prepared x) :
    Posting x w :=
  h.adds hl.exchanger hl.journal prepared

/-! ### What sends nothing -/

theorem recordRead (h : Posting x b) (id : CallId) (r : Except Failure String) :
    Posting x (b.recordRead id r) := by
  have ended : Posting x ((b.note id (.readEnded r)).count .readAssertion (.ofExcept r)) :=
    h.logged ((logged_note b id rfl).trans (logged_count _ id _ _)) (by simp [Occurrence.Prepared])
  unfold Broker.recordRead
  dsimp only
  split
  · exact ended.logged (logged_note _ id rfl) (by simp [Occurrence.Prepared])
  · exact ended

theorem recordReply (h : Posting x b) (id : CallId) (reply : Reply)
    (asked : Option Classification.Context) : Posting x (b.recordReply id reply asked) := by
  have answered : Posting x (b.note id (.answered reply)) :=
    h.logged (logged_note b id rfl) (by simp [Occurrence.Prepared])
  cases asked with
  | none => exact answered
  | some context => exact answered.logged (logged_note _ id rfl) (by simp [Occurrence.Prepared])

theorem recordExchange (h : Posting x b) (id : CallId) (r : Except Failure AccessToken) :
    Posting x (b.recordExchange id r) :=
  h.logged (logged_recordExchange b id r) (by simp [Occurrence.Prepared])

theorem beginExchange (h : Posting x b) (c : Call) : Posting x (b.beginExchange c) :=
  h.logged (logged_beginExchange b c) (by simp [Occurrence.Prepared])

theorem visited {r : Except Failure Assertion} (h : Posting x b) (v : Visited b c e r w) :
    Posting x w := by
  cases v with
  | fresh => exact h.of_eq rfl rfl
  | read => exact (h.recordRead c.id _).of_eq rfl rfl
  | late => exact (h.recordRead c.id _).of_eq rfl rfl

theorem refreshed {r : Except Failure AccessToken} (h : Posting x b) (d : Refreshed b c e r w) :
    Posting x w := by
  cases d with
  | unserved => exact h.of_eq rfl rfl
  | cutOff => exact h.logged (logged_note b c.id rfl) (by simp [Occurrence.Prepared])
  | unread _ v => exact h.visited v
  | unsent _ v => exact ((h.visited v).beginExchange c).recordExchange c.id _
  | granted =>
      exact ((h.recordReply c.id _ _).recordExchange c.id _).logged (logged_store _ c.id _)
        (by simp [Occurrence.Prepared])
  | refused => exact (h.recordReply c.id _ _).recordExchange c.id _

theorem closing {r : Except Failure AccessToken} (h : Posting x b) (d : Closing b c e r w) :
    Posting x w := by
  cases d with
  | joins => exact h.logged (logged_recordJoin b c.id r) (by simp [Occurrence.Prepared])
  | hits =>
      exact h.logged ((logged_note b c.id (o := .boarded c.slot) rfl).trans
        (logged_recordHit _ c.id _)) (by simp [Occurrence.Prepared])
  | lapses => exact h
  | unpublished d => exact h.refreshed d
  | published d => exact (h.refreshed d).logged (logged_publish _ c r) (by simp [Occurrence.Prepared])

/-! ### What sends -/

/-- A call that goes on sends nothing but what has been prepared. -/
theorem going (h : Posting x b) (g : Going b c e p w) : Posting x w := by
  cases g with
  | boards =>
      exact h.logged ((logged_note b c.id (o := .boarded c.slot) rfl).trans
        (logged_visit _ c.id .first)) (by simp [Occurrence.Prepared])
  | sends _ v prepared =>
      -- the request is the one of the state before the visit, whose exchanger is the same
      rw [h.exchanger] at prepared
      exact ((h.visited v).beginExchange c).logged (logged_note _ c.id rfl)
        (by simpa [Occurrence.Prepared] using prepared)
  | @rereads _ _ _ f =>
      exact ((h.recordReply c.id _ _).recordExchange c.id _).logged
        ((logged_note _ c.id (o := .rejected f) rfl).trans (logged_visit _ c.id .second))
        (by simp [Occurrence.Prepared])

/-- Every move keeps to what has been prepared. -/
theorem move (h : Posting x b) (m : Move b e b') : Posting x b' := by
  cases m with
  | idle => exact h
  | refuses => exact h.logged (logged_refused b _ _ _) (by simp [Occurrence.Prepared])
  | serves => exact h.logged (logged_served b _ _ _) (by simp [Occurrence.Prepared])
  | queues => exact h.adds rfl (journal_queue b _ _) (by simp [opening, Occurrence.Prepared])
  | reads => exact h.logged (logged_reads b _ _) (by simp [Occurrence.Prepared])
  | goes _ g => exact (h.going g).of_eq rfl rfl
  | ends _ d =>
      exact ((h.closing d).logged (logged_report _ _ _) (by simp [Occurrence.Prepared])).of_eq rfl rfl
  | @cancels c =>
      have journal : (b.note c.id .cancelled).journal =
          b.journal ++ [Occurrence.cancelled].map (b.entry c.id) := rfl
      exact h.adds rfl journal (by simp [Occurrence.Prepared])
  | _ => exact h.of_eq rfl rfl

end Posting

/-- Every request that any call of a run has sent is the one that the exchanger prepared. -/
theorem prepare_of_sent {b : Broker} {x : Exchanger} (h : Posting x b) {events : List Event}
    {id : CallId} {assertion : Secret} {scope : ScopeSet} {request : TokenRequest}
    (sent : .sent assertion scope request ∈ (b.run events).history id) :
    x.prepare assertion scope = .ok request := by
  obtain ⟨y, hy, -, hsent⟩ := mem_historyOf.mp sent
  have prepared := (run_keeps (P := Posting x) (fun _ _ _ => Posting.move) h events).journal y hy
  rwa [hsent] at prepared

end Broker

end FederatedAccess
