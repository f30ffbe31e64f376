import FederatedAccess.Proofs.Broker.Reached
import FederatedAccess.Proofs.Broker.Reckoning

/-!
# What has begun and what has ended

An operation that has begun is under way until it succeeds, fails or, if it is an exchange, is cut
off (`net`). In the history of a call no operation ends that has not begun, wherever the call stands
and even if it was cancelled (`Solvent`), and in that of a call that has ended nothing is left under
way.
-/

namespace FederatedAccess

namespace Occurrence

/-- Whether an operation begins (`1`), ends (`-1`), or does neither. -/
def delta : Operation → Occurrence → Int
  | .getToken, .started _ _ => 1
  | .getToken, .ended _ => -1
  | .readAssertion, .readBegun => 1
  | .readAssertion, .readEnded _ => -1
  | .exchange, .span .exchange _ => 1
  | .exchange, .exchanged _ => -1
  | .exchange, .cutOff => -1
  | _, _ => 0

/-- Whether an operation ends by being cut off. Only exchanges do. -/
def cutsOff : Operation → Occurrence → Bool
  | .exchange, .cutOff => true
  | _, _ => false

/-- Whether an occurrence counts as the beginning or the end of an operation says whether the
operation begins or ends, but for its being cut off. -/
theorem delta_add (operation : Operation) (o : Occurrence) :
    o.delta operation + (if o.countsAs operation .success then 1 else 0 : Nat) +
        (if o.countsAs operation .failure then 1 else 0 : Nat) +
        (if o.cutsOff operation then 1 else 0 : Nat) =
      (if o.countsAs operation .attempt then 1 else 0 : Nat) := by
  cases o with
  | span operation' => cases operation <;> cases operation' <;> rfl
  | ended r => cases operation <;> cases r <;> rfl
  | readEnded r => cases operation <;> cases r <;> rfl
  | exchanged r => cases operation <;> cases r <;> rfl
  | _ => cases operation <;> rfl

end Occurrence

/-- How often an operation has begun and not ended. -/
def net (operation : Operation) : List Occurrence → Int
  | [] => 0
  | o :: log => o.delta operation + net operation log

section Net

variable {operation : Operation} {log : List Occurrence}

@[simp] theorem net_nil : net operation [] = 0 := rfl

@[simp] theorem net_cons (o : Occurrence) :
    net operation (o :: log) = o.delta operation + net operation log := rfl

@[simp] theorem net_append (rest : List Occurrence) :
    net operation (log ++ rest) = net operation log + net operation rest := by
  induction log with
  | nil => exact (Int.zero_add _).symm
  | cons o log ih => rw [List.cons_append, net_cons, net_cons, ih, Int.add_assoc]

/-- Where nothing begins or ends. -/
theorem net_eq_zero (h : ∀ o ∈ log, o.delta operation = 0) : net operation log = 0 := by
  induction log with
  | nil => rfl
  | cons o rest ih =>
      rw [net_cons, h o List.mem_cons_self, ih fun o ho => h o (List.mem_cons_of_mem _ ho)]
      rfl

/-- What has begun has succeeded, has failed, was cut off or is under way. -/
theorem net_add (operation : Operation) (log : List Occurrence) :
    net operation log + log.countP (·.countsAs operation .success) +
        log.countP (·.countsAs operation .failure) + log.countP (·.cutsOff operation) =
      log.countP (·.countsAs operation .attempt) := by
  induction log with
  | nil => rfl
  | cons o rest ih =>
      have ho := o.delta_add operation
      simp only [net_cons, List.countP_cons]
      omega

end Net

namespace Broker

variable {x : Exchanger} {scope : ScopeSet} {a : Assertion} {round : Round} {c : Call}
  {log h : List Occurrence} {r : Except Failure AccessToken} {operation : Operation}

/-! ### The parts of a history -/

/-- Work is not about the call as a whole. -/
theorem IsWork.net_getToken (work : IsWork log) : net .getToken log = 0 := by
  apply net_eq_zero
  intro o ho
  have hw := work o ho
  cases o <;> first | rfl | cases hw

theorem Consulted.net_eq {g : Except Failure Assertion} (h : Consulted round log g) :
    net operation log = 0 := by
  cases h <;> cases operation <;> rfl

theorem Exchanged.net_eq (h : Exchanged x scope a log r) : net operation log = 0 := by
  cases h with
  | unsent => cases operation <;> rfl
  | cutOff => cases operation <;> rfl
  | @answered _ _ _ judgement => cases judgement.asked <;> cases operation <;> rfl

theorem Prior.net_eq (h : Prior x scope round log) : net operation log = 0 := by
  cases h with
  | first => rfl
  | second given exchange =>
      rw [net_append, net_append, given.net_eq, exchange.net_eq]
      cases operation <;> rfl

/-- Nothing is left under way when a refresh is over. -/
theorem Refreshing.net_eq (h : Refreshing x scope log r) : net operation log = 0 := by
  cases h with
  | unread none => exact none.net_eq
  | once given exchange =>
      rw [net_append, given.net_eq, exchange.net_eq]
      rfl
  | unreread given exchange refused none =>
      rw [List.append_cons, net_append, (Prior.second given exchange refused).net_eq, none.net_eq]
      rfl
  | @twice _ _ _ _ text now _ _ given exchange refused exchange' =>
      have reread : Consulted .second [.readBegun, .readEnded (.ok text)] (.ok ⟨⟨text⟩, now⟩) := .read
      rw [List.append_cons, net_append, (Prior.second given exchange refused).net_eq, net_append,
        reread.net_eq, exchange'.net_eq]
      rfl

/-- Where a call waits, at most the read or the exchange that it waits for is under way. -/
theorem Underway.net_nonneg {reading : Bool} (h : Underway x c reading log) :
    0 ≤ net operation log := by
  cases h with
  | waits _ _ prior => exact Int.le_of_eq prior.net_eq.symm
  | reads _ _ prior =>
      rw [net_append, prior.net_eq]
      cases operation <;> decide
  | @exchanges round a _ request _ _ _ prior given =>
      have hsent : 0 ≤ net operation
          [.span .exchange c.scope.key, .sent a.value c.scope request] := by
        cases operation <;> simp [Occurrence.delta]
      rw [net_append, net_append, prior.net_eq, given.net_eq]
      omega

theorem net_opening (c : Call) (n : Nat) :
    net operation (opening c n) = if operation = .getToken then 1 else 0 := by
  cases operation <;> rfl

theorem net_settled (r : Except Failure AccessToken) : net operation (settled r) = 0 := by
  cases r <;> cases operation <;> rfl

theorem net_announced (slot : SlotId) (r : Except Failure AccessToken) :
    net operation (announced slot r) = 0 := by
  unfold announced
  split <;> cases operation <;> rfl

/-! ### Whole histories -/

/-- A call that has not ended is under way itself. -/
theorem Living.net_getToken (hl : Living c h) : net .getToken h = 1 := by
  cases hl with
  | queued => rfl
  | aboard _ work =>
      rw [net_append, net_cons, work.net_getToken]
      rfl

theorem Farewell.net_getToken (h : Farewell c log r) : net .getToken log = 0 := by
  cases h with
  | joined => rfl
  | hit => rfl
  | lapsed => rfl
  | refreshed _ work =>
      rw [net_append, net_append, work.net_getToken, net_settled, net_announced]
      rfl

/-- A call is under way until it ends. -/
theorem Departed.net_getToken (hd : Departed h r) : net .getToken h = 1 := by
  cases hd with
  | refused => rfl
  | served => rfl
  | ended living farewell =>
      rw [net_append, living.net_getToken, farewell.net_getToken]
      rfl

/-- What a call has begun for itself has ended before the call does. -/
theorem Completed.net_eq (hc : Completed x h r) (own : operation ≠ .getToken) :
    net operation h = 0 := by
  cases hc with
  | @led c n log r refreshing =>
      have hboarded : (Occurrence.boarded c.slot).delta operation = 0 := by
        cases operation <;> rfl
      rw [net_append, net_cons, net_append, net_append, net_opening, if_neg own, hboarded,
        refreshing.net_eq, net_settled, net_announced]
      rfl
  | idle none =>
      have quiet (o : Occurrence) (ho : o ∈ h) : o.delta operation = 0 := by
        cases hw : o.isWork with
        | true =>
            obtain ⟨key, rfl⟩ := none o ho hw
            cases operation <;> rfl
        | false =>
            cases operation with
            | getToken => exact absurd rfl own
            | _ => cases o <;> first | rfl | cases hw
      exact net_eq_zero quiet

variable {b b' : Broker} {e : Event} {i : CallId}

/-- Nothing is left under way when a call has ended. -/
theorem Reached.net_of_ended (hb : b.Reached) (hr : .ended r ∈ b.history i) :
    net operation (b.history i) = 0 := by
  obtain ⟨pre, y, post, hj, rfl, hwhat, hwhole⟩ := hb.coherent.ledger.split_of_ended hr
  rw [hwhole, net_append]
  by_cases own : operation = .getToken
  · subst own
    rw [(hb.coherent.ledger.departed pre y post hj r hwhat).net_getToken]
    rfl
  · have hended : net operation [.ended r] = 0 := by
      cases operation with
      | getToken => exact absurd rfl own
      | _ => rfl
    rw [(hb.course.ended pre y post hj r hwhat).net_eq own, hended]
    rfl

/-- A call that has not ended has ended nothing that it has not begun. -/
theorem Reached.net_of_live (hb : b.Reached) (hc : c ∈ b.calls) :
    0 ≤ net operation (b.history c.id) := by
  cases hq : c.phase.isQueued with
  | true =>
      obtain ⟨n, -, hh⟩ := (hb.coherent.ledger.living c hc).of_queued hq
      rw [hh, net_opening]
      split <;> decide
  | false =>
      obtain ⟨n, log, hh, underway⟩ := hb.course.aboard c hc hq
      have hlog : 0 ≤ net operation log := underway.net_nonneg
      have hboarded : (Occurrence.boarded c.slot).delta operation = 0 := by
        cases operation <;> rfl
      rw [hh, net_append, net_cons, net_opening, hboarded]
      split <;> omega

/-! ### Every reachable state -/

/-- A step logs that a call is cancelled only if it cancels one, and then nothing else. -/
theorem Move.cancelled (m : Move b e b') : ∃ (id : CallId) (log : List Occurrence),
    b'.journal = b.journal ++ log.map (b.entry id) ∧
      (.cancelled ∉ log ∨ e = .cancel id ∧ log = [.cancelled]) := by
  have same : b.journal = b.journal ++ [].map (b.entry 0) := (List.append_nil _).symm
  cases m with
  | refuses => exact ⟨_, _, (logged_refused b _ _ _).journal, .inl (by simp)⟩
  | serves => exact ⟨_, _, (logged_served b _ _ _).journal, .inl (by simp)⟩
  | queues => exact ⟨_, _, journal_queue b _ _, .inl (by simp [opening])⟩
  | reads => exact ⟨_, [.readBegun], rfl, .inl (by simp)⟩
  | goes _ going =>
      rcases going.logged.2 with ⟨-, hl⟩ | ⟨-, log, work, hl⟩
      · exact ⟨_, _, hl.journal, .inl (by simp)⟩
      · exact ⟨_, _, hl.journal, .inl (work.not_mem rfl)⟩
  | @ends c e r w _ closing =>
      obtain ⟨log, farewell, hl, -⟩ := closing.logged
      refine ⟨_, _, hl.journal_finish _, .inl ?_⟩
      cases farewell with
      | joined => simp
      | hit => simp
      | lapsed => simp
      | refreshed _ work => simp [work.not_mem (o := .cancelled) rfl]
  | @cancels c => exact ⟨c.id, [.cancelled], rfl, .inr ⟨rfl, rfl⟩⟩
  | _ => exact ⟨0, [], same, .inl (by simp)⟩

/-- Where nobody is told to cancel, nobody is cancelled. -/
theorem not_cancelled_of_events {events : List Event} (none : ∀ i, .cancel i ∉ events)
    (h : ∀ i, .cancelled ∉ b.history i) (i : CallId) : .cancelled ∉ (b.run events).history i := by
  induction events generalizing b with
  | nil => exact h i
  | cons e rest ih =>
      refine ih (fun i hi => none i (List.mem_cons_of_mem _ hi)) fun i => ?_
      obtain ⟨id, log, hj, hlog⟩ := (move_step b e).cancelled
      rw [history_of_journal hj, List.mem_append, not_or]
      refine ⟨h i, ?_⟩
      split
      · exact hlog.resolve_right fun hcancel => none id (hcancel.1 ▸ List.mem_cons_self)
      · simp

/-- No call has ended more than it has begun. -/
def Solvent (b : Broker) : Prop := ∀ operation i, 0 ≤ net operation (b.history i)

theorem Solvent.make (config : Config) (x : Exchanger) (clock : Instant) :
    Solvent (make config x clock) :=
  fun _ _ => Int.le_refl 0

/-- Every move keeps calls from ending more than they have begun. -/
theorem Solvent.move (h : b.Solvent) (reached' : b'.Reached) (m : Move b e b') : b'.Solvent := by
  intro operation i
  have ledger' := reached'.coherent.ledger
  by_cases hnew : b'.nextCall ≤ i
  · rw [ledger'.fresh i hnew]
    exact Int.le_refl 0
  by_cases hlive : ∃ c ∈ b'.calls, c.id = i
  · obtain ⟨c, hc, rfl⟩ := hlive
    exact reached'.net_of_live hc
  · have hgone := ledger'.gone i (Nat.lt_of_not_le hnew) fun c hc he => hlive ⟨c, hc, he⟩
    rcases hgone.exit with ⟨r, hr⟩ | hcancelled
    · exact Int.le_of_eq (reached'.net_of_ended hr).symm
    · -- a call that is cancelled leaves under way what it has begun, and nothing follows
      obtain ⟨id, log, hj, hlog⟩ := m.cancelled
      have hhist := history_of_journal hj i
      have hnet : net operation (b'.history i) = net operation (b.history i) := by
        by_cases hbefore : .cancelled ∈ b.history i
        · rw [ledger'.eq_of_exit (m.history i) rfl hbefore]
        · have hmem : .cancelled ∈ if i = id then log else [] := by
            rw [hhist, List.mem_append] at hcancelled
            exact hcancelled.resolve_left hbefore
          split at hmem
          · rcases hlog with hlog | ⟨-, rfl⟩
            · exact absurd hmem hlog
            · rw [hhist, if_pos ‹_›, net_append]
              cases operation <;> exact Int.add_zero _
          · cases hmem
      rw [hnet]
      exact h operation i

theorem Solvent.run (h : b.Solvent) (reached : b.Reached) (events : List Event) :
    (b.run events).Solvent := by
  have both : (b.run events).Reached ∧ (b.run events).Solvent :=
    run_keeps (P := fun w => w.Reached ∧ w.Solvent)
      (fun _ _ _ hw m => ⟨hw.1.move m, hw.2.move (hw.1.move m) m⟩) ⟨reached, h⟩ events
  exact both.2

end Broker

end FederatedAccess
