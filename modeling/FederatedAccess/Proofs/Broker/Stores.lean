import FederatedAccess.Proofs.Grant
import FederatedAccess.Proofs.Broker.Actor
import FederatedAccess.Proofs.Broker.Landing

/-!
# What a call does to the stores

A step of a call changes the stored assertion only when it ends a read with a text (`Deposits`), and
the stored tokens only when it ends the refresh of the call with a token (`Settles`).
-/

namespace FederatedAccess.Broker

variable {b b' w v : Broker} {c : Call} {e : Event} {p : Phase} {id : CallId}
  {log : List Occurrence}

/-- What a step adds to the history of a call. -/
def added (b b' : Broker) (id : CallId) : List Occurrence :=
  (b'.history id).drop (b.history id).length

theorem added_eq (journal : b'.journal = b.journal ++ log.map (b.entry id)) :
    added b b' id = log := by
  rw [added, history_of_journal journal, if_pos rfl, List.drop_left]

theorem added_eq_nil (journal : b'.journal = b.journal) : added b b' id = [] := by
  rw [added, history, history, journal, List.drop_length]

/-! ### The stored assertion -/

/-- What a step of a call does to the stored assertion: nothing, unless it ends a read with a text,
which is stored then. -/
inductive Deposits (b : Broker) (id : CallId) (e : Event) (w : Broker) : Prop
  | none (stored : w.cache.stored = b.cache.stored)
  | read {text now log} (event : e = .readDone id (.ok text))
      (stored : w.cache.stored = some ⟨⟨text⟩, now⟩) (logged : Logged b id log w)
      (read : .readEnded (.ok text) ∈ log) : Deposits b id e w

/-- What a call does besides leaves the stored assertion alone. -/
theorem Deposits.trans (h : Deposits b id e w) (hl : Logged w id log v)
    (cache : v.cache = w.cache) : Deposits b id e v := by
  cases h with
  | none stored => exact .none (cache ▸ stored)
  | read event stored logged read =>
      exact .read event (cache ▸ stored) (logged.trans hl) (List.mem_append_left _ read)

theorem Visited.deposits {r : Except Failure Assertion} (h : Visited b c e r w) :
    Deposits b c.id e w := by
  cases h with
  | fresh _ served =>
      obtain ⟨-, -, -, -, -, -, stored, -⟩ := AssertionCache.of_proceed_eq_ends served
      exact .none stored
  | @read cache r result _ served =>
      obtain ⟨u, -, -, finished⟩ := AssertionCache.of_finish_eq_ends served
      cases hr : result with
      | error f =>
          rw [hr] at finished
          generalize hstored : cache.stored = stored at finished
          cases finished with
          | stale => exact .none hstored
          | failed => exact .none hstored
      | ok text =>
          rw [hr] at finished
          generalize hstored : cache.stored = stored at finished
          cases finished with
          | read =>
              have hl : Logged b c.id [.readEnded (.ok text)] (b.recordRead c.id (.ok text)) :=
                (logged_note b c.id rfl).trans (logged_count _ c.id _ _)
              exact .read rfl hstored (hl.trans (logged_cache _ c.id cache)) (by simp)
  | @late cache _ _ _ served =>
      obtain ⟨u, -, -, finished⟩ := AssertionCache.of_finish_eq_ends served
      generalize hstored : cache.stored = stored at finished
      cases finished with
      | stale => exact .none hstored
      | failed => exact .none hstored

theorem Going.deposits (h : Going b c e p w) : Deposits b c.id e w := by
  cases h with
  | boards => exact .none rfl
  | @sends _ _ _ w _ _ visited =>
      exact visited.deposits.trans ((logged_beginExchange w c).trans (logged_note _ c.id rfl)) rfl
  | rereads =>
      refine .none ?_
      simp only [visit, note, recordExchange, count, cache_recordReply,
        AssertionCache.stored_arrive]

theorem Refreshed.deposits {r : Except Failure AccessToken} (h : Refreshed b c e r w) :
    Deposits b c.id e w := by
  cases h with
  | unserved => exact .none rfl
  | cutOff => exact .none rfl
  | unread _ visited => exact visited.deposits
  | @unsent _ _ _ f w _ visited =>
      exact visited.deposits.trans
        ((logged_beginExchange w c).trans (logged_recordExchange _ c.id (.error f))) rfl
  | granted => exact .none (congrArg AssertionCache.stored (cache_recordReply b _ _ _))
  | refused => exact .none (congrArg AssertionCache.stored (cache_recordReply b _ _ _))

theorem Closing.deposits {r : Except Failure AccessToken} (h : Closing b c e r w) :
    Deposits b c.id e w := by
  cases h with
  | joins => exact .none rfl
  | hits => exact .none rfl
  | lapses => exact .none rfl
  | unpublished refreshed => exact refreshed.deposits
  | published refreshed => exact refreshed.deposits.trans (logged_publish _ c r) rfl

/-- A step of a call changes the stored assertion only when it ends a read with a text. -/
theorem Move.deposits (m : Move b e b') (actor : e.actor? b = some id) :
    b'.cache.stored = b.cache.stored ∨ ∃ text now, e = .readDone id (.ok text) ∧
      .readEnded (.ok text) ∈ added b b' id ∧ b'.cache.stored = some ⟨⟨text⟩, now⟩ := by
  cases m with
  | idle => exact .inl rfl
  | refuses => exact .inl (by rw [cache_report, cache_admitCall])
  | serves => exact .inl (by rw [cache_report, cache_recordHit, cache_admitCall])
  | queues => exact .inl rfl
  | reads _ _ _ served =>
      obtain ⟨-, -, -, -, rfl⟩ := AssertionCache.of_proceed_eq_begins served
      exact .inl rfl
  | @goes c e p w _ going =>
      obtain rfl := Option.some.inj (going.actor?_eq.symm.trans actor)
      cases going.deposits with
      | none stored => exact .inl stored
      | read event stored logged read =>
          have journal : (w.enter c.id p).journal = _ := logged.journal
          rw [added_eq journal]
          exact .inr ⟨_, _, event, read, stored⟩
  | @ends c e r w _ closing =>
      obtain rfl := Option.some.inj (closing.actor?_eq.symm.trans actor)
      cases closing.deposits with
      | none stored => exact .inl stored
      | read event stored logged read =>
          rw [added_eq (logged.journal_finish r)]
          exact .inr ⟨_, _, event, List.mem_append_left _ read, stored⟩
  | cancels => exact .inl rfl
  | overtakes => exact .inl rfl
  | overtakesVisit => exact .inl (AssertionCache.stored_overtake _ _)
  | invalidates => cases actor
  | purges => cases actor
  | sets => cases actor
  | ticks => cases actor

/-! ### The stored tokens -/

/-- What a step of a call does to the stored tokens: nothing, unless it ends the refresh of the call
with a token, which is stored then. -/
inductive Settles (b b' : Broker) (id : CallId) : Prop
  | none (tokens : b'.tokens = b.tokens)
      (unled : ∀ t, .ended (.ok t) ∈ added b b' id →
        ∀ slot, .boarded slot ∈ b'.history id → ∃ u, .hit u ∈ b'.history id)
  | stores {c t} (live : c ∈ b.calls) (own : c.id = id) (scope : t.scope = c.scope)
      (tokens : b'.tokens = b.tokens.put t)
      (ended : ∀ r, .ended r ∈ added b b' id ↔ r = .ok t)

namespace Settles

/-- A step in which a call does not end. -/
theorem of_stays (tokens : b'.tokens = b.tokens)
    (stays : ∀ r, .ended r ∉ added b b' id) : Settles b b' id :=
  .none tokens fun t ht => absurd ht (stays (.ok t))

theorem quiet (tokens : b'.tokens = b.tokens) (journal : b'.journal = b.journal) :
    Settles b b' id :=
  of_stays tokens (by simp [added_eq_nil journal])

/-- A call that ends stores the token that it is granted. -/
theorem ends {r : Except Failure AccessToken} (hb : b.Coherent) (hc : c ∈ b.calls)
    (closing : Closing b c e r w) : Settles b (w.finish c r) c.id := by
  obtain ⟨log, farewell, hl, warrant⟩ := closing.logged
  have journal := hl.journal_finish r
  have tokens : (w.finish c r).tokens = log.foldl Occurrence.keep b.tokens := hl.tokens
  have hadded := added_eq journal
  have hhistory : (w.finish c r).history c.id = b.history c.id ++ (log ++ [.ended r]) := by
    rw [history_of_journal journal, if_pos rfl]
  cases farewell with
  | joined queued =>
      obtain ⟨n, -, hh⟩ := (hb.ledger.living c hc).of_queued queued
      exact .none tokens fun t _ slot hslot => by simp [hhistory, hh, opening] at hslot
  | @hit u queued => exact .none tokens fun t _ slot _ => ⟨u, by simp [hhistory]⟩
  | lapsed => exact .none tokens fun t ht => by simp [hadded] at ht
  | @refreshed log r aboard work =>
      cases r with
      | error f =>
          refine .none (tokens.trans ?_) fun t ht => ?_
          · have hannounced : (announced c.slot (.error f)).foldl Occurrence.keep b.tokens =
                b.tokens := by
              unfold announced
              split <;> rfl
            rw [List.foldl_append, List.foldl_append, work.foldl_keep]
            exact hannounced
          · simp [hadded, work.not_mem (o := .ended (.ok t)) rfl] at ht
      | ok t =>
          obtain ⟨reply, -, round, a, requestedAt, -, result⟩ := warrant.stored t (by simp)
          refine .stores hc rfl (Exchanger.grants_of_conclude result).1 (tokens.trans ?_)
            fun r => ?_
          · rw [List.foldl_append, List.foldl_append, work.foldl_keep]
            rfl
          · simp [hadded, work.not_mem (o := .ended r) rfl]

end Settles

/-- A step of a call changes the stored tokens only when it ends the refresh of the call with a
token. -/
theorem Move.settles (m : Move b e b') (hb : b.Coherent) (actor : e.actor? b = some id) :
    Settles b b' id := by
  cases m with
  | idle => exact .quiet rfl rfl
  | @refuses scope deadline =>
      obtain rfl := Option.some.inj actor
      have hl := logged_refused b scope deadline (.error Exchanger.noScope)
      exact .none hl.tokens fun t ht => by simp [added_eq hl.journal] at ht
  | @serves scope deadline t =>
      obtain rfl := Option.some.inj actor
      have hl := logged_served b scope deadline t
      refine .none hl.tokens fun u _ slot _ => ⟨t, ?_⟩
      rw [history_of_journal hl.journal, if_pos rfl]
      simp
  | @queues scope deadline =>
      obtain rfl := Option.some.inj actor
      refine .of_stays rfl fun r => ?_
      rw [added_eq (journal_queue b scope deadline)]
      exact not_mem_opening_ended _ _ r
  | @reads c round cache =>
      obtain rfl := Option.some.inj actor
      have hl := logged_reads b c.id cache
      exact .of_stays rfl (by simp [added_eq hl.journal])
  | @goes c e p w _ going =>
      obtain rfl := Option.some.inj (going.actor?_eq.symm.trans actor)
      have stays {log : List Occurrence} (hl : Logged b c.id log w)
          (hlog : ∀ r, .ended r ∉ log) : Settles b (w.enter c.id p) c.id := by
        have journal : (w.enter c.id p).journal = b.journal ++ log.map (b.entry c.id) := hl.journal
        exact .of_stays going.frame.2.2.2 (by rwa [added_eq journal])
      rcases going.logged.2 with ⟨-, hl⟩ | ⟨-, log, work, hl⟩
      · exact stays hl (by simp)
      · exact stays hl fun r => work.not_mem rfl
  | ends live closing =>
      obtain rfl := Option.some.inj (closing.actor?_eq.symm.trans actor)
      exact .ends hb (mem_calls_of_call? live) closing
  | @cancels c =>
      obtain rfl := Option.some.inj actor
      have journal := (logged_cancelled b c.id).journal
      refine .of_stays rfl fun r hr => ?_
      have hmem : .ended r ∈ added b (b.note c.id .cancelled) c.id := hr
      rw [added_eq journal] at hmem
      simp at hmem
  | overtakes => exact .quiet rfl rfl
  | overtakesVisit => exact .quiet rfl rfl
  | invalidates => cases actor
  | purges => cases actor
  | sets => cases actor
  | ticks => cases actor

end FederatedAccess.Broker
