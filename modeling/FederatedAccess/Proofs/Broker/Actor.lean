import FederatedAccess.Proofs.Broker.Ledger

/-!
# Whom a step is about

An event is about one call at most (`Event.actor?`). It spares all others: they stay as they are,
with what the journal holds of them and with their visits to the cache (`Spared`). What is to hold
of every call in every state is therefore shown for the call that a step is about.
-/

namespace FederatedAccess.Broker

/-- The call that an event is about. A call that begins takes the next number. -/
def Event.actor? (b : Broker) : Event → Option CallId
  | .start _ _ => some b.nextCall
  | .proceed id => some id
  | .readDone id _ => some id
  | .replied id _ => some id
  | .expire id => some id
  | .cancel id => some id
  | .overtake id => some id
  | .invalidate _ => none
  | .purge => none
  | .setClock _ => none
  | .tick _ => none

variable {b b' w : Broker} {c : Call} {e : Event} {p : Phase} {i : CallId}

theorem Visited.actor?_eq {r : Except Failure Assertion} (h : Visited b c e r w) :
    e.actor? b = some c.id := by
  cases h <;> rfl

theorem Going.actor?_eq (h : Going b c e p w) : e.actor? b = some c.id := by
  cases h with
  | boards => rfl
  | sends _ visited => exact visited.actor?_eq
  | rereads => rfl

theorem Refreshed.actor?_eq {r : Except Failure AccessToken} (h : Refreshed b c e r w) :
    e.actor? b = some c.id := by
  cases h with
  | unserved => rfl
  | cutOff => rfl
  | unread _ visited => exact visited.actor?_eq
  | unsent _ visited => exact visited.actor?_eq
  | granted => rfl
  | refused => rfl

theorem Closing.actor?_eq {r : Except Failure AccessToken} (h : Closing b c e r w) :
    e.actor? b = some c.id := by
  cases h with
  | joins => rfl
  | hits => rfl
  | lapses => rfl
  | unpublished refreshed => exact refreshed.actor?_eq
  | published refreshed => exact refreshed.actor?_eq

/-! ### Visits to the cache -/

/-- A visit that ends is that of the call that goes on. -/
theorem Visited.visits {r : Except Failure Assertion} (h : Visited b c e r w) :
    ∃ v, b.cache.visits = v :: w.cache.visits ∧ v.call = c.id := by
  cases h with
  | fresh turn served =>
      obtain ⟨v, rest, hv, hcall, -⟩ := AssertionCache.isTurn_iff.mp turn
      obtain ⟨u, a, hu, -⟩ := AssertionCache.of_proceed_eq_ends served
      obtain ⟨rfl, -⟩ := List.cons.inj (hv.symm.trans hu)
      exact ⟨v, hu, hcall⟩
  | read _ reading served =>
      obtain ⟨v, rest, hv, hcall, -⟩ := AssertionCache.isReading_iff.mp reading
      obtain ⟨u, hu, -⟩ := AssertionCache.of_finish_eq_ends served
      obtain ⟨rfl, -⟩ := List.cons.inj (hv.symm.trans hu)
      exact ⟨v, hu, hcall⟩
  | late _ reading served =>
      obtain ⟨v, rest, hv, hcall, -⟩ := AssertionCache.isReading_iff.mp reading
      obtain ⟨u, hu, -⟩ := AssertionCache.of_finish_eq_ends served
      obtain ⟨rfl, -⟩ := List.cons.inj (hv.symm.trans hu)
      exact ⟨v, hu, hcall⟩

theorem Visited.mem_visits {r : Except Failure Assertion} (h : Visited b c e r w) {v : Visit}
    (hv : v.call ≠ c.id) : v ∈ w.cache.visits ↔ v ∈ b.cache.visits := by
  obtain ⟨u, hu, hcall⟩ := h.visits
  rw [hu, List.mem_cons]
  exact ⟨.inr, fun h => h.resolve_left fun he => hv (he ▸ hcall)⟩

theorem cache_admitCall (b : Broker) (scope : ScopeSet) (deadline : Option Nat) :
    (b.admitCall scope deadline).cache = b.cache := rfl

theorem cache_recordHit (b : Broker) (id : CallId) (t : AccessToken) :
    (b.recordHit id t).cache = b.cache := rfl

theorem cache_report (b : Broker) (id : CallId) (r : Except Failure AccessToken) :
    (b.report id r).cache = b.cache := rfl

theorem cache_recordReply (b : Broker) (id : CallId) (reply : Reply)
    (asked : Option Classification.Context) : (b.recordReply id reply asked).cache = b.cache := by
  cases asked <;> rfl

theorem clock_recordReply (b : Broker) (id : CallId) (reply : Reply)
    (asked : Option Classification.Context) : (b.recordReply id reply asked).clock = b.clock := by
  cases asked <;> rfl

/-- A call that goes on comes to the cache or leaves it. -/
theorem Going.visits (h : Going b c e p w) :
    (∃ round, p = .reading round ∧ (∀ round', c.phase ≠ .reading round') ∧
      w.cache.visits = b.cache.visits ++ [⟨c.id, round.lookup, b.clock, false⟩]) ∨
    ∃ v, b.cache.visits = v :: w.cache.visits ∧ v.call = c.id ∧ ∀ round, p ≠ .reading round := by
  cases h with
  | boards phase => exact .inl ⟨.first, rfl, by simp [phase], rfl⟩
  | sends _ visited =>
      obtain ⟨v, hv, hcall⟩ := visited.visits
      exact .inr ⟨v, hv, hcall, by simp⟩
  | rereads phase =>
      refine .inl ⟨.second, rfl, by simp [phase], ?_⟩
      simp only [visit, note, recordExchange, count, cache_recordReply, clock_recordReply,
        AssertionCache.arrive]

theorem Going.mem_visits (h : Going b c e p w) {v : Visit} (hv : v.call ≠ c.id) :
    v ∈ w.cache.visits ↔ v ∈ b.cache.visits := by
  rcases h.visits with ⟨round, -, -, hvisits⟩ | ⟨u, hvisits, hcall, -⟩
  · rw [hvisits, List.mem_append, List.mem_singleton]
    exact ⟨fun h => h.resolve_right fun he => hv (by rw [he]), .inl⟩
  · rw [hvisits, List.mem_cons]
    exact ⟨.inr, fun h => h.resolve_left fun he => hv (he ▸ hcall)⟩

/-- A refresh that ends leaves the cache, if the call is there. -/
theorem Refreshed.visits {r : Except Failure AccessToken} (h : Refreshed b c e r w) :
    (∃ round, c.phase = .reading round) ∧
      ((∃ v, b.cache.visits = v :: w.cache.visits ∧ v.call = c.id) ∨
        w.cache.visits = b.cache.visits.filter (·.call ≠ c.id)) ∨
    (∀ round, c.phase ≠ .reading round) ∧ w.cache = b.cache := by
  cases h with
  | unserved phase => exact .inl ⟨⟨_, phase⟩, .inr rfl⟩
  | cutOff phase => exact .inr ⟨by simp [phase], rfl⟩
  | unread phase visited => exact .inl ⟨⟨_, phase⟩, .inl visited.visits⟩
  | unsent phase visited => exact .inl ⟨⟨_, phase⟩, .inl visited.visits⟩
  | granted phase => exact .inr ⟨by simp [phase], cache_recordReply b _ _ _⟩
  | refused phase => exact .inr ⟨by simp [phase], cache_recordReply b _ _ _⟩

/-- A call that ends leaves the cache, if it is there. -/
theorem Closing.visits {r : Except Failure AccessToken} (h : Closing b c e r w) :
    (∃ round, c.phase = .reading round) ∧
      ((∃ v, b.cache.visits = v :: w.cache.visits ∧ v.call = c.id) ∨
        w.cache.visits = b.cache.visits.filter (·.call ≠ c.id)) ∨
    (∀ round, c.phase ≠ .reading round) ∧ w.cache = b.cache := by
  cases h with
  | joins phase => exact .inr ⟨by simp [phase], rfl⟩
  | hits phase => exact .inr ⟨by simp [phase], rfl⟩
  | lapses phase => exact .inr ⟨by simp [phase], rfl⟩
  | unpublished refreshed => exact refreshed.visits
  | published refreshed => exact refreshed.visits

theorem Closing.mem_visits {r : Except Failure AccessToken} (h : Closing b c e r w) {v : Visit}
    (hv : v.call ≠ c.id) : v ∈ w.cache.visits ↔ v ∈ b.cache.visits := by
  rcases h.visits with ⟨-, ⟨u, hvisits, hcall⟩ | hvisits⟩ | ⟨-, hcache⟩
  · rw [hvisits, List.mem_cons]
    exact ⟨.inr, fun h => h.resolve_left fun he => hv (he ▸ hcall)⟩
  · rw [hvisits]
    simp [hv]
  · rw [hcache]

/-- To go ahead of others changes the order of visits and nothing else. -/
theorem mem_visits_overtake {cache : AssertionCache} {v : Visit} :
    v ∈ (cache.overtake i).visits ↔ v ∈ cache.visits := by
  unfold AssertionCache.overtake
  split
  · rfl
  · by_cases hv : v.call = i <;> simp [hv]

/-! ### What a step spares -/

/-- A step leaves a call, what the journal holds of it and its visits as they are. -/
structure Spared (b b' : Broker) (id : CallId) : Prop where
  calls : ∀ d : Call, d.id = id → (d ∈ b'.calls ↔ d ∈ b.calls)
  history : b'.history id = b.history id
  visits : ∀ v : Visit, v.call = id → (v ∈ b'.cache.visits ↔ v ∈ b.cache.visits)

namespace Spared

theorem refl (b : Broker) (id : CallId) : Spared b b id :=
  ⟨fun _ _ => Iff.rfl, rfl, fun _ _ => Iff.rfl⟩

/-- A step that logs something of another call only. -/
theorem of_log {id : CallId} {log : List Occurrence} (hne : i ≠ id)
    (journal : b'.journal = b.journal ++ log.map (b.entry id))
    (calls : ∀ d : Call, d.id ≠ id → (d ∈ b'.calls ↔ d ∈ b.calls))
    (visits : ∀ v : Visit, v.call ≠ id → (v ∈ b'.cache.visits ↔ v ∈ b.cache.visits)) :
    Spared b b' i where
  calls d hd := calls d (hd ▸ hne)
  history := by rw [history_of_journal journal, if_neg hne, List.append_nil]
  visits v hv := visits v (hv ▸ hne)

/-- A step that logs nothing. -/
theorem quiet (calls : b'.calls = b.calls) (journal : b'.journal = b.journal)
    (visits : ∀ v, v ∈ b'.cache.visits ↔ v ∈ b.cache.visits) : Spared b b' i where
  calls _ _ := by rw [calls]
  history := by rw [Broker.history, Broker.history, journal]
  visits v _ := visits v

end Spared

/-- A call that goes on leaves the others as they are. -/
theorem mem_calls_enter {d : Call} (hd : d.id ≠ c.id) :
    d ∈ (b.enter c.id p).calls ↔ d ∈ b.calls := by
  simp only [enter, List.mem_map]
  constructor
  · rintro ⟨u, hu, rfl⟩
    split at hd
    · exact absurd ‹_› hd
    · rwa [if_neg ‹_›]
  · intro h
    exact ⟨d, h, if_neg hd⟩

/-- A step spares all calls but the one that it is about. -/
theorem Move.spared (m : Move b e b') (other : e.actor? b ≠ some i) : Spared b b' i := by
  cases m with
  | idle => exact .refl b i
  | @refuses scope deadline =>
      have hl := logged_refused b scope deadline (.error Exchanger.noScope)
      exact .of_log (fun he => other (congrArg some he.symm)) hl.journal
        (fun _ _ => by rw [hl.calls]) fun _ _ => by rw [cache_report, cache_admitCall]
  | @serves scope deadline t =>
      have hl := logged_served b scope deadline t
      exact .of_log (fun he => other (congrArg some he.symm)) hl.journal
        (fun _ _ => by rw [hl.calls])
        fun _ _ => by rw [cache_report, cache_recordHit, cache_admitCall]
  | @queues scope deadline =>
      refine .of_log (fun he => other (congrArg some he.symm)) (journal_queue b scope deadline)
        (fun d hd => ?_) fun _ _ => Iff.rfl
      refine ⟨fun h => (List.mem_append.mp h).resolve_right fun hnew => hd ?_,
        List.mem_append_left _⟩
      rw [List.mem_singleton.mp hnew]
      rfl
  | @reads c round cache _ _ turn served =>
      have hl := logged_reads b c.id cache
      refine .of_log (fun he => other (congrArg some he.symm)) hl.journal
        (fun _ _ => by rw [hl.calls]) fun v hv => ?_
      obtain ⟨u, rest, hu, hcall, -⟩ := AssertionCache.isTurn_iff.mp turn
      obtain ⟨u', rest', hu', -, rfl⟩ := AssertionCache.of_proceed_eq_begins served
      obtain ⟨rfl, rfl⟩ := List.cons.inj (hu.symm.trans hu')
      have hne : v ≠ u := fun he => hv (he ▸ hcall)
      have hne' : v ≠ { u with reading := true } := fun he => hv (by rw [he]; exact hcall)
      change v ∈ { u with reading := true } :: rest ↔ v ∈ b.cache.visits
      rw [hu, List.mem_cons, List.mem_cons, or_iff_right hne, or_iff_right hne']
  | @goes c e p w _ going =>
      obtain ⟨-, log, -, hl⟩ := going.quiet
      rw [going.actor?_eq] at other
      refine .of_log (fun he => other (congrArg some he.symm)) hl.journal (fun d hd => ?_)
        fun v hv => going.mem_visits hv
      rw [mem_calls_enter hd, hl.calls]
  | @ends c e r w _ closing =>
      obtain ⟨log, -, hl, -⟩ := closing.logged
      rw [closing.actor?_eq] at other
      refine .of_log (fun he => other (congrArg some he.symm)) (hl.journal_finish r)
        (fun d hd => ?_) fun v hv => closing.mem_visits hv
      rw [mem_calls_finish, hl.calls]
      exact and_iff_left hd
  | @cancels c =>
      have hj := (logged_cancelled b c.id).journal
      refine .of_log (fun he => other (congrArg some he.symm)) hj (fun d hd => ?_) fun v hv => ?_
      · change d ∈ b.calls.filter (·.id ≠ c.id) ↔ d ∈ b.calls
        simp [hd]
      · change v ∈ b.cache.visits.filter (·.call ≠ c.id) ↔ v ∈ b.cache.visits
        simp [hv]
  | overtakes => exact .quiet rfl rfl fun _ => Iff.rfl
  | overtakesVisit => exact .quiet rfl rfl fun _ => mem_visits_overtake
  | invalidates => exact .quiet rfl rfl fun _ => Iff.rfl
  | purges => exact .quiet rfl rfl fun _ => Iff.rfl
  | sets => exact .quiet rfl rfl fun _ => Iff.rfl
  | ticks => exact .quiet rfl rfl fun _ => Iff.rfl

/-! ### What a step does about a call -/

/-- What a step about a live call does: the call goes on, is cancelled, or changes places with others
at most. -/
inductive Acts (b : Broker) (c : Call) (e : Event) (b' : Broker) : Prop
  | advances (advance : Advance b c e b')
  | cancelled (journal : b'.journal = b.journal ++ [Occurrence.cancelled].map (b.entry c.id))
      (gone : ∀ d ∈ b'.calls, d.id ≠ c.id)
  | stays (calls : b'.calls = b.calls) (journal : b'.journal = b.journal)
      (visits : ∀ v, v ∈ b'.cache.visits ↔ v ∈ b.cache.visits)

/-- A step about a live call is a step of it. -/
theorem Move.acts (m : Move b e b') (hold : b.Holding) (hc : c ∈ b.calls)
    (actor : e.actor? b = some c.id) : Acts b c e b' := by
  have only {u : Call} (live : b.call? u.id = some u) (own : e.actor? b = some u.id) : u = c :=
    hold.eq_of_id (mem_calls_of_call? live) hc (Option.some.inj (own.symm.trans actor))
  have old : b.nextCall ≠ c.id := Nat.ne_of_gt (hold.fresh c hc)
  cases m with
  | idle => exact .stays rfl rfl fun _ => Iff.rfl
  | refuses => exact absurd (Option.some.inj actor) old
  | serves => exact absurd (Option.some.inj actor) old
  | queues => exact absurd (Option.some.inj actor) old
  | reads live phase turn served =>
      obtain rfl := only live rfl
      exact .advances (.reads phase turn served)
  | goes live going =>
      obtain rfl := only live going.actor?_eq
      exact .advances (.goes going)
  | ends live closing =>
      obtain rfl := only live closing.actor?_eq
      exact .advances (.ends closing)
  | @cancels u live =>
      obtain rfl := only live rfl
      refine .cancelled (logged_cancelled b u.id).journal fun d hd => ?_
      simpa using (List.mem_filter.mp hd).2
  | overtakes => exact .stays rfl rfl fun _ => Iff.rfl
  | overtakesVisit => exact .stays rfl rfl fun _ => mem_visits_overtake
  | invalidates => cases actor
  | purges => cases actor
  | sets => cases actor
  | ticks => cases actor

end FederatedAccess.Broker
