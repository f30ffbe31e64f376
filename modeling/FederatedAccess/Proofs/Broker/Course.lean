import FederatedAccess.Proofs.Broker.Refreshing

/-!
# Calls on their courses

Whatever the source and the token endpoint do, and whatever other calls do meanwhile, the journal
holds the start of a course of every call that is aboard, and a whole course of every call that has
refreshed and ended (`Course`). Calls that have not refreshed have done no work.
-/

namespace FederatedAccess

namespace Broker

variable {x : Exchanger} {round : Round} {log : List Occurrence} {r : Except Failure AccessToken}

/-- What the journal holds of a call before it ends: a whole course, or no work at all. -/
inductive Completed (x : Exchanger) : List Occurrence → Except Failure AccessToken → Prop
  | led {c n log r} (refreshing : Refreshing x c.scope log r) :
      Completed x (opening c n ++ .boarded c.slot :: (log ++ settled r ++ announced c.slot r)) r
  | idle {h r} (none : ∀ o ∈ h, o.isWork = true → ∃ key, o = .span .getToken key)
      (unled : ∀ slot, .boarded slot ∈ h → ∃ t, .hit t ∈ h) : Completed x h r

theorem effort_opening (c : Call) (n : Nat) : Effort 0 0 (opening c n) :=
  ⟨Nat.le_refl 0, Nat.le_refl 0⟩

/-- Before it boards, a call neither reads nor exchanges. -/
theorem Effort.aboard (h : Effort 2 2 log) (c : Call) (n : Nat) :
    Effort 2 2 (opening c n ++ .boarded c.slot :: log) := by
  have hboarded : Effort 0 0 [.boarded c.slot] := ⟨Nat.le_refl 0, Nat.le_refl 0⟩
  exact (effort_opening c n).append (hboarded.append h)

theorem Completed.effort {h : List Occurrence} (hc : Completed x h r) : Effort 2 2 h := by
  cases hc with
  | @led c n log r refreshing =>
      have hsettled : Effort 0 0 (settled r) := by
        apply Effort.none
        cases r <;> simp [settled, Occurrence.isRead, Occurrence.isExchange]
      have hannounced : Effort 0 0 (announced c.slot r) := by
        apply Effort.none
        simp [Occurrence.isRead, Occurrence.isExchange]
      exact ((refreshing.effort.append hsettled).append hannounced).aboard c n
  | idle none =>
      refine Effort.mono (.none fun o ho => ?_) (Nat.zero_le 2) (Nat.zero_le 2)
      cases hw : o.isWork with
      | true =>
          obtain ⟨key, rfl⟩ := none o ho hw
          exact ⟨rfl, rfl⟩
      | false => cases o <;> first | exact ⟨rfl, rfl⟩ | cases hw

/-- The calls aboard are on their courses, and those that have ended have completed them. -/
structure Course (b : Broker) : Prop where
  aboard : ∀ c ∈ b.calls, c.phase.isQueued = false → ∃ n log,
    b.history c.id = opening c n ++ .boarded c.slot :: log ∧
      Underway b.exchanger c (b.cache.isReading c.id) log
  ended : Chronicle
    (fun pre y => ∀ r, y.what = .ended r → Completed b.exchanger (historyOf pre y.call) r) b.journal
  modest : ∀ i, Effort 2 2 (b.history i)

/-- No step changes who exchanges, and where. -/
theorem Move.exchanger_eq {b b' : Broker} {e : Event} (m : Move b e b') :
    b'.exchanger = b.exchanger := by
  cases m with
  | refuses => exact (logged_refused b _ _ _).exchanger
  | serves => exact (logged_served b _ _ _).exchanger
  | @queues scope deadline =>
      have hadmitted := (logged_admitCall b scope deadline).exchanger
      exact hadmitted
  | goes _ going =>
      obtain ⟨-, log, -, hl⟩ := going.quiet
      have hw := hl.exchanger
      exact hw
  | ends _ closing =>
      obtain ⟨log, -, hl, -⟩ := closing.logged
      have hw := hl.exchanger
      exact hw
  | _ => rfl

namespace Course

variable {b b' w : Broker} {c : Call} {e : Event} {p : Phase}

theorem make (config : Config) (x : Exchanger) (clock : Instant) : Course (make config x clock) :=
  ⟨by simp [Broker.make], .nil, fun _ => ⟨Nat.zero_le 2, Nat.zero_le 2⟩⟩

/-- It is enough to look at the call that a step is about. -/
theorem of_actor {id : CallId} (h : b.Course) (hold : b.Holding) (visiting : b.Visiting)
    (m : Move b e b') (actor : e.actor? b = some id)
    (journal : b'.journal = b.journal ++ log.map (b.entry id))
    (aboard : ∀ c ∈ b'.calls, c.id = id → c.phase.isQueued = false → ∃ n log,
      b'.history c.id = opening c n ++ .boarded c.slot :: log ∧
        Underway b.exchanger c (b'.cache.isReading c.id) log)
    (ended : ∀ pre r post, log = pre ++ .ended r :: post →
      Completed b.exchanger (b.history id ++ pre) r)
    (modest : Effort 2 2 (b.history id ++ log)) : b'.Course := by
  have spared (j : CallId) (hj : j ≠ id) : Spared b b' j := by
    refine m.spared ?_
    rw [actor]
    exact fun he => hj (Option.some.inj he).symm
  refine ⟨fun c hc hq => ?_, ?_, fun i => ?_⟩
  · rw [m.exchanger_eq]
    by_cases hid : c.id = id
    · exact aboard c hc hid hq
    · have hs := spared c.id hid
      rw [hs.history, hs.isReading_eq visiting (visiting.move hold m)]
      exact h.aboard c ((hs.calls c rfl).mp hc) hq
  · rw [m.exchanger_eq]
    exact chronicle_ended h.ended journal ended
  · by_cases hi : i = id
    · rw [history_of_journal journal, if_pos hi, hi]
      exact modest
    · rw [(spared i hi).history]
      exact h.modest i

/-- A step that logs nothing and ends no visit. -/
theorem quiet (h : b.Course) (visiting : b.Visiting) (visiting' : b'.Visiting)
    (exchanger : b'.exchanger = b.exchanger) (calls : b'.calls = b.calls)
    (journal : b'.journal = b.journal)
    (visits : ∀ v, v ∈ b'.cache.visits ↔ v ∈ b.cache.visits) : b'.Course := by
  have spared (i : CallId) : Spared b b' i := .quiet calls journal visits
  refine ⟨fun c hc hq => ?_, ?_, fun i => ?_⟩
  · rw [exchanger, (spared c.id).history, (spared c.id).isReading_eq visiting visiting']
    exact h.aboard c (calls ▸ hc) hq
  · rw [exchanger, journal]
    exact h.ended
  · rw [(spared i).history]
    exact h.modest i

/-- A call that ends has completed its course. -/
theorem completed (h : b.Course) (hold : b.Holding) (ledger : b.Ledger) (visiting : b.Visiting)
    (hc : c ∈ b.calls) (closing : Closing b c e r w) :
    ∃ log, Completed b.exchanger (b.history c.id ++ log) r ∧ Logged b c.id log w := by
  have idle {log : List Occurrence} (queued : c.phase.isQueued = true)
      (hl : Logged b c.id log w) (none : ∀ o ∈ log, o.isWork = false)
      (unled : ∀ slot, .boarded slot ∈ log → ∃ t, .hit t ∈ log) :
      ∃ log, Completed b.exchanger (b.history c.id ++ log) r ∧ Logged b c.id log w := by
    obtain ⟨n, -, hh⟩ := (ledger.living c hc).of_queued queued
    refine ⟨log, .idle (fun o ho hw => ?_) fun slot hslot => ?_, hl⟩
    · rw [hh, List.mem_append] at ho
      rcases ho with ho | ho
      · have hspan : o = .span .getToken c.scope.key := by
          simp only [opening, List.mem_cons, List.not_mem_nil, or_false] at ho
          rcases ho with rfl | rfl | rfl
          · cases hw
          · rfl
          · cases hw
        exact ⟨_, hspan⟩
      · cases (none o ho).symm.trans hw
    · obtain ⟨t, ht⟩ := unled slot (by simpa [hh, opening] using hslot)
      exact ⟨t, List.mem_append_right _ ht⟩
  have led {w' : Broker} (refreshed : Refreshed b c e r w')
      (hl : ∀ {log}, Logged b c.id log w' → Logged b c.id (log ++ announced c.slot r) w) :
      ∃ log, Completed b.exchanger (b.history c.id ++ log) r ∧ Logged b c.id log w := by
    obtain ⟨n, log, hh, underway⟩ := h.aboard c hc refreshed.aboard
    obtain ⟨more, hcourse, hmore⟩ := underway.refreshed visiting hold hc refreshed
    refine ⟨_, ?_, hl hmore⟩
    have hcompleted := Completed.led (c := c) (n := n) hcourse
    rw [hh]
    simpa using hcompleted
  cases closing with
  | joins phase =>
      exact idle (by rw [phase]; rfl) (logged_recordJoin b c.id r) (by simp [Occurrence.isWork])
        (by simp)
  | hits phase =>
      exact idle (by rw [phase]; rfl)
        ((logged_note b c.id (o := .boarded c.slot) rfl).trans (logged_recordHit _ c.id _))
        (by simp [Occurrence.isWork]) (by simp)
  | lapses phase => exact idle (by rw [phase]; rfl) (.refl b c.id) (by simp) (by simp)
  | unpublished refreshed late => exact led refreshed fun hl => by simpa [announced, late] using hl
  | published refreshed intime =>
      exact led refreshed fun hl => by
        simpa [announced, intime] using hl.trans (logged_publish _ c r)

/-- A call that boards is at the start of its course, and one that is aboard stays on it. -/
theorem underway (h : b.Course) (hold : b.Holding) (ledger : b.Ledger) (visiting : b.Visiting)
    (hc : c ∈ b.calls) (going : Going b c e p w) {reading : Bool}
    (outside : ∀ round, p = .reading round → reading = false) :
    ∃ n before log, b.history c.id ++ log = opening c n ++ .boarded c.slot :: before ∧
      Underway b.exchanger { c with phase := p } reading before ∧ Logged b c.id log w := by
  by_cases hq : c.phase.isQueued = true
  · obtain ⟨n, -, hh⟩ := (ledger.living c hc).of_queued hq
    cases going with
    | boards =>
        have hl := (logged_note b c.id (o := .boarded c.slot) rfl).trans (logged_visit _ c.id .first)
        exact ⟨n, [], _, by rw [hh]; rfl, .waits rfl (outside _ rfl) .first, hl⟩
    | sends phase => simp [phase, Phase.isQueued] at hq
    | rereads phase => simp [phase, Phase.isQueued] at hq
  · obtain ⟨n, log, hh, underway⟩ := h.aboard c hc (Bool.eq_false_iff.mpr hq)
    obtain ⟨more, hunderway, hl⟩ := underway.goes visiting hold hc going outside
    exact ⟨n, log ++ more, more, by rw [hh]; simp, hunderway, hl⟩

/-- A call that begins is not aboard. -/
theorem begins (h : b.Course) (hold : b.Holding) (ledger : b.Ledger) (visiting : b.Visiting)
    (m : Move b e b') (actor : e.actor? b = some b.nextCall)
    (journal : b'.journal = b.journal ++ log.map (b.entry b.nextCall))
    (calls : ∀ c ∈ b'.calls, c ∈ b.calls ∨ c.phase.isQueued = true)
    (ended : ∀ pre r post, log = pre ++ .ended r :: post → Completed b.exchanger pre r)
    (modest : Effort 0 0 log) : b'.Course := by
  have hfresh := ledger.fresh b.nextCall (Nat.le_refl _)
  refine h.of_actor hold visiting m actor journal (fun c hc hid hq => ?_) ?_ ?_
  · rcases calls c hc with hc | hq'
    · exact absurd hid (Nat.ne_of_lt (hold.fresh c hc))
    · cases hq.symm.trans hq'
  · intro pre r post he
    rw [hfresh]
    exact ended pre r post he
  · rw [hfresh]
    exact modest.mono (Nat.zero_le 2) (Nat.zero_le 2)

/-- A call whose turn has come at the cache may begin to read. -/
theorem reads {cache : AssertionCache} (h : b.Course) (hold : b.Holding) (visiting : b.Visiting)
    (live : b.call? c.id = some c) (phase : c.phase = .reading round)
    (turn : b.cache.isTurn c.id = true) (served : b.cache.proceed = (cache, .begins)) :
    ({ b with cache }.beginRead c.id).Course := by
  have hc := mem_calls_of_call? live
  have hl := logged_reads b c.id cache
  obtain ⟨n, log, hh, underway⟩ := h.aboard c hc (by rw [phase]; rfl)
  obtain ⟨v, rest, hv, hcall, outside⟩ := AssertionCache.isTurn_iff.mp turn
  obtain ⟨u, rest', hu, -, hcache⟩ := AssertionCache.of_proceed_eq_begins served
  obtain ⟨rfl, rfl⟩ := List.cons.inj (hv.symm.trans hu)
  have inside : cache.isReading c.id = true := by
    rw [hcache]
    exact AssertionCache.isReading_iff.mpr ⟨{ v with reading := true }, rest, rfl, hcall, rfl⟩
  have hreads : Underway b.exchanger c (cache.isReading c.id) (log ++ [.readBegun]) := by
    cases underway with
    | waits phase' _ prior => exact .reads phase' inside prior
    | reads _ inside' =>
        obtain ⟨u, rest', hu, -, hu'⟩ := AssertionCache.isReading_iff.mp inside'
        obtain ⟨rfl, -⟩ := List.cons.inj (hv.symm.trans hu)
        cases outside.symm.trans hu'
    | exchanges phase' => cases phase.symm.trans phase'
  have hwhole : b.history c.id ++ [.readBegun] =
      opening c n ++ .boarded c.slot :: (log ++ [.readBegun]) := by rw [hh]; simp
  refine h.of_actor hold visiting (.reads live phase turn served) rfl hl.journal
    (fun d hd hid _ => ?_) (fun pre r post he => ?_) ?_
  · obtain rfl := hold.eq_of_id (hl.calls ▸ hd) hc hid
    refine ⟨n, _, ?_, hreads⟩
    rw [history_of_journal hl.journal, if_pos rfl, hwhole]
  · have hmem : .ended r ∈ [Occurrence.readBegun] := by simp [he]
    simp at hmem
  · rw [hwhole]
    exact hreads.effort.aboard c n

/-- A call that comes to the cache does not read yet. -/
theorem outside_of_going (visiting : b.Visiting) (hold : b.Holding) (live : b.call? c.id = some c)
    (going : Going b c e p w) {round : Round} (hp : p = .reading round) :
    (w.enter c.id p).cache.isReading c.id = false := by
  have hc := mem_calls_of_call? live
  rcases going.visits with ⟨_, -, hphase, hvisits⟩ | ⟨_, -, -, hnone⟩
  · refine Bool.eq_false_iff.mpr fun hreading => ?_
    obtain ⟨v, hv, hcall, hr⟩ := (visiting.goes hold live going).isReading_iff.mp hreading
    rcases List.mem_append.mp (hvisits ▸ hv : v ∈ b.cache.visits ++ _) with hv | hv
    · exact visiting.absent hold hc hphase v hv hcall
    · rw [List.mem_singleton.mp hv] at hr
      cases hr
  · exact absurd hp (hnone round)

theorem goes (h : b.Course) (hold : b.Holding) (ledger : b.Ledger) (visiting : b.Visiting)
    (live : b.call? c.id = some c) (going : Going b c e p w) : (w.enter c.id p).Course := by
  have hc := mem_calls_of_call? live
  obtain ⟨n, before, log, hh, hunderway, hl⟩ := h.underway hold ledger visiting hc going
    fun _ hp => outside_of_going visiting hold live going hp
  have journal : (w.enter c.id p).journal = b.journal ++ log.map (b.entry c.id) := hl.journal
  refine h.of_actor hold visiting (.goes live going) going.actor?_eq journal
    (fun d hd hid _ => ?_) (fun pre r post he => ?_) ?_
  · obtain rfl := hold.of_mem_enter hc going.frame.1 hd hid
    refine ⟨n, before, ?_, hunderway⟩
    rw [history_of_journal journal, if_pos rfl, hh]
    rfl
  · have hmem : .ended r ∈ log := by simp [he]
    rcases going.logged.2 with ⟨-, hboarded⟩ | ⟨-, work, hwork, hl'⟩
    · obtain rfl := hl.log_eq hboarded
      simp at hmem
    · obtain rfl := hl.log_eq hl'
      exact absurd hmem (hwork.not_mem rfl)
  · rw [hh]
    exact hunderway.effort.aboard c n

theorem ends (h : b.Course) (hold : b.Holding) (ledger : b.Ledger) (visiting : b.Visiting)
    (live : b.call? c.id = some c) (closing : Closing b c e r w) : (w.finish c r).Course := by
  have hc := mem_calls_of_call? live
  obtain ⟨log, hcompleted, hl⟩ := h.completed hold ledger visiting hc closing
  refine h.of_actor hold visiting (.ends live closing) closing.actor?_eq (hl.journal_finish r)
    (fun d hd hid => absurd hid (mem_calls_finish.mp hd).2) (fun pre r' post he => ?_) ?_
  · obtain ⟨log', farewell, hl', -⟩ := closing.logged
    obtain rfl := hl.log_eq hl'
    obtain ⟨rfl, hr⟩ := eq_of_concat_eq he (farewell.not_mem_ended r')
    exact (Occurrence.ended.inj hr) ▸ hcompleted
  · have hended : Effort 0 0 [.ended r] := ⟨Nat.le_refl 0, Nat.le_refl 0⟩
    rw [← List.append_assoc]
    exact hcompleted.effort.append hended

theorem cancels (h : b.Course) (hold : b.Holding) (visiting : b.Visiting)
    (live : b.call? c.id = some c) :
    (({ b with slots := b.slots.abandon c.slot c.id, cache := b.cache.leave c.id }.note c.id
      .cancelled).forget c.id).Course := by
  have journal := (logged_cancelled b c.id).journal
  refine h.of_actor hold visiting (.cancels live) rfl journal (fun d hd hid => ?_)
    (fun pre r post he => ?_) ?_
  · have hne : d.id ≠ c.id := by simpa using (List.mem_filter.mp hd).2
    exact absurd hid hne
  · have hmem : .ended r ∈ [Occurrence.cancelled] := by simp [he]
    simp at hmem
  · have hcancelled : Effort 0 0 [.cancelled] := ⟨Nat.le_refl 0, Nat.le_refl 0⟩
    exact (h.modest c.id).append hcancelled

/-- Every move keeps the calls on their courses. -/
theorem move (h : b.Course) (hold : b.Holding) (ledger : b.Ledger) (visiting : b.Visiting)
    (m : Move b e b') : b'.Course := by
  have visiting' := visiting.move hold m
  cases m with
  | idle => exact h
  | @refuses scope deadline none =>
      have hl := logged_refused b scope deadline (.error Exchanger.noScope)
      refine h.begins hold ledger visiting (.refuses none) rfl hl.journal
        (fun c hc => .inl (hl.calls ▸ hc)) ?_ ⟨Nat.le_refl 0, Nat.le_refl 0⟩
      intro pre r post he
      obtain ⟨rfl, -⟩ := eq_of_concat_eq (l := [_, _]) he (by simp)
      exact .idle (by simp [Occurrence.isWork]) (by simp)
  | @serves scope deadline t some usable =>
      have hl := logged_served b scope deadline t
      refine h.begins hold ledger visiting (.serves some usable) rfl hl.journal
        (fun c hc => .inl (hl.calls ▸ hc)) ?_ ⟨Nat.le_refl 0, Nat.le_refl 0⟩
      intro pre r post he
      obtain ⟨rfl, -⟩ := eq_of_concat_eq (l := [_, _, _]) he (by simp)
      exact .idle (by simp [Occurrence.isWork]) (by simp)
  | @queues scope deadline some miss =>
      refine h.begins hold ledger visiting (.queues some miss) rfl (journal_queue b scope deadline)
        (fun c hc => ?_) (fun pre r post he => ?_) (effort_opening _ _)
      · rcases List.mem_append.mp hc with hc | hc
        · exact .inl hc
        · exact .inr (by rw [List.mem_singleton.mp hc]; rfl)
      · have hne := not_mem_opening_ended (b.newcomer b.nextCall scope deadline)
          (b.slots.take scope.key).1.landed r
        simp [he] at hne
  | reads live phase turn served => exact h.reads hold visiting live phase turn served
  | goes live going => exact h.goes hold ledger visiting live going
  | ends live closing => exact h.ends hold ledger visiting live closing
  | cancels live => exact h.cancels hold visiting live
  | overtakes => exact h.quiet visiting visiting' rfl rfl rfl fun _ => Iff.rfl
  | overtakesVisit => exact h.quiet visiting visiting' rfl rfl rfl fun _ => mem_visits_overtake
  | invalidates => exact h.quiet visiting visiting' rfl rfl rfl fun _ => Iff.rfl
  | purges => exact h.quiet visiting visiting' rfl rfl rfl fun _ => Iff.rfl
  | sets => exact h.quiet visiting visiting' rfl rfl rfl fun _ => Iff.rfl
  | ticks => exact h.quiet visiting visiting' rfl rfl rfl fun _ => Iff.rfl

end Course

end Broker

end FederatedAccess
