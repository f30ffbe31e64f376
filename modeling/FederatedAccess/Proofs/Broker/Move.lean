import FederatedAccess.Proofs.Broker.Log

/-!
# The moves of a broker

An event changes a broker in one of a few ways, which are listed here once with all that each of
them does. A call that goes on comes to its next wait (`Going`) or to its end (`Closing`), in which
case it may have refreshed (`Refreshed`). What holds of every reachable broker is derived from this
list and not from the definitions of the steps.
-/

namespace FederatedAccess.Broker

/-- How the visit of a call to the cache ends: what it is given, and the broker then. -/
inductive Visited (b : Broker) (c : Call) : Event → Except Failure Assertion → Broker → Prop
  | fresh {cache r} (turn : b.cache.isTurn c.id = true)
      (served : b.cache.proceed = (cache, .ends r)) :
      Visited b c (.proceed c.id) r { b with cache }
  | read {cache r} (result : Except ReadFailure String) (reading : b.cache.isReading c.id = true)
      (served : b.cache.finish (result.mapError .assertion) = (cache, .ends r)) :
      Visited b c (.readDone c.id result) r
        { b.recordRead c.id (result.mapError .assertion) with cache }
  | late {cache r} (due : b.isDue c = true) (reading : b.cache.isReading c.id = true)
      (served : b.cache.finish (.error (.timeout .assertionRead)) = (cache, .ends r)) :
      Visited b c (.expire c.id) r
        { b.recordRead c.id (.error (.timeout .assertionRead)) with cache }

/-- How a call comes to its next wait: the phase it enters, and the broker before it does. -/
inductive Going (b : Broker) (c : Call) : Event → Phase → Broker → Prop
  | boards {n s} (phase : c.phase = .queued n) (slot : b.slots.find? c.slot = some s)
      (turn : s.isTurn c.id = true) (unshared : s.shared? n = none)
      (miss : b.usable? c.scope = none) :
      Going b c (.proceed c.id) (.reading .first)
        ((b.note c.id (.boarded c.slot)).visit c.id .first)
  | sends {round e a w request} (phase : c.phase = .reading round)
      (visited : Visited b c e (.ok a) w)
      (prepared : b.exchanger.prepare a.value c.scope = .ok request) :
      Going b c e (.exchanging round a b.clock)
        ((w.beginExchange c).note c.id (.sent a.value c.scope request))
  | rereads {a requestedAt reply f} (phase : c.phase = .exchanging .first a requestedAt)
      (result : (b.exchanger.conclude c.scope requestedAt reply).result = .error f)
      (refused : f.isInvalidAssertion = true) :
      Going b c (.replied c.id reply) (.reading .second)
        ((((b.recordReply c.id reply
          (b.exchanger.conclude c.scope requestedAt reply).asked).recordExchange
          c.id (.error f)).note c.id (.rejected f)).visit c.id .second)

/-- How a refresh ends: its result, and the broker before the result is published. -/
inductive Refreshed (b : Broker) (c : Call) :
    Event → Except Failure AccessToken → Broker → Prop
  | unserved {round} (phase : c.phase = .reading round) (due : b.isDue c = true)
      (waiting : b.cache.isReading c.id = false ∧ b.cache.isTurn c.id = false) :
      Refreshed b c (.expire c.id) (.error (.timeout .assertionRead))
        { b with cache := b.cache.leave c.id }
  | cutOff {round a requestedAt} (phase : c.phase = .exchanging round a requestedAt)
      (due : b.isDue c = true) :
      Refreshed b c (.expire c.id) (.error (.timeout .exchange)) (b.note c.id .cutOff)
  | unread {round e f w} (phase : c.phase = .reading round) (visited : Visited b c e (.error f) w) :
      Refreshed b c e (.error f) w
  | unsent {round e a f w} (phase : c.phase = .reading round) (visited : Visited b c e (.ok a) w)
      (prepared : b.exchanger.prepare a.value c.scope = .error f) :
      Refreshed b c e (.error f) ((w.beginExchange c).recordExchange c.id (.error f))
  | granted {round a requestedAt reply t} (phase : c.phase = .exchanging round a requestedAt)
      (result : (b.exchanger.conclude c.scope requestedAt reply).result = .ok t) :
      Refreshed b c (.replied c.id reply) (.ok t)
        (((b.recordReply c.id reply
          (b.exchanger.conclude c.scope requestedAt reply).asked).recordExchange
          c.id (.ok t)).store c.id t)
  | refused {round a requestedAt reply f} (phase : c.phase = .exchanging round a requestedAt)
      (result : (b.exchanger.conclude c.scope requestedAt reply).result = .error f)
      (final : ¬ (round = .first ∧ f.isInvalidAssertion = true)) :
      Refreshed b c (.replied c.id reply) (.error f)
        ((b.recordReply c.id reply
          (b.exchanger.conclude c.scope requestedAt reply).asked).recordExchange
          c.id (.error f))

/-- How a call comes to its end: its result, and the broker before it is forgotten. -/
inductive Closing (b : Broker) (c : Call) :
    Event → Except Failure AccessToken → Broker → Prop
  | joins {n s r} (phase : c.phase = .queued n) (slot : b.slots.find? c.slot = some s)
      (turn : s.isTurn c.id = true) (shared : s.shared? n = some r) :
      Closing b c (.proceed c.id) r (b.recordJoin c.id r)
  | hits {n s t} (phase : c.phase = .queued n) (slot : b.slots.find? c.slot = some s)
      (turn : s.isTurn c.id = true) (unshared : s.shared? n = none)
      (usable : b.usable? c.scope = some t) :
      Closing b c (.proceed c.id) (.ok t) ((b.note c.id (.boarded c.slot)).recordHit c.id t)
  | lapses {n} (phase : c.phase = .queued n) (due : b.isDue c = true)
      (waiting : ∀ s, b.slots.find? c.slot = some s → s.isTurn c.id = false) :
      Closing b c (.expire c.id) (.error (.timeout .waitingForRefresh)) b
  | unpublished {e r w} (refreshed : Refreshed b c e r w) (late : timedOut r = true) :
      Closing b c e r w
  | published {e r w} (refreshed : Refreshed b c e r w) (intime : timedOut r = false) :
      Closing b c e r (w.publish c r)

/-- How a call goes on: it begins to read, comes to its next wait, or comes to its end. -/
inductive Advance (b : Broker) (c : Call) : Event → Broker → Prop
  | reads {round cache} (phase : c.phase = .reading round) (turn : b.cache.isTurn c.id = true)
      (served : b.cache.proceed = (cache, .begins)) :
      Advance b c (.proceed c.id) ({ b with cache }.beginRead c.id)
  | goes {e p w} (going : Going b c e p w) : Advance b c e (w.enter c.id p)
  | ends {e r w} (closing : Closing b c e r w) : Advance b c e (w.finish c r)

/-- The ways in which an event changes a broker. -/
inductive Move (b : Broker) : Event → Broker → Prop
  | idle (e) : Move b e b
  | refuses {scope deadline} (none : scope.isEmpty = true) :
      Move b (.start scope deadline)
        ((b.admitCall scope deadline).report b.nextCall (.error Exchanger.noScope))
  | serves {scope deadline t} (some : scope.isEmpty = false) (usable : b.usable? scope = .some t) :
      Move b (.start scope deadline)
        (((b.admitCall scope deadline).recordHit b.nextCall t).report b.nextCall (.ok t))
  | queues {scope deadline} (some : scope.isEmpty = false) (miss : b.usable? scope = none) :
      Move b (.start scope deadline)
        ((b.admitCall scope deadline).joinQueue b.nextCall scope deadline)
  | reads {c round cache} (live : b.call? c.id = some c) (phase : c.phase = .reading round)
      (turn : b.cache.isTurn c.id = true) (served : b.cache.proceed = (cache, .begins)) :
      Move b (.proceed c.id) ({ b with cache }.beginRead c.id)
  | goes {c e p w} (live : b.call? c.id = some c) (going : Going b c e p w) :
      Move b e (w.enter c.id p)
  | ends {c e r w} (live : b.call? c.id = some c) (closing : Closing b c e r w) :
      Move b e (w.finish c r)
  | cancels {c} (live : b.call? c.id = some c) :
      Move b (.cancel c.id)
        (({ b with slots := b.slots.abandon c.slot c.id, cache := b.cache.leave c.id }.note c.id
          .cancelled).forget c.id)
  | overtakes {c n} (live : b.call? c.id = some c) (phase : c.phase = .queued n)
      (free : b.isTaken c.slot = false) :
      Move b (.overtake c.id) { b with slots := b.slots.modify c.slot (·.advance c.id) }
  | overtakesVisit {c round} (live : b.call? c.id = some c) (phase : c.phase = .reading round) :
      Move b (.overtake c.id) { b with cache := b.cache.overtake c.id }
  | invalidates (scope) : Move b (.invalidate scope) (b.invalidate scope)
  | purges : Move b .purge b.purge
  | sets (t) : Move b (.setClock t) (b.setClock t)
  | ticks {time} (later : b.time ≤ time)
      (waits : ∀ c ∈ b.calls, ∀ t ∈ lastWait c, time ≤ t) : Move b (.tick time) { b with time }

theorem id_eq_of_call? {b : Broker} {id : CallId} {c : Call} (h : b.call? id = some c) :
    c.id = id := by
  simpa using List.find?_some h

theorem mem_calls_of_call? {b : Broker} {id : CallId} {c : Call} (h : b.call? id = some c) :
    c ∈ b.calls :=
  List.mem_of_find?_eq_some h

/-! ### What moves log -/

/-- The token that a refresh stores. -/
def settled : Except Failure AccessToken → List Occurrence
  | .ok t => [.stored t]
  | .error _ => []

/-- What a refresh publishes. -/
def announced (slot : SlotId) (r : Except Failure AccessToken) : List Occurrence :=
  if timedOut r then [] else [.published slot r]

@[simp] theorem mem_settled {r : Except Failure AccessToken} {o : Occurrence} :
    o ∈ settled r ↔ ∃ t, r = .ok t ∧ o = .stored t := by
  cases r <;> simp [settled]

@[simp] theorem mem_announced {slot : SlotId} {r : Except Failure AccessToken} {o : Occurrence} :
    o ∈ announced slot r ↔ timedOut r = false ∧ o = .published slot r := by
  unfold announced
  split <;> simp [*]

/-- What a call logs before it ends, by where it has waited. -/
inductive Farewell (c : Call) : List Occurrence → Except Failure AccessToken → Prop
  | joined {r} (queued : c.phase.isQueued = true) : Farewell c [.joined r] r
  | hit {t} (queued : c.phase.isQueued = true) : Farewell c [.boarded c.slot, .hit t] (.ok t)
  | lapsed (queued : c.phase.isQueued = true) : Farewell c [] (.error (.timeout .waitingForRefresh))
  | refreshed {log r} (aboard : c.phase.isQueued = false) (work : IsWork log) :
      Farewell c (log ++ settled r ++ announced c.slot r) r

/-- A reply by which a call in an exchange is granted a token. -/
def GrantedBy (b : Broker) (c : Call) (t : AccessToken) (reply : Reply) : Prop :=
  ∃ round a requestedAt, c.phase = .exchanging round a requestedAt ∧
    (b.exchanger.conclude c.scope requestedAt reply).result = .ok t

/-- What a call that ends logs is warranted by the state in which it ends. -/
structure Warrant (b : Broker) (c : Call) (log : List Occurrence) : Prop where
  joined : ∀ r, .joined r ∈ log → ∃ n s, c.phase = .queued n ∧ b.slots.find? c.slot = some s ∧
    s.shared? n = some r
  hit : ∀ t, .hit t ∈ log → b.usable? c.scope = some t
  stored : ∀ t, .stored t ∈ log → ∃ reply, .answered reply ∈ log ∧ b.GrantedBy c t reply

variable {b : Broker} {c : Call} {e : Event}

/-- The end of a visit is work on the part of its call. -/
theorem Visited.logged {r : Except Failure Assertion} {w : Broker} (h : Visited b c e r w) :
    ∃ log, IsWork log ∧ Logged b c.id log w := by
  have read (r : Except Failure String) (cache : AssertionCache) :
      ∃ log, IsWork log ∧ Logged b c.id log { b.recordRead c.id r with cache } := by
    obtain ⟨log, hlog, hl⟩ := logged_recordRead b c.id r
    exact ⟨log ++ [], hlog.append .nil, hl.trans (logged_cache _ c.id cache)⟩
  cases h with
  | fresh => exact ⟨[], .nil, logged_cache b c.id _⟩
  | read => exact read _ _
  | late => exact read _ _

/-- Only a call that has taken its slot refreshes. -/
theorem Refreshed.aboard {r : Except Failure AccessToken} {w : Broker} (h : Refreshed b c e r w) :
    c.phase.isQueued = false := by
  cases h <;> simp [Phase.isQueued, *]

/-- What a call does in a refresh before its result is known to others is work, and the storing of
the token that it is granted. -/
theorem Refreshed.logged {r : Except Failure AccessToken} {w : Broker} (h : Refreshed b c e r w) :
    ∃ log, IsWork log ∧ Logged b c.id (log ++ settled r) w ∧
      ∀ t, r = .ok t → ∃ reply, .answered reply ∈ log ∧ b.GrantedBy c t reply := by
  cases h with
  | unserved => exact ⟨[], .nil, logged_cache b c.id _, by simp⟩
  | cutOff => exact ⟨_, .singleton rfl, logged_note b c.id rfl, by simp⟩
  | unread _ visited =>
      obtain ⟨log, hlog, hl⟩ := visited.logged
      exact ⟨log, hlog, by simpa [settled] using hl, by simp⟩
  | @unsent _ _ _ f w _ visited =>
      obtain ⟨log, hlog, hl⟩ := visited.logged
      have hx := (hl.trans (logged_beginExchange w c)).trans
        (logged_recordExchange _ c.id (.error f))
      refine ⟨_, (hlog.append (.singleton ?_)).append (.singleton ?_),
        by simpa [settled] using hx, by simp⟩ <;> rfl
  | @granted _ _ requestedAt reply t phase result =>
      obtain ⟨log, hlog, hl⟩ := logged_recordReply b c.id reply
        (b.exchanger.conclude c.scope requestedAt reply).asked
      have hx := hl.trans (logged_recordExchange _ c.id (.ok t))
      refine ⟨_, (IsWork.append (.singleton rfl) hlog).append (.singleton rfl),
        hx.trans (logged_store _ c.id t), ?_⟩
      rintro _ ⟨⟩
      exact ⟨reply, by simp, _, _, _, phase, result⟩
  | @refused _ _ requestedAt reply f =>
      obtain ⟨log, hlog, hl⟩ := logged_recordReply b c.id reply
        (b.exchanger.conclude c.scope requestedAt reply).asked
      have hx := hl.trans (logged_recordExchange _ c.id (.error f))
      exact ⟨_, (IsWork.append (.singleton rfl) hlog).append (.singleton rfl),
        by simpa [settled] using hx, by simp⟩

/-- A refresh leaves calls and slots alone until its result is published. -/
theorem Refreshed.frame {r : Except Failure AccessToken} {w : Broker} (h : Refreshed b c e r w) :
    w.calls = b.calls ∧ w.slots = b.slots ∧ w.nextCall = b.nextCall := by
  obtain ⟨log, hlog, hl, -⟩ := h.logged
  refine ⟨hl.calls, ?_, ?_⟩
  · rw [hl.slots, List.foldl_append, hlog.foldl_land]
    cases r <;> rfl
  · rw [hl.nextCall, List.countP_append, hlog.countP_isStarted]
    cases r <;> rfl

/-- A call that goes on boards, if it has queued, and works otherwise. -/
theorem Going.logged {p : Phase} {w : Broker} (h : Going b c e p w) :
    p.isQueued = false ∧
      (c.phase.isQueued = true ∧ Logged b c.id [.boarded c.slot] w ∨
        c.phase.isQueued = false ∧ ∃ log, IsWork log ∧ Logged b c.id log w) := by
  cases h with
  | boards phase =>
      refine ⟨rfl, .inl ⟨by rw [phase]; rfl, ?_⟩⟩
      exact (logged_note b c.id (o := .boarded c.slot) rfl).trans (logged_visit _ c.id .first)
  | @sends _ _ _ w _ phase visited =>
      obtain ⟨log, hlog, hl⟩ := visited.logged
      have hx := hl.trans (logged_beginExchange w c)
      refine ⟨rfl, .inr ⟨by rw [phase]; rfl, _, ?_, hx.trans (logged_note _ c.id rfl)⟩⟩
      exact (hlog.append (.singleton rfl)).append (.singleton rfl)
  | @rereads a requestedAt reply f phase =>
      obtain ⟨log, hlog, hl⟩ := logged_recordReply b c.id reply
        (b.exchanger.conclude c.scope requestedAt reply).asked
      have hx := (hl.trans (logged_recordExchange _ c.id (.error f))).trans
        ((logged_note _ c.id (o := .rejected f) rfl).trans (logged_visit _ c.id .second))
      refine ⟨rfl, .inr ⟨by rw [phase]; rfl, _, ?_, hx⟩⟩
      exact ((IsWork.append (.singleton rfl) hlog).append (.singleton rfl)).append
        (.singleton rfl)

/-- A call that goes on has taken its slot, and logs nothing that matters to others. -/
theorem Going.quiet {p : Phase} {w : Broker} (h : Going b c e p w) :
    p.isQueued = false ∧ ∃ log, (∀ o ∈ log, o.isQuiet = true) ∧ Logged b c.id log w := by
  obtain ⟨hp, ⟨-, hl⟩ | ⟨-, log, hlog, hl⟩⟩ := h.logged
  · exact ⟨hp, _, by simp [Occurrence.isQuiet], hl⟩
  · exact ⟨hp, log, hlog.isQuiet, hl⟩

/-- A call that goes on leaves calls and slots alone. -/
theorem Going.frame {p : Phase} {w : Broker} (h : Going b c e p w) :
    w.calls = b.calls ∧ w.slots = b.slots ∧ w.nextCall = b.nextCall ∧ w.tokens = b.tokens := by
  rcases h.logged.2 with ⟨-, hl⟩ | ⟨-, log, hlog, hl⟩
  · exact ⟨hl.calls, hl.slots, hl.nextCall, hl.tokens⟩
  · exact ⟨hl.calls, hl.slots_of_work hlog, hl.nextCall_of_work hlog, hl.tokens_of_work hlog⟩

/-- The log of a refresh is warranted by the reply that granted its token. -/
theorem Warrant.refreshed {log : List Occurrence} {r : Except Failure AccessToken}
    (work : IsWork log)
    (stored : ∀ t, r = .ok t → ∃ reply, .answered reply ∈ log ∧ b.GrantedBy c t reply) :
    Warrant b c (log ++ settled r ++ announced c.slot r) := by
  refine ⟨?_, ?_, ?_⟩
  · intro o ho
    simp [work.not_mem (o := .joined o) rfl] at ho
  · intro t ht
    simp [work.not_mem (o := .hit t) rfl] at ht
  · intro t ht
    obtain ⟨u, rfl, rfl⟩ : ∃ u, r = .ok u ∧ t = u := by
      simpa [work.not_mem (o := .stored t) rfl] using ht
    obtain ⟨reply, hreply, hg⟩ := stored t rfl
    exact ⟨reply, by simp [hreply], hg⟩

/-- A call that ends says farewell. -/
theorem Closing.logged {r : Except Failure AccessToken} {w : Broker} (h : Closing b c e r w) :
    ∃ log, Farewell c log r ∧ Logged b c.id log w ∧ Warrant b c log := by
  cases h with
  | joins phase slot _ shared =>
      refine ⟨_, .joined (by rw [phase]; rfl), logged_recordJoin b c.id r, ?_, by simp, by simp⟩
      intro o ho
      obtain rfl : o = r := by simpa using ho
      exact ⟨_, _, phase, slot, shared⟩
  | hits phase _ _ _ usable =>
      refine ⟨_, .hit (by rw [phase]; rfl),
        (logged_note b c.id (o := .boarded c.slot) rfl).trans (logged_recordHit _ c.id _),
        by simp, ?_, by simp⟩
      intro t ht
      obtain rfl : t = _ := by simpa using ht
      exact usable
  | lapses phase => exact ⟨_, .lapsed (by rw [phase]; rfl), .refl b c.id, by simp, by simp, by simp⟩
  | unpublished refreshed late =>
      obtain ⟨log, hlog, hl, stored⟩ := refreshed.logged
      refine ⟨_, .refreshed refreshed.aboard hlog, ?_, .refreshed hlog stored⟩
      simpa [announced, late] using hl
  | published refreshed intime =>
      obtain ⟨log, hlog, hl, stored⟩ := refreshed.logged
      refine ⟨_, .refreshed refreshed.aboard hlog, ?_, .refreshed hlog stored⟩
      simpa [announced, intime] using hl.trans (logged_publish _ c r)

/-- A call that ends leaves the other calls alone. -/
theorem Closing.frame {r : Except Failure AccessToken} {w : Broker} (h : Closing b c e r w) :
    w.calls = b.calls ∧ w.nextCall = b.nextCall := by
  cases h with
  | joins => exact ⟨rfl, rfl⟩
  | hits => exact ⟨rfl, rfl⟩
  | lapses => exact ⟨rfl, rfl⟩
  | unpublished refreshed => exact ⟨refreshed.frame.1, refreshed.frame.2.2⟩
  | published refreshed => exact ⟨refreshed.frame.1, refreshed.frame.2.2⟩

/-! ### Every step is a move -/

/-- No request is refused before it is sent for the assertion's sake. -/
theorem isInvalidAssertion_of_prepare {x : Exchanger} {s : Secret} {scope : ScopeSet} {f : Failure}
    (h : x.prepare s scope = .error f) : f.isInvalidAssertion = false := by
  unfold Exchanger.prepare at h
  split at h
  · cases h
    rfl
  · split at h
    · cases h
      rfl
    · cases h

/-- A call that goes on moves the broker. -/
theorem Advance.move {b' : Broker} (live : b.call? c.id = some c) (h : Advance b c e b') :
    Move b e b' := by
  cases h with
  | reads phase turn served => exact .reads live phase turn served
  | goes going => exact .goes live going
  | ends closing => exact .ends live closing

theorem advance_conclude {r : Except Failure AccessToken} {w : Broker} (h : Refreshed b c e r w) :
    Advance b c e (w.conclude c r) := by
  unfold conclude
  split
  · exact .ends (.unpublished h ‹_›)
  · rename_i intime
    exact .ends (.published h (Bool.eq_false_iff.mpr intime))

theorem advance_withAssertion {round : Round} {r : Except Failure Assertion} {w : Broker}
    (phase : c.phase = .reading round) (h : Visited b c e r w) :
    Advance b c e (w.withAssertion c round r) := by
  cases r with
  | error f => exact advance_conclude (.unread phase h)
  | ok a =>
      obtain ⟨log, -, hw⟩ := h.logged
      simp only [withAssertion, exchange, hw.exchanger, hw.clock]
      split
      · rename_i f hf
        have hi := isInvalidAssertion_of_prepare hf
        simp only [endExchange, afterExchange, hi, Bool.false_eq_true, and_false, if_false]
        exact advance_conclude (.unsent phase h hf)
      · exact .goes (.sends phase h ‹_›)

theorem move_start (b : Broker) (scope : ScopeSet) (deadline : Option Nat) :
    Move b (.start scope deadline) (b.start scope deadline) := by
  unfold start
  split
  · exact .refuses ‹_›
  · rename_i some
    replace some := Bool.eq_false_iff.mpr some
    split
    · exact .serves some ‹_›
    · exact .queues some ‹_›

theorem advance_board {s : Slot} {n : Nat} (phase : c.phase = .queued n)
    (slot : b.slots.find? c.slot = some s) (turn : s.isTurn c.id = true) :
    Advance b c (.proceed c.id) (b.board c s n) := by
  unfold board
  split
  · exact .ends (.joins phase slot turn ‹_›)
  · rename_i unshared
    split
    · exact .ends (.hits phase slot turn unshared ‹_›)
    · exact .goes (.boards phase slot turn unshared ‹_›)

theorem move_proceed (b : Broker) (id : CallId) : Move b (.proceed id) (b.proceed id) := by
  unfold proceed
  split
  · exact .idle _
  · rename_i c live
    obtain rfl := id_eq_of_call? live
    split
    · rename_i n phase
      split
      · split
        · exact (advance_board phase ‹_› ‹_›).move live
        · exact .idle _
      · exact .idle _
    · rename_i round phase
      split
      · rename_i turn
        split
        · exact .reads live phase turn ‹_›
        · exact (advance_withAssertion phase (.fresh turn ‹_›)).move live
        · exact .idle _
      · exact .idle _
    · exact .idle _

theorem move_endRead {round : Round} (result : Except Failure String) (live : b.call? c.id = some c)
    (phase : c.phase = .reading round)
    (visited : ∀ cache r, b.cache.finish result = (cache, .ends r) →
      Visited b c e r { b.recordRead c.id result with cache }) :
    Move b e (b.endRead c round result) := by
  unfold endRead
  split
  · exact (advance_withAssertion phase (visited _ _ ‹_›)).move live
  · exact .idle _

theorem move_readDone (b : Broker) (id : CallId) (result : Except ReadFailure String) :
    Move b (.readDone id result) (b.readDone id result) := by
  unfold readDone
  split
  · exact .idle _
  · rename_i c live
    obtain rfl := id_eq_of_call? live
    split
    · rename_i round phase
      split
      · rename_i reading
        exact move_endRead _ live phase fun _ _ served => .read result reading served
      · exact .idle _
    · exact .idle _

theorem move_replied (b : Broker) (id : CallId) (reply : Reply) :
    Move b (.replied id reply) (b.replied id reply) := by
  unfold replied
  split
  · exact .idle _
  · rename_i c live
    obtain rfl := id_eq_of_call? live
    split
    · rename_i round a requestedAt phase
      simp only [endExchange, afterExchange]
      split
      · rename_i t result
        rw [result]
        exact (advance_conclude (.granted phase result)).move live
      · rename_i f result
        rw [result]
        split
        · rename_i again
          obtain ⟨rfl, refused⟩ := again
          exact .goes live (.rereads phase result refused)
        · exact (advance_conclude (.refused phase result ‹_›)).move live
    · exact .idle _

theorem move_expire (b : Broker) (id : CallId) : Move b (.expire id) (b.expire id) := by
  unfold expire
  split
  · exact .idle _
  · rename_i c live
    obtain rfl := id_eq_of_call? live
    split
    · rename_i due
      split
      · rename_i n phase
        split
        · exact .idle _
        · rename_i waiting
          refine .ends live (.lapses phase due fun s hs => ?_)
          simpa [hs] using waiting
      · rename_i round phase
        split
        · rename_i reading
          exact move_endRead _ live phase fun _ _ served => .late due reading served
        · split
          · exact .idle _
          · rename_i reading turn
            have waiting := And.intro (Bool.eq_false_iff.mpr reading) (Bool.eq_false_iff.mpr turn)
            exact (advance_conclude (.unserved phase due waiting)).move live
      · exact (advance_conclude (.cutOff ‹_› due)).move live
    · exact .idle _

theorem move_cancel (b : Broker) (id : CallId) : Move b (.cancel id) (b.cancel id) := by
  unfold cancel
  split
  · exact .idle _
  · rename_i c live
    obtain rfl := id_eq_of_call? live
    exact .cancels live

theorem move_overtake (b : Broker) (id : CallId) : Move b (.overtake id) (b.overtake id) := by
  unfold overtake
  split
  · exact .idle _
  · rename_i c live
    obtain rfl := id_eq_of_call? live
    split
    · split
      · exact .idle _
      · rename_i free
        exact .overtakes live ‹_› (Bool.eq_false_iff.mpr free)
    · exact .overtakesVisit live ‹_›
    · exact .idle _

theorem move_tick (b : Broker) (time : Nat) : Move b (.tick time) (b.tick time) := by
  unfold tick
  split
  · rename_i h
    apply Move.ticks h.1
    intro c hc t ht
    have := List.all_eq_true.mp h.2 c hc
    rw [Option.mem_def.mp ht] at this
    simpa using this
  · exact .idle _

/-- Every step is one of the moves. -/
theorem move_step (b : Broker) (e : Event) : Move b e (b.step e) := by
  cases e with
  | start scope deadline => exact move_start b scope deadline
  | proceed id => exact move_proceed b id
  | readDone id result => exact move_readDone b id result
  | replied id reply => exact move_replied b id reply
  | expire id => exact move_expire b id
  | cancel id => exact move_cancel b id
  | overtake id => exact move_overtake b id
  | invalidate scope => exact .invalidates scope
  | purge => exact .purges
  | setClock t => exact .sets t
  | tick time => exact move_tick b time

/-- A call that has not ended after a step asks for what a call before the step asks for, or begins
in the step and asks for something. -/
theorem Move.scope_of_mem {b' : Broker} (m : Move b e b') {d : Call} (hd : d ∈ b'.calls) :
    (∃ c ∈ b.calls, c.scope = d.scope) ∨
      ∃ deadline, e = .start d.scope deadline ∧ d.scope.isEmpty = false := by
  have stays (hd : d ∈ b.calls) : (∃ c ∈ b.calls, c.scope = d.scope) ∨
      ∃ deadline, e = .start d.scope deadline ∧ d.scope.isEmpty = false := .inl ⟨d, hd, rfl⟩
  cases m with
  | refuses => exact stays ((logged_refused b _ _ _).calls ▸ hd)
  | serves => exact stays ((logged_served b _ _ _).calls ▸ hd)
  | queues some =>
      rcases List.mem_append.mp hd with hd | hd
      · exact stays hd
      · obtain rfl := List.mem_singleton.mp hd
        exact .inr ⟨_, rfl, some⟩
  | goes _ going =>
      obtain ⟨u, hu, rfl⟩ := List.mem_map.mp hd
      refine .inl ⟨u, going.frame.1 ▸ hu, ?_⟩
      split <;> rfl
  | ends _ closing => exact stays (closing.frame.1 ▸ (mem_calls_finish.mp hd).1)
  | cancels => exact stays (List.mem_filter.mp hd).1
  | _ => exact stays hd

/-- What every move keeps holds after every run. -/
theorem run_keeps {P : Broker → Prop} (move : ∀ b e b', P b → Move b e b' → P b') {b : Broker}
    (h : P b) (events : List Event) : P (b.run events) := by
  induction events generalizing b with
  | nil => exact h
  | cons e rest ih => exact ih (move b e _ h (move_step b e))

end FederatedAccess.Broker
