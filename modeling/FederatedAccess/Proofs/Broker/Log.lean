import FederatedAccess.Broker

/-!
# What a step logs

What a call does between two waits is a list of occurrences, which the journal receives all at once.
The list also says what becomes of the rest of the state: which tokens are stored, which outcomes
land in slots, and how the totals move (`Logged`). Most occurrences are work (`IsWork`), which by
itself begins and ends nothing for other calls.
-/

namespace FederatedAccess

namespace Occurrence

/-- What an occurrence does to the stored tokens. -/
def keep (s : TokenStore) : Occurrence → TokenStore
  | .stored t => s.put t
  | _ => s

/-- What an occurrence does to the slots. -/
def land (t : Slots) : Occurrence → Slots
  | .published slot r => t.modify slot (·.publish r)
  | _ => t

/-- Whether a call begins. -/
def isStarted : Occurrence → Bool
  | .started _ _ => true
  | _ => false

/-- Whether a call shares an outcome. -/
def isJoined : Occurrence → Bool
  | .joined _ => true
  | _ => false

/-- Whether an occurrence is a part of a read or of an exchange. -/
def isWork : Occurrence → Bool
  | .span _ _ => true
  | .readBegun => true
  | .readEnded _ => true
  | .stale _ _ => true
  | .sent _ _ _ => true
  | .answered _ => true
  | .asked _ => true
  | .exchanged _ => true
  | .cutOff => true
  | .rejected _ => true
  | _ => false

/-- Whether an occurrence neither begins a call nor moves a token or an outcome between a call and
the store or a slot. -/
def isQuiet : Occurrence → Bool
  | .started _ _ => false
  | .hit _ => false
  | .joined _ => false
  | .stored _ => false
  | .published _ _ => false
  | _ => true

theorem isStarted_eq_of_isQuiet {o : Occurrence} (h : o.isQuiet = true) : o.isStarted = false := by
  cases o <;> first | rfl | cases h

end Occurrence

namespace Broker

/-- A list of occurrences that are all work. -/
def IsWork (log : List Occurrence) : Prop := ∀ o ∈ log, o.isWork = true

/-- The entry that a broker makes of an occurrence. -/
def entry (b : Broker) (id : CallId) (o : Occurrence) : Entry := ⟨b.time, b.clock, id, o⟩

theorem journal_note (b : Broker) (id : CallId) (o : Occurrence) :
    (b.note id o).journal = b.journal ++ [b.entry id o] := rfl

/-- One broker comes from another by what a call logs. -/
structure Logged (b : Broker) (id : CallId) (log : List Occurrence) (w : Broker) : Prop where
  calls : w.calls = b.calls
  exchanger : w.exchanger = b.exchanger
  clock : w.clock = b.clock
  time : w.time = b.time
  slots : w.slots = log.foldl Occurrence.land b.slots
  tokens : w.tokens = log.foldl Occurrence.keep b.tokens
  nextCall : w.nextCall = b.nextCall + log.countP (·.isStarted)
  coalesced : w.metrics.coalesced = b.metrics.coalesced + log.countP (·.isJoined)
  journal : w.journal = b.journal ++ log.map (b.entry id)

/-- A fold does nothing if no step of it does. -/
theorem foldl_eq_self {α : Type} {f : α → Occurrence → α} {log : List Occurrence}
    (h : ∀ o ∈ log, ∀ a, f a o = a) (a : α) : log.foldl f a = a := by
  induction log with
  | nil => rfl
  | cons o rest ih =>
      rw [List.foldl_cons, h o List.mem_cons_self]
      exact ih fun o ho => h o (List.mem_cons_of_mem _ ho)

namespace IsWork

variable {log rest : List Occurrence}

theorem nil : IsWork [] := by simp [IsWork]

theorem singleton {o : Occurrence} (h : o.isWork = true) : IsWork [o] := by simpa [IsWork] using h

theorem append (h : IsWork log) (hr : IsWork rest) : IsWork (log ++ rest) := by
  intro o ho
  exact (List.mem_append.mp ho).elim (h o) (hr o)

theorem not_mem (h : IsWork log) {o : Occurrence} (ho : o.isWork = false) : o ∉ log := by
  intro hmem
  simp [h o hmem] at ho

theorem foldl_land (h : IsWork log) (t : Slots) : log.foldl Occurrence.land t = t := by
  refine foldl_eq_self (fun o ho u => ?_) t
  have hw := h o ho
  cases o <;> first | rfl | cases hw

theorem foldl_keep (h : IsWork log) (s : TokenStore) : log.foldl Occurrence.keep s = s := by
  refine foldl_eq_self (fun o ho u => ?_) s
  have hw := h o ho
  cases o <;> first | rfl | cases hw

theorem isQuiet (h : IsWork log) : ∀ o ∈ log, o.isQuiet = true := by
  intro o ho
  have hw := h o ho
  cases o <;> first | rfl | cases hw

/-- Work is none of the occurrences that are counted. -/
theorem countP_eq_zero (h : IsWork log) {p : Occurrence → Bool}
    (hp : ∀ o, p o = true → o.isWork = false) : log.countP p = 0 := by
  apply List.countP_eq_zero.mpr
  intro o ho hpo
  have hw := h o ho
  rw [hp o hpo] at hw
  cases hw

theorem countP_isStarted (h : IsWork log) : log.countP (·.isStarted) = 0 :=
  h.countP_eq_zero fun o ho => by cases o <;> first | rfl | cases ho

theorem countP_isJoined (h : IsWork log) : log.countP (·.isJoined) = 0 :=
  h.countP_eq_zero fun o ho => by cases o <;> first | rfl | cases ho

end IsWork

namespace Logged

variable {b w v : Broker} {id : CallId} {log rest : List Occurrence}

theorem refl (b : Broker) (id : CallId) : Logged b id [] b :=
  ⟨rfl, rfl, rfl, rfl, rfl, rfl, rfl, rfl, (List.append_nil _).symm⟩

theorem trans (h : Logged b id log w) (hv : Logged w id rest v) : Logged b id (log ++ rest) v where
  calls := hv.calls.trans h.calls
  exchanger := hv.exchanger.trans h.exchanger
  clock := hv.clock.trans h.clock
  time := hv.time.trans h.time
  slots := by rw [hv.slots, h.slots, List.foldl_append]
  tokens := by rw [hv.tokens, h.tokens, List.foldl_append]
  nextCall := by rw [hv.nextCall, h.nextCall, List.countP_append, Nat.add_assoc]
  coalesced := by rw [hv.coalesced, h.coalesced, List.countP_append, Nat.add_assoc]
  journal := by
    have hentry : w.entry id = b.entry id := by
      funext o
      simp [entry, h.clock, h.time]
    rw [hv.journal, h.journal, hentry, List.map_append, List.append_assoc]

/-- What a call logs is told by the journal. -/
theorem log_eq (h : Logged b id log w) (h' : Logged b id rest w) : log = rest := by
  have hjournal := List.append_cancel_left (h.journal.symm.trans h'.journal)
  exact (List.map_inj_right fun _ _ he => (Entry.mk.inj he).2.2.2).mp hjournal

theorem slots_of_work (h : Logged b id log w) (hw : IsWork log) : w.slots = b.slots :=
  h.slots.trans (hw.foldl_land _)

theorem tokens_of_work (h : Logged b id log w) (hw : IsWork log) : w.tokens = b.tokens :=
  h.tokens.trans (hw.foldl_keep _)

theorem nextCall_of_work (h : Logged b id log w) (hw : IsWork log) : w.nextCall = b.nextCall := by
  rw [h.nextCall, hw.countP_isStarted, Nat.add_zero]

end Logged

/-! ### The logs of the parts of steps -/

variable (b : Broker) (id : CallId)

/-- To enter a quiet occurrence changes nothing but the journal. -/
theorem logged_note {o : Occurrence} (h : o.isQuiet = true) : Logged b id [o] (b.note id o) := by
  cases o <;> first | exact ⟨rfl, rfl, rfl, rfl, rfl, rfl, rfl, rfl, rfl⟩ | cases h

theorem logged_cancelled : Logged b id [.cancelled] (b.note id .cancelled) :=
  logged_note b id rfl

theorem logged_cache (cache : AssertionCache) : Logged b id [] { b with cache } :=
  ⟨rfl, rfl, rfl, rfl, rfl, rfl, rfl, rfl, (List.append_nil _).symm⟩

theorem logged_visit (round : Round) : Logged b id [] (b.visit id round) := logged_cache b id _

theorem logged_count (operation : Operation) (outcome : Outcome) :
    Logged b id [] (b.count operation outcome) :=
  ⟨rfl, rfl, rfl, rfl, rfl, rfl, rfl, rfl, (List.append_nil _).symm⟩

theorem logged_admitCall (scope : ScopeSet) (deadline : Option Nat) :
    Logged b b.nextCall [.started scope deadline, .span .getToken scope.key]
      (b.admitCall scope deadline) :=
  ⟨rfl, rfl, rfl, rfl, rfl, rfl, rfl, rfl, by simp [admitCall, note, measure, count, entry]⟩

theorem logged_report (r : Except Failure AccessToken) :
    Logged b id [.ended r] (b.report id r) :=
  ⟨rfl, rfl, rfl, rfl, rfl, rfl, rfl, by cases r <;> rfl, rfl⟩

theorem logged_recordHit (t : AccessToken) : Logged b id [.hit t] (b.recordHit id t) :=
  ⟨rfl, rfl, rfl, rfl, rfl, rfl, rfl, rfl, rfl⟩

theorem logged_recordJoin (r : Except Failure AccessToken) :
    Logged b id [.joined r] (b.recordJoin id r) :=
  ⟨rfl, rfl, rfl, rfl, rfl, rfl, rfl, rfl, rfl⟩

theorem logged_publish (c : Call) (r : Except Failure AccessToken) :
    Logged b c.id [.published c.slot r] (b.publish c r) :=
  ⟨rfl, rfl, rfl, rfl, rfl, rfl, rfl, rfl, rfl⟩

theorem logged_store (t : AccessToken) : Logged b id [.stored t] (b.store id t) :=
  ⟨rfl, rfl, rfl, rfl, rfl, rfl, rfl, rfl, rfl⟩

theorem logged_recordExchange (r : Except Failure AccessToken) :
    Logged b id [.exchanged r] (b.recordExchange id r) :=
  ⟨rfl, rfl, rfl, rfl, rfl, rfl, rfl, rfl, rfl⟩

theorem logged_beginExchange (c : Call) :
    Logged b c.id [.span .exchange c.scope.key] (b.beginExchange c) :=
  ⟨rfl, rfl, rfl, rfl, rfl, rfl, rfl, rfl, rfl⟩

theorem logged_beginRead : Logged b id [.readBegun] (b.beginRead id) :=
  ⟨rfl, rfl, rfl, rfl, rfl, rfl, rfl, rfl, rfl⟩

theorem logged_reads (cache : AssertionCache) :
    Logged b id [.readBegun] ({ b with cache }.beginRead id) :=
  (logged_cache b id cache).trans (logged_beginRead _ id)

theorem logged_refused (scope : ScopeSet) (deadline : Option Nat) (r : Except Failure AccessToken) :
    Logged b b.nextCall [.started scope deadline, .span .getToken scope.key, .ended r]
      ((b.admitCall scope deadline).report b.nextCall r) :=
  (logged_admitCall b scope deadline).trans (logged_report _ b.nextCall r)

theorem logged_served (scope : ScopeSet) (deadline : Option Nat) (t : AccessToken) :
    Logged b b.nextCall [.started scope deadline, .span .getToken scope.key, .hit t, .ended (.ok t)]
      (((b.admitCall scope deadline).recordHit b.nextCall t).report b.nextCall (.ok t)) :=
  ((logged_admitCall b scope deadline).trans (logged_recordHit _ b.nextCall t)).trans
    (logged_report _ b.nextCall (.ok t))

/-! ### What becomes of a call that ends -/

theorem mem_calls_finish {b : Broker} {c d : Call} {r : Except Failure AccessToken} :
    d ∈ (b.finish c r).calls ↔ d ∈ b.calls ∧ d.id ≠ c.id := by
  change d ∈ b.calls.filter (·.id ≠ c.id) ↔ _
  simp

theorem slots_finish (b : Broker) (c : Call) (r : Except Failure AccessToken) :
    (b.finish c r).slots = b.slots.release c.scope.key c.slot c.id := rfl

theorem time_finish (b : Broker) (c : Call) (r : Except Failure AccessToken) :
    (b.finish c r).time = b.time := rfl

theorem Logged.journal_finish {b w : Broker} {c : Call} {log : List Occurrence}
    (h : Logged b c.id log w) (r : Except Failure AccessToken) :
    (w.finish c r).journal = b.journal ++ (log ++ [Occurrence.ended r]).map (b.entry c.id) := by
  rw [← (h.trans (logged_report w c.id r)).journal]
  rfl

/-! ### Parts whose logs depend on what they are given -/

/-- A reply is entered first, whatever is then asked about it. -/
theorem logged_recordReply (reply : Reply) (asked : Option Classification.Context) :
    ∃ log, IsWork log ∧ Logged b id (.answered reply :: log) (b.recordReply id reply asked) := by
  cases asked with
  | none => exact ⟨[], .nil, logged_note b id rfl⟩
  | some context =>
      exact ⟨[.asked context], .singleton rfl,
        (logged_note b id rfl).trans (logged_note _ id rfl)⟩

theorem logged_recordRead (r : Except Failure String) :
    ∃ log, IsWork log ∧ Logged b id log (b.recordRead id r) := by
  have h : Logged b id [.readEnded r]
      ((b.note id (.readEnded r)).count .readAssertion (.ofExcept r)) :=
    (logged_note b id rfl).trans (logged_count _ id _ _)
  unfold recordRead
  dsimp only
  split
  · exact ⟨_, .append (.singleton rfl) (.singleton rfl), h.trans (logged_note _ id rfl)⟩
  · exact ⟨_, .singleton rfl, h⟩

end Broker

end FederatedAccess
