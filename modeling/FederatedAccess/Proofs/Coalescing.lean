import FederatedAccess.Proofs.Broker.Gathering
import FederatedAccess.Proofs.SharedOutcome

/-!
# Calls that come while a refresh is under way

Any number of calls may come for a scope set whose token is missing before the first of them ends.
Only the first sends requests, and whatever it ends with is the result of all of them. What calls
for other scope sets do meanwhile makes no difference.
-/

namespace FederatedAccess

/-- Whether a call begins with a deadline. -/
def Occurrence.isLimited : Occurrence → Bool
  | .started _ (some _) => true
  | _ => false

namespace Broker

/-- How often other calls than some have shared an outcome since an earlier state. -/
def joinedBeside (b₀ b : Broker) (ids : List CallId) : Nat :=
  (since b₀ b).countP fun x => x.what.isJoined && !ids.contains x.call

/-- Of some calls only the leader sends requests, and none ends with another result than one. -/
structure OneRefresh (b : Broker) (leader : CallId) (r : Except Failure AccessToken)
    (ids : List CallId) : Prop where
  sent : ∀ i ∈ ids, ∀ assertion scope request,
    .sent assertion scope request ∈ b.history i → i = leader
  ended : ∀ i ∈ ids, ∀ r', .ended r' ∈ b.history i → r' = r

section Start

variable {b₀ : Broker} {scope : ScopeSet} {deadline : Option Nat}

/-- Where no call for a key is live, nobody queues in the slot of the key. -/
theorem queue_eq_nil (h : b₀.Holding) (alone : ∀ c ∈ b₀.calls, c.scope.key ≠ scope.key) :
    (b₀.slots.take scope.key).1.queue = [] := by
  rcases b₀.slots.take_cases scope.key with ⟨-, hs⟩ | ⟨hnew, -⟩
  · apply List.eq_nil_iff_forall_not_mem.mpr
    intro i hi
    obtain ⟨c, hc, -, hslot⟩ := h.holders _ hs i hi
    apply alone c hc
    rw [← h.key_of_slot hc hs hslot.symm, b₀.slots.key_take]
  · rw [hnew]

/-- A call that comes when nothing is stored for its scope set and nobody waits is the leader. -/
theorem gathering_start (h : b₀.Coherent) (unstored : b₀.tokens.find? scope.key = none)
    (alone : ∀ c ∈ b₀.calls, c.scope.key ≠ scope.key) (some : scope.isEmpty = false) :
    Gathering scope.key b₀.nextCall b₀ (b₀.step (.start scope deadline)) := by
  have hstep : b₀.step (.start scope deadline) =
      (b₀.admitCall scope deadline).joinQueue b₀.nextCall scope deadline := by
    simp only [step, start, some, usable?_eq_none unstored, Bool.false_eq_true, if_false]
  have harrivals : arrivals b₀ b₀ scope.key = [] := by simp [arrivals, since]
  rw [hstep]
  apply Gathering.queues h (.refl _ _) unstored some
  · rw [harrivals, queue_eq_nil h.holding alone]
  · rw [harrivals]
    rfl
  · intro c hc hk
    exact absurd hk (alone c hc)

/-- A call for the empty scope set ends at once, and nobody comes after it. -/
theorem serving_start (h : b₀.Coherent) (alone : ∀ c ∈ b₀.calls, c.scope.key ≠ scope.key)
    (none : scope.isEmpty = true) :
    Serving scope.key b₀.nextCall (.error Exchanger.noScope) b₀ (b₀.step (.start scope deadline))
      [] [] := by
  have hstep : b₀.step (.start scope deadline) =
      (b₀.admitCall scope deadline).report b₀.nextCall (.error Exchanger.noScope) := by
    simp only [step, start, none, if_true]
  have moved := move_step b₀ (.start scope deadline)
  have hl := logged_refused b₀ scope deadline (.error Exchanger.noScope)
  rw [← hstep] at hl
  generalize b₀.step (.start scope deadline) = b at moved hl ⊢
  obtain ⟨hlater, harrivals⟩ := (Later.refl scope.key b₀).arrive hl.nextCall hl.journal rfl
    (by simp [Occurrence.startsFor])
  refine ⟨h.move moved, hlater, ?_, ?_, ?_, ?_, ?_, ?_⟩
  · rw [harrivals]
    simp [arrivals, since]
  · rw [history_of_journal hl.journal, if_pos rfl, h.ledger.fresh _ (Nat.le_refl _)]
    exact ⟨by simp, by simp, rfl⟩
  · simp
  · intro c hc hk
    exact absurd hk (alone c (hl.calls ▸ hc))
  · intro c hc hk
    exact absurd hk (alone c (hl.calls ▸ hc))
  · exact fun hne => absurd rfl hne

/-- If the leader ends in an orderly run, and in time for the others, these are served with its
result. -/
theorem serving_run {events : List Event} {e : Entry} {r : Except Failure AccessToken}
    (h : b₀.Coherent) (unstored : b₀.tokens.find? scope.key = none)
    (alone : ∀ c ∈ b₀.calls, c.scope.key ≠ scope.key)
    (orderly : (b₀.step (.start scope deadline)).Orderly scope.key b₀.nextCall events)
    (entered : e ∈ (b₀.run (.start scope deadline :: events)).journal)
    (call : e.call = b₀.nextCall) (ended : e.what = .ended r) (intime : timedOut r = false)
    (patient : ∀ i ∈ arrivals b₀ (b₀.run (.start scope deadline :: events)) scope.key,
      i ≠ b₀.nextCall → ∀ scope' limit, .started scope' (some limit) ∈
        (b₀.run (.start scope deadline :: events)).history i → e.time < limit) :
    ∃ served waiting, Serving scope.key b₀.nextCall r b₀
      (b₀.run (.start scope deadline :: events)) served waiting := by
  cases hempty : scope.isEmpty with
  | false =>
      have hgathering : Gathering scope.key b₀.nextCall b₀ (b₀.step (.start scope deadline)) :=
        gathering_start h unstored alone hempty
      exact hgathering.run orderly entered call ended intime patient
  | true =>
      obtain ⟨served, waiting, hserving⟩ := (serving_start h alone hempty).run events orderly
      have hended : .ended r ∈ (b₀.run (.start scope deadline :: events)).history b₀.nextCall :=
        mem_historyOf.mpr ⟨e, entered, call, ended⟩
      obtain rfl := hserving.led.only r hended
      exact ⟨served, waiting, hserving⟩

end Start

namespace Serving

variable {key : ScopeKey} {leader : CallId} {r : Except Failure AccessToken} {b₀ b : Broker}
  {served waiting : List CallId}

/-- A call that is not the leader has queued, and has done no more than share the result. -/
theorem follows (h : Serving key leader r b₀ b served waiting) {i : CallId}
    (hi : i ∈ arrivals b₀ b key) (hne : i ≠ leader) :
    ∃ (c : Call) (n : Nat), b.history i = opening c n ∨
      b.history i = opening c n ++ [.joined r, .ended r] := by
  rw [h.arrived] at hi
  rcases List.mem_append.mp ((List.mem_cons.mp hi).resolve_left hne) with hi | hi
  · obtain ⟨c, n, hh⟩ := h.followed i hi
    exact ⟨c, n, .inr hh⟩
  · obtain ⟨c, n, hh⟩ := h.history_of_waiting hi
    exact ⟨c, n, .inl hh⟩

theorem oneRefresh (h : Serving key leader r b₀ b served waiting) :
    b.OneRefresh leader r (arrivals b₀ b key) := by
  constructor
  · intro i hi assertion scope request hsent
    by_contra hne
    obtain ⟨c, n, hh | hh⟩ := h.follows hi hne
    · simp [hh, opening] at hsent
    · simp [hh, opening] at hsent
  · intro i hi r' hended
    by_cases hne : i = leader
    · exact h.led.only r' (hne ▸ hended)
    · obtain ⟨c, n, hh | hh⟩ := h.follows hi hne
      · simp [hh, opening] at hended
      · simpa [hh, opening] using hended

/-- The calls that have been served are those that have shared the result. -/
theorem coalesced (h : Serving key leader r b₀ b served waiting) (ledger : b₀.Ledger)
    (counted₀ : b₀.Counted) (counted : b.Counted) :
    b.metrics.coalesced = b₀.metrics.coalesced + served.length +
      joinedBeside b₀ b (arrivals b₀ b key) := by
  have hist {i : CallId} (hi : i ∈ arrivals b₀ b key) :
      historyOf (since b₀ b) i = b.history i :=
    historyOf_since h.later.journal ledger (h.later.fresh i hi).1
  have hleader : (historyOf (since b₀ b) leader).countP (·.isJoined) = 0 := by
    rw [hist (h.arrived ▸ List.mem_cons_self)]
    exact h.led.alone
  have hserved : ∀ i ∈ served, (historyOf (since b₀ b) i).countP (·.isJoined) = 1 := by
    intro i hi
    obtain ⟨c, n, hh⟩ := h.followed i hi
    rw [hist (h.arrived ▸ List.mem_cons_of_mem _ (List.mem_append_left _ hi)), hh]
    rfl
  have hwaiting : ∀ i ∈ waiting, (historyOf (since b₀ b) i).countP (·.isJoined) = 0 := by
    intro i hi
    obtain ⟨c, n, hh⟩ := h.history_of_waiting hi
    rw [hist (h.arrived ▸ List.mem_cons_of_mem _ (List.mem_append_right _ hi)), hh]
    rfl
  have hsum : ((arrivals b₀ b key).flatMap (historyOf (since b₀ b))).countP (·.isJoined) =
      served.length := by
    have hones := List.map_congr_left hserved
    have hzeros := List.map_congr_left hwaiting
    rw [h.arrived, List.flatMap_cons, List.flatMap_append, List.countP_append, List.countP_append,
      hleader, List.countP_flatMap, List.countP_flatMap]
    simp only [Function.comp_def, hones, hzeros]
    simp
  rw [counted, since_eq h.later.journal, List.countP_append, ← counted₀,
    countP_calls (·.isJoined) (since b₀ b) h.later.nodup, hsum, joinedBeside, Nat.add_assoc]

end Serving

/-- Let calls for a scope set come while the first of them, for which no token is stored and nobody
waits, has not ended; let none be cancelled or overtaken, let the first end with something other
than a timeout before the deadlines of the others, and let these not pass while its result is handed
on. Then only the first has sent requests, and when the others have gone on in turn, all have ended
with its result, and all but the first have been counted as sharing it. -/
theorem callers_share_one_refresh (config : Config) (x : Exchanger) (clock : Instant)
    (before events : List Event) (scope : ScopeSet) (deadline : Option Nat) (e : Entry)
    (r : Except Failure AccessToken) :
    let b₀ := (make config x clock).run before
    let b := b₀.run (.start scope deadline :: events)
    let leader := b₀.nextCall
    let ids := arrivals b₀ b scope.key
    b₀.tokens.find? scope.key = none → (∀ c ∈ b₀.calls, c.scope.key ≠ scope.key) →
    (b₀.step (.start scope deadline)).Orderly scope.key leader events →
    e ∈ b.journal → e.call = leader → e.what = .ended r → timedOut r = false →
    (∀ i ∈ ids, i ≠ leader → ∀ scope' limit, .started scope' (some limit) ∈ b.history i →
      e.time < limit) →
    ids.head? = some leader ∧ ids.Nodup ∧ b.OneRefresh leader r ids ∧
      ∃ waiting : List CallId,
        (∀ i, i ∈ waiting ↔ ∃ c ∈ b.calls, c.id = i ∧ c.scope.key = scope.key) ∧
        let done := b.run (waiting.map .proceed)
        arrivals b₀ done scope.key = ids ∧ done.OneRefresh leader r ids ∧
          (∀ i ∈ ids, .ended r ∈ done.history i) ∧
          done.metrics.coalesced + 1 =
            b₀.metrics.coalesced + ids.length + joinedBeside b₀ done ids := by
  intro b₀ b leader ids unstored alone orderly entered call ended intime patient
  have hmake := Coherent.make config x clock
  have h : b₀.Coherent := hmake.run before
  have counted₀ : b₀.Counted := (Counted.make config x clock).run before
  obtain ⟨served, waiting, hserving⟩ : ∃ served waiting,
      Serving scope.key leader r b₀ b served waiting :=
    serving_run h unstored alone orderly entered call ended intime patient
  refine ⟨?_, hserving.later.nodup, hserving.oneRefresh, waiting, ?_, ?_⟩
  · change (arrivals b₀ b scope.key).head? = some leader
    rw [hserving.arrived]
    rfl
  · intro i
    constructor
    · exact hserving.call_of_waiting
    · rintro ⟨c, hc, rfl, hk⟩
      exact hserving.live c hc hk
  · intro done
    have hdone : Serving scope.key leader r b₀ done (served ++ waiting) [] := hserving.drains
    have harrived : arrivals b₀ done scope.key = ids := by
      rw [hdone.arrived, List.append_nil]
      exact hserving.arrived.symm
    refine ⟨harrived, harrived ▸ hdone.oneRefresh, ?_, ?_⟩
    · intro i hi
      rw [← harrived] at hi
      by_cases hne : i = leader
      · rw [hne]
        exact hdone.led.ended
      · rw [hdone.arrived, List.append_nil] at hi
        obtain ⟨c, n, hh⟩ := hdone.followed i ((List.mem_cons.mp hi).resolve_left hne)
        simp [hh]
    · have counted : done.Counted := (counted₀.run _).run _
      have hcoalesced := hdone.coalesced h.ledger counted₀ counted
      have hlength : ids.length = (served ++ waiting).length + 1 := by
        rw [← harrived, hdone.arrived, List.append_nil]
        rfl
      rw [harrived] at hcoalesced
      omega

/-! ### A run in which three calls share a failure -/

def sampleBroker : Broker := make sampleConfig sampleExchanger sampleClock

/-- Two more calls come while the first boards and reads the assertion, which then fails. -/
def gatheringRefresh : List Event :=
  [.start sampleScope none, .proceed 0, .start sampleScope none, .proceed 0,
    .readDone 0 (.error (.missing "/token"))]

def gathered : Broker := sampleBroker.run (.start sampleScope none :: gatheringRefresh)

def missingToken : Except Failure AccessToken := .error (.assertion (.missing "/token"))

set_option maxRecDepth 20000 in
theorem failure_shared_by_three :
    arrivals sampleBroker gathered sampleScope.key = [0, 1, 2] ∧
      ∃ waiting : List CallId, ∀ i ∈ [0, 1, 2],
        .ended missingToken ∈ (gathered.run (waiting.map .proceed)).history i := by
  have hids : arrivals sampleBroker gathered sampleScope.key = [0, 1, 2] := by decide +kernel
  have hentered : (⟨0, sampleClock, 0, .ended missingToken⟩ : Entry) ∈ gathered.journal := by
    have hget : gathered.journal[13]? = some ⟨0, sampleClock, 0, .ended missingToken⟩ := rfl
    exact List.mem_of_getElem? hget
  have hlimits : gathered.journal.all (fun y => !y.what.isLimited) = true := by decide +kernel
  have horderly : (sampleBroker.step (.start sampleScope none)).Orderly sampleScope.key 0
      gatheringRefresh := by
    refine ⟨fun _ => ⟨rfl, _, List.mem_cons_self, rfl⟩, trivial,
      fun _ => ⟨rfl, _, List.mem_cons_self, rfl⟩, trivial, trivial, trivial⟩
  have hshared := callers_share_one_refresh sampleConfig sampleExchanger sampleClock []
    gatheringRefresh sampleScope none ⟨0, sampleClock, 0, .ended missingToken⟩ missingToken rfl
    (by simp [make, run]) horderly hentered rfl rfl rfl ?_
  · obtain ⟨-, -, -, waiting, -, -, -, hended, -⟩ := hshared
    exact ⟨hids, waiting, fun i hi => hended i (hids ▸ hi)⟩
  · intro i _ _ scope limit hstarted
    obtain ⟨y, hy, -, hw⟩ := mem_historyOf.mp hstarted
    have hno := List.all_eq_true.mp hlimits y hy
    rw [hw] at hno
    cases hno

end Broker

end FederatedAccess
