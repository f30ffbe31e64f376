import FederatedAccess.Proofs.Broker.Line
import FederatedAccess.Proofs.Broker.Renumbering
import FederatedAccess.Proofs.StoredTokens

/-!
# Brokers that differ by sweeps

A sweep drops tokens that are no longer usable and slots that nobody holds. Two brokers that differ
by sweeps give out the same tokens, show the same apart from their stores, and serve the calls for a
key in the same order; and a call that queues shares in one of them what it shares in the other,
although its slot may be another one that has counted less (`Broker.Like`).
-/

namespace FederatedAccess

/-! ### Stored tokens -/

namespace TokenStore

/-- Two stores give out the same tokens from an instant on. -/
structure Like (now : Instant) (s s' : TokenStore) : Prop where
  margin : s.margin = s'.margin
  keys : (s.entries.map Prod.fst).Nodup
  keys' : (s'.entries.map Prod.fst).Nodup
  usable : ∀ scope, s.get? scope now = s'.get? scope now

namespace Like

variable {s s' : TokenStore} {now : Instant}

theorem empty (margin : Duration) (now : Instant) :
    Like now (TokenStore.empty margin) (TokenStore.empty margin) :=
  ⟨rfl, List.nodup_nil, List.nodup_nil, fun _ => rfl⟩

theorem symm (h : Like now s s') : Like now s' s :=
  ⟨h.margin.symm, h.keys', h.keys, fun scope => (h.usable scope).symm⟩

theorem later (h : Like now s s') {t : Instant} (hle : now ≤ t) : Like t s s' where
  margin := h.margin
  keys := h.keys
  keys' := h.keys'
  usable scope := by rw [s.get?_later hle, s'.get?_later hle, h.usable, h.margin]

theorem put (h : Like now s s') (t : AccessToken) : Like now (s.put t) (s'.put t) where
  margin := h.margin
  keys := keys_put h.keys t
  keys' := keys_put h.keys' t
  usable scope := by rw [get?_put, get?_put, h.usable, h.margin]

theorem invalidate (h : Like now s s') (scope : ScopeSet) :
    Like now (s.invalidate scope) (s'.invalidate scope) where
  margin := h.margin
  keys := (List.filter_sublist.map Prod.fst).nodup h.keys
  keys' := (List.filter_sublist.map Prod.fst).nodup h.keys'
  usable other := by rw [get?_invalidate, get?_invalidate, h.usable]

theorem purge (h : Like now s s') : Like now s (s'.purge now) where
  margin := h.margin
  keys := h.keys
  keys' := (List.filter_sublist.map Prod.fst).nodup h.keys'
  usable scope := by rw [get?_purge h.keys', h.usable]

/-- Whether a token is stored differs only where it is not usable. -/
theorem get?_eq_none_of_holds (h : Like now s s') {scope : ScopeSet}
    (hne : s.holds scope ≠ s'.holds scope) : s.get? scope now = none := by
  cases hget : s.get? scope now with
  | none => rfl
  | some t =>
      have hheld {u : TokenStore} (hu : u.get? scope now = some t) : u.holds scope = true := by
        rw [holds, (Option.filter_eq_some_iff.mp hu).1]
        rfl
      exact absurd ((hheld hget).trans (hheld ((h.usable scope).symm.trans hget)).symm) hne

end Like

end TokenStore

/-! ### Shared outcomes -/

/-- Calls that queue among other slots share the same there, now and after more is published. -/
def Slots.SameShare (t t' : Slots) (c c' : Call) : Prop :=
  ∀ n n', c.phase = .queued n → c'.phase = .queued n' →
    ∀ s ∈ t.stored, s.id = c.slot → ∀ s' ∈ t'.stored, s'.id = c'.slot →
      s.landed + n' = s'.landed + n ∧ (s.landed ≠ n → s.outcome = s'.outcome)

namespace Slots.SameShare

variable {t t' u u' : Slots} {c c' : Call}

theorem symm (h : SameShare t t' c c') : SameShare t' t c' c := by
  intro n' n hn' hn s' hs' hid' s hs hid
  obtain ⟨count, outcome⟩ := h n n' hn hn' s hs hid s' hs' hid'
  exact ⟨count.symm, fun moved => (outcome fun he => moved (by omega)).symm⟩

/-- Only the slots of the two calls matter, and not who queues in them. -/
theorem of_like (h : SameShare t t' c c')
    (like : ∀ s ∈ u.stored, s.id = c.slot → ∃ v ∈ t.stored, s.Like v)
    (like' : ∀ s ∈ u'.stored, s.id = c'.slot → ∃ v ∈ t'.stored, s.Like v) :
    SameShare u u' c c' := by
  intro n n' hn hn' s hs hid s' hs' hid'
  obtain ⟨v, hv, hl⟩ := like s hs hid
  obtain ⟨v', hv', hl'⟩ := like' s' hs' hid'
  rw [hl.landed, hl.outcome, hl'.landed, hl'.outcome]
  exact h n n' hn hn' v hv (hl.id.symm.trans hid) v' hv' (hl'.id.symm.trans hid')

theorem under (h : SameShare t t' c c') (hu : u.Under t) (hu' : u'.Under t') :
    SameShare u u' c c' :=
  h.of_like (fun s hs _ => hu.like s hs) fun s hs _ => hu'.like s hs

/-- What is published reaches both calls or none. -/
theorem publish (h : SameShare t t' c c') {i i' : SlotId} (hi : c.slot = i ↔ c'.slot = i')
    (r : Except Failure AccessToken) :
    SameShare (t.modify i (·.publish r)) (t'.modify i' (·.publish r)) c c' := by
  intro n n' hn hn' s hs hid s' hs' hid'
  obtain ⟨v, hv, rfl⟩ := Slots.mem_modify.mp hs
  obtain ⟨v', hv', rfl⟩ := Slots.mem_modify.mp hs'
  have hvid : v.id = c.slot := by split at hid <;> exact hid
  have hvid' : v'.id = c'.slot := by split at hid' <;> exact hid'
  obtain ⟨count, outcome⟩ := h n n' hn hn' v hv hvid v' hv' hvid'
  rw [hvid, hvid']
  by_cases here : c.slot = i
  · rw [if_pos here, if_pos (hi.mp here)]
    refine ⟨?_, fun _ => rfl⟩
    change v.landed + 1 + n' = v'.landed + 1 + n
    omega
  · rw [if_neg here, if_neg fun there => here (hi.mpr there)]
    exact ⟨count, outcome⟩

theorem shared? (h : SameShare t t' c c') {n n' : Nat} (hn : c.phase = .queued n)
    (hn' : c'.phase = .queued n') {s s' : Slot} (hs : s ∈ t.stored) (hid : s.id = c.slot)
    (hs' : s' ∈ t'.stored) (hid' : s'.id = c'.slot) : s.shared? n = s'.shared? n' := by
  obtain ⟨count, outcome⟩ := h n n' hn hn' s hs hid s' hs' hid'
  unfold Slot.shared?
  by_cases still : s.landed = n
  · rw [if_pos still, if_pos (by omega)]
  · rw [if_neg still, if_neg (by omega), outcome still]

end Slots.SameShare

namespace Broker

/-- One broker is the other but for sweeps. -/
structure Like (b b' : Broker) : Prop where
  plain : b.plain = b'.plain
  tokens : TokenStore.Like b.clock b.tokens b'.tokens
  lines : ∀ key, b.line key = b'.line key
  shares : ∀ c ∈ b.calls, ∀ c' ∈ b'.calls, c.id = c'.id → Slots.SameShare b.slots b'.slots c c'

/-- A live call of a broker, and the one that it is in another broker. -/
structure Twins (b b' : Broker) (c c' : Call) : Prop where
  like : b.Like b'
  hold : b.Holding
  hold' : b'.Holding
  live : c ∈ b.calls
  live' : c' ∈ b'.calls
  same : c.plain = c'.plain

variable {b b' w w' : Broker} {c c' d d' : Call}

/-! ### What like brokers have in common -/

namespace Holding

/-- Calls hold the same slot when they are for the same key. -/
theorem slot_eq_iff (h : b.Holding) (hc : c ∈ b.calls) (hd : d ∈ b.calls) :
    d.slot = c.slot ↔ d.scope.key = c.scope.key := by
  obtain ⟨s, hs, hid, hkey, -⟩ := h.held c hc
  obtain ⟨u, hu, huid, hukey, -⟩ := h.held d hd
  rw [← hid, ← hkey, ← huid, ← hukey]
  constructor
  · intro he
    rw [h.slots.eq_of_id hu hs he]
  · intro he
    rw [h.slots.eq_of_key hu hs he]

/-- Whether a slot is taken can be told without the numbers of slots. -/
theorem isTaken_iff (h : b.Holding) (hc : c ∈ b.calls) : b.isTaken c.slot = true ↔
    ∃ d ∈ b.plain.calls, d.scope.key = c.scope.key ∧ d.phase.isQueued = false := by
  simp only [isTaken, List.any_eq_true, plain, List.mem_map, Bool.and_eq_true, beq_iff_eq,
    Bool.not_eq_true']
  constructor
  · rintro ⟨d, hd, hslot, haboard⟩
    refine ⟨d.plain, ⟨d, hd, rfl⟩, (h.slot_eq_iff hc hd).mp hslot, ?_⟩
    rw [Call.plain, Phase.isQueued_plain, haboard]
  · rintro ⟨-, ⟨d, hd, rfl⟩, hkey, haboard⟩
    rw [Call.plain, Phase.isQueued_plain] at haboard
    exact ⟨d, hd, (h.slot_eq_iff hc hd).mpr hkey, haboard⟩

end Holding

namespace Like

theorem clock (h : b.Like b') : b.clock = b'.clock := (congrArg Broker.clock h.plain :)

theorem time (h : b.Like b') : b.time = b'.time := (congrArg Broker.time h.plain :)

theorem cache (h : b.Like b') : b.cache = b'.cache := (congrArg Broker.cache h.plain :)

theorem exchanger (h : b.Like b') : b.exchanger = b'.exchanger :=
  (congrArg Broker.exchanger h.plain :)

theorem nextCall (h : b.Like b') : b.nextCall = b'.nextCall :=
  (congrArg Broker.nextCall h.plain :)

theorem usable? (h : b.Like b') (scope : ScopeSet) : b.usable? scope = b'.usable? scope := by
  rw [Broker.usable?, Broker.usable?, ← h.clock]
  exact h.tokens.usable scope

/-- Calls with the same number are the same but for slots and tickets. -/
theorem same_of_id (h : b.Like b') (hold : b.Holding) (hold' : b'.Holding) (hd : d ∈ b.calls)
    (hd' : d' ∈ b'.calls) (hid : d.id = d'.id) : d.plain = d'.plain := by
  have hcall : b.call? d.id = some d := hold.call?_eq_some_iff.mpr ⟨hd, rfl⟩
  have hcall' : b'.call? d.id = some d' := hold'.call?_eq_some_iff.mpr ⟨hd', hid.symm⟩
  have hplain : b.plain.call? d.id = b'.plain.call? d.id := by rw [h.plain]
  rw [call?_plain, call?_plain, hcall, hcall'] at hplain
  exact Option.some.inj hplain

/-- A number is that of a live call in both brokers or in none. -/
theorem call?_cases (h : b.Like b') (hold : b.Holding) (hold' : b'.Holding) (id : CallId) :
    (b.call? id = none ∧ b'.call? id = none) ∨
      ∃ c c', b.call? id = some c ∧ b'.call? id = some c' ∧ Twins b b' c c' := by
  have hplain : (b.call? id).map Call.plain = (b'.call? id).map Call.plain := by
    rw [← call?_plain, ← call?_plain, h.plain]
  cases hc : b.call? id with
  | none =>
      rw [hc] at hplain
      exact .inl ⟨rfl, Option.map_eq_none_iff.mp hplain.symm⟩
  | some c =>
      rw [hc] at hplain
      obtain ⟨c', hc', hsame⟩ := Option.map_eq_some_iff.mp hplain.symm
      exact .inr ⟨c, c', rfl, hc', h, hold, hold', mem_calls_of_call? hc, mem_calls_of_call? hc',
        hsame.symm⟩

/-! ### Parts of steps -/

theorem note (h : b.Like b') (id : CallId) {what what' : Occurrence}
    (same : what.plain = what'.plain) : (b.note id what).Like (b'.note id what') where
  plain := by rw [plain_note, plain_note, h.plain, same]
  tokens := h.tokens
  lines := h.lines
  shares := h.shares

theorem count (h : b.Like b') (operation : Operation) (outcome : Outcome) :
    (b.count operation outcome).Like (b'.count operation outcome) where
  plain := by rw [plain_count, plain_count, h.plain]
  tokens := h.tokens
  lines := h.lines
  shares := h.shares

theorem measure (h : b.Like b') (f : Metrics → Metrics) : (b.measure f).Like (b'.measure f) where
  plain := by rw [plain_measure, plain_measure, h.plain]
  tokens := h.tokens
  lines := h.lines
  shares := h.shares

theorem withCache (h : b.Like b') {cache cache' : AssertionCache} (same : cache = cache') :
    Like { b with cache } { b' with cache := cache' } where
  plain := same ▸ congrArg (fun b : Broker => { b with cache }) h.plain
  tokens := h.tokens
  lines := h.lines
  shares := h.shares

theorem store (h : b.Like b') (id : CallId) (t : AccessToken) :
    (b.store id t).Like (b'.store id t) where
  plain := by rw [plain_store, plain_store, h.plain]
  tokens := h.tokens.put t
  lines := h.lines
  shares := h.shares

theorem report (h : b.Like b') (id : CallId) (r : Except Failure AccessToken) :
    (b.report id r).Like (b'.report id r) :=
  ((h.note id rfl).count _ _).measure _

theorem recordHit (h : b.Like b') (id : CallId) (t : AccessToken) :
    (b.recordHit id t).Like (b'.recordHit id t) :=
  ((h.note id rfl).count _ _).measure _

theorem beginRead (h : b.Like b') (id : CallId) : (b.beginRead id).Like (b'.beginRead id) :=
  ((h.note id rfl).count _ _).measure _

theorem admitCall (h : b.Like b') (scope : ScopeSet) (deadline : Option Nat) :
    (b.admitCall scope deadline).Like (b'.admitCall scope deadline) := by
  have numbered : Like { b with nextCall := b.nextCall + 1 }
      { b' with nextCall := b.nextCall + 1 } :=
    ⟨congrArg (fun w : Broker => { w with nextCall := b.nextCall + 1 }) h.plain, h.tokens,
      h.lines, h.shares⟩
  simp only [Broker.admitCall, ← h.nextCall]
  exact (((numbered.note _ rfl).note _ rfl).count _ _).measure _

end Like

namespace Twins

theorem id (h : Twins b b' c c') : c.id = c'.id := (congrArg Call.id h.same :)

theorem scope (h : Twins b b' c c') : c.scope = c'.scope := (congrArg Call.scope h.same :)

/-- A call queues in both brokers or in none. -/
theorem queued (h : Twins b b' c c') {n : Nat} (hn : c.phase = .queued n) :
    ∃ n', c'.phase = .queued n' := by
  have phase : c.phase.plain = c'.phase.plain := (congrArg Call.phase h.same :)
  rw [hn] at phase
  exact Phase.plain_eq_queued_iff.mp phase.symm

/-- A call that does not queue is in the same phase in both brokers. -/
theorem phase {p : Phase} (h : Twins b b' c c') (hp : c.phase = p) (aboard : p.isQueued = false) :
    c'.phase = p := by
  have phase : c.phase.plain = c'.phase.plain := (congrArg Call.phase h.same :)
  have aboard' : c'.phase.isQueued = false := by
    rw [← Phase.isQueued_plain, ← phase, Phase.isQueued_plain, hp, aboard]
  rw [← Phase.plain_eq aboard', ← phase, hp, Phase.plain_eq aboard]

theorem isDue (h : Twins b b' c c') : b'.isDue c' = b.isDue c := by
  have deadline : c.deadline = c'.deadline := (congrArg Call.deadline h.same :)
  rw [Broker.isDue, Broker.isDue, ← deadline, ← h.like.time]

theorem shares (h : Twins b b' c c') : Slots.SameShare b.slots b'.slots c c' :=
  h.like.shares c h.live c' h.live' h.id

/-- The calls stay what they are while calls and slots do. -/
theorem aside (h : Twins b b' c c') (like : w.Like w')
    (frame : w.calls = b.calls ∧ w.slots = b.slots ∧ w.nextCall = b.nextCall)
    (frame' : w'.calls = b'.calls ∧ w'.slots = b'.slots ∧ w'.nextCall = b'.nextCall) :
    Twins w w' c c' where
  like := like
  hold := h.hold.of_eq frame.1 frame.2.1 (Nat.le_of_eq frame.2.2.symm)
  hold' := h.hold'.of_eq frame'.1 frame'.2.1 (Nat.le_of_eq frame'.2.2.symm)
  live := frame.1 ▸ h.live
  live' := frame'.1 ▸ h.live'
  same := h.same

theorem note (h : Twins b b' c c') {what what' : Occurrence} (same : what.plain = what'.plain) :
    Twins (b.note c.id what) (b'.note c'.id what') c c' := by
  rw [← h.id]
  exact h.aside (h.like.note c.id same) ⟨rfl, rfl, rfl⟩ ⟨rfl, rfl, rfl⟩

theorem count (h : Twins b b' c c') (operation : Operation) (outcome : Outcome) :
    Twins (b.count operation outcome) (b'.count operation outcome) c c' :=
  h.aside (h.like.count operation outcome) ⟨rfl, rfl, rfl⟩ ⟨rfl, rfl, rfl⟩

theorem measure (h : Twins b b' c c') (f : Metrics → Metrics) :
    Twins (b.measure f) (b'.measure f) c c' :=
  h.aside (h.like.measure f) ⟨rfl, rfl, rfl⟩ ⟨rfl, rfl, rfl⟩

theorem withCache (h : Twins b b' c c') {cache cache' : AssertionCache} (same : cache = cache') :
    Twins { b with cache } { b' with cache := cache' } c c' :=
  h.aside (h.like.withCache same) ⟨rfl, rfl, rfl⟩ ⟨rfl, rfl, rfl⟩

theorem store (h : Twins b b' c c') (t : AccessToken) :
    Twins (b.store c.id t) (b'.store c'.id t) c c' := by
  rw [← h.id]
  exact h.aside (h.like.store c.id t) ⟨rfl, rfl, rfl⟩ ⟨rfl, rfl, rfl⟩

theorem beginExchange (h : Twins b b' c c') :
    Twins (b.beginExchange c) (b'.beginExchange c') c c' :=
  ((h.measure _).note (by rw [h.scope])).count _ _

theorem recordExchange (h : Twins b b' c c') (r : Except Failure AccessToken) :
    Twins (b.recordExchange c.id r) (b'.recordExchange c'.id r) c c' :=
  (h.note rfl).count _ _

theorem recordHit (h : Twins b b' c c') (t : AccessToken) :
    Twins (b.recordHit c.id t) (b'.recordHit c'.id t) c c' :=
  ((h.note rfl).count _ _).measure _

theorem recordJoin (h : Twins b b' c c') (r : Except Failure AccessToken) :
    Twins (b.recordJoin c.id r) (b'.recordJoin c'.id r) c c' :=
  ((h.note rfl).count _ _).measure _

theorem recordReply (h : Twins b b' c c') (reply : Reply)
    (asked : Option Classification.Context) :
    Twins (b.recordReply c.id reply asked) (b'.recordReply c'.id reply asked) c c' := by
  cases asked with
  | none => exact h.note rfl
  | some context => exact (h.note rfl).note rfl

theorem recordRead (h : Twins b b' c c') (r : Except Failure String) :
    Twins (b.recordRead c.id r) (b'.recordRead c'.id r) c c' := by
  have counted : Twins ((b.note c.id (.readEnded r)).count .readAssertion (.ofExcept r))
      ((b'.note c'.id (.readEnded r)).count .readAssertion (.ofExcept r)) c c' :=
    (h.note rfl).count _ _
  simp only [Broker.recordRead, ← h.like.cache]
  split
  · exact counted.note rfl
  · exact counted

end Twins

end Broker

end FederatedAccess
