import FederatedAccess.Proofs.Broker.Arrivals
import FederatedAccess.Proofs.Broker.Omission
import FederatedAccess.Proofs.Broker.Renewal
import FederatedAccess.Rehearsal.Broker

/-!
# Invalidated tokens do not come back

A call for a scope set that begins after the token of the scope set was invalidated returns a token
that was granted by a later reply, whether the call leads a refresh, shares the outcome of one, even
of one that was under way at the time, or finds the token in the store. Calls for other scope sets
are not affected.
-/

namespace FederatedAccess

/-- After so many entries of a journal, a reply granted a token to a call, or to another call that
published it to the first one, or to a call that stored it, where the first one found it. -/
inductive GrantedAfter (n : Nat) (id : CallId) (t : AccessToken) : List Entry → Prop
  | own {p a u reply} (after : n ≤ p.length) (answered : a.call = id ∧ a.what = .answered reply)
      (granted : reply.Grants t) : GrantedAfter n id t (p ++ a :: u)
  | shared {p a w y u z v reply slot} (after : n ≤ p.length)
      (answered : a.call = y.call ∧ a.what = .answered reply) (granted : reply.Grants t)
      (published : y.call ≠ id ∧ y.what = .published slot (.ok t))
      (joined : z.call = id ∧ z.what = .joined (.ok t)) :
      GrantedAfter n id t (p ++ a :: w ++ y :: u ++ z :: v)
  | stored {p a w y u z v reply} (after : n ≤ p.length)
      (answered : a.call = y.call ∧ a.what = .answered reply) (granted : reply.Grants t)
      (stored : y.what = .stored t) (hit : z.call = id ∧ z.what = .hit t) :
      GrantedAfter n id t (p ++ a :: w ++ y :: u ++ z :: v)

/-- Whether a call begins with a scope set and without a deadline. -/
def Occurrence.asksFor (scope : ScopeSet) : Occurrence → Bool
  | .started other none => other == scope
  | _ => false

namespace Broker

variable {b b₀ : Broker} {pre : List Entry} {id : CallId} {t : AccessToken} {scope : ScopeSet}

/-- What happens to a call that is newer than a state comes after the journal of the state. -/
theorem Ledger.length_le_of_newer (ledger : b₀.Ledger) {p q : List Entry} {s : Entry}
    (grown : b₀.journal <+: p ++ s :: q) (newer : b₀.nextCall ≤ s.call) :
    b₀.journal.length ≤ p.length := by
  by_contra hlt
  have hwithin : p ++ [s] <+: b₀.journal := by
    refine List.prefix_of_prefix_length_le ⟨q, by simp⟩ grown ?_
    rw [List.length_append, List.length_singleton]
    omega
  have hmem : s.what ∈ b₀.history s.call :=
    mem_historyOf.mpr ⟨s, hwithin.subset List.mem_concat_self, rfl, rfl⟩
  rw [ledger.fresh s.call newer] at hmem
  cases hmem

/-- What was granted since a call began was granted after every state that is older than the
call. -/
theorem GrantedSince.after (h : GrantedSince id t pre) (ledger : b₀.Ledger) {rest : List Entry}
    (grown : b₀.journal <+: pre ++ rest) (newer : b₀.nextCall ≤ id) :
    GrantedAfter b₀.journal.length id t pre := by
  cases h with
  | @own p s q a u scope deadline reply started answered granted =>
      have hle : b₀.journal.length ≤ p.length := by
        refine ledger.length_le_of_newer (q := q ++ a :: u ++ rest) ?_ (started.1 ▸ newer)
        simpa using grown
      refine .own ?_ answered granted
      rw [List.length_append]
      exact Nat.le_add_right_of_le hle
  | @leader p s q a w y u j v scope deadline reply slot started answered granted published joined =>
      have hle : b₀.journal.length ≤ p.length := by
        refine ledger.length_le_of_newer
          (q := q ++ a :: w ++ y :: u ++ j :: v ++ rest) ?_ (started.1 ▸ newer)
        simpa using grown
      refine .shared ?_ answered granted published joined
      rw [List.length_append]
      exact Nat.le_add_right_of_le hle

/-- A scope set has a key of its own among those that calls have asked for. -/
def OwnKey (j : List Entry) (scope : ScopeSet) : Prop :=
  ∀ other, Begun j other → other.key = scope.key → other = scope

theorem holds_iff : b.tokens.holds scope = true ↔ ∃ t, (scope.key, t) ∈ b.tokens.entries := by
  rw [TokenStore.holds, ← not_iff_not, Bool.not_eq_true, Option.isSome_eq_false_iff,
    Option.isNone_iff_eq_none, TokenStore.find?_eq_none_iff]
  constructor
  · rintro h ⟨t, ht⟩
    exact h _ ht rfl
  · rintro h ⟨k, t⟩ hp rfl
    exact h ⟨t, hp⟩

/-- Where the scope set has a key of its own, what is stored under the key is its token. -/
theorem Provenance.holds_iff {m : Duration} (h : b.Provenance m) (own : OwnKey b.journal scope) :
    b.tokens.holds scope = true ↔ ∃ p ∈ b.tokens.entries, p.2.scope = scope := by
  rw [Broker.holds_iff]
  constructor
  · rintro ⟨t, ht⟩
    obtain ⟨hkey, hknown⟩ := h.stored _ ht
    exact ⟨_, ht, own _ hknown.begun hkey.symm⟩
  · rintro ⟨p, hp, rfl⟩
    rw [← (h.stored p hp).1]
    exact ⟨p.2, hp⟩

/-- Once the token of a scope set is invalidated, a call for the scope set that begins later returns
a token only if it was granted after that. The invalidation answers whether a token was stored,
usable or not; what the store gives out for other keys stays the same, and as long as nobody asks
for the scope set, nothing else changes at any time. -/
theorem invalidation_final (config : Config) (x : Exchanger) (clock : Instant)
    (before after : List Event) (scope : ScopeSet) (b₀ b : Broker)
    (reached : (make config x clock).run before = b₀)
    (later : (b₀.step (.invalidate scope)).run after = b) :
    (∀ pre e post t deadline, b.journal = pre ++ e :: post → e.what = .ended (.ok t) →
      b₀.nextCall ≤ e.call → .started scope deadline ∈ historyOf pre e.call →
      GrantedAfter b₀.journal.length e.call t pre) ∧
    (∀ time world, ∃ held,
      Rehearsal.Broker.launch (.invalidate scope) time world b₀ =
        (world, b₀.step (.invalidate scope), .done (.dropped held)) ∧
      (held = true ↔ ∃ t, (scope.key, t) ∈ b₀.tokens.entries) ∧
      (OwnKey b₀.journal scope → (held = true ↔ ∃ p ∈ b₀.tokens.entries, p.2.scope = scope))) ∧
    (∀ other : ScopeSet, other.key ≠ scope.key →
      (b₀.step (.invalidate scope)).tokens.holds other = b₀.tokens.holds other ∧
      ∀ now, (b₀.step (.invalidate scope)).tokens.get? other now = b₀.tokens.get? other now) ∧
    (b₀.Idle scope.key →
      (∀ other deadline, .start other deadline ∈ after → other.key ≠ scope.key) →
      b = (b₀.run after).step (.invalidate scope)) := by
  have hmake := Coherent.make config x clock
  have hb₀ : b₀.Coherent := reached ▸ hmake.run before
  have hp₀ : b₀.Provenance config.margin :=
    reached ▸ (Provenance.make config x clock).run hmake before
  have dropped : (b₀.step (.invalidate scope)).Coherent := hb₀.move (move_step b₀ _)
  have hb : b.Coherent := later ▸ dropped.run after
  have hp : b.Provenance config.margin :=
    later ▸ (hp₀.move hb₀ (move_step b₀ (.invalidate scope))).run dropped after
  have renewed : b.Renewed b₀.journal.length scope.key := by
    have none : ∀ p ∈ (b₀.step (.invalidate scope)).tokens.entries, p.1 ≠ scope.key :=
      fun p hp => of_decide_eq_true (List.mem_filter.mp hp).2
    exact later ▸ (Renewed.of_none none).run dropped after
  have grown : b₀.journal <+: b.journal := by
    rw [← later]
    exact (after_run (b₀.step (.invalidate scope)) after).grows
  refine ⟨?_, ?_, ?_, ?_⟩
  · intro pre e post t deadline hj hended newer hstarted
    have hd := hb.ledger.departed pre e post hj _ hended
    have since (h : GrantedSince e.call t pre) : GrantedAfter b₀.journal.length e.call t pre :=
      GrantedSince.after h hb₀.ledger (hj ▸ grown) newer
    rcases hd.of_ok with hhit | ⟨-, hjoined | ⟨slot, hpublished⟩⟩
    · obtain ⟨z, hz, hcall, hw⟩ := mem_historyOf.mp hhit
      obtain ⟨front, v, rfl⟩ := List.append_of_mem hz
      have hsplit : b.journal = front ++ z :: (v ++ e :: post) := by simp [hj]
      -- the call is newer than the invalidation, so it took the token after it
      have hlate : b₀.journal.length ≤ front.length :=
        hb₀.ledger.length_le_of_newer (hsplit ▸ grown) (hcall ▸ newer)
      obtain ⟨scope', deadline', hbegan⟩ : ∃ scope' deadline',
          .started scope' deadline' ∈ historyOf front z.call := by
        obtain ⟨-, scope', deadline', hbegan, -⟩ := hp.suits front z _ hsplit t (by rw [hw]; rfl)
        exact ⟨scope', deadline', hbegan⟩
      have hwhole : .started scope' deadline' ∈ historyOf (front ++ z :: v) e.call := by
        rw [historyOf_append, ← hcall]
        exact List.mem_append_left _ hbegan
      have hhistory {s : ScopeSet} {d : Option Nat}
          (hs : .started s d ∈ historyOf (front ++ z :: v) e.call) :
          .started s d ∈ b.history e.call := by
        rw [history, hj, historyOf_append]
        exact List.mem_append_left _ hs
      obtain ⟨rfl, rfl⟩ := hb.ledger.started_eq (hhistory hwhole) (hhistory hstarted)
      have hstored := renewed.hits front z _ hsplit hlate t scope' deadline' hw hbegan rfl
      cases hstored with
      | intro after answered granted stored =>
          exact .stored after answered granted stored ⟨hcall, hw⟩
    · exact since (grantedSince_of_joined hb hp hj hjoined)
    · exact since (grantedSince_of_published hp hj hpublished)
  · intro time world
    exact ⟨b₀.tokens.holds scope, rfl, holds_iff, hp₀.holds_iff⟩
  · intro other hne
    constructor
    · exact TokenStore.holds_invalidate_of_ne hne
    · exact TokenStore.get?_invalidate_of_ne hne
  · intro idle apart
    rw [← later]
    exact run_invalidate idle apart

/-! ### A run in which a token is invalidated -/

/-- A refresh that succeeds. -/
def firstRefresh : List Event :=
  [.start sampleScope none, .proceed 0, .proceed 0, .readDone 0 (.ok "assertion"),
    .replied 0 sampleReply]

/-- Another refresh that succeeds, and a call that finds its token. -/
def nextRefresh : List Event :=
  [.start sampleScope none, .proceed 1, .proceed 1, .replied 1 sampleReply, .start sampleScope none]

theorem started_of_asksFor {l : List Occurrence} (h : l.any (·.asksFor scope) = true) :
    .started scope none ∈ l := by
  obtain ⟨o, ho, hasks⟩ := List.any_eq_true.mp h
  unfold Occurrence.asksFor at hasks
  split at hasks
  · exact eq_of_beq hasks ▸ ho
  · cases hasks

/-- A journal that ends with the token of a call. -/
theorem last_returned {j : List Entry} {i : CallId}
    (h : (j.getLast?.any fun e => e.call == i && e.what.returned?.isSome) = true) :
    ∃ pre e t, j = pre ++ [e] ∧ e.call = i ∧ e.what = .ended (.ok t) := by
  cases he : j.getLast? with
  | none => simp [he] at h
  | some e =>
      simp only [he, Option.any_some, Bool.and_eq_true, beq_iff_eq] at h
      obtain ⟨t, ht⟩ := Option.isSome_iff_exists.mp h.2
      obtain ⟨pre, hpre⟩ := List.getLast?_eq_some_iff.mp he
      exact ⟨pre, e, t, hpre, h.1, Occurrence.eq_of_returned? ht⟩

theorem invalidated_token_renewed :
    let b₀ := (make sampleConfig sampleExchanger sampleClock).run firstRefresh
    b₀.tokens.holds sampleScope = true ∧
    ∃ pre e t, ((b₀.step (.invalidate sampleScope)).run nextRefresh).journal = pre ++ [e] ∧
      e.call = 2 ∧ e.what = .ended (.ok t) ∧ GrantedAfter b₀.journal.length e.call t pre := by
  intro b₀
  have held : b₀.tokens.holds sampleScope = true := by decide +kernel
  generalize hb : (b₀.step (.invalidate sampleScope)).run nextRefresh = b
  have outcome : (b.journal.getLast?.any fun e =>
      e.call == 2 && e.what.returned?.isSome) = true ∧
      (historyOf b.journal.dropLast 2).any (·.asksFor sampleScope) = true ∧ b₀.nextCall ≤ 2 := by
    rw [← hb]
    decide +kernel
  obtain ⟨hlast, hasks, hnewer⟩ := outcome
  obtain ⟨pre, e, t, hj, hcall, hend⟩ := last_returned hlast
  have hpre : b.journal.dropLast = pre := by rw [hj, List.dropLast_concat]
  have hfinal := invalidation_final sampleConfig sampleExchanger sampleClock firstRefresh
    nextRefresh sampleScope b₀ b rfl hb
  have hstarted : .started sampleScope none ∈ historyOf pre e.call := by
    rw [hcall, ← hpre]
    exact started_of_asksFor hasks
  exact ⟨held, pre, e, t, hj, hcall, hend,
    hfinal.1 pre e [] t none hj hend (hcall ▸ hnewer) hstarted⟩

end Broker

end FederatedAccess
