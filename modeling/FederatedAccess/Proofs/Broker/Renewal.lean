import FederatedAccess.Proofs.TokenProvenance

/-!
# Tokens that were stored since

Once the token of a key is gone from the store, the only way for a token to get there again is that
a call is granted one by a reply that comes later. What the store holds for the key, and what calls
for the key take from it, was granted since (`Renewed`).
-/

namespace FederatedAccess

/-- After so many entries of a journal, a call was granted a token by a reply and stored it. -/
inductive StoredAfter (n : Nat) (t : AccessToken) : List Entry → Prop
  | intro {p a w y u reply} (after : n ≤ p.length)
      (answered : a.call = y.call ∧ a.what = .answered reply) (granted : reply.Grants t)
      (stored : y.what = .stored t) : StoredAfter n t (p ++ a :: w ++ y :: u)

theorem StoredAfter.append {n : Nat} {t : AccessToken} {j : List Entry} (h : StoredAfter n t j)
    (l : List Entry) : StoredAfter n t (j ++ l) := by
  cases h with
  | intro after answered granted stored =>
      rw [List.append_assoc, List.cons_append]
      exact .intro after answered granted stored

namespace Broker

variable {b b' w : Broker} {c : Call} {e : Event} {n : Nat} {k : ScopeKey}

/-! ### What moves store and hand out -/

/-- A call that ends leaves in the store what was there before or the token that it was granted. -/
theorem Closing.entries {r : Except Failure AccessToken} (closing : Closing b c e r w)
    {p : ScopeKey × AccessToken} (hp : p ∈ (w.finish c r).tokens.entries) :
    p ∈ b.tokens.entries ∨ ∃ log rest reply,
      (w.finish c r).journal = b.journal ++ (log ++ .stored p.2 :: rest).map (b.entry c.id) ∧
        .answered reply ∈ log ∧ reply.Grants p.2 := by
  obtain ⟨log, farewell, hl, warrant⟩ := closing.logged
  have tokens : (w.finish c r).tokens = log.foldl Occurrence.keep b.tokens := hl.tokens
  have journal := hl.journal_finish r
  rw [tokens] at hp
  cases farewell with
  | joined => exact .inl hp
  | hit => exact .inl hp
  | lapsed => exact .inl hp
  | @refreshed log r aboard work =>
      have announces : (announced c.slot r).foldl Occurrence.keep
          ((settled r).foldl Occurrence.keep b.tokens) =
            (settled r).foldl Occurrence.keep b.tokens := by
        unfold announced
        split <;> rfl
      rw [List.foldl_append, List.foldl_append, work.foldl_keep, announces] at hp
      cases r with
      | error f => exact .inl hp
      | ok t =>
          rcases List.mem_cons.mp hp with rfl | hp
          · obtain ⟨reply, hreply, round, a, requestedAt, -, result⟩ := warrant.stored t (by simp)
            refine .inr ⟨log, announced c.slot (.ok t) ++ [.ended (.ok t)], reply, ?_, ?_, ?_⟩
            · rw [journal]
              simp [settled]
            · simpa [settled] using hreply
            · exact (Exchanger.grants_of_conclude result).2
          · exact .inl (List.mem_filter.mp hp).1

/-- A step leaves in the store what was there before or a token that a reply granted. -/
theorem Move.entries (m : Move b e b') {p : ScopeKey × AccessToken} (hp : p ∈ b'.tokens.entries) :
    p ∈ b.tokens.entries ∨ ∃ id log rest reply,
      b'.journal = b.journal ++ (log ++ .stored p.2 :: rest).map (b.entry id) ∧
        .answered reply ∈ log ∧ reply.Grants p.2 := by
  cases m with
  | @refuses scope deadline =>
      rw [(logged_refused b scope deadline (.error Exchanger.noScope)).tokens] at hp
      exact .inl hp
  | @serves scope deadline t =>
      rw [(logged_served b scope deadline t).tokens] at hp
      exact .inl hp
  | @goes c e p' w _ going =>
      have tokens : (w.enter c.id p').tokens = b.tokens := going.frame.2.2.2
      exact .inl (tokens ▸ hp)
  | @ends c e r w _ closing => exact (closing.entries hp).imp_right fun h => ⟨c.id, h⟩
  | invalidates => exact .inl (List.mem_filter.mp hp).1
  | purges => exact .inl (List.mem_filter.mp hp).1
  | _ => exact .inl hp

/-- A token that a call takes from the store is the usable one of the scope set for which the call
began. -/
theorem Move.hits (m : Move b e b') (ledger : b.Ledger) : ∃ (id : CallId) (log : List Occurrence),
    b'.journal = b.journal ++ log.map (b.entry id) ∧ ∀ t, .hit t ∈ log →
      ∃ scope, b.usable? scope = some t ∧
        ∀ scope' deadline, .started scope' deadline ∈ b.history id ++ log → scope' = scope := by
  have same : b.journal = b.journal ++ [].map (b.entry 0) := (List.append_nil _).symm
  cases m with
  | refuses => exact ⟨_, _, (logged_refused b _ _ _).journal, by simp⟩
  | @serves scope deadline t _ usable =>
      refine ⟨_, _, (logged_served b scope deadline t).journal, fun u hu => ?_⟩
      obtain rfl : u = t := by simpa using hu
      refine ⟨scope, usable, fun scope' deadline' hstarted => ?_⟩
      rw [ledger.fresh b.nextCall (Nat.le_refl _), List.nil_append] at hstarted
      simp only [List.mem_cons, List.not_mem_nil, or_false, Occurrence.started.injEq,
        reduceCtorEq] at hstarted
      exact hstarted.1
  | queues => exact ⟨_, _, journal_queue b _ _, by simp [opening]⟩
  | reads => exact ⟨_, [.readBegun], rfl, by simp⟩
  | goes _ going =>
      rcases going.logged.2 with ⟨-, hl⟩ | ⟨-, log, work, hl⟩
      · exact ⟨_, _, hl.journal, by simp⟩
      · exact ⟨_, _, hl.journal, fun t ht => absurd ht (work.not_mem rfl)⟩
  | @ends c e r w live closing =>
      obtain ⟨log, farewell, hl, warrant⟩ := closing.logged
      refine ⟨_, _, hl.journal_finish r, fun t ht => ?_⟩
      have hhit : .hit t ∈ log := by simpa using ht
      refine ⟨c.scope, warrant.hit t hhit, fun scope' deadline' hstarted => ?_⟩
      rcases List.mem_append.mp hstarted with hstarted | hstarted
      · exact ((ledger.living c (mem_calls_of_call? live)).of_started hstarted).1
      · rcases List.mem_append.mp hstarted with hstarted | hstarted
        · cases farewell.isStarted_eq hstarted
        · simp at hstarted
  | @cancels c => exact ⟨c.id, [.cancelled], rfl, by simp⟩
  | _ => exact ⟨0, [], same, by simp⟩

/-! ### What is stored since -/

/-- What is stored for a key, and what calls for the key have taken from the store since, was
granted after so many entries of the journal. -/
structure Renewed (n : Nat) (k : ScopeKey) (b : Broker) : Prop where
  grown : n ≤ b.journal.length
  stored : ∀ p ∈ b.tokens.entries, p.1 = k → StoredAfter n p.2 b.journal
  hits : Chronicle (fun pre x => n ≤ pre.length → ∀ t scope deadline, x.what = .hit t →
    .started scope deadline ∈ historyOf pre x.call → scope.key = k → StoredAfter n t pre) b.journal

namespace Renewed

/-- Where nothing is stored for a key, all that is stored later is granted later. -/
theorem of_none (none : ∀ p ∈ b.tokens.entries, p.1 ≠ k) : Renewed b.journal.length k b where
  grown := Nat.le_refl _
  stored p hp hk := absurd hk (none p hp)
  hits pre x post hj hn := by
    rw [hj, List.length_append, List.length_cons] at hn
    omega

/-- Every move stores and hands out nothing for the key but what was granted since. -/
theorem move (h : b.Renewed n k) (ledger : b.Ledger) (m : Move b e b') : b'.Renewed n k where
  grown := by
    obtain ⟨id, log, hj⟩ := m.journal
    rw [hj, List.length_append]
    exact Nat.le_add_right_of_le h.grown
  stored p hp hk := by
    rcases m.entries hp with hp | ⟨id, log, rest, reply, hj, hanswered, hgrants⟩
    · obtain ⟨id, log, hj⟩ := m.journal
      rw [hj]
      exact (h.stored p hp hk).append _
    · obtain ⟨before, after, rfl⟩ := List.append_of_mem hanswered
      have hsplit : b'.journal = (b.journal ++ before.map (b.entry id)) ++
          b.entry id (.answered reply) :: after.map (b.entry id) ++
          b.entry id (.stored p.2) :: rest.map (b.entry id) := by
        rw [hj]
        simp
      rw [hsplit]
      refine .intro ?_ ⟨rfl, rfl⟩ hgrants rfl
      rw [List.length_append]
      exact Nat.le_add_right_of_le h.grown
  hits := by
    obtain ⟨id, log, hj, hhits⟩ := m.hits ledger
    rw [hj]
    apply h.hits.log
    intro pre o post he _ t scope deadline ho hstarted hk
    replace ho : o = .hit t := ho
    subst ho
    obtain ⟨scope', husable, honly⟩ := hhits t (by simp [he])
    have hmem : .started scope deadline ∈ b.history id ++ log := by
      rw [historyOf_append] at hstarted
      change _ ∈ b.history id ++ historyOf (pre.map (b.entry id)) id at hstarted
      rw [historyOf_map_entry, if_pos rfl] at hstarted
      rw [he, ← List.append_assoc]
      exact List.mem_append_left _ hstarted
    obtain rfl := honly scope deadline hmem
    obtain ⟨hentry, -⟩ := TokenStore.mem_of_get?_eq_some husable
    exact (h.stored _ hentry hk).append _

theorem run (h : b.Renewed n k) (hb : b.Coherent) (events : List Event) :
    (b.run events).Renewed n k := by
  have both : (b.run events).Coherent ∧ (b.run events).Renewed n k :=
    run_keeps (P := fun w => w.Coherent ∧ w.Renewed n k)
      (fun _ _ _ hw m => ⟨hw.1.move m, hw.2.move hw.1.ledger m⟩) ⟨hb, h⟩ events
  exact both.2

end Renewed

end Broker

end FederatedAccess
