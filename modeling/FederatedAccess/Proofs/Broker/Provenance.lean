import FederatedAccess.Proofs.Broker.Landing
import FederatedAccess.Proofs.Grant

/-!
# Where tokens come from

A token is in the store under the key of its scope set, in a slot as an outcome of the same key, or
on its way to a call. In each of these places its scope set is one that a call asked for, and a
token that is published was granted by a reply to the call that publishes it (`Provenance`).
-/

namespace FederatedAccess

/-- The token that an occurrence hands to a call. -/
def Occurrence.handed? : Occurrence → Option AccessToken
  | .hit t => some t
  | .joined (.ok t) => some t
  | .published _ (.ok t) => some t
  | _ => none

/-- A call for a scope set has begun. -/
def Begun (j : List Entry) (scope : ScopeSet) : Prop :=
  ∃ x ∈ j, ∃ deadline, x.what = .started scope deadline

/-- A token is sound, and for a scope set that a call asked for. -/
structure Known (j : List Entry) (t : AccessToken) : Prop where
  begun : Begun j t.scope
  sound : t.IsSound

/-- A token is for the scope set of a call, as far as keys tell. -/
def Suits (j : List Entry) (id : CallId) (t : AccessToken) : Prop :=
  Known j t ∧ ∃ scope deadline, .started scope deadline ∈ historyOf j id ∧
    t.scope.key = scope.key

/-- A journal ends with what a call has done since a reply that granted a token. -/
inductive GrantedLast (id : CallId) (t : AccessToken) : List Entry → Prop
  | intro {p a w reply scope deadline} (started : .started scope deadline ∈ historyOf p id)
      (own : ∀ y ∈ a :: w, y.call = id) (answered : a.what = .answered reply)
      (granted : reply.Grants t) : GrantedLast id t (p ++ a :: w)

theorem Begun.append {j : List Entry} {scope : ScopeSet} (h : Begun j scope) (l : List Entry) :
    Begun (j ++ l) scope := by
  obtain ⟨x, hx, hw⟩ := h
  exact ⟨x, List.mem_append_left _ hx, hw⟩

theorem Known.append {j : List Entry} {t : AccessToken} (h : Known j t) (l : List Entry) :
    Known (j ++ l) t :=
  ⟨h.begun.append l, h.sound⟩

theorem Begun.of_history {j : List Entry} {scope : ScopeSet} {deadline : Option Nat} {id : CallId}
    (h : .started scope deadline ∈ historyOf j id) : Begun j scope := by
  obtain ⟨x, hx, -, hw⟩ := mem_historyOf.mp h
  exact ⟨x, hx, deadline, hw⟩

theorem Occurrence.unhanded_of_isQuiet {o : Occurrence} (h : o.isQuiet = true) :
    o.handed? = none ∧ (∀ s, keep s o = s) ∧ ∀ t, land t o = t := by
  cases o <;> first | exact ⟨rfl, fun _ => rfl, fun _ => rfl⟩ | cases h

namespace Broker

/-- The tokens in the store, in slots and in the journal are where they belong. -/
structure Provenance (m : Duration) (b : Broker) : Prop where
  margin : b.tokens.margin = m
  stored : ∀ p ∈ b.tokens.entries, p.1 = p.2.scope.key ∧ Known b.journal p.2
  outcomes : ∀ s ∈ b.slots.stored, ∀ t, s.outcome = some (.ok t) →
    t.scope.key = s.key ∧ Known b.journal t
  suits : Chronicle (fun pre x => ∀ t, x.what.handed? = some t → Suits pre x.call t) b.journal
  usable : Chronicle (fun _ x => ∀ t, x.what = .hit t → t.isUsable x.clock m = true) b.journal
  granted : Chronicle (fun pre x => ∀ slot t, x.what = .published slot (.ok t) →
    GrantedLast x.call t pre) b.journal

namespace Provenance

variable {m : Duration} {b b' : Broker} {log : List Occurrence}

theorem make (config : Config) (x : Exchanger) (clock : Instant) :
    Provenance config.margin (make config x clock) :=
  ⟨rfl, by simp [Broker.make, TokenStore.empty], by simp [Broker.make], .nil, .nil, .nil⟩

/-- A step keeps tokens where they belong if it hands none to a call. -/
theorem aside {id : CallId} (h : b.Provenance m)
    (journal : b'.journal = b.journal ++ log.map (b.entry id)) (slots : b'.slots.Under b.slots)
    (margin : b'.tokens.margin = b.tokens.margin)
    (tokens : ∀ p ∈ b'.tokens.entries, p ∈ b.tokens.entries ∨
      p.1 = p.2.scope.key ∧ Known b.journal p.2)
    (hlog : ∀ o ∈ log, o.handed? = none) : b'.Provenance m where
  margin := margin.trans h.margin
  stored p hp := by
    rw [journal]
    rcases tokens p hp with hp | ⟨hkey, hb⟩
    · exact (h.stored p hp).imp_right fun hb => hb.append _
    · exact ⟨hkey, hb.append _⟩
  outcomes s hs t ht := by
    obtain ⟨u, hu, hlike⟩ := slots.like s hs
    rw [hlike.outcome] at ht
    rw [journal, hlike.key]
    exact (h.outcomes u hu t ht).imp_right fun hb => hb.append _
  suits := by
    rw [journal]
    apply h.suits.log
    intro pre o post he t ht
    replace ht : o.handed? = some t := ht
    rw [hlog o (by simp [he])] at ht
    cases ht
  usable := by
    rw [journal]
    apply h.usable.log
    intro pre o post he t ht
    have hnone := hlog o (by simp [he])
    replace ht : o = .hit t := ht
    rw [ht] at hnone
    cases hnone
  granted := by
    rw [journal]
    apply h.granted.log
    intro pre o post he slot t ht
    have hnone := hlog o (by simp [he])
    replace ht : o = .published slot (.ok t) := ht
    rw [ht] at hnone
    cases hnone

/-- A step that does not change the tokens either. -/
theorem logged {id : CallId} (h : b.Provenance m) (hl : Logged b id log b')
    (hlog : ∀ o ∈ log, o.handed? = none ∧ (∀ s, Occurrence.keep s o = s) ∧
      ∀ t, Occurrence.land t o = t) :
    b'.Provenance m := by
  have htokens : b'.tokens = b.tokens :=
    hl.tokens.trans (foldl_eq_self (fun o ho => (hlog o ho).2.1) _)
  have hslots : b'.slots = b.slots :=
    hl.slots.trans (foldl_eq_self (fun o ho => (hlog o ho).2.2) _)
  refine h.aside hl.journal (hslots ▸ .refl _) (htokens ▸ rfl) ?_ fun o ho => (hlog o ho).1
  exact fun p hp => .inl (htokens ▸ hp)

/-- A stored token may be given to a call for whose key it is stored and usable. -/
theorem recordHit {id : CallId} {t : AccessToken} (h : b.Provenance m) (hs : Suits b.journal id t)
    (hu : t.isUsable b.clock m = true) : (b.recordHit id t).Provenance m where
  margin := h.margin
  stored p hp := (h.stored p hp).imp_right fun hb => hb.append _
  outcomes s hs t ht := (h.outcomes s hs t ht).imp_right fun hb => hb.append _
  suits := h.suits.concat fun u (hu : some t = some u) => Option.some.inj hu ▸ hs
  usable := h.usable.concat fun u (he : Occurrence.hit t = .hit u) => Occurrence.hit.inj he ▸ hu
  granted := h.granted.concat fun slot u (he : Occurrence.hit t = .published slot (.ok u)) =>
    nomatch he

/-- An outcome may be shared by a call with whose key it agrees. -/
theorem recordJoin {id : CallId} {r : Except Failure AccessToken} (h : b.Provenance m)
    (hs : ∀ t, r = .ok t → Suits b.journal id t) : (b.recordJoin id r).Provenance m where
  margin := h.margin
  stored p hp := (h.stored p hp).imp_right fun hb => hb.append _
  outcomes s hs t ht := (h.outcomes s hs t ht).imp_right fun hb => hb.append _
  suits := h.suits.concat fun u (hu : (Occurrence.joined r).handed? = some u) => by
    cases r with
    | error f => cases hu
    | ok t => exact Option.some.inj hu ▸ hs t rfl
  usable := h.usable.concat fun u (he : Occurrence.joined r = .hit u) => nomatch he
  granted := h.granted.concat fun slot u (he : Occurrence.joined r = .published slot (.ok u)) =>
    nomatch he

/-- A token may be published after it was granted. -/
theorem publish {c : Call} {r : Except Failure AccessToken} (h : b.Provenance m)
    (hs : ∀ t, r = .ok t → Suits b.journal c.id t ∧ GrantedLast c.id t b.journal ∧
      ∀ s ∈ b.slots.stored, s.id = c.slot → t.scope.key = s.key) :
    (b.publish c r).Provenance m where
  margin := h.margin
  stored p hp := (h.stored p hp).imp_right fun hb => hb.append _
  outcomes s hs' t ht := by
    obtain ⟨u, hu, rfl⟩ := Slots.mem_modify.mp hs'
    split at ht
    · rename_i hid
      rw [if_pos hid]
      obtain ⟨hsuits, -, hkey⟩ := hs t (Option.some.inj ht)
      exact ⟨hkey u hu hid, hsuits.1.append _⟩
    · rename_i hid
      rw [if_neg hid]
      exact (h.outcomes u hu t ht).imp_right fun hb => hb.append _
  suits := h.suits.concat fun u (hu : (Occurrence.published c.slot r).handed? = some u) => by
    cases r with
    | error f => cases hu
    | ok t => exact Option.some.inj hu ▸ (hs t rfl).1
  usable := h.usable.concat fun u (he : Occurrence.published c.slot r = .hit u) => nomatch he
  granted := h.granted.concat fun slot u
    (he : Occurrence.published c.slot r = .published slot (.ok u)) =>
    (hs u (Occurrence.published.inj he).2).2.1

/-- A token that is given out from the store is one for the key that is asked for. -/
theorem of_usable? {scope : ScopeSet} {t : AccessToken} (h : b.Provenance m)
    (ht : b.usable? scope = some t) :
    t.scope.key = scope.key ∧ Known b.journal t ∧ t.isUsable b.clock m = true := by
  obtain ⟨hmem, husable⟩ := TokenStore.mem_of_get?_eq_some ht
  obtain ⟨hkey, hknown⟩ := h.stored _ hmem
  exact ⟨hkey.symm, hknown, h.margin ▸ husable⟩

/-- A refresh stores nothing but the token that its reply granted. -/
theorem refreshed {c : Call} {e : Event} {r : Except Failure AccessToken} {w : Broker}
    (h : b.Provenance m) (hstart : .started c.scope c.deadline ∈ b.history c.id)
    (hr : Refreshed b c e r w) :
    w.Provenance m ∧ ∀ t, r = .ok t →
      t.scope = c.scope ∧ Suits w.journal c.id t ∧ GrantedLast c.id t w.journal := by
  obtain ⟨log, hlog, hl, granted⟩ := hr.logged
  have htokens : w.tokens = (settled r).foldl Occurrence.keep b.tokens := by
    rw [hl.tokens, List.foldl_append, hlog.foldl_keep]
  have hscope (t : AccessToken) (ht : r = .ok t) :
      t.scope = c.scope ∧ ∃ reply, .answered reply ∈ log ∧ reply.Grants t := by
    obtain ⟨reply, hmem, round, a, requestedAt, -, hresult⟩ := granted t ht
    obtain ⟨hscope, hgrants⟩ := Exchanger.grants_of_conclude hresult
    exact ⟨hscope, reply, hmem, hgrants⟩
  refine ⟨h.aside hl.journal (hr.frame.2.1 ▸ .refl _) ?_ ?_ ?_, fun t ht => ?_⟩
  · rw [htokens]
    cases r <;> rfl
  · intro p hp
    rw [htokens] at hp
    cases r with
    | error f => exact .inl hp
    | ok t =>
        rcases List.mem_cons.mp hp with rfl | hp
        · obtain ⟨ht, reply, -, hgrants⟩ := hscope t rfl
          exact .inr ⟨rfl, ht ▸ .of_history hstart, hgrants.isSound⟩
        · exact .inl (List.mem_filter.mp hp).1
  · intro o ho
    rcases List.mem_append.mp ho with ho | ho
    · exact (Occurrence.unhanded_of_isQuiet (hlog.isQuiet o ho)).1
    · obtain ⟨t, -, rfl⟩ := mem_settled.mp ho
      rfl
  · subst ht
    obtain ⟨ht, reply, hmem, hgrants⟩ := hscope t rfl
    obtain ⟨before, after, rfl⟩ := List.append_of_mem hmem
    refine ⟨ht, ⟨⟨?_, hgrants.isSound⟩, c.scope, c.deadline, ?_, by rw [ht]⟩, ?_⟩
    · rw [ht, hl.journal]
      exact (Begun.of_history hstart).append _
    · rw [hl.journal, historyOf_append]
      exact List.mem_append_left _ hstart
    · have hsplit : w.journal = b.journal ++ before.map (b.entry c.id) ++
          b.entry c.id (.answered reply) ::
            (after ++ [Occurrence.stored t]).map (b.entry c.id) := by
        simp [hl.journal, settled]
      have hstart' : .started c.scope c.deadline ∈
          historyOf (b.journal ++ before.map (b.entry c.id)) c.id := by
        rw [historyOf_append]
        exact List.mem_append_left _ hstart
      rw [hsplit]
      refine .intro hstart' (fun y hy => ?_) rfl hgrants
      rcases List.mem_cons.mp hy with rfl | hy
      · rfl
      · obtain ⟨o, -, rfl⟩ := List.mem_map.mp hy
        rfl

theorem finish {c : Call} {r : Except Failure AccessToken} (h : b.Provenance m) :
    (b.finish c r).Provenance m :=
  h.aside ((Logged.refl b c.id).journal_finish r) (.release _ _ _ _) rfl (fun _ hp => .inl hp)
    (by simp [Occurrence.handed?])

/-- A call that ends hands over tokens that suit it. -/
theorem ends {c : Call} {e : Event} {r : Except Failure AccessToken} {w : Broker}
    (h : b.Provenance m) (hb : b.Coherent) (hc : c ∈ b.calls) (closing : Closing b c e r w) :
    (w.finish c r).Provenance m := by
  have hstart := (hb.ledger.living c hc).started
  cases closing with
  | @joins n s _ _ slot _ shared =>
      refine (h.recordJoin ?_).finish
      rintro t rfl
      obtain ⟨hs, hid⟩ := hb.holding.slots.find?_eq_some_iff.mp slot
      obtain ⟨hkey, hknown⟩ := h.outcomes s hs t (Slot.shared?_eq_some_iff.mp shared).2
      exact ⟨hknown, c.scope, c.deadline, hstart, hkey.trans (hb.holding.key_of_slot hc hs hid)⟩
  | @hits n s t _ _ _ _ usable =>
      obtain ⟨hkey, hknown, husable⟩ := h.of_usable? usable
      have hboarded := h.logged (logged_note b c.id (o := .boarded c.slot) rfl)
        (by simp [Occurrence.handed?, Occurrence.keep, Occurrence.land])
      refine (hboarded.recordHit ⟨hknown.append _, c.scope, c.deadline, ?_, hkey⟩ husable).finish
      rw [journal_note, historyOf_append]
      exact List.mem_append_left _ hstart
  | lapses => exact h.finish
  | unpublished refreshed => exact (h.refreshed hstart refreshed).1.finish
  | published refreshed =>
      obtain ⟨hw, ht⟩ := h.refreshed hstart refreshed
      refine (hw.publish fun t hr => ?_).finish
      obtain ⟨hscope, hsuits, hgranted⟩ := ht t hr
      refine ⟨hsuits, hgranted, fun s hs hid => ?_⟩
      rw [refreshed.frame.2.1] at hs
      rw [hscope, hb.holding.key_of_slot hc hs hid]

theorem serves {scope : ScopeSet} {t : AccessToken} (h : b.Provenance m)
    (deadline : Option Nat) (usable : b.usable? scope = some t) :
    (((b.admitCall scope deadline).recordHit b.nextCall t).report b.nextCall
      (.ok t)).Provenance m := by
  obtain ⟨hkey, hknown, husable⟩ := h.of_usable? usable
  have hl := logged_admitCall b scope deadline
  have hadmitted := h.logged hl (by simp [Occurrence.handed?, Occurrence.keep, Occurrence.land])
  have hsuits : Suits (b.admitCall scope deadline).journal b.nextCall t := by
    rw [hl.journal]
    refine ⟨hknown.append _, scope, deadline, ?_, hkey⟩
    rw [historyOf_append, historyOf_map_entry]
    simp
  exact (hadmitted.recordHit hsuits husable).logged (logged_report _ _ (.ok t))
    (by simp [Occurrence.handed?, Occurrence.keep, Occurrence.land])

/-- A slot that is taken for the first time holds no token. -/
theorem queues (h : b.Provenance m) (scope : ScopeSet) (deadline : Option Nat) :
    ((b.admitCall scope deadline).joinQueue b.nextCall scope deadline).Provenance m := by
  have hreserved : Provenance m { b with slots := (b.slots.take scope.key).2 } := by
    refine ⟨h.margin, h.stored, fun s hs t ht => ?_, h.suits, h.usable, h.granted⟩
    rcases b.slots.take_cases scope.key with ⟨he, -⟩ | ⟨hnew, -⟩
    · exact h.outcomes s (he ▸ hs) t ht
    · rcases Slots.mem_take.mp hs with hs | rfl
      · exact h.outcomes s hs t ht
      · simp [hnew] at ht
  refine hreserved.aside (journal_queue b scope deadline) ?_ rfl (fun _ hp => .inl hp)
    (by simp [opening, Occurrence.handed?])
  exact Slots.Under.modify _ _ fun _ => ⟨rfl, rfl, rfl, rfl⟩

/-- A step that logs nothing and stores no token. -/
theorem quiet (h : b.Provenance m) (journal : b'.journal = b.journal)
    (slots : b'.slots.Under b.slots) (margin : b'.tokens.margin = b.tokens.margin)
    (tokens : ∀ p ∈ b'.tokens.entries, p ∈ b.tokens.entries) : b'.Provenance m := by
  have hj : b'.journal = b.journal ++ [].map (b.entry 0) := by simp [journal]
  exact h.aside hj slots margin (fun p hp => .inl (tokens p hp)) (by simp)

/-- Every move keeps tokens where they belong. -/
theorem move {e : Event} (h : b.Provenance m) (hb : b.Coherent) (move : Move b e b') :
    b'.Provenance m := by
  have same : ∀ p ∈ b.tokens.entries, p ∈ b.tokens.entries := fun _ hp => hp
  cases move with
  | idle => exact h
  | refuses =>
      exact h.logged (logged_refused b _ _ _)
        (by simp [Occurrence.handed?, Occurrence.keep, Occurrence.land])
  | serves _ usable => exact h.serves _ usable
  | queues => exact h.queues _ _
  | @reads c round cache =>
      exact h.logged (logged_reads b c.id cache)
        (by simp [Occurrence.handed?, Occurrence.keep, Occurrence.land])
  | @goes c e p w live going =>
      have hw : w.Provenance m := by
        obtain ⟨-, log, hlog, hl⟩ := going.quiet
        exact h.logged hl fun o ho => Occurrence.unhanded_of_isQuiet (hlog o ho)
      exact hw.quiet rfl (.refl _) rfl fun _ hp => hp
  | ends live closing => exact h.ends hb (mem_calls_of_call? live) closing
  | @cancels c =>
      have hlog : ∀ o ∈ [Occurrence.cancelled], o.handed? = none := by simp [Occurrence.handed?]
      have hj := (logged_cancelled b c.id).journal
      exact h.aside hj (.abandon _ _ _) rfl (fun _ hp => .inl hp) hlog
  | overtakes => exact h.quiet rfl (.modify _ _ fun _ => ⟨rfl, rfl, rfl, rfl⟩) rfl same
  | overtakesVisit => exact h.quiet rfl (.refl _) rfl same
  | invalidates => exact h.quiet rfl (.refl _) rfl fun p hp => (List.mem_filter.mp hp).1
  | purges => exact h.quiet rfl (.filter _ _) rfl fun p hp => (List.mem_filter.mp hp).1
  | sets => exact h.quiet rfl (.refl _) rfl same
  | ticks => exact h.quiet rfl (.refl _) rfl same

/-- After every run tokens are where they belong. -/
theorem run (h : b.Provenance m) (hb : b.Coherent) (events : List Event) :
    (b.run events).Provenance m := by
  have hboth : (b.run events).Coherent ∧ (b.run events).Provenance m :=
    run_keeps (P := fun b => b.Coherent ∧ b.Provenance m)
      (fun _ _ _ h m => ⟨h.1.move m, h.2.move h.1 m⟩) ⟨hb, h⟩ events
  exact hboth.2

end Provenance

end Broker

end FederatedAccess
