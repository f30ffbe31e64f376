import FederatedAccess.Proofs.Broker.Provenance

/-!
# What other calls leave alone

A step that is not about a call for a key leaves the calls for the key, their slot, their history
and the store of the key as they are (`Aside`). What several calls for one key do together can thus
be followed through the steps that concern them.
-/

namespace FederatedAccess

/-- Whether a call for a key begins. -/
def Occurrence.startsFor (key : ScopeKey) : Occurrence → Bool
  | .started scope _ => scope.key == key
  | _ => false

theorem Occurrence.startsFor_eq {key : ScopeKey} {o : Occurrence} (h : o.isStarted = false) :
    o.startsFor key = false := by
  cases o <;> first | rfl | cases h

namespace Broker

/-- An event is about a call for a key. -/
def Event.Concerns (key : ScopeKey) (b : Broker) : Event → Prop
  | .start scope _ => scope.key = key
  | .proceed id => ∃ c ∈ b.calls, c.id = id ∧ c.scope.key = key
  | .readDone id _ => ∃ c ∈ b.calls, c.id = id ∧ c.scope.key = key
  | .replied id _ => ∃ c ∈ b.calls, c.id = id ∧ c.scope.key = key
  | .expire id => ∃ c ∈ b.calls, c.id = id ∧ c.scope.key = key
  | .cancel id => ∃ c ∈ b.calls, c.id = id ∧ c.scope.key = key
  | .overtake id => ∃ c ∈ b.calls, c.id = id ∧ c.scope.key = key
  | _ => False

/-- One broker comes from another by a step that leaves the calls for a key alone. -/
structure Aside (key : ScopeKey) (b b' : Broker) : Prop where
  calls : ∀ c, c.scope.key = key → (c ∈ b'.calls ↔ c ∈ b.calls)
  slots : ∀ s ∈ b.slots.stored, s.key = key → s.queue ≠ [] → s ∈ b'.slots.stored
  unstored : b.tokens.find? key = none → b'.tokens.find? key = none
  journal : ∃ (id : CallId) (log : List Occurrence),
    b'.journal = b.journal ++ log.map (b.entry id) ∧ (∀ o ∈ log, o.startsFor key = false) ∧
    (id < b.nextCall → ∃ c ∈ b.calls, c.id = id ∧ c.scope.key ≠ key)

variable {key : ScopeKey} {b b' : Broker} {c : Call} {e : Event}

/-- What is done about a call concerns the key of its scope set and no other. -/
theorem Holding.concerns_iff (h : b.Holding) (hc : c ∈ b.calls) :
    (∃ d ∈ b.calls, d.id = c.id ∧ d.scope.key = key) ↔ c.scope.key = key := by
  constructor
  · rintro ⟨d, hd, hid, hk⟩
    rwa [← h.eq_of_id hd hc hid]
  · intro hk
    exact ⟨c, hc, rfl, hk⟩

theorem Visited.concerns_iff {r : Except Failure Assertion} {w : Broker} (h : Visited b c e r w)
    (hold : b.Holding) (hc : c ∈ b.calls) : e.Concerns key b ↔ c.scope.key = key := by
  cases h <;> exact hold.concerns_iff hc

theorem Going.concerns_iff {p : Phase} {w : Broker} (h : Going b c e p w) (hold : b.Holding)
    (hc : c ∈ b.calls) : e.Concerns key b ↔ c.scope.key = key := by
  cases h with
  | boards => exact hold.concerns_iff hc
  | sends _ visited => exact visited.concerns_iff hold hc
  | rereads => exact hold.concerns_iff hc

theorem Refreshed.concerns_iff {r : Except Failure AccessToken} {w : Broker}
    (h : Refreshed b c e r w) (hold : b.Holding) (hc : c ∈ b.calls) :
    e.Concerns key b ↔ c.scope.key = key := by
  cases h with
  | unserved => exact hold.concerns_iff hc
  | cutOff => exact hold.concerns_iff hc
  | unread _ visited => exact visited.concerns_iff hold hc
  | unsent _ visited => exact visited.concerns_iff hold hc
  | granted => exact hold.concerns_iff hc
  | refused => exact hold.concerns_iff hc

theorem Closing.concerns_iff {r : Except Failure AccessToken} {w : Broker} (h : Closing b c e r w)
    (hold : b.Holding) (hc : c ∈ b.calls) : e.Concerns key b ↔ c.scope.key = key := by
  cases h with
  | joins => exact hold.concerns_iff hc
  | hits => exact hold.concerns_iff hc
  | lapses => exact hold.concerns_iff hc
  | unpublished refreshed => exact refreshed.concerns_iff hold hc
  | published refreshed => exact refreshed.concerns_iff hold hc

/-- A call that ends changes no slot but its own. -/
theorem Closing.slots {r : Except Failure AccessToken} {w : Broker} (h : Closing b c e r w)
    {s : Slot} (hs : s ∈ b.slots.stored) (hid : s.id ≠ c.slot) : s ∈ w.slots.stored := by
  cases h with
  | joins => exact hs
  | hits => exact hs
  | lapses => exact hs
  | unpublished refreshed => exact refreshed.frame.2.1 ▸ hs
  | published refreshed =>
      exact Slots.mem_modify.mpr ⟨s, refreshed.frame.2.1 ▸ hs, if_neg hid⟩

/-- A call that ends stores no token but one for its own scope set. -/
theorem Closing.unstored {r : Except Failure AccessToken} {w : Broker} (h : Closing b c e r w)
    (hk : c.scope.key ≠ key) (hnone : b.tokens.find? key = none) : w.tokens.find? key = none := by
  have refreshed {v : Broker} (hv : Refreshed b c e r v) : v.tokens.find? key = none := by
    obtain ⟨log, hlog, hl, granted⟩ := hv.logged
    rw [hl.tokens, List.foldl_append, hlog.foldl_keep]
    cases r with
    | error f => exact hnone
    | ok t =>
        obtain ⟨reply, -, round, a, requestedAt, -, hresult⟩ := granted t rfl
        have hscope := (Exchanger.grants_of_conclude hresult).1
        change (b.tokens.put t).find? key = none
        rw [TokenStore.find?_put, hscope, if_neg (Ne.symm hk), hnone]
  cases h with
  | joins => exact hnone
  | hits => exact hnone
  | lapses => exact hnone
  | unpublished hv => exact refreshed hv
  | published hv =>
      have hw := refreshed hv
      exact hw

namespace Aside

theorem refl (key : ScopeKey) (b : Broker) : Aside key b b where
  calls _ _ := Iff.rfl
  slots _ hs _ _ := hs
  unstored h := h
  journal := ⟨b.nextCall, [], by simp, by simp, fun h => absurd h (Nat.lt_irrefl _)⟩

/-- A step that logs nothing and keeps the calls. -/
theorem quiet (calls : b'.calls = b.calls) (journal : b'.journal = b.journal)
    (slots : ∀ s ∈ b.slots.stored, s.key = key → s.queue ≠ [] → s ∈ b'.slots.stored)
    (unstored : b.tokens.find? key = none → b'.tokens.find? key = none) : Aside key b b' where
  calls _ _ := by rw [calls]
  slots := slots
  unstored := unstored
  journal := ⟨b.nextCall, [], by simp [journal], by simp, fun h => absurd h (Nat.lt_irrefl _)⟩

/-- A call for another key begins and ends at once. -/
theorem passes {scope : ScopeSet} {deadline : Option Nat} {log : List Occurrence}
    (hk : scope.key ≠ key) (hl : Logged b b.nextCall (.started scope deadline :: log) b')
    (hlog : ∀ o ∈ log, o.isStarted = false) (slots : log.foldl Occurrence.land b.slots = b.slots)
    (tokens : log.foldl Occurrence.keep b.tokens = b.tokens) : Aside key b b' where
  calls _ _ := by rw [hl.calls]
  slots s hs _ _ := (hl.slots.trans slots) ▸ hs
  unstored h := (hl.tokens.trans tokens) ▸ h
  journal := by
    refine ⟨_, _, hl.journal, ?_, fun h => absurd h (Nat.lt_irrefl _)⟩
    intro o ho
    rcases List.mem_cons.mp ho with rfl | ho
    · exact beq_eq_false_iff_ne.mpr hk
    · exact Occurrence.startsFor_eq (hlog o ho)

/-- A call for another key queues. -/
theorem queues {scope : ScopeSet} {deadline : Option Nat} (hold : b.Holding)
    (hk : scope.key ≠ key) :
    Aside key b ((b.admitCall scope deadline).joinQueue b.nextCall scope deadline) where
  calls c hc := by
    refine ⟨fun h => (List.mem_append.mp h).resolve_right fun hnew => ?_, List.mem_append_left _⟩
    rw [List.mem_singleton.mp hnew] at hc
    exact hk hc
  slots s hs hskey _ := by
    refine Slots.mem_modify.mpr ⟨s, Slots.mem_take.mpr (.inl hs), if_neg fun hid => hk ?_⟩
    have hs' := (hold.slots.take scope.key).eq_of_id (Slots.mem_take.mpr (.inl hs))
      (b.slots.take_mem scope.key) hid
    rw [← hskey, hs', b.slots.key_take]
  unstored h := h
  journal := by
    refine ⟨_, _, journal_queue b scope deadline, ?_, fun h => absurd h (Nat.lt_irrefl _)⟩
    simpa [opening, Occurrence.startsFor, newcomer] using hk

/-- A call for another key goes on. -/
theorem goes {p : Phase} {w : Broker} (hold : b.Holding) (hc : c ∈ b.calls) (hk : c.scope.key ≠ key)
    (going : Going b c e p w) : Aside key b (w.enter c.id p) where
  calls d hd := by
    have hmem : d ∈ (w.enter c.id p).calls ↔ d ∈ (b.enter c.id p).calls := by
      simp only [Broker.enter, going.frame.1]
    rw [hmem]
    constructor
    · intro h
      obtain ⟨d', hd', rfl⟩ := List.mem_map.mp h
      split at hd
      · rename_i hid
        exact absurd (hold.eq_of_id hd' hc hid ▸ hd) hk
      · rename_i hid
        rwa [if_neg hid]
    · intro h
      refine List.mem_map.mpr ⟨d, h, if_neg fun hid => hk ?_⟩
      rw [← hold.eq_of_id h hc hid]
      exact hd
  slots s hs _ _ := going.frame.2.1 ▸ hs
  unstored h := going.frame.2.2.2 ▸ h
  journal := by
    obtain ⟨-, log, hlog, hl⟩ := going.quiet
    refine ⟨_, _, hl.journal, fun o ho => ?_, fun _ => ⟨c, hc, rfl, hk⟩⟩
    exact Occurrence.startsFor_eq (Occurrence.isStarted_eq_of_isQuiet (hlog o ho))

/-- A call for another key leaves. -/
theorem leaves {log : List Occurrence} (hold : b.Holding) (hc : c ∈ b.calls)
    (hk : c.scope.key ≠ key) (calls : b'.calls = (b.forget c.id).calls)
    (slots : ∀ s ∈ b.slots.stored, s.id ≠ c.slot → s.key ≠ c.scope.key → s ∈ b'.slots.stored)
    (unstored : b.tokens.find? key = none → b'.tokens.find? key = none)
    (journal : b'.journal = b.journal ++ log.map (b.entry c.id))
    (hlog : ∀ o ∈ log, o.isStarted = false) : Aside key b b' where
  calls d hd := by
    have hmem : d ∈ b'.calls ↔ d ∈ b.calls ∧ d.id ≠ c.id := by
      rw [calls]
      simp [forget]
    rw [hmem]
    refine ⟨fun h => h.1, fun h => ⟨h, fun hid => hk ?_⟩⟩
    rw [← hold.eq_of_id h hc hid]
    exact hd
  slots s hs hskey _ := by
    have hne : s.key ≠ c.scope.key := hskey ▸ Ne.symm hk
    exact slots s hs (fun hid => hne (hold.key_of_slot hc hs hid)) hne
  unstored := unstored
  journal := ⟨_, _, journal, fun o ho => Occurrence.startsFor_eq (hlog o ho),
    fun _ => ⟨c, hc, rfl, hk⟩⟩

end Aside

/-- A step that does not concern a key leaves its calls alone. -/
theorem Move.aside (hold : b.Holding) (m : Move b e b') (hne : ¬ e.Concerns key b) :
    Aside key b b' := by
  cases m with
  | idle => exact .refl key b
  | refuses => exact .passes hne (logged_refused b _ _ _) (by simp [Occurrence.isStarted]) rfl rfl
  | serves => exact .passes hne (logged_served b _ _ _) (by simp [Occurrence.isStarted]) rfl rfl
  | queues => exact .queues hold hne
  | @reads c _ cache live =>
      have hc := mem_calls_of_call? live
      have hk : c.scope.key ≠ key := fun hk => hne ⟨c, hc, rfl, hk⟩
      have hl := logged_reads b c.id cache
      exact ⟨fun _ _ => Iff.rfl, fun _ hs _ _ => hs, fun h => h, _, _, hl.journal,
        by simp [Occurrence.startsFor], fun _ => ⟨c, hc, rfl, hk⟩⟩
  | goes live going =>
      have hc := mem_calls_of_call? live
      exact .goes hold hc (fun hk => hne ((going.concerns_iff hold hc).mpr hk)) going
  | @ends c e r w live closing =>
      have hc := mem_calls_of_call? live
      have hk : c.scope.key ≠ key := fun hk => hne ((closing.concerns_iff hold hc).mpr hk)
      obtain ⟨log, hlog, hl, -⟩ := closing.logged
      refine .leaves hold hc hk ?_ ?_ (closing.unstored hk) (hl.journal_finish r) ?_
      · simp only [Broker.forget, ← closing.frame.1]
        rfl
      · intro s hs hid hkey
        refine Slots.mem_release.mpr ⟨⟨s, closing.slots hs hid, if_neg hid⟩, fun h => hkey h.1⟩
      · intro o ho
        rcases List.mem_append.mp ho with ho | ho
        · exact hlog.isStarted_eq ho
        · rw [List.mem_singleton.mp ho]
          rfl
  | @cancels c live =>
      have hc := mem_calls_of_call? live
      have hk : c.scope.key ≠ key := fun hk => hne ⟨c, hc, rfl, hk⟩
      have hj := (logged_cancelled b c.id).journal
      refine .leaves hold hc hk rfl ?_ (fun h => h) hj (by simp [Occurrence.isStarted])
      exact fun s hs hid _ => Slots.mem_modify.mpr ⟨s, hs, if_neg hid⟩
  | @overtakes c _ live =>
      have hc := mem_calls_of_call? live
      refine .quiet rfl rfl (fun s hs hskey _ => ?_) fun h => h
      refine Slots.mem_modify.mpr ⟨s, hs, if_neg fun hid => hne ⟨c, hc, rfl, ?_⟩⟩
      rw [← hold.key_of_slot hc hs hid, hskey]
  | overtakesVisit => exact .quiet rfl rfl (fun _ hs _ _ => hs) fun h => h
  | invalidates scope =>
      refine .quiet rfl rfl (fun _ hs _ _ => hs) ?_
      intro h
      change (b.tokens.invalidate scope).find? key = none
      rw [TokenStore.find?_invalidate, h, ite_self]
  | purges =>
      refine .quiet rfl rfl (fun s hs _ hq => Slots.mem_prune.mpr ⟨hs, hq⟩) ?_
      intro h
      exact TokenStore.find?_purge_eq_none h b.clock
  | sets => exact .quiet rfl rfl (fun _ hs _ _ => hs) fun h => h
  | ticks => exact .quiet rfl rfl (fun _ hs _ _ => hs) fun h => h

end Broker

end FederatedAccess
