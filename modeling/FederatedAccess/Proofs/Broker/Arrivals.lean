import FederatedAccess.Proofs.Broker.Bystander

/-!
# Calls that have begun since

What a journal has gained since an earlier state tells which calls for a key have begun since, in
order (`arrivals`). Their numbers are new and differ, and what is counted over the entries of some
calls is the sum of what is counted over their histories.
-/

namespace FederatedAccess.Broker

/-- What the journal has gained since an earlier state. -/
def since (b₀ b : Broker) : List Entry := b.journal.drop b₀.journal.length

/-- The calls for a key that have begun since an earlier state, in order. -/
def arrivals (b₀ b : Broker) (key : ScopeKey) : List CallId :=
  ((since b₀ b).filter (·.what.startsFor key)).map Entry.call

/-- One state is later than the other, and the calls that have begun since are new and differ. -/
structure Later (key : ScopeKey) (b₀ b : Broker) : Prop where
  journal : b₀.journal <+: b.journal
  next : b₀.nextCall ≤ b.nextCall
  fresh : ∀ i ∈ arrivals b₀ b key, b₀.nextCall ≤ i ∧ i < b.nextCall
  nodup : (arrivals b₀ b key).Nodup

variable {key : ScopeKey} {b₀ b b' : Broker} {log : List Occurrence} {id : CallId}

theorem since_eq (h : b₀.journal <+: b.journal) : b.journal = b₀.journal ++ since b₀ b :=
  (List.prefix_iff_eq_append.mp h).symm

theorem since_append (h : b₀.journal <+: b.journal) {l : List Entry}
    (hj : b'.journal = b.journal ++ l) : since b₀ b' = since b₀ b ++ l := by
  rw [since, hj, List.drop_append_of_le_length h.length_le]
  rfl

theorem arrivals_log (h : b₀.journal <+: b.journal)
    (hj : b'.journal = b.journal ++ log.map (b.entry id)) :
    arrivals b₀ b' key = arrivals b₀ b key ++ (log.filter (·.startsFor key)).map fun _ => id := by
  rw [arrivals, since_append h hj, List.filter_append, List.map_append, List.filter_map,
    List.map_map]
  rfl

/-- A step in which no call for the key begins adds no arrival. -/
theorem arrivals_eq (h : b₀.journal <+: b.journal)
    (hj : b'.journal = b.journal ++ log.map (b.entry id))
    (hlog : ∀ o ∈ log, o.startsFor key = false) : arrivals b₀ b' key = arrivals b₀ b key := by
  have hnil : log.filter (·.startsFor key) = [] :=
    List.filter_eq_nil_iff.mpr fun o ho => by simp [hlog o ho]
  rw [arrivals_log h hj, hnil, List.map_nil, List.append_nil]

/-- Calls that have arrived stay so. -/
theorem arrivals_mono (h : b₀.journal <+: b.journal) (hb : b.journal <+: b'.journal) :
    arrivals b₀ b key <+: arrivals b₀ b' key := by
  obtain ⟨l, hl⟩ := hb
  rw [arrivals, arrivals, since_append h hl.symm, List.filter_append, List.map_append]
  exact List.prefix_append _ _

/-- The journal since an earlier state holds the whole history of a call that is newer. -/
theorem historyOf_since (h : b₀.journal <+: b.journal) (ledger : b₀.Ledger) {i : CallId}
    (hi : b₀.nextCall ≤ i) : historyOf (since b₀ b) i = b.history i := by
  have hnil : historyOf b₀.journal i = [] := ledger.fresh i hi
  rw [history, since_eq h, historyOf_append, hnil, List.nil_append]

/-- A call that has arrived began with a scope set of the key. -/
theorem started_of_arrivals (h : b₀.journal <+: b.journal) {i : CallId}
    (hi : i ∈ arrivals b₀ b key) :
    ∃ scope deadline, .started scope deadline ∈ b.history i ∧ scope.key = key := by
  obtain ⟨x, hx, rfl⟩ := List.mem_map.mp hi
  obtain ⟨hx, hw⟩ := List.mem_filter.mp hx
  cases hwhat : x.what with
  | started scope deadline =>
      refine ⟨scope, deadline, mem_historyOf.mpr ⟨x, ?_, rfl, hwhat⟩, ?_⟩
      · rw [since_eq h]
        exact List.mem_append_right _ hx
      · simpa [hwhat, Occurrence.startsFor] using hw
  | _ => simp [hwhat, Occurrence.startsFor] at hw

/-- A call that has arrived is for the key. -/
theorem Coherent.key_of_arrivals (hb : b.Coherent) (h : b₀.journal <+: b.journal) {c : Call}
    (hc : c ∈ b.calls) (hi : c.id ∈ arrivals b₀ b key) : c.scope.key = key := by
  obtain ⟨scope, deadline, hstarted, hk⟩ := started_of_arrivals h hi
  rw [← ((hb.ledger.living c hc).of_started hstarted).1]
  exact hk

/-- What happened to the calls for a key does not change when nothing is done about them. -/
theorem Aside.history_eq (a : Aside key b b') (hb : b.Coherent) (h : Later key b₀ b) {i : CallId}
    (hi : i ∈ arrivals b₀ b key) : b'.history i = b.history i := by
  obtain ⟨id, log, hj, -, hcall⟩ := a.journal
  have hne : i ≠ id := by
    rintro rfl
    obtain ⟨c, hc, rfl, hk⟩ := hcall (h.fresh i hi).2
    exact hk (hb.key_of_arrivals h.journal hc hi)
  rw [history_of_journal hj, if_neg hne, List.append_nil]

/-- Numbers of calls only grow. -/
theorem Move.nextCall_le {e : Event} (m : Move b e b') : b.nextCall ≤ b'.nextCall := by
  have grows {w : Broker} {log : List Occurrence} (hl : Logged b b.nextCall log w) :
      b.nextCall ≤ w.nextCall := hl.nextCall ▸ Nat.le_add_right _ _
  cases m with
  | refuses => exact grows (logged_refused b _ _ _)
  | serves => exact grows (logged_served b _ _ _)
  | @queues scope deadline =>
      have hadmitted := grows (logged_admitCall b scope deadline)
      exact hadmitted
  | goes _ going => exact Nat.le_of_eq going.frame.2.2.1.symm
  | ends _ closing => exact Nat.le_of_eq closing.frame.2.symm
  | _ => exact Nat.le_refl _

namespace Later

theorem refl (key : ScopeKey) (b : Broker) : Later key b b where
  journal := List.prefix_rfl
  next := Nat.le_refl _
  fresh := by simp [arrivals, since]
  nodup := by simp [arrivals, since]

/-- A step in which no call for the key begins. -/
theorem step (h : Later key b₀ b) (next : b.nextCall ≤ b'.nextCall)
    (hj : b'.journal = b.journal ++ log.map (b.entry id))
    (hlog : ∀ o ∈ log, o.startsFor key = false) : Later key b₀ b' where
  journal := hj ▸ h.journal.trans (List.prefix_append _ _)
  next := Nat.le_trans h.next next
  fresh i hi := by
    rw [arrivals_eq h.journal hj hlog] at hi
    exact ⟨(h.fresh i hi).1, Nat.lt_of_lt_of_le (h.fresh i hi).2 next⟩
  nodup := by
    rw [arrivals_eq h.journal hj hlog]
    exact h.nodup

/-- A step in which a call for the key begins. -/
theorem arrive {scope : ScopeSet} {deadline : Option Nat} (h : Later key b₀ b)
    (next : b'.nextCall = b.nextCall + 1)
    (hj : b'.journal = b.journal ++ (.started scope deadline :: log).map (b.entry b.nextCall))
    (hk : scope.key = key) (hlog : ∀ o ∈ log, o.startsFor key = false) :
    Later key b₀ b' ∧ arrivals b₀ b' key = arrivals b₀ b key ++ [b.nextCall] := by
  have harrivals : arrivals b₀ b' key = arrivals b₀ b key ++ [b.nextCall] := by
    have hnil : log.filter (·.startsFor key) = [] :=
      List.filter_eq_nil_iff.mpr fun o ho => by simp [hlog o ho]
    have hstarts : (Occurrence.started scope deadline).startsFor key = true := beq_iff_eq.mpr hk
    rw [arrivals_log h.journal hj, List.filter_cons_of_pos hstarts, hnil]
    rfl
  refine ⟨⟨hj ▸ h.journal.trans (List.prefix_append _ _), ?_, ?_, ?_⟩, harrivals⟩
  · rw [next]
    exact Nat.le_succ_of_le h.next
  · intro i hi
    rw [harrivals, List.mem_append, List.mem_singleton] at hi
    rw [next]
    rcases hi with hi | rfl
    · exact ⟨(h.fresh i hi).1, Nat.lt_succ_of_lt (h.fresh i hi).2⟩
    · exact ⟨h.next, Nat.lt_succ_self _⟩
  · rw [harrivals]
    refine List.nodup_append.mpr ⟨h.nodup, by simp, ?_⟩
    intro i hi j hj
    rw [List.mem_singleton.mp hj]
    exact Nat.ne_of_lt (h.fresh i hi).2

end Later

/-! ### Time -/

/-- Only ticks let time pass. -/
theorem Move.time_eq {e : Event} (m : Move b e b') :
    b'.time = b.time ∨ e = .tick b'.time ∧ b.time ≤ b'.time := by
  cases m with
  | refuses => exact .inl (logged_refused b _ _ _).time
  | serves => exact .inl (logged_served b _ _ _).time
  | @queues scope deadline =>
      have htime := (logged_admitCall b scope deadline).time
      exact .inl htime
  | goes _ going =>
      obtain ⟨-, log, -, hl⟩ := going.quiet
      exact .inl hl.time
  | ends _ closing =>
      obtain ⟨log, -, hl, -⟩ := closing.logged
      exact .inl hl.time
  | ticks later => exact .inr ⟨rfl, later⟩
  | _ => exact .inl rfl

/-- One state comes after another, and what the journal has gained since is no earlier. -/
structure After (b b' : Broker) : Prop where
  time : b.time ≤ b'.time
  journal : ∃ l, b'.journal = b.journal ++ l ∧ ∀ x ∈ l, b.time ≤ x.time

/-- Every run goes forward in time. -/
theorem after_run (b : Broker) (events : List Event) : After b (b.run events) := by
  refine run_keeps (P := After b) ?_ ⟨Nat.le_refl _, [], by simp, by simp⟩ events
  intro w e w' h m
  obtain ⟨l, hl, hlater⟩ := h.journal
  obtain ⟨id, log, hj⟩ := m.journal
  refine ⟨?_, l ++ log.map (w.entry id), by rw [hj, hl, List.append_assoc], ?_⟩
  · rcases m.time_eq with htime | ⟨-, htime⟩
    · rw [htime]
      exact h.time
    · exact Nat.le_trans h.time htime
  · intro x hx
    rcases List.mem_append.mp hx with hx | hx
    · exact hlater x hx
    · obtain ⟨o, -, rfl⟩ := List.mem_map.mp hx
      exact h.time

theorem After.grows (h : After b b') : b.journal <+: b'.journal := by
  obtain ⟨l, hl, -⟩ := h.journal
  exact ⟨l, hl.symm⟩

/-- What was known of a call stays known. -/
theorem After.history (h : After b b') (i : CallId) : b.history i <+: b'.history i := by
  obtain ⟨l, hl, -⟩ := h.journal
  rw [Broker.history, Broker.history, hl, historyOf_append]
  exact List.prefix_append _ _

/-! ### Counting -/

/-- What is counted over a journal is counted over the history of a call and the other calls. -/
theorem countP_call (p : Occurrence → Bool) (j : List Entry) {ids : List CallId} {i : CallId}
    (hi : i ∉ ids) : j.countP (fun x => p x.what && !ids.contains x.call) =
      (historyOf j i).countP p + j.countP fun x => p x.what && !(i :: ids).contains x.call := by
  have hids : ids.contains i = false := by simpa using hi
  induction j with
  | nil => rfl
  | cons x rest ih =>
      by_cases hx : x.call = i
      · have hhistory : historyOf (x :: rest) i = x.what :: historyOf rest i := by
          simp [historyOf, hx]
        rw [hhistory, List.countP_cons, List.countP_cons, List.countP_cons, ih, hx, hids]
        simp only [List.contains_cons, BEq.rfl, Bool.true_or, Bool.not_true, Bool.and_false,
          Bool.not_false, Bool.and_true, Bool.false_eq_true, if_false]
        omega
      · have hhistory : historyOf (x :: rest) i = historyOf rest i := by simp [historyOf, hx]
        have hne : (x.call == i) = false := beq_eq_false_iff_ne.mpr hx
        rw [hhistory, List.countP_cons, List.countP_cons, ih, List.contains_cons, hne,
          Bool.false_or]
        omega

/-- What is counted over a journal is counted over the histories of some calls and the other
calls. -/
theorem countP_calls (p : Occurrence → Bool) (j : List Entry) {ids : List CallId} (h : ids.Nodup) :
    j.countP (fun x => p x.what) = (ids.flatMap (historyOf j)).countP p +
      j.countP fun x => p x.what && !ids.contains x.call := by
  induction ids with
  | nil => simp
  | cons i rest ih =>
      obtain ⟨hi, hrest⟩ := List.nodup_cons.mp h
      rw [ih hrest, countP_call p j hi, List.flatMap_cons, List.countP_append]
      omega

/-- The total of shared outcomes is the number of times that a call shared one. -/
def Counted (b : Broker) : Prop := b.metrics.coalesced = b.journal.countP (·.what.isJoined)

theorem Counted.logged (h : b.Counted) (hl : Logged b id log b') : b'.Counted := by
  have hcount : (log.map (b.entry id)).countP (·.what.isJoined) = log.countP (·.isJoined) := by
    rw [List.countP_map]
    rfl
  rw [Counted, hl.coalesced, hl.journal, List.countP_append, hcount, h]

/-- Every move counts what it enters in the journal. -/
theorem Counted.move {e : Event} (h : b.Counted) (m : Move b e b') : b'.Counted := by
  cases m with
  | refuses => exact h.logged (logged_refused b _ _ _)
  | serves => exact h.logged (logged_served b _ _ _)
  | @queues scope deadline =>
      have hbegun : (b.admitCall scope deadline).Counted :=
        h.logged (logged_admitCall b scope deadline)
      have hqueued : Counted ((b.admitCall scope deadline).note b.nextCall
          (.queued (b.slots.take scope.key).1.id (b.slots.take scope.key).1.landed)) :=
        hbegun.logged (logged_note _ _ rfl)
      exact hqueued
  | reads => exact h.logged (logged_reads b _ _)
  | goes _ going =>
      obtain ⟨-, log, -, hl⟩ := going.quiet
      have hw := h.logged hl
      exact hw
  | @ends c e r w _ closing =>
      obtain ⟨log, -, hl, -⟩ := closing.logged
      have hr := (h.logged hl).logged (logged_report w c.id r)
      exact hr
  | @cancels c =>
      have hcancelled : (b.note c.id .cancelled).Counted := h.logged (logged_note b c.id rfl)
      exact hcancelled
  | _ => exact h

theorem Counted.make (config : Config) (x : Exchanger) (clock : Instant) :
    Counted (make config x clock) := rfl

theorem Counted.run (h : b.Counted) (events : List Event) : (b.run events).Counted :=
  run_keeps (fun _ _ _ => move) h events

end FederatedAccess.Broker
