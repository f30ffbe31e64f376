import FederatedAccess.Proofs.Broker.Holding
import FederatedAccess.Proofs.Broker.Journal

/-!
# What the journal holds of a call

The occurrences of one call follow a fixed course: the call begins, queues, boards, works and ends.
`Living` lists what the journal holds of a call that has not ended, `Departed` what it holds of one
when it ends, and `Gone` what it holds of one later. Every move keeps the journal and the calls in
agreement (`Ledger`), so that what happened to a call can be read off the journal alone.
-/

namespace FederatedAccess

/-- Whether a call is over. -/
def Occurrence.isExit : Occurrence → Bool
  | .ended _ => true
  | .cancelled => true
  | _ => false

namespace Broker

/-- How a call with a ticket begins. -/
def opening (c : Call) (ticket : Nat) : List Occurrence :=
  [.started c.scope c.deadline, .span .getToken c.scope.key, .queued c.slot ticket]

theorem not_mem_opening_ended (c : Call) (n : Nat) (r : Except Failure AccessToken) :
    .ended r ∉ opening c n := by
  simp [opening]

/-- What the journal holds of a call that has not ended. -/
inductive Living (c : Call) : List Occurrence → Prop
  | queued {n} (phase : c.phase = .queued n) : Living c (opening c n)
  | aboard {n log} (aboard : c.phase.isQueued = false) (work : IsWork log) :
      Living c (opening c n ++ .boarded c.slot :: log)

/-- How a call has begun tells its scope set, its deadline, its slot and its ticket. -/
theorem opening_inj {c d : Call} {n m : Nat} {l : List Occurrence} (hc : opening c n <+: l)
    (hd : opening d m <+: l) :
    d.scope = c.scope ∧ d.deadline = c.deadline ∧ d.slot = c.slot ∧ m = n := by
  have he := List.prefix_of_prefix_length_le hc hd (by simp [opening])
  replace he := he.eq_of_length (by simp [opening])
  simp only [opening, List.cons.injEq, Occurrence.started.injEq, Occurrence.queued.injEq] at he
  exact ⟨he.1.1.symm, he.1.2.symm, he.2.2.1.1.symm, he.2.2.1.2.symm⟩

theorem Living.starts {c : Call} {h : List Occurrence} (hl : Living c h) :
    ∃ n, opening c n <+: h := by
  cases hl with
  | queued => exact ⟨_, List.prefix_rfl⟩
  | aboard => exact ⟨_, List.prefix_append _ _⟩

/-- What the journal holds of a call tells its scope set, its deadline and its slot. -/
theorem Living.eq {c d : Call} {h l : List Occurrence} (hc : Living c h) (hd : Living d l)
    (hp : h <+: l) : d.scope = c.scope ∧ d.deadline = c.deadline ∧ d.slot = c.slot := by
  obtain ⟨n, hn⟩ := hc.starts
  obtain ⟨m, hm⟩ := hd.starts
  obtain ⟨hscope, hdeadline, hslot, -⟩ := opening_inj (hn.trans hp) hm
  exact ⟨hscope, hdeadline, hslot⟩

/-- What the journal holds of a call says for which scope set it began. -/
theorem Living.started {c : Call} {h : List Occurrence} (hl : Living c h) :
    .started c.scope c.deadline ∈ h := by
  cases hl <;> simp [opening]

/-- A call that has not ended began as it says. -/
theorem Living.of_started {c : Call} {h : List Occurrence} (hl : Living c h) {scope : ScopeSet}
    {deadline : Option Nat} (hmem : .started scope deadline ∈ h) :
    scope = c.scope ∧ deadline = c.deadline := by
  cases hl with
  | queued => simpa [opening] using hmem
  | @aboard _ log _ work =>
      have hne : .started scope deadline ∉ log := work.not_mem rfl
      simpa [opening, hne] using hmem

theorem Living.not_mem_ended {c : Call} {h : List Occurrence} (hl : Living c h)
    (r : Except Failure AccessToken) : .ended r ∉ h := by
  cases hl with
  | queued => exact not_mem_opening_ended _ _ _
  | aboard _ work => simp [opening, work.not_mem (o := .ended r) rfl]

theorem Living.of_queued {c : Call} {h : List Occurrence} (hl : Living c h)
    (hq : c.phase.isQueued = true) : ∃ n, c.phase = .queued n ∧ h = opening c n := by
  cases hl with
  | queued phase => exact ⟨_, phase, rfl⟩
  | aboard aboard => simp [aboard] at hq

theorem Living.of_aboard {c : Call} {h : List Occurrence} (hl : Living c h)
    (hq : c.phase.isQueued = false) :
    ∃ n log, IsWork log ∧ h = opening c n ++ .boarded c.slot :: log := by
  cases hl with
  | queued phase => simp [phase, Phase.isQueued] at hq
  | aboard _ work => exact ⟨_, _, work, rfl⟩

/-- What the journal holds of a call before it ends with a result. -/
inductive Departed : List Occurrence → Except Failure AccessToken → Prop
  | refused {scope deadline} (none : scope.isEmpty = true) :
      Departed [.started scope deadline, .span .getToken scope.key] (.error Exchanger.noScope)
  | served {scope deadline t} :
      Departed [.started scope deadline, .span .getToken scope.key, .hit t] (.ok t)
  | ended {c h log r} (living : Living c h) (farewell : Farewell c log r) : Departed (h ++ log) r

/-- What the journal holds of a call that has ended or was cancelled. -/
inductive Gone : List Occurrence → Prop
  | departed {h r} (departed : Departed h r) : Gone (h ++ [.ended r])
  | cancelled {c h} (living : Living c h) : Gone (h ++ [.cancelled])

/-- What the journal holds of a call that is gone says so. -/
theorem Gone.exit {h : List Occurrence} (hg : Gone h) : (∃ r, .ended r ∈ h) ∨ .cancelled ∈ h := by
  cases hg with
  | @departed _ r => exact .inl ⟨r, by simp⟩
  | cancelled => exact .inr (by simp)

theorem Farewell.not_mem_ended {c : Call} {log : List Occurrence} {r : Except Failure AccessToken}
    (h : Farewell c log r) (r' : Except Failure AccessToken) : .ended r' ∉ log := by
  cases h with
  | joined => simp
  | hit => simp
  | lapsed => simp
  | refreshed _ work => simp [work.not_mem (o := .ended r') rfl]

/-- A call does not begin when it ends. -/
theorem Farewell.isStarted_eq {c : Call} {log : List Occurrence} {r : Except Failure AccessToken}
    (h : Farewell c log r) {o : Occurrence} (ho : o ∈ log) : o.isStarted = false := by
  cases h with
  | joined => rw [List.mem_singleton.mp ho]; rfl
  | hit => rcases List.mem_pair.mp ho with rfl | rfl <;> rfl
  | lapsed => cases ho
  | refreshed _ work =>
      rw [List.mem_append, List.mem_append, mem_settled, mem_announced] at ho
      rcases ho with (ho | ⟨t, -, rfl⟩) | ⟨-, rfl⟩
      · have hw := work o ho
        cases o <;> first | rfl | cases hw
      · rfl
      · rfl

/-- A refresh shares nothing. -/
theorem Farewell.countP_isJoined {c : Call} {log : List Occurrence}
    {r : Except Failure AccessToken} (h : Farewell c log r) (aboard : c.phase.isQueued = false) :
    log.countP (·.isJoined) = 0 := by
  cases h with
  | joined queued => cases queued.symm.trans aboard
  | hit queued => cases queued.symm.trans aboard
  | lapsed queued => cases queued.symm.trans aboard
  | refreshed _ work =>
      have hsettled : (settled r).countP (·.isJoined) = 0 := by cases r <;> rfl
      have hannounced : (announced c.slot r).countP (·.isJoined) = 0 := by
        unfold announced
        split <;> rfl
      rw [List.countP_append, List.countP_append, work.countP_isJoined, hsettled, hannounced]

theorem Departed.not_mem_ended {h : List Occurrence} {r : Except Failure AccessToken}
    (hd : Departed h r) (r' : Except Failure AccessToken) : .ended r' ∉ h := by
  cases hd with
  | refused => simp
  | served => simp
  | ended living farewell =>
      rw [List.mem_append, not_or]
      exact ⟨living.not_mem_ended r', farewell.not_mem_ended r'⟩

theorem isExit_of_isWork {o : Occurrence} (h : o.isWork = true) : o.isExit = false := by
  cases o <;> first | rfl | cases h

theorem Living.isExit_eq {c : Call} {h : List Occurrence} (hl : Living c h) {o : Occurrence}
    (ho : o ∈ h) : o.isExit = false := by
  have hopening (n : Nat) : ∀ o ∈ opening c n, o.isExit = false := by
    simp [opening, Occurrence.isExit]
  cases hl with
  | queued => exact hopening _ o ho
  | aboard _ work =>
      rcases List.mem_append.mp ho with ho | ho
      · exact hopening _ o ho
      · rcases List.mem_cons.mp ho with rfl | ho
        · rfl
        · exact isExit_of_isWork (work o ho)

theorem Departed.isExit_eq {h : List Occurrence} {r : Except Failure AccessToken}
    (hd : Departed h r) {o : Occurrence} (ho : o ∈ h) : o.isExit = false := by
  cases hd with
  | refused => rcases List.mem_pair.mp ho with rfl | rfl <;> rfl
  | served =>
      simp only [List.mem_cons, List.not_mem_nil, or_false] at ho
      rcases ho with rfl | rfl | rfl <;> rfl
  | @ended c h log r living farewell =>
      rcases List.mem_append.mp ho with ho | ho
      · exact living.isExit_eq ho
      · cases farewell with
        | joined => rw [List.mem_singleton.mp ho]; rfl
        | hit => rcases List.mem_pair.mp ho with rfl | rfl <;> rfl
        | lapsed => cases ho
        | refreshed _ work =>
            rw [List.mem_append, List.mem_append, mem_settled, mem_announced] at ho
            rcases ho with (ho | ⟨t, -, rfl⟩) | ⟨-, rfl⟩
            · exact isExit_of_isWork (work o ho)
            · rfl
            · rfl

/-- A call that is gone began once. -/
theorem Gone.started_eq {h : List Occurrence} (hg : Gone h) {scope scope' : ScopeSet}
    {deadline deadline' : Option Nat} (hs : .started scope deadline ∈ h)
    (hs' : .started scope' deadline' ∈ h) : scope = scope' ∧ deadline = deadline' := by
  cases hg with
  | @departed h r hd =>
      rw [List.mem_append, or_iff_left (by simp)] at hs hs'
      cases hd with
      | refused => simp_all
      | served => simp_all
      | @ended c h log _ living farewell =>
          have only {s : ScopeSet} {d : Option Nat} (hmem : .started s d ∈ h ++ log) :
              s = c.scope ∧ d = c.deadline := by
            rcases List.mem_append.mp hmem with hmem | hmem
            · exact living.of_started hmem
            · cases farewell.isStarted_eq hmem
          obtain ⟨rfl, rfl⟩ := only hs
          obtain ⟨rfl, rfl⟩ := only hs'
          exact ⟨rfl, rfl⟩
  | @cancelled c h living =>
      rw [List.mem_append, or_iff_left (by simp)] at hs hs'
      obtain ⟨rfl, rfl⟩ := living.of_started hs
      obtain ⟨rfl, rfl⟩ := living.of_started hs'
      exact ⟨rfl, rfl⟩

/-- A call begins once before it ends. -/
theorem Departed.countP_isStarted {h : List Occurrence} {r : Except Failure AccessToken}
    (hd : Departed h r) : h.countP (·.isStarted) = 1 := by
  cases hd with
  | refused => rfl
  | served => rfl
  | @ended c h log r living farewell =>
      have hopening (n : Nat) : (opening c n).countP (·.isStarted) = 1 := rfl
      have hliving : h.countP (·.isStarted) = 1 := by
        cases living with
        | queued => exact hopening _
        | aboard _ work =>
            rw [List.countP_append, hopening,
              List.countP_cons_of_neg (by simp [Occurrence.isStarted]), work.countP_isStarted]
      have hlog : log.countP (·.isStarted) = 0 :=
        List.countP_eq_zero.mpr fun o ho => by simp [farewell.isStarted_eq ho]
      rw [List.countP_append, hliving, hlog]

/-- What the journal holds of a call begins with the scope set that the call asks for. -/
theorem Departed.head? {h : List Occurrence} {r : Except Failure AccessToken} (hd : Departed h r) :
    ∃ scope deadline, h.head? = some (.started scope deadline) := by
  cases hd with
  | refused => exact ⟨_, _, rfl⟩
  | served => exact ⟨_, _, rfl⟩
  | ended living => cases living <;> exact ⟨_, _, rfl⟩

/-- A call asks for one scope set. -/
theorem Departed.scope_eq {h : List Occurrence} {r : Except Failure AccessToken}
    (hd : Departed h r) {scope scope' : ScopeSet} {deadline deadline' : Option Nat}
    (hhead : h.head? = some (.started scope deadline)) (hmem : .started scope' deadline' ∈ h) :
    scope' = scope := by
  obtain ⟨rest, rfl⟩ := List.head?_eq_some_iff.mp hhead
  have hcount := hd.countP_isStarted
  rw [List.countP_cons_of_pos rfl, Nat.add_eq_right, List.countP_eq_zero] at hcount
  rcases List.mem_cons.mp hmem with he | hrest
  · exact (Occurrence.started.inj he).1
  · exact absurd rfl (hcount _ hrest)

/-- Only a refresh publishes, and it publishes its own result, unless it ran out of time. -/
theorem Farewell.published {c : Call} {log : List Occurrence} {r o : Except Failure AccessToken}
    {slot : SlotId} (h : Farewell c log r) (ho : .published slot o ∈ log) :
    slot = c.slot ∧ o = r ∧ timedOut r = false ∧ c.phase.isQueued = false := by
  cases h with
  | joined => simp at ho
  | hit => simp at ho
  | lapsed => simp at ho
  | refreshed aboard work =>
      obtain ⟨intime, hslot, ho⟩ : timedOut r = false ∧ slot = c.slot ∧ o = r := by
        simpa [work.not_mem (o := .published slot o) rfl] using ho
      exact ⟨hslot, ho, intime, aboard⟩

/-- The journal and the calls agree. -/
structure Ledger (b : Broker) : Prop where
  fresh : ∀ id, b.nextCall ≤ id → b.history id = []
  living : ∀ c ∈ b.calls, Living c (b.history c.id)
  gone : ∀ id < b.nextCall, (∀ c ∈ b.calls, c.id ≠ id) → Gone (b.history id)
  departed : Chronicle (fun pre x => ∀ r, x.what = .ended r → Departed (historyOf pre x.call) r)
    b.journal

theorem journal_queue (b : Broker) (scope : ScopeSet) (deadline : Option Nat) :
    ((b.admitCall scope deadline).joinQueue b.nextCall scope deadline).journal = b.journal ++
      (opening (b.newcomer b.nextCall scope deadline) (b.slots.take scope.key).1.landed).map
        (b.entry b.nextCall) := by
  simp [joinQueue, admitCall, note, count, measure, opening, newcomer, entry]

/-- A step adds to the journal what happens to one call. -/
theorem Move.journal {b b' : Broker} {e : Event} (m : Move b e b') :
    ∃ (id : CallId) (log : List Occurrence), b'.journal = b.journal ++ log.map (b.entry id) := by
  have same : b.journal = b.journal ++ [].map (b.entry 0) := (List.append_nil _).symm
  cases m with
  | idle => exact ⟨0, [], same⟩
  | refuses => exact ⟨_, _, (logged_refused b _ _ _).journal⟩
  | serves => exact ⟨_, _, (logged_served b _ _ _).journal⟩
  | queues => exact ⟨_, _, journal_queue b _ _⟩
  | reads => exact ⟨_, [.readBegun], rfl⟩
  | goes _ going =>
      obtain ⟨-, log, -, hl⟩ := going.quiet
      exact ⟨_, _, hl.journal⟩
  | ends _ closing =>
      obtain ⟨log, -, hl, -⟩ := closing.logged
      exact ⟨_, _, hl.journal_finish _⟩
  | cancels => exact ⟨_, [.cancelled], rfl⟩
  | overtakes => exact ⟨0, [], same⟩
  | overtakesVisit => exact ⟨0, [], same⟩
  | invalidates => exact ⟨0, [], same⟩
  | purges => exact ⟨0, [], same⟩
  | sets => exact ⟨0, [], same⟩
  | ticks => exact ⟨0, [], same⟩

/-- The history of a call only grows. -/
theorem Move.history {b b' : Broker} {e : Event} (m : Move b e b') (i : CallId) :
    b.history i <+: b'.history i := by
  obtain ⟨id, log, hj⟩ := m.journal
  rw [history_of_journal hj]
  exact List.prefix_append _ _

/-- To enter the phase that a call is in changes nothing. -/
theorem Holding.calls_enter_self {b : Broker} {c : Call} (h : b.Holding) (hc : c ∈ b.calls) :
    (b.enter c.id c.phase).calls = b.calls := by
  refine (List.map_congr_left fun d hd => ?_).trans (List.map_id _)
  by_cases he : d.id = c.id
  · obtain rfl := h.eq_of_id hd hc he
    simp
  · simp [he]

namespace Ledger

variable {b b' : Broker} {c : Call} {log : List Occurrence}

theorem make (config : Config) (e : Exchanger) (clock : Instant) : Ledger (make config e clock) :=
  ⟨fun _ _ => rfl, by simp [Broker.make], by simp [Broker.make], .nil⟩

/-- A step that logs nothing keeps the agreement if it keeps the calls. -/
theorem of_eq (h : b.Ledger) (calls : b'.calls = b.calls) (next : b'.nextCall = b.nextCall)
    (journal : b'.journal = b.journal) : b'.Ledger := by
  have hist (i : CallId) : b'.history i = b.history i := by rw [history, history, journal]
  refine ⟨?_, ?_, ?_, journal ▸ h.departed⟩
  · intro i hi
    rw [hist]
    exact h.fresh i (next ▸ hi)
  · intro d hd
    rw [hist]
    exact h.living d (calls ▸ hd)
  · intro i hi hd
    rw [hist]
    exact h.gone i (next ▸ hi) (calls ▸ hd)

/-- A call that goes on adds to its history. -/
theorem goes {p : Phase} (h : b.Ledger) (hold : b.Holding) (hc : c ∈ b.calls)
    (calls : b'.calls = (b.enter c.id p).calls) (next : b'.nextCall = b.nextCall)
    (journal : b'.journal = b.journal ++ log.map (b.entry c.id))
    (living : Living { c with phase := p } (b.history c.id ++ log))
    (stays : ∀ r, .ended r ∉ log) : b'.Ledger := by
  have hist := history_of_journal journal
  have hids (d : Call) : (if d.id = c.id then { d with phase := p } else d).id = d.id := by
    split <;> rfl
  refine ⟨?_, ?_, ?_, chronicle_ended h.departed journal fun pre r post he => absurd ?_ (stays r)⟩
  · intro i hi
    have hi : b.nextCall ≤ i := next ▸ hi
    have hne : c.id ≠ i := Nat.ne_of_lt (Nat.lt_of_lt_of_le (hold.fresh c hc) hi)
    rw [hist, if_neg hne.symm, h.fresh i hi, List.append_nil]
  · intro d hd
    rw [calls] at hd
    obtain ⟨d', hd', rfl⟩ := List.mem_map.mp hd
    rw [hids, hist]
    split
    · rename_i he
      obtain rfl := hold.eq_of_id hd' hc he
      exact living
    · simpa using h.living d' hd'
  · intro i hi hd
    have hd' : ∀ d ∈ b.calls, d.id ≠ i := by
      intro d hmem he
      exact hd _ (calls ▸ List.mem_map.mpr ⟨d, hmem, rfl⟩) ((hids d).trans he)
    rw [hist, if_neg fun he => hd' c hc he.symm, List.append_nil]
    exact h.gone i (next ▸ hi) hd'
  · simp [he]

/-- A call that leaves has a history that is complete. -/
theorem leaves (h : b.Ledger) (hold : b.Holding) (hc : c ∈ b.calls)
    (calls : b'.calls = (b.forget c.id).calls) (next : b'.nextCall = b.nextCall)
    (journal : b'.journal = b.journal ++ log.map (b.entry c.id))
    (gone : Gone (b.history c.id ++ log))
    (departed : ∀ pre r post, log = pre ++ .ended r :: post → Departed (b.history c.id ++ pre) r) :
    b'.Ledger := by
  have hist := history_of_journal journal
  have hcalls (d : Call) : d ∈ b'.calls ↔ d ∈ b.calls ∧ d.id ≠ c.id := by
    rw [calls]
    simp [forget]
  refine ⟨?_, ?_, ?_, chronicle_ended h.departed journal departed⟩
  · intro i hi
    have hi : b.nextCall ≤ i := next ▸ hi
    have hne : c.id ≠ i := Nat.ne_of_lt (Nat.lt_of_lt_of_le (hold.fresh c hc) hi)
    rw [hist, if_neg hne.symm, h.fresh i hi, List.append_nil]
  · intro d hd
    obtain ⟨hd, hne⟩ := (hcalls d).mp hd
    rw [hist, if_neg hne, List.append_nil]
    exact h.living d hd
  · intro i hi hd
    rw [hist]
    split
    · subst i
      exact gone
    · rename_i hne
      rw [List.append_nil]
      apply h.gone i (next ▸ hi)
      intro d hmem he
      exact hd d ((hcalls d).mpr ⟨hmem, he ▸ hne⟩) he

/-- A call that begins is either complete at once or lives on. -/
theorem begins (h : b.Ledger) (hold : b.Holding) (next : b'.nextCall = b.nextCall + 1)
    (journal : b'.journal = b.journal ++ log.map (b.entry b.nextCall))
    (calls : b'.calls = b.calls ∧ Gone log ∨
      ∃ c : Call, b'.calls = b.calls ++ [c] ∧ c.id = b.nextCall ∧ Living c log)
    (departed : ∀ pre r post, log = pre ++ .ended r :: post → Departed pre r) : b'.Ledger := by
  have hist := history_of_journal journal
  have hnew : b'.history b.nextCall = log := by
    rw [hist, if_pos rfl, h.fresh _ (Nat.le_refl _), List.nil_append]
  have hold' (i : CallId) (hi : i ≠ b.nextCall) : b'.history i = b.history i := by
    rw [hist, if_neg hi, List.append_nil]
  have hcalls (d : Call) (hd : d ∈ b'.calls) : d ∈ b.calls ∨ d.id = b.nextCall ∧ Living d log := by
    rcases calls with ⟨he, -⟩ | ⟨c, he, hid, hl⟩
    · exact .inl (he ▸ hd)
    · rw [he, List.mem_append, List.mem_singleton] at hd
      rcases hd with hd | rfl
      · exact .inl hd
      · exact .inr ⟨hid, hl⟩
  refine ⟨?_, ?_, ?_, chronicle_ended h.departed journal fun pre r post he => ?_⟩
  · intro i hi
    replace hi : b.nextCall < i := by rwa [next] at hi
    rw [hold' i (Nat.ne_of_gt hi)]
    exact h.fresh i (Nat.le_of_lt hi)
  · intro d hd
    rcases hcalls d hd with hd | ⟨hid, hl⟩
    · rw [hold' d.id (Nat.ne_of_lt (hold.fresh d hd))]
      exact h.living d hd
    · rw [hid, hnew]
      exact hl
  · intro i hi hd
    by_cases hne : i = b.nextCall
    · subst i
      rw [hnew]
      rcases calls with ⟨-, hg⟩ | ⟨c, he, hid, -⟩
      · exact hg
      · exact absurd hid (hd c (by simp [he]))
    · rw [hold' i hne]
      rw [next] at hi
      replace hi : i < b.nextCall := Nat.lt_of_le_of_ne (Nat.le_of_lt_succ hi) hne
      refine h.gone i hi fun d hmem => hd d ?_
      rcases calls with ⟨he, -⟩ | ⟨c, he, -⟩ <;> simp [he, hmem]
  · rw [h.fresh _ (Nat.le_refl _), List.nil_append]
    exact departed pre r post he

/-- A call of which the journal holds an end is gone. -/
theorem gone_of_exit (h : b.Ledger) {i : CallId} {o : Occurrence} (ho : o.isExit = true)
    (hmem : o ∈ b.history i) : Gone (b.history i) := by
  have hi : i < b.nextCall := by
    by_contra hge
    simp [h.fresh i (Nat.le_of_not_lt hge)] at hmem
  refine h.gone i hi ?_
  rintro c hc rfl
  cases ((h.living c hc).isExit_eq hmem).symm.trans ho

/-- A call ends with one result. -/
theorem ended_eq (h : b.Ledger) {i : CallId} {r r' : Except Failure AccessToken}
    (hr : .ended r ∈ b.history i) (hr' : .ended r' ∈ b.history i) : r = r' := by
  have hgone := h.gone_of_exit rfl hr
  generalize b.history i = whole at hgone hr hr'
  cases hgone with
  | @departed before r₀ hd =>
      have only {s : Except Failure AccessToken} (hs : .ended s ∈ before ++ [Occurrence.ended r₀]) :
          s = r₀ := by
        simpa [hd.not_mem_ended s] using hs
      exact (only hr).trans (only hr').symm
  | cancelled living => simp [living.not_mem_ended r] at hr

/-- A call that has ended was not cancelled. -/
theorem not_cancelled (h : b.Ledger) {i : CallId} {r : Except Failure AccessToken}
    (hr : .ended r ∈ b.history i) : .cancelled ∉ b.history i := by
  have hgone := h.gone_of_exit rfl hr
  generalize b.history i = whole at hgone hr
  cases hgone with
  | departed hd =>
      intro hcancelled
      rw [List.mem_append, or_iff_left (by simp)] at hcancelled
      cases hd.isExit_eq hcancelled
  | cancelled living => simp [living.not_mem_ended r] at hr

/-- Nothing more happens to a call that is over. -/
theorem eq_of_exit (h : b.Ledger) {i : CallId} {l : List Occurrence} {o : Occurrence}
    (hl : l <+: b.history i) (ho : o.isExit = true) (hmem : o ∈ l) : l = b.history i := by
  have hgone := h.gone_of_exit ho (hl.subset hmem)
  generalize b.history i = whole at hl hgone
  cases hgone with
  | departed hd =>
      refine (List.prefix_concat_iff.mp hl).resolve_right fun hbefore => ?_
      cases (hd.isExit_eq (hbefore.subset hmem)).symm.trans ho
  | cancelled living =>
      refine (List.prefix_concat_iff.mp hl).resolve_right fun hbefore => ?_
      cases (living.isExit_eq (hbefore.subset hmem)).symm.trans ho

/-- Nothing more happens to a call that has ended. -/
theorem eq_of_ended (h : b.Ledger) {i : CallId} {l : List Occurrence} {r : Except Failure AccessToken}
    (hl : l <+: b.history i) (hr : .ended r ∈ l) : l = b.history i :=
  h.eq_of_exit hl rfl hr

/-- The end of a call is the last thing that the journal holds of it. -/
theorem split_of_ended (h : b.Ledger) {i : CallId} {r : Except Failure AccessToken}
    (hr : .ended r ∈ b.history i) :
    ∃ pre e post, b.journal = pre ++ e :: post ∧ e.call = i ∧ e.what = .ended r ∧
      b.history i = historyOf pre i ++ [.ended r] := by
  obtain ⟨e, he, hcall, hwhat⟩ := mem_historyOf.mp hr
  obtain ⟨pre, post, hj⟩ := List.append_of_mem he
  have hsplit : b.history i = historyOf pre i ++ [.ended r] ++ historyOf post i := by
    rw [history, hj, historyOf_append]
    simp [historyOf, hcall, hwhat]
  have hwhole := h.eq_of_ended (hsplit ▸ List.prefix_append _ _) (List.mem_concat_self)
  exact ⟨pre, e, post, hj, hcall, hwhat, hwhole.symm⟩

/-- A call begins once. -/
theorem started_eq (h : b.Ledger) {i : CallId} {scope scope' : ScopeSet}
    {deadline deadline' : Option Nat} (hs : .started scope deadline ∈ b.history i)
    (hs' : .started scope' deadline' ∈ b.history i) : scope = scope' ∧ deadline = deadline' := by
  have hi : i < b.nextCall := by
    by_contra hge
    simp [h.fresh i (Nat.le_of_not_lt hge)] at hs
  by_cases hlive : ∃ c ∈ b.calls, c.id = i
  · obtain ⟨c, hc, rfl⟩ := hlive
    obtain ⟨rfl, rfl⟩ := (h.living c hc).of_started hs
    obtain ⟨rfl, rfl⟩ := (h.living c hc).of_started hs'
    exact ⟨rfl, rfl⟩
  · have hgone := h.gone i hi fun c hc he => hlive ⟨c, hc, he⟩
    exact hgone.started_eq hs hs'

/-- Every move keeps the journal and the calls in agreement. -/
theorem move {e : Event} (h : b.Ledger) (hold : b.Holding) (m : Move b e b') : b'.Ledger := by
  cases m with
  | idle => exact h
  | @refuses scope deadline none =>
      have hl := logged_refused b scope deadline (.error Exchanger.noScope)
      have hd : Departed [.started scope deadline, .span .getToken scope.key] _ := .refused none
      refine h.begins hold hl.nextCall hl.journal (.inl ⟨hl.calls, .departed hd⟩) ?_
      intro pre r post he
      obtain ⟨rfl, hr⟩ := eq_of_concat_eq (l := [_, _]) he (by simp)
      exact (Occurrence.ended.inj hr) ▸ hd
  | @serves scope deadline t =>
      have hl := logged_served b scope deadline t
      have hd : Departed [.started scope deadline, .span .getToken scope.key, .hit t] _ := .served
      refine h.begins hold hl.nextCall hl.journal (.inl ⟨hl.calls, .departed hd⟩) ?_
      intro pre r post he
      obtain ⟨rfl, hr⟩ := eq_of_concat_eq (l := [_, _, _]) he (by simp)
      exact (Occurrence.ended.inj hr) ▸ hd
  | @queues scope deadline =>
      refine h.begins hold (logged_admitCall b scope deadline).nextCall
        (journal_queue b scope deadline) (.inr ⟨_, rfl, rfl, .queued rfl⟩) fun pre r post he => ?_
      have hne := not_mem_opening_ended (b.newcomer b.nextCall scope deadline)
        (b.slots.take scope.key).1.landed r
      simp [he] at hne
  | @reads c round cache live phase =>
      have hc := mem_calls_of_call? live
      have hl := logged_beginRead { b with cache } c.id
      refine h.goes hold hc (p := c.phase) ?_ hl.nextCall hl.journal ?_ (by simp)
      · exact hl.calls.trans (hold.calls_enter_self hc).symm
      · have hq : c.phase.isQueued = false := by simp [phase, Phase.isQueued]
        obtain ⟨n, log, hlog, hh⟩ := (h.living c hc).of_aboard hq
        rw [hh, List.append_assoc, List.cons_append]
        exact .aboard hq (hlog.append (.singleton rfl))
  | @goes c e p w live going =>
      have hc := mem_calls_of_call? live
      have hcalls : (w.enter c.id p).calls = (b.enter c.id p).calls := by
        simp only [Broker.enter, going.frame.1]
      obtain ⟨hp, ⟨hq, hl⟩ | ⟨hq, log, hlog, hl⟩⟩ := going.logged
      · refine h.goes hold hc hcalls hl.nextCall hl.journal ?_ (by simp)
        obtain ⟨n, -, hh⟩ := (h.living c hc).of_queued hq
        rw [hh]
        exact .aboard hp .nil
      · refine h.goes hold hc hcalls (hl.nextCall_of_work hlog) hl.journal ?_
          fun r => hlog.not_mem rfl
        obtain ⟨n, before, hbefore, hh⟩ := (h.living c hc).of_aboard hq
        rw [hh, List.append_assoc, List.cons_append]
        exact .aboard hp (hbefore.append hlog)
  | @ends c e r w live closing =>
      have hc := mem_calls_of_call? live
      obtain ⟨log, hlog, hl, -⟩ := closing.logged
      have hd := Departed.ended (h.living c hc) hlog
      refine h.leaves hold hc ?_ closing.frame.2 (hl.journal_finish r) ?_ ?_
      · simp only [Broker.forget, ← closing.frame.1]
        rfl
      · rw [← List.append_assoc]
        exact .departed hd
      · intro pre r' post he
        obtain ⟨rfl, hr⟩ := eq_of_concat_eq he (hlog.not_mem_ended r')
        exact (Occurrence.ended.inj hr) ▸ hd
  | cancels live =>
      have hc := mem_calls_of_call? live
      refine h.leaves hold hc rfl rfl rfl (.cancelled (h.living _ hc)) ?_
      intro pre r post he
      have hmem : .ended r ∈ [Occurrence.cancelled] := by simp [he]
      simp at hmem
  | overtakes => exact h.of_eq rfl rfl rfl
  | overtakesVisit => exact h.of_eq rfl rfl rfl
  | invalidates => exact h.of_eq rfl rfl rfl
  | purges => exact h.of_eq rfl rfl rfl
  | sets => exact h.of_eq rfl rfl rfl
  | ticks => exact h.of_eq rfl rfl rfl

end Ledger

end Broker

end FederatedAccess
