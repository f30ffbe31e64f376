import FederatedAccess.Proofs.Broker.Ledger

/-!
# Published outcomes

The journal tells what was published in a slot, and in which order. A slot that is stored counts
these outcomes and holds the last of them, and the ticket of a call is the count at the moment when
the call queued (`Landing`). A call that finds the count moved therefore shares an outcome that was
published after it came, however long the slot has been stored and whoever has left it meanwhile.
-/

namespace FederatedAccess

/-- The outcome that an occurrence publishes in a slot. -/
def Occurrence.publishedIn? (slot : SlotId) : Occurrence → Option (Except Failure AccessToken)
  | .published s o => if s = slot then some o else none
  | _ => none

/-- The outcomes published in a slot, in order. -/
def publications (journal : List Entry) (slot : SlotId) : List (Except Failure AccessToken) :=
  journal.filterMap (·.what.publishedIn? slot)

@[simp] theorem publications_append (j l : List Entry) (slot : SlotId) :
    publications (j ++ l) slot = publications j slot ++ publications l slot := by
  simp [publications]

theorem publishedIn?_eq_some_iff {slot : SlotId} {what : Occurrence}
    {o : Except Failure AccessToken} :
    what.publishedIn? slot = some o ↔ what = .published slot o := by
  cases what <;> simp [Occurrence.publishedIn?]

theorem mem_publications {j : List Entry} {slot : SlotId} {o : Except Failure AccessToken} :
    o ∈ publications j slot ↔ ∃ x ∈ j, x.what = .published slot o := by
  simp [publications, publishedIn?_eq_some_iff]

/-- Where nothing is published in a slot, the publications are none. -/
theorem publications_eq_nil {j : List Entry} {slot : SlotId}
    (h : ∀ x ∈ j, ∀ o, x.what ≠ .published slot o) : publications j slot = [] := by
  apply List.eq_nil_iff_forall_not_mem.mpr
  intro o ho
  obtain ⟨x, hx, hw⟩ := mem_publications.mp ho
  exact h x hx o hw

theorem Occurrence.unshared_of_isQuiet {o : Occurrence} (h : o.isQuiet = true) :
    o.isJoined = false ∧ ∀ slot, o.publishedIn? slot = none := by
  cases o <;> first | exact ⟨rfl, fun _ => rfl⟩ | cases h

/-- The slots count what was published in them, and hold the last of it. -/
def Landed (t : Slots) (journal : List Entry) : Prop :=
  ∀ s ∈ t.stored, s.landed = (publications journal s.id).length ∧
    s.outcome = (publications journal s.id).getLast?

namespace Landed

variable {t t' : Slots} {j : List Entry}

theorem under (h : Landed t j) (ht : t'.Under t) : Landed t' j := by
  intro s hs
  obtain ⟨u, hu, hlike⟩ := ht.like s hs
  rw [hlike.landed, hlike.outcome, hlike.id]
  exact h u hu

/-- An occurrence lands in the slots as it is entered in the journal. -/
theorem land (h : Landed t j) {x : Entry} : Landed (Occurrence.land t x.what) (j ++ [x]) := by
  have other (hx : Occurrence.land t x.what = t)
      (hn : ∀ slot o, x.what ≠ .published slot o) :
      Landed (Occurrence.land t x.what) (j ++ [x]) := by
    rw [hx]
    intro s hs
    have hnil : publications [x] s.id = [] := publications_eq_nil (by simpa using hn s.id)
    rw [publications_append, hnil, List.append_nil]
    exact h s hs
  cases hw : x.what with
  | published slot o =>
      intro s hs
      obtain ⟨u, hu, rfl⟩ := Slots.mem_modify.mp hs
      obtain ⟨hlanded, houtcome⟩ := h u hu
      split
      · rename_i hid
        have hx : publications [x] slot = [o] := by
          simp [publications, hw, Occurrence.publishedIn?]
        simp [Slot.publish, hid, hx, hlanded]
      · rename_i hid
        have hx : publications [x] u.id = [] :=
          publications_eq_nil (by simpa [hw] using fun he => absurd he.symm hid)
        simp [hx, hlanded, houtcome]
  | _ => exact hw ▸ other (by rw [hw]; rfl) (by simp [hw])

theorem log (h : Landed t j) (b : Broker) (id : CallId) (log : List Occurrence) :
    Landed (log.foldl Occurrence.land t) (j ++ log.map (b.entry id)) := by
  induction log generalizing t j with
  | nil => simpa using h
  | cons o rest ih =>
      have ho : Landed (Occurrence.land t o) (j ++ [b.entry id o]) :=
        h.land (x := b.entry id o)
      simpa using ih ho

/-- A slot that is taken for the first time has no outcomes yet. -/
theorem take (h : Landed t j) (hj : publications j t.next = []) (key : ScopeKey) :
    Landed (t.take key).2 j := by
  rcases t.take_cases key with ⟨he, -⟩ | ⟨hnew, -⟩
  · rwa [he]
  · intro s hs
    rcases Slots.mem_take.mp hs with hs | rfl
    · exact h s hs
    · simp [hnew, hj]

end Landed

/-- In a journal, a call began, queued in a slot, and then another call that had boarded there
published an outcome. -/
inductive PublishedSince (id : CallId) (o : Except Failure AccessToken) : List Entry → Prop
  | intro {p s m z q y u scope deadline slot n}
      (started : s.call = id ∧ s.what = .started scope deadline)
      (queued : z.call = id ∧ z.what = .queued slot n)
      (published : y.call ≠ id ∧ y.what = .published slot o)
      (boarded : .boarded slot ∈ historyOf (p ++ s :: m ++ z :: q) y.call) :
      PublishedSince id o (p ++ s :: m ++ z :: q ++ y :: u)

theorem PublishedSince.append {id : CallId} {o : Except Failure AccessToken} {j : List Entry}
    (h : PublishedSince id o j) (l : List Entry) : PublishedSince id o (j ++ l) := by
  cases h with
  | intro started queued published boarded =>
      rw [List.append_assoc, List.cons_append]
      exact .intro started queued published boarded

namespace Broker

/-- In a journal, a call began and queued with a ticket that counts what its slot had published. -/
inductive Ticket (c : Call) (n : Nat) : List Entry → Prop
  | intro {p s m z q scope deadline}
      (started : s.call = c.id ∧ s.what = .started scope deadline)
      (queued : z.call = c.id ∧ z.what = .queued c.slot n)
      (count : n = (publications (p ++ s :: m) c.slot).length) : Ticket c n (p ++ s :: m ++ z :: q)

theorem Ticket.append {c : Call} {n : Nat} {j : List Entry} (h : Ticket c n j) (l : List Entry) :
    Ticket c n (j ++ l) := by
  cases h with
  | intro started queued count =>
      rw [List.append_assoc, List.cons_append]
      exact .intro started queued count

/-- The journal, the slots and the tickets agree. -/
structure Landing (b : Broker) : Prop where
  landed : Landed b.slots b.journal
  fresh : ∀ i, b.slots.next ≤ i → publications b.journal i = []
  tickets : ∀ c ∈ b.calls, ∀ n, c.phase = .queued n → Ticket c n b.journal
  published : Chronicle (fun pre x => ∀ slot o, x.what = .published slot o →
    timedOut o = false ∧ .boarded slot ∈ historyOf pre x.call) b.journal
  joined : Chronicle (fun pre x => ∀ o, x.what = .joined o → PublishedSince x.call o pre) b.journal

theorem next_foldl_land (log : List Occurrence) (t : Slots) :
    (log.foldl Occurrence.land t).next = t.next := by
  induction log generalizing t with
  | nil => rfl
  | cons o rest ih =>
      have ho : (Occurrence.land t o).next = t.next := by cases o <;> rfl
      rw [List.foldl_cons, ih, ho]

namespace Landing

variable {b b' : Broker} {c : Call} {log : List Occurrence}

theorem make (config : Config) (x : Exchanger) (clock : Instant) :
    Landing (make config x clock) :=
  ⟨by simp [Broker.make, Landed], fun _ _ => rfl, by simp [Broker.make], .nil, .nil⟩

/-- A call that finds the count of its slot moved shares what was published after it queued. -/
theorem publishedSince (h : b.Landing) (hold : b.Holding) (ledger : b.Ledger) (hc : c ∈ b.calls)
    {n : Nat} {s : Slot} {o : Except Failure AccessToken} (phase : c.phase = .queued n)
    (slot : b.slots.find? c.slot = some s) (shared : s.shared? n = some o) :
    PublishedSince c.id o b.journal := by
  obtain ⟨hs, hid⟩ := hold.slots.find?_eq_some_iff.mp slot
  obtain ⟨hmoved, houtcome⟩ := Slot.shared?_eq_some_iff.mp shared
  obtain ⟨hlanded, hlast⟩ := h.landed s hs
  rw [hid] at hlanded hlast
  have hself : ∀ x ∈ b.journal, x.call = c.id → ∀ slot o, x.what ≠ .published slot o := by
    intro x hx hxc slot o hw
    obtain ⟨m, -, hh⟩ := (ledger.living c hc).of_queued (by rw [phase]; rfl)
    have hmem : x.what ∈ b.history c.id := mem_historyOf.mpr ⟨x, hx, hxc, rfl⟩
    simp [hh, opening, hw] at hmem
  have hticket := h.tickets c hc n phase
  generalize hj : b.journal = j at hticket hlanded hlast hself
  cases hticket with
  | @intro p s' m z q scope deadline started queued count =>
      have hz : publications (z :: q) c.slot = publications q c.slot := by
        simp [publications, queued.2, Occurrence.publishedIn?]
      have hpubs : publications (p ++ s' :: m ++ z :: q) c.slot =
          publications (p ++ s' :: m) c.slot ++ publications q c.slot := by
        rw [publications_append, hz]
      -- the count has moved since the ticket, so something landed after the call queued
      have hq : publications q c.slot ≠ [] := by
        intro hnil
        rw [hlanded, hpubs, hnil, List.append_nil] at hmoved
        exact hmoved count.symm
      have ho : o ∈ publications q c.slot := by
        rw [houtcome, hpubs, List.getLast?_append_of_ne_nil _ hq] at hlast
        exact List.mem_of_getLast? hlast.symm
      obtain ⟨y, hy, hyw⟩ := mem_publications.mp ho
      obtain ⟨before, after, rfl⟩ := List.append_of_mem hy
      have hsplit : p ++ s' :: m ++ z :: (before ++ y :: after) =
          p ++ s' :: m ++ z :: before ++ y :: after := by simp
      rw [hsplit] at hj hself ⊢
      have hyc : y.call ≠ c.id := fun he => hself y (by simp) he _ _ hyw
      exact .intro started queued ⟨hyc, hyw⟩ (h.published _ y _ hj _ _ hyw).2

/-- A step keeps the agreement if what it publishes is the result of a call aboard, and what it
shares was published since. -/
theorem logs {id : CallId} (h : b.Landing)
    (journal : b'.journal = b.journal ++ log.map (b.entry id))
    (slots : b'.slots.Under (log.foldl Occurrence.land b.slots))
    (tickets : ∀ d ∈ b'.calls, ∀ n, d.phase = .queued n → d ∈ b.calls ∨ Ticket d n b'.journal)
    (published : ∀ slot o, .published slot o ∈ log →
      slot < b.slots.next ∧ timedOut o = false ∧ .boarded slot ∈ b.history id)
    (joined : ∀ o, .joined o ∈ log → PublishedSince id o b.journal) : b'.Landing where
  landed := by
    rw [journal]
    exact (h.landed.log b id log).under slots
  fresh i hi := by
    have hnext : b'.slots.next = b.slots.next := slots.next.trans (next_foldl_land log b.slots)
    rw [hnext] at hi
    have hnew : publications (log.map (b.entry id)) i = [] := by
      apply publications_eq_nil
      intro x hx o hw
      obtain ⟨o', ho', rfl⟩ := List.mem_map.mp hx
      replace hw : o' = .published i o := hw
      exact Nat.lt_irrefl _ (Nat.lt_of_lt_of_le (published i o (hw ▸ ho')).1 hi)
    rw [journal, publications_append, hnew, h.fresh i hi, List.append_nil]
  tickets d hd n hn := by
    rcases tickets d hd n hn with hd | ht
    · exact journal ▸ (h.tickets d hd n hn).append _
    · exact ht
  published := by
    rw [journal]
    apply h.published.log
    intro pre o post he slot r hr
    replace hr : o = .published slot r := hr
    obtain ⟨-, hr, hb⟩ := published slot r (by simp [he, hr])
    exact ⟨hr, by rw [historyOf_append]; exact List.mem_append_left _ hb⟩
  joined := by
    rw [journal]
    apply h.joined.log
    intro pre o post he r hr
    replace hr : o = .joined r := hr
    exact (joined r (by simp [he, hr])).append _

/-- A step keeps the agreement if it neither publishes nor shares. -/
theorem aside {id : CallId} (h : b.Landing)
    (journal : b'.journal = b.journal ++ log.map (b.entry id))
    (slots : b'.slots.Under (log.foldl Occurrence.land b.slots))
    (tickets : ∀ d ∈ b'.calls, ∀ n, d.phase = .queued n → d ∈ b.calls ∨ Ticket d n b'.journal)
    (hlog : ∀ o ∈ log, o.isJoined = false ∧ ∀ slot, o.publishedIn? slot = none) : b'.Landing := by
  refine h.logs journal slots tickets ?_ ?_
  · intro slot o ho
    simpa [Occurrence.publishedIn?] using (hlog _ ho).2 slot
  · intro o ho
    simpa [Occurrence.isJoined] using (hlog _ ho).1

/-- A step that logs nothing. -/
theorem quiet (h : b.Landing) (journal : b'.journal = b.journal) (calls : b'.calls = b.calls)
    (slots : b'.slots.Under b.slots) : b'.Landing := by
  have hj : b'.journal = b.journal ++ [].map (b.entry 0) := by simp [journal]
  exact h.aside hj slots (fun d hd _ _ => .inl (calls ▸ hd)) (by simp)

theorem logged {id : CallId} (h : b.Landing) (hl : Logged b id log b')
    (hlog : ∀ o ∈ log, o.isJoined = false ∧ ∀ slot, o.publishedIn? slot = none) : b'.Landing :=
  h.aside hl.journal (hl.slots ▸ .refl _) (fun _ hd _ _ => .inl (hl.calls ▸ hd)) hlog

/-- A call that has taken its slot may enter any phase but that of queueing. -/
theorem enter {p : Phase} (h : b.Landing) (hp : p.isQueued = false) (id : CallId) :
    (b.enter id p).Landing where
  landed := h.landed
  fresh := h.fresh
  tickets d hd n hn := by
    obtain ⟨d', hd', rfl⟩ := List.mem_map.mp hd
    split at hn
    · replace hn : p = .queued n := hn
      simp [hn, Phase.isQueued] at hp
    · rename_i hne
      rw [if_neg hne]
      exact h.tickets d' hd' n hn
  published := h.published
  joined := h.joined

/-- A call that begins may queue for the slot of its scope set. -/
theorem queue (h : b.Landing) (scope : ScopeSet) (deadline : Option Nat) :
    ((b.admitCall scope deadline).joinQueue b.nextCall scope deadline).Landing := by
  have htake := h.landed.take (h.fresh _ (Nat.le_refl _)) scope.key
  have hnext : b.slots.next ≤ (b.slots.take scope.key).2.next := by
    rcases b.slots.take_cases scope.key with ⟨he, -⟩ | ⟨-, -, he⟩
    · exact Nat.le_of_eq (congrArg Slots.next he).symm
    · rw [he]
      exact Nat.le_succ _
  have hreserved : Landing { b with slots := (b.slots.take scope.key).2 } :=
    ⟨htake, fun i hi => h.fresh i (Nat.le_trans hnext hi), h.tickets, h.published, h.joined⟩
  have hjournal := journal_queue b scope deadline
  refine hreserved.aside hjournal ?_ ?_
    (by simp [opening, Occurrence.isJoined, Occurrence.publishedIn?])
  · exact Slots.Under.modify _ _ fun _ => ⟨rfl, rfl, rfl, rfl⟩
  · intro d hd n hn
    rcases List.mem_append.mp hd with hd | hd
    · exact .inl hd
    · obtain rfl := List.mem_singleton.mp hd
      obtain rfl : _ = n := Phase.queued.inj hn
      refine .inr ?_
      rw [hjournal]
      have hcount := (htake _ (b.slots.take_mem scope.key)).1
      have hnew : publications [b.entry b.nextCall (.started scope deadline),
          b.entry b.nextCall (.span .getToken scope.key)] (b.slots.take scope.key).1.id = [] :=
        publications_eq_nil (by simp [entry])
      have hj (c : Call) (n : Nat) : b.journal ++ (opening c n).map (b.entry b.nextCall) =
          b.journal ++ [b.entry b.nextCall (.started c.scope c.deadline),
            b.entry b.nextCall (.span .getToken c.scope.key)] ++
            [b.entry b.nextCall (.queued c.slot n)] := by
        simp [opening]
      rw [hj]
      refine .intro ⟨rfl, rfl⟩ ⟨rfl, rfl⟩ (hcount.trans ?_)
      rw [publications_append]
      exact congrArg List.length ((congrArg _ hnew).trans (List.append_nil _)).symm

/-- Every move keeps journal, slots and tickets in agreement. -/
theorem move {e : Event} (h : b.Landing) (hold : b.Holding) (ledger : b.Ledger)
    (m : Move b e b') : b'.Landing := by
  cases m with
  | idle => exact h
  | refuses =>
      exact h.logged (logged_refused b _ _ _)
        (by simp [Occurrence.isJoined, Occurrence.publishedIn?])
  | serves =>
      exact h.logged (logged_served b _ _ _)
        (by simp [Occurrence.isJoined, Occurrence.publishedIn?])
  | queues => exact h.queue _ _
  | @reads c round cache =>
      exact h.logged (logged_reads b c.id cache)
        (by simp [Occurrence.isJoined, Occurrence.publishedIn?])
  | goes live going =>
      obtain ⟨hp, log, hlog, hl⟩ := going.quiet
      exact (h.logged hl fun o ho => Occurrence.unshared_of_isQuiet (hlog o ho)).enter hp _
  | @ends c e r w live closing =>
      have hc := mem_calls_of_call? live
      obtain ⟨log, hlog, hl, warrant⟩ := closing.logged
      refine h.logs (hl.journal_finish r) ?_ ?_ ?_ ?_
      · have hs : (log ++ [Occurrence.ended r]).foldl Occurrence.land b.slots = w.slots := by
          simp [hl.slots, Occurrence.land]
        rw [hs]
        exact Slots.Under.release _ _ _ _
      · intro d hd n hn
        exact .inl (hl.calls ▸ (List.mem_filter.mp hd).1)
      · intro slot o ho
        obtain ⟨rfl, rfl, intime, aboard⟩ := hlog.published (by simpa using ho)
        obtain ⟨s, hs, hid, -⟩ := hold.held c hc
        obtain ⟨n, work, -, hh⟩ := (ledger.living c hc).of_aboard aboard
        exact ⟨hid ▸ hold.slots.fresh s hs, intime, by simp [hh]⟩
      · intro o ho
        obtain ⟨n, s, phase, slot, shared⟩ := warrant.joined o (by simpa using ho)
        exact h.publishedSince hold ledger hc phase slot shared
  | @cancels c live =>
      have hlog : ∀ o ∈ [Occurrence.cancelled],
          o.isJoined = false ∧ ∀ slot, o.publishedIn? slot = none := by
        simp [Occurrence.isJoined, Occurrence.publishedIn?]
      have hslots : (b.slots.abandon c.slot c.id).Under
          ([Occurrence.cancelled].foldl Occurrence.land b.slots) := .abandon _ _ _
      refine h.aside rfl hslots ?_ hlog
      intro d hd n hn
      exact .inl (List.mem_filter.mp hd).1
  | overtakes => exact h.quiet rfl rfl (.modify _ _ fun _ => ⟨rfl, rfl, rfl, rfl⟩)
  | overtakesVisit => exact h.quiet rfl rfl (.refl _)
  | invalidates => exact h.quiet rfl rfl (.refl _)
  | purges => exact h.quiet rfl rfl (.filter _ _)
  | sets => exact h.quiet rfl rfl (.refl _)
  | ticks => exact h.quiet rfl rfl (.refl _)

end Landing

/-- What every broker that is reached keeps of its calls, slots and journal. -/
structure Coherent (b : Broker) : Prop where
  holding : b.Holding
  ledger : b.Ledger
  landing : b.Landing

namespace Coherent

theorem make (config : Config) (x : Exchanger) (clock : Instant) :
    Coherent (make config x clock) :=
  ⟨.make config x clock, .make config x clock, .make config x clock⟩

theorem move {b b' : Broker} {e : Event} (h : b.Coherent) (m : Move b e b') : b'.Coherent :=
  ⟨h.holding.move m, h.ledger.move h.holding m, h.landing.move h.holding h.ledger m⟩

theorem run {b : Broker} (h : b.Coherent) (events : List Event) : (b.run events).Coherent :=
  run_keeps (fun _ _ _ => move) h events

end Coherent

end Broker

end FederatedAccess
