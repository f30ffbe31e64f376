import FederatedAccess.Proofs.Broker.Polling
import FederatedAccess.Proofs.Broker.Reached

/-!
# What becomes of calls that wait for a slot

A call that has queued is found in every later state: it still waits, or refreshes, or has come to
one of a few ends (`Fate`). If nothing was published in its slot since it queued (`Unanswered`), then
at its turn it looks for a stored token once more and, where there is none, refreshes (`Boards`).
-/

namespace FederatedAccess.Broker

/-- Nothing was published in a slot since a call queued there. -/
def Unanswered (b : Broker) (id : CallId) : Prop :=
  ∀ pre q post slot n, b.journal = pre ++ q :: post → q.call = id → q.what = .queued slot n →
    publications post slot = []

/-- A call takes its slot and ends with the token that is stored by now, or goes on to refresh. -/
inductive Boards (b : Broker) (c : Call) (b' : Broker) : Prop
  | finds {t} (usable : b.usable? c.scope = some t)
      (journal : b'.journal = b.journal ++
        [Occurrence.boarded c.slot, .hit t, .ended (.ok t)].map (b.entry c.id))
  | leads (miss : b.usable? c.scope = none)
      (journal : b'.journal = b.journal ++ [Occurrence.boarded c.slot].map (b.entry c.id))
      (live : { c with phase := .reading .first } ∈ b'.calls)

/-- What has become of a call that queued. -/
inductive Fate (c : Call) (b : Broker) : Prop
  | waits (live : c ∈ b.calls)
  | leads {p} (live : { c with phase := p } ∈ b.calls) (aboard : p.isQueued = false)
  | led {n log r} (refreshing : Refreshing b.exchanger c.scope log r)
      (whole : b.history c.id = opening c n ++
        .boarded c.slot :: (log ++ settled r ++ announced c.slot r) ++ [.ended r])
  | found {n t} (whole : b.history c.id = opening c n ++
      [.boarded c.slot, .hit t, .ended (.ok t)])
  | shared {n r} (since : PublishedSince c.id r b.journal) (intime : timedOut r = false)
      (whole : b.history c.id = opening c n ++ [.joined r, .ended r])
  | lapsed {n} (whole : b.history c.id = opening c n ++
      [.ended (.error (.timeout .waitingForRefresh))])
  | cancelled {h} (whole : b.history c.id = h ++ [.cancelled])

variable {b b' : Broker} {c : Call} {s : Slot} {n : Nat} {id : CallId}

/-! ### The turn of a call -/

/-- What is published after a call has queued answers it. -/
theorem Unanswered.not_since (h : b.Unanswered id) {o : Except Failure AccessToken} :
    ¬ PublishedSince id o b.journal := by
  intro hs
  generalize hj : b.journal = j at hs
  cases hs with
  | @intro p s m z q y u _ _ slot _ _ queued published =>
      have hsplit : b.journal = (p ++ s :: m) ++ z :: (q ++ y :: u) := by simp [hj]
      have hnil := h _ _ _ slot _ hsplit queued.1 queued.2
      have hmem : o ∈ publications (q ++ y :: u) slot :=
        mem_publications.mpr ⟨y, by simp, published.2⟩
      rw [hnil] at hmem
      cases hmem

/-- A step that publishes nothing answers nobody. -/
theorem Unanswered.append {l : List Entry} (h : b.Unanswered id)
    (journal : b'.journal = b.journal ++ l)
    (unpublished : ∀ x ∈ l, ∀ slot o, x.what ≠ .published slot o) : b'.Unanswered id := by
  intro pre q post slot n hj hq hw
  rw [journal] at hj
  rcases List.append_eq_append_iff.mp hj with ⟨mid, -, hmid⟩ | ⟨mid, hmid, htail⟩
  · refine publications_eq_nil fun x hx o => unpublished x ?_ slot o
    rw [hmid]
    exact List.mem_append_right _ (List.mem_cons_of_mem _ hx)
  · rcases List.cons_eq_append_iff.mp htail with ⟨-, hl⟩ | ⟨rest, hrest, rfl⟩
    · refine publications_eq_nil fun x hx o => unpublished x ?_ slot o
      rw [hl]
      exact List.mem_cons_of_mem _ hx
    · have hbefore := h pre q rest slot n (by rw [hmid, hrest]) hq hw
      rw [publications_append, hbefore, List.nil_append]
      exact publications_eq_nil fun x hx o => unpublished x hx slot o

/-- A call whose turn has come while nothing was published takes its slot. -/
theorem boards_of_turn (hb : b.Coherent) (hc : c ∈ b.calls) (phase : c.phase = .queued n)
    (slot : b.slots.find? c.slot = some s) (turn : s.isTurn c.id = true)
    (unanswered : b.Unanswered c.id) : Boards b c (b.step (.proceed c.id)) := by
  have live : b.call? c.id = some c := hb.holding.call?_eq_some_iff.mpr ⟨hc, rfl⟩
  have unshared : s.shared? n = none := by
    cases hs : s.shared? n with
    | none => rfl
    | some o =>
        have since := hb.landing.publishedSince hb.holding hb.ledger hc phase slot hs
        exact absurd since unanswered.not_since
  have hstep : b.step (.proceed c.id) = b.board c s n := by
    simp only [step, proceed, live, phase, slot, turn, if_true]
  rw [hstep, board, unshared]
  have hl : Logged b c.id [.boarded c.slot] (b.note c.id (.boarded c.slot)) := logged_note b c.id rfl
  cases usable : b.usable? c.scope with
  | some t => exact .finds usable ((hl.trans (logged_recordHit _ c.id t)).journal_finish (.ok t))
  | none =>
      refine .leads usable (hl.trans (logged_visit _ c.id .first)).journal ?_
      exact List.mem_map.mpr ⟨c, hc, if_pos rfl⟩

/-- Nobody takes a slot before its turn. -/
theorem step_proceed_of_not_turn (hold : b.Holding) (hc : c ∈ b.calls) (phase : c.phase = .queued n)
    (slot : b.slots.find? c.slot = some s) (turn : s.isTurn c.id = false) :
    b.step (.proceed c.id) = b := by
  have live : b.call? c.id = some c := hold.call?_eq_some_iff.mpr ⟨hc, rfl⟩
  simp [step, proceed, live, phase, slot, turn]

/-! ### What becomes of a call -/

/-- A call that has ended after it queued has come to one of the ends. -/
theorem Fate.of_ended {r : Except Failure AccessToken} (hb : b.Coherent) (course : b.Course)
    (begun : opening c n <+: b.history c.id) (ended : .ended r ∈ b.history c.id) : Fate c b := by
  obtain ⟨pre, y, post, hj, hcall, hwhat, hwhole⟩ := hb.ledger.split_of_ended ended
  have departed := hb.ledger.departed pre y post hj r hwhat
  have completed := course.ended pre y post hj r hwhat
  have since {o : Except Failure AccessToken} (ho : .joined o ∈ historyOf pre c.id) :
      PublishedSince c.id o b.journal ∧ timedOut o = false := by
    have hs := hb.publishedSince hj (hcall ▸ ho)
    rw [hcall] at hs
    exact ⟨hj ▸ hs.append _, hb.intime hj hs⟩
  rw [hcall] at departed completed
  rw [hwhole] at begun
  -- a call queues before it ends
  replace begun : opening c n <+: historyOf pre c.id := by
    refine (List.prefix_concat_iff.mp begun).resolve_left fun he => ?_
    have hmem : .ended r ∈ opening c n := by simp [he]
    exact not_mem_opening_ended c n r hmem
  generalize historyOf pre c.id = h at *
  cases departed with
  | refused => simp [opening] at begun
  | served => simp [opening] at begun
  | @ended d h log r living farewell =>
      have whole {l : List Occurrence} (hl : h ++ log = opening c n ++ l) :
          b.history c.id = opening c n ++ (l ++ [.ended r]) := by
        rw [hwhole, hl, List.append_assoc]
      have opened {m : Nat} (hm : opening d m <+: h ++ log) :
          d.slot = c.slot ∧ opening d m = opening c n := by
        obtain ⟨hscope, hdeadline, hslot, rfl⟩ := opening_inj begun hm
        exact ⟨hslot, by simp [opening, hscope, hdeadline, hslot]⟩
      cases farewell with
      | joined queued =>
          obtain ⟨m, -, rfl⟩ := living.of_queued queued
          obtain ⟨-, ho⟩ := opened (List.prefix_append _ _)
          obtain ⟨hs, intime⟩ := since (o := r) (by simp)
          exact .shared hs intime (whole (by rw [ho]))
      | hit queued =>
          obtain ⟨m, -, rfl⟩ := living.of_queued queued
          obtain ⟨hslot, ho⟩ := opened (List.prefix_append _ _)
          exact .found (whole (by rw [ho, hslot]))
      | lapsed queued =>
          obtain ⟨m, -, rfl⟩ := living.of_queued queued
          obtain ⟨-, ho⟩ := opened (List.prefix_append _ _)
          exact .lapsed (whole (by rw [ho]))
      | @refreshed log r aboard work =>
          obtain ⟨m, before, hbefore, rfl⟩ := living.of_aboard aboard
          generalize hh : opening d m ++ .boarded d.slot :: before ++
            (log ++ settled r ++ announced d.slot r) = h at *
          cases completed with
          | @led u k l r refreshing =>
              obtain ⟨hscope, hdeadline, hslot, rfl⟩ := opening_inj begun (List.prefix_append _ _)
              rw [hscope] at refreshing
              refine .led (n := k) refreshing ?_
              rw [hwhole, hslot]
              simp [opening, hscope, hdeadline, hslot]
          | idle _ unled =>
              have hboarded : .boarded d.slot ∈ h := by simp [← hh]
              obtain ⟨t, ht⟩ := unled d.slot hboarded
              simp [← hh, opening, hbefore.not_mem (o := .hit t) rfl,
                work.not_mem (o := .hit t) rfl] at ht

namespace Reached

/-- No call that queues is lost. -/
theorem fate (h : b.Reached) (hc : c ∈ b.calls) (queued : c.phase.isQueued = true)
    (events : List Event) : Fate c (b.run events) := by
  obtain ⟨hold, ledger, -⟩ := h.coherent
  obtain ⟨hb', -, course', -⟩ := h.run events
  obtain ⟨-, -, remains⟩ := Remains.run hold h.visiting events
  obtain ⟨n, phase, hh⟩ := (ledger.living c hc).of_queued queued
  have begun : opening c n <+: (b.run events).history c.id :=
    hh ▸ (after_run b events).history c.id
  by_cases live : ∃ d ∈ (b.run events).calls, d.id = c.id
  · obtain ⟨d, hd, hid⟩ := live
    have heq := (remains.origin hold hc hd hid).1
    cases hq : d.phase.isQueued with
    | true =>
        obtain ⟨m, phase', hh'⟩ := (hb'.ledger.living d hd).of_queued hq
        rw [hid] at hh'
        have begun' : opening d m <+: (b.run events).history c.id := hh'.symm ▸ List.prefix_rfl
        obtain ⟨-, -, -, rfl⟩ := opening_inj begun begun'
        refine .waits ?_
        have hsame : d = c := by rw [heq, phase', ← phase]
        exact hsame ▸ hd
    | false => exact .leads (heq ▸ hd) hq
  · have old := Nat.lt_of_lt_of_le (hold.fresh c hc) remains.next
    have hgone := hb'.ledger.gone c.id old fun d hd hid => live ⟨d, hd, hid⟩
    generalize hw : (b.run events).history c.id = whole at hgone
    cases hgone with
    | @departed h r => exact .of_ended (r := r) hb' course' begun (by simp [hw])
    | cancelled => exact .cancelled hw

/-- A call runs out of time at its own deadline only, unless the mapper of the transport tells a fault
so. -/
theorem late (h : b.Reached) (honest : b.exchanger.mapper.NeverTimesOut) (unhurried : b.Unhurried)
    (hc : c ∈ b.calls) (events : List Event) {y : Entry}
    (hy : y ∈ (b.run events).journal) (hcall : y.call = c.id) {stage : Stage}
    (hw : y.what = .ended (.error (.timeout stage))) :
    ∃ limit, c.deadline = some limit ∧ limit ≤ y.time := by
  have hb' := (h.run events).coherent
  have unhurried' := unhurried.run honest h.coherent events
  obtain ⟨pre, post, hj⟩ := List.append_of_mem hy
  obtain ⟨scope, limit, hstarted, hle⟩ := unhurried' pre y post hj stage hw
  have hlater : .started scope (some limit) ∈ (b.run events).history c.id := by
    rw [history, hj, historyOf_append, ← hcall]
    exact List.mem_append_left _ hstarted
  have hearlier : .started c.scope c.deadline ∈ (b.run events).history c.id :=
    ((after_run b events).history c.id).subset (h.coherent.ledger.living c hc).started
  exact ⟨limit, (hb'.ledger.started_eq hearlier hlater).2, hle⟩

end Reached

end FederatedAccess.Broker
