import FederatedAccess.Proofs.Broker.Line
import FederatedAccess.Proofs.Broker.Waiting

/-!
# Slots that are handed over

A call that holds a slot may leave it without an outcome to share: it runs out of time, is cancelled,
or finds a stored token when it boards. Its slot then passes to the call that came first of those
that still wait, unless another takes the free slot before that one goes on. Unless something was
published since it queued, the call that takes the slot looks for a stored token again and otherwise
refreshes under its own deadline. However often this happens in a row, nobody who waits is lost, and
nobody fails because somebody else ran out of time.
-/

namespace FederatedAccess

/-- Whether an outcome is published. -/
def Occurrence.isPublished : Occurrence → Bool
  | .published _ _ => true
  | _ => false

namespace Broker

/-- What the journal holds of a call that has left its slot without publishing an outcome. -/
def Quits (h : List Occurrence) : Prop :=
  (∃ stage, .ended (.error (.timeout stage)) ∈ h) ∨ .cancelled ∈ h ∨ ∃ t, .hit t ∈ h

/-- The first in line for a slot has left, and those behind it have moved up: they wait as before, and
nothing was published that they would share. -/
structure HandedOver (key : ScopeKey) (b b' : Broker) : Prop where
  line : b'.line key = (b.line key).tail
  waiting : ∀ c ∈ b.calls, c.id ∈ (b.line key).tail →
    c ∈ b'.calls ∧ c.phase.isQueued = true ∧ (b.Unanswered c.id → b'.Unanswered c.id)

variable {b b' : Broker} {c : Call} {e : Event} {key : ScopeKey} {i : CallId}

/-- Where nothing was ever published, nobody is answered. -/
theorem Unanswered.of_unpublished (h : ∀ y ∈ b.journal, y.what.isPublished = false) (id : CallId) :
    b.Unanswered id := by
  intro pre q post slot n hj _ _
  refine publications_eq_nil fun y hy o hw => ?_
  have unpublished := h y (by simp [hj, hy])
  rw [hw] at unpublished
  cases unpublished

/-- A call that is live has not left. -/
theorem Living.not_quits {h : List Occurrence} (hl : Living c h) : ¬ Quits h := by
  rintro (⟨stage, hended⟩ | hcancelled | ⟨t, hhit⟩)
  · cases hl.isExit_eq hended
  · cases hl.isExit_eq hcancelled
  · cases hl with
    | queued => simp [opening] at hhit
    | aboard _ work => simp [opening, work.not_mem (o := .hit t) rfl] at hhit

/-- A call that publishes neither runs out of time nor is cancelled, and takes no stored token. -/
theorem not_quits_of_published {log : List Occurrence} {r o : Except Failure AccessToken}
    {slot : SlotId} (hb' : b'.Ledger) (living : Living c (b.history c.id))
    (farewell : Farewell c log r) (hhist : b'.history c.id = b.history c.id ++ (log ++ [.ended r]))
    (published : .published slot o ∈ log) : ¬ Quits (b'.history c.id) := by
  obtain ⟨-, -, intime, aboard⟩ := farewell.published published
  have hended : .ended r ∈ b'.history c.id := by simp [hhist]
  rintro (⟨stage, hlate⟩ | hcancelled | ⟨t, hhit⟩)
  · rw [hb'.ended_eq hended hlate] at intime
    cases intime
  · exact hb'.not_cancelled hended hcancelled
  · have hbefore : .hit t ∉ b.history c.id := fun hmem => living.not_quits (.inr (.inr ⟨t, hmem⟩))
    cases farewell with
    | joined queued => cases queued.symm.trans aboard
    | hit queued => cases queued.symm.trans aboard
    | lapsed queued => cases queued.symm.trans aboard
    | refreshed _ work =>
        simp [hhist, hbefore, work.not_mem (o := .hit t) rfl] at hhit

/-- A call publishes nothing in a step in which it runs out of time, is cancelled, or finds a stored
token. -/
theorem Move.unpublished (m : Move b e b') (hb : b.Coherent) (hc : c ∈ b.calls)
    (actor : e.actor? b = some c.id) (quits : Quits (b'.history c.id)) :
    ∃ log : List Occurrence, b'.journal = b.journal ++ log.map (b.entry c.id) ∧
      ∀ slot o, .published slot o ∉ log := by
  cases m.acts hb.holding hc actor with
  | stays _ journal => exact ⟨[], by simp [journal], by simp⟩
  | cancelled journal => exact ⟨[.cancelled], journal, by simp⟩
  | advances advance =>
      cases advance with
      | @reads _ cache => exact ⟨_, (logged_reads b c.id cache).journal, by simp⟩
      | goes going =>
          obtain ⟨-, log, quiet, hl⟩ := going.quiet
          refine ⟨log, hl.journal, fun slot o ho => ?_⟩
          cases quiet _ ho
      | @ends e r w closing =>
          obtain ⟨log, farewell, hl, -⟩ := closing.logged
          have journal := hl.journal_finish r
          have hhist : (w.finish c r).history c.id = b.history c.id ++ (log ++ [.ended r]) := by
            rw [history_of_journal journal, if_pos rfl]
          refine ⟨_, journal, fun slot o ho => ?_⟩
          have published : .published slot o ∈ log := by simpa using ho
          exact not_quits_of_published (hb.move m).ledger (hb.ledger.living c hc) farewell hhist
            published quits

/-- When the first in line leaves without publishing, its slot is handed over. -/
theorem Move.handedOver (m : Move b e b') (hb : b.Coherent) (first : (b.line key).head? = some i)
    (quits : Quits (b'.history i)) : HandedOver key b b' := by
  have hold := hb.holding
  have hb' := hb.move m
  obtain ⟨rest, hline⟩ := List.head?_eq_some_iff.mp first
  have left : i ∉ b'.line key := by
    intro hi
    obtain ⟨d, hd, rfl, -⟩ := hb'.holding.mem_line.mp hi
    exact (hb'.ledger.living d hd).not_quits quits
  obtain ⟨hline', actor⟩ := m.line_of_leaves hold hline left
  obtain ⟨p, hp, rfl, hpk⟩ := hold.mem_line.mp (List.mem_of_head? first)
  obtain ⟨log, journal, unpublished⟩ := m.unpublished hb hp actor quits
  have nodup := hold.nodup_line key
  rw [hline, List.nodup_cons] at nodup
  refine ⟨by rw [hline', hline, List.tail_cons], fun c hc hrest => ?_⟩
  rw [hline, List.tail_cons] at hrest
  have hne : c.id ≠ p.id := fun he => nodup.1 (he ▸ hrest)
  have spared : Spared b b' c.id := by
    refine m.spared ?_
    rw [actor]
    exact fun he => hne (Option.some.inj he).symm
  refine ⟨(spared.calls c rfl).mpr hc, ?_, fun h => h.append journal ?_⟩
  · by_contra hq
    have hmem : c.id ∈ b.line key := hline ▸ List.mem_cons_of_mem _ hrest
    have hhead := hold.head?_line_of_aboard hc (Bool.eq_false_iff.mpr hq)
    rw [hold.key_of_mem_line hc hmem, first] at hhead
    exact hne (Option.some.inj hhead).symm
  · intro y hy slot o hw
    obtain ⟨o', ho', rfl⟩ := List.mem_map.mp hy
    exact unpublished slot o (hw ▸ ho')

/-- At its turn a call takes its slot, unless something was published that it shares, and nobody takes
a slot before its turn. -/
theorem Coherent.turn (hb : b.Coherent) (hc : c ∈ b.calls) (queued : c.phase.isQueued = true) :
    ((b.line c.scope.key).head? = some c.id → b.Unanswered c.id →
        Boards b c (b.step (.proceed c.id))) ∧
      ((b.line c.scope.key).head? ≠ some c.id → b.step (.proceed c.id) = b) := by
  obtain ⟨n, phase, -⟩ := (hb.ledger.living c hc).of_queued queued
  obtain ⟨s, slot, hqueue⟩ := hb.holding.line_eq hc
  rw [hqueue]
  constructor
  · intro first unanswered
    exact boards_of_turn hb hc phase slot (Slot.isTurn_iff.mpr first) unanswered
  · intro later
    have turn : s.isTurn c.id = false :=
      Bool.eq_false_iff.mpr fun first => later (Slot.isTurn_iff.mp first)
    exact step_proceed_of_not_turn hb.holding hc phase slot turn

/-- In every state that is reached: the calls in line for a slot are the live ones for its key, none
of which waits beyond its deadline, unless it began so, and the first in line is the first of them to
have come, unless it went ahead while nobody had taken the slot. When the first in line leaves without
publishing, its slot is handed over. At its turn a call looks for a stored token again and otherwise
refreshes, unless something was published since it queued; before its turn it does nothing. No call
that has queued is lost later on, and none runs out of time but at its own deadline, where the mapper
of the transport tells no fault as a timeout. -/
theorem slot_handed_over (config : Config) (x : Exchanger) (clock : Instant)
    (events : List Event) (key : ScopeKey) :
    let b := (make config x clock).run events
    (∀ i, i ∈ b.line key ↔ ∃ c ∈ b.calls, c.id = i ∧ c.scope.key = key) ∧
    (∀ c ∈ b.calls, ∀ limit ∈ c.deadline, b.time ≤ max limit c.started) ∧
    (∀ i, (b.line key).head? = some i → (∀ d ∈ b.calls, d.scope.key = key → i ≤ d.id) ∨
      (make config x clock).WentAhead key events i) ∧
    (∀ e i, (b.line key).head? = some i → Quits ((b.step e).history i) →
      HandedOver key b (b.step e)) ∧
    (∀ c ∈ b.calls, c.scope.key = key → c.phase.isQueued = true →
      ((b.line key).head? = some c.id → b.Unanswered c.id → Boards b c (b.step (.proceed c.id))) ∧
      ((b.line key).head? ≠ some c.id → b.step (.proceed c.id) = b)) ∧
    ∀ c ∈ b.calls, c.phase.isQueued = true → ∀ more, Fate c (b.run more) ∧
      (x.mapper.NeverTimesOut → ∀ y ∈ (b.run more).journal, y.call = c.id →
        ∀ stage, y.what = .ended (.error (.timeout stage)) →
          ∃ limit, c.deadline = some limit ∧ limit ≤ y.time) := by
  intro b
  have made := Reached.make config x clock
  have reached : b.Reached := made.run events
  have hb := reached.coherent
  refine ⟨fun i => hb.holding.mem_line, fun c hc limit hlimit => ?_, fun i first => ?_,
    fun e i first quits => ?_, fun c hc own queued => ?_, fun c hc queued more => ?_⟩
  · exact reached.punctual.waits c hc _ (Option.map_eq_some_iff.mpr ⟨limit, hlimit, rfl⟩)
  · have arranged : (b.line key).Pairwise fun i j =>
        i < j ∨ False ∨ (make config x clock).WentAhead key events i :=
      arranged_run (Holding.make config x clock) List.Pairwise.nil events
    exact (hb.holding.first_or_ahead arranged first).imp_right (Or.resolve_left · False.elim)
  · exact (move_step b e).handedOver hb first quits
  · obtain rfl := own
    exact hb.turn hc queued
  · refine ⟨reached.fate hc queued more, fun honest y hy hcall stage hw => ?_⟩
    have honest' : b.exchanger.mapper.NeverTimesOut :=
      (exchanger_run (make config x clock) events).symm ▸ honest
    have unhurried : b.Unhurried := Unhurried.run honest made.coherent .nil events
    exact reached.late honest' unhurried hc more hy hcall hw

/-! ### A run in which a slot is handed over twice -/

/-- The first refresh is cancelled, and the second runs out of time while it reads. -/
def impatientRefreshes : List Event :=
  [.start sampleScope none, .start sampleScope (some 5), .start sampleScope none, .proceed 0,
    .cancel 0, .proceed 1, .proceed 1, .tick 5, .expire 1]

def handedOver : Broker := (make sampleConfig sampleExchanger sampleClock).run impatientRefreshes

/-- The call that runs out of time. -/
def secondInLine : Call := ⟨1, sampleScope, 0, some 5, 0, .queued 0⟩

/-- The call that has waited for both of them. -/
def lastInLine : Call := ⟨2, sampleScope, 0, none, 0, .queued 0⟩

set_option maxRecDepth 20000 in
theorem last_in_line_boards :
    Quits (handedOver.history 0) ∧ Quits (handedOver.history 1) ∧
      HandedOver sampleScope.key
        ((make sampleConfig sampleExchanger sampleClock).run (impatientRefreshes.take 8))
        handedOver ∧
      ((∀ d ∈ handedOver.calls, d.scope.key = sampleScope.key → 2 ≤ d.id) ∨
        (make sampleConfig sampleExchanger sampleClock).WentAhead sampleScope.key
          impatientRefreshes 2) ∧
      Boards handedOver lastInLine (handedOver.step (.proceed 2)) ∧
      ∃ y ∈ handedOver.journal, y.what = .ended (.error (.timeout .assertionRead)) ∧
        ∃ limit, secondInLine.deadline = some limit ∧ limit ≤ y.time := by
  have hcancelled : (handedOver.history 0)[4]? = some .cancelled := rfl
  have hended : (handedOver.history 1)[6]? =
      some (.ended (.error (.timeout .assertionRead))) := rfl
  have quits : Quits (handedOver.history 1) := .inl ⟨_, List.mem_of_getElem? hended⟩
  have hcalls : handedOver.calls = [lastInLine] := rfl
  have hnone : (handedOver.journal.all fun y => !y.what.isPublished) = true := rfl
  have unanswered : handedOver.Unanswered 2 :=
    .of_unpublished (fun y hy => by simpa using List.all_eq_true.mp hnone y hy) 2
  have queued := slot_handed_over sampleConfig sampleExchanger sampleClock
    (impatientRefreshes.take 3) sampleScope.key
  have before := slot_handed_over sampleConfig sampleExchanger sampleClock
    (impatientRefreshes.take 8) sampleScope.key
  have handed := slot_handed_over sampleConfig sampleExchanger sampleClock impatientRefreshes
    sampleScope.key
  have hlive : lastInLine ∈ handedOver.calls := hcalls ▸ List.mem_cons_self
  have first : (handedOver.line sampleScope.key).head? = some 2 := rfl
  have hturn := handed.2.2.2.2.1 lastInLine hlive rfl rfl
  have hwaits : secondInLine ∈
      ((make sampleConfig sampleExchanger sampleClock).run (impatientRefreshes.take 3)).calls :=
    List.mem_of_getElem? (i := 1) rfl
  have hlate : ⟨5, sampleClock, 1, .ended (.error (.timeout .assertionRead))⟩ ∈
      handedOver.journal := List.mem_of_getElem? (i := 14) rfl
  exact ⟨.inr (.inl (List.mem_of_getElem? hcancelled)), quits,
    before.2.2.2.1 (.expire 1) 1 rfl quits, handed.2.2.1 2 first, hturn.1 first unanswered,
    _, hlate, rfl, (queued.2.2.2.2.2 secondInLine hwaits rfl (impatientRefreshes.drop 3)).2
      Exchanger.standard_neverTimesOut _ hlate rfl _ rfl⟩

/-! ### A run in which a newcomer takes the slot before a call that has waited -/

/-- The first refresh runs out of time while it reads. A call that comes then takes the free slot before
the call that has waited for it goes on. -/
def overtakenWaiter : List Event :=
  [.start sampleScope (some 5), .start sampleScope none, .proceed 0, .proceed 0, .tick 5, .expire 0,
    .start sampleScope none, .overtake 2, .proceed 2]

def overtaken : Broker := (make sampleConfig sampleExchanger sampleClock).run overtakenWaiter

set_option maxRecDepth 20000 in
theorem newcomer_boards_first :
    Quits (overtaken.history 0) ∧ (∀ y ∈ overtaken.journal, y.what.isPublished = false) ∧
      ⟨1, sampleScope, 0, none, 0, .queued 0⟩ ∈ overtaken.calls ∧
      ¬ ∀ c ∈ overtaken.calls, c.phase.isQueued = false →
        ∀ d ∈ overtaken.calls, d.scope.key = c.scope.key → c.id ≤ d.id := by
  have hended : (overtaken.history 0)[6]? =
      some (.ended (.error (.timeout .assertionRead))) := rfl
  have hnone : (overtaken.journal.all fun y => !y.what.isPublished) = true := rfl
  have hcalls : overtaken.calls =
      [⟨1, sampleScope, 0, none, 0, .queued 0⟩, ⟨2, sampleScope, 5, none, 0, .reading .first⟩] := rfl
  refine ⟨.inl ⟨_, List.mem_of_getElem? hended⟩, fun y hy => ?_, by simp [hcalls], fun ordered => ?_⟩
  · simpa using List.all_eq_true.mp hnone y hy
  · rw [hcalls] at ordered
    have hle := ordered ⟨2, sampleScope, 5, none, 0, .reading .first⟩ (by simp) rfl
      ⟨1, sampleScope, 0, none, 0, .queued 0⟩ (by simp) rfl
    exact absurd hle (by decide)

end Broker

end FederatedAccess
