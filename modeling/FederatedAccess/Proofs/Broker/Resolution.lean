import FederatedAccess.Proofs.Broker.Reached
import FederatedAccess.Proofs.TokenProvenance

/-!
# Five ways of a call

A call that is not cancelled goes one of five ways: it takes a stored token, shares an outcome, leads
a refresh, is refused for want of scopes, or runs out of time while it waits for a refresh. Which way
it went can be read off its history (`Way.takes`), and no history tells of two ways or of none
(`Resolved.way`).
-/

namespace FederatedAccess

namespace Occurrence

/-- Whether a call takes its slot. -/
def isBoarded : Occurrence → Bool
  | .boarded _ => true
  | _ => false

/-- Whether a call begins that asks for nothing. -/
def isVain : Occurrence → Bool
  | .started scope _ => scope.isEmpty
  | _ => false

/-- Whether a call gives up waiting for a refresh. -/
def isLapse : Occurrence → Bool
  | .ended (.error (.timeout .waitingForRefresh)) => true
  | _ => false

/-- Whether a call ends in a failure. -/
def isFailure : Occurrence → Bool
  | .ended (.error _) => true
  | _ => false

/-- Whether an occurrence tells something of the way of its call. -/
def tells : Occurrence → Bool
  | .started scope _ => scope.isEmpty
  | .hit _ => true
  | .joined _ => true
  | .boarded _ => true
  | .ended r => (ended r).isLapse
  | _ => false

end Occurrence

/-- The ways that calls go. -/
inductive Way
  | hit
  | coalesced
  | led
  | refused
  | lapsed
deriving DecidableEq, Repr

/-- Whether a history tells of a way. A call that finds a token when it has taken its slot does not
lead a refresh, and one that has taken its slot does not give up waiting for it, whatever a mapper
says that its refresh ended in. -/
def Way.takes (history : List Occurrence) : Way → Bool
  | .hit => history.any (·.isHit)
  | .coalesced => history.any (·.isJoined)
  | .led => history.any (·.isBoarded) && !history.any (·.isHit)
  | .refused => history.any (·.isVain)
  | .lapsed => history.any (·.isLapse) && !history.any (·.isBoarded)

/-- The way of a call is told by the occurrences that tell something of it. -/
theorem Way.takes_filter (way : Way) (h : List Occurrence) :
    way.takes (h.filter (·.tells)) = way.takes h := by
  have any {p : Occurrence → Bool} (hp : ∀ o, p o = true → o.tells = true) :
      (h.filter (·.tells)).any p = h.any p := by
    rw [List.any_filter]
    congr 1
    funext o
    cases ho : p o with
    | true => rw [hp o ho]; rfl
    | false => exact Bool.and_false _
  cases way with
  | hit => exact any fun o ho => by cases o <;> first | rfl | cases ho
  | coalesced => exact any fun o ho => by cases o <;> first | rfl | cases ho
  | led =>
      have hboarded := any (p := (·.isBoarded)) fun o ho => by cases o <;> first | rfl | cases ho
      have hhit := any (p := (·.isHit)) fun o ho => by cases o <;> first | rfl | cases ho
      rw [takes, takes, hboarded, hhit]
  | refused => exact any fun o ho => by cases o <;> first | exact ho | cases ho
  | lapsed =>
      have hlapse := any (p := (·.isLapse)) fun o ho => by cases o <;> first | exact ho | cases ho
      have hboarded := any (p := (·.isBoarded)) fun o ho => by cases o <;> first | rfl | cases ho
      rw [takes, takes, hlapse, hboarded]

namespace Broker

/-- The histories of calls before they end, with their results. -/
inductive Resolved : List Occurrence → Except Failure AccessToken → Prop
  | refused {scope deadline} (none : scope.isEmpty = true) :
      Resolved [.started scope deadline, .span .getToken scope.key] (.error Exchanger.noScope)
  | served {scope deadline t} (some : scope.isEmpty = false) :
      Resolved [.started scope deadline, .span .getToken scope.key, .hit t] (.ok t)
  | joined {c n r} (some : c.scope.isEmpty = false) (intime : timedOut r = false) :
      Resolved (opening c n ++ [.joined r]) r
  | hit {c n t} (some : c.scope.isEmpty = false) :
      Resolved (opening c n ++ [.boarded c.slot, .hit t]) (.ok t)
  | lapsed {c n} (some : c.scope.isEmpty = false) :
      Resolved (opening c n) (.error (.timeout .waitingForRefresh))
  | led {c n log r} (some : c.scope.isEmpty = false) (work : IsWork log) :
      Resolved (opening c n ++ .boarded c.slot :: (log ++ settled r ++ announced c.slot r)) r

variable {b b' w : Broker} {c : Call} {e : Event} {id : CallId} {h log : List Occurrence}
  {r : Except Failure AccessToken}

/-! ### One way each -/

theorem IsWork.filter_tells (work : IsWork log) : log.filter (·.tells) = [] := by
  apply List.filter_eq_nil_iff.mpr
  intro o ho
  have hw := work o ho
  have htells : o.tells = false := by cases o <;> first | rfl | cases hw
  simp [htells]

theorem filter_tells_opening (some : c.scope.isEmpty = false) (n : Nat) :
    (opening c n).filter (·.tells) = [] := by
  have hstarted : (Occurrence.started c.scope c.deadline).tells = false := some
  rw [opening, List.filter_cons_of_neg (by simp [hstarted])]
  rfl

theorem filter_tells_ended (other : r ≠ .error (.timeout .waitingForRefresh)) :
    [Occurrence.ended r].filter (·.tells) = [] := by
  have hended : (Occurrence.ended r).tells = false := by
    change (Occurrence.ended r).isLapse = false
    unfold Occurrence.isLapse
    split
    · rename_i he
      exact absurd (Occurrence.ended.inj he) other
    · rfl
  exact List.filter_cons_of_neg (by simp [hended])

/-- What the history of a call tells of its way. -/
inductive Told : Way → List Occurrence → Prop
  | refused {scope deadline} (none : scope.isEmpty = true) : Told .refused [.started scope deadline]
  | served {t} : Told .hit [.hit t]
  | joined {outcome} : Told .coalesced [.joined outcome]
  | hit {slot t} : Told .hit [.boarded slot, .hit t]
  | lapsed : Told .lapsed [.ended (.error (.timeout .waitingForRefresh))]
  | led {slot} : Told .led [.boarded slot]
  | late {slot} :
      Told .led [.boarded slot, .ended (.error (.timeout .waitingForRefresh))]

theorem Told.takes {way : Way} (h : Told way log) (other : Way) :
    other.takes log = decide (other = way) := by
  cases h with
  | refused none =>
      cases other with
      | refused => exact (Bool.or_false _).trans none
      | _ => rfl
  | _ => cases other <;> rfl

/-- A call takes a stored token and shares an outcome once at most. -/
theorem Told.once {way : Way} (h : Told way log) :
    log.countP (·.isHit) ≤ 1 ∧ log.countP (·.isJoined) ≤ 1 := by
  constructor <;> cases h <;> first | exact Nat.zero_le 1 | exact Nat.le_refl 1

/-- The history of a call that has ended tells of a way. -/
theorem Resolved.told (hr : Resolved h r) :
    ∃ way, Told way ((h ++ [Occurrence.ended r]).filter (·.tells)) := by
  cases hr with
  | @refused scope deadline none =>
      have hstarted : (Occurrence.started scope deadline).tells = true := none
      refine ⟨.refused, ?_⟩
      rw [List.cons_append, List.filter_cons_of_pos hstarted]
      exact .refused none
  | @served scope deadline t some =>
      have hstarted : (Occurrence.started scope deadline).tells = false := some
      refine ⟨.hit, ?_⟩
      rw [List.cons_append, List.filter_cons_of_neg (by simp [hstarted])]
      exact .served
  | joined some intime =>
      refine ⟨.coalesced, ?_⟩
      rw [List.filter_append, List.filter_append, filter_tells_opening some, filter_tells_ended]
      · exact .joined
      · rintro rfl
        cases intime
  | hit some =>
      refine ⟨.hit, ?_⟩
      rw [List.filter_append, List.filter_append, filter_tells_opening some]
      exact .hit
  | lapsed some =>
      refine ⟨.lapsed, ?_⟩
      rw [List.filter_append, filter_tells_opening some]
      exact .lapsed
  | @led c n log r some work =>
      have hsettled : (settled r).filter (·.tells) = [] := by cases r <;> rfl
      have hannounced : (announced c.slot r).filter (·.tells) = [] := by
        unfold announced
        split <;> rfl
      refine ⟨.led, ?_⟩
      rw [List.filter_append, List.filter_append, filter_tells_opening some,
        List.filter_cons_of_pos rfl, List.filter_append, List.filter_append, work.filter_tells,
        hsettled, hannounced]
      by_cases lapse : r = .error (.timeout .waitingForRefresh)
      · subst lapse
        exact .late
      · rw [filter_tells_ended lapse]
        exact .led

/-- The history of a call that has ended tells of one way. -/
theorem Resolved.way (hr : Resolved h r) : ∃! way : Way, way.takes (h ++ [.ended r]) = true := by
  obtain ⟨way, told⟩ := hr.told
  refine ⟨way, ?_, fun other hother => ?_⟩
  · change way.takes (h ++ [.ended r]) = true
    rw [← Way.takes_filter, told.takes]
    exact decide_eq_true rfl
  · apply of_decide_eq_true
    rw [← told.takes, Way.takes_filter]
    exact hother

/-- A call that has ended has taken a stored token and shared an outcome once at most. -/
theorem Resolved.once (hr : Resolved h r) :
    (h ++ [Occurrence.ended r]).countP (·.isHit) ≤ 1 ∧
      (h ++ [Occurrence.ended r]).countP (·.isJoined) ≤ 1 := by
  obtain ⟨way, told⟩ := hr.told
  have count {p : Occurrence → Bool} (hp : ∀ o, p o = true → o.tells = true) :
      (h ++ [Occurrence.ended r]).countP p =
        ((h ++ [Occurrence.ended r]).filter (·.tells)).countP p := by
    rw [List.countP_filter]
    apply List.countP_congr
    intro o _
    simp only [Bool.and_eq_true]
    exact ⟨fun ho => ⟨ho, hp o ho⟩, And.left⟩
  constructor
  · rw [count]
    · exact told.once.1
    · intro o ho
      cases o <;> first | rfl | cases ho
  · rw [count]
    · exact told.once.2
    · intro o ho
      cases o <;> first | rfl | cases ho

/-! ### Every call that ends goes one of the ways -/

/-- A call that asks for something and comes to its end has gone one of the ways. -/
theorem Closing.resolved (hb : b.Coherent) (hc : c ∈ b.calls) (some : c.scope.isEmpty = false)
    (closing : Closing b c e r w) :
    ∃ log, Logged b c.id log w ∧ Resolved (b.history c.id ++ log) r := by
  have living := hb.ledger.living c hc
  have refreshed {w' : Broker} (refreshed : Refreshed b c e r w')
      (hl : ∀ {log}, Logged b c.id log w' → Logged b c.id (log ++ announced c.slot r) w) :
      ∃ log, Logged b c.id log w ∧ Resolved (b.history c.id ++ log) r := by
    obtain ⟨n, before, hbefore, hh⟩ := living.of_aboard refreshed.aboard
    obtain ⟨log, work, hlog, -⟩ := refreshed.logged
    refine ⟨_, hl hlog, ?_⟩
    have hled := Resolved.led (n := n) (r := r) some (hbefore.append work)
    rw [hh]
    simpa using hled
  cases closing with
  | joins phase slot turn shared =>
      obtain ⟨n, -, hh⟩ := living.of_queued (by rw [phase]; rfl)
      have since := hb.landing.publishedSince hb.holding hb.ledger hc phase slot shared
      have intime := hb.intime (List.append_nil _).symm since
      refine ⟨_, logged_recordJoin b c.id r, ?_⟩
      rw [hh]
      exact .joined some intime
  | hits phase =>
      obtain ⟨n, -, hh⟩ := living.of_queued (by rw [phase]; rfl)
      refine ⟨_, (logged_note b c.id (o := .boarded c.slot) rfl).trans (logged_recordHit _ c.id _),
        ?_⟩
      rw [hh]
      exact .hit some
  | lapses phase =>
      obtain ⟨n, -, hh⟩ := living.of_queued (by rw [phase]; rfl)
      refine ⟨[], .refl b c.id, ?_⟩
      rw [hh, List.append_nil]
      exact .lapsed some
  | unpublished ends late => exact refreshed ends fun hl => by simpa [announced, late] using hl
  | published ends intime =>
      exact refreshed ends fun hl => by
        simpa [announced, intime] using hl.trans (logged_publish _ c r)

/-- The calls that have not ended ask for something, and those that have ended have gone one of the
ways. -/
structure Resolution (b : Broker) : Prop where
  asking : ∀ c ∈ b.calls, c.scope.isEmpty = false
  ended : Chronicle (fun pre x => ∀ r, x.what = .ended r → Resolved (historyOf pre x.call) r)
    b.journal

namespace Resolution

theorem make (config : Config) (x : Exchanger) (clock : Instant) :
    Resolution (make config x clock) :=
  ⟨by simp [Broker.make], .nil⟩

/-- The calls that have not ended after a step ask for something. -/
theorem asks (h : b.Resolution) (m : Move b e b') : ∀ d ∈ b'.calls, d.scope.isEmpty = false := by
  intro d hd
  rcases m.scope_of_mem hd with ⟨c, hc, hscope⟩ | ⟨-, -, some⟩
  · rw [← hscope]
    exact h.asking c hc
  · exact some

/-- A step that ends no call. -/
theorem stays (h : b.Resolution) (m : Move b e b')
    (journal : b'.journal = b.journal ++ log.map (b.entry id)) (none : ∀ r, .ended r ∉ log) :
    b'.Resolution := by
  refine ⟨h.asks m, chronicle_ended h.ended journal fun pre r post he => ?_⟩
  exact absurd (by simp [he]) (none r)

/-- A step in which nothing happens to a call. -/
theorem quiet (h : b.Resolution) (m : Move b e b') (journal : b'.journal = b.journal) :
    b'.Resolution :=
  ⟨h.asks m, journal ▸ h.ended⟩

/-- A step in which a call ends, and nothing more happens. -/
theorem ends (h : b.Resolution) (m : Move b e b')
    (journal : b'.journal = b.journal ++ (log ++ [Occurrence.ended r]).map (b.entry id))
    (first : ∀ r, .ended r ∉ log) (resolved : Resolved (b.history id ++ log) r) :
    b'.Resolution := by
  refine ⟨h.asks m, chronicle_ended h.ended journal fun pre r' post he => ?_⟩
  obtain ⟨rfl, hr⟩ := eq_of_concat_eq he (first r')
  exact (Occurrence.ended.inj hr) ▸ resolved

/-- Every move leaves the calls on their ways. -/
theorem move (h : b.Resolution) (hb : b.Coherent) (m : Move b e b') : b'.Resolution := by
  have fresh := hb.ledger.fresh b.nextCall (Nat.le_refl _)
  cases hm : m with
  | idle => exact h
  | @refuses scope deadline none =>
      have hl := logged_refused b scope deadline (.error Exchanger.noScope)
      have journal : _ = b.journal ++ ([_, _] ++ [_]).map (b.entry b.nextCall) := hl.journal
      refine h.ends m journal (by simp) ?_
      rw [fresh]
      exact .refused none
  | @serves scope deadline t some =>
      have hl := logged_served b scope deadline t
      have journal : _ = b.journal ++ ([_, _, _] ++ [_]).map (b.entry b.nextCall) := hl.journal
      refine h.ends m journal (by simp) ?_
      rw [fresh]
      exact .served some
  | queues => exact h.stays m (journal_queue b _ _) fun r => not_mem_opening_ended _ _ r
  | @reads c round cache => exact h.stays m (logged_reads b c.id cache).journal (by simp)
  | goes _ going =>
      rcases going.logged.2 with ⟨-, hl⟩ | ⟨-, log, work, hl⟩
      · exact h.stays m hl.journal (by simp)
      · exact h.stays m hl.journal fun r => work.not_mem rfl
  | @ends c e r w live closing =>
      have hc := mem_calls_of_call? live
      obtain ⟨log, hl, resolved⟩ := closing.resolved hb hc (h.asking c hc)
      obtain ⟨log', farewell, hl', -⟩ := closing.logged
      obtain rfl := hl.log_eq hl'
      exact h.ends m (hl.journal_finish r) farewell.not_mem_ended resolved
  | @cancels c => exact h.stays m (logged_cancelled b c.id).journal (by simp)
  | overtakes => exact h.quiet m rfl
  | overtakesVisit => exact h.quiet m rfl
  | invalidates => exact h.quiet m rfl
  | purges => exact h.quiet m rfl
  | sets => exact h.quiet m rfl
  | ticks => exact h.quiet m rfl

theorem run (h : b.Resolution) (hb : b.Coherent) (events : List Event) :
    (b.run events).Resolution := by
  have both : (b.run events).Coherent ∧ (b.run events).Resolution :=
    run_keeps (P := fun w => w.Coherent ∧ w.Resolution)
      (fun _ _ _ hw m => ⟨hw.1.move m, hw.2.move hw.1 m⟩) ⟨hb, h⟩ events
  exact both.2

/-- The history of a call that has ended is that of a way. -/
theorem resolved (h : b.Resolution) (ledger : b.Ledger) {i : CallId}
    (hr : .ended r ∈ b.history i) : ∃ pre, b.history i = pre ++ [.ended r] ∧ Resolved pre r := by
  obtain ⟨pre, y, post, hj, rfl, hwhat, hwhole⟩ := ledger.split_of_ended hr
  exact ⟨_, hwhole, h.ended pre y post hj r hwhat⟩

end Resolution

end Broker

end FederatedAccess
