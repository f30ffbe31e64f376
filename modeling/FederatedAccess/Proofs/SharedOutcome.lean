import FederatedAccess.Proofs.Broker.Landing

/-!
# Where results come from

A call that ends has taken a stored token, or was given an outcome that another call published
after it had come, or has refreshed itself, or gave up (`Origin`). An outcome that was published
before a call came is never its result, even if the slot that holds the outcome outlives the calls
that were there then.
-/

namespace FederatedAccess.Broker

/-- How a call comes by its result, in the light of what the journal holds until then. -/
inductive Origin (pre : List Entry) (id : CallId) : Except Failure AccessToken → Prop
  | refused {scope deadline} (none : scope.isEmpty = true)
      (whole : historyOf pre id = [.started scope deadline, .span .getToken scope.key]) :
      Origin pre id (.error Exchanger.noScope)
  | hit {t} (hit : .hit t ∈ historyOf pre id) : Origin pre id (.ok t)
  | joined {r} (joined : .joined r ∈ historyOf pre id) (since : PublishedSince id r pre) :
      Origin pre id r
  | lapsed (waited : ∀ slot, .boarded slot ∉ historyOf pre id) :
      Origin pre id (.error (.timeout .waitingForRefresh))
  | led {before slot log r} (work : IsWork log)
      (whole : historyOf pre id = before ++ .boarded slot :: log ++ settled r ++ announced slot r) :
      Origin pre id r

/-- What a call shares before it ends is its result. -/
theorem Departed.joined_eq {h : List Occurrence} {r o : Except Failure AccessToken}
    (hd : Departed h r) (ho : .joined o ∈ h) : o = r := by
  cases hd with
  | refused => simp at ho
  | served => simp at ho
  | @ended c h log r living farewell =>
      have hliving : .joined o ∉ h := by
        cases living with
        | queued => simp [opening]
        | aboard _ work => simp [opening, work.not_mem (o := .joined o) rfl]
      rcases List.mem_append.mp ho with ho | ho
      · exact absurd ho hliving
      · cases farewell with
        | joined => simpa using ho
        | hit => simp at ho
        | lapsed => simp at ho
        | refreshed _ work =>
            simp [work.not_mem (o := .joined o) rfl] at ho

/-- An outcome that a call shares was published after the call queued. -/
theorem Coherent.publishedSince {b : Broker} (h : b.Coherent) {pre post : List Entry} {x : Entry}
    {o : Except Failure AccessToken} (hj : b.journal = pre ++ x :: post)
    (ho : .joined o ∈ historyOf pre x.call) : PublishedSince x.call o pre := by
  obtain ⟨y, hy, hcall, hw⟩ := mem_historyOf.mp ho
  obtain ⟨before, after, rfl⟩ := List.append_of_mem hy
  have hsplit : b.journal = before ++ y :: (after ++ x :: post) := by simp [hj]
  exact hcall ▸ (h.landing.joined before y _ hsplit o hw).append _

/-- An outcome that is published is no timeout. -/
theorem Coherent.intime {b : Broker} (h : b.Coherent) {pre post : List Entry} {id : CallId}
    {o : Except Failure AccessToken} (hj : b.journal = pre ++ post)
    (hs : PublishedSince id o pre) : timedOut o = false := by
  cases hs with
  | intro started queued published boarded =>
      rw [List.append_assoc, List.cons_append] at hj
      exact (h.landing.published _ _ _ hj _ _ published.2).1

/-- The way to a result is told by what the journal holds of the call. -/
theorem Coherent.origin {b : Broker} (h : b.Coherent) {pre post : List Entry} {x : Entry}
    {r : Except Failure AccessToken} (hj : b.journal = pre ++ x :: post) (hx : x.what = .ended r) :
    Origin pre x.call r := by
  have hd := h.ledger.departed pre x post hj r hx
  generalize hh : historyOf pre x.call = whole at hd
  cases hd with
  | refused none => exact .refused none hh
  | served => exact .hit (by simp [hh])
  | @ended c _ log _ living farewell =>
      cases farewell with
      | @joined r queued =>
          have hmem : .joined r ∈ historyOf pre x.call := by simp [hh]
          exact .joined hmem (h.publishedSince hj hmem)
      | hit => exact .hit (by simp [hh])
      | lapsed queued =>
          obtain ⟨n, -, rfl⟩ := living.of_queued queued
          exact .lapsed (by simp [hh, opening])
      | @refreshed log r aboard work =>
          obtain ⟨n, before, hbefore, rfl⟩ := living.of_aboard aboard
          have whole : historyOf pre x.call = opening c n ++ .boarded c.slot :: (before ++ log) ++
              settled r ++ announced c.slot r := by simpa using hh
          exact .led (hbefore.append work) whole

/-- A call never gets an outcome that was published before it began. An outcome that it shares was
published after it queued and before it ends, by the refresh of another call, and is no timeout. -/
theorem outcome_shared_since_start (config : Config) (x : Exchanger) (clock : Instant)
    (events : List Event) (pre post : List Entry) (e : Entry) (r : Except Failure AccessToken)
    (journal : ((make config x clock).run events).journal = pre ++ e :: post)
    (ended : e.what = .ended r) :
    (historyOf pre e.call).countP (·.isStarted) = 1 ∧ Origin pre e.call r ∧
      ∀ o, .joined o ∈ historyOf pre e.call →
        o = r ∧ (∀ wait, o ≠ .error (.timeout wait)) ∧ PublishedSince e.call o pre := by
  have h : Coherent ((make config x clock).run events) := (Coherent.make config x clock).run events
  have hd := h.ledger.departed pre e post journal r ended
  refine ⟨hd.countP_isStarted, h.origin journal ended, fun o ho => ?_⟩
  have hsince := h.publishedSince journal ho
  refine ⟨hd.joined_eq ho, ?_, hsince⟩
  rintro wait rfl
  exact Bool.false_ne_true ((h.intime journal hsince).symm.trans rfl)

/-! ### A run in which an outcome is shared -/

def sampleScope : ScopeSet := ⟨["api"], by decide, by decide⟩

def sampleConfig : Config where
  clientId := ⟨"client", by decide⟩
  tenantId := ⟨"tenant", by decide⟩
  authorityHost := Config.publicAuthority
  endpointOverride := none
  assertionFile := "/token"
  ttl := Config.defaultTtl
  margin := Config.defaultMargin

def sampleExchanger : Exchanger where
  clientId := sampleConfig.clientId
  endpoint := Config.publicAuthority

theorem zero_inRange : UtcOffset.utc.Reaches 0 := by
  decide

def sampleClock : Instant := ⟨0, .utc, zero_inRange⟩

/-- A refresh that fails while another call queues behind it. -/
def failingRefresh : List Event :=
  [.start sampleScope none, .start sampleScope none, .proceed 0, .proceed 0,
    .readDone 0 (.error (.missing "/token")), .proceed 1]

set_option maxRecDepth 20000 in
theorem failure_is_shared :
    let b := (make sampleConfig sampleExchanger sampleClock).run failingRefresh
    let r : Except Failure AccessToken := .error (.assertion (.missing "/token"))
    ∃ pre e, b.journal = pre ++ [e] ∧ e.call = 1 ∧ e.what = .ended r ∧
      .joined r ∈ historyOf pre 1 ∧ PublishedSince 1 r pre := by
  intro b r
  have hj : b.journal = b.journal.dropLast ++ [⟨0, sampleClock, 1, .ended r⟩] := rfl
  have hmem : .joined r ∈ historyOf b.journal.dropLast 1 := by
    have hget : b.journal.dropLast[11]? = some ⟨0, sampleClock, 1, .joined r⟩ := rfl
    exact mem_historyOf.mpr ⟨_, List.mem_of_getElem? hget, rfl, rfl⟩
  have hshared := outcome_shared_since_start _ _ _ _ _ _ _ _ hj rfl
  exact ⟨_, _, hj, rfl, rfl, hmem, (hshared.2.2 r hmem).2.2⟩

end FederatedAccess.Broker
