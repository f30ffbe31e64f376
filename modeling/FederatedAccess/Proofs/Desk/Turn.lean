import FederatedAccess.Assertion.Desk

/-!
# What happens at the desk

A transcript lists what happens at a desk: calls arrive, begin and end reads, are given answers, and
are dropped (`AssertionDesk.record`). The ways in which an event changes a desk are listed once, with
what is recorded of them (`Turn`); what holds of every run is derived from this list.
-/

namespace FederatedAccess

/-- What happens to a call to the cache. The end of a read says which instant the call came with. -/
inductive DeskEntry
  | arrived (call : CallId) (lookup : Lookup) (now : Instant)
  | begun (call : CallId)
  | ended (call : CallId) (now : Instant) (result : Except Failure String)
  | given (call : CallId) (answer : DeskAnswer)
  | dropped (call : CallId)

/-- The call to which something happens. -/
def DeskEntry.call : DeskEntry → CallId
  | .arrived call _ _ => call
  | .begun call => call
  | .ended call _ _ => call
  | .given call _ => call
  | .dropped call => call

/-- A visit that only looks is shown what is stored. -/
theorem AssertionCache.proceed_of_peek {c : AssertionCache} {v : Visit} {rest : List Visit}
    (visits : c.visits = v :: rest) (waiting : v.reading = false) (peeks : v.lookup = .peek) :
    c.proceed = (c.close, .shows c.stored) := by
  simp [proceed, visits, waiting, peeks]

namespace AssertionDesk

/-- What is recorded of a visit that goes on. -/
def handed (call : CallId) : AssertionCache × AssertionCache.Progress → List DeskEntry
  | (_, .begins) => [.begun call]
  | (_, .shows stored) => [.given call (.shown stored)]
  | (_, .ends r) => [.given call (.result r)]
  | (_, .waits) => []

/-- What is recorded of a read that ends. -/
def readEntries (d : AssertionDesk) (call : CallId) (result : Except Failure String) :
    List DeskEntry :=
  (d.cache.visits.head?.map fun v => .ended call v.now result).toList ++
    handed call (d.cache.finish result)

/-- What is recorded of an event. -/
def record (d : AssertionDesk) : Event → List DeskEntry
  | .arrive lookup now _ => [.arrived d.nextCall lookup now]
  | .proceed call => if d.cache.isTurn call then handed call d.cache.proceed else []
  | .readDone call result =>
    if d.cache.isReading call then d.readEntries call (result.mapError .assertion) else []
  | .expire call =>
    if (d.deadline? call).any (· ≤ d.time) then
      if d.cache.isReading call then d.readEntries call (.error (.timeout .assertionRead))
      else if d.cache.isTurn call then []
      else [.given call (.result (.error (.timeout .assertionRead)))]
    else []
  | .cancel call => if d.cache.visits.any (·.call == call) then [.dropped call] else []
  | .overtake _ => []
  | .tick _ => []

/-- What is recorded of events in order. -/
def transcript (d : AssertionDesk) : List Event → List DeskEntry
  | [] => []
  | e :: rest => d.record e ++ (d.step e).transcript rest

/-- The deadline of a call has come. -/
def Overdue (d : AssertionDesk) (call : CallId) : Prop :=
  ∃ c limit, d.callers[call]? = some c ∧ c.deadline = some limit ∧ limit ≤ d.time

/-- How a read comes to an end: the source answers, or the deadline of the call comes. -/
inductive Source (d : AssertionDesk) (call : CallId) : Event → Except Failure String → Prop
  | answers {result : Except ReadFailure String} :
      Source d call (.readDone call result) (result.mapError .assertion)
  | late (due : d.Overdue call) : Source d call (.expire call) (.error (.timeout .assertionRead))

/-- The ways in which an event changes a desk, with what is recorded of them. -/
inductive Turn (d : AssertionDesk) : Event → List DeskEntry → AssertionDesk → Prop
  | idle (e) : Turn d e [] d
  | arrives (lookup now deadline) :
      Turn d (.arrive lookup now deadline) [.arrived d.nextCall lookup now]
        (d.arrive lookup now deadline)
  | begins {v rest} (visits : d.cache.visits = v :: rest) (waiting : v.reading = false) (tally)
      (asks : v.lookup ≠ .peek) (stale : v.lookup = .current → d.cache.fresh? v.now = none) :
      Turn d (.proceed v.call) [.begun v.call]
        { d with
          cache := { d.cache with visits := { v with reading := true } :: rest }
          reads := d.reads + 1
          tally }
  | shows {v rest} (visits : d.cache.visits = v :: rest) (waiting : v.reading = false)
      (peeks : v.lookup = .peek) :
      Turn d (.proceed v.call) [.given v.call (.shown d.cache.stored)]
        ({ d with cache := d.cache.close }.answer v.call (.shown d.cache.stored))
  | fresh {v rest a} (visits : d.cache.visits = v :: rest) (waiting : v.reading = false)
      (current : v.lookup = .current) (fresh : d.cache.fresh? v.now = some a) :
      Turn d (.proceed v.call) [.given v.call (.result (.ok a))]
        ({ d with cache := d.cache.close }.answer v.call (.result (.ok a)))
  | reads {v rest e result cache r} (visits : d.cache.visits = v :: rest)
      (reading : v.reading = true) (source : Source d v.call e result)
      (closed : cache.visits = rest)
      (finished : AssertionCache.Finished d.cache v result cache.stored r) (tally reuses) :
      Turn d e [.ended v.call v.now result, .given v.call (.result r)]
        ({ d with cache, tally, reuses }.answer v.call (.result r))
  | lapses {v} (live : v ∈ d.cache.visits) (due : d.Overdue v.call)
      (waiting : d.cache.isReading v.call = false) (turn : d.cache.isTurn v.call = false) :
      Turn d (.expire v.call) [.given v.call (.result (.error (.timeout .assertionRead)))]
        ({ d with cache := d.cache.leave v.call }.answer v.call
          (.result (.error (.timeout .assertionRead))))
  | drops {v} (live : v ∈ d.cache.visits) :
      Turn d (.cancel v.call) [.dropped v.call] (d.cancel v.call)
  | absent {call} (none : ∀ v ∈ d.cache.visits, v.call ≠ call) :
      Turn d (.cancel call) [] (d.cancel call)
  | overtakes (call) : Turn d (.overtake call) [] (d.overtake call)
  | ticks (time) (later : d.time ≤ time)
      (waits : ∀ v ∈ d.cache.visits, ∀ t ∈ d.lastWait v, time ≤ t) :
      Turn d (.tick time) [] { d with time }

variable {d : AssertionDesk} {call : CallId} {e : Event}

/-- The deadline of a call that has not ended has come. -/
theorem due_iff : (d.deadline? call).any (· ≤ d.time) = true ↔
    (∃ v ∈ d.cache.visits, v.call = call) ∧ d.Overdue call := by
  have live : d.cache.visits.any (·.call == call) = true ↔ ∃ v ∈ d.cache.visits, v.call = call := by
    simp
  have overdue : (d.callers[call]?.bind Caller.deadline).any (· ≤ d.time) = true ↔
      d.Overdue call := by
    cases hc : d.callers[call]? <;> simp [Overdue, hc, Option.any_eq_true]
  rw [deadline?, ← live, ← overdue]
  split <;> simp [*]

/-! ### Every step is a turn -/

theorem turn_proceed (d : AssertionDesk) (call : CallId) :
    Turn d (.proceed call) (d.record (.proceed call)) (d.proceed call) := by
  unfold proceed record
  dsimp only
  split
  · rename_i turn
    obtain ⟨v, rest, visits, rfl, waiting⟩ := AssertionCache.isTurn_iff.mp turn
    by_cases peeks : v.lookup = .peek
    · rw [AssertionCache.proceed_of_peek visits waiting peeks]
      exact .shows visits waiting peeks
    · rcases AssertionCache.proceed_cases visits waiting peeks with h | ⟨a, current, fresh, h⟩
      · have stale (current : v.lookup = .current) : d.cache.fresh? v.now = none :=
          AssertionCache.stale_of_proceed_eq_begins visits current h
        rw [h]
        exact .begins visits waiting _ peeks stale
      · rw [h]
        exact .fresh visits waiting current fresh
  · exact .idle _

theorem turn_endRead {result : Except Failure String} (reading : d.cache.isReading call = true)
    (source : Source d call e result) :
    Turn d e (d.readEntries call result) (d.endRead call result) := by
  obtain ⟨v, rest, visits, rfl, hreading⟩ := AssertionCache.isReading_iff.mp reading
  obtain ⟨cache, r, h, closed, finished⟩ := AssertionCache.finish_cases visits hreading result
  unfold readEntries endRead
  rw [h, visits]
  exact .reads visits hreading source closed finished _ _

theorem turn_readDone (d : AssertionDesk) (call : CallId) (result : Except ReadFailure String) :
    Turn d (.readDone call result) (d.record (.readDone call result)) (d.readDone call result) := by
  unfold readDone record
  dsimp only
  split
  · exact turn_endRead ‹_› .answers
  · exact .idle _

theorem turn_expire (d : AssertionDesk) (call : CallId) :
    Turn d (.expire call) (d.record (.expire call)) (d.expire call) := by
  unfold expire record
  dsimp only
  split
  · rename_i due
    obtain ⟨⟨v, hv, rfl⟩, overdue⟩ := due_iff.mp due
    split
    · exact turn_endRead ‹_› (.late overdue)
    · rename_i waiting
      split
      · exact .idle _
      · rename_i turn
        exact .lapses hv overdue (Bool.eq_false_iff.mpr waiting) (Bool.eq_false_iff.mpr turn)
  · exact .idle _

theorem turn_cancel (d : AssertionDesk) (call : CallId) :
    Turn d (.cancel call) (d.record (.cancel call)) (d.cancel call) := by
  unfold record
  dsimp only
  split
  · rename_i live
    obtain ⟨v, hv, hcall⟩ := List.any_eq_true.mp live
    obtain rfl := eq_of_beq hcall
    exact .drops hv
  · rename_i none
    apply Turn.absent
    rintro v hv rfl
    exact none (List.any_eq_true.mpr ⟨v, hv, BEq.rfl⟩)

theorem turn_tick (d : AssertionDesk) (time : Nat) : Turn d (.tick time) [] (d.tick time) := by
  unfold tick
  split
  · rename_i h
    refine .ticks time h.1 fun v hv t ht => ?_
    have hall := List.all_eq_true.mp h.2 v hv
    exact of_decide_eq_true ((Option.all_eq_true _ _).mp hall t ht)
  · exact .idle _

/-- Every step is one of the turns. -/
theorem turn_step (d : AssertionDesk) (e : Event) : Turn d e (d.record e) (d.step e) := by
  cases e with
  | arrive lookup now deadline => exact .arrives lookup now deadline
  | proceed call => exact turn_proceed d call
  | readDone call result => exact turn_readDone d call result
  | expire call => exact turn_expire d call
  | cancel call => exact turn_cancel d call
  | overtake call => exact .overtakes call
  | tick time => exact d.turn_tick time

/-- What every step on an event of some kind keeps, with the transcript so far, holds after every run
of such events. -/
theorem run_keeps_of {P : List DeskEntry → AssertionDesk → Prop} {Q : Event → Prop}
    (step : ∀ j d e, Q e → P j d → P (j ++ d.record e) (d.step e)) {j : List DeskEntry}
    (h : P j d) {events : List Event} (kind : ∀ e ∈ events, Q e) :
    P (j ++ d.transcript events) (d.run events) := by
  induction events generalizing d j with
  | nil => simpa [transcript, run] using h
  | cons e rest ih =>
      obtain ⟨he, hrest⟩ := List.forall_mem_cons.mp kind
      have hnext := ih (step j d e he h) hrest
      rw [List.append_assoc] at hnext
      exact hnext

/-- What every turn keeps, with the transcript so far, holds after every run. -/
theorem run_keeps {P : List DeskEntry → AssertionDesk → Prop}
    (turn : ∀ j d e log d', P j d → Turn d e log d' → P (j ++ log) d') {j : List DeskEntry}
    (h : P j d) (events : List Event) : P (j ++ d.transcript events) (d.run events) :=
  run_keeps_of (fun j d e _ h => turn j d e _ _ h (turn_step d e)) h fun _ _ => trivial

end AssertionDesk

end FederatedAccess
