import FederatedAccess.Proofs.Desk.Register

/-!
# The cache is one atomic register

Whatever calls come in, in whatever order they go on, are cut off or are dropped, and whatever the
source answers: one read is under way at most, what is stored is what the last read that succeeded
gave, an assertion that is given out is the one that is stored at that moment, and a call learns of
a failed read only if it asked for a read or nothing was ever stored. A read ends within the deadline
of its call, which cuts it off.
-/

namespace FederatedAccess

theorem AssertionCache.stored_of_fresh? {c : AssertionCache} {now : Instant} {a : Assertion}
    (h : c.fresh? now = some a) : c.stored = some a :=
  (Option.filter_eq_some_iff.mp h).1

theorem AssertionCache.stored_of_standIn? {c : AssertionCache} {a : Assertion} {age : Duration}
    (h : c.standIn? = some (a, age)) : c.stored = some a := by
  unfold standIn? at h
  split at h
  · obtain ⟨b, hb, he⟩ := Option.map_eq_some_iff.mp h
    cases he
    exact hb
  · cases h

/-- A visit that came because of age is left without an assertion only when nothing is stored. -/
theorem AssertionCache.stored_eq_none {c : AssertionCache} {v : Visit} {rest : List Visit}
    (visits : c.visits = v :: rest) (current : v.lookup = .current) (h : c.standIn? = none) :
    c.stored = none := by
  obtain ⟨call, lookup, now, reading⟩ := v
  obtain rfl : lookup = .current := current
  simpa [standIn?, visits] using h

namespace AssertionDesk

/-- A call is cut off at its deadline while it waits for its turn. -/
def CutOff (j : List DeskEntry) (d : AssertionDesk) (e : Event) (call : CallId) : Prop :=
  .begun call ∉ j ∧ d.cache.isTurn call = false ∧ e = .expire call ∧ d.Overdue call

/-- It is not later than the deadline of a call, or than when it came if its deadline had passed. -/
def InTime (d : AssertionDesk) (call : CallId) : Prop :=
  ∃ c, d.callers[call]? = some c ∧ ∀ limit ∈ c.deadline, d.time ≤ max limit c.started

/-- What a desk, the transcript so far and the next event say of the cache as a register. -/
structure Register (j : List DeskEntry) (d : AssertionDesk) (e : Event) : Prop where
  /-- Reads do not overlap, and the transcript holds every read and every answer there was. -/
  alone : (underway j).length ≤ 1
  reads : d.reads = j.countP DeskEntry.isBegun
  answers : d.answers = j.filterMap DeskEntry.given?
  /-- A call keeps the deadline that it came with, unless it only looks at what is stored. -/
  comes : ∀ lookup now deadline, e = .arrive lookup now deadline →
    d.record e = [.arrived d.nextCall lookup now] ∧ (d.step e).callers[d.nextCall]? =
      some ⟨d.time, if lookup = .peek then none else deadline⟩
  keeps : ∀ (call : CallId) (c : Caller), d.callers[call]? = some c →
    (d.step e).callers[call]? = some c
  /-- A call waits and reads within its deadline, which cuts it off unless its turn has come. -/
  waits : ∀ call ∈ outstanding j, d.InTime call
  cuts : ∀ call ∈ outstanding j, d.Overdue call → d.cache.isTurn call = true ∨
    .given call (.result (.error (.timeout .assertionRead))) ∈ d.record (.expire call) ∨
      ∃ now, .ended call now (.error (.timeout .assertionRead)) ∈ d.record (.expire call)
  /-- A call that is served begins to read or is given an answer. -/
  serves : ∀ call, d.cache.isTurn call = true → d.record (.proceed call) = [.begun call] ∨
    ∃ answer, d.record (.proceed call) = [.given call answer]
  /-- The end of a read is that of the call that reads, within its deadline, and the call is given a
  result. -/
  ends : ∀ call now result, .ended call now result ∈ d.record e →
    call ∈ underway j ∧ d.InTime call ∧ (∃ lookup, .arrived call lookup now ∈ j) ∧
      Source d call e result ∧ ∃ r, .given call (.result r) ∈ d.record e
  /-- What the source answers to the call that reads ends its read. -/
  listens : ∀ call result, call ∈ underway j →
    ∃ now, .ended call now (result.mapError .assertion) ∈ d.record (.readDone call result)
  /-- What is stored is what the last read that succeeded gave. -/
  stored : d.cache.stored = lastRead j
  untouched : (∀ call now text, .ended call now (.ok text) ∉ d.record e) →
    (d.step e).cache.stored = d.cache.stored
  /-- What is given out is what is stored when it is given out. -/
  returns : ∀ call a, .given call (.result (.ok a)) ∈ d.record e → (d.step e).cache.stored = some a
  shows : ∀ call stored, .given call (.shown stored) ∈ d.record e → (d.step e).cache.stored = stored
  /-- A forced call reads at its turn and is given what its read gave. -/
  forces : ∀ call now, .arrived call .forced now ∈ j → d.cache.isTurn call = true →
    d.record (.proceed call) = [.begun call]
  forced : ∀ call now r, .arrived call .forced now ∈ j → .given call (.result r) ∈ d.record e →
    (CutOff j d e call ∧ r = .error (.timeout .assertionRead)) ∨
      .begun call ∈ j ∧ ∃ result, .ended call now result ∈ d.record e ∧
        r = result.map fun text => ⟨⟨text⟩, now⟩
  /-- A call that came because of age fails with its read only if no read has ever succeeded. -/
  current : ∀ call now f, .arrived call .current now ∈ j →
    .given call (.result (.error f)) ∈ d.record e →
    (CutOff j d e call ∧ f = .timeout .assertionRead) ∨
      .begun call ∈ j ∧ .ended call now (.error f) ∈ d.record e ∧
        ∀ other instant text, .ended other instant (.ok text) ∉ j

variable {j log : List DeskEntry} {d d' : AssertionDesk} {e : Event} {call : CallId} {v : Visit}
  {answer : DeskAnswer}

/-! ### How answers come about -/

/-- How a call that stands at the desk comes to its answer, and what is stored then. -/
inductive Answered (d : AssertionDesk) (v : Visit) (e : Event) (log : List DeskEntry) :
    Option Assertion → DeskAnswer → Prop
  | looks (peeks : v.lookup = .peek) : Answered d v e log d.cache.stored (.shown d.cache.stored)
  | reuses {a} (waiting : v.reading = false) (current : v.lookup = .current) :
      Answered d v e log (some a) (.result (.ok a))
  | lapses (waiting : v.reading = false) (turn : d.cache.isTurn v.call = false)
      (cut : e = .expire v.call) (due : d.Overdue v.call) :
      Answered d v e log d.cache.stored (.result (.error (.timeout .assertionRead)))
  | reads {rest stored result r} (visits : d.cache.visits = v :: rest) (reading : v.reading = true)
      (ended : .ended v.call v.now result ∈ log)
      (finished : AssertionCache.Finished d.cache v result stored r) :
      Answered d v e log stored (.result r)

/-- Whoever is given an answer stands at the desk. -/
theorem Turn.answered (t : Turn d e log d') (h : Seated j d) (given : .given call answer ∈ log) :
    ∃ v ∈ d.cache.visits, v.call = call ∧ Answered d v e log d'.cache.stored answer := by
  cases t with
  | idle | arrives | begins | drops | absent | overtakes | ticks => simp at given
  | shows visits waiting peeks =>
      cases List.mem_singleton.mp given
      exact ⟨_, by simp [visits], rfl, .looks peeks⟩
  | fresh visits waiting current fresh =>
      cases List.mem_singleton.mp given
      refine ⟨_, by simp [visits], rfl, ?_⟩
      change Answered d _ _ _ d.cache.stored _
      rw [AssertionCache.stored_of_fresh? fresh]
      exact .reuses waiting current
  | reads visits reading source closed finished tally reuses =>
      have he := (List.mem_cons.mp given).resolve_left DeskEntry.noConfusion
      cases List.mem_singleton.mp he
      exact ⟨_, by simp [visits], rfl, .reads visits reading (by simp) finished⟩
  | lapses live due waiting turn =>
      cases List.mem_singleton.mp given
      exact ⟨_, live, rfl, .lapses (h.not_reading live waiting) turn rfl due⟩

theorem Answered.stored_of_ok {stored : Option Assertion} {a : Assertion}
    (h : Answered d v e log stored (.result (.ok a))) : stored = some a := by
  cases h with
  | reuses waiting current => rfl
  | reads visits reading ended finished =>
      cases finished with
      | read => rfl
      | stale stands => exact AssertionCache.stored_of_standIn? stands

theorem Answered.stored_of_shown {stored seen : Option Assertion}
    (h : Answered d v e log stored (.shown seen)) : stored = seen := by
  cases h
  rfl

/-- A forced call that has begun to read is given what its read gave. -/
theorem Answered.of_forced {stored : Option Assertion} {r : Except Failure Assertion}
    (h : Answered d v e log stored (.result r)) (seated : Seated j d) (hv : v ∈ d.cache.visits)
    (forced : v.lookup = .forced) :
    (CutOff j d e v.call ∧ r = .error (.timeout .assertionRead)) ∨
      .begun v.call ∈ j ∧ ∃ result, .ended v.call v.now result ∈ log ∧
        r = result.map fun text => ⟨⟨text⟩, v.now⟩ := by
  have hbegun := seated.begun_iff hv
  cases h with
  | reuses waiting current => cases forced.symm.trans current
  | lapses waiting turn cut due => exact .inl ⟨⟨by simp [hbegun, waiting], turn, cut, due⟩, rfl⟩
  | reads visits reading ended finished =>
      refine .inr ⟨hbegun.mpr reading, _, ended, ?_⟩
      cases finished with
      | read => rfl
      | stale stands => cases forced.symm.trans (AssertionCache.lookup_of_standIn? visits stands)
      | failed none => rfl

/-- A call that came because of age fails with its read only while nothing is stored. -/
theorem Answered.of_current {stored : Option Assertion} {f : Failure}
    (h : Answered d v e log stored (.result (.error f))) (seated : Seated j d)
    (tallied : Tallied j d) (hv : v ∈ d.cache.visits) (current : v.lookup = .current) :
    (CutOff j d e v.call ∧ f = .timeout .assertionRead) ∨
      .begun v.call ∈ j ∧ .ended v.call v.now (.error f) ∈ log ∧
        ∀ other instant text, .ended other instant (.ok text) ∉ j := by
  have hbegun := seated.begun_iff hv
  cases h with
  | lapses waiting turn cut due => exact .inl ⟨⟨by simp [hbegun, waiting], turn, cut, due⟩, rfl⟩
  | reads visits reading ended finished =>
      cases finished with
      | failed none =>
          refine .inr ⟨hbegun.mpr reading, ended, lastRead_eq_none ?_⟩
          rw [← tallied.stored]
          exact AssertionCache.stored_eq_none visits current none

/-! ### Deadlines -/

/-- A call keeps the deadline that it came with. -/
theorem Turn.keeps (t : Turn d e log d') {c : Caller} (known : d.callers[call]? = some c) :
    d'.callers[call]? = some c := by
  cases t with
  | arrives lookup now deadline =>
      obtain ⟨hlt, -⟩ := List.getElem?_eq_some_iff.mp known
      exact (List.getElem?_append_left hlt).trans known
  | _ => exact known

/-- Whoever waits for an answer is in time. -/
theorem Seated.inTime (h : Seated j d) (punctual : d.Punctual) (waits : call ∈ outstanding j) :
    d.InTime call := by
  obtain ⟨v, hv, rfl⟩ := h.mem_outstanding.mp waits
  obtain ⟨c, caller⟩ : ∃ c, d.callers[v.call]? = some c :=
    ⟨_, List.getElem?_eq_getElem (h.known v hv)⟩
  refine ⟨c, caller, fun limit hlimit => punctual v hv _ ?_⟩
  rw [lastWait, caller]
  exact Option.map_eq_some_iff.mpr ⟨limit, hlimit, rfl⟩

/-- Whose deadline has come goes on at its turn or is cut off. -/
theorem Seated.cuts (h : Seated j d) (waits : call ∈ outstanding j) (overdue : d.Overdue call) :
    d.cache.isTurn call = true ∨
      .given call (.result (.error (.timeout .assertionRead))) ∈ d.record (.expire call) ∨
        ∃ now, .ended call now (.error (.timeout .assertionRead)) ∈ d.record (.expire call) := by
  have due := due_iff.mpr ⟨h.mem_outstanding.mp waits, overdue⟩
  rw [record, if_pos due]
  cases reading : d.cache.isReading call with
  | true =>
      obtain ⟨v, rest, visits, -, -⟩ := AssertionCache.isReading_iff.mp reading
      exact .inr (.inr ⟨v.now, by simp [readEntries, visits]⟩)
  | false =>
      cases turn : d.cache.isTurn call with
      | true => exact .inl rfl
      | false => exact .inr (.inl (by simp))

/-! ### Reads -/

theorem Seated.underway_iff (h : Seated j d) :
    call ∈ underway j ↔ ∃ v ∈ d.cache.visits, v.reading = true ∧ v.call = call := by
  simp only [h.reading, List.mem_map, List.mem_filter, and_assoc]

/-- At most one call reads. -/
theorem Seated.alone (h : Seated j d) : (underway j).length ≤ 1 := by
  rw [h.reading, List.length_map]
  cases hvisits : d.cache.visits with
  | nil => simp
  | cons v rest =>
      have hrest : rest.filter (·.reading) = [] :=
        List.filter_eq_nil_iff.mpr fun u hu => by simp [h.single u (by rw [hvisits]; exact hu)]
      rw [List.filter_cons, hrest]
      split <;> simp

/-- Whoever reads waits for an answer. -/
theorem Seated.outstanding_of_underway (h : Seated j d) (reads : call ∈ underway j) :
    call ∈ outstanding j := by
  obtain ⟨v, hv, -, hcall⟩ := h.underway_iff.mp reads
  exact h.mem_outstanding.mpr ⟨v, hv, hcall⟩

/-- Whose read ends reads. -/
theorem Turn.of_ended (t : Turn d e log d') (h : Seated j d) {now : Instant}
    {result : Except Failure String} (ended : .ended call now result ∈ log) :
    call ∈ underway j ∧ (∃ lookup, .arrived call lookup now ∈ j) ∧ Source d call e result ∧
      ∃ r, .given call (.result r) ∈ log := by
  cases t with
  | reads visits reading source closed finished tally reuses =>
      have he := (List.mem_cons.mp ended).resolve_right (by simp)
      cases he
      have hv := visits ▸ List.mem_cons_self
      exact ⟨h.underway_iff.mpr ⟨_, hv, reading, rfl⟩, ⟨_, h.arrived_mem hv⟩, source, _,
        List.mem_cons_of_mem _ (List.mem_singleton.mpr rfl)⟩
  | _ => simp at ended

theorem Seated.listens (h : Seated j d) (reads : call ∈ underway j)
    (result : Except ReadFailure String) :
    ∃ now, .ended call now (result.mapError .assertion) ∈ d.record (.readDone call result) := by
  obtain ⟨v, hv, reading, rfl⟩ := h.underway_iff.mp reads
  have hreading := h.isReading_of_mem hv reading
  obtain ⟨u, rest, visits, hcall, -⟩ := AssertionCache.isReading_iff.mp hreading
  refine ⟨u.now, ?_⟩
  rw [record, if_pos hreading, readEntries, visits]
  simp

/-- A call begins to read at its turn, or is given an answer. -/
theorem record_proceed (turn : d.cache.isTurn call = true) :
    d.record (.proceed call) = [.begun call] ∨
      ∃ answer, d.record (.proceed call) = [.given call answer] := by
  obtain ⟨v, rest, visits, rfl, waiting⟩ := AssertionCache.isTurn_iff.mp turn
  rw [record, if_pos turn]
  by_cases peeks : v.lookup = .peek
  · rw [AssertionCache.proceed_of_peek visits waiting peeks]
    exact .inr ⟨_, rfl⟩
  · rcases AssertionCache.proceed_cases visits waiting peeks with h | ⟨a, -, -, h⟩
    · rw [h]
      exact .inl rfl
    · rw [h]
      exact .inr ⟨_, rfl⟩

/-- A forced call begins to read at its turn. -/
theorem Seated.forces (h : Seated j d) {now : Instant} (arrived : .arrived call .forced now ∈ j)
    (turn : d.cache.isTurn call = true) : d.record (.proceed call) = [.begun call] := by
  obtain ⟨v, rest, visits, rfl, waiting⟩ := AssertionCache.isTurn_iff.mp turn
  have hv : v ∈ d.cache.visits := by simp [visits]
  have forced := (h.of_arrived hv arrived).1.symm
  rw [record, if_pos turn]
  rcases AssertionCache.proceed_cases visits waiting (by simp [forced]) with hproceed | hproceed
  · rw [hproceed]
    rfl
  · obtain ⟨a, current, -⟩ := hproceed
    cases forced.symm.trans current

/-- What is stored changes only when a read succeeds. -/
theorem Turn.untouched (t : Turn d e log d')
    (none : ∀ call now text, .ended call now (.ok text) ∉ log) :
    d'.cache.stored = d.cache.stored := by
  rw [t.stored]
  clear t
  induction log with
  | nil => rfl
  | cons x rest ih =>
      have hrest := ih fun call now text hmem => none call now text (List.mem_cons_of_mem _ hmem)
      have hx : DeskEntry.stores d.cache.stored x = d.cache.stored := by
        unfold DeskEntry.stores
        split
        · exact absurd List.mem_cons_self (none _ _ _)
        · rfl
      rw [List.foldl_cons, hx]
      exact hrest

/-! ### Every run -/

/-- The cache is one atomic register in front of its source, whatever comes in. -/
theorem register_atomic (ttl : Duration) (events : List Event) (e : Event) :
    Register ((make ttl).transcript events) ((make ttl).run events) e := by
  have seated := seated_run ttl events
  have tallied := tallied_run ttl events
  have punctual := punctual_run ttl events
  have t := turn_step ((make ttl).run events) e
  constructor
  case alone => exact seated.alone
  case reads => exact tallied.reads
  case answers => exact tallied.answers
  case comes =>
    rintro lookup now deadline rfl
    refine ⟨rfl, List.getElem?_concat_length.trans ?_⟩
    cases lookup <;> rfl
  case keeps => exact fun _ _ known => t.keeps known
  case waits => exact fun _ waits => seated.inTime punctual waits
  case cuts => exact fun _ waits overdue => seated.cuts waits overdue
  case serves => exact fun _ turn => record_proceed turn
  case ends =>
    intro call now result ended
    obtain ⟨reads, rest⟩ := t.of_ended seated ended
    exact ⟨reads, seated.inTime punctual (seated.outstanding_of_underway reads), rest⟩
  case listens => exact fun call result reads => seated.listens reads result
  case stored => exact tallied.stored
  case untouched => exact t.untouched
  case returns =>
    intro call a given
    obtain ⟨v, -, -, answered⟩ := t.answered seated given
    exact answered.stored_of_ok
  case shows =>
    intro call stored given
    obtain ⟨v, -, -, answered⟩ := t.answered seated given
    exact answered.stored_of_shown
  case forces => exact fun call now arrived turn => seated.forces arrived turn
  case forced =>
    intro call now r arrived given
    obtain ⟨v, hv, rfl, answered⟩ := t.answered seated given
    obtain ⟨forced, rfl⟩ := seated.of_arrived hv arrived
    exact answered.of_forced seated hv forced.symm
  case current =>
    intro call now f arrived given
    obtain ⟨v, hv, rfl, answered⟩ := t.answered seated given
    obtain ⟨current, rfl⟩ := seated.of_arrived hv arrived
    exact answered.of_current seated tallied hv current.symm

/-! ### A run with a read, a stale answer and two calls that are cut off -/

def afterSpan : Instant := ⟨400 * nanosPerSecond, .utc, by decide⟩

/-- A read that ends at its deadline, one that fails when what is stored is too old, and one that is
cut off, as is the call behind it. Time does not pass beyond the deadline of the last read. -/
def crowd : List Event :=
  [.arrive .current .epoch (some 5), .proceed 0, .tick 5, .readDone 0 (.ok "first"),
    .arrive .current afterSpan (some 10), .proceed 1, .readDone 1 (.error (.missing "/token")),
    .arrive .forced afterSpan (some 20), .proceed 2, .arrive .current afterSpan (some 15), .tick 15,
    .expire 3, .tick 30, .tick 20, .expire 2, .readDone 2 (.ok "late")]

example : (make (.ofSeconds 300)).transcript crowd =
    [.arrived 0 .current .epoch, .begun 0, .ended 0 .epoch (.ok "first"),
      .given 0 (.result (.ok ⟨⟨"first"⟩, .epoch⟩)),
      .arrived 1 .current afterSpan, .begun 1,
      .ended 1 afterSpan (.error (.assertion (.missing "/token"))),
      .given 1 (.result (.ok ⟨⟨"first"⟩, .epoch⟩)),
      .arrived 2 .forced afterSpan, .begun 2, .arrived 3 .current afterSpan,
      .given 3 (.result (.error (.timeout .assertionRead))),
      .ended 2 afterSpan (.error (.timeout .assertionRead)),
      .given 2 (.result (.error (.timeout .assertionRead)))] := rfl

example : ((make (.ofSeconds 300)).run crowd).cache.stored = some ⟨⟨"first"⟩, .epoch⟩ ∧
    ((make (.ofSeconds 300)).run crowd).time = 20 := ⟨rfl, rfl⟩

end AssertionDesk

end FederatedAccess
