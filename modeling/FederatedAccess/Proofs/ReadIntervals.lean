import FederatedAccess.Proofs.Desk.Register

/-!
# How often the source is read

When the calls to the cache arrive with instants that do not go back and are served in order of
arrival, what is stored is never replaced by something older, and a call that came because of age
reads only when the stored assertion is as old as the span of its use. So its read comes at least
that span after every read that succeeded before.
-/

namespace FederatedAccess

/-- The instant with which a call comes that asks for an assertion. -/
def DeskEntry.asked? : DeskEntry → Option Instant
  | .arrived _ .peek _ => none
  | .arrived _ _ now => some now
  | _ => none

namespace AssertionCache

theorem ttl_beginRead (c : AssertionCache) : c.beginRead.ttl = c.ttl := by
  unfold beginRead
  split <;> rfl

theorem ttl_proceed (c : AssertionCache) : c.proceed.1.ttl = c.ttl := by
  unfold proceed
  split
  · rfl
  · split
    · rfl
    · split
      · rfl
      · exact c.ttl_beginRead
      · split
        · rfl
        · exact c.ttl_beginRead

theorem ttl_finish (c : AssertionCache) (result : Except Failure String) :
    (c.finish result).1.ttl = c.ttl := by
  unfold finish
  split
  · rfl
  · split
    · split
      · rfl
      · split <;> rfl
    · rfl

end AssertionCache

namespace AssertionDesk

/-- The instant with which a call comes that asks for an assertion. -/
def Event.asked? : Event → Option Instant
  | .arrive .peek _ _ => none
  | .arrive _ now _ => some now
  | _ => none

/-- Calls are served in order of arrival: none goes ahead of the others. -/
def Event.KeepsOrder (e : Event) : Prop := ∀ call, e ≠ .overtake call

/-- What a desk, the transcript so far and the next event say of how often the source is read. -/
structure Paced (ttl : Duration) (j : List DeskEntry) (d : AssertionDesk) (e : Event) : Prop where
  /-- What is stored is replaced only by what was read later. -/
  later : ∀ a, d.cache.stored = some a →
    ∃ b, (d.step e).cache.stored = some b ∧ a.readAt ≤ b.readAt
  /-- A call that came because of age begins to read only when what is stored has reached the age. -/
  begins : ∀ call now, .arrived call .current now ∈ j → .begun call ∈ d.record e →
    d.cache.stored = none ∨ ∃ a, d.cache.stored = some a ∧ ttl ≤ a.age now
  /-- When it reads with success, all reads that succeeded before lie back by the span at least. -/
  apart : ∀ call now text, .arrived call .current now ∈ j → .ended call now (.ok text) ∈ d.record e →
    ∀ other earlier read, .ended other earlier (.ok read) ∈ j → ttl ≤ now.since earlier
  /-- It does not read after another call has read with success less than the span before. -/
  spared : ∀ call now, .arrived call .current now ∈ j →
    ∀ other earlier read, .ended other earlier (.ok read) ∈ j → now.since earlier < ttl →
      .begun call ∉ d.record e

variable {ttl : Duration} {j log : List DeskEntry} {d d' : AssertionDesk} {e : Event}

theorem ttl_follow (d : AssertionDesk) (call : CallId) (p : AssertionCache × AssertionCache.Progress) :
    (d.follow call p).cache.ttl = p.1.ttl := by
  obtain ⟨cache, progress⟩ := p
  cases progress <;> rfl

theorem ttl_endRead (d : AssertionDesk) (call : CallId) (result : Except Failure String) :
    (d.endRead call result).cache.ttl = d.cache.ttl :=
  (ttl_follow _ _ _).trans (d.cache.ttl_finish result)

/-- The span of use is what it was. -/
theorem ttl_step (d : AssertionDesk) (e : Event) : (d.step e).cache.ttl = d.cache.ttl := by
  cases e with
  | arrive | cancel => rfl
  | tick time =>
      simp only [step, tick]
      split <;> rfl
  | proceed call =>
      simp only [step, proceed]
      split
      · exact (ttl_follow _ _ _).trans d.cache.ttl_proceed
      · rfl
  | readDone call result =>
      simp only [step, readDone]
      split
      · exact d.ttl_endRead call _
      · rfl
  | expire call =>
      simp only [step, expire]
      split
      · split
        · exact d.ttl_endRead call _
        · split <;> rfl
      · rfl
  | overtake call =>
      simp only [step, overtake, AssertionCache.overtake]
      split <;> rfl

/-! ### Arrivals -/

theorem asked_handed (call : CallId) (p : AssertionCache × AssertionCache.Progress) :
    (handed call p).filterMap DeskEntry.asked? = [] := by
  obtain ⟨cache, progress⟩ := p
  cases progress <;> rfl

theorem asked_readEntries (d : AssertionDesk) (call : CallId) (result : Except Failure String) :
    (d.readEntries call result).filterMap DeskEntry.asked? = [] := by
  rw [readEntries, List.filterMap_append, asked_handed]
  cases d.cache.visits.head? <;> rfl

/-- The transcript lists the instants of the calls as they come. -/
theorem asked_record (d : AssertionDesk) (e : Event) :
    (d.record e).filterMap DeskEntry.asked? = e.asked?.toList := by
  cases e with
  | arrive lookup now deadline => cases lookup <;> rfl
  | overtake | tick => rfl
  | proceed call =>
      simp only [record]
      split
      · exact asked_handed call _
      · rfl
  | readDone call result =>
      simp only [record]
      split
      · exact d.asked_readEntries call _
      · rfl
  | expire call =>
      simp only [record]
      split
      · split
        · exact d.asked_readEntries call _
        · split <;> rfl
      · rfl
  | cancel call =>
      simp only [record]
      split <;> rfl

theorem asked_transcript (d : AssertionDesk) (events : List Event) :
    (d.transcript events).filterMap DeskEntry.asked? = events.filterMap Event.asked? := by
  induction events generalizing d with
  | nil => rfl
  | cons e rest ih =>
      rw [transcript, List.filterMap_append, asked_record, ih, List.filterMap_cons]
      cases e.asked? <;> rfl

theorem asked_append {t : Instant} (h : t ∈ j.filterMap DeskEntry.asked?) (log : List DeskEntry) :
    t ∈ (j ++ log).filterMap DeskEntry.asked? := by
  rw [List.filterMap_append]
  exact List.mem_append_left _ h

/-- A call that stands at the desk and asks for an assertion has come with its instant. -/
theorem Seated.asked_mem (h : Seated j d) {v : Visit} (hv : v ∈ d.cache.visits)
    (asks : v.lookup ≠ .peek) : v.now ∈ j.filterMap DeskEntry.asked? := by
  refine List.mem_filterMap.mpr ⟨_, h.arrived_mem hv, ?_⟩
  cases hl : v.lookup with
  | peek => exact absurd hl asks
  | _ => rfl

/-! ### What is stored and who reads -/

/-- The calls stand in the order of their instants, none of which lies before what is stored; and who
reads because of age found what is stored too old. -/
structure Timely (ttl : Duration) (j : List DeskEntry) (d : AssertionDesk) : Prop where
  span : d.cache.ttl = ttl
  asks : ∀ v ∈ d.cache.visits, v.reading = true → v.lookup ≠ .peek
  sorted : (d.cache.visits.filter (·.lookup ≠ .peek)).Pairwise (·.now ≤ ·.now)
  known : ∀ a, d.cache.stored = some a → a.readAt ∈ j.filterMap DeskEntry.asked?
  older : ∀ a, d.cache.stored = some a → ∀ v ∈ d.cache.visits, v.lookup ≠ .peek → a.readAt ≤ v.now
  aged : ∀ v ∈ d.cache.visits, v.reading = true → v.lookup = .current →
    ∀ a, d.cache.stored = some a → ttl ≤ a.age v.now
  /-- No read that has succeeded is later than what is stored. -/
  newest : ∀ call now text, .ended call now (.ok text) ∈ j →
    ∃ a, d.cache.stored = some a ∧ now ≤ a.readAt

namespace Timely

theorem make (ttl : Duration) : Timely ttl [] (make ttl) where
  span := rfl
  asks := by simp [AssertionDesk.make]
  sorted := .nil
  known := by simp [AssertionDesk.make]
  older := by simp [AssertionDesk.make]
  aged := by simp [AssertionDesk.make]
  newest := by simp

/-- What is stored and is too old to be used has reached the span of use. -/
theorem le_age (h : Timely ttl j d) {now : Instant} (stale : d.cache.fresh? now = none)
    {a : Assertion} (stored : d.cache.stored = some a) : ttl ≤ a.age now := by
  have hold := Option.filter_eq_none_iff.mp stale a stored
  rw [decide_eq_true_iff, Duration.lt_def, h.span, Int.not_lt] at hold
  exact hold

/-- Calls leave, and nothing is stored. -/
theorem shrinks (h : Timely ttl j d) (span : d'.cache.ttl = d.cache.ttl)
    (visits : d'.cache.visits.Sublist d.cache.visits) (stored : d'.cache.stored = d.cache.stored)
    (none : ∀ call now text, .ended call now (.ok text) ∉ log) : Timely ttl (j ++ log) d' where
  span := span.trans h.span
  asks v hv := h.asks v (visits.subset hv)
  sorted := h.sorted.sublist (visits.filter _)
  known a ha := asked_append (h.known a (stored ▸ ha)) log
  older a ha v hv := h.older a (stored ▸ ha) v (visits.subset hv)
  aged v hv reading current a ha := h.aged v (visits.subset hv) reading current a (stored ▸ ha)
  newest call now text hmem := by
    rw [stored]
    exact h.newest call now text ((List.mem_append.mp hmem).resolve_right (none call now text))

theorem arrives (h : Timely ttl j d) (seated : Seated j d) (lookup : Lookup) (now : Instant)
    (deadline : Option Nat)
    (ordered : ((j ++ [DeskEntry.arrived d.nextCall lookup now]).filterMap
      DeskEntry.asked?).Pairwise (· ≤ ·)) :
    Timely ttl (j ++ [.arrived d.nextCall lookup now]) (d.arrive lookup now deadline) := by
  have hlast (asks : lookup ≠ .peek) (t : Instant) (ht : t ∈ j.filterMap DeskEntry.asked?) :
      t ≤ now := by
    have hasked : DeskEntry.asked? (.arrived d.nextCall lookup now) = some now := by
      cases lookup with
      | peek => exact absurd rfl asks
      | _ => rfl
    rw [List.filterMap_append, List.filterMap_cons_some hasked] at ordered
    exact (List.pairwise_append.mp ordered).2.2 t ht now List.mem_cons_self
  have hvisits : (d.arrive lookup now deadline).cache.visits =
      d.cache.visits ++ [⟨d.nextCall, lookup, now, false⟩] := rfl
  constructor
  case span => exact h.span
  case asks =>
    intro v hv reading
    rw [hvisits] at hv
    rcases List.mem_append.mp hv with hv | hv
    · exact h.asks v hv reading
    · cases List.mem_singleton.mp hv
      cases reading
  case sorted =>
    rw [hvisits, List.filter_append, List.pairwise_append]
    refine ⟨h.sorted, List.Pairwise.filter _ (List.pairwise_singleton _ _), fun u hu v hv => ?_⟩
    obtain ⟨hu, huasks⟩ := List.mem_filter.mp hu
    obtain ⟨hv, hvasks⟩ := List.mem_filter.mp hv
    cases List.mem_singleton.mp hv
    exact hlast (of_decide_eq_true hvasks) u.now (seated.asked_mem hu (of_decide_eq_true huasks))
  case known => exact fun a ha => asked_append (h.known a ha) _
  case older =>
    intro a ha v hv asks
    rw [hvisits] at hv
    rcases List.mem_append.mp hv with hv | hv
    · exact h.older a ha v hv asks
    · cases List.mem_singleton.mp hv
      exact hlast asks a.readAt (h.known a ha)
  case aged =>
    intro v hv reading
    rw [hvisits] at hv
    rcases List.mem_append.mp hv with hv | hv
    · exact h.aged v hv reading
    · cases List.mem_singleton.mp hv
      cases reading
  case newest =>
    intro call t text hmem
    exact h.newest call t text ((List.mem_append.mp hmem).resolve_right (by simp))

theorem begins (h : Timely ttl j d) {v : Visit} {rest : List Visit}
    (visits : d.cache.visits = v :: rest) (asks : v.lookup ≠ .peek)
    (stale : v.lookup = .current → d.cache.fresh? v.now = none) (tally : Tally) :
    Timely ttl (j ++ [.begun v.call])
      { d with
        cache := { d.cache with visits := { v with reading := true } :: rest }
        reads := d.reads + 1
        tally } := by
  have hv : v ∈ d.cache.visits := by simp [visits]
  have hrest {u : Visit} (hu : u ∈ rest) : u ∈ d.cache.visits := by
    rw [visits]
    exact List.mem_cons_of_mem v hu
  constructor
  case span => exact h.span
  case asks =>
    intro u hu reading
    rcases List.mem_cons.mp hu with rfl | hu
    · exact asks
    · exact h.asks u (hrest hu) reading
  case sorted =>
    have hsorted := h.sorted
    rw [visits, List.filter_cons_of_pos (by simpa using asks)] at hsorted
    rw [List.filter_cons_of_pos (by simpa using asks)]
    obtain ⟨hfirst, htail⟩ := List.pairwise_cons.mp hsorted
    exact List.pairwise_cons.mpr ⟨hfirst, htail⟩
  case known => exact fun a ha => asked_append (h.known a ha) _
  case older =>
    intro a ha u hu
    rcases List.mem_cons.mp hu with rfl | hu
    · exact h.older a ha v hv
    · exact h.older a ha u (hrest hu)
  case aged =>
    intro u hu reading current a ha
    rcases List.mem_cons.mp hu with rfl | hu
    · exact h.le_age (stale current) ha
    · exact h.aged u (hrest hu) reading current a ha
  case newest =>
    intro call t text hmem
    exact h.newest call t text ((List.mem_append.mp hmem).resolve_right (by simp))

/-- What is stored by a read that succeeds is not older than what was stored. -/
theorem reads (h : Timely ttl j d) (seated : Seated j d) {v : Visit} {rest : List Visit}
    (visits : d.cache.visits = v :: rest) (reading : v.reading = true) {cache : AssertionCache}
    (span : cache.ttl = d.cache.ttl) (closed : cache.visits = rest)
    {result : Except Failure String} {r : Except Failure Assertion}
    (finished : AssertionCache.Finished d.cache v result cache.stored r) (tally : Tally)
    (reuses : List Reuse) :
    Timely ttl (j ++ [.ended v.call v.now result, .given v.call (.result r)])
      ({ d with cache, tally, reuses }.answer v.call (.result r)) := by
  have hsub : cache.visits.Sublist d.cache.visits := by
    rw [visits, closed]
    exact List.sublist_cons_self v rest
  generalize hstored : cache.stored = stored at finished
  cases finished with
  | stale | failed => exact h.shrinks span hsub hstored (by simp)
  | @read text =>
      have hv : v ∈ d.cache.visits := by simp [visits]
      have asks := h.asks v hv reading
      have idle {u : Visit} (hu : u ∈ rest) : u.reading = false :=
        seated.single u (by simpa [visits] using hu)
      have hsorted := h.sorted
      rw [visits, List.filter_cons_of_pos (by simpa using asks)] at hsorted
      obtain ⟨hfirst, htail⟩ := List.pairwise_cons.mp hsorted
      constructor
      case span => exact span.trans h.span
      case asks => exact fun u hu => h.asks u (hsub.subset hu)
      case sorted => exact closed ▸ htail
      case known =>
        intro a ha
        cases hstored.symm.trans ha
        exact asked_append (seated.asked_mem hv asks) _
      case older =>
        intro a ha u hu huasks
        cases hstored.symm.trans ha
        exact hfirst u (List.mem_filter.mpr ⟨closed ▸ hu, by simpa using huasks⟩)
      case aged =>
        intro u hu hreading
        cases (idle (closed ▸ hu)).symm.trans hreading
      case newest =>
        intro call t read hmem
        refine ⟨_, hstored, ?_⟩
        rcases List.mem_append.mp hmem with hmem | hmem
        · obtain ⟨a, ha, hle⟩ := h.newest call t read hmem
          exact Int.le_trans hle (h.older a ha v hv asks)
        · obtain ⟨-, rfl, -⟩ : call = v.call ∧ t = v.now ∧ _ := by simpa using hmem
          exact Int.le_refl _

theorem turn (h : Timely ttl j d) (seated : Seated j d) (t : Turn d e log d')
    (span : d'.cache.ttl = d.cache.ttl) (order : e.KeepsOrder)
    (ordered : ((j ++ log).filterMap DeskEntry.asked?).Pairwise (· ≤ ·)) :
    Timely ttl (j ++ log) d' := by
  cases t with
  | arrives lookup now deadline => exact h.arrives seated lookup now deadline ordered
  | begins visits waiting tally asks stale => exact h.begins visits asks stale tally
  | reads visits reading source closed finished tally reuses =>
      exact h.reads seated visits reading span closed finished tally reuses
  | overtakes call => exact absurd rfl (order call)
  | shows | fresh => exact h.shrinks span (List.tail_sublist _) rfl (by simp)
  | lapses | drops | absent => exact h.shrinks span List.filter_sublist rfl (by simp)
  | idle | ticks => exact h.shrinks span (.refl _) rfl (by simp)

end Timely

/-- Calls that arrive with instants that do not go back and are served in order keep to the order. -/
theorem timely_run (ttl : Duration) {events : List Event} (order : ∀ e ∈ events, e.KeepsOrder)
    (ordered : (events.filterMap Event.asked?).Pairwise (· ≤ ·)) :
    Timely ttl ((make ttl).transcript events) ((make ttl).run events) := by
  have hrun := run_keeps_of (Q := Event.KeepsOrder)
    (P := fun j d => Seated j d ∧
      ((j.filterMap DeskEntry.asked?).Pairwise (· ≤ ·) → Timely ttl j d))
    (fun j d e he ⟨seated, h⟩ => ⟨seated.turn (turn_step d e), fun hj => by
      have hbefore : (j.filterMap DeskEntry.asked?).Pairwise (· ≤ ·) := by
        rw [List.filterMap_append] at hj
        exact (List.pairwise_append.mp hj).1
      exact (h hbefore).turn seated (turn_step d e) (d.ttl_step e) he hj⟩)
    ⟨Seated.make ttl, fun _ => Timely.make ttl⟩ order
  refine hrun.2 ?_
  rw [List.nil_append, asked_transcript]
  exact ordered

/-! ### Intervals -/

/-- An assertion that was read earlier is older. -/
theorem age_le_since {a : Assertion} {earlier now : Instant} (h : earlier ≤ a.readAt) :
    a.age now ≤ now.since earlier := by
  rw [Instant.le_def] at h
  rw [Duration.le_def, Assertion.age]
  simp only [Instant.since]
  omega

/-- What is stored is replaced only by what was read later. -/
theorem Timely.later (h : Timely ttl j d) (t : Turn d e log d') {a : Assertion}
    (stored : d.cache.stored = some a) :
    ∃ b, d'.cache.stored = some b ∧ a.readAt ≤ b.readAt := by
  cases t with
  | @reads v rest e result cache r visits reading source closed finished tally reuses =>
      change ∃ b, cache.stored = some b ∧ a.readAt ≤ b.readAt
      have hv : v ∈ d.cache.visits := by simp [visits]
      generalize cache.stored = stored' at finished
      cases finished with
      | read => exact ⟨_, rfl, h.older a stored v hv (h.asks v hv reading)⟩
      | stale | failed => exact ⟨a, stored, Int.le_refl _⟩
  | overtakes call => exact ⟨a, (d.cache.stored_overtake call).trans stored, Int.le_refl _⟩
  | _ => exact ⟨a, stored, Int.le_refl _⟩

/-- A call that came because of age begins to read only when what is stored has reached the age. -/
theorem Timely.stale_of_begun (h : Timely ttl j d) (seated : Seated j d) (t : Turn d e log d')
    {call : CallId} {now : Instant} (arrived : .arrived call .current now ∈ j)
    (begun : .begun call ∈ log) {a : Assertion} (stored : d.cache.stored = some a) :
    ttl ≤ a.age now := by
  cases t with
  | @begins v rest visits waiting tally asks stale =>
      obtain rfl : call = v.call := by simpa using begun
      obtain ⟨current, rfl⟩ := seated.of_arrived (by simp [visits]) arrived
      exact h.le_age (stale current.symm) stored
  | _ => simp at begun

/-- Whoever reads because of age reads the span of use after every read that has succeeded. -/
theorem Timely.apart (h : Timely ttl j d) (seated : Seated j d) (t : Turn d e log d')
    {call other : CallId} {now earlier : Instant} {text read : String}
    (arrived : .arrived call .current now ∈ j) (ended : .ended call now (.ok text) ∈ log)
    (before : .ended other earlier (.ok read) ∈ j) : ttl ≤ now.since earlier := by
  cases t with
  | @reads v rest e result cache r visits reading source closed finished tally reuses =>
      obtain ⟨rfl, rfl, -⟩ : call = v.call ∧ now = v.now ∧ _ := by simpa using ended
      have hv : v ∈ d.cache.visits := by simp [visits]
      obtain ⟨current, -⟩ := seated.of_arrived hv arrived
      obtain ⟨a, stored, hle⟩ := h.newest other earlier read before
      exact Int.le_trans (h.aged v hv reading current.symm a stored) (age_le_since hle)
  | _ => simp at ended

/-- However the calls come in, are cut off or are dropped and whatever the source answers, calls that
came because of age read no more often than once in the span of use, as long as instants do not go
back from one call to the next and calls are served in order of arrival. -/
theorem reads_paced (ttl : Duration) (events : List Event) (e : Event)
    (order : ∀ x ∈ events, x.KeepsOrder)
    (ordered : (events.filterMap Event.asked?).Pairwise (· ≤ ·)) :
    Paced ttl ((make ttl).transcript events) ((make ttl).run events) e := by
  have h := timely_run ttl order ordered
  have seated := seated_run ttl events
  have t := turn_step ((make ttl).run events) e
  constructor
  case later => exact fun a stored => h.later t stored
  case begins =>
    intro call now arrived begun
    cases hstored : ((make ttl).run events).cache.stored with
    | none => exact .inl rfl
    | some a => exact .inr ⟨a, rfl, h.stale_of_begun seated t arrived begun hstored⟩
  case apart =>
    exact fun call now text arrived ended other earlier read before =>
      h.apart seated t arrived ended before
  case spared =>
    intro call now arrived other earlier read before recent begun
    obtain ⟨a, stored, hle⟩ := h.newest other earlier read before
    have hage := h.stale_of_begun seated t arrived begun stored
    have hsince : a.age now ≤ now.since earlier := age_le_since hle
    rw [Duration.le_def] at hage hsince
    rw [Duration.lt_def] at recent
    omega

/-! ### A run with two calls at first and one when the assertion has aged -/

def soonAfter : Instant := ⟨4 * nanosPerSecond, .utc, by decide⟩

def spanLater : Instant := ⟨300 * nanosPerSecond, .utc, by decide⟩

def renewal : List Event :=
  [.arrive .current .epoch none, .arrive .current soonAfter none, .proceed 0,
    .readDone 0 (.ok "first"), .proceed 1, .arrive .current spanLater none, .proceed 2]

theorem renewal_after_span :
    .ended 2 spanLater (.ok "second") ∈
        ((make (.ofSeconds 300)).run renewal).record (.readDone 2 (.ok "second")) ∧
      Duration.ofSeconds 300 ≤ spanLater.since .epoch := by
  have order : ∀ x ∈ renewal, x.KeepsOrder := by simp [renewal, Event.KeepsOrder]
  have ordered : (renewal.filterMap Event.asked?).Pairwise (· ≤ ·) := by decide
  have ended : .ended 2 spanLater (.ok "second") ∈
      ((make (.ofSeconds 300)).run renewal).record (.readDone 2 (.ok "second")) :=
    List.mem_of_getElem? (i := 0) rfl
  refine ⟨ended, ?_⟩
  exact (reads_paced (.ofSeconds 300) renewal _ order ordered).apart 2 spanLater "second"
    (List.mem_of_getElem? (i := 6) rfl) ended 0 .epoch "first" (List.mem_of_getElem? (i := 3) rfl)

end AssertionDesk

end FederatedAccess
