import FederatedAccess.Proofs.Desk.Turn

/-!
# The cache as a register

At most one call reads at a time, and what is stored is what the last read that succeeded gave. Both
can be read off the transcript (`underway`, `lastRead`), which also says which calls have not ended
(`outstanding`) and of each of them how it came and whether it reads (`Seated`). None of them waits
beyond its deadline (`Punctual`).
-/

namespace FederatedAccess

namespace DeskEntry

/-- What is stored after an entry. -/
def stores (stored : Option Assertion) : DeskEntry → Option Assertion
  | .ended _ now (.ok text) => some ⟨⟨text⟩, now⟩
  | _ => stored

/-- Who reads after an entry. -/
def shifts (reading : List CallId) : DeskEntry → List CallId
  | .begun call => reading ++ [call]
  | .ended call _ _ => reading.filter (· ≠ call)
  | .dropped call => reading.filter (· ≠ call)
  | _ => reading

/-- Who waits for an answer after an entry. -/
def awaits (waiting : List CallId) : DeskEntry → List CallId
  | .arrived call _ _ => waiting ++ [call]
  | .given call _ => waiting.filter (· ≠ call)
  | .dropped call => waiting.filter (· ≠ call)
  | _ => waiting

/-- Whether a read begins. -/
def isBegun : DeskEntry → Bool
  | .begun _ => true
  | _ => false

/-- What a call is given. -/
def given? : DeskEntry → Option (CallId × DeskAnswer)
  | .given call answer => some (call, answer)
  | _ => none

end DeskEntry

/-- What the last read that succeeded gave, with the instant its call came with. -/
def lastRead (j : List DeskEntry) : Option Assertion := j.foldl DeskEntry.stores none

/-- The calls that have begun to read and have neither come to the end of it nor been dropped. -/
def underway (j : List DeskEntry) : List CallId := j.foldl DeskEntry.shifts []

/-- The calls that have come and have neither been given an answer nor been dropped. -/
def outstanding (j : List DeskEntry) : List CallId := j.foldl DeskEntry.awaits []

/-- What a transcript says of a call. -/
def aboutOf (j : List DeskEntry) (call : CallId) : List DeskEntry := j.filter (·.call = call)

theorem lastRead_append (j log : List DeskEntry) :
    lastRead (j ++ log) = log.foldl DeskEntry.stores (lastRead j) := List.foldl_append

theorem underway_append (j log : List DeskEntry) :
    underway (j ++ log) = log.foldl DeskEntry.shifts (underway j) := List.foldl_append

theorem outstanding_append (j log : List DeskEntry) :
    outstanding (j ++ log) = log.foldl DeskEntry.awaits (outstanding j) := List.foldl_append

theorem mem_aboutOf {j : List DeskEntry} {call : CallId} {x : DeskEntry} :
    x ∈ aboutOf j call ↔ x ∈ j ∧ x.call = call := by
  rw [aboutOf, List.mem_filter, decide_eq_true_iff]

/-- Nothing is stored as long as no read has succeeded. -/
theorem lastRead_eq_none {j : List DeskEntry} (h : lastRead j = none) (call : CallId) (now : Instant)
    (text : String) : .ended call now (.ok text) ∉ j := by
  intro hmem
  obtain ⟨pre, post, rfl⟩ := List.append_of_mem hmem
  have stays (l : List DeskEntry) (a : Assertion) : (l.foldl DeskEntry.stores (some a)).isSome := by
    induction l generalizing a with
    | nil => rfl
    | cons x rest ih =>
        rw [List.foldl_cons]
        cases x with
        | ended c n result => cases result <;> exact ih _
        | _ => exact ih _
  have hsome := stays post ⟨⟨text⟩, now⟩
  rw [lastRead_append, List.foldl_cons] at h
  change post.foldl DeskEntry.stores (some ⟨⟨text⟩, now⟩) = none at h
  rw [h] at hsome
  cases hsome

theorem AssertionCache.visits_overtake_perm (c : AssertionCache) (call : CallId) :
    (c.overtake call).visits.Perm c.visits := by
  unfold overtake
  split
  · exact .refl _
  · have hperm := List.filter_append_perm (fun v : Visit => decide (v.call = call)) c.visits
    simpa using hperm

namespace AssertionDesk

/-- The calls at a desk, what waits for them, and the transcript agree. -/
structure Seated (j : List DeskEntry) (d : AssertionDesk) : Prop where
  ids : (d.cache.visits.map Visit.call).Nodup
  known : ∀ v ∈ d.cache.visits, v.call < d.nextCall
  single : ∀ v ∈ d.cache.visits.tail, v.reading = false
  waiting : (outstanding j).Perm (d.cache.visits.map Visit.call)
  fresh : ∀ x ∈ j, x.call < d.nextCall
  live : ∀ v ∈ d.cache.visits, aboutOf j v.call =
    .arrived v.call v.lookup v.now :: if v.reading then [.begun v.call] else []
  reading : underway j = (d.cache.visits.filter (·.reading)).map Visit.call

variable {j log : List DeskEntry} {d d' : AssertionDesk} {e : Event} {call : CallId} {v : Visit}
  {rest : List Visit}

theorem aboutOf_append_of_ne (call : CallId) (hlog : ∀ x ∈ log, x.call = call) {i : CallId}
    (hne : i ≠ call) :
    aboutOf (j ++ log) i = aboutOf j i := by
  have hnil : log.filter (·.call = i) = [] := by
    apply List.filter_eq_nil_iff.mpr
    intro x hx
    simp [hlog x hx, Ne.symm hne]
  rw [aboutOf, List.filter_append, hnil, List.append_nil]
  rfl

namespace Seated

theorem make (ttl : Duration) : Seated [] (make ttl) :=
  ⟨List.nodup_nil, by simp [AssertionDesk.make], by simp [AssertionDesk.make], .nil, by simp,
    by simp [AssertionDesk.make], rfl⟩

/-- Only the call that is served may read. -/
theorem isReading_of_mem (h : Seated j d) (hv : v ∈ d.cache.visits) (reading : v.reading = true) :
    d.cache.isReading v.call = true := by
  cases hvisits : d.cache.visits with
  | nil => simp [hvisits] at hv
  | cons u rest =>
      have hu : v = u := by
        rw [hvisits] at hv
        refine (List.mem_cons.mp hv).resolve_right fun hrest => ?_
        have hsingle := h.single v (by rw [hvisits]; exact hrest)
        cases reading.symm.trans hsingle
      subst hu
      exact AssertionCache.isReading_iff.mpr ⟨v, rest, hvisits, rfl, reading⟩

/-- What the transcript says of the arrival of a call is how it stands at the desk. -/
theorem of_arrived (h : Seated j d) (hv : v ∈ d.cache.visits) {lookup : Lookup} {now : Instant}
    (arrived : .arrived v.call lookup now ∈ j) : lookup = v.lookup ∧ now = v.now := by
  have habout := mem_aboutOf.mpr ⟨arrived, rfl⟩
  rw [DeskEntry.call, h.live v hv] at habout
  rcases List.mem_cons.mp habout with he | hbegun
  · cases he
    exact ⟨rfl, rfl⟩
  · split at hbegun <;> simp at hbegun

theorem arrived_mem (h : Seated j d) (hv : v ∈ d.cache.visits) :
    .arrived v.call v.lookup v.now ∈ j := by
  have habout : .arrived v.call v.lookup v.now ∈ aboutOf j v.call := by
    rw [h.live v hv]
    exact List.mem_cons_self
  exact (mem_aboutOf.mp habout).1

/-- A call that has not ended reads when it has begun to. -/
theorem begun_iff (h : Seated j d) (hv : v ∈ d.cache.visits) :
    .begun v.call ∈ j ↔ v.reading = true := by
  have habout : .begun v.call ∈ j ↔ .begun v.call ∈ aboutOf j v.call := by
    rw [mem_aboutOf]
    exact (and_iff_left rfl).symm
  rw [habout, h.live v hv]
  cases v.reading <;> simp

/-- The call that is served is the only one that its number stands for. -/
theorem filter_ne (h : Seated j d) (visits : d.cache.visits = v :: rest) :
    d.cache.visits.filter (·.call ≠ v.call) = rest := by
  have hids := h.ids
  rw [visits, List.map_cons, List.nodup_cons] at hids
  rw [visits, List.filter_cons_of_neg (by simp)]
  apply List.filter_eq_self.mpr
  intro u hu
  have hne : u.call ≠ v.call := fun he => hids.1 (he ▸ List.mem_map.mpr ⟨u, hu, rfl⟩)
  exact decide_eq_true hne

/-- The calls that stand at the desk are those that wait for an answer. -/
theorem mem_outstanding (h : Seated j d) :
    call ∈ outstanding j ↔ ∃ v ∈ d.cache.visits, v.call = call := by
  rw [h.waiting.mem_iff, List.mem_map]

/-- A call leaves the desk. -/
theorem departs (h : Seated j d)
    (visits : d'.cache.visits = d.cache.visits.filter (·.call ≠ call))
    (callers : d'.callers = d.callers)
    (waiting : log.foldl DeskEntry.awaits (outstanding j) = (outstanding j).filter (· ≠ call))
    (about : ∀ x ∈ log, x.call = call) (known : ∀ x ∈ log, x.call < d.nextCall)
    (reading : log.foldl DeskEntry.shifts (underway j) =
      (d'.cache.visits.filter (·.reading)).map Visit.call) : Seated (j ++ log) d' := by
  have hmem {u : Visit} (hu : u ∈ d'.cache.visits) : u ∈ d.cache.visits ∧ u.call ≠ call := by
    rw [visits, List.mem_filter] at hu
    exact ⟨hu.1, of_decide_eq_true hu.2⟩
  have hsub : d'.cache.visits.Sublist d.cache.visits := visits ▸ List.filter_sublist
  have next : d'.nextCall = d.nextCall := congrArg List.length callers
  refine ⟨?_, fun u hu => ?_, fun u hu => ?_, ?_, fun x hx => ?_, fun u hu => ?_, ?_⟩
  · exact h.ids.sublist (hsub.map _)
  · rw [next]
    exact h.known u (hmem hu).1
  · exact h.single u (hsub.tail.subset hu)
  · rw [outstanding_append, waiting, visits]
    have hmap := h.waiting.filter (fun i => decide (i ≠ call))
    rwa [List.filter_map] at hmap
  · rw [next]
    rcases List.mem_append.mp hx with hx | hx
    · exact h.fresh x hx
    · exact known x hx
  · rw [aboutOf_append_of_ne call about (hmem hu).2]
    exact h.live u (hmem hu).1
  · rw [underway_append]
    exact reading

/-- A call that does not read is given its answer and leaves. -/
theorem answered (h : Seated j d) {cache : AssertionCache} {answer : DeskAnswer}
    (visits : cache.visits = d.cache.visits.filter (·.call ≠ call)) (known : call < d.nextCall)
    (idle : ∀ u ∈ d.cache.visits, u.call = call → u.reading = false) :
    Seated (j ++ [.given call answer]) ({ d with cache }.answer call answer) := by
  refine h.departs visits rfl rfl (by simp [DeskEntry.call]) (by simpa [DeskEntry.call]) ?_
  change underway j = (cache.visits.filter (·.reading)).map Visit.call
  rw [h.reading, visits, List.filter_filter]
  congr 1
  apply List.filter_congr
  intro u hu
  by_cases hcall : u.call = call
  · simp [hcall, idle u hu hcall]
  · simp [hcall]

/-- Who reads when a call is taken out. -/
theorem reading_filter (h : Seated j d) (call : CallId) :
    (underway j).filter (· ≠ call) =
      ((d.cache.visits.filter (·.call ≠ call)).filter (·.reading)).map Visit.call := by
  rw [h.reading, List.filter_map, List.filter_filter, List.filter_filter]
  congr 1
  apply List.filter_congr
  intro u _
  exact Bool.and_comm _ _

theorem arrives (h : Seated j d) (lookup : Lookup) (now : Instant) (deadline : Option Nat) :
    Seated (j ++ [.arrived d.nextCall lookup now]) (d.arrive lookup now deadline) := by
  have old {u : Visit} (hu : u ∈ d.cache.visits) : u.call ≠ d.nextCall :=
    Nat.ne_of_lt (h.known u hu)
  have hmem {u : Visit} : u ∈ (d.arrive lookup now deadline).cache.visits ↔
      u ∈ d.cache.visits ∨ u = ⟨d.nextCall, lookup, now, false⟩ := by
    rw [← List.mem_singleton, ← List.mem_append]
    rfl
  have next : (d.arrive lookup now deadline).nextCall = d.nextCall + 1 := List.length_append
  refine ⟨?_, fun u hu => ?_, fun u hu => ?_, ?_, fun x hx => ?_, fun u hu => ?_, ?_⟩
  · change ((d.cache.visits ++ [_]).map Visit.call).Nodup
    rw [List.map_append, List.nodup_append]
    refine ⟨h.ids, by simp, fun i hi k hk => ?_⟩
    obtain ⟨u, hu, rfl⟩ := List.mem_map.mp hi
    obtain rfl : k = d.nextCall := by simpa using hk
    exact old hu
  · rw [next]
    rcases hmem.mp hu with hu | rfl
    · exact Nat.lt_succ_of_lt (h.known u hu)
    · exact Nat.lt_succ_self _
  · cases hvisits : d.cache.visits with
    | nil => simp [arrive, AssertionCache.arrive, hvisits] at hu
    | cons w rest =>
        have htail : u ∈ rest ++ [⟨d.nextCall, lookup, now, false⟩] := by
          simpa [arrive, AssertionCache.arrive, hvisits] using hu
        rcases List.mem_append.mp htail with hu | hu
        · exact h.single u (by rw [hvisits]; exact hu)
        · rw [List.mem_singleton.mp hu]
  · rw [outstanding_append]
    change (outstanding j ++ [d.nextCall]).Perm ((d.cache.visits ++ [_]).map Visit.call)
    rw [List.map_append]
    exact h.waiting.append_right _
  · rw [next]
    rcases List.mem_append.mp hx with hx | hx
    · exact Nat.lt_succ_of_lt (h.fresh x hx)
    · rw [List.mem_singleton.mp hx]
      exact Nat.lt_succ_self _
  · rcases hmem.mp hu with hu | rfl
    · rw [aboutOf_append_of_ne d.nextCall (by simp [DeskEntry.call]) (old hu)]
      exact h.live u hu
    · have hnone : aboutOf j d.nextCall = [] := by
        apply List.filter_eq_nil_iff.mpr
        intro x hx
        simp [Nat.ne_of_lt (h.fresh x hx)]
      rw [aboutOf, List.filter_append]
      change aboutOf j d.nextCall ++ _ = _
      rw [hnone]
      simp [DeskEntry.call]
  · rw [underway_append]
    have hvisits : (d.arrive lookup now deadline).cache.visits.filter (·.reading) =
        d.cache.visits.filter (·.reading) := by
      change (d.cache.visits ++ [_]).filter (fun u : Visit => u.reading) = _
      simp
    rw [hvisits]
    exact h.reading

/-- Nobody reads while the call that is served does not. -/
theorem none_reading (h : Seated j d) (visits : d.cache.visits = v :: rest)
    (waiting : v.reading = false) : ∀ u ∈ d.cache.visits, u.reading = false := by
  intro u hu
  rw [visits] at hu
  rcases List.mem_cons.mp hu with rfl | hu
  · exact waiting
  · exact h.single u (by rw [visits]; exact hu)

theorem begins (h : Seated j d) (visits : d.cache.visits = v :: rest) (waiting : v.reading = false)
    (tally : Tally) :
    Seated (j ++ [.begun v.call])
      { d with
        cache := { d.cache with visits := { v with reading := true } :: rest }
        reads := d.reads + 1
        tally } := by
  have hv : v ∈ d.cache.visits := by simp [visits]
  have none := h.none_reading visits waiting
  have hids := h.ids
  rw [visits] at hids
  refine ⟨hids, fun u hu => ?_, fun u hu => ?_, ?_, fun x hx => ?_, fun u hu => ?_, ?_⟩
  · rcases List.mem_cons.mp hu with rfl | hu
    · exact h.known v hv
    · exact h.known u (by rw [visits]; exact List.mem_cons_of_mem _ hu)
  · exact h.single u (by rw [visits]; exact hu)
  · have hwaiting := h.waiting
    rw [visits] at hwaiting
    rw [outstanding_append]
    exact hwaiting
  · rcases List.mem_append.mp hx with hx | hx
    · exact h.fresh x hx
    · rw [List.mem_singleton.mp hx]
      exact h.known v hv
  · rcases List.mem_cons.mp hu with rfl | hu
    · have hlive := h.live v hv
      rw [waiting] at hlive
      rw [aboutOf, List.filter_append]
      change aboutOf j v.call ++ _ = _
      rw [hlive]
      simp [DeskEntry.call]
    · have hne : u.call ≠ v.call := by
        rw [List.map_cons, List.nodup_cons] at hids
        exact fun he => hids.1 (he ▸ List.mem_map.mpr ⟨u, hu, rfl⟩)
      rw [aboutOf_append_of_ne v.call (by simp [DeskEntry.call]) hne]
      exact h.live u (by rw [visits]; exact List.mem_cons_of_mem _ hu)
  · have hbefore : d.cache.visits.filter (·.reading) = [] :=
      List.filter_eq_nil_iff.mpr fun u hu => by simp [none u hu]
    have hrest : rest.filter (·.reading) = [] :=
      List.filter_eq_nil_iff.mpr fun u hu => by
        simp [none u (by rw [visits]; exact List.mem_cons_of_mem _ hu)]
    rw [underway_append, h.reading, hbefore]
    simp [DeskEntry.shifts, hrest]

theorem overtakes (h : Seated j d) (call : CallId) : Seated j (d.overtake call) := by
  have hperm := d.cache.visits_overtake_perm call
  have hmem {u : Visit} : u ∈ (d.overtake call).cache.visits ↔ u ∈ d.cache.visits := hperm.mem_iff
  cases hreading : d.cache.visits.head?.any Visit.reading with
  | true =>
      have hsame : d.cache.overtake call = d.cache := by
        simp [AssertionCache.overtake, hreading]
      have hdesk : d.overtake call = d := by rw [AssertionDesk.overtake, hsame]
      rw [hdesk]
      exact h
  | false =>
      have none : ∀ u ∈ d.cache.visits, u.reading = false := by
        cases hvisits : d.cache.visits with
        | nil => simp
        | cons v rest =>
            rw [hvisits] at hreading
            exact hvisits ▸ h.none_reading hvisits hreading
      refine ⟨?_, fun u hu => ?_, fun u hu => ?_, ?_, h.fresh, fun u hu => ?_, ?_⟩
      · exact (hperm.map _).nodup_iff.mpr h.ids
      · exact h.known u (hmem.mp hu)
      · exact none u (hmem.mp (List.mem_of_mem_tail hu))
      · exact h.waiting.trans (hperm.map _).symm
      · exact h.live u (hmem.mp hu)
      · have hbefore : d.cache.visits.filter (·.reading) = [] :=
          List.filter_eq_nil_iff.mpr fun u hu => by simp [none u hu]
        have hafter : (d.overtake call).cache.visits.filter (·.reading) = [] :=
          List.filter_eq_nil_iff.mpr fun u hu => by simp [none u (hmem.mp hu)]
        rw [h.reading, hbefore, hafter]

/-- The call that is served is given an answer without a read. -/
theorem shown (h : Seated j d) (visits : d.cache.visits = v :: rest) (waiting : v.reading = false)
    (answer : DeskAnswer) :
    Seated (j ++ [.given v.call answer])
      ({ d with cache := d.cache.close }.answer v.call answer) := by
  apply h.answered
  · rw [h.filter_ne visits, AssertionCache.close, visits]
    rfl
  · exact h.known v (by simp [visits])
  · exact fun u hu _ => h.none_reading visits waiting u hu

/-- The call that reads comes to the end of it and is given its answer. -/
theorem finishes (h : Seated j d) (visits : d.cache.visits = v :: rest) {cache : AssertionCache}
    (closed : cache.visits = rest) (result : Except Failure String) (answer : DeskAnswer)
    (tally : Tally) (reuses : List Reuse) :
    Seated (j ++ [.ended v.call v.now result, .given v.call answer])
      ({ d with cache, tally, reuses }.answer v.call answer) := by
  have hv : v.call < d.nextCall := h.known v (by simp [visits])
  have hrest : cache.visits = d.cache.visits.filter (·.call ≠ v.call) := by
    rw [h.filter_ne visits, closed]
  refine h.departs hrest rfl rfl (by simp [DeskEntry.call]) (by simpa [DeskEntry.call]) ?_
  change (underway j).filter (· ≠ v.call) = (cache.visits.filter (·.reading)).map Visit.call
  rw [hrest]
  exact h.reading_filter v.call

theorem not_reading (h : Seated j d) (hv : v ∈ d.cache.visits)
    (waiting : d.cache.isReading v.call = false) : v.reading = false := by
  apply Bool.eq_false_iff.mpr
  intro reading
  have hreading := h.isReading_of_mem hv reading
  rw [waiting] at hreading
  cases hreading

/-- A call that only waits is cut off at its deadline. -/
theorem lapses (h : Seated j d) (hv : v ∈ d.cache.visits)
    (waiting : d.cache.isReading v.call = false) (answer : DeskAnswer) :
    Seated (j ++ [.given v.call answer])
      ({ d with cache := d.cache.leave v.call }.answer v.call answer) :=
  h.answered rfl (h.known v hv) fun _ hu he => h.not_reading hu (he ▸ waiting)

theorem drops (h : Seated j d) (hv : v ∈ d.cache.visits) :
    Seated (j ++ [.dropped v.call]) (d.cancel v.call) :=
  h.departs rfl rfl rfl (by simp [DeskEntry.call]) (by simpa [DeskEntry.call] using h.known v hv)
    (h.reading_filter v.call)

/-- Taking out a call that is not there changes nothing that matters. -/
theorem absent (h : Seated j d) (none : ∀ v ∈ d.cache.visits, v.call ≠ call) :
    Seated j (d.cancel call) := by
  have hall : d.cache.visits.filter (·.call ≠ call) = d.cache.visits :=
    List.filter_eq_self.mpr fun v hv => decide_eq_true (none v hv)
  have hreading : underway j =
      ((d.cache.visits.filter (·.call ≠ call)).filter (·.reading)).map Visit.call := by
    rw [hall]
    exact h.reading
  have hwaiting : outstanding j = (outstanding j).filter (· ≠ call) := by
    refine (List.filter_eq_self.mpr fun i hi => decide_eq_true ?_).symm
    obtain ⟨v, hv, rfl⟩ := h.mem_outstanding.mp hi
    exact none v hv
  have hdeparts : Seated (j ++ []) (d.cancel call) :=
    h.departs rfl rfl hwaiting (by simp) (by simp) hreading
  rwa [List.append_nil] at hdeparts

theorem turn (h : Seated j d) (t : Turn d e log d') : Seated (j ++ log) d' := by
  cases t with
  | idle => rwa [List.append_nil]
  | arrives => exact h.arrives ..
  | begins visits waiting tally asks stale => exact h.begins visits waiting tally
  | shows visits waiting peeks => exact h.shown visits waiting _
  | fresh visits waiting current fresh => exact h.shown visits waiting _
  | reads visits reading source closed finished tally reuses =>
      exact h.finishes visits closed _ _ tally reuses
  | lapses live due waiting turn => exact h.lapses live waiting _
  | drops live => exact h.drops live
  | absent none => simpa using h.absent none
  | overtakes call => simpa using h.overtakes call
  | ticks => simpa using ⟨h.ids, h.known, h.single, h.waiting, h.fresh, h.live, h.reading⟩

end Seated

/-- No call waits beyond its deadline. -/
def Punctual (d : AssertionDesk) : Prop :=
  ∀ v ∈ d.cache.visits, ∀ t ∈ d.lastWait v, d.time ≤ t

namespace Punctual

theorem make (ttl : Duration) : (make ttl).Punctual := by
  simp [Punctual, AssertionDesk.make]

/-- No call comes, and no time passes. -/
theorem stays (h : d.Punctual) (callers : d'.callers = d.callers) (time : d'.time = d.time)
    (visits : ∀ v ∈ d'.cache.visits, ∃ u ∈ d.cache.visits, u.call = v.call) : d'.Punctual := by
  intro v hv t ht
  obtain ⟨u, hu, hcall⟩ := visits v hv
  rw [lastWait, callers, ← hcall] at ht
  rw [time]
  exact h u hu t ht

/-- A call that comes waits no longer than until its deadline or, if that has passed, not at all. -/
theorem arrives (h : d.Punctual) (seated : Seated j d) (lookup : Lookup) (now : Instant)
    (deadline : Option Nat) : (d.arrive lookup now deadline).Punctual := by
  intro v hv t ht
  change t ∈ (d.callers ++ [_])[v.call]?.bind Caller.lastWait at ht
  rcases List.mem_append.mp hv with hv | hv
  · rw [List.getElem?_append_left (seated.known v hv)] at ht
    exact h v hv t ht
  · rw [List.mem_singleton.mp hv, nextCall, List.getElem?_concat_length] at ht
    obtain ⟨limit, -, rfl⟩ := Option.map_eq_some_iff.mp ht
    exact Nat.le_max_right _ _

theorem turn (h : d.Punctual) (seated : Seated j d) (t : Turn d e log d') : d'.Punctual := by
  cases t with
  | idle => exact h
  | arrives lookup now deadline => exact h.arrives seated lookup now deadline
  | @begins v rest visits =>
      refine h.stays rfl rfl fun u hu => ?_
      rcases List.mem_cons.mp hu with rfl | hu
      · exact ⟨v, by simp [visits], rfl⟩
      · exact ⟨u, by simp [visits, hu], rfl⟩
  | shows | fresh => exact h.stays rfl rfl fun u hu => ⟨u, List.mem_of_mem_tail hu, rfl⟩
  | reads visits reading source closed =>
      refine h.stays rfl rfl fun u hu => ⟨u, ?_, rfl⟩
      rw [visits, ← closed]
      exact List.mem_cons_of_mem _ hu
  | lapses | drops | absent =>
      exact h.stays rfl rfl fun u hu => ⟨u, (List.mem_filter.mp hu).1, rfl⟩
  | overtakes call =>
      exact h.stays rfl rfl fun u hu => ⟨u, (d.cache.visits_overtake_perm call).mem_iff.mp hu, rfl⟩
  | ticks time later waits => exact waits

end Punctual

/-- What a desk keeps is what its transcript says. -/
structure Tallied (j : List DeskEntry) (d : AssertionDesk) : Prop where
  stored : d.cache.stored = lastRead j
  answers : d.answers = j.filterMap DeskEntry.given?
  reads : d.reads = j.countP DeskEntry.isBegun

/-- The end of a read stores what is recorded of it. -/
theorem stored_of_finished {c : AssertionCache} {result : Except Failure String}
    {stored : Option Assertion} {r : Except Failure Assertion}
    (h : AssertionCache.Finished c v result stored r) :
    stored = DeskEntry.stores c.stored (.ended v.call v.now result) := by
  cases h <;> rfl

/-- What a turn stores is what is recorded of it. -/
theorem Turn.stored (t : Turn d e log d') :
    d'.cache.stored = log.foldl DeskEntry.stores d.cache.stored := by
  cases t with
  | reads visits reading source closed finished tally reuses => exact stored_of_finished finished
  | overtakes call => exact d.cache.stored_overtake call
  | _ => rfl

namespace Tallied

theorem make (ttl : Duration) : Tallied [] (make ttl) := ⟨rfl, rfl, rfl⟩

theorem turn (h : Tallied j d) (t : Turn d e log d') : Tallied (j ++ log) d' := by
  constructor
  · rw [lastRead_append, ← h.stored]
    exact t.stored
  · rw [List.filterMap_append, ← h.answers]
    cases t with
    | shows | fresh | reads | lapses => rfl
    | _ => exact (List.append_nil _).symm
  · rw [List.countP_append, ← h.reads]
    cases t <;> rfl

end Tallied

theorem seated_run (ttl : Duration) (events : List Event) :
    Seated ((make ttl).transcript events) ((make ttl).run events) :=
  run_keeps (fun _ _ _ _ _ h t => h.turn t) (Seated.make ttl) events

theorem punctual_run (ttl : Duration) (events : List Event) : ((make ttl).run events).Punctual :=
  (run_keeps (P := fun j d => Seated j d ∧ d.Punctual)
    (fun _ _ _ _ _ ⟨seated, h⟩ t => ⟨seated.turn t, h.turn seated t⟩)
    ⟨Seated.make ttl, Punctual.make ttl⟩ events).2

theorem tallied_run (ttl : Duration) (events : List Event) :
    Tallied ((make ttl).transcript events) ((make ttl).run events) :=
  run_keeps (fun _ _ _ _ _ h t => h.turn t) (Tallied.make ttl) events

end AssertionDesk

end FederatedAccess
