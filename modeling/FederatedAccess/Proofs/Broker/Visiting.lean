import FederatedAccess.Proofs.Broker.Actor

/-!
# Who visits the cache

The calls that read the assertion, or wait to do so, are those that visit the cache: each of them
once, for what its round asks for, and only the first one reads (`Visiting`). Every move keeps this.
A call whose turn has come at the cache can therefore go on, and one that reads comes to the end of
its visit with whatever the source gives.
-/

namespace FederatedAccess.Broker

/-- The calls that read, or wait to do so, are those that visit the cache. -/
structure Visiting (b : Broker) : Prop where
  once : (b.cache.visits.map Visit.call).Nodup
  waits : ∀ v ∈ b.cache.visits.tail, v.reading = false
  visitors : ∀ v ∈ b.cache.visits, ∃ c ∈ b.calls, ∃ round,
    c.id = v.call ∧ c.phase = .reading round ∧ v.lookup = round.lookup
  visits : ∀ c ∈ b.calls, ∀ round, c.phase = .reading round → ∃ v ∈ b.cache.visits, v.call = c.id

namespace Visiting

variable {b b' w : Broker} {c : Call} {e : Event} {p : Phase} {i : CallId}

theorem make (config : Config) (x : Exchanger) (clock : Instant) :
    Visiting (make config x clock) :=
  ⟨List.nodup_nil, by simp [Broker.make], by simp [Broker.make], by simp [Broker.make]⟩

/-- Only the calls and the cache matter. -/
theorem of_eq (h : b.Visiting) (calls : b'.calls = b.calls) (cache : b'.cache = b.cache) :
    b'.Visiting := by
  refine ⟨cache ▸ h.once, cache ▸ h.waits, ?_, ?_⟩
  · rw [calls, cache]
    exact h.visitors
  · rw [calls, cache]
    exact h.visits

/-- A call that does not read does not visit the cache. -/
theorem absent (h : b.Visiting) (hold : b.Holding) (hc : c ∈ b.calls)
    (phase : ∀ round, c.phase ≠ .reading round) : ∀ v ∈ b.cache.visits, v.call ≠ c.id := by
  intro v hv hcall
  obtain ⟨d, hd, round, hid, hphase, -⟩ := h.visitors v hv
  rw [hold.eq_of_id hd hc (hid.trans hcall)] at hphase
  exact phase round hphase

/-- A call does not visit the cache again behind its first visit. -/
theorem absent_tail (h : b.Visiting) {v : Visit} {rest : List Visit}
    (hv : b.cache.visits = v :: rest) (hcall : v.call = i) : ∀ u ∈ rest, u.call ≠ i := by
  intro u hu he
  have honce := h.once
  rw [hv, List.map_cons, List.nodup_cons] at honce
  exact honce.1 (List.mem_map.mpr ⟨u, hu, he.trans hcall.symm⟩)

/-- The visit of a call asks for what its round asks for. -/
theorem lookup_eq (h : b.Visiting) (hold : b.Holding) (hc : c ∈ b.calls) {round : Round}
    (phase : c.phase = .reading round) {v : Visit} (hv : v ∈ b.cache.visits) (hcall : v.call = c.id) :
    v.lookup = round.lookup := by
  obtain ⟨d, hd, round', hid, hphase, hlookup⟩ := h.visitors v hv
  rw [hold.eq_of_id hd hc (hid.trans hcall), phase] at hphase
  rw [hlookup, Phase.reading.inj hphase]

/-- The source is read by the call whose visit says so. -/
theorem isReading_iff (h : b.Visiting) :
    b.cache.isReading i = true ↔ ∃ v ∈ b.cache.visits, v.call = i ∧ v.reading = true := by
  rw [AssertionCache.isReading_iff]
  constructor
  · rintro ⟨v, rest, hv, hcall, hreading⟩
    exact ⟨v, by simp [hv], hcall, hreading⟩
  · rintro ⟨v, hmem, hcall, hreading⟩
    cases hv : b.cache.visits with
    | nil => simp [hv] at hmem
    | cons u rest =>
        rw [hv, List.mem_cons] at hmem
        rcases hmem with rfl | hrest
        · exact ⟨v, rest, rfl, hcall, hreading⟩
        · have hwaits := h.waits v (by simpa [hv] using hrest)
          cases hwaits.symm.trans hreading

/-! ### Every move keeps the visits -/

/-- It is enough to look at the call that a step is about. -/
theorem of_spared {id : CallId} (h : b.Visiting) (spared : ∀ j, j ≠ id → Spared b b' j)
    (once : (b'.cache.visits.map Visit.call).Nodup)
    (waits : ∀ v ∈ b'.cache.visits.tail, v.reading = false)
    (visitors : ∀ v ∈ b'.cache.visits, v.call = id → ∃ c ∈ b'.calls, ∃ round,
      c.id = v.call ∧ c.phase = .reading round ∧ v.lookup = round.lookup)
    (visits : ∀ c ∈ b'.calls, c.id = id → ∀ round, c.phase = .reading round →
      ∃ v ∈ b'.cache.visits, v.call = c.id) : b'.Visiting := by
  refine ⟨once, waits, fun v hv => ?_, fun c hc round hphase => ?_⟩
  · by_cases hcall : v.call = id
    · exact visitors v hv hcall
    · have hs := spared v.call hcall
      obtain ⟨c, hc, round, hid, hrest⟩ := h.visitors v ((hs.visits v rfl).mp hv)
      exact ⟨c, (hs.calls c hid).mpr hc, round, hid, hrest⟩
  · by_cases hid : c.id = id
    · exact visits c hc hid round hphase
    · have hs := spared c.id hid
      obtain ⟨v, hv, hcall⟩ := h.visits c ((hs.calls c rfl).mp hc) round hphase
      exact ⟨v, (hs.visits v hcall).mpr hv, hcall⟩

/-- A call that comes to the cache visits it last. -/
theorem arrive {round : Round} {now : Instant} (h : b.Visiting)
    (spared : ∀ j, j ≠ c.id → Spared b b' j) (absent : ∀ v ∈ b.cache.visits, v.call ≠ c.id)
    (visits : b'.cache.visits = b.cache.visits ++ [⟨c.id, round.lookup, now, false⟩])
    (reads : ∃ d ∈ b'.calls, d.id = c.id ∧ d.phase = .reading round) : b'.Visiting := by
  refine h.of_spared spared ?_ ?_ ?_ ?_
  · rw [visits, List.map_append, List.nodup_append]
    refine ⟨h.once, by simp, ?_⟩
    intro i hi j hj
    obtain ⟨v, hv, rfl⟩ := List.mem_map.mp hi
    rw [List.map_singleton, List.mem_singleton] at hj
    exact hj ▸ absent v hv
  · intro v hv
    cases hb : b.cache.visits with
    | nil => simp [visits, hb] at hv
    | cons u rest =>
        rw [visits, hb, List.cons_append, List.tail_cons, List.mem_append,
          List.mem_singleton] at hv
        rcases hv with hv | rfl
        · exact h.waits v (by simpa [hb] using hv)
        · rfl
  · intro v hv hcall
    rw [visits, List.mem_append, List.mem_singleton] at hv
    rcases hv with hv | rfl
    · exact absurd hcall (absent v hv)
    · obtain ⟨d, hd, hid, hphase⟩ := reads
      exact ⟨d, hd, round, hid, hphase, rfl⟩
  · intro d hd hid _ _
    exact ⟨_, by rw [visits]; exact List.mem_append_right _ List.mem_cons_self, hid.symm⟩

/-- A call that leaves the cache, or ends elsewhere, visits it no more. -/
theorem leave (h : b.Visiting) (spared : ∀ j, j ≠ c.id → Spared b b' j)
    (visits : b'.cache.visits.Sublist b.cache.visits)
    (absent : ∀ v ∈ b'.cache.visits, v.call ≠ c.id)
    (reads : ∀ d ∈ b'.calls, d.id = c.id → ∀ round, d.phase ≠ .reading round) : b'.Visiting := by
  refine h.of_spared spared ((visits.map Visit.call).nodup h.once) ?_ ?_ ?_
  · exact fun v hv => h.waits v (visits.tail.subset hv)
  · exact fun v hv hcall => absurd hcall (absent v hv)
  · exact fun d hd hid round hphase => absurd hphase (reads d hd hid round)

theorem goes (h : b.Visiting) (hold : b.Holding) (live : b.call? c.id = some c)
    (going : Going b c e p w) : (w.enter c.id p).Visiting := by
  have hc := mem_calls_of_call? live
  have spared (j : CallId) (hj : j ≠ c.id) : Spared b (w.enter c.id p) j := by
    refine (Move.goes live going).spared ?_
    rw [going.actor?_eq]
    exact fun he => hj (Option.some.inj he).symm
  have hentered : { c with phase := p } ∈ (w.enter c.id p).calls := by
    rw [← going.frame.1] at hc
    exact List.mem_map.mpr ⟨c, hc, if_pos rfl⟩
  rcases going.visits with ⟨round, rfl, phase, hvisits⟩ | ⟨v, hv, hcall, hp⟩
  · exact h.arrive spared (h.absent hold hc phase) hvisits ⟨_, hentered, rfl, rfl⟩
  · refine h.leave spared ?_ (h.absent_tail hv hcall) ?_
    · rw [hv]
      exact List.sublist_cons_self _ _
    · intro d hd hid round hphase
      obtain rfl := hold.of_mem_enter hc going.frame.1 hd hid
      exact hp round hphase

theorem ends {r : Except Failure AccessToken} (h : b.Visiting) (hold : b.Holding)
    (live : b.call? c.id = some c) (closing : Closing b c e r w) : (w.finish c r).Visiting := by
  have hc := mem_calls_of_call? live
  have spared (j : CallId) (hj : j ≠ c.id) : Spared b (w.finish c r) j := by
    refine (Move.ends live closing).spared ?_
    rw [closing.actor?_eq]
    exact fun he => hj (Option.some.inj he).symm
  have hgone : ∀ d ∈ (w.finish c r).calls, d.id = c.id → ∀ round, d.phase ≠ .reading round :=
    fun d hd hid => absurd hid (mem_calls_finish.mp hd).2
  rcases closing.visits with ⟨-, ⟨v, hv, hcall⟩ | hvisits⟩ | ⟨phase, hcache⟩
  · refine h.leave spared ?_ (h.absent_tail hv hcall) hgone
    rw [hv]
    exact List.sublist_cons_self _ _
  · refine h.leave spared ?_ (fun v hv => ?_) hgone
    · exact hvisits ▸ List.filter_sublist
    · have hv' : v ∈ b.cache.visits.filter (·.call ≠ c.id) := hvisits ▸ hv
      simpa using (List.mem_filter.mp hv').2
  · refine h.leave spared ?_ (fun v hv => h.absent hold hc phase v ?_) hgone
    · exact (congrArg AssertionCache.visits hcache) ▸ List.Sublist.refl _
    · exact (congrArg AssertionCache.visits hcache) ▸ hv

/-- Those that wait may change places as long as nobody reads. -/
theorem overtake (h : b.Visiting) (i : CallId) :
    Visiting { b with cache := b.cache.overtake i } := by
  cases hb : b.cache.visits.head?.any Visit.reading with
  | true =>
      have hcache : b.cache.overtake i = b.cache := by simp [AssertionCache.overtake, hb]
      exact h.of_eq rfl hcache
  | false =>
      have hvisits : (b.cache.overtake i).visits =
          b.cache.visits.filter (·.call = i) ++ b.cache.visits.filter (·.call ≠ i) := by
        simp [AssertionCache.overtake, hb]
      have hperm : ((b.cache.overtake i).visits).Perm b.cache.visits := by
        rw [hvisits]
        simpa using List.filter_append_perm (fun v : Visit => decide (v.call = i)) b.cache.visits
      have hnone : ∀ v ∈ b.cache.visits, v.reading = false := by
        intro v hv
        cases hl : b.cache.visits with
        | nil => simp [hl] at hv
        | cons u rest =>
            rw [hl, List.mem_cons] at hv
            rcases hv with rfl | hrest
            · simpa [hl] using hb
            · exact h.waits v (by simpa [hl] using hrest)
      refine ⟨(hperm.map Visit.call).nodup_iff.mpr h.once, ?_, ?_, ?_⟩
      · exact fun v hv => hnone v (hperm.mem_iff.mp (List.mem_of_mem_tail hv))
      · exact fun v hv => h.visitors v (hperm.mem_iff.mp hv)
      · intro c hc round hphase
        obtain ⟨v, hv, hcall⟩ := h.visits c hc round hphase
        exact ⟨v, hperm.mem_iff.mpr hv, hcall⟩

/-- Every move keeps calls and visits in agreement. -/
theorem move (h : b.Visiting) (hold : b.Holding) (m : Move b e b') : b'.Visiting := by
  cases m with
  | idle => exact h
  | @refuses scope deadline =>
      have hl := logged_refused b scope deadline (.error Exchanger.noScope)
      exact h.of_eq hl.calls (by rw [cache_report, cache_admitCall])
  | @serves scope deadline t =>
      have hl := logged_served b scope deadline t
      exact h.of_eq hl.calls (by rw [cache_report, cache_recordHit, cache_admitCall])
  | @queues scope deadline =>
      refine ⟨h.once, h.waits, fun v hv => ?_, fun c hc round hphase => ?_⟩
      · obtain ⟨c, hc, hrest⟩ := h.visitors v hv
        exact ⟨c, List.mem_append_left _ hc, hrest⟩
      · rcases List.mem_append.mp hc with hc | hc
        · exact h.visits c hc round hphase
        · rw [List.mem_singleton.mp hc] at hphase
          cases hphase
  | @reads c round cache live phase turn served =>
      obtain ⟨v, rest, hv, -, rfl⟩ := AssertionCache.of_proceed_eq_begins served
      refine ⟨?_, ?_, fun u hu => ?_, fun d hd round' hphase => ?_⟩
      · have honce := h.once
        rw [hv] at honce
        exact honce
      · have hwaits := h.waits
        rw [hv] at hwaits
        exact hwaits
      · rcases List.mem_cons.mp hu with rfl | hu
        · exact h.visitors v (by simp [hv])
        · exact h.visitors u (by simp [hv, hu])
      · obtain ⟨u, hu, hcall⟩ := h.visits d hd round' hphase
        rw [hv, List.mem_cons] at hu
        rcases hu with rfl | hu
        · exact ⟨_, List.mem_cons_self, hcall⟩
        · exact ⟨u, List.mem_cons_of_mem _ hu, hcall⟩
  | goes live going => exact h.goes hold live going
  | ends live closing => exact h.ends hold live closing
  | @cancels c live =>
      refine h.leave (c := c) (fun j hj => ?_) List.filter_sublist (fun v hv => ?_) fun d hd hid => ?_
      · exact (Move.cancels live).spared fun he => hj (Option.some.inj he).symm
      · simpa using (List.mem_filter.mp hv).2
      · have hne : d.id ≠ c.id := by simpa using (List.mem_filter.mp hd).2
        exact absurd hid hne
  | overtakes => exact h.of_eq rfl rfl
  | overtakesVisit => exact h.overtake _
  | invalidates => exact h.of_eq rfl rfl
  | purges => exact h.of_eq rfl rfl
  | sets => exact h.of_eq rfl rfl
  | ticks => exact h.of_eq rfl rfl

end Visiting

/-- A step that spares a call does not change whether the call reads. -/
theorem Spared.isReading_eq {b b' : Broker} {i : CallId} (s : Spared b b' i) (h : b.Visiting)
    (h' : b'.Visiting) : b'.cache.isReading i = b.cache.isReading i := by
  rw [Bool.eq_iff_iff, h.isReading_iff, h'.isReading_iff]
  constructor
  · rintro ⟨v, hv, hcall, hreading⟩
    exact ⟨v, (s.visits v hcall).mp hv, hcall, hreading⟩
  · rintro ⟨v, hv, hcall, hreading⟩
    exact ⟨v, (s.visits v hcall).mpr hv, hcall, hreading⟩

end FederatedAccess.Broker
