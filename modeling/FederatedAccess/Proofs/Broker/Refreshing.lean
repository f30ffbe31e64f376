import FederatedAccess.Proofs.Broker.Visiting

/-!
# The course of a refresh

A call that has boarded consults the cache and exchanges what it is given, once or, if the assertion
is refused the first time, once more with an assertion that is read anew. What it logs on the way is
described piece by piece: a visit to the cache (`Consulted`), an exchange (`Exchanged`), and the
courses that are made of them (`Refreshing`). Where a call waits, it has logged the start of such a
course (`Underway`), to which every step of the call adds.
-/

namespace FederatedAccess

namespace Occurrence

/-- Whether the source begins to be read. -/
def isRead : Occurrence → Bool
  | .readBegun => true
  | _ => false

/-- Whether an exchange begins. -/
def isExchange : Occurrence → Bool
  | .span .exchange _ => true
  | _ => false

end Occurrence

namespace Broker

/-- What a call logs while it consults the cache, and what it is given: an assertion that is not too
old, one that it reads, an old one in place of a read that failed, or a failure. -/
inductive Consulted : Round → List Occurrence → Except Failure Assertion → Prop
  | fresh {a} : Consulted .first [] (.ok a)
  | unserved {round} : Consulted round [] (.error (.timeout .assertionRead))
  | read {round text now} :
      Consulted round [.readBegun, .readEnded (.ok text)] (.ok ⟨⟨text⟩, now⟩)
  | stale {f age a} : Consulted .first [.readBegun, .readEnded (.error f), .stale f age] (.ok a)
  | failed {round f} : Consulted round [.readBegun, .readEnded (.error f)] (.error f)

/-- What a call logs about a reply and what the classifier is asked about it. -/
def heard (reply : Reply) (asked : Option Classification.Context) : List Occurrence :=
  .answered reply :: asked.toList.map .asked

/-- What a call logs while it exchanges an assertion, and the result. -/
inductive Exchanged (x : Exchanger) (scope : ScopeSet) (a : Assertion) :
    List Occurrence → Except Failure AccessToken → Prop
  | unsent {f} (prepared : x.prepare a.value scope = .error f) :
      Exchanged x scope a [.span .exchange scope.key, .exchanged (.error f)] (.error f)
  | cutOff {request} (prepared : x.prepare a.value scope = .ok request) :
      Exchanged x scope a [.span .exchange scope.key, .sent a.value scope request, .cutOff]
        (.error (.timeout .exchange))
  | answered {request requestedAt reply judgement r}
      (prepared : x.prepare a.value scope = .ok request)
      (judged : x.conclude scope requestedAt reply = judgement) (result : judgement.result = r) :
      Exchanged x scope a
        ([.span .exchange scope.key, .sent a.value scope request] ++
          (heard reply judgement.asked ++ [.exchanged r])) r

/-- The courses of a refresh, with their results. -/
inductive Refreshing (x : Exchanger) (scope : ScopeSet) :
    List Occurrence → Except Failure AccessToken → Prop
  | unread {log f} (none : Consulted .first log (.error f)) : Refreshing x scope log (.error f)
  | once {fetched a exchanged r} (given : Consulted .first fetched (.ok a))
      (exchange : Exchanged x scope a exchanged r)
      (final : ∀ f, r = .error f → f.isInvalidAssertion = false) :
      Refreshing x scope (fetched ++ exchanged) r
  | unreread {fetched a exchanged f reread g} (given : Consulted .first fetched (.ok a))
      (exchange : Exchanged x scope a exchanged (.error f)) (refused : f.isInvalidAssertion = true)
      (none : Consulted .second reread (.error g)) :
      Refreshing x scope (fetched ++ exchanged ++ .rejected f :: reread) (.error g)
  | twice {fetched a exchanged f text now again r} (given : Consulted .first fetched (.ok a))
      (exchange : Exchanged x scope a exchanged (.error f)) (refused : f.isInvalidAssertion = true)
      (exchange' : Exchanged x scope ⟨⟨text⟩, now⟩ again r) :
      Refreshing x scope
        (fetched ++ exchanged ++ .rejected f :: ([.readBegun, .readEnded (.ok text)] ++ again)) r

/-- What a call has logged since it boarded, when a round begins. -/
inductive Prior (x : Exchanger) (scope : ScopeSet) : Round → List Occurrence → Prop
  | first : Prior x scope .first []
  | second {fetched a exchanged f} (given : Consulted .first fetched (.ok a))
      (exchange : Exchanged x scope a exchanged (.error f))
      (refused : f.isInvalidAssertion = true) :
      Prior x scope .second (fetched ++ exchanged ++ [.rejected f])

/-- What a call has logged since it boarded, where it waits. -/
inductive Underway (x : Exchanger) (c : Call) (reading : Bool) : List Occurrence → Prop
  | waits {round log} (phase : c.phase = .reading round) (outside : reading = false)
      (prior : Prior x c.scope round log) : Underway x c reading log
  | reads {round log} (phase : c.phase = .reading round) (inside : reading = true)
      (prior : Prior x c.scope round log) : Underway x c reading (log ++ [.readBegun])
  | exchanges {round a requestedAt request log fetched}
      (phase : c.phase = .exchanging round a requestedAt) (prior : Prior x c.scope round log)
      (given : Consulted round fetched (.ok a))
      (prepared : x.prepare a.value c.scope = .ok request) :
      Underway x c reading
        (log ++ fetched ++ [.span .exchange c.scope.key, .sent a.value c.scope request])

/-! ### How often a call reads and exchanges -/

/-- A list of occurrences with at most so many reads and at most so many exchanges. -/
structure Effort (reads exchanges : Nat) (log : List Occurrence) : Prop where
  reads : log.countP (·.isRead) ≤ reads
  exchanges : log.countP (·.isExchange) ≤ exchanges

variable {x : Exchanger} {scope : ScopeSet} {a : Assertion} {round : Round}
  {log more : List Occurrence} {r : Except Failure AccessToken}

namespace Effort

variable {m n k l : Nat}

theorem append (h : Effort m n log) (hm : Effort k l more) :
    Effort (m + k) (n + l) (log ++ more) where
  reads := List.countP_append ▸ Nat.add_le_add h.reads hm.reads
  exchanges := List.countP_append ▸ Nat.add_le_add h.exchanges hm.exchanges

theorem mono (h : Effort m n log) (hk : m ≤ k) (hl : n ≤ l) : Effort k l log :=
  ⟨Nat.le_trans h.reads hk, Nat.le_trans h.exchanges hl⟩

/-- Where nothing is read and exchanged. -/
theorem none (h : ∀ o ∈ log, o.isRead = false ∧ o.isExchange = false) : Effort 0 0 log where
  reads := Nat.le_of_eq (List.countP_eq_zero.mpr fun o ho => by simp [h o ho])
  exchanges := Nat.le_of_eq (List.countP_eq_zero.mpr fun o ho => by simp [h o ho])

end Effort

theorem Consulted.effort {g : Except Failure Assertion} (h : Consulted round log g) :
    Effort 1 0 log := by
  cases h with
  | fresh => exact ⟨Nat.zero_le 1, Nat.le_refl 0⟩
  | unserved => exact ⟨Nat.zero_le 1, Nat.le_refl 0⟩
  | read => exact ⟨Nat.le_refl 1, Nat.le_refl 0⟩
  | stale => exact ⟨Nat.le_refl 1, Nat.le_refl 0⟩
  | failed => exact ⟨Nat.le_refl 1, Nat.le_refl 0⟩

theorem Exchanged.effort (h : Exchanged x scope a log r) : Effort 0 1 log := by
  cases h with
  | unsent => exact ⟨Nat.le_refl 0, Nat.le_refl 1⟩
  | cutOff => exact ⟨Nat.le_refl 0, Nat.le_refl 1⟩
  | @answered request _ reply judgement =>
      have hsent : Effort 0 1 [.span .exchange scope.key, .sent a.value scope request] :=
        ⟨Nat.le_refl 0, Nat.le_refl 1⟩
      have hheard : Effort 0 0 (heard reply judgement.asked ++ [.exchanged r]) := by
        apply Effort.none
        cases judgement.asked <;> simp [heard, Occurrence.isRead, Occurrence.isExchange]
      exact hsent.append hheard

theorem Prior.effort (h : Prior x scope round log) : Effort 1 1 log := by
  cases h with
  | first => exact ⟨Nat.zero_le 1, Nat.zero_le 1⟩
  | second given exchange =>
      exact (given.effort.append exchange.effort).append
        (.none (by simp [Occurrence.isRead, Occurrence.isExchange]))

/-- A call that is aboard has read at most twice, and exchanged at most twice. -/
theorem Underway.effort {c : Call} {reading : Bool} (h : Underway x c reading log) :
    Effort 2 2 log := by
  cases h with
  | waits _ _ prior => exact prior.effort.mono (by decide) (by decide)
  | reads _ _ prior =>
      have hread : Effort 1 0 [.readBegun] := ⟨Nat.le_refl 1, Nat.le_refl 0⟩
      exact (prior.effort.append hread).mono (by decide) (by decide)
  | @exchanges round a _ request _ _ _ prior given =>
      have hsent : Effort 0 1 [.span .exchange c.scope.key, .sent a.value c.scope request] :=
        ⟨Nat.le_refl 0, Nat.le_refl 1⟩
      exact (prior.effort.append given.effort).append hsent

/-- In a refresh the source is read at most twice, and an assertion is exchanged at most twice. -/
theorem Refreshing.effort (h : Refreshing x scope log r) : Effort 2 2 log := by
  cases h with
  | unread none => exact none.effort.mono (by decide) (by decide)
  | once given exchange => exact (given.effort.append exchange.effort).mono (by decide) (by decide)
  | unreread given exchange refused none =>
      rw [List.append_cons]
      exact ((Prior.second given exchange refused).effort.append none.effort).mono
        (by decide) (by decide)
  | @twice _ _ _ _ text now _ _ given exchange refused exchange' =>
      have reread : Consulted .second [.readBegun, .readEnded (.ok text)] (.ok ⟨⟨text⟩, now⟩) := .read
      rw [List.append_cons]
      exact (Prior.second given exchange refused).effort.append
        (reread.effort.append exchange'.effort)

/-! ### Courses are made of visits and exchanges -/

/-- A refresh whose last visit to the cache gives no assertion is over. -/
theorem Prior.unread {g : Failure} (prior : Prior x scope round log)
    (none : Consulted round more (.error g)) : Refreshing x scope (log ++ more) (.error g) := by
  cases prior with
  | first => exact .unread none
  | second given exchange refused =>
      rw [List.append_assoc, List.singleton_append]
      exact .unreread given exchange refused none

/-- A refresh whose last exchange is not followed by another one is over. -/
theorem Prior.exchanged {fetched exchanged : List Occurrence} (prior : Prior x scope round log)
    (given : Consulted round fetched (.ok a)) (exchange : Exchanged x scope a exchanged r)
    (final : round = .first → ∀ f, r = .error f → f.isInvalidAssertion = false) :
    Refreshing x scope (log ++ fetched ++ exchanged) r := by
  cases prior with
  | first => exact .once given exchange (final rfl)
  | second given' exchange' refused =>
      cases given with
      | read =>
          have htwice := Refreshing.twice given' exchange' refused exchange
          simpa using htwice

/-- What a call does in a refresh is work. -/
theorem Refreshing.isWork (h : Refreshing x scope log r) : IsWork log := by
  have consulted {round : Round} {l : List Occurrence} {g : Except Failure Assertion}
      (h : Consulted round l g) : IsWork l := by
    cases h <;> simp [IsWork, Occurrence.isWork]
  have exchanged {a : Assertion} {l : List Occurrence} {r : Except Failure AccessToken}
      (h : Exchanged x scope a l r) : IsWork l := by
    cases h with
    | @answered _ _ _ judgement =>
        cases judgement.asked <;> simp [IsWork, heard, Occurrence.isWork]
    | _ => simp [IsWork, Occurrence.isWork]
  cases h with
  | unread none => exact consulted none
  | once given exchange => exact (consulted given).append (exchanged exchange)
  | unreread given exchange refused none =>
      rw [List.append_cons]
      exact (((consulted given).append (exchanged exchange)).append (.singleton rfl)).append
        (consulted none)
  | twice given exchange refused exchange' =>
      rw [List.append_cons]
      exact (((consulted given).append (exchanged exchange)).append (.singleton rfl)).append
        ((IsWork.append (.singleton rfl) (.singleton rfl)).append (exchanged exchange'))

/-! ### What a step adds to a course -/

section Steps

variable {b b' w : Broker} {c : Call} {e : Event} {p : Phase}

theorem logged_heard (b : Broker) (id : CallId) (reply : Reply)
    (asked : Option Classification.Context) :
    Logged b id (heard reply asked) (b.recordReply id reply asked) := by
  cases asked with
  | none => exact logged_note b id rfl
  | some context => exact (logged_note b id rfl).trans (logged_note _ id rfl)

/-- What a call logs when a read ends its visit. -/
theorem logged_finished {v : Visit} {rest : List Visit} {result : Except Failure String}
    {stored : Option Assertion} {g : Except Failure Assertion} (hv : b.cache.visits = v :: rest)
    (hlookup : v.lookup = round.lookup) (h : AssertionCache.Finished b.cache v result stored g)
    (id : CallId) :
    ∃ more, Consulted round (.readBegun :: more) g ∧ Logged b id more (b.recordRead id result) := by
  have hl : Logged b id [.readEnded result]
      ((b.note id (.readEnded result)).count .readAssertion (.ofExcept result)) :=
    (logged_note b id rfl).trans (logged_count _ id _ _)
  cases h with
  | read => exact ⟨_, .read, hl⟩
  | @stale f a age stands =>
      obtain rfl : round = .first := by
        have hcurrent := AssertionCache.lookup_of_standIn? hv stands
        cases round with
        | first => rfl
        | second => cases hcurrent.symm.trans hlookup
      refine ⟨[.readEnded (.error f), .stale f age], .stale, ?_⟩
      simp only [recordRead, stands]
      exact hl.trans (logged_note _ id rfl)
  | @failed f none =>
      refine ⟨[.readEnded (.error f)], .failed, ?_⟩
      simp only [recordRead, none]
      exact hl

/-- A call that is given something by the cache has come to the end of a visit in its round. -/
theorem Underway.consulted {g : Except Failure Assertion} (visiting : b.Visiting)
    (hold : b.Holding) (hc : c ∈ b.calls)
    (h : Underway b.exchanger c (b.cache.isReading c.id) log) (phase : c.phase = .reading round)
    (visited : Visited b c e g w) :
    ∃ before fetched more, Prior b.exchanger c.scope round before ∧ Consulted round fetched g ∧
      log ++ more = before ++ fetched ∧ Logged b c.id more w := by
  have ended {cache : AssertionCache} {result : Except Failure String}
      (reading : b.cache.isReading c.id = true) (served : b.cache.finish result = (cache, .ends g)) :
      ∃ before fetched more, Prior b.exchanger c.scope round before ∧ Consulted round fetched g ∧
        log ++ more = before ++ fetched ∧
        Logged b c.id more { b.recordRead c.id result with cache } := by
    obtain ⟨v, rest, hv, hcall, -⟩ := AssertionCache.isReading_iff.mp reading
    obtain ⟨u, hu, -, finished⟩ := AssertionCache.of_finish_eq_ends served
    obtain ⟨rfl, -⟩ := List.cons.inj (hv.symm.trans hu)
    have hlookup := visiting.lookup_eq hold hc phase (by simp [hv]) hcall
    obtain ⟨more, hconsulted, hl⟩ := logged_finished hv hlookup finished c.id
    cases h with
    | waits _ outside => cases outside.symm.trans reading
    | @reads round' before phase' _ prior =>
        obtain rfl : round = round' := Phase.reading.inj (phase.symm.trans phase')
        exact ⟨before, _, more ++ [], prior, hconsulted, by simp,
          hl.trans (logged_cache _ c.id cache)⟩
    | exchanges phase' => cases phase.symm.trans phase'
  cases visited with
  | @fresh cache _ turn served =>
      obtain ⟨v, rest, hv, hcall, hreading⟩ := AssertionCache.isTurn_iff.mp turn
      obtain ⟨u, a, hu, -, hcurrent, -, -, rfl⟩ := AssertionCache.of_proceed_eq_ends served
      obtain ⟨rfl, -⟩ := List.cons.inj (hv.symm.trans hu)
      have hlookup := visiting.lookup_eq hold hc phase (by simp [hv]) hcall
      obtain rfl : round = .first := by
        cases round with
        | first => rfl
        | second => cases hcurrent.symm.trans hlookup
      cases h with
      | waits phase' _ prior =>
          obtain rfl := Phase.reading.inj (phase.symm.trans phase')
          exact ⟨log, [], [], prior, .fresh, rfl, logged_cache b c.id cache⟩
      | reads _ inside =>
          obtain ⟨u, rest', hu, -, hu'⟩ := AssertionCache.isReading_iff.mp inside
          obtain ⟨rfl, -⟩ := List.cons.inj (hv.symm.trans hu)
          cases hreading.symm.trans hu'
      | exchanges phase' => cases phase.symm.trans phase'
  | read result reading served => exact ended reading served
  | late _ reading served => exact ended reading served

/-- A call that ends its refresh has come to the end of a course. -/
theorem Underway.refreshed (visiting : b.Visiting) (hold : b.Holding) (hc : c ∈ b.calls)
    (h : Underway b.exchanger c (b.cache.isReading c.id) log) (refreshed : Refreshed b c e r w) :
    ∃ more, Refreshing b.exchanger c.scope (log ++ more) r ∧ Logged b c.id (more ++ settled r) w := by
  cases refreshed with
  | unserved phase _ waiting =>
      cases h with
      | waits _ _ prior => exact ⟨[], prior.unread .unserved, logged_cache b c.id _⟩
      | reads _ inside => cases waiting.1.symm.trans inside
      | exchanges phase' => cases phase.symm.trans phase'
  | cutOff phase =>
      cases h with
      | waits phase' => cases phase.symm.trans phase'
      | reads phase' => cases phase.symm.trans phase'
      | exchanges _ prior given prepared =>
          refine ⟨[.cutOff], ?_, logged_note b c.id rfl⟩
          rw [List.append_assoc]
          exact prior.exchanged given (.cutOff prepared) (by rintro - _ ⟨⟩; rfl)
  | unread phase visited =>
      obtain ⟨before, fetched, more, prior, consulted, heq, hl⟩ :=
        h.consulted visiting hold hc phase visited
      refine ⟨more, ?_, by simpa [settled] using hl⟩
      rw [heq]
      exact prior.unread consulted
  | @unsent round _ a f w phase visited prepared =>
      obtain ⟨before, fetched, more, prior, consulted, heq, hl⟩ :=
        h.consulted visiting hold hc phase visited
      refine ⟨more ++ [.span .exchange c.scope.key, .exchanged (.error f)], ?_, ?_⟩
      · rw [← List.append_assoc, heq]
        refine prior.exchanged consulted (.unsent prepared) fun _ g hg => ?_
        rw [← Except.error.inj hg]
        exact isInvalidAssertion_of_prepare prepared
      · have hx := (hl.trans (logged_beginExchange w c)).trans
          (logged_recordExchange _ c.id (.error f))
        simpa [settled] using hx
  | @granted round a requestedAt reply t phase result =>
      cases h with
      | waits phase' => cases phase.symm.trans phase'
      | reads phase' => cases phase.symm.trans phase'
      | exchanges phase' prior given prepared =>
          obtain ⟨rfl, rfl, -⟩ := Phase.exchanging.inj (phase.symm.trans phase')
          refine ⟨heard reply (b.exchanger.conclude c.scope requestedAt reply).asked ++
            [.exchanged (.ok t)], ?_, ?_⟩
          · rw [List.append_assoc]
            exact prior.exchanged given (.answered prepared rfl result) (by rintro - _ ⟨⟩)
          · exact ((logged_heard b c.id reply _).trans
              (logged_recordExchange _ c.id (.ok t))).trans (logged_store _ c.id t)
  | @refused round a requestedAt reply f phase result final =>
      cases h with
      | waits phase' => cases phase.symm.trans phase'
      | reads phase' => cases phase.symm.trans phase'
      | exchanges phase' prior given prepared =>
          obtain ⟨rfl, rfl, -⟩ := Phase.exchanging.inj (phase.symm.trans phase')
          refine ⟨heard reply (b.exchanger.conclude c.scope requestedAt reply).asked ++
            [.exchanged (.error f)], ?_, ?_⟩
          · rw [List.append_assoc]
            refine prior.exchanged given (.answered prepared rfl result) fun hround g hg => ?_
            rw [← Except.error.inj hg]
            exact Bool.eq_false_iff.mpr fun refused => final ⟨hround, refused⟩
          · have hx := (logged_heard b c.id reply
              (b.exchanger.conclude c.scope requestedAt reply).asked).trans
              (logged_recordExchange _ c.id (.error f))
            simpa [settled] using hx

/-- A call aboard that goes on stays on its course. -/
theorem Underway.goes (visiting : b.Visiting) (hold : b.Holding) (hc : c ∈ b.calls)
    (h : Underway b.exchanger c (b.cache.isReading c.id) log) (going : Going b c e p w)
    {reading : Bool} (outside : ∀ round, p = .reading round → reading = false) :
    ∃ more, Underway b.exchanger { c with phase := p } reading (log ++ more) ∧
      Logged b c.id more w := by
  have aboard : c.phase.isQueued = false := by cases h <;> simp [Phase.isQueued, *]
  cases going with
  | boards phase => simp [phase, Phase.isQueued] at aboard
  | @sends round _ a w request phase visited prepared =>
      obtain ⟨before, fetched, more, prior, consulted, heq, hl⟩ :=
        h.consulted visiting hold hc phase visited
      refine ⟨more ++ [.span .exchange c.scope.key, .sent a.value c.scope request], ?_, ?_⟩
      · rw [← List.append_assoc, heq]
        exact .exchanges rfl prior consulted prepared
      · have hx := (hl.trans (logged_beginExchange w c)).trans
          (logged_note _ c.id (o := .sent a.value c.scope request) rfl)
        simpa using hx
  | @rereads a requestedAt reply f phase result refused =>
      cases h with
      | waits phase' => cases phase.symm.trans phase'
      | reads phase' => cases phase.symm.trans phase'
      | exchanges phase' prior given prepared =>
          obtain ⟨rfl, rfl, -⟩ := Phase.exchanging.inj (phase.symm.trans phase')
          cases prior with
          | first =>
              refine ⟨heard reply (b.exchanger.conclude c.scope requestedAt reply).asked ++
                [.exchanged (.error f)] ++ [.rejected f], ?_, ?_⟩
              · refine .waits rfl (outside _ rfl) ?_
                have hsecond := Prior.second given (.answered prepared rfl result) refused
                simpa using hsecond
              · exact ((logged_heard b c.id reply _).trans
                  (logged_recordExchange _ c.id (.error f))).trans
                  ((logged_note _ c.id (o := .rejected f) rfl).trans (logged_visit _ c.id .second))

end Steps

end Broker

end FederatedAccess
