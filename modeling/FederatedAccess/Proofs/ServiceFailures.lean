import FederatedAccess.Proofs.Broker.Arrivals
import FederatedAccess.Proofs.Broker.Reached
import FederatedAccess.Proofs.SharedOutcome

/-!
# Failures of the service

A response that reports a failure of the service, or asks for fewer requests, comes to a failure
that may pass, whatever its headers and its body say. The call that receives it ends with it: it
asks for nothing more, reads nothing anew and stores nothing.
-/

namespace FederatedAccess

namespace Exchanger

variable {x : Exchanger} {reply : Reply} {response : Response}

/-- A failure of the service does not blame the request. -/
theorem clientError?_eq_none {status : Nat} (recorded : reply.status = some status)
    (service : Classification.isServiceFailure status = true) : clientError? reply = none := by
  rw [clientError?, recorded, Option.filter_eq_none_iff]
  rintro s ⟨⟩
  simp [service]

/-- The body of a response that reports a failure of the service does not decide what it comes
to. -/
theorem transient_of_isServiceFailure (standard : x.classifier = Classification.standard)
    (delivered : reply.outcome = .ok response) (recorded : reply.status = some response.status)
    (service : Classification.isServiceFailure response.status = true) (scope : ScopeSet)
    (requestedAt : Instant) :
    ∃ t : Transient, (x.conclude scope requestedAt reply).result = .error (.transient t) ∧
      t.status = some response.status := by
  have unblamed := clientError?_eq_none recorded service
  have judged : x.conclude scope requestedAt reply = x.judgeResponse scope requestedAt reply response := by
    rw [conclude, delivered]
  rw [judged, judgeResponse]
  split
  · rename_i d hreceive
    rw [response.status_of_receive_token hreceive] at service
    cases service
  · rename_i d hreceive
    have kind : x.classifier
        { status := reply.status, code := some d.code, description := d.description } =
          .transient := by
      rw [standard, Classification.standard_eq_transient]
      exact .inr (by simp [recorded, service])
    refine ⟨.endpoint d.reason reply.status reply.retryAfter, ?_, recorded⟩
    simp only [judgeRefusal, kind, Classification.Kind.failure]
  · rename_i category hreceive
    exact ⟨.unparsable ⟨category, x.locate response⟩ reply.status, by
      rw [judgeUnstructured, unblamed], recorded⟩
  · rename_i summary hreceive
    exact ⟨.endpoint summary reply.status reply.retryAfter, by rw [judgeUnstructured, unblamed],
      recorded⟩

end Exchanger

namespace Broker

variable {b : Broker} {c : Call} {round : Round} {a : Assertion} {requestedAt : Instant}
  {reply : Reply}

/-- A reply for which the assertion is not to blame ends the call that receives it. -/
theorem replied_of_final {f : Failure} (live : b.call? c.id = some c)
    (phase : c.phase = .exchanging round a requestedAt)
    (result : (b.exchanger.conclude c.scope requestedAt reply).result = .error f)
    (final : f.isInvalidAssertion = false) :
    b.step (.replied c.id reply) =
      ((b.recordReply c.id reply (b.exchanger.conclude c.scope requestedAt reply).asked).recordExchange
        c.id (.error f)).conclude c (.error f) := by
  simp only [step, replied, live, phase, result, endExchange, afterExchange, final,
    Bool.false_eq_true, and_false, if_false]

/-- A call that waits for its first reply has sent one request and read once at most. -/
theorem Course.effort_of_first (h : b.Course) (hc : c ∈ b.calls)
    (phase : c.phase = .exchanging .first a requestedAt) :
    (b.history c.id).countP (·.isExchange) = 1 ∧ (b.history c.id).countP (·.isRead) ≤ 1 := by
  obtain ⟨n, log, hh, underway⟩ := h.aboard c hc (by rw [phase]; rfl)
  rw [hh]
  cases underway with
  | waits phase' => cases phase.symm.trans phase'
  | reads phase' => cases phase.symm.trans phase'
  | @exchanges round _ _ request before fetched phase' prior given =>
      obtain rfl : Round.first = round := (Phase.exchanging.inj (phase.symm.trans phase')).1
      cases prior
      have opens : (opening c n).countP (·.isExchange) = 0 ∧ (opening c n).countP (·.isRead) = 0 :=
        ⟨rfl, rfl⟩
      rw [List.append_cons, List.nil_append]
      simp only [List.countP_append, opens]
      exact ⟨by simpa [Occurrence.isExchange] using given.effort.exchanges,
        by simpa [Occurrence.isRead] using given.effort.reads⟩

/-- A call that hears its last reply neither reads nor exchanges any more. -/
theorem effort_heard (reply : Reply) (asked : Option Classification.Context)
    (r : Except Failure AccessToken) (slot : SlotId) :
    let log := heard reply asked ++ [.exchanged r, .published slot r, .ended r]
    log.countP (·.isExchange) = 0 ∧ log.countP (·.isRead) = 0 := by
  cases asked <;> exact ⟨rfl, rfl⟩

/-- A call that receives a failure that may pass hears the reply, shares the failure and ends with
it. Nothing is added to its history later. -/
theorem Reached.replied_of_transient {t : Transient} (h : b.Reached) (live : b.call? c.id = some c)
    (phase : c.phase = .exchanging round a requestedAt)
    (result : (b.exchanger.conclude c.scope requestedAt reply).result = .error (.transient t))
    (after : List Event) :
    ∃ asked, ((b.step (.replied c.id reply)).run after).history c.id =
        b.history c.id ++ (heard reply asked ++ [.exchanged (.error (.transient t)),
          .published c.slot (.error (.transient t)), .ended (.error (.transient t))]) ∧
      (b.step (.replied c.id reply)).tokens = b.tokens ∧
      (b.step (.replied c.id reply)).cache = b.cache := by
  obtain ⟨asked, hasked⟩ : ∃ asked, (b.exchanger.conclude c.scope requestedAt reply).asked = asked :=
    ⟨_, rfl⟩
  have stepped : b.step (.replied c.id reply) =
      (((b.recordReply c.id reply asked).recordExchange c.id (.error (.transient t))).publish c
        (.error (.transient t))).finish c (.error (.transient t)) := by
    rw [← hasked]
    exact replied_of_final live phase result rfl
  have hl := ((logged_heard b c.id reply asked).trans
    (logged_recordExchange _ c.id (.error (.transient t)))).trans
      (logged_publish _ c (.error (.transient t)))
  have history : (b.step (.replied c.id reply)).history c.id =
      b.history c.id ++ (heard reply asked ++ [.exchanged (.error (.transient t)),
        .published c.slot (.error (.transient t)), .ended (.error (.transient t))]) := by
    rw [stepped, history_of_journal (hl.journal_finish _), if_pos rfl]
    simp
  have whole := ((h.move (move_step b (.replied c.id reply))).run after).coherent.ledger.eq_of_ended
    ((after_run _ after).history c.id) (r := .error (.transient t)) (by simp [history])
  refine ⟨asked, whole ▸ history, ?_, ?_⟩
  · rw [stepped]
    refine Eq.trans hl.tokens ?_
    cases asked <;> rfl
  · rw [stepped]
    simp only [finish, forget, cache_report, publish, recordExchange, note, count, cache_recordReply]

/-- A response with status 429 or one from 500, which the transport remembers, comes to a failure
that may pass, does not blame the assertion and tells the status, whatever the headers and the body
are. A call that receives it hears the reply, shares the failure and ends with it, however the run
goes on: it stores nothing and does not turn to the assertion again, and if it was the first reply,
the call has sent one request in all. -/
theorem service_failures_stay_transient (x : Exchanger)
    (standard : x.classifier = Classification.standard) (reply : Reply) (response : Response)
    (delivered : reply.outcome = .ok response) (recorded : reply.status = some response.status)
    (service : response.status = 429 ∨ 500 ≤ response.status) :
    (∀ scope requestedAt, ∃ f, (x.conclude scope requestedAt reply).result = .error f ∧
      (∃ t, f = .transient t) ∧ f.isRetryable = true ∧ f.isInvalidAssertion = false ∧
      f.status = some response.status) ∧
    ∀ (config : Config) (clock : Instant) (before after : List Event) (c : Call) (round : Round)
      (a : Assertion) (requestedAt : Instant),
      let b := (make config x clock).run before
      let b' := b.step (.replied c.id reply)
      let h := (b'.run after).history c.id
      b.call? c.id = some c → c.phase = .exchanging round a requestedAt →
      ∃ f asked, (∃ t, f = .transient t) ∧ f.status = some response.status ∧
        h = b.history c.id ++ (heard reply asked ++
          [.exchanged (.error f), .published c.slot (.error f), .ended (.error f)]) ∧
        (∀ t, .stored t ∉ h) ∧ b'.tokens = b.tokens ∧ b'.cache = b.cache ∧
        (round = .first → h.countP (·.isExchange) = 1 ∧ h.countP (·.isRead) ≤ 1) := by
  have failure : Classification.isServiceFailure response.status = true := by
    simpa [Classification.isServiceFailure] using service
  refine ⟨fun scope requestedAt => ?_, ?_⟩
  · obtain ⟨t, result, status⟩ :=
      Exchanger.transient_of_isServiceFailure standard delivered recorded failure scope requestedAt
    exact ⟨.transient t, result, ⟨t, rfl⟩, rfl, rfl, status⟩
  · intro config clock before after c round a requestedAt b b' h live phase
    have reached : b.Reached := (Reached.make config x clock).run before
    have own : b.exchanger = x := exchanger_run _ before
    obtain ⟨t, result, status⟩ := Exchanger.transient_of_isServiceFailure
      (own ▸ standard) delivered recorded failure c.scope requestedAt
    obtain ⟨asked, history, tokens, cache⟩ := reached.replied_of_transient live phase result after
    have hc := mem_calls_of_call? live
    refine ⟨.transient t, asked, ⟨t, rfl⟩, status, history, fun u => ?_, tokens, cache, ?_⟩
    · obtain ⟨n, log, work, hh⟩ :=
        (reached.coherent.ledger.living c hc).of_aboard (by rw [phase]; rfl)
      rw [show h = _ from history, hh]
      cases asked <;> simp [opening, heard, work.not_mem (o := .stored u) rfl]
    · rintro rfl
      obtain ⟨exchanges, reads⟩ := reached.course.effort_of_first hc phase
      obtain ⟨unsent, unread⟩ := effort_heard reply asked (.error (.transient t)) c.slot
      rw [show h = _ from history]
      exact ⟨by rw [List.countP_append, exchanges, unsent], by rwa [List.countP_append, unread]⟩

/-! ### A service that blames the assertion -/

/-- A call that waits for its first reply. -/
def hopefulCall : Call where
  id := 0
  scope := sampleScope
  started := 0
  deadline := none
  slot := 0
  phase := .exchanging .first ⟨⟨"assertion"⟩, sampleClock⟩ sampleClock

/-- A refresh up to its first request. -/
def hopefulRefresh : List Event :=
  [.start sampleScope none, .proceed 0, .proceed 0, .readDone 0 (.ok "assertion")]

/-- An overloaded service says that the assertion has expired. -/
def overloadedReply : Reply where
  outcome := .ok ⟨503, none, Utf8.bytes ("\x7b\"error\":\"invalid_client\"," ++
    "\"error_description\":\"AADSTS700024: Client assertion has expired.\"\x7d")⟩
  metadata := some ⟨some 503, some (.ofSeconds 9)⟩

set_option maxRecDepth 20000 in
theorem overloaded_service_ends_call :
    let b := (make sampleConfig sampleExchanger sampleClock).run hopefulRefresh
    let h := ((b.step (.replied 0 overloadedReply)).run [.purge]).history 0
    ∃ f, f.status = some 503 ∧ f.isRetryable = true ∧ .ended (.error f) ∈ h ∧
      h.countP (·.isExchange) = 1 ∧ (∀ t, .stored t ∉ h) ∧
      (b.step (.replied 0 overloadedReply)).cache = b.cache := by
  intro b h
  have live : b.call? hopefulCall.id = some hopefulCall := rfl
  obtain ⟨f, asked, ⟨t, rfl⟩, status, history, unstored, -, cache, first⟩ :=
    (service_failures_stay_transient sampleExchanger rfl overloadedReply _ rfl rfl
      (.inr (by decide))).2 sampleConfig sampleClock hopefulRefresh [.purge] hopefulCall .first _ _
      live rfl
  refine ⟨.transient t, status, rfl, ?_, (first rfl).1, unstored, cache⟩
  rw [show h = _ from history]
  simp

end Broker

end FederatedAccess
