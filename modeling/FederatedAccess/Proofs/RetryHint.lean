import FederatedAccess.Proofs.SharedOutcome

/-!
# What a failure tells of its response

A failure that may pass tells the status that was remembered of the response. It tells how long the
endpoint asked to wait as well, unless the body is neither empty nor an error document: such a body
leaves only the status.
-/

namespace FederatedAccess

/-- A response other than a success has an empty body, an error document, or another body. -/
inductive Response.Refuses (r : Response) : Received → Prop
  | silent (empty : r.body = []) : Refuses r (.improper "server returned empty error response")
  | document {d} (read : readBody ErrorDocument.reader r.body = .ok d) : Refuses r (.refused d)
  | garbled {f} (present : r.body ≠ []) (unread : readBody ErrorDocument.reader r.body = .error f) :
      Refuses r (.unparsable f.category)

theorem Response.refuses_receive {r : Response} (unsuccessful : r.status ≠ 200) :
    r.Refuses r.receive := by
  unfold receive
  rw [if_pos unsuccessful]
  split
  · rename_i empty
    exact .silent (List.isEmpty_iff.mp empty)
  · rename_i present
    split
    · exact .document ‹_›
    · exact .garbled (fun h => present (List.isEmpty_iff.mpr h)) ‹_›

namespace Exchanger

variable {x : Exchanger} {reply : Reply} {t : Transient}

/-- A kind that may pass is described by what is known of the response. -/
theorem eq_of_failure_eq_transient {kind : Classification.Kind} {reason : String} {u : Transient}
    (h : kind.failure reason u = .transient t) : t = u := by
  cases kind with
  | transient =>
      cases h
      rfl
  | _ => cases h

/-- A body that is no document leaves the failure as it is known, if it may pass. -/
theorem eq_of_judgeUnstructured {body : List Char} {u : Transient}
    (h : (x.judgeUnstructured reply body u).result = .error (.transient t)) : t = u := by
  unfold judgeUnstructured at h
  split at h
  · cases h
    rfl
  · exact eq_of_failure_eq_transient (Except.error.inj h)

/-- A failure that may pass tells the status that was remembered, whatever the response was. It
tells how long the endpoint asked to wait if the body is empty or an error document, and does not
tell it for any other body. -/
theorem transient_tells_metadata (x : Exchanger) (scope : ScopeSet) (requestedAt : Instant)
    (response : Response) (unsuccessful : response.status ≠ 200) (metadata : Metadata)
    (t : Transient) (failed : (x.conclude scope requestedAt
      ⟨.ok response, some metadata⟩).result = .error (.transient t)) :
    t.status = metadata.status ∧
    (response.body = [] ∨ (∃ d, Response.readBody ErrorDocument.reader response.body = .ok d) →
      t.retryAfter = metadata.retryAfter) ∧
    (response.body ≠ [] → (∀ d, Response.readBody ErrorDocument.reader response.body ≠ .ok d) →
      t.retryAfter = none) := by
  have refuses := response.refuses_receive unsuccessful
  change (x.judgeResponse scope requestedAt _ response).result = _ at failed
  unfold judgeResponse at failed
  generalize response.receive = received at refuses failed
  cases refuses with
  | silent empty =>
      obtain rfl := eq_of_judgeUnstructured failed
      exact ⟨rfl, fun _ => rfl, fun present => absurd empty present⟩
  | document read =>
      obtain rfl := eq_of_failure_eq_transient (Except.error.inj failed)
      exact ⟨rfl, fun _ => rfl, fun _ unread => absurd read (unread _)⟩
  | garbled present unread =>
      obtain rfl := eq_of_judgeUnstructured failed
      refine ⟨rfl, fun h => ?_, fun _ _ => rfl⟩
      rcases h with empty | ⟨d, read⟩
      · exact absurd empty present
      · cases unread.symm.trans read

/-! ### Two responses of a service that asks to wait -/

/-- A service that is unavailable asks to wait for seven seconds. -/
def waitingResponse (body : String) : Response := ⟨503, none, Utf8.bytes body⟩

/-- The failure that the response comes to. -/
def waitingFailure? (body : String) : Option Failure :=
  match (Broker.sampleExchanger.conclude Broker.sampleScope Broker.sampleClock
    ⟨.ok (waitingResponse body), some ⟨some 503, some (.ofSeconds 7)⟩⟩).result with
  | .ok _ => none
  | .error f => some f

theorem eq_error_of_waitingFailure? {body : String} {f : Failure}
    (h : waitingFailure? body = some f) : (Broker.sampleExchanger.conclude Broker.sampleScope
      Broker.sampleClock ⟨.ok (waitingResponse body), some ⟨some 503, some (.ofSeconds 7)⟩⟩).result =
        .error f := by
  unfold waitingFailure? at h
  split at h
  · cases h
  · rename_i g hg
    rw [hg, Option.some.inj h]

theorem document_tells_retryAfter : ∃ t : Transient,
    waitingFailure? "\x7b\"error\":\"temporarily_unavailable\"\x7d" = some (.transient t) ∧
      t.status = some 503 ∧ t.retryAfter = some (.ofSeconds 7) := by
  have failed : waitingFailure? "\x7b\"error\":\"temporarily_unavailable\"\x7d" = some
      (.transient (.endpoint "temporarily_unavailable" (some 503) (some (.ofSeconds 7)))) := by
    decide +kernel
  have read : (Response.readBody ErrorDocument.reader
      (waitingResponse "\x7b\"error\":\"temporarily_unavailable\"\x7d").body).toOption.isSome =
        true := by
    decide +kernel
  obtain ⟨status, told, -⟩ := transient_tells_metadata _ _ _ _ (by decide) _ _
    (eq_error_of_waitingFailure? failed)
  cases hread : Response.readBody ErrorDocument.reader
      (waitingResponse "\x7b\"error\":\"temporarily_unavailable\"\x7d").body with
  | error f =>
      rw [hread] at read
      cases read
  | ok d => exact ⟨_, failed, status, told (.inr ⟨d, hread⟩)⟩

/-- A body that is no document hides how long the service asked to wait. -/
theorem page_hides_retryAfter : ∃ t : Transient,
    waitingFailure? "<html>" = some (.transient t) ∧ t.status = some 503 ∧ t.retryAfter = none :=
  ⟨.unparsable .malformed (some 503), by decide +kernel, rfl, rfl⟩

end Exchanger

end FederatedAccess
