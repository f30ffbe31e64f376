import FederatedAccess.Http.Wire
import FederatedAccess.Proofs.Precedence
import FederatedAccess.Proofs.RetryHint

/-!
# Responses that blame the request

A response with a status between 400 and 499, other than 429, blames the request. An error document
is sorted by its error code, the words of its description and the status, unless the description has
a marker of the directory. Any other body is sorted by the words among its first characters and the
status, and without a body the status alone is left.
-/

namespace FederatedAccess

open Classification

/-- The kind of failure that an exchange ended with. -/
def Failure.kind? : Failure → Option Kind
  | .exchange (.invalidAssertion _) => some .invalidAssertion
  | .exchange (.insufficientPermissions _) => some .insufficientPermissions
  | .exchange (.invalidScope _) => some .invalidScope
  | .exchange (.transient _) => some .transient
  | _ => none

/-- The failure is of the only kind that the first of the sources names. -/
def Failure.DecidedBy (f : Failure) (sources : List (Kind → Prop)) : Prop :=
  ∃ kind, f.kind? = some kind ∧ ∀ k, FirstOf sources k ↔ k = kind

namespace Failure

variable {f : Failure} {source : Kind → Prop} {sources : List (Kind → Prop)}

theorem kind?_failure (kind : Kind) (reason : String) (t : Transient) :
    (kind.failure reason t).kind? = some kind := by
  cases kind <;> rfl

/-- The text of the reason ends the message of every kind. -/
theorem message_failure (kind : Kind) (reason : String) (status : Option Nat)
    (retryAfter : Option Duration) : ∃ lead,
      (kind.failure reason (.endpoint reason status retryAfter)).message = lead ++ reason := by
  cases kind <;> exact ⟨_, rfl⟩

/-- A silent source decides nothing. -/
theorem DecidedBy.of_silent (h : f.DecidedBy (source :: sources)) (silent : ∀ k, ¬source k) :
    f.DecidedBy sources := by
  obtain ⟨kind, hkind, only⟩ := h
  exact ⟨kind, hkind, fun k => (firstOf_cons_of_silent silent).symm.trans (only k)⟩

/-- Failures that the same sources decide are of one kind. -/
theorem DecidedBy.kind?_eq {g : Failure} (hf : f.DecidedBy sources) (hg : g.DecidedBy sources) :
    f.kind? = g.kind? := by
  obtain ⟨kind, hkind, only⟩ := hf
  obtain ⟨other, hother, onlyOther⟩ := hg
  have same : other = kind := (only other).mp ((onlyOther other).mpr rfl)
  rw [hkind, hother, same]

/-- Without a number, the evidence decides. -/
theorem decidedBy_evidence {c : Context} (network : c.network = false)
    (service : c.status.any isServiceFailure = false)
    (unnumbered : c.directoryNumber?.bind ofNumber = none) (reason : String) (t : Transient) :
    ((standard c).failure reason t).DecidedBy c.evidence :=
  ⟨standard c, kind?_failure _ _ _, fun _ =>
    (standard_eq_iff network service unnumbered).symm.trans eq_comm⟩

end Failure

/-! ### Bodies -/

/-- The response has a body that is no error document. -/
def Response.Garbled (r : Response) : Prop :=
  r.body ≠ [] ∧ ∀ d, readBody ErrorDocument.reader r.body ≠ .ok d

/-- An empty body is no error document. -/
theorem Response.ne_nil_of_document {r : Response} {d : ErrorDocument}
    (h : readBody ErrorDocument.reader r.body = .ok d) : r.body ≠ [] := by
  intro empty
  rw [empty] at h
  cases h

/-- What a response that blames the request comes to: an error document is told in full, and each
kind of body leaves its own sources. -/
structure Response.Sorted (r : Response) (f : Failure) : Prop where
  told : ∀ d, readBody ErrorDocument.reader r.body = .ok d →
    ∃ lead, f.message = lead ++ d.code ++ d.description.elim "" (": " ++ ·)
  document : ∀ d, readBody ErrorDocument.reader r.body = .ok d →
    (∀ text ∈ d.description, ¬marker <:+: text.toList) →
      f.DecidedBy (CodeSuggests d.description d.code ::
        (d.description.toList.map (WordsSuggest ·.toList) ++ [StatusSuggests (some r.status)]))
  garbled : r.Garbled →
    f.DecidedBy [WordsSuggest ((Utf8.decodeLossy r.body).take 256), StatusSuggests (some r.status)]
  silent : r.body = [] → f.DecidedBy [StatusSuggests (some r.status)]

/-- The reply delivers a response that blames the request and does not ask to wait. -/
structure Reply.Blames (reply : Reply) (response : Response) : Prop where
  delivered : reply.outcome = .ok response
  recorded : reply.status = some response.status
  atLeast : 400 ≤ response.status
  below : response.status < 500
  patient : response.status ≠ 429

theorem Reply.Blames.isServiceFailure_eq_false {reply : Reply} {response : Response}
    (h : reply.Blames response) : isServiceFailure response.status = false := by
  have below := h.below
  simp [isServiceFailure, h.patient, below]

/-- Over a connection, a complete response that blames the request is delivered and recorded. -/
theorem Wire.blames_reply (now : Instant) {script : Wire.Script}
    (complete : script.conduct = .complete) (atLeast : 400 ≤ script.status)
    (below : script.status < 500) (patient : script.status ≠ 429) :
    (Wire.reply now (some script)).Blames (Wire.response script) := by
  refine ⟨?_, ?_, atLeast, below, patient⟩
  · rw [Wire.reply, complete]
  · rw [Wire.reply, complete]
    rfl

theorem ErrorDocument.reason_eq (d : ErrorDocument) :
    d.reason = d.code ++ d.description.elim "" (": " ++ ·) := by
  unfold reason
  cases d.description with
  | none => simp
  | some text => simp [String.append_assoc]

namespace Exchanger

variable {x : Exchanger} {reply : Reply} {response : Response}

/-- A body that is no document is sorted by its first characters and the status. -/
theorem judgeUnstructured_decidedBy (standard : x.classifier = Classification.standard)
    (blames : reply.Blames response) (body : List Char) (t : Transient) :
    ∃ f, (x.judgeUnstructured reply body t).result = .error f ∧
      f.DecidedBy
        [WordsSuggest (body.take previewLimit), StatusSuggests (some response.status)] := by
  have service := blames.isServiceFailure_eq_false
  have client : clientError? reply = some response.status := by
    rw [clientError?, blames.recorded, Option.filter_some, if_pos]
    simp [blames.atLeast, service]
  unfold judgeUnstructured
  rw [client]
  refine ⟨_, rfl, ?_⟩
  rw [standard]
  have decided := Failure.decidedBy_evidence
    (c := Context.withBody { status := some response.status } body) rfl service rfl
    ("HTTP " ++ String.ofList (Decimal.ofNat response.status) ++ ": " ++ t.message) t
  simpa [Context.evidence, Context.withBody, wordsSuggest_previewOf] using decided

/-- An error document is told in full, and is sorted by what it says and the status. -/
theorem judgeRefusal_decidedBy (standard : x.classifier = Classification.standard)
    (blames : reply.Blames response) (d : ErrorDocument) :
    ∃ f, (x.judgeRefusal reply d).result = .error f ∧
      (∃ lead, f.message = lead ++ d.code ++ d.description.elim "" (": " ++ ·)) ∧
      ((∀ text ∈ d.description, ¬marker <:+: text.toList) →
        f.DecidedBy (CodeSuggests d.description d.code ::
          (d.description.toList.map (WordsSuggest ·.toList) ++
            [StatusSuggests (some response.status)]))) := by
  let context : Context :=
    { status := some response.status, code := some d.code, description := d.description }
  let failure := (Classification.standard context).failure d.reason
    (.endpoint d.reason (some response.status) reply.retryAfter)
  have judged : (x.judgeRefusal reply d).result = .error failure := by
    unfold judgeRefusal
    rw [standard, blames.recorded]
  refine ⟨failure, judged, ?_, fun unmarked => ?_⟩
  · obtain ⟨lead, hlead⟩ := Failure.message_failure (Classification.standard context) d.reason
      (some response.status) reply.retryAfter
    exact ⟨lead, by rw [hlead, d.reason_eq, String.append_assoc]⟩
  · refine Failure.decidedBy_evidence (c := context) rfl blames.isServiceFailure_eq_false ?_ _ _
    rw [context.directoryNumber?_eq_none unmarked, Option.bind_none]

/-- Each kind of body is sorted as it should be. -/
theorem sorted_of_blames (standard : x.classifier = Classification.standard)
    (blames : reply.Blames response) (scope : ScopeSet) (requestedAt : Instant) :
    ∃ f, (x.conclude scope requestedAt reply).result = .error f ∧ response.Sorted f := by
  have unsuccessful : response.status ≠ 200 := by
    have atLeast := blames.atLeast
    omega
  have refuses := response.refuses_receive unsuccessful
  rw [conclude, blames.delivered]
  change ∃ f, (x.judgeResponse scope requestedAt reply response).result = .error f ∧ _
  unfold judgeResponse
  generalize response.receive = received at refuses
  cases refuses with
  | silent empty =>
      let summary := "server returned empty error response"
      obtain ⟨f, hf, decided⟩ := judgeUnstructured_decidedBy standard blames summary.toList
        (.endpoint summary reply.status reply.retryAfter)
      have mute : ∀ k, ¬WordsSuggest (summary.toList.take previewLimit) k := by
        have whole : summary.toList.take previewLimit = summary.toList := by decide +kernel
        have unsaid : ofWords summary = none := by decide +kernel
        rw [whole]
        exact (answers_ofWords summary).eq_none_iff.mp unsaid
      exact ⟨f, hf, ⟨fun _ read => absurd empty (response.ne_nil_of_document read),
        fun _ read => absurd empty (response.ne_nil_of_document read),
        fun garbled => absurd empty garbled.1, fun _ => decided.of_silent mute⟩⟩
  | @document d read =>
      obtain ⟨f, hf, told, decided⟩ := judgeRefusal_decidedBy standard blames d
      have only : ∀ e, Response.readBody ErrorDocument.reader response.body = .ok e → e = d :=
        fun e he => Except.ok.inj (he.symm.trans read)
      exact ⟨f, hf, ⟨fun e he => only e he ▸ told, fun e he => only e he ▸ decided,
        fun garbled => absurd read (garbled.2 d),
        fun empty => absurd empty (response.ne_nil_of_document read)⟩⟩
  | garbled present unread =>
      obtain ⟨f, hf, decided⟩ := judgeUnstructured_decidedBy standard blames
        (Utf8.decodeLossy response.body) (.unparsable _ reply.status)
      have undocumented : ∀ d, Response.readBody ErrorDocument.reader response.body ≠ .ok d :=
        fun d read => by cases unread.symm.trans read
      exact ⟨f, hf, ⟨fun d read => absurd read (undocumented d),
        fun d read => absurd read (undocumented d), fun _ => decided,
        fun empty => absurd empty present⟩⟩

/-- A response that blames the request comes to a failure that is sorted by the first source that
applies. Bodies that are no documents come to the same kind if they begin alike. -/
theorem client_errors_sorted (x : Exchanger) (standard : x.classifier = Classification.standard)
    (scope : ScopeSet) (requestedAt : Instant) (reply : Reply) (response : Response)
    (blames : reply.Blames response) :
    ∃ f, (x.conclude scope requestedAt reply).result = .error f ∧ response.Sorted f ∧
      ∀ (reply' : Reply) (response' : Response), reply'.Blames response' →
        response'.status = response.status → response.Garbled → response'.Garbled →
        (Utf8.decodeLossy response'.body).take 256 = (Utf8.decodeLossy response.body).take 256 →
        ∀ scope' requestedAt', ∃ f', (x.conclude scope' requestedAt' reply').result = .error f' ∧
          f'.kind? = f.kind? := by
  obtain ⟨f, hf, sorted⟩ := sorted_of_blames standard blames scope requestedAt
  refine ⟨f, hf, sorted, ?_⟩
  intro reply' response' blames' status garbled garbled' alike scope' requestedAt'
  obtain ⟨f', hf', sorted'⟩ := sorted_of_blames standard blames' scope' requestedAt'
  have decided' := sorted'.garbled garbled'
  rw [alike, status] at decided'
  exact ⟨f', hf', decided'.kind?_eq (sorted.garbled garbled)⟩

/-- A directory refuses an assertion that has expired. -/
def expiredAssertion : Wire.Script :=
  { status := 403
    headers := []
    body := Utf8.bytes ("\x7b\"error\":\"Invalid_Request\"," ++
      "\"error_description\":\"Assertion expired.\"\x7d") }

theorem expired_assertion_blamed : ∃ f,
    (Broker.sampleExchanger.conclude Broker.sampleScope Broker.sampleClock
      (Wire.reply Broker.sampleClock (some expiredAssertion))).result = .error f ∧
        f.kind? = some .invalidAssertion := by
  have read : (Response.readBody ErrorDocument.reader
      (Wire.response expiredAssertion).body).toOption =
        some ⟨"Invalid_Request", some "Assertion expired."⟩ := by
    decide +kernel
  have coded : ofCode "Invalid_Request" (some "Assertion expired.") = some .invalidAssertion := by
    decide +kernel
  have blames : (Wire.reply Broker.sampleClock (some expiredAssertion)).Blames
      (Wire.response expiredAssertion) :=
    Wire.blames_reply _ rfl (by decide) (by decide) (by decide)
  obtain ⟨f, hf, sorted, -⟩ := client_errors_sorted Broker.sampleExchanger rfl Broker.sampleScope
    Broker.sampleClock _ _ blames
  cases document : Response.readBody ErrorDocument.reader (Wire.response expiredAssertion).body with
  | error fault =>
      rw [document] at read
      cases read
  | ok d =>
      rw [document] at read
      obtain rfl := Option.some.inj read
      obtain ⟨kind, hkind, only⟩ := sorted.document _ document (by decide +kernel)
      have first := (only .invalidAssertion).mp (.here ((answers_ofCode _ _ _).mp coded))
      exact ⟨f, hf, by rw [hkind, first]⟩

end Exchanger

end FederatedAccess
