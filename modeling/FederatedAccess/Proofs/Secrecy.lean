import FederatedAccess.Proofs.Broker.Redaction
import FederatedAccess.Proofs.Replies
import FederatedAccess.Proofs.TokenProvenance

/-!
# Secrets cannot be observed

Two runs that differ only in the texts of assertions and tokens look the same to everybody who
does not get at these texts: the same calls end at the same times with the same failures or with
tokens that show the same, the counters are the same, and so is all that is traced.

Two things are left out. The text of a token moves the place where a document breaks off behind it,
and the failure keeps that place. And a body that is no document is shown to the classifier when the
status blames the request, for want of anything better to tell what is wrong: the text of a token in
such a body may decide which failure it comes to.
-/

namespace FederatedAccess

/-- What a token shows: all but its text, and how diagnostics render it. -/
structure TokenView where
  tokenType : String
  scope : ScopeSet
  issuedAt : Instant
  expiresAt : Instant
  rendered : String

/-- What a token shows. -/
def AccessToken.view (t : AccessToken) : TokenView :=
  ⟨t.tokenType, t.scope, t.issuedAt, t.expiresAt, t.render⟩

/-- What can be observed: a span and its fields, what is traced with its fields, and the result of a
call. A failure is observed as a whole but for the place where a document breaks off, and so is its
message. -/
inductive Sight
  | span (operation : String) (key : ScopeKey)
  | stale (message : String) (age : Duration)
  | rejected (message : String)
  | failed (failure : Failure) (message : String)
  | granted (token : TokenView)

/-- What can be observed of an occurrence. -/
def Occurrence.sight? : Occurrence → Option Sight
  | .span operation key => some (.span operation.label key)
  | .stale failure age => some (.stale failure.message age)
  | .rejected failure => some (.rejected failure.message)
  | .ended (.error failure) => some (.failed failure.redact failure.message)
  | .ended (.ok t) => some (.granted t.view)
  | _ => none

theorem Occurrence.sight?_redact (w : Occurrence) : w.redact.sight? = w.sight? := by
  cases w with
  | ended result =>
      cases result with
      | ok t => rfl
      | error f => simp [redact, sight?]
  | stale f age => simp [redact, sight?]
  | rejected f => simp [redact, sight?]
  | _ => rfl

namespace Broker

/-- What can be observed of a run, with the time and the clock and the call it is about. -/
def observed (b : Broker) : List (Nat × Instant × CallId × Sight) :=
  b.journal.filterMap fun x => x.what.sight?.map (x.time, x.clock, x.call, ·)

/-- Events that are the same but for the text of an assertion or of a token. A reply whose body is no
document is the same altogether if its status blames the request. -/
inductive Event.Alike : Event → Event → Prop
  | same (e) : Alike e e
  | read (id) (text text' : String) : Alike (.readDone id (.ok text)) (.readDone id (.ok text'))
  | replied (id) {reply reply'} (replies : reply.Alike reply') :
      Alike (.replied id reply) (.replied id reply')

variable {b b' : Broker}

/-- What is struck out cannot be observed. -/
theorem observed_redact (b : Broker) : b.redact.observed = b.observed := by
  simp only [observed, redact, List.filterMap_map]
  congr 1
  funext x
  change x.what.redact.sight?.map _ = _
  rw [Occurrence.sight?_redact]
  rfl

/-- Alike replies leave the same, but for secrets. -/
theorem replied_alike (h : b.redact = b'.redact) {reply reply' : Reply}
    (replies : reply.Alike reply') (id : CallId) :
    (b.replied id reply).redact = (b'.replied id reply').redact := by
  have exchanger : b.exchanger = b'.exchanger := (congrArg Broker.exchanger h :)
  have judged (scope : ScopeSet) (requestedAt : Instant) :
      (b.exchanger.conclude scope requestedAt reply).redact =
        (b'.exchanger.conclude scope requestedAt reply').redact := by
    rw [exchanger]
    exact Exchanger.conclude_alike replies b'.exchanger scope requestedAt
  rw [redact_replied, redact_replied, h]
  simp only [judged]

/-- Alike events leave the same, but for secrets. -/
theorem step_alike (h : b.redact = b'.redact) {e e' : Event} (alike : e.Alike e') :
    (b.step e).redact = (b'.step e').redact := by
  cases alike with
  | read id text text' =>
      exact (redact_readDone id _).trans (h ▸ (redact_readDone id (.ok text')).symm)
  | replied id replies => exact replied_alike h replies id
  | same =>
      cases e with
      | start scope deadline =>
          exact (redact_start scope deadline).trans (h ▸ (redact_start scope deadline).symm)
      | proceed id => exact (redact_proceed id).trans (h ▸ (redact_proceed id).symm)
      | readDone id result =>
          exact (redact_readDone id result).trans (h ▸ (redact_readDone id result).symm)
      | replied id reply => exact replied_alike h (.same reply) id
      | expire id => exact (redact_expire id).trans (h ▸ (redact_expire id).symm)
      | cancel id => exact (redact_cancel id).trans (h ▸ (redact_cancel id).symm)
      | overtake id => exact (redact_overtake id).trans (h ▸ (redact_overtake id).symm)
      | invalidate scope =>
          exact (redact_invalidate scope).trans (h ▸ (redact_invalidate scope).symm)
      | purge => exact redact_purge.trans (h ▸ redact_purge.symm)
      | setClock t => exact congrArg (setClock · t) h
      | tick time => exact (redact_tick time).trans (h ▸ (redact_tick time).symm)

theorem run_alike (h : b.redact = b'.redact) {events events' : List Event}
    (alike : List.Forall₂ Event.Alike events events') :
    (b.run events).redact = (b'.run events').redact := by
  induction alike generalizing b b' with
  | nil => exact h
  | cons first _ ih => exact ih (step_alike h first)

/-- Whatever the texts of assertions and tokens are, two runs that are otherwise the same cannot be
told apart by what is traced, by the results of calls and the times at which they end, by what
tokens and failures show, or by any counter. The texts of tokens in bodies that are no documents count
as the same where the status blames the request. -/
theorem secrets_unobservable (config : Config) (x : Exchanger) (clock : Instant)
    {events events' : List Event} (alike : List.Forall₂ Event.Alike events events') :
    let b := (make config x clock).run events
    let b' := (make config x clock).run events'
    b.observed = b'.observed ∧ b.metrics = b'.metrics ∧ b.tally = b'.tally := by
  intro b b'
  have same : b.redact = b'.redact := run_alike rfl alike
  refine ⟨?_, (congrArg Broker.metrics same :), (congrArg Broker.tally same :)⟩
  calc
    b.observed = b.redact.observed := b.observed_redact.symm
    _ = b'.redact.observed := by rw [same]
    _ = b'.observed := b'.observed_redact

/-! ### Two runs with different secrets -/

/-- A response that grants a token. -/
def grantingReply (token : String) : Reply where
  outcome := .ok ⟨200, none, Utf8.bytes
    ("\x7b\"access_token\":\"" ++ token ++ "\",\"token_type\":\"Bearer\",\"expires_in\":60\x7d")⟩
  metadata := some ⟨some 200, none⟩

/-- A refresh that succeeds. -/
def grantedRun (assertion token : String) : List Event :=
  [.start sampleScope none, .proceed 0, .proceed 0, .readDone 0 (.ok assertion),
    .replied 0 (grantingReply token)]

theorem other_secrets_unobserved :
    let b := (make sampleConfig sampleExchanger sampleClock).run (grantedRun "assertion" "t")
    let b' := (make sampleConfig sampleExchanger sampleClock).run (grantedRun "another" "token")
    b.tokens.entries.map (·.2.secret.expose) = ["t"] ∧
      b'.tokens.entries.map (·.2.secret.expose) = ["token"] ∧
      b.observed = b'.observed ∧ b.metrics = b'.metrics ∧ b.tally = b'.tally := by
  have replies : (grantingReply "t").Alike (grantingReply "token") :=
    .token ⟨rfl, rfl, by decide +kernel, by decide +kernel⟩ fun h => nomatch h.2
  have alike : List.Forall₂ Event.Alike (grantedRun "assertion" "t")
      (grantedRun "another" "token") :=
    .cons (.same _) (.cons (.same _) (.cons (.same _) (.cons (.read 0 _ _)
      (.cons (.replied 0 replies) .nil))))
  exact ⟨by decide +kernel, by decide +kernel, secrets_unobservable _ _ _ alike⟩

/-! ### Runs that a secret tells apart -/

/-- A response that blames the request, with a body that is no error document. -/
def blamingResponse (token : String) : Response :=
  ⟨400, none, Utf8.bytes ("\x7b\"access_token\":\"" ++ token ++ "\"\x7d")⟩

/-- A refresh whose request is blamed, for as often as it is sent. -/
def blamedRun (token : String) : List Event :=
  let reply : Reply := ⟨.ok (blamingResponse token), some ⟨some 400, none⟩⟩
  [.start sampleScope none, .proceed 0, .proceed 0, .readDone 0 (.ok "assertion"), .replied 0 reply,
    .proceed 0, .readDone 0 (.ok "assertion"), .replied 0 reply]

/-- A response that breaks off behind the text of the token. -/
def brokenResponse (token : String) : Response :=
  ⟨200, none, Utf8.bytes ("\x7b\"access_token\":\"" ++ token ++ "\"")⟩

/-- A refresh whose response breaks off. -/
def brokenRun (token : String) : List Event :=
  [.start sampleScope none, .proceed 0, .proceed 0, .readDone 0 (.ok "assertion"),
    .replied 0 ⟨.ok (brokenResponse token), some ⟨some 200, none⟩⟩]

/-- The end of a line that breaks off is at its last byte. -/
def locatingExchanger : Exchanger := { sampleExchanger with locate := fun r => ⟨1, r.body.length⟩ }

/-- The failures with which calls have ended. -/
def failures (b : Broker) : List Failure :=
  b.journal.filterMap fun x =>
    match x.what with
    | .ended (.error f) => some f
    | _ => none

/-- The word for a refused client in the text of a token makes two exchanges of one, and a longer text
moves the place where a response breaks off. -/
theorem secret_tells_runs_apart :
    (let b := (make sampleConfig sampleExchanger sampleClock).run (blamedRun "t")
      let b' := (make sampleConfig sampleExchanger sampleClock).run (blamedRun "invalid_client")
      (blamingResponse "t").Alike (blamingResponse "invalid_client") ∧
        b.metrics.exchanges = 1 ∧ b'.metrics.exchanges = 2 ∧ b.observed ≠ b'.observed) ∧
    (let b := (make sampleConfig locatingExchanger sampleClock).run (brokenRun "t")
      let b' := (make sampleConfig locatingExchanger sampleClock).run (brokenRun "token")
      (brokenResponse "t").Alike (brokenResponse "token") ∧
        b.failures = [.transient (.unparsable ⟨.truncated, ⟨1, 19⟩⟩ (some 200))] ∧
        b'.failures = [.transient (.unparsable ⟨.truncated, ⟨1, 23⟩⟩ (some 200))]) := by
  refine ⟨⟨⟨rfl, rfl, by decide +kernel, by decide +kernel⟩, by decide +kernel, by decide +kernel,
    fun same => ?_⟩, ⟨rfl, rfl, by decide +kernel, by decide +kernel⟩, by decide +kernel,
    by decide +kernel⟩
  exact absurd (congrArg List.length same) (by decide +kernel)

end Broker

end FederatedAccess
