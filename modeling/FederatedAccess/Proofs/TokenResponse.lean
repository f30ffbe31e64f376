import FederatedAccess.Http.Wire
import FederatedAccess.Proofs.Grant
import FederatedAccess.Proofs.SharedOutcome

/-!
# Which responses yield a token

A response yields a token exactly when it is a success, is not of a media type other than that of
JSON, and carries a document with a text for the token and an expiry that the calendar has and that
is later than the request. All other successes come to a failure that may pass.
-/

namespace FederatedAccess

/-- A response is a success that carries a token document. -/
structure Response.Carries (r : Response) (d : TokenDocument) : Prop where
  success : r.status = 200
  json : ∀ value, r.contentType = some value → Response.isJson value = true
  body : Response.readBody TokenDocument.reader r.body = .ok d

/-- A token that is requested at an instant and granted by a document expires at another instant: the
lifetime counts from the request, and an absolute expiry counts where no lifetime is given. -/
inductive TokenDocument.Expires (d : TokenDocument) (requestedAt expiresAt : Instant) : Prop
  | lifetime {n} (given : d.expiresIn = some n) (positive : 0 < n)
      (sum : requestedAt.add? (.ofSeconds n) = some expiresAt)
  | absolute {n} (none : d.expiresIn = none) (given : d.expiresOn = some n)
      (instant : Instant.ofSeconds? n = some expiresAt) (later : requestedAt < expiresAt)

/-- The expiry of a token is later than the request. -/
theorem TokenDocument.Expires.later {d : TokenDocument} {requestedAt expiresAt : Instant}
    (h : d.Expires requestedAt expiresAt) : requestedAt < expiresAt := by
  cases h with
  | @lifetime n _ positive sum =>
      rw [Instant.lt_def, (Instant.add?_eq_some_iff.mp sum).1]
      simp only [Duration.ofSeconds, nanosPerSecond]
      omega
  | absolute _ _ _ later => exact later

/-- What a transport remembers as the status is the status of the response. -/
def Reply.Truthful (r : Reply) : Prop :=
  ∀ response status, r.outcome = .ok response → r.status = some status → status = response.status

/-- Over a connection, the status that is remembered is that of the response. -/
theorem Wire.truthful_reply (now : Instant) (script : Option Wire.Script) :
    (Wire.reply now script).Truthful := by
  intro response status houtcome hstatus
  cases script with
  | none => cases houtcome
  | some s =>
      obtain ⟨code, headers, body, conduct⟩ := s
      cases conduct with
      | complete =>
          cases houtcome
          exact (Option.some.inj hstatus).symm
      | _ => cases houtcome

/-! ### Documents -/

/-- An empty body holds no document. -/
theorem Response.body_ne_nil {r : Response} {d : TokenDocument}
    (h : Response.readBody TokenDocument.reader r.body = .ok d) : r.body.isEmpty = false := by
  cases hbody : r.body with
  | nil =>
      rw [hbody] at h
      cases h
  | cons b rest => rfl

theorem Response.receive_eq_token_iff {r : Response} {d : TokenDocument} :
    r.receive = .token d ↔ r.Carries d := by
  constructor
  · intro h
    have hsuccess := r.status_of_receive_token h
    unfold receive at h
    rw [if_neg (by simpa using hsuccess)] at h
    split at h
    · cases h
    · rename_i hjson
      split at h
      · cases h
      · split at h
        · rename_i d' hread
          cases h
          refine ⟨hsuccess, fun value hvalue => ?_, hread⟩
          simpa using Option.filter_eq_none_iff.mp hjson value hvalue
        · cases h
  · rintro ⟨hsuccess, hjson, hread⟩
    have htype : r.contentType.filter (!isJson ·) = none := by
      rw [Option.filter_eq_none_iff]
      intro value hvalue
      simp [hjson value hvalue]
    unfold receive
    rw [if_neg (by simpa using hsuccess), htype]
    simp [body_ne_nil hread, hread]

/-- A success is not read as an error document. -/
theorem Response.receive_ne_refused {r : Response} (success : r.status = 200) (d : ErrorDocument) :
    r.receive ≠ .refused d := by
  intro h
  unfold receive at h
  rw [if_neg (by simpa using success)] at h
  split at h
  · cases h
  · split at h
    · cases h
    · split at h <;> cases h

namespace Exchanger

/-- A draft with a text and an expiry later than its issue becomes a token. -/
theorem build_eq_ok_iff {d : AccessToken.Draft} {t : AccessToken} : d.build = .ok t ↔
    d.secret.getD "" = t.secret.expose ∧ d.tokenType = t.tokenType ∧ d.scope = t.scope ∧
      d.issuedAt = t.issuedAt ∧ d.expiry = .ok t.expiresAt ∧ t.IsSound := by
  obtain ⟨⟨text⟩, tokenType, scope, issuedAt, expiresAt⟩ := t
  constructor
  · intro h
    have sound := AccessToken.Draft.isSound_of_build h
    unfold AccessToken.Draft.build at h
    dsimp only at h
    split at h
    · cases h
    · split at h
      · cases h
      · rename_i hexpiry
        split at h
        · cases h
          exact ⟨rfl, rfl, rfl, rfl, hexpiry, sound⟩
        · cases h
  · rintro ⟨rfl, rfl, rfl, rfl, hexpiry, nonempty, positive⟩
    unfold AccessToken.Draft.build
    dsimp only at nonempty positive ⊢
    rw [if_neg nonempty, hexpiry]
    dsimp only
    rw [if_pos positive]

/-- A lifetime beyond 63 bits of seconds leaves the calendar. -/
theorem lt_of_add?_eq_some {n : Nat} {requestedAt t : Instant}
    (h : requestedAt.add? (.ofSeconds n) = some t) : n < Nat.pow 2 63 := by
  obtain ⟨sum, offset⟩ := Instant.add?_eq_some_iff.mp h
  have least := requestedAt.inRange.1
  have greatest := t.inRange.2
  rw [sum, offset] at greatest
  simp only [Duration.ofSeconds, nanosPerSecond] at least greatest
  change n < 9223372036854775808
  omega

/-- The expiry of a draft with a lifetime is the instant later by it. -/
theorem expiry_of_lifetime {d : AccessToken.Draft} {lifetime : Duration} {t : Instant}
    (h : d.expiresIn = some lifetime) : d.expiry = .ok t ↔ d.issuedAt.add? lifetime = some t := by
  cases hsum : d.issuedAt.add? lifetime <;> simp [AccessToken.Draft.expiry, h, hsum]

/-- A token that a document grants has the text and the expiry of the document. -/
theorem grant_eq_ok_iff {d : TokenDocument} {scope : ScopeSet} {requestedAt : Instant}
    {t : AccessToken} : grant d scope requestedAt = .ok t ↔
      t.scope = scope ∧ t.issuedAt = requestedAt ∧ d.accessToken ≠ "" ∧
        t.secret.expose = d.accessToken ∧ t.tokenType = d.typeLabel ∧
        d.Expires requestedAt t.expiresAt := by
  constructor
  · intro h
    unfold grant at h
    dsimp only at h
    split at h
    · rename_i n hn
      split at h
      · obtain ⟨hsecret, htype, hscope, hissued, hexpiry, nonempty, positive⟩ :=
          build_eq_ok_iff.mp (ok_of_mapError h)
        have sum := (expiry_of_lifetime rfl).mp hexpiry
        refine ⟨hscope.symm, hissued.symm, fun empty => nonempty (hsecret.symm.trans empty),
          hsecret.symm, htype.symm, .lifetime hn ?_ sum⟩
        rw [← hissued, Instant.lt_def, (Instant.add?_eq_some_iff.mp sum).1] at positive
        simp only [Duration.ofSeconds, nanosPerSecond] at positive
        omega
      · cases h
    · rename_i n hnone hn
      split at h
      · rename_i u hinstant
        obtain ⟨hsecret, htype, hscope, hissued, hexpiry, nonempty, positive⟩ :=
          build_eq_ok_iff.mp (ok_of_mapError h)
        cases hexpiry
        rw [← hissued] at positive
        exact ⟨hscope.symm, hissued.symm, fun empty => nonempty (hsecret.symm.trans empty),
          hsecret.symm, htype.symm, .absolute hnone hn hinstant positive⟩
      · cases h
    · have hexpiry := (build_eq_ok_iff.mp (ok_of_mapError h)).2.2.2.2.1
      cases hexpiry
  · rintro ⟨rfl, rfl, nonempty, hsecret, htype, hexpires⟩
    have sound : t.IsSound := ⟨hsecret ▸ nonempty, hexpires.later⟩
    unfold grant
    cases hexpires with
    | @lifetime n given positive sum =>
        have built : AccessToken.Draft.build
            { scope := t.scope, secret := some d.accessToken, tokenType := d.typeLabel
              issuedAt := t.issuedAt, expiresIn := some (.ofSeconds n) } = .ok t :=
          build_eq_ok_iff.mpr
            ⟨hsecret.symm, htype.symm, rfl, rfl, (expiry_of_lifetime rfl).mpr sum, sound⟩
        rw [given]
        dsimp only
        rw [if_pos (lt_of_add?_eq_some sum), built]
        rfl
    | absolute none given instant later =>
        have built : AccessToken.Draft.build
            { scope := t.scope, secret := some d.accessToken, tokenType := d.typeLabel
              issuedAt := t.issuedAt, expiresAt := some t.expiresAt } = .ok t :=
          build_eq_ok_iff.mpr ⟨hsecret.symm, htype.symm, rfl, rfl, rfl, sound⟩
        rw [none, given]
        dsimp only
        rw [instant]
        dsimp only
        rw [built]
        rfl

/-- A success that yields no token comes to a failure that may pass, if the transport tells its
status or none. -/
theorem transient_of_success {x : Exchanger} {scope : ScopeSet} {requestedAt : Instant}
    {response : Response} {metadata : Option Metadata} {f : Failure}
    (success : response.status = 200) (truthful : Reply.Truthful ⟨.ok response, metadata⟩)
    (h : (x.conclude scope requestedAt ⟨.ok response, metadata⟩).result = .error f) :
    ∃ reason, f = .transient reason := by
  have unblamed : clientError? ⟨.ok response, metadata⟩ = none := by
    refine Option.filter_eq_none_iff.mpr fun status hstatus => ?_
    rw [truthful response status rfl hstatus, success]
    decide
  have unstructured (body : List Char) (reason : Transient) :
      (x.judgeUnstructured ⟨.ok response, metadata⟩ body reason).result =
        .error (.transient reason) := by
    rw [judgeUnstructured, unblamed]
  change (x.judgeResponse scope requestedAt ⟨.ok response, metadata⟩ response).result = _ at h
  unfold judgeResponse at h
  split at h
  · rename_i d hreceive
    dsimp only at h
    cases hgrant : grant d scope requestedAt with
    | ok t =>
        rw [hgrant] at h
        cases h
    | error reason =>
        rw [hgrant] at h
        exact ⟨_, (Except.error.inj h).symm⟩
  · rename_i d hreceive
    exact absurd hreceive (Response.receive_ne_refused success d)
  · rw [unstructured] at h
    exact ⟨_, (Except.error.inj h).symm⟩
  · rw [unstructured] at h
    exact ⟨_, (Except.error.inj h).symm⟩

/-- A response yields the tokens that its document grants. -/
theorem result_eq_ok_iff {x : Exchanger} {scope : ScopeSet} {requestedAt : Instant}
    {response : Response} {metadata : Option Metadata} {t : AccessToken} :
    (x.conclude scope requestedAt ⟨.ok response, metadata⟩).result = .ok t ↔
      ∃ d, response.Carries d ∧ grant d scope requestedAt = .ok t := by
  constructor
  · intro h
    change (x.judgeResponse scope requestedAt ⟨.ok response, metadata⟩ response).result = _ at h
    unfold judgeResponse at h
    split at h
    · rename_i d hreceive
      exact ⟨d, Response.receive_eq_token_iff.mp hreceive, ok_of_mapError h⟩
    · cases h
    · unfold judgeUnstructured at h
      split at h <;> cases h
    · unfold judgeUnstructured at h
      split at h <;> cases h
  · rintro ⟨d, hcarries, hgrant⟩
    change (x.judgeResponse scope requestedAt ⟨.ok response, metadata⟩ response).result = _
    rw [judgeResponse, Response.receive_eq_token_iff.mpr hcarries]
    dsimp only
    rw [hgrant]
    rfl

/-- A response yields a token exactly when it carries a document with a text for the token and an
expiry that counts from the request. The token then is for the scope set asked for, is issued at the
moment of the request, and has the text, the type and the expiry of the document. Every other success
comes to a failure that may pass, if the transport tells the status of the response or none. -/
theorem token_yielded_iff (x : Exchanger) (scope : ScopeSet) (requestedAt : Instant)
    (response : Response) (metadata : Option Metadata) :
    let result := (x.conclude scope requestedAt ⟨.ok response, metadata⟩).result
    (∀ t, result = .ok t ↔ t.scope = scope ∧ t.issuedAt = requestedAt ∧
      ∃ d, response.Carries d ∧ d.accessToken ≠ "" ∧ t.secret.expose = d.accessToken ∧
        t.tokenType = d.typeLabel ∧ d.Expires requestedAt t.expiresAt) ∧
    ((∃ t, result = .ok t) ↔
      ∃ d expiresAt, response.Carries d ∧ d.accessToken ≠ "" ∧ d.Expires requestedAt expiresAt) ∧
    (response.status = 200 → Reply.Truthful ⟨.ok response, metadata⟩ →
      ∀ f, result = .error f → (∃ reason, f = .transient reason) ∧ f.isRetryable = true) := by
  intro result
  have yields (t : AccessToken) : result = .ok t ↔ t.scope = scope ∧ t.issuedAt = requestedAt ∧
      ∃ d, response.Carries d ∧ d.accessToken ≠ "" ∧ t.secret.expose = d.accessToken ∧
        t.tokenType = d.typeLabel ∧ d.Expires requestedAt t.expiresAt := by
    rw [result_eq_ok_iff]
    constructor
    · rintro ⟨d, hcarries, hgrant⟩
      obtain ⟨hscope, hissued, htoken⟩ := grant_eq_ok_iff.mp hgrant
      exact ⟨hscope, hissued, d, hcarries, htoken⟩
    · rintro ⟨hscope, hissued, d, hcarries, htoken⟩
      exact ⟨d, hcarries, grant_eq_ok_iff.mpr ⟨hscope, hissued, htoken⟩⟩
  refine ⟨yields, ⟨?_, ?_⟩, ?_⟩
  · rintro ⟨t, ht⟩
    obtain ⟨-, -, d, hcarries, htext, -, -, hexpires⟩ := (yields t).mp ht
    exact ⟨d, _, hcarries, htext, hexpires⟩
  · rintro ⟨d, expiresAt, hcarries, htext, hexpires⟩
    exact ⟨⟨⟨d.accessToken⟩, d.typeLabel, scope, requestedAt, expiresAt⟩,
      (yields _).mpr ⟨rfl, rfl, d, hcarries, htext, rfl, rfl, hexpires⟩⟩
  · intro success truthful f hf
    obtain ⟨reason, rfl⟩ := transient_of_success success truthful hf
    exact ⟨⟨reason, rfl⟩, rfl⟩

/-! ### Responses with two expiries -/

/-- A response whose two expiries disagree. -/
def twofoldResponse (lifetime : String) : Response :=
  ⟨200, some (Utf8.bytes "Application/JSON; charset=utf-8"), Utf8.bytes
    ("\x7b\"token_type\":\"Bearer\",\"expires_on\":\" 7 \",\"access_token\":\"t\",\"expires_in\":" ++
      lifetime ++ "\x7d")⟩

/-- What a transport remembers of a success. -/
def successMetadata : Metadata := ⟨some 200, none⟩

theorem lifetime_precedes_expiry :
    let result (lifetime : String) := (Broker.sampleExchanger.conclude Broker.sampleScope
      Broker.sampleClock ⟨.ok (twofoldResponse lifetime), some successMetadata⟩).result
    (∃ t, result "60" = .ok t ∧ t.expiresAt.nanos = 60 * nanosPerSecond ∧
      t.scope = Broker.sampleScope ∧ t.issuedAt = Broker.sampleClock) ∧
    (∃ f, result "9223372036854775808" = .error f ∧ f.isRetryable = true) ∧
    ∃ f, result "0" = .error f ∧ f.isRetryable = true := by
  intro result
  have yielded := token_yielded_iff Broker.sampleExchanger Broker.sampleScope Broker.sampleClock
  have fails {lifetime : String} (h : (result lifetime).toOption.isNone = true) :
      ∃ f, result lifetime = .error f ∧ f.isRetryable = true := by
    cases hr : result lifetime with
    | ok t =>
        rw [hr] at h
        cases h
    | error f =>
        have truthful : Reply.Truthful ⟨.ok (twofoldResponse lifetime), some successMetadata⟩ := by
          rintro response status houtcome hstatus
          cases houtcome
          exact (Option.some.inj hstatus).symm
        exact ⟨f, rfl, ((yielded _ _).2.2 rfl truthful f hr).2⟩
  refine ⟨?_, fails (by decide +kernel), fails (by decide +kernel)⟩
  have expiry : (result "60").toOption.map (·.expiresAt.nanos) = some (60 * nanosPerSecond) := by
    decide +kernel
  cases hr : result "60" with
  | error f =>
      rw [hr] at expiry
      cases expiry
  | ok t =>
      obtain ⟨hscope, hissued, -⟩ := ((yielded _ _).1 t).mp hr
      rw [hr] at expiry
      exact ⟨t, rfl, Option.some.inj expiry, hscope, hissued⟩

end Exchanger

end FederatedAccess
