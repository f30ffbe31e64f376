import FederatedAccess.Proofs.Documents
import FederatedAccess.Proofs.Redaction

/-!
# Replies that differ in the text of a token

Replies of the token endpoint are alike when they are the same but for the texts of tokens in their
bodies. They come to the same failure but for the place where the body breaks off, or to tokens that
differ in their texts only. One kind of reply is left out: a body that is no document is shown to the
classifier as it stands when the status blames the request, with the text of a token in it.
-/

namespace FederatedAccess

open Json (Agree Agrees Takes)

/-! ### Documents -/

namespace TokenDocument

/-- Documents that say the same but for the text of the token. -/
structure Alike (d d' : TokenDocument) : Prop where
  tokenType : d.tokenType = d'.tokenType
  expiresIn : d.expiresIn = d'.expiresIn
  expiresOn : d.expiresOn = d'.expiresOn
  empty : d.accessToken = "" ↔ d'.accessToken = ""

/-- Documents under construction that say the same but for the text of the token. -/
structure Progress.Alike (p p' : Progress) : Prop where
  document : p.document.Alike p'.document
  expiries : p.expiries = p'.expiries

variable {α : Type} {p p' : Progress} {d d' : TokenDocument}

theorem member_agrees {S : α → α → Prop} {r : Json.Reader α}
    {set : TokenDocument → α → TokenDocument} {name : String} (optional : Bool) {place : Json.Place}
    (reads : Agrees S place r r)
    (sets : ∀ d d' v v', d.Alike d' → S v v' → (set d v).Alike (set d' v')) (h : p.Alike p') :
    Agrees Progress.Alike place ((member name optional r set).read p)
      ((member name optional r set).read p') :=
  fun _ _ alike =>
    (reads alike).map (f := fun v => { p with document := set p.document v })
      (g := fun v => { p' with document := set p'.document v })
      fun v v' hv => ⟨sets _ _ v v' h.document hv, h.expiries⟩

theorem readNat64_takes (l : Json.Lexeme) : Takes readNat64 l := by
  cases l with
  | number n =>
      cases n with
      | natural n => exact .takes n fun _ => rfl
      | _ => exact .of_mismatch fun _ => rfl
  | _ => exact .of_mismatch fun _ => rfl

theorem judge_cons (l : Json.Lexeme) (ls ls' : List Json.Lexeme) :
    ExpiresOn.judge (l :: ls) = ExpiresOn.judge (l :: ls') := by
  rcases l with _ | _ | _ | _ | _ | _ | _ | _ | (_ | _ | _ | _) | (_ | _) | _ | _ <;> rfl

/-- What a document says besides its members is the same, for the text of a token is a member. -/
theorem readOther_agrees (name : String) (h : p.Alike p') :
    Agrees Progress.Alike .elsewhere (readOther name p) (readOther name p') := by
  intro ls ls' alike
  have passed := Json.check_agrees ExpiresOn.room alike
  have same : ls = [] ∨ ExpiresOn.judge ls = ExpiresOn.judge ls' := by
    cases alike with
    | nil => exact .inl rfl
    | cons l rest => exact .inr (judge_cons l _ _)
  unfold readOther
  generalize hx : Json.check ExpiresOn.room ls = x, Json.check ExpiresOn.room ls' = x' at passed ⊢
  cases passed with
  | error f => exact .error f
  | ok _ rests =>
      have hjudge : ExpiresOn.judge ls = ExpiresOn.judge ls' := by
        rcases same with rfl | hjudge
        · cases hx
        · exact hjudge
      dsimp only
      split
      · exact .ok ⟨h.document, by rw [h.expiries, hjudge]⟩ rests
      · exact .ok h rests

theorem record_treats : record.Treats Progress.Alike where
  members := by
    intro m hm p p' h
    simp only [record, List.mem_cons, List.not_mem_nil, or_false] at hm
    rcases hm with rfl | rfl | rfl | rfl | rfl
    · exact member_agrees false (Json.readString_agrees _)
        (fun _ _ _ _ hd hv => ⟨hd.tokenType, hd.expiresIn, hd.expiresOn, hv⟩) h
    · exact member_agrees false
        (Json.agrees_of_takes (Json.readString_takes _) ⟨_, rfl⟩)
        (fun _ _ _ _ hd hv => ⟨by rw [hv], hd.expiresIn, hd.expiresOn, hd.empty⟩) h
    · exact member_agrees true
        (Json.agrees_of_takes (Json.readOption_takes readNat64_takes) ⟨_, rfl⟩)
        (fun _ _ _ _ hd hv => ⟨hd.tokenType, hv, hd.expiresOn, hd.empty⟩) h
    · exact member_agrees true
        (Json.agrees_of_takes (Json.readOption_takes (Json.readString_takes _)) ⟨_, rfl⟩)
        (fun _ _ _ _ hd _ => hd) h
    · exact member_agrees true
        (Json.agrees_of_takes (Json.readOption_takes (Json.readString_takes _)) ⟨_, rfl⟩)
        (fun _ _ _ _ hd _ => hd) h
  others := by
    intro f hf name other p p' h
    obtain rfl := Json.Others.read.inj hf
    have hname : name ≠ Json.tokenName := fun he => other _ List.mem_cons_self he.symm
    rw [Json.Place.ofName, if_neg hname]
    exact readOther_agrees name h

theorem finish_alike (h : p.Alike p') :
    (∃ f, p.finish = .error f ∧ p'.finish = .error f) ∨
      ∃ d d', p.finish = .ok d ∧ p'.finish = .ok d' ∧ d.Alike d' := by
  obtain ⟨document, expiries⟩ := p
  obtain ⟨document', _⟩ := p'
  obtain ⟨hd, rfl⟩ := h
  rcases expiries with _ | ⟨f | v, _ | ⟨_, _⟩⟩
  · exact .inr ⟨_, _, rfl, rfl, hd⟩
  · exact .inl ⟨_, rfl, rfl⟩
  · exact .inl ⟨_, rfl, rfl⟩
  · exact .inr ⟨_, _, rfl, rfl, hd.tokenType, hd.expiresIn, rfl, hd.empty⟩
  · exact .inl ⟨_, rfl, rfl⟩

theorem reader_agrees : Agrees Alike .elsewhere reader reader := by
  intro ls ls' alike
  have start : Progress.Alike {} {} := ⟨⟨rfl, rfl, rfl, Iff.rfl⟩, rfl⟩
  have object := record_treats.readObject start alike
  unfold reader
  generalize record.readObject {} ls = x, record.readObject {} ls' = x' at object ⊢
  cases object with
  | error f => exact .error f
  | ok h rests =>
      dsimp only
      rcases finish_alike h with ⟨f, hf, hf'⟩ | ⟨d, d', hd, hd', alike⟩
      · rw [hf, hf']
        exact .error f
      · rw [hd, hd']
        exact .ok alike rests

end TokenDocument

namespace ErrorDocument

theorem member_agrees {α : Type} {r : Json.Reader α} (takes : ∀ l, Takes r l)
    (hnil : ∃ f, r [] = .error f) (f : α → ErrorDocument) :
    Agrees Eq .elsewhere (fun ls => (r ls).map fun v => (f v.1, v.2))
      fun ls => (r ls).map fun v => (f v.1, v.2) :=
  fun _ _ alike => (Json.agrees_of_takes takes hnil alike).map fun _ _ => congrArg f

theorem record_treats : record.Treats Eq where
  members := by
    intro m hm d _ hd
    subst hd
    simp only [record, List.mem_cons, List.not_mem_nil, or_false] at hm
    rcases hm with rfl | rfl | rfl
    · exact member_agrees (Json.readString_takes _) ⟨_, rfl⟩ fun v => { d with code := v }
    · exact member_agrees (Json.readOption_takes (Json.readString_takes _)) ⟨_, rfl⟩
        fun v => { d with description := v }
    · exact member_agrees (Json.readOption_takes (Json.readString_takes _)) ⟨_, rfl⟩ fun _ => d
  others := fun f hf => nomatch hf

theorem reader_agrees : Agrees Eq .elsewhere reader reader :=
  record_treats.read (by decide) rfl

end ErrorDocument

/-! ### Responses -/

/-- Responses that are the same but for the texts of tokens in their bodies. -/
structure Response.Alike (r r' : Response) : Prop where
  status : r.status = r'.status
  contentType : r.contentType = r'.contentType
  empty : r.body.isEmpty = r'.body.isEmpty
  body : Json.Alike .elsewhere (Json.lex (Utf8.decode r.body)) (Json.lex (Utf8.decode r'.body))

/-- What alike responses turn out to be. -/
inductive Received.Alike : Received → Received → Prop
  | token {d d'} (documents : d.Alike d') : Alike (.token d) (.token d')
  | same (r) : Alike r r

theorem Json.Agree.first {α : Type} {R : α → α → Prop}
    {x x' : Except Json.Fault (α × List Json.Lexeme)} (h : Agree R x x') :
    (∃ f, x.map (·.1) = .error f ∧ x'.map (·.1) = .error f) ∨
      ∃ a a', x.map (·.1) = .ok a ∧ x'.map (·.1) = .ok a' ∧ R a a' := by
  cases h with
  | ok values rests => exact .inr ⟨_, _, rfl, rfl, values⟩
  | error f => exact .inl ⟨f, rfl, rfl⟩

theorem Response.Alike.receive {r r' : Response} (h : r.Alike r') :
    Received.Alike r.receive r'.receive := by
  unfold Response.receive Response.readBody Json.readFirst
  rw [← h.status, ← h.contentType, ← h.empty]
  split
  · split
    · exact .same _
    · rcases (ErrorDocument.reader_agrees h.body).first with ⟨f, hf, hf'⟩ | ⟨d, _, hd, hd', rfl⟩
      · rw [hf, hf']
        exact .same _
      · rw [hd, hd']
        exact .same _
  · split
    · exact .same _
    · split
      · exact .same _
      · rcases (TokenDocument.reader_agrees h.body).first with ⟨f, hf, hf'⟩ | ⟨d, d', hd, hd', alike⟩
        · rw [hf, hf']
          exact .same _
        · rw [hd, hd']
          exact .token alike

/-! ### Replies -/

/-- The body of a response is no document, and the status that is remembered of it blames the
request. -/
def Response.Unstructured (r : Response) (metadata : Option Metadata) : Prop :=
  (∃ category, r.receive = .unparsable category) ∧
    ∃ status, Exchanger.clientError? ⟨.ok r, metadata⟩ = some status

/-- Replies that are the same but for the texts of tokens in the body of the response, unless the body
is no document and the request is blamed. -/
inductive Reply.Alike : Reply → Reply → Prop
  | same (reply) : Alike reply reply
  | token {r r' metadata} (responses : r.Alike r') (structured : ¬ r.Unstructured metadata) :
      Alike ⟨.ok r, metadata⟩ ⟨.ok r', metadata⟩

namespace Exchanger

variable {d d' : TokenDocument}

theorem build_alike (draft : AccessToken.Draft) {s s' : String} (h : s = "" ↔ s' = "") :
    ({ draft with secret := some s }.build.mapError unusable).map AccessToken.redact =
      ({ draft with secret := some s' }.build.mapError unusable).map AccessToken.redact := by
  have expiry (secret : Option String) : { draft with secret }.expiry = draft.expiry := rfl
  unfold AccessToken.Draft.build
  simp only [Option.getD_some, expiry]
  by_cases hs : s = ""
  · rw [if_pos hs, if_pos (h.mp hs)]
  · rw [if_neg hs, if_neg fun hs' => hs (h.mpr hs')]
    cases draft.expiry with
    | error f => rfl
    | ok expiresAt =>
        dsimp only
        by_cases positive : draft.issuedAt < expiresAt
        · rw [if_pos positive, if_pos positive]
          rfl
        · rw [if_neg positive, if_neg positive]

/-- Alike documents grant tokens that differ in their texts only. -/
theorem grant_alike (h : d.Alike d') (scope : ScopeSet) (requestedAt : Instant) :
    (grant d scope requestedAt).map AccessToken.redact =
      (grant d' scope requestedAt).map AccessToken.redact := by
  have label : d.typeLabel = d'.typeLabel := by
    rw [TokenDocument.typeLabel, TokenDocument.typeLabel, h.tokenType]
  have builds (expiresAt : Option Instant) (expiresIn : Option Duration) :=
    build_alike ⟨scope, none, d.typeLabel, requestedAt, expiresAt, expiresIn⟩ h.empty
  unfold grant
  rw [← h.expiresIn, ← h.expiresOn, ← label]
  dsimp only
  split
  · split
    · exact builds _ _
    · rfl
  · split
    · exact builds _ _
    · rfl
  · exact builds _ _

theorem redactResult_mapError {f : Unusable → Failure} {x x' : Except Unusable AccessToken}
    (h : x.map AccessToken.redact = x'.map AccessToken.redact) :
    redactResult (x.mapError f) = redactResult (x'.mapError f) := by
  have commutes (y : Except Unusable AccessToken) : redactResult (y.mapError f) =
      (y.map AccessToken.redact).mapError fun reason => (f reason).redact := by
    cases y <;> rfl
  rw [commutes, commutes, h]

/-- Alike replies come to the same, but for the text of the token. -/
theorem conclude_alike {reply reply' : Reply} (h : reply.Alike reply') (e : Exchanger)
    (scope : ScopeSet) (requestedAt : Instant) :
    (e.conclude scope requestedAt reply).redact = (e.conclude scope requestedAt reply').redact := by
  cases h with
  | same => rfl
  | @token r r' metadata responses structured =>
      have received := responses.receive
      unfold Response.Unstructured at structured
      simp only [conclude, judgeResponse]
      generalize r.receive = x, r'.receive = x' at received structured ⊢
      cases received with
      | token documents =>
          have granted := grant_alike documents scope requestedAt
          exact congrArg (Judgement.mk · none) (redactResult_mapError granted)
      | same x =>
          cases x with
          | token d => rfl
          | refused d => rfl
          | improper summary => rfl
          | unparsable category =>
              -- the status is not looked at further, so the body is not shown to the classifier
              have unblamed : clientError? ⟨.ok r, metadata⟩ = none := by
                refine Option.eq_none_iff_forall_ne_some.mpr fun status blamed => ?_
                exact structured ⟨⟨category, rfl⟩, status, blamed⟩
              have unblamed' : clientError? ⟨.ok r', metadata⟩ = none := unblamed
              simp only [judgeUnstructured, unblamed, unblamed']
              rfl

end Exchanger

end FederatedAccess
