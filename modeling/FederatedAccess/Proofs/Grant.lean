import FederatedAccess.Exchange

/-!
# Granted tokens

A reply grants a token only as a response with status 200 whose body is a token document. The token
is then for the scope set that was asked for, counts its lifetime from the moment of the request,
and carries the text of the document.
-/

namespace FederatedAccess

/-- A reply that is a successful response from which a token is made. -/
def Reply.Grants (reply : Reply) (t : AccessToken) : Prop :=
  ∃ response d, reply.outcome = .ok response ∧ response.status = 200 ∧
    response.receive = .token d ∧ Exchanger.grant d t.scope t.issuedAt = .ok t

/-- A built token has the scope set and the issue of its draft, and is sound. -/
theorem AccessToken.Draft.build_eq_ok {d : AccessToken.Draft} {t : AccessToken}
    (h : d.build = .ok t) : t.scope = d.scope ∧ t.issuedAt = d.issuedAt ∧ t.IsSound := by
  have sound := isSound_of_build h
  unfold AccessToken.Draft.build at h
  dsimp only at h
  split at h
  · cases h
  · split at h
    · cases h
    · split at h
      · cases h
        exact ⟨rfl, rfl, sound⟩
      · cases h

theorem ok_of_mapError {ε ε' α : Type} {f : ε → ε'} {r : Except ε α} {a : α}
    (h : r.mapError f = .ok a) : r = .ok a := by
  cases r with
  | error _ => cases h
  | ok _ => exact congrArg Except.ok (Except.ok.inj h)

namespace Exchanger

theorem grant_eq_ok {d : TokenDocument} {scope : ScopeSet} {requestedAt : Instant} {t : AccessToken}
    (h : grant d scope requestedAt = .ok t) :
    t.scope = scope ∧ t.issuedAt = requestedAt ∧ t.IsSound := by
  unfold grant at h
  dsimp only at h
  split at h
  · split at h
    · exact AccessToken.Draft.build_eq_ok (ok_of_mapError h)
    · cases h
  · split at h
    · exact AccessToken.Draft.build_eq_ok (ok_of_mapError h)
    · cases h
  · exact AccessToken.Draft.build_eq_ok (ok_of_mapError h)

end Exchanger

/-- A token that a reply grants is sound. -/
theorem Reply.Grants.isSound {reply : Reply} {t : AccessToken} (h : reply.Grants t) : t.IsSound := by
  obtain ⟨response, d, -, -, -, hgrant⟩ := h
  exact (Exchanger.grant_eq_ok hgrant).2.2

theorem Response.status_of_receive_token {r : Response} {d : TokenDocument}
    (h : r.receive = .token d) : r.status = 200 := by
  unfold receive at h
  split at h
  · split at h
    · cases h
    · split at h <;> cases h
  · rename_i hs
    exact Decidable.not_not.mp hs

/-- Only a successful response ends in a token, and the token is for the scope set asked for. -/
theorem Exchanger.grants_of_conclude {x : Exchanger} {scope : ScopeSet} {requestedAt : Instant}
    {reply : Reply} {t : AccessToken} (h : (x.conclude scope requestedAt reply).result = .ok t) :
    t.scope = scope ∧ reply.Grants t := by
  unfold conclude at h
  split at h
  · rename_i response houtcome
    unfold judgeResponse at h
    split at h
    · rename_i d hreceive
      have hg := ok_of_mapError h
      obtain ⟨hscope, hissued, -⟩ := grant_eq_ok hg
      refine ⟨hscope, response, d, houtcome, response.status_of_receive_token hreceive, hreceive,
        ?_⟩
      rw [hscope, hissued]
      exact hg
    · cases h
    · unfold judgeUnstructured at h
      split at h <;> cases h
    · unfold judgeUnstructured at h
      split at h <;> cases h
  · cases h

end FederatedAccess
