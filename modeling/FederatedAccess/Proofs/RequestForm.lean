import FederatedAccess.Exchange
import FederatedAccess.Proofs.ScopeText
import FederatedAccess.Proofs.Text.RoundTrip

/-!
# What a request says

The body of a request is read as the form that was written, whatever the client, the assertion and
the scopes are: no character of a value ends the value, adds a field or changes another one. The
scope field is read as the scope set that was asked for.
-/

namespace FederatedAccess

namespace Form

/-- A character that is escaped or stands for itself is written without a plus sign. -/
theorem plus_not_mem_encodeChar (c : Char) : '+' ∉ Percent.encodeChar isPlain c := by
  intro hmem
  rcases Percent.mem_encodeChar hmem with h | h | h
  · exact absurd h (by decide)
  · exact absurd h (by decide)
  · exact absurd h (by decide)

/-- Where plus signs are turned back, spaces stand for themselves. -/
theorem map_encodeText (cs : List Char) :
    (encodeText cs).map (fun c => if c = '+' then ' ' else c) =
      Percent.encode (fun c => c == ' ' || isPlain c) cs := by
  rw [encodeText, Percent.encode, List.map_flatMap]
  congr 1
  funext c
  unfold encodeChar
  split
  · rename_i hspace
    subst hspace
    rfl
  · rename_i hspace
    have hsame : Percent.encodeChar (fun c => c == ' ' || isPlain c) c =
        Percent.encodeChar isPlain c := by
      simp only [Percent.encodeChar, beq_false_of_ne hspace, Bool.false_or]
    rw [hsame]
    refine (List.map_congr_left fun d hd => if_neg ?_).trans (List.map_id _)
    rintro rfl
    exact plus_not_mem_encodeChar c hd

/-- A written text is read as the text. -/
theorem decodeText_encodeText (cs : List Char) : decodeText (encodeText cs) = cs := by
  rw [decodeText, map_encodeText, Percent.decode_encode (by decide), Utf8.decodeLossy_encode]

/-- A written text holds plus signs, percent signs and characters that stand for themselves. -/
theorem mem_encodeText {cs : List Char} {d : Char} (h : d ∈ encodeText cs) :
    d = '+' ∨ d = '%' ∨ isPlain d = true := by
  obtain ⟨c, -, hd⟩ := List.mem_flatMap.mp h
  unfold encodeChar at hd
  split at hd
  · exact .inl (List.mem_singleton.mp hd)
  · rcases Percent.mem_encodeChar hd with hplain | hsign | halnum
    · exact .inr (.inr hplain)
    · exact .inr (.inl hsign)
    · exact .inr (.inr (by simp [isPlain, halnum]))

theorem equals_not_mem_encodeText (cs : List Char) : '=' ∉ encodeText cs := by
  intro hmem
  rcases mem_encodeText hmem with h | h | h <;> exact absurd h (by decide)

theorem ampersand_not_mem_encodePair (p : String × String) : '&' ∉ encodePair p := by
  have hnot (cs : List Char) : '&' ∉ encodeText cs := by
    intro hmem
    rcases mem_encodeText hmem with h | h | h <;> exact absurd h (by decide)
  simp [encodePair, hnot]

theorem decodePair_encodePair (p : String × String) : decodePair (encodePair p) = p := by
  have hname : ∀ c ∈ encodeText p.1.toList, (c != '=') = true := fun c hc => bne_iff_ne.mpr
    fun he => equals_not_mem_encodeText _ (he ▸ hc)
  have htake : ('=' :: encodeText p.2.toList).takeWhile (· != '=') = [] := rfl
  have hdrop : ('=' :: encodeText p.2.toList).dropWhile (· != '=') =
      '=' :: encodeText p.2.toList := rfl
  simp only [decodePair, encodePair, List.takeWhile_append_of_pos hname,
    List.dropWhile_append_of_pos hname, htake, hdrop, List.append_nil, List.drop_succ_cons,
    List.drop_zero, decodeText_encodeText, String.ofList_toList]

/-- A written form is read as the form. -/
theorem decode_encode (pairs : List (String × String)) : decode (encode pairs) = pairs := by
  cases pairs with
  | nil => rfl
  | cons p rest =>
      have hpieces : (encode (p :: rest)).splitOn '&' = (p :: rest).map encodePair := by
        refine List.splitOn_intercalate '&' (fun piece hpiece => ?_) (List.cons_ne_nil _ _)
        obtain ⟨q, -, rfl⟩ := List.mem_map.mp hpiece
        exact ampersand_not_mem_encodePair q
      have hfull : ((p :: rest).map encodePair).filter (!·.isEmpty) = (p :: rest).map encodePair := by
        refine List.filter_eq_self.mpr fun piece hpiece => ?_
        obtain ⟨q, -, rfl⟩ := List.mem_map.mp hpiece
        simp [encodePair]
      calc
        decode (encode (p :: rest))
          = (((encode (p :: rest)).splitOn '&').filter (!·.isEmpty)).map decodePair := rfl
        _ = (p :: rest).map (decodePair ∘ encodePair) := by rw [hpieces, hfull, List.map_map]
        _ = p :: rest := (List.map_congr_left fun q _ => decodePair_encodePair q).trans (List.map_id _)

end Form

namespace Exchanger

/-- A request can be made for every scope set but the empty one, if the endpoint can be named. -/
theorem prepare_eq_ok_iff {x : Exchanger} {assertion : Secret} {scope : ScopeSet}
    {request : TokenRequest} : x.prepare assertion scope = .ok request ↔
      scope.isEmpty = false ∧ ∃ target, Target.ofUrl x.endpoint = .ok target ∧
        request = ⟨String.ofList target, x.form assertion scope⟩ := by
  unfold prepare
  split
  · rename_i hempty
    simp [hempty]
  · rename_i hempty
    cases Target.ofUrl x.endpoint with
    | error f => simp
    | ok target => simp [hempty, eq_comm]

/-- For whatever client, assertion and scope set, a request is made whose body is read as five
fields, each of them once and with the value that was asked for, and the scope field is read as the
scope set. There is no field for a client secret. -/
theorem request_says_what_was_asked (x : Exchanger) (assertion : Secret) (scope : ScopeSet)
    (asked : scope.isEmpty = false) {target : List Char}
    (reached : Target.ofUrl x.endpoint = .ok target) :
    ∃ request, x.prepare assertion scope = .ok request ∧
      request.target = String.ofList target ∧
      Form.decode request.body.toList =
        [("grant_type", "client_credentials"), ("scope", scope.normalized),
          ("client_id", x.clientId.text),
          ("client_assertion_type", "urn:ietf:params:oauth:client-assertion-type:jwt-bearer"),
          ("client_assertion", assertion.expose)] ∧
      ((Form.decode request.body.toList).map Prod.fst).Nodup ∧
      "client_secret" ∉ (Form.decode request.body.toList).map Prod.fst ∧
      ScopeSet.parse scope.normalized = .ok scope := by
  have decoded : Form.decode (TokenRequest.body
      ⟨String.ofList target, x.form assertion scope⟩).toList = x.form assertion scope := by
    rw [TokenRequest.body, String.toList_ofList, Form.decode_encode]
  have names : (x.form assertion scope).map Prod.fst =
      ["grant_type", "scope", "client_id", "client_assertion_type", "client_assertion"] := rfl
  refine ⟨_, prepare_eq_ok_iff.mpr ⟨asked, target, reached, rfl⟩, rfl, decoded, ?_, ?_,
    scope.parse_normalized⟩
  · rw [decoded, names]
    decide
  · rw [decoded, names]
    decide

/-! ### A request with separators in every value -/

def awkwardScope : ScopeSet := ⟨["a+b&scope=c", "é"], by decide, by decide⟩

def awkwardAssertion : Secret := ⟨"x&client_secret=y z%26\n€😀"⟩

def awkwardExchanger : Exchanger where
  clientId := ⟨"a=b&client_secret=c%", by decide⟩
  endpoint := Config.publicAuthority

theorem awkward_request_says_what_was_asked :
    ∃ request, awkwardExchanger.prepare awkwardAssertion awkwardScope = .ok request ∧
      request.body = "grant_type=client_credentials&scope=a%2Bb%26scope%3Dc+%C3%A9" ++
        "&client_id=a%3Db%26client_secret%3Dc%25&client_assertion_type=" ++
        "urn%3Aietf%3Aparams%3Aoauth%3Aclient-assertion-type%3Ajwt-bearer" ++
        "&client_assertion=x%26client_secret%3Dy+z%2526%0A%E2%82%AC%F0%9F%98%80" ∧
      Form.decode request.body.toList =
        [("grant_type", "client_credentials"), ("scope", "a+b&scope=c é"),
          ("client_id", "a=b&client_secret=c%"),
          ("client_assertion_type", "urn:ietf:params:oauth:client-assertion-type:jwt-bearer"),
          ("client_assertion", "x&client_secret=y z%26\n€😀")] := by
  have reached : Target.ofUrl awkwardExchanger.endpoint =
      .ok "https://login.microsoftonline.com/".toList := by rfl
  obtain ⟨request, prepared, -, decoded, -⟩ :=
    request_says_what_was_asked awkwardExchanger awkwardAssertion awkwardScope rfl reached
  refine ⟨request, prepared, ?_, decoded⟩
  obtain ⟨-, target, -, rfl⟩ := prepare_eq_ok_iff.mp prepared
  change String.ofList (Form.encode (awkwardExchanger.form awkwardAssertion awkwardScope)) = _
  decide +kernel

end Exchanger

end FederatedAccess
