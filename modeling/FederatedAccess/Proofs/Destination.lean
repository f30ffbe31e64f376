import FederatedAccess.Proofs.Broker.Sending
import FederatedAccess.Proofs.RequestForm
import FederatedAccess.Proofs.SharedOutcome
import FederatedAccess.Proofs.TokenEndpoint

/-!
# Where assertions are sent

An assertion goes where the token endpoint of the configuration is, and nowhere else. The endpoint
is on the host of an address that has been checked, so what is sent is encrypted or does not leave
this machine. The target of a request is a text, which is read as the endpoint again.
-/

namespace FederatedAccess

/-! ### Targets -/

namespace Target

open Url

variable {scheme : List Char} {a : Authority} {ss : List (List Char)}

/-- A target is cut after the scheme. -/
theorem cutScheme_append (web : IsWeb scheme) (rest : List Char) :
    cutScheme (scheme ++ ':' :: '/' :: '/' :: rest) = some (scheme, rest) := by
  have htake : (scheme ++ ':' :: '/' :: '/' :: rest).takeWhile isSchemeChar = scheme := by
    rw [List.takeWhile_append_of_pos fun c hc => (web.letters.2 c hc).2.1,
      List.takeWhile_cons_of_neg (by decide), List.append_nil]
  rw [cutScheme, htake, List.drop_left]
  rfl

/-- The authority of a target ends where its path starts. -/
theorem takeWhile_authority (authority : IsTidyAuthority scheme a) (more : ss ≠ [])
    (rest : List Char) :
    (authorityText a ++ (writeSegments ss ++ rest)).takeWhile (!isAuthorityEnd ·) =
      authorityText a := by
  have hend : ∀ c ∈ authorityText a, isAuthorityEnd c = false := by
    intro c hc
    obtain ⟨-, hslash, hend⟩ := authority.spec_of_mem hc
    simp only [isSlash, Bool.or_eq_false_iff] at hslash
    simp only [isPathEnd, Bool.or_eq_false_iff] at hend
    simp only [isAuthorityEnd, hslash.1, hend.1, hend.2]
    rfl
  rw [List.takeWhile_append_of_pos fun c hc => by simp [hend c hc], writeSegments_eq more,
    List.cons_append, List.takeWhile_cons_of_neg (by decide), List.append_nil]

/-- The target of a request to a tidy URL is its printed form without the fragment. -/
theorem eq_write_of_ofUrl {u : Url} (tidy : IsTidy u) {target : List Char}
    (h : ofUrl u = .ok target) : target = write { u with fragment := none } := by
  cases tidy with
  | @intro scheme a ss query fragment web authority more segments hquery hfragment =>
      have hpath : (writeSegments ss ++ (writePart '?' query ++ writePart '#' fragment)).takeWhile
          (!isPathEnd ·) = writeSegments ss := by
        refine takeWhile_append_tail (fun c hc => ?_) query fragment
        exact isPathEnd_of_mem_place authority (fun s hs d hd => ((segments s hs).spec hd).2.1) c
          (List.mem_append_right _ hc)
      have filled : (writeSegments ss).isEmpty = false := by
        rw [writeSegments_eq more]
        rfl
      simp only [ofUrl, write_eq_append, cutScheme_append web, takeWhile_authority authority more,
        List.drop_left, hpath, filled] at h
      -- one case for each check, which refuses or lets the next one look
      split at h
      · cases h
      · split at h
        · cases h
        · split at h
          · cases h
          · split at h
            · cases h
            · split at h
              · cases h
              · obtain rfl := Except.ok.inj h
                simp [write_eq_append, writePart]

end Target

/-! ### Safe addresses -/

/-- This machine by its name, by a number of the block that version 4 sets aside for it, or by the
one number of version 6. -/
inductive Host.IsThisMachine : Host → Prop
  | localhost : IsThisMachine (.name "localhost".toList)
  | ipv4 {address : UInt32} (block : address.toNat / 2 ^ 24 = 127) : IsThisMachine (.ipv4 address)
  | ipv6 : IsThisMachine (.ipv6 [0, 0, 0, 0, 0, 0, 0, 1])

theorem Host.isThisMachine_of_isLoopback {h : Host} (read : h.IsRead)
    (loopback : h.isLoopback = true) : h.IsThisMachine := by
  cases read with
  | @name text ascii =>
      -- a name that has been read is in small letters already
      have hlower : text.map Char.toLower = text := by
        refine (List.map_congr_left fun c hc => ?_).trans (List.map_id _)
        obtain ⟨hbasic, hmap⟩ := ascii.plain c hc
        rw [Domain.mapChar, if_pos (of_decide_eq_true hbasic)] at hmap
        exact (List.cons.inj (Option.some.inj hmap)).1
      rw [isLoopback, hlower] at loopback
      exact beq_iff_eq.mp loopback ▸ .localhost
  | ipv4 address => exact .ipv4 (by simpa [isLoopback] using loopback)
  | ipv6 => exact beq_iff_eq.mp loopback ▸ .ipv6

namespace Config

open Url

/-- A secure address is encrypted or does not leave this machine. -/
theorem of_isSecure {u : Url} (tidy : IsTidy u) (secure : isSecure u = true) :
    u.scheme = "https".toList ∨
      u.scheme = "http".toList ∧ ∃ host, u.host? = some host ∧ host.IsThisMachine := by
  simp only [isSecure, Bool.or_eq_true, Bool.and_eq_true, beq_iff_eq, Option.any_eq_true] at secure
  refine secure.imp_right (And.imp_right ?_)
  rintro ⟨host, hhost, loopback⟩
  refine ⟨host, hhost, Host.isThisMachine_of_isLoopback ?_ loopback⟩
  cases tidy with
  | intro _ authority =>
      obtain rfl := Option.some.inj (Option.filter_eq_some_iff.mp hhost).1
      exact authority.host

/-- The token endpoint of a checked configuration whose addresses have been read is tidy. It is a
checked address itself, or differs from one in nothing but the path. -/
theorem of_tokenEndpoint {c : Config} (valid : c.fault? = none)
    (host : ∃ text, Url.parse text = some c.authorityHost)
    (override : ∀ u ∈ c.endpointOverride, ∃ text, Url.parse text = some u) {e : Url}
    (endpoint : c.tokenEndpoint = .ok e) :
    let base := c.endpointOverride.getD c.authorityHost
    IsTidy e ∧ defect? base = none ∧ e.scheme = base.scheme ∧ e.authority = base.authority ∧
      e.query = base.query ∧ e.fragment = base.fragment := by
  intro base
  obtain ⟨authority, given⟩ := of_fault?_eq_none valid
  cases h : c.endpointOverride with
  | some u =>
      obtain ⟨text, read⟩ := override u h
      obtain rfl : u = base := by simp [base, h]
      rw [tokenEndpoint, h] at endpoint
      obtain rfl := Except.ok.inj endpoint
      exact ⟨isTidy_of_defect? (given _ h) read, given _ h, rfl, rfl, rfl, rfl⟩
  | none =>
      obtain ⟨text, read⟩ := host
      obtain ⟨ss, d, -, derived, tidy, rfl⟩ := exists_tokenEndpoint valid h read
      obtain rfl := Except.ok.inj (derived.symm.trans endpoint)
      have hbase : base = c.authorityHost := by simp [base, h]
      rw [hbase]
      exact ⟨tidy, authority, rfl, rfl, rfl, rfl⟩

end Config

/-! ### Assertions -/

namespace Broker

/-- What it takes to be accepted as a configuration. -/
theorem of_ofConfig {c : Config} {clock : Instant} {b : Broker} (h : ofConfig c clock = .ok b) :
    c.fault? = none ∧ c.tokenEndpoint = .ok b.exchanger.endpoint ∧
      ∃ x, b = make c x clock := by
  unfold ofConfig at h
  split at h
  · cases h
  · rename_i valid
    split at h
    · rename_i x made
      obtain rfl := Except.ok.inj h
      refine ⟨valid, ?_, x, rfl⟩
      unfold Exchanger.ofConfig at made
      split at made
      · rename_i endpoint
        obtain rfl := Except.ok.inj made
        exact endpoint
      · cases made
    · cases h

/-- A broker for an accepted configuration exchanges at the scheme and with the user, the host and
the socket of the given endpoint, or else of the authority, without query or fragment, whatever the
identifier of the tenant is. The connection is encrypted or does not leave this machine, and every
assertion that any call ever sends goes there. -/
theorem assertions_sent_to_safe_endpoint (config : Config) (clock : Instant) (b : Broker)
    (accepted : ofConfig config clock = .ok b)
    (host : ∃ text, Url.parse text = some config.authorityHost)
    (override : ∀ u ∈ config.endpointOverride, ∃ text, Url.parse text = some u) :
    let base := config.endpointOverride.getD config.authorityHost
    let e := b.exchanger.endpoint
    e.scheme = base.scheme ∧ e.authority = base.authority ∧ e.query = none ∧ e.fragment = none ∧
      (e.scheme = "https".toList ∨
        e.scheme = "http".toList ∧ ∃ host, e.host? = some host ∧ host.IsThisMachine) ∧
      ∀ events id assertion scope request,
        .sent assertion scope request ∈ (b.run events).history id →
          request.target = e.render ∧ Url.parse request.target = some e := by
  intro base e
  obtain ⟨valid, endpoint, x, rfl⟩ := of_ofConfig accepted
  obtain ⟨tidy, sound, scheme, authority, query, fragment⟩ :=
    Config.of_tokenEndpoint valid host override endpoint
  obtain ⟨unasked, unmarked, secure⟩ := Config.of_defect?_eq_none sound
  have bare : e.fragment = none := fragment.trans unmarked
  refine ⟨scheme, authority, query.trans unasked, bare, Config.of_isSecure tidy ?_, ?_⟩
  · rw [Config.isSecure, Url.host?, scheme, authority]
    exact secure
  · intro events id assertion scope request sent
    obtain ⟨-, target, reached, rfl⟩ :=
      Exchanger.prepare_eq_ok_iff.mp (prepare_of_sent (.make config x clock) sent)
    have same : { e with fragment := none } = e := by rw [← bare]
    have written : target = e.write :=
      (Target.eq_write_of_ofUrl tidy reached).trans (congrArg Url.write same)
    refine ⟨congrArg String.ofList written, ?_⟩
    rw [Url.parse, String.toList_ofList, written]
    exact tidy.read_write

/-! ### A tenant with an awkward identifier -/

def localAuthority : Url :=
  ⟨"http".toList, some ⟨[], none, .name "localhost".toList, some 8080⟩,
    .segments ["a".toList, []], none, none⟩

/-- A configuration for an authority on this machine. -/
def localConfig : Config where
  clientId := sampleConfig.clientId
  tenantId := ⟨"..%2F@é", by decide⟩
  authorityHost := localAuthority
  endpointOverride := none
  assertionFile := "/token"
  ttl := Config.defaultTtl
  margin := Config.defaultMargin

def localPath : List (List Char) :=
  ["a".toList, "..%2F@%C3%A9".toList, "oauth2".toList, "v2.0".toList, "token".toList]

def localEndpoint : Url := { localAuthority with path := .segments localPath }

/-- A broker that exchanges at the endpoint on this machine. -/
def localBroker : Broker :=
  make localConfig { clientId := localConfig.clientId, endpoint := localEndpoint } sampleClock

def localRefresh : List Event :=
  [.start sampleScope none, .proceed 0, .proceed 0, .readDone 0 (.ok "assertion")]

theorem local_assertion_stays_local :
    ofConfig localConfig sampleClock = .ok localBroker ∧
      ∃ assertion scope request,
        .sent assertion scope request ∈ (localBroker.run localRefresh).history 0 ∧
          Url.parse request.target = some localEndpoint := by
  have accepted : ofConfig localConfig sampleClock = .ok localBroker := by
    have valid : localConfig.fault? = none := by decide +kernel
    have endpoint : localConfig.tokenEndpoint = .ok localEndpoint := by decide +kernel
    simp only [ofConfig, valid, Exchanger.ofConfig, endpoint]
    rfl
  have sent : ((localBroker.run localRefresh).history 0).any (·.request?.isSome) = true := by
    decide +kernel
  obtain ⟨o, ho, hsent⟩ := List.any_eq_true.mp sent
  cases o with
  | sent assertion scope request =>
      obtain ⟨-, -, -, -, -, destination⟩ := assertions_sent_to_safe_endpoint localConfig
        sampleClock localBroker accepted ⟨"http://localhost:8080/a/", by decide +kernel⟩
        (by simp [localConfig])
      exact ⟨accepted, assertion, scope, request, ho, (destination _ _ _ _ _ ho).2⟩
  | _ => cases hsent

end Broker

end FederatedAccess
