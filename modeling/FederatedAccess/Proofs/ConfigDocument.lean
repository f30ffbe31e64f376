import FederatedAccess.Proofs.Json.ReadBack
import FederatedAccess.Proofs.Json.Numeral
import FederatedAccess.Proofs.TokenEndpoint

/-!
# Configurations are read back from their documents

The document of a configuration has every member in the order of the record, but for an endpoint
that is not given, and gives spans in whole seconds. It is read back as it was written. What is then
checked is the configuration with its spans cut to whole seconds, and of these only a margin below
one second has become unfit.
-/

namespace FederatedAccess

namespace Duration

theorem wholeSeconds_nonneg {d : Duration} (h : 0 ≤ d.nanos) : 0 ≤ d.wholeSeconds :=
  Int.tdiv_nonneg h (by decide)

/-- A span cut to whole seconds is as positive as the seconds are. -/
theorem nanos_truncate_le_zero_iff {d : Duration} : d.truncate.nanos ≤ 0 ↔ d.wholeSeconds ≤ 0 := by
  change d.wholeSeconds * 1000000000 ≤ 0 ↔ _
  omega

end Duration

namespace Config

open Json

/-- The configuration with its spans cut to whole seconds. -/
def truncate (c : Config) : Config := { c with ttl := c.ttl.truncate, margin := c.margin.truncate }

/-- What the document of a configuration says. -/
def described (c : Config) : Document where
  clientId := c.clientId.text
  tenantId := c.tenantId.text
  authorityHost := some c.authorityHost.render
  tokenEndpoint := c.endpointOverride.map Url.render
  assertionFile := c.assertionFile
  ttlSeconds := c.ttl.wholeSeconds
  marginSeconds := c.margin.wholeSeconds

/-- The members of the document of a configuration with the lexemes of their values. -/
def values (c : Config) : List (String × List Lexeme) :=
  [("client_id", [.text (.ok c.clientId.text)]), ("tenant_id", [.text (.ok c.tenantId.text)]),
    ("authority_host", [.text (.ok c.authorityHost.render)])] ++
  (c.endpointOverride.map fun u => ("token_endpoint", [Lexeme.text (.ok u.render)])).toList ++
  [("assertion_file", [.text (.ok c.assertionFile)]),
    ("assertion_ttl_secs", [.number (.ofInt c.ttl.wholeSeconds)]),
    ("safety_margin_secs", [.number (.ofInt c.margin.wholeSeconds)])]

/-- The spans of a configuration are seconds that a document can hold. -/
structure Held (c : Config) : Prop where
  ttl : 0 ≤ c.ttl.wholeSeconds ∧ c.ttl.wholeSeconds < 2 ^ 63
  margin : 0 ≤ c.margin.wholeSeconds ∧ c.margin.wholeSeconds < 2 ^ 63

/-- The document of a configuration is cut into the lexemes of its members. -/
theorem Held.cut {c : Config} (held : c.Held) : Cut (writeObject c.members) (objectOf c.values) := by
  have htext (name s : String) : Written (name, writeString s) (name, [.text (.ok s)]) :=
    ⟨rfl, cut_writeString s⟩
  have hspan (name : String) {n : Int} (hn : 0 ≤ n ∧ n < 2 ^ 63) :
      Written (name, Decimal.ofInt n) (name, [.number (.ofInt n)]) := ⟨rfl, cut_ofInt (by omega) hn.2⟩
  apply cut_writeObject
  refine List.rel_append (List.rel_append ?identity ?endpoint) ?rest
  case identity => exact .cons (htext _ _) (.cons (htext _ _) (.cons (htext _ _) .nil))
  case endpoint =>
    cases c.endpointOverride with
    | none => exact .nil
    | some u => exact .cons (htext _ _) .nil
  case rest =>
    exact .cons (htext _ _) (.cons (hspan _ held.ttl) (.cons (hspan _ held.margin) .nil))

theorem read_member {α : Type} {r : Reader α} {ls : List Lexeme} {v : α}
    (reads : ∀ rest, r (ls ++ rest) = .ok (v, rest)) (name : String) (optional : Bool)
    (set : Document → α → Document) (d : Document) (rest : List Lexeme) :
    (Document.member name optional r set).read d (ls ++ rest) = .ok (set d v, rest) := by
  change (r (ls ++ rest)).map _ = _
  rw [reads]
  rfl

/-- The document gives every member of the record that it needs, and says what it is to say. -/
theorem Held.filled {c : Config} (held : c.Held) :
    Record.Filled Document.record.members {} c.values c.described := by
  have htext (s expected : String) (rest : List Lexeme) :
      readString expected ([.text (.ok s)] ++ rest) = .ok (s, rest) := rfl
  have hsome (s expected : String) (rest : List Lexeme) :
      readOption (readString expected) ([.text (.ok s)] ++ rest) = .ok (some s, rest) := rfl
  have hspan {n : Int} (high : n < 2 ^ 63) (rest : List Lexeme) :
      readInt64 ([.number (.ofInt n)] ++ rest) = .ok (n, rest) := readInt64_ofInt high rest
  have hlast (d : Document) : Record.Filled (Document.record.members.drop 4) d
      [("assertion_file", [.text (.ok c.assertionFile)]),
        ("assertion_ttl_secs", [.number (.ofInt c.ttl.wholeSeconds)]),
        ("safety_margin_secs", [.number (.ofInt c.margin.wholeSeconds)])]
      { d with
        assertionFile := c.assertionFile
        ttlSeconds := c.ttl.wholeSeconds
        marginSeconds := c.margin.wholeSeconds } := by
    refine .value (read_member (htext _ _) _ _ _ _) ?_
    refine .value (read_member (hspan held.ttl.2) _ _ _ _) ?_
    refine .value (read_member (hspan held.margin.2) _ _ _ _) ?_
    exact .nil _
  refine .value (read_member (htext _ _) _ _ _ _) ?_
  refine .value (read_member (htext _ _) _ _ _ _) ?_
  refine .value (read_member (hsome _ _) _ _ _ _) ?_
  unfold described
  cases c.endpointOverride with
  | none => exact .absent rfl (hlast _)
  | some u => exact .value (read_member (hsome _ _) _ _ _ _) (hlast _)

theorem distinct_members : (Document.record.members.map Member.name).Nodup := by decide

theorem identifier_text {kind : Identifier.Kind} (i : Identifier kind) :
    Document.identifier kind i.text = .ok i := by
  rw [Document.identifier, Identifier.make_eq_ok_iff.mpr rfl]
  rfl

/-- What the document says describes the configuration with whole seconds, before it is checked. -/
theorem toConfig_described {c : Config}
    (host : Url.parse c.authorityHost.render = some c.authorityHost)
    (endpoint : ∀ u ∈ c.endpointOverride, Url.parse u.render = some u) :
    c.described.toConfig = match c.truncate.fault? with
      | some f => .error f
      | none => .ok c.truncate := by
  have hhost : Document.address .authorityNotUrl c.described.authorityHost =
      .ok (some c.authorityHost) := by
    simp only [described, Document.address, host]
  have hendpoint : Document.address .endpointNotUrl c.described.tokenEndpoint =
      .ok c.endpointOverride := by
    cases hgiven : c.endpointOverride with
    | none => simp only [described, hgiven, Option.map_none, Document.address]
    | some u =>
        simp only [described, hgiven, Option.map_some, Document.address, endpoint u hgiven]
  rw [Document.toConfig, hhost, hendpoint]
  simp only [described, identifier_text]
  rfl

/-- A document is read as the configuration with whole seconds, which is then checked. -/
theorem Held.ofJson_toJson {c : Config} (held : c.Held)
    (host : Url.parse c.authorityHost.render = some c.authorityHost)
    (endpoint : ∀ u ∈ c.endpointOverride, Url.parse u.render = some u) :
    ofJson c.toJson = match c.truncate.fault? with
      | some f => .error (.mismatch f.message)
      | none => .ok c.truncate := by
  have hconfig := toConfig_described host endpoint
  have hrecord := held.filled.read_objectOf distinct_members []
  rw [List.append_nil] at hrecord
  cases hfault : c.truncate.fault? with
  | none =>
      rw [hfault] at hconfig
      refine held.cut.readAll_eq_ok ?_
      rw [reader, hrecord]
      simp only [hconfig]
  | some f =>
      rw [hfault] at hconfig
      refine held.cut.readAll_eq_error ?_
      rw [reader, hrecord]
      simp only [hconfig]

/-- What a checked configuration holds apart from its addresses. -/
theorem spans_of_fault?_eq_none {c : Config} (valid : c.fault? = none) :
    c.assertionFile ≠ "" ∧ 0 < c.margin.nanos ∧ 0 ≤ c.ttl.nanos := by
  unfold fault? at valid
  split at valid
  · cases valid
  · rename_i file
    split at valid
    · cases valid
    · rename_i margin
      split at valid
      · cases valid
      · rename_i ttl
        exact ⟨file, Int.not_le.mp margin, Int.not_lt.mp ttl⟩

/-- Cut to whole seconds, only a margin below one second has become unfit. -/
theorem fault?_truncate {c : Config} (valid : c.fault? = none) :
    c.truncate.fault? = if 0 < c.margin.wholeSeconds then none else some .marginNotPositive := by
  obtain ⟨file, margin, ttl⟩ := spans_of_fault?_eq_none valid
  have hfile : c.truncate.assertionFile ≠ "" := file
  have httl : ¬c.truncate.ttl.nanos < 0 := by
    have hseconds := Duration.wholeSeconds_nonneg ttl
    change ¬c.ttl.wholeSeconds * 1000000000 < 0
    omega
  have hmargin : c.truncate.margin.nanos ≤ 0 ↔ c.margin.wholeSeconds ≤ 0 :=
    Duration.nanos_truncate_le_zero_iff
  split
  · rename_i fit
    rw [fault?, if_neg hfile, if_neg (hmargin.not.mpr (Int.not_le.mpr fit)), if_neg httl]
    rwa [fault?, if_neg file, if_neg (Int.not_le.mpr margin), if_neg (Int.not_lt.mpr ttl)] at valid
  · rename_i unfit
    rw [fault?, if_neg hfile, if_pos (hmargin.mpr (Int.not_lt.mp unfit))]

theorem Held.of_valid {c : Config} (valid : c.fault? = none) (ttl : c.ttl.wholeSeconds < 2 ^ 63)
    (margin : c.margin.wholeSeconds < 2 ^ 63) : c.Held := by
  obtain ⟨-, hmargin, httl⟩ := spans_of_fault?_eq_none valid
  exact ⟨⟨Duration.wholeSeconds_nonneg httl, ttl⟩,
    ⟨Duration.wholeSeconds_nonneg (Int.le_of_lt hmargin), margin⟩⟩

/-- A checked configuration is read back from its document with its spans cut to whole seconds. Only
where the margin is below one second the document is refused. Addresses are such as are read from a
text, and spans have seconds in 64 bits. -/
theorem document_reads_back (c : Config) (valid : c.fault? = none)
    (host : ∃ text, Url.parse text = some c.authorityHost)
    (endpoint : ∀ u ∈ c.endpointOverride, ∃ text, Url.parse text = some u)
    (ttl : c.ttl.wholeSeconds < 2 ^ 63) (margin : c.margin.wholeSeconds < 2 ^ 63) :
    ofJson c.toJson = if 0 < c.margin.wholeSeconds then .ok c.truncate
      else .error (.mismatch Fault.marginNotPositive.message) := by
  have held := Held.of_valid valid ttl margin
  obtain ⟨soundHost, soundEndpoint⟩ := of_fault?_eq_none valid
  have hread {u : Url} (sound : defect? u = none) (read : ∃ text, Url.parse text = some u) :
      Url.parse u.render = some u := by
    obtain ⟨text, htext⟩ := read
    have hwritten := (isTidy_of_defect? sound htext).read_write
    rwa [Url.parse, Url.render, String.toList_ofList]
  rw [held.ofJson_toJson (hread soundHost host) fun u hu => hread (soundEndpoint u hu) (endpoint u hu),
    fault?_truncate valid]
  by_cases fit : 0 < c.margin.wholeSeconds
  · rw [if_pos fit, if_pos fit]
  · rw [if_neg fit, if_neg fit]

/-- A configuration whose file needs escapes, with an endpoint of its own and fractions of seconds. -/
def escapedConfig : Config where
  clientId := ⟨"app\"1", by decide⟩
  tenantId := ⟨"directory-1", by decide⟩
  authorityHost := publicAuthority
  endpointOverride := some prefixedAuthority
  assertionFile := "/run/\"sp\u00e4ter\"\x01\n"
  ttl := ⟨750000000⟩
  margin := ⟨1500000000⟩

theorem escaped_config_reads_back : ofJson escapedConfig.toJson =
    .ok { escapedConfig with ttl := .ofSeconds 0, margin := .ofSeconds 1 } := by
  have host : Url.parse "https://login.microsoftonline.com" = some publicAuthority := by
    decide +kernel
  have endpoint : Url.parse "https://idp.example.com/prefix" = some prefixedAuthority := by
    decide +kernel
  have hread := document_reads_back escapedConfig (by decide +kernel) ⟨_, host⟩
    (fun u hu => ⟨_, endpoint.trans hu⟩) (by decide) (by decide)
  rwa [if_pos (by decide)] at hread

/-- A configuration whose margin is half a second. -/
def halfSecondConfig : Config := { escapedConfig with margin := ⟨500000000⟩ }

/-- A margin below one second passes the check but is no longer positive in the document. -/
theorem half_second_document_refused :
    halfSecondConfig.fault? = none ∧
      Url.parse "https://login.microsoftonline.com" = some halfSecondConfig.authorityHost ∧
      Url.parse "https://idp.example.com/prefix" = halfSecondConfig.endpointOverride ∧
      ofJson halfSecondConfig.toJson = .error (.mismatch "Safety margin must be positive.") ∧
      ofJson halfSecondConfig.toJson ≠ .ok halfSecondConfig.truncate := by
  have held : halfSecondConfig.Held := ⟨by decide, by decide⟩
  have refused : ofJson halfSecondConfig.toJson =
      .error (.mismatch "Safety margin must be positive.") := by
    have hread := held.ofJson_toJson (by decide +kernel) fun u hu => by
      obtain rfl := Option.some.inj hu
      decide +kernel
    have unfit : halfSecondConfig.truncate.fault? = some .marginNotPositive := by decide +kernel
    rw [unfit] at hread
    exact hread
  exact ⟨by decide +kernel, by decide +kernel, by decide +kernel, refused, by rw [refused]; nofun⟩

end Config

end FederatedAccess
