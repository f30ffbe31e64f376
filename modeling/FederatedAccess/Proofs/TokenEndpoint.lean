import FederatedAccess.Config
import FederatedAccess.Proofs.Url.ReadBack
import Mathlib.Data.List.DropRight

/-!
# Where the token endpoint of a tenant is

The address of a tenant is read from a text: the printed authority without slashes at its end, and
the identifier of the tenant between slashes. Nothing in an identifier ends a segment, so the
identifier is read as one segment below those of the authority. It names a level of its own, unless
it is one of the segments that stand for a level.
-/

namespace FederatedAccess

/-- The characters of an identifier are neither blank nor separators. -/
theorem Identifier.spec {kind : Kind} (i : Identifier kind) {c : Char} (hc : c ∈ i.text.toList) :
    Text.isBlank c = false ∧ isSeparator c = false := by
  have valid := i.valid
  unfold fault? at valid
  split at valid
  · cases valid
  · split at valid
    · cases valid
    · rename_i unblank
      split at valid
      · cases valid
      · rename_i unseparated
        exact ⟨Bool.eq_false_iff.mpr fun h => unblank (List.any_eq_true.mpr ⟨c, hc, h⟩),
          Bool.eq_false_iff.mpr fun h => unseparated (List.any_eq_true.mpr ⟨c, hc, h⟩)⟩

/-- Nothing in an identifier ends a segment or a path or is dropped when a URL is read. -/
theorem Identifier.uncut {kind : Kind} (i : Identifier kind) {c : Char} (hc : c ∈ i.text.toList) :
    Url.isSlash true c = false ∧ Url.isPathEnd c = false ∧ Url.isBreak c = false := by
  obtain ⟨unblank, unseparated⟩ := i.spec hc
  have hblank {d : Char} (hd : Text.isBlank d = true) : c ≠ d := by
    rintro rfl
    exact Bool.false_ne_true (unblank.symm.trans hd)
  have hsep {d : Char} (hd : isSeparator d = true) : c ≠ d := by
    rintro rfl
    exact Bool.false_ne_true (unseparated.symm.trans hd)
  simp only [Url.isSlash, Url.isPathEnd, Url.isBreak, Bool.true_and, Bool.or_eq_false_iff,
    beq_eq_false_iff_ne]
  exact ⟨⟨hsep rfl, hsep rfl⟩, ⟨hsep rfl, hsep rfl⟩, ⟨hblank rfl, hblank rfl⟩, hblank rfl⟩

namespace Url

/-! ### A segment below others -/

/-- The levels to which a segment in its written form leads from the levels above it. -/
def below (above : List (List Char)) (s : List Char) : List (List Char) :=
  if isUp s then above.dropLast else if isHere s then above else above ++ [s]

/-- A segment before a slash at the end is followed, and the level to which it leads stays open. -/
theorem descend_open (above : List (List Char)) (s : List Char) :
    descend false above [s, []] = below above s ++ [[]] := by
  have hopen (above : List (List Char)) : descend false above [[]] = above ++ [[]] :=
    descend_singleton above []
  rw [descend, leave_false, writeSegment_false, hopen, hopen, hopen, below]
  · split
    · rfl
    · split <;> rfl
  · simp

/-- What a path of tidy segments and one more, before a slash at the end, is read as. -/
theorem descend_below {above : List (List Char)} (tidy : ∀ t ∈ above, IsTidySegment t)
    (text : List Char) :
    descend false [] ((above ++ [text, []]).map (Percent.encode isPathPlain)) =
      below above (Percent.encode isPathPlain text) ++ [[]] := by
  calc
    descend false [] ((above ++ [text, []]).map (Percent.encode isPathPlain))
      = descend false [] (above ++ [Percent.encode isPathPlain text, []]) := by
        rw [List.map_append, map_encode_eq_self tidy]
        rfl
    _ = descend false above [Percent.encode isPathPlain text, []] := by
      rw [descend_append tidy (List.cons_ne_nil _ _), List.nil_append]
    _ = below above (Percent.encode isPathPlain text) ++ [[]] := descend_open _ _

theorem tidy_below {above : List (List Char)} {s : List Char} (tidy : ∀ t ∈ above, IsTidySegment t)
    (uncut : ∀ c ∈ s, isSlash true c = false) :
    ∀ t ∈ below above (Percent.encode isPathPlain s), IsTidySegment t := by
  intro t ht
  unfold below at ht
  split at ht
  · exact tidy t (List.dropLast_subset _ ht)
  · rename_i notUp
    split at ht
    · exact tidy t ht
    · rename_i notHere
      rcases List.mem_append.mp ht with ht | ht
      · exact tidy t ht
      · obtain rfl := List.mem_singleton.mp ht
        exact isTidySegment_encode uncut (Bool.eq_false_iff.mpr notUp) (Bool.eq_false_iff.mpr notHere)

end Url

namespace Config

open Url

/-! ### Slashes at the end -/

theorem trimSlashes_eq_self {cs : List Char} (h : ∀ c ∈ cs.getLast?, c ≠ '/') :
    trimSlashes cs = cs := by
  refine List.rdropWhile_eq_self_iff.mpr fun hne => ?_
  simpa using h _ (List.getLast?_eq_some_getLast hne)

/-- To trim slashes is to leave out the empty segments at the end. -/
theorem trimSlashes_writeSegments {base : List Char} (solid : ∀ c ∈ base.getLast?, c ≠ '/')
    {ss : List (List Char)} (uncut : ∀ s ∈ ss, '/' ∉ s) :
    trimSlashes (base ++ writeSegments ss) = base ++ writeSegments (ss.rdropWhile List.isEmpty) := by
  -- slashes are trimmed from the right, where the last segment is
  induction ss using List.reverseRecOn with
  | nil => simpa [writeSegments] using trimSlashes_eq_self solid
  | append_singleton ss s ih =>
      have hwrite : base ++ writeSegments (ss ++ [s]) = base ++ writeSegments ss ++ ['/'] ++ s := by
        simp [writeSegments]
      by_cases hs : s = []
      · subst hs
        rw [hwrite, List.append_nil, List.rdropWhile_concat_pos _ _ _ rfl,
          ← ih fun t ht => uncut t (List.mem_append_left _ ht)]
        exact List.rdropWhile_concat_pos _ _ _ rfl
      · rw [List.rdropWhile_concat_neg _ _ _ (by simpa using hs)]
        refine trimSlashes_eq_self fun c hc => ?_
        rw [hwrite, List.getLast?_append_of_ne_nil _ hs] at hc
        rintro rfl
        exact uncut s (by simp) (List.mem_of_getLast? hc)

/-! ### The address of a tenant -/

/-- The written form of the identifier of the tenant as a segment. -/
def tenantSegment (c : Config) : List Char := Percent.encode isPathPlain c.tenantId.text.toList

section

variable {c : Config} {scheme : List Char} {a : Authority} {ss : List (List Char)}

theorem segments_tidy (tidy : ∀ s ∈ ss, IsTidySegment s) :
    ∀ s ∈ ss.rdropWhile List.isEmpty, IsTidySegment s :=
  fun s hs => tidy s ((List.rdropWhile_prefix _ _).subset hs)

/-- The text from which the address of the tenant is read is itself a printed URL. -/
theorem authority_text (authority : IsTidyAuthority scheme a) (tidy : ∀ s ∈ ss, IsTidySegment s)
    (text : List Char) :
    trimSlashes (write ⟨scheme, some a, .segments ss, none, none⟩) ++ '/' :: text ++ ['/'] =
      write ⟨scheme, some a, .segments (ss.rdropWhile List.isEmpty ++ [text, []]), none, none⟩ := by
  have hwrite (ss : List (List Char)) : write ⟨scheme, some a, .segments ss, none, none⟩ =
      scheme ++ ':' :: '/' :: '/' :: authorityText a ++ writeSegments ss := by
    simp [write_eq_append, writePart]
  have solid : ∀ d ∈ (scheme ++ ':' :: '/' :: '/' :: authorityText a).getLast?, d ≠ '/' := by
    intro d hd
    have hsplit : scheme ++ ':' :: '/' :: '/' :: authorityText a =
        scheme ++ [':', '/', '/'] ++ authorityText a := by simp
    rw [hsplit, List.getLast?_append_of_ne_nil _ authority.authorityText_ne_nil] at hd
    rintro rfl
    cases (authority.spec_of_mem (List.mem_of_getLast? hd)).2.1
  have uncut : ∀ s ∈ ss, '/' ∉ s := by
    intro s hs hslash
    cases (tidy s hs).uncut _ hslash
  rw [hwrite, hwrite, trimSlashes_writeSegments solid uncut]
  simp [writeSegments]

/-- The address of the tenant lies below the authority, as far as its segment leads there. -/
theorem authority_eq_ok (host : c.authorityHost = ⟨scheme, some a, .segments ss, none, none⟩)
    (web : IsWeb scheme) (authority : IsTidyAuthority scheme a)
    (tidy : ∀ s ∈ ss, IsTidySegment s) :
    c.authority = .ok ⟨scheme, some a,
      .segments (below (ss.rdropWhile List.isEmpty) c.tenantSegment ++ [[]]), none, none⟩ := by
  have kept := segments_tidy tidy
  have hread : read (write ⟨scheme, some a,
      .segments (ss.rdropWhile List.isEmpty ++ [c.tenantId.text.toList, []]), none, none⟩) =
        some ⟨scheme, some a,
          .segments (below (ss.rdropWhile List.isEmpty) c.tenantSegment ++ [[]]), none, none⟩ := by
    rw [Url.read_write web authority (by simp) (fun s hs d hd => ?_) (by simp) (by simp)
      fun d hd => ?_, descend_below kept]
    · rfl
    · simp only [List.mem_append, List.mem_cons, List.not_mem_nil, or_false] at hs
      rcases hs with hs | rfl | rfl
      · exact (kept s hs).spec hd
      · exact c.tenantId.uncut hd
      · exact absurd hd List.not_mem_nil
    · -- the text ends with a slash, so nothing is dropped at its end
      rw [← authority_text authority tidy, List.getLast?_concat] at hd
      obtain rfl := Option.some.inj hd
      rfl
  rw [Config.authority, host, authority_text authority tidy, hread]

end

/-! ### Checked configurations -/

theorem of_defect?_eq_none {u : Url} (sound : defect? u = none) :
    u.query = none ∧ u.fragment = none ∧ isSecure u = true := by
  unfold defect? at sound
  split at sound
  · cases sound
  · rename_i bare
    split at sound
    · rename_i secure
      simp only [not_or, Option.isSome_iff_ne_none, not_not] at bare
      exact ⟨bare.1, bare.2, secure⟩
    · cases sound

theorem isWeb_of_isSecure {u : Url} (secure : isSecure u = true) : IsWeb u.scheme := by
  simp only [isSecure, Bool.or_eq_true, Bool.and_eq_true, beq_iff_eq] at secure
  rcases secure with h | ⟨h, -⟩
  · exact h ▸ ⟨rfl, by decide⟩
  · exact h ▸ ⟨rfl, by decide⟩

/-- All addresses of a checked configuration are sound. -/
theorem of_fault?_eq_none {c : Config} (valid : c.fault? = none) :
    defect? c.authorityHost = none ∧ ∀ u ∈ c.endpointOverride, defect? u = none := by
  unfold fault? at valid
  split at valid
  · cases valid
  · split at valid
    · cases valid
    · split at valid
      · cases valid
      · split at valid
        · cases valid
        · rename_i u sound given
          refine ⟨sound, fun v hv => ?_⟩
          obtain rfl := Option.some.inj (given.symm.trans hv)
          exact Option.map_eq_none_iff.mp valid
        · rename_i sound given
          exact ⟨sound, by simp [given]⟩

theorem tidy_endpointSegments : ∀ s ∈ endpointSegments, IsTidySegment s := by
  have all : endpointSegments.all (fun s =>
      s.all (fun c => isPathPlain c ∧ isSlash true c = false) && !isUp s && !isHere s) = true := by
    decide
  intro s hs
  have htidy := List.all_eq_true.mp all s hs
  simp only [Bool.and_eq_true, Bool.not_eq_true', List.all_eq_true, decide_eq_true_eq] at htidy
  obtain ⟨⟨chars, notUp⟩, notHere⟩ := htidy
  exact ⟨fun c hc => (chars c hc).1, fun c hc => (chars c hc).2, notUp, notHere⟩

/-- An address that has been read and checked is tidy. -/
theorem isTidy_of_defect? {u : Url} (sound : defect? u = none) {text : String}
    (read : Url.parse text = some u) : IsTidy u :=
  isTidy_of_read read (isWeb_of_isSecure (of_defect?_eq_none sound).2.2)

/-- The token endpoint of a checked configuration without one of its own exists and lies below the
authority, as far as the segment of the tenant leads there. -/
theorem exists_tokenEndpoint {c : Config} (valid : c.fault? = none)
    (derived : c.endpointOverride = none) {text : String}
    (read : Url.parse text = some c.authorityHost) :
    ∃ ss e, c.authorityHost.path = .segments ss ∧ c.tokenEndpoint = .ok e ∧ IsTidy e ∧
      e = { c.authorityHost with
        path := .segments (below (ss.rdropWhile List.isEmpty) c.tenantSegment ++
          endpointSegments) } := by
  have sound := (of_fault?_eq_none valid).1
  obtain ⟨hquery, hfragment, -⟩ := of_defect?_eq_none sound
  have tidy := isTidy_of_defect? sound read
  generalize host : c.authorityHost = u at tidy hquery hfragment
  cases tidy with
  | @intro scheme a ss query fragment web authority more segments =>
      obtain rfl : query = none := hquery
      obtain rfl : fragment = none := hfragment
      refine ⟨ss, _, rfl, ?_,
        .intro web authority (by simp [endpointSegments]) ?_ (by simp) (by simp), rfl⟩
      · simp only [tokenEndpoint, derived, authority_eq_ok host web authority segments, sibling?,
          List.dropLast_concat]
      · intro s hs
        rcases List.mem_append.mp hs with hs | hs
        · exact tidy_below (segments_tidy segments) (fun d hd => (c.tenantId.uncut hd).1) s hs
        · exact tidy_endpointSegments s hs

/-- The token endpoint of a checked configuration without one of its own exists, and only its path
differs from the authority. A tenant is named by a segment of its own, after those of the authority
less empty ones at the end, if its segment stands for no level. If it stands for the present level,
nothing names the tenant; if it stands for the level above, the last segment of the authority is
left out besides. -/
theorem derived_endpoint_names_tenant (c : Config) (valid : c.fault? = none)
    (derived : c.endpointOverride = none) (text : String)
    (read : Url.parse text = some c.authorityHost) :
    ∃ ss e, c.authorityHost.path = .segments ss ∧ c.tokenEndpoint = .ok e ∧
      e = { c.authorityHost with path := e.path } ∧
      let base := ss.rdropWhile List.isEmpty
      let tenant := Percent.encode isPathPlain c.tenantId.text.toList
      (isUp tenant = false → isHere tenant = false →
        e.path = .segments (base ++ tenant :: endpointSegments)) ∧
      (isUp tenant = false → isHere tenant = true → e.path = .segments (base ++ endpointSegments)) ∧
      (isUp tenant = true → e.path = .segments (base.dropLast ++ endpointSegments)) := by
  obtain ⟨ss, e, path, endpoint, -, rfl⟩ := exists_tokenEndpoint valid derived read
  refine ⟨ss, _, path, endpoint, rfl, fun notUp notHere => ?_, fun notUp here => ?_, fun up => ?_⟩
  · simp [below, tenantSegment, notUp, notHere]
  · simp [below, tenantSegment, notUp, here]
  · simp [below, tenantSegment, up]

def prefixedAuthority : Url :=
  ⟨"https".toList, some ⟨[], none, .name "idp.example.com".toList, none⟩,
    .segments ["prefix".toList], none, none⟩

/-- A configuration for a tenant at an authority whose address has a path. -/
def prefixedConfig (tenant : TenantId) : Config where
  clientId := ⟨"app", by decide⟩
  tenantId := tenant
  authorityHost := prefixedAuthority
  endpointOverride := none
  assertionFile := "/token"
  ttl := defaultTtl
  margin := defaultMargin

def plainTenant : TenantId := ⟨"contoso", by decide⟩

theorem endpoint_of_plain_tenant :
    (prefixedConfig plainTenant).tokenEndpoint = .ok { prefixedAuthority with
      path := .segments (["prefix".toList, "contoso".toList] ++ endpointSegments) } := by
  obtain ⟨ss, e, path, endpoint, rest, named, -⟩ := derived_endpoint_names_tenant
    (prefixedConfig plainTenant) (by decide +kernel) rfl "https://idp.example.com/prefix"
    (by decide +kernel)
  obtain rfl := UrlPath.segments.inj path
  rw [endpoint, rest, named (by decide) (by decide)]
  rfl

def climbingTenant : TenantId := ⟨"..", by decide⟩

/-- A tenant whose identifier stands for the level above is not named by its endpoint, which leaves
the path of the authority. -/
theorem endpoint_leaves_authority :
    (prefixedConfig climbingTenant).fault? = none ∧
      (prefixedConfig climbingTenant).endpointOverride = none ∧
      Url.parse "https://idp.example.com/prefix" = some prefixedAuthority ∧
      (prefixedConfig climbingTenant).tokenEndpoint =
        .ok { prefixedAuthority with path := .segments endpointSegments } ∧
      (prefixedConfig climbingTenant).tokenEndpoint ≠ .ok { prefixedAuthority with
        path := .segments (["prefix".toList] ++ (prefixedConfig climbingTenant).tenantSegment ::
          endpointSegments) } := by
  exact ⟨by decide +kernel, rfl, by decide +kernel, by decide +kernel, by decide +kernel⟩

end Config
end FederatedAccess
