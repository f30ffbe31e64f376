import FederatedAccess.AccessToken

/-!
# Stored tokens

Tokens are stored under the key of their scope set, one for each key. A stored token that is no
longer usable is not given out; it stays until it is replaced, invalidated or purged.
-/

namespace FederatedAccess

/-- The stored tokens and the margin before their expiry. -/
structure TokenStore where
  margin : Duration
  entries : List (ScopeKey × AccessToken)

namespace TokenStore

/-- A store without tokens. -/
def empty (margin : Duration) : TokenStore := ⟨margin, []⟩

/-- The number of stored tokens. -/
def size (s : TokenStore) : Nat := s.entries.length

/-- The stored token of a key, usable or not. -/
def find? (s : TokenStore) (k : ScopeKey) : Option AccessToken := s.entries.lookup k

/-- The usable token of a scope set. -/
def get? (s : TokenStore) (scope : ScopeSet) (now : Instant) : Option AccessToken :=
  (s.find? scope.key).filter (·.isUsable now s.margin)

/-- Stores a token in place of the one for its scope set. -/
def put (s : TokenStore) (t : AccessToken) : TokenStore :=
  { s with entries := (t.scope.key, t) :: s.entries.filter (·.1 ≠ t.scope.key) }

/-- Drops the token of a scope set. -/
def invalidate (s : TokenStore) (scope : ScopeSet) : TokenStore :=
  { s with entries := s.entries.filter (·.1 ≠ scope.key) }

/-- Whether a token of a scope set is stored. -/
def holds (s : TokenStore) (scope : ScopeSet) : Bool := (s.find? scope.key).isSome

/-- Drops the tokens that are no longer usable. -/
def purge (s : TokenStore) (now : Instant) : TokenStore :=
  { s with entries := s.entries.filter (·.2.isUsable now s.margin) }

/-- How many tokens a purge drops. -/
def purgeCount (s : TokenStore) (now : Instant) : Nat :=
  s.size - (s.purge now).size

/-! ### What operations do to the stored tokens -/

theorem lookup_filter_ne (k l : ScopeKey) (es : List (ScopeKey × AccessToken)) :
    (es.filter (·.1 ≠ l)).lookup k = if k = l then none else es.lookup k := by
  induction es with
  | nil => simp
  | cons e rest ih =>
    obtain ⟨m, t⟩ := e
    by_cases hm : m = l
    · subst hm
      by_cases hk : k = m
      · subst hk
        simpa [List.filter_cons] using ih
      · have hb : (k == m) = false := by simpa using hk
        simp only [List.filter_cons, List.lookup_cons, hb]
        simpa [hk] using ih
    · by_cases hk : k = m
      · subst hk
        simp [hm]
      · have hb : (k == m) = false := by simpa using hk
        simp only [List.filter_cons, List.lookup_cons, hb]
        simpa [hm, List.lookup_cons, hb] using ih

/-- A token that is given out is stored under the key asked for, and usable. -/
theorem mem_of_get?_eq_some {s : TokenStore} {scope : ScopeSet} {now : Instant} {t : AccessToken}
    (h : s.get? scope now = some t) :
    (scope.key, t) ∈ s.entries ∧ t.isUsable now s.margin = true := by
  obtain ⟨hfind, husable⟩ := Option.filter_eq_some_iff.mp h
  obtain ⟨before, after, hentries, -⟩ := List.lookup_eq_some_iff.mp hfind
  exact ⟨by simp [hentries], husable⟩

theorem find?_eq_none_iff {s : TokenStore} {k : ScopeKey} :
    s.find? k = none ↔ ∀ p ∈ s.entries, p.1 ≠ k := by
  simp only [find?, List.lookup_eq_none_iff, bne_iff_ne]
  exact ⟨fun h p hp => (h p hp).symm, fun h p hp => (h p hp).symm⟩

@[simp] theorem find?_empty (margin : Duration) (k : ScopeKey) :
    (empty margin).find? k = none := rfl

theorem find?_put (s : TokenStore) (t : AccessToken) (k : ScopeKey) :
    (s.put t).find? k = if k = t.scope.key then some t else s.find? k := by
  by_cases h : k = t.scope.key
  · subst h
    simp [put, find?]
  · have hb : (k == t.scope.key) = false := by simpa using h
    simp only [put, find?, List.lookup_cons, hb, lookup_filter_ne, h, if_false]

/-- A purge stores nothing. -/
theorem find?_purge_eq_none {s : TokenStore} {k : ScopeKey} (h : s.find? k = none) (now : Instant) :
    (s.purge now).find? k = none :=
  find?_eq_none_iff.mpr fun p hp => find?_eq_none_iff.mp h p (List.mem_filter.mp hp).1

theorem find?_invalidate (s : TokenStore) (scope : ScopeSet) (k : ScopeKey) :
    (s.invalidate scope).find? k = if k = scope.key then none else s.find? k :=
  lookup_filter_ne k scope.key s.entries

end TokenStore

end FederatedAccess
