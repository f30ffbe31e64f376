import FederatedAccess.TokenStore

/-!
# Tokens in a store

The keys of a store differ, so its entries are what is found by their keys. What is given out after
an operation is said by what was given out before.
-/

namespace FederatedAccess

/-- A token that is usable was usable before. -/
theorem AccessToken.isUsable_of_le {t : AccessToken} {now later : Instant} {margin : Duration}
    (hle : now ≤ later) (h : t.isUsable later margin = true) : t.isUsable now margin = true := by
  obtain ⟨before, reaches⟩ := isUsable_iff.mp h
  rw [Instant.le_def] at hle
  exact isUsable_iff.mpr ⟨by omega, reaches⟩

/-- Where keys differ, a filter on values keeps what is found by a key or drops it. -/
theorem lookup_filter_of_nodup {κ α : Type} [DecidableEq κ] {l : List (κ × α)}
    (h : (l.map Prod.fst).Nodup) (p : α → Bool) (k : κ) :
    (l.filter (p ·.2)).lookup k = (l.lookup k).filter p := by
  induction l with
  | nil => rfl
  | cons e rest ih =>
      obtain ⟨m, t⟩ := e
      obtain ⟨hm, hrest⟩ := List.nodup_cons.mp h
      by_cases hk : k = m
      · subst hk
        cases hp : p t with
        | true => simp [hp, Option.filter]
        | false =>
            have hnone : (rest.filter (p ·.2)).lookup k = none := by
              refine List.lookup_eq_none_iff.mpr fun q hq => bne_iff_ne.mpr ?_
              have hmem : q.1 ∈ rest.map Prod.fst :=
                List.mem_map_of_mem (List.mem_filter.mp hq).1
              exact fun he => hm (he ▸ hmem)
            simpa [hp, List.lookup_cons, Option.filter] using hnone
      · have hb : (k == m) = false := beq_false_of_ne hk
        cases hp : p t with
        | true => simpa [hp, List.lookup_cons, hb] using ih hrest
        | false => simpa [hp, List.lookup_cons, hb] using ih hrest

namespace TokenStore

/-- What is given out later is what is given out now, if it is still usable. -/
theorem get?_later (s : TokenStore) {now later : Instant} (hle : now ≤ later) (scope : ScopeSet) :
    s.get? scope later = (s.get? scope now).filter (·.isUsable later s.margin) := by
  rw [get?, get?, Option.filter_filter]
  congr 1
  funext t
  cases h : t.isUsable later s.margin with
  | false => simp
  | true => simp [AccessToken.isUsable_of_le hle h]

theorem get?_put (s : TokenStore) (t : AccessToken) (scope : ScopeSet) (now : Instant) :
    (s.put t).get? scope now = if scope.key = t.scope.key then
      (some t).filter (·.isUsable now s.margin) else s.get? scope now := by
  rw [get?, find?_put]
  split <;> rfl

theorem get?_invalidate (s : TokenStore) (other scope : ScopeSet) (now : Instant) :
    (s.invalidate other).get? scope now =
      if scope.key = other.key then none else s.get? scope now := by
  rw [get?, find?_invalidate]
  split <;> rfl

/-- A purge drops nothing that would be given out. -/
theorem get?_purge {s : TokenStore} (keys : (s.entries.map Prod.fst).Nodup) (scope : ScopeSet)
    (now : Instant) : (s.purge now).get? scope now = s.get? scope now := by
  have hlookup := lookup_filter_of_nodup keys (·.isUsable now s.margin) scope.key
  calc
    (s.purge now).get? scope now
      = ((s.entries.filter (·.2.isUsable now s.margin)).lookup scope.key).filter
          (·.isUsable now s.margin) := rfl
    _ = s.get? scope now := by
      rw [hlookup, Option.filter_filter]
      simp only [Bool.and_self]
      rfl

theorem keys_put {s : TokenStore} (keys : (s.entries.map Prod.fst).Nodup) (t : AccessToken) :
    ((s.put t).entries.map Prod.fst).Nodup := by
  refine List.nodup_cons.mpr ⟨?_, (List.filter_sublist.map Prod.fst).nodup keys⟩
  intro hmem
  obtain ⟨p, hp, hk⟩ := List.mem_map.mp hmem
  exact of_decide_eq_true (List.mem_filter.mp hp).2 hk

end TokenStore

end FederatedAccess
