import FederatedAccess.Proofs.ScopeText
import FederatedAccess.Proofs.StoredTokens
import Mathlib.Data.Set.Card

/-!
# The token store is a map

Whatever is done with a store, it holds for a scope set the token that was last put for it, unless
that was invalidated or purged since, and gives it out while the margin before its expiry lasts. The
keys under which tokens are stored do not show, as long as the scope sets in use have different ones.
Any tokens may be put, sound or not, with instants at any offsets.
-/

namespace FederatedAccess.TokenStore

/-- What is done with a store. -/
inductive Operation
  | put (t : AccessToken)
  | get (scope : ScopeSet) (now : Instant)
  | invalidate (scope : ScopeSet)
  | purge (now : Instant)

/-- The scope set that an operation is about. -/
def Operation.scope? : Operation → Option ScopeSet
  | .put t => some t.scope
  | .get scope _ => some scope
  | .invalidate scope => some scope
  | .purge _ => none

/-- The store after an operation. -/
def apply (s : TokenStore) : Operation → TokenStore
  | .put t => s.put t
  | .get _ _ => s
  | .invalidate scope => s.invalidate scope
  | .purge now => s.purge now

/-- The store after operations in order. -/
def run (s : TokenStore) (ops : List Operation) : TokenStore := ops.foldl apply s

/-- The margin before the expiry of a token has not come, and the calendar has the instant at which
it will, at the offset of the expiry. -/
def Outlasts (margin : Duration) (t : AccessToken) (now : Instant) : Prop :=
  now.nanos + margin.nanos < t.expiresAt.nanos ∧
    t.expiresAt.offset.Reaches (t.expiresAt.nanos - margin.nanos)

/-- An operation takes a stored token away: another one is put for the same scopes, these are
invalidated, or the token is purged when it does not outlast the margin. -/
def Operation.Drops (margin : Duration) (t : AccessToken) : Operation → Prop
  | .put u => u.scope.Same t.scope
  | .get _ _ => False
  | .invalidate scope => scope.Same t.scope
  | .purge now => ¬ Outlasts margin t now

/-- After operations, a token is the one that was last put for its scope set, and nothing took it away
since. -/
def Latest (margin : Duration) (ops : List Operation) (t : AccessToken) : Prop :=
  ∃ before after, ops = before ++ .put t :: after ∧ ∀ o ∈ after, ¬ o.Drops margin t

/-- Scope sets have different keys. -/
def Apart (used : Set ScopeSet) : Prop :=
  ∀ s ∈ used, ∀ t ∈ used, s.key = t.key → s.Same t

/-- The keys of a store differ, and each token stands under the key of its own scope set. -/
structure Keyed (s : TokenStore) : Prop where
  keys : (s.entries.map Prod.fst).Nodup
  own : ∀ p ∈ s.entries, p.1 = p.2.scope.key

variable {s : TokenStore} {margin : Duration} {used : Set ScopeSet} {ops : List Operation}
  {o : Operation} {scope : ScopeSet} {t : AccessToken}

namespace Keyed

theorem filter (h : s.Keyed) (p : ScopeKey × AccessToken → Bool) :
    Keyed { s with entries := s.entries.filter p } :=
  ⟨(List.filter_sublist.map Prod.fst).nodup h.keys, fun q hq => h.own q (List.mem_filter.mp hq).1⟩

theorem put (h : s.Keyed) (t : AccessToken) : (s.put t).Keyed where
  keys := keys_put h.keys t
  own p hp := by
    rcases List.mem_cons.mp hp with rfl | hp
    · rfl
    · exact h.own p (List.mem_filter.mp hp).1

theorem apply (h : s.Keyed) (o : Operation) : (s.apply o).Keyed := by
  cases o with
  | put t => exact h.put t
  | get scope now => exact h
  | invalidate scope => exact h.filter _
  | purge now => exact h.filter _

/-- What is stored under a key is found there. -/
theorem find?_eq_some_iff (h : s.Keyed) {k : ScopeKey} : s.find? k = some t ↔ (k, t) ∈ s.entries := by
  constructor
  · intro hfind
    obtain ⟨before, after, hentries, -⟩ := List.lookup_eq_some_iff.mp hfind
    simp [hentries]
  · intro hmem
    obtain ⟨before, after, hentries⟩ := List.append_of_mem hmem
    refine List.lookup_eq_some_iff.mpr ⟨before, after, hentries, fun p hp => ?_⟩
    have hkeys := h.keys
    rw [hentries, List.map_append, List.map_cons, List.nodup_append] at hkeys
    have hne : p.1 ≠ k := hkeys.2.2 p.1 (List.mem_map_of_mem hp) k List.mem_cons_self
    exact bne_iff_ne.mpr hne.symm

end Keyed

/-! ### Operations -/

theorem latest_concat : Latest margin (ops ++ [o]) t ↔
    o = .put t ∨ Latest margin ops t ∧ ¬ o.Drops margin t := by
  constructor
  · rintro ⟨before, after, heq, hkept⟩
    rcases List.eq_nil_or_concat after with rfl | ⟨front, last, rfl⟩
    · exact .inl (List.append_singleton_inj.mp heq).2
    · rw [List.concat_eq_append, ← List.cons_append, ← List.append_assoc] at heq
      obtain ⟨rfl, rfl⟩ := List.append_singleton_inj.mp heq
      exact .inr ⟨⟨before, front, rfl, fun x hx => hkept x (by simp [hx])⟩, hkept o (by simp)⟩
  · rintro (rfl | ⟨⟨before, after, rfl, hkept⟩, hlast⟩)
    · exact ⟨ops, [], rfl, by simp⟩
    · refine ⟨before, after ++ [o], by simp, fun x hx => ?_⟩
      rcases List.mem_append.mp hx with hx | hx
      · exact hkept x hx
      · exact List.mem_singleton.mp hx ▸ hlast

theorem Latest.mem (h : Latest margin ops t) : .put t ∈ ops := by
  obtain ⟨before, after, rfl, -⟩ := h
  simp

/-- What an operation leaves in a store: a token that is put, and what is not taken away. -/
theorem mem_apply
    (apart : (t.scope.key, t) ∈ s.entries → ∀ other ∈ o.scope?, t.scope.key = other.key →
      other.Same t.scope) :
    (t.scope.key, t) ∈ (s.apply o).entries ↔
      o = .put t ∨ (t.scope.key, t) ∈ s.entries ∧ ¬ o.Drops s.margin t := by
  have hne (other : ScopeSet) (hother : o.scope? = some other)
      (hmem : (t.scope.key, t) ∈ s.entries) : t.scope.key ≠ other.key ↔ ¬ other.Same t.scope := by
    refine not_congr ⟨apart hmem other hother, fun h => ?_⟩
    rw [ScopeSet.same_iff.mp h]
  cases o with
  | put u =>
      simp only [apply, put, List.mem_cons, List.mem_filter, decide_eq_true_iff, Prod.mk.injEq,
        Operation.put.injEq, Operation.Drops]
      constructor
      · rintro (⟨-, rfl⟩ | ⟨hmem, hkey⟩)
        · exact .inl rfl
        · exact .inr ⟨hmem, (hne u.scope rfl hmem).mp hkey⟩
      · rintro (rfl | ⟨hmem, hother⟩)
        · exact .inl ⟨rfl, rfl⟩
        · exact .inr ⟨hmem, (hne u.scope rfl hmem).mpr hother⟩
  | get scope now => simp [apply, Operation.Drops]
  | invalidate other =>
      simp only [apply, invalidate, List.mem_filter, decide_eq_true_iff, reduceCtorEq, false_or,
        Operation.Drops]
      exact and_congr_right fun hmem => hne other rfl hmem
  | purge now =>
      simp only [apply, purge, List.mem_filter, AccessToken.isUsable_iff, reduceCtorEq, false_or,
        Operation.Drops, Outlasts, Decidable.not_not]

/-- A store holds what was last put for each scope set. -/
structure Follows (margin : Duration) (used : Set ScopeSet) (ops : List Operation) (s : TokenStore) :
    Prop where
  kept : s.margin = margin
  keyed : s.Keyed
  within : ∀ o ∈ ops, ∀ scope ∈ o.scope?, scope ∈ used
  entries : ∀ t, (t.scope.key, t) ∈ s.entries ↔ Latest margin ops t

namespace Follows

theorem empty (margin : Duration) (used : Set ScopeSet) :
    Follows margin used [] (TokenStore.empty margin) where
  kept := rfl
  keyed := ⟨List.nodup_nil, by simp [TokenStore.empty]⟩
  within := by simp
  entries t := by simp [TokenStore.empty, Latest]

theorem scope_mem (h : Follows margin used ops s) (ht : Latest margin ops t) : t.scope ∈ used :=
  h.within _ ht.mem _ rfl

theorem apply (h : Follows margin used ops s) (apart : Apart used)
    (within : ∀ scope ∈ o.scope?, scope ∈ used) : Follows margin used (ops ++ [o]) (s.apply o) where
  kept := by cases o <;> exact h.kept
  keyed := h.keyed.apply o
  within x hx := by
    rcases List.mem_append.mp hx with hx | hx
    · exact h.within x hx
    · exact List.mem_singleton.mp hx ▸ within
  entries t := by
    rw [latest_concat, mem_apply, h.entries, h.kept]
    intro hmem other hother hkey
    exact apart _ (within other hother) _ (h.scope_mem ((h.entries t).mp hmem)) hkey.symm

theorem run (h : Follows margin used ops s) (apart : Apart used)
    {more : List Operation} (within : ∀ o ∈ more, ∀ scope ∈ o.scope?, scope ∈ used) :
    Follows margin used (ops ++ more) (s.run more) := by
  induction more generalizing s ops with
  | nil => simpa [TokenStore.run] using h
  | cons o rest ih =>
      have hnext := h.apply apart (within o List.mem_cons_self)
      have hrest := ih hnext fun x hx => within x (List.mem_cons_of_mem o hx)
      rwa [List.append_assoc] at hrest

/-- What is found for a scope set in use is what was last put for it. -/
theorem find?_eq_some_iff (h : Follows margin used ops s) (apart : Apart used)
    (used : scope ∈ used) :
    s.find? scope.key = some t ↔ t.scope.Same scope ∧ Latest margin ops t := by
  rw [h.keyed.find?_eq_some_iff, ← h.entries]
  constructor
  · intro hmem
    have hkey : scope.key = t.scope.key := h.keyed.own _ hmem
    have hown : (t.scope.key, t) ∈ s.entries := hkey ▸ hmem
    have hscope := h.scope_mem ((h.entries t).mp hown)
    exact ⟨apart _ hscope _ used hkey.symm, hown⟩
  · rintro ⟨hsame, hmem⟩
    exact ScopeSet.same_iff.mp hsame ▸ hmem

end Follows

end FederatedAccess.TokenStore
