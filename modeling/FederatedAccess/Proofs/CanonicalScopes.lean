import FederatedAccess.Proofs.ScopeText
import FederatedAccess.Proofs.Text.Base64
import FederatedAccess.Proofs.Text.RoundTrip
import Mathlib.Data.Finset.Card

/-!
# Scope sets are canonical

A scope set keeps of a list which scopes occur in it, and nothing else. Its entries ascend, so a
scope is found among them by halving, and the text in which they are joined tells the set. The key
tells it as well, as far as digests tell texts.
-/

namespace FederatedAccess

/-- Different messages with one digest. -/
def Sha256.Collide (a b : List UInt8) : Prop := a ≠ b ∧ digest a = digest b

namespace Utf8

theorem before_trichotomy (a b : String) : before a b ∨ a = b ∨ before b a := by
  by_cases hab : before a b
  · exact .inl hab
  · by_cases hba : before b a
    · exact .inr (.inr hba)
    · have hbytes : bytes a = bytes b := List.le_antisymm (List.not_lt.mp hba) (List.not_lt.mp hab)
      exact .inr (.inl (bytes_inj.mp hbytes))

theorem before_of_order {a b : String} (h : order a b = .lt) : before a b := by
  by_contra hab
  rw [order, if_neg hab] at h
  split at h <;> cases h

theorem before_of_order_gt {a b : String} (h : order a b = .gt) : before b a := by
  by_contra hba
  rw [order, if_neg hba] at h
  split at h <;> cases h

theorem eq_of_order {a b : String} (h : order a b = .eq) : a = b := by
  unfold order at h
  split at h
  · cases h
  · rename_i hab
    split at h
    · cases h
    · rename_i hba
      rcases before_trichotomy a b with hlt | heq | hgt
      · exact absurd hlt hab
      · exact heq
      · exact absurd hgt hba

end Utf8

namespace Scope

theorem mem_insert_iff {s y : String} {xs : List String} : y ∈ insert s xs ↔ y = s ∨ y ∈ xs := by
  refine ⟨mem_insert, fun h => ?_⟩
  induction xs with
  | nil => simpa [insert] using h
  | cons x rest ih =>
      simp only [insert]
      split
      · simpa using h
      · rename_i hsx
        split
        · rcases h with rfl | h
          · exact List.mem_cons_of_mem x (ih (.inl rfl))
          · rcases List.mem_cons.mp h with rfl | h
            · exact List.mem_cons_self
            · exact List.mem_cons_of_mem x (ih (.inr h))
        · rename_i hxs
          -- the entry at the front is the one to be inserted
          obtain rfl : s = x := by
            rcases Utf8.before_trichotomy s x with hlt | heq | hgt
            · exact absurd hlt hsx
            · exact heq
            · exact absurd hgt hxs
          rcases h with rfl | h
          · exact List.mem_cons_self
          · exact h

theorem mem_sort_iff {y : String} {xs : List String} : y ∈ sort xs ↔ y ∈ xs := by
  induction xs with
  | nil => simp [sort]
  | cons x rest ih =>
      calc
        y ∈ sort (x :: rest) ↔ y = x ∨ y ∈ sort rest := mem_insert_iff
        _ ↔ y ∈ x :: rest := by rw [ih, List.mem_cons]

section

variable {x y : String} {front back xs : List String}

/-- What comes before an entry of an ascending list stands in front of it. -/
theorem mem_front_iff (ascending : (front ++ y :: back).Pairwise Utf8.before)
    (h : Utf8.before x y) : x ∈ front ++ y :: back ↔ x ∈ front := by
  refine ⟨fun hmem => ?_, fun hmem => List.mem_append_left _ hmem⟩
  obtain ⟨-, hback, -⟩ := List.pairwise_append.mp ascending
  rcases List.mem_append.mp hmem with hfront | hmem
  · exact hfront
  · rcases List.mem_cons.mp hmem with rfl | hmem
    · exact absurd h (Utf8.not_before_self x)
    · have hyx := (List.pairwise_cons.mp hback).1 x hmem
      exact absurd (Utf8.before_trans h hyx) (Utf8.not_before_self x)

/-- What comes after an entry of an ascending list stands behind it. -/
theorem mem_back_iff (ascending : (front ++ y :: back).Pairwise Utf8.before)
    (h : Utf8.before y x) : x ∈ front ++ y :: back ↔ x ∈ back := by
  refine ⟨fun hmem => ?_, fun hmem => List.mem_append_right _ (List.mem_cons_of_mem y hmem)⟩
  obtain ⟨-, -, hfront⟩ := List.pairwise_append.mp ascending
  rcases List.mem_append.mp hmem with hmem | hmem
  · have hxy := hfront x hmem y List.mem_cons_self
    exact absurd (Utf8.before_trans h hxy) (Utf8.not_before_self y)
  · rcases List.mem_cons.mp hmem with rfl | hback
    · exact absurd h (Utf8.not_before_self x)
    · exact hback

theorem eq_append_middle {n : Nat} (h : n < xs.length) :
    xs = xs.take n ++ xs[n] :: xs.drop (n + 1) := by
  rw [← List.drop_eq_getElem_cons h, List.take_append_drop]

/-- In an ascending list, halving finds what is there. -/
theorem search_eq_true_iff (ascending : xs.Pairwise Utf8.before) :
    search x xs = true ↔ x ∈ xs := by
  induction xs using search.induct x with
  | case1 xs middle h earlier ih =>
      have hsplit := eq_append_middle h
      have hmem := mem_front_iff (hsplit ▸ ascending) (Utf8.before_of_order earlier)
      calc
        search x xs = true ↔ search x (xs.take middle) = true := by
          rw [search, dif_pos h, earlier]
        _ ↔ x ∈ xs.take middle := ih (ascending.sublist (List.take_sublist middle xs))
        _ ↔ x ∈ xs := by rw [← hmem, ← hsplit]
  | case2 xs middle h found =>
      rw [search, dif_pos h, found, Utf8.eq_of_order found]
      exact iff_of_true rfl (List.getElem_mem h)
  | case3 xs middle h later ih =>
      have hsplit := eq_append_middle h
      have hmem := mem_back_iff (hsplit ▸ ascending) (Utf8.before_of_order_gt later)
      calc
        search x xs = true ↔ search x (xs.drop (middle + 1)) = true := by
          rw [search, dif_pos h, later]
        _ ↔ x ∈ xs.drop (middle + 1) := ih (ascending.sublist (List.drop_sublist _ xs))
        _ ↔ x ∈ xs := by rw [← hmem, ← hsplit]
  | case4 xs middle h =>
      obtain rfl : xs = [] := List.length_eq_zero_iff.mp (by omega)
      rw [search, dif_neg h]
      exact iff_of_false nofun List.not_mem_nil

end

end Scope

namespace ScopeSet

variable {xs ys : List String} {s t : ScopeSet}

/-- A list makes a set if none of its scopes is faulty, and the set holds what the list holds. -/
theorem ofList_eq_ok_iff :
    ofList xs = .ok s ↔ (∀ x ∈ xs, Scope.fault? x = none) ∧ ∀ x, x ∈ s.entries ↔ x ∈ xs := by
  unfold ofList
  split
  · rename_i f hf
    obtain ⟨x, hx, hfault⟩ := List.exists_of_findSome?_eq_some hf
    refine iff_of_false nofun fun h => ?_
    cases (h.1 x hx).symm.trans hfault
  · rename_i hnone
    have hsound := List.findSome?_eq_none_iff.mp hnone
    constructor
    · rintro ⟨⟩
      exact ⟨hsound, fun x => Scope.mem_sort_iff⟩
    · intro h
      exact congrArg Except.ok (same_iff.mp fun x => Scope.mem_sort_iff.trans (h.2 x).symm)

theorem exists_ofList (h : ∀ x ∈ xs, Scope.fault? x = none) : ∃ s, ofList xs = .ok s := by
  unfold ofList
  split
  · rename_i f hf
    cases (List.findSome?_eq_none_iff.mpr h).symm.trans hf
  · exact ⟨_, rfl⟩

theorem contains_iff {x : String} : s.contains x = true ↔ x ∈ s.entries :=
  Scope.search_eq_true_iff s.ascending

theorem nodup_entries (s : ScopeSet) : s.entries.Nodup := by
  refine s.ascending.imp fun {a b} h heq => ?_
  subst heq
  exact Utf8.not_before_self a h

/-- The joined scopes tell the set. -/
theorem normalized_inj : s.normalized = t.normalized ↔ s = t := by
  constructor
  · intro h
    have hparse := s.parse_normalized
    rw [h, t.parse_normalized] at hparse
    exact (Except.ok.inj hparse).symm
  · rintro rfl
    rfl

/-- A key tells the digest of the joined scopes. -/
theorem key_eq_iff : s.key = t.key ↔
    Sha256.digest (Utf8.bytes s.normalized) = Sha256.digest (Utf8.bytes t.normalized) := by
  rw [key, key, ScopeKey.mk.injEq, String.ofList_inj, Base64.encode_injective.eq_iff]

/-- What a hasher is given tells the key. -/
theorem key_eq_iff_hashWith : s.key = t.key ↔
    ∀ {σ : Type} (write : σ → List UInt8 → σ) (state : σ),
      s.hashWith write state = t.hashWith write state := by
  constructor
  · intro h σ write state
    rw [hashWith, hashWith, h]
  · intro h
    -- a hasher that keeps all it is given
    have hkept := h (fun written bs => written ++ bs) []
    simp only [hashWith, List.nil_append, List.append_cancel_right_eq] at hkept
    exact congrArg ScopeKey.mk (Utf8.bytes_inj.mp hkept)

/-- What a set shows of the list that it is made of. -/
structure Shows (xs : List String) (s : ScopeSet) : Prop where
  ascending : s.entries.Pairwise Utf8.before
  distinct : s.entries.Nodup
  entries : ∀ x, x ∈ s.entries ↔ x ∈ xs
  size : s.size = xs.toFinset.card
  contains : ∀ x, s.contains x = true ↔ x ∈ xs

/-- How two sets are told apart that are made of two lists. -/
structure Told (xs ys : List String) (s t : ScopeSet) : Prop where
  lists : s = t ↔ ∀ x, x ∈ xs ↔ x ∈ ys
  texts : s = t ↔ s.normalized = t.normalized
  keys : s.key = t.key ↔
    s = t ∨ Sha256.Collide (Utf8.bytes s.normalized) (Utf8.bytes t.normalized)
  hashes : s.key = t.key ↔ ∀ {σ : Type} (write : σ → List UInt8 → σ) (state : σ),
    s.hashWith write state = t.hashWith write state

theorem shows_of_ofList (h : ofList xs = .ok s) : Shows xs s where
  ascending := s.ascending
  distinct := s.nodup_entries
  entries := (ofList_eq_ok_iff.mp h).2
  size := by
    have hset : s.entries.toFinset = xs.toFinset := by
      ext x
      rw [List.mem_toFinset, List.mem_toFinset, (ofList_eq_ok_iff.mp h).2]
    rw [← hset, List.toFinset_card_of_nodup s.nodup_entries, size]
  contains x := contains_iff.trans ((ofList_eq_ok_iff.mp h).2 x)

/-- Sets with one key are equal or have texts with one digest. -/
theorem key_eq_iff_collide : s.key = t.key ↔
    s = t ∨ Sha256.Collide (Utf8.bytes s.normalized) (Utf8.bytes t.normalized) := by
  rw [key_eq_iff, Sha256.Collide, ne_eq, Utf8.bytes_inj, normalized_inj]
  constructor
  · intro h
    by_cases heq : s = t
    · exact .inl heq
    · exact .inr ⟨heq, h⟩
  · rintro (rfl | h)
    · rfl
    · exact h.2

/-- Whatever lists of scopes two sets are made of, each set holds what its list holds, in ascending
order, and the sets are equal just when the lists hold the same scopes, and just when the joined
scopes are the same text. Unequal sets share a key, and thus all hashes, only where digests
collide. -/
theorem scope_sets_canonical (xs ys : List String) (s t : ScopeSet) (hs : ofList xs = .ok s)
    (ht : ofList ys = .ok t) : Shows xs s ∧ Shows ys t ∧ Told xs ys s t := by
  have hxs := shows_of_ofList hs
  have hys := shows_of_ofList ht
  refine ⟨hxs, hys, ?_, normalized_inj.symm, key_eq_iff_collide, key_eq_iff_hashWith⟩
  rw [← same_iff]
  exact forall_congr' fun x => by rw [hxs.entries, hys.entries]

/-- Two scopes, of which the second is longer in bytes than in characters. -/
def accentedScope : ScopeSet := ⟨["api/read", "é"], by decide, by decide⟩

theorem repeated_scopes_canonical :
    ofList ["é", "api/read", "é"] = .ok accentedScope ∧
      ofList ["api/read"] = .ok ⟨["api/read"], by decide, by decide⟩ ∧
      accentedScope.size = 2 ∧ accentedScope.contains "é" = true ∧
      accentedScope.contains "é " = false ∧ accentedScope.normalized ≠ "api/read" := by
  have made : ofList ["é", "api/read", "é"] = .ok accentedScope := by rfl
  have madeOfOne : ofList ["api/read"] = .ok ⟨["api/read"], by decide, by decide⟩ := by rfl
  obtain ⟨shows, -, told⟩ := scope_sets_canonical _ _ _ _ made madeOfOne
  refine ⟨made, madeOfOne, ?_, ?_, ?_, ?_⟩
  · rw [shows.size]
    decide
  · exact (shows.contains "é").mpr (by simp)
  · exact Bool.eq_false_iff.mpr fun h => absurd ((shows.contains "é ").mp h) (by decide)
  · exact fun h => absurd (told.texts.mpr h) (by decide)

end ScopeSet

end FederatedAccess
