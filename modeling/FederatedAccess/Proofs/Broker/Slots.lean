import FederatedAccess.Broker.Slot
import Mathlib.Data.List.Nodup

/-!
# Stored slots

The slots that are stored differ in their numbers and in their keys, and no call stands twice in a
queue (`Slots.WellFormed`). Changes to slots are described by membership: which slots are stored
after a change, in terms of those that were stored before.
-/

namespace FederatedAccess

/-- Where keys differ, a search by key finds exactly the elements with that key. -/
theorem find?_key_eq_some_iff {α κ : Type} [DecidableEq κ] {key : α → κ} {l : List α}
    (h : (l.map key).Nodup) {k : κ} {a : α} :
    l.find? (fun x => key x = k) = some a ↔ a ∈ l ∧ key a = k := by
  constructor
  · intro ha
    exact ⟨List.mem_of_find?_eq_some ha, by simpa using List.find?_some ha⟩
  · rintro ⟨ha, rfl⟩
    cases hf : l.find? (fun x => key x = key a) with
    | none => simpa using List.find?_eq_none.mp hf a ha
    | some x =>
        have hx : key x = key a := by simpa using List.find?_some hf
        rw [List.inj_on_of_nodup_map h (List.mem_of_find?_eq_some hf) ha hx]

namespace Slot

@[simp] theorem id_exit (s : Slot) (call : CallId) : (s.exit call).id = s.id := rfl

@[simp] theorem id_enter (s : Slot) (call : CallId) : (s.enter call).id = s.id := rfl

@[simp] theorem id_advance (s : Slot) (call : CallId) : (s.advance call).id = s.id := rfl

@[simp] theorem mem_queue_exit {s : Slot} {call i : CallId} :
    i ∈ (s.exit call).queue ↔ i ∈ s.queue ∧ i ≠ call := by
  simp [exit]

@[simp] theorem mem_queue_enter {s : Slot} {call i : CallId} :
    i ∈ (s.enter call).queue ↔ i ∈ s.queue ∨ i = call := by
  simp [enter]

@[simp] theorem mem_queue_advance {s : Slot} {call i : CallId} :
    i ∈ (s.advance call).queue ↔ i ∈ s.queue ∨ i = call := by
  by_cases h : i = call <;> simp [advance, h]

theorem isTurn_iff {s : Slot} {call : CallId} :
    s.isTurn call = true ↔ s.queue.head? = some call := by
  simp [isTurn]

theorem isFree_iff {s : Slot} : s.isFree = true ↔ s.queue = [] := by
  simp [isFree]

/-- A call at the head of the queue stays there when another one leaves. -/
theorem head?_queue_exit {s : Slot} {call i : CallId} (h : s.queue.head? = some i) (hi : i ≠ call) :
    (s.exit call).queue.head? = some i := by
  obtain ⟨rest, hq⟩ := List.head?_eq_some_iff.mp h
  simp [exit, hq, hi]

/-- When the head of the queue leaves, the rest of the queue stays. -/
theorem queue_exit_head {s : Slot} {call : CallId} {rest : List CallId} (h : s.queue.Nodup)
    (hq : s.queue = call :: rest) : (s.exit call).queue = rest := by
  rw [hq, List.nodup_cons] at h
  have hrest : rest.filter (· ≠ call) = rest := by
    refine List.filter_eq_self.mpr fun i hi => decide_eq_true ?_
    rintro rfl
    exact h.1 hi
  simp only [exit, hq, ne_eq, not_true, decide_false, Bool.false_eq_true, not_false_eq_true,
    List.filter_cons_of_neg]
  exact hrest

/-- An outcome is shared only when the count has moved, and then it is the one that is held. -/
theorem shared?_eq_some_iff {s : Slot} {n : Nat} {o : Except Failure AccessToken} :
    s.shared? n = some o ↔ s.landed ≠ n ∧ s.outcome = some o := by
  unfold shared?
  split <;> simp_all

end Slot

/-- One slot is the other but for those that queue in it. -/
structure Slot.Like (s u : Slot) : Prop where
  id : s.id = u.id
  key : s.key = u.key
  landed : s.landed = u.landed
  outcome : s.outcome = u.outcome

theorem Slot.Like.refl (s : Slot) : s.Like s := ⟨rfl, rfl, rfl, rfl⟩

namespace Slots

/-- Stored slots differ in number and key, and nobody queues twice. -/
structure WellFormed (t : Slots) : Prop where
  ids : (t.stored.map Slot.id).Nodup
  keys : (t.stored.map Slot.key).Nodup
  fresh : ∀ s ∈ t.stored, s.id < t.next
  queues : ∀ s ∈ t.stored, s.queue.Nodup

theorem mem_modify {t : Slots} {id : SlotId} {f : Slot → Slot} {s : Slot} :
    s ∈ (t.modify id f).stored ↔ ∃ u ∈ t.stored, (if u.id = id then f u else u) = s := by
  simp [modify]

theorem mem_release {t : Slots} {key : ScopeKey} {id : SlotId} {call : CallId} {s : Slot} :
    s ∈ (t.release key id call).stored ↔
      (∃ u ∈ t.stored, (if u.id = id then u.exit call else u) = s) ∧
        ¬ (s.key = key ∧ s.queue = []) := by
  simp only [release, List.mem_filter, mem_modify]
  apply and_congr_right
  intro _
  rw [← Slot.isFree_iff]
  simp [imp_iff_not_or]

/-- A slot stays stored when the head of its queue leaves and others queue. -/
theorem exit_mem_release {t : Slots} {s : Slot} {call : CallId} {rest : List CallId}
    (hs : s ∈ t.stored) (hexit : (s.exit call).queue = rest) (hne : rest ≠ []) (key : ScopeKey) :
    s.exit call ∈ (t.release key s.id call).stored := by
  refine mem_release.mpr ⟨⟨s, hs, if_pos rfl⟩, ?_⟩
  rw [hexit]
  exact fun hfree => hne hfree.2

theorem mem_prune {t : Slots} {s : Slot} : s ∈ t.prune.stored ↔ s ∈ t.stored ∧ s.queue ≠ [] := by
  simp [prune, Slot.isFree]

/-- Taking the slot of a key finds it or stores a new one without calls and outcomes. -/
theorem take_cases (t : Slots) (key : ScopeKey) :
    (t.take key).2 = t ∧ (t.take key).1 ∈ t.stored ∨
      (t.take key).1 = { id := t.next, key } ∧ (∀ s ∈ t.stored, s.key ≠ key) ∧
        (t.take key).2 = ⟨t.stored ++ [(t.take key).1], t.next + 1⟩ := by
  unfold take
  split
  · rename_i s hs
    exact .inl ⟨rfl, List.mem_of_find?_eq_some hs⟩
  · rename_i hn
    exact .inr ⟨rfl, by simpa [at?] using hn, rfl⟩

theorem key_take (t : Slots) (key : ScopeKey) : (t.take key).1.key = key := by
  unfold take
  split
  · rename_i s hs
    simpa using List.find?_some hs
  · rfl

theorem take_mem (t : Slots) (key : ScopeKey) : (t.take key).1 ∈ (t.take key).2.stored := by
  rcases t.take_cases key with ⟨he, hs⟩ | ⟨-, -, he⟩
  · rwa [he]
  · rw [he]
    simp

/-- A slot that is stored after a key was taken was stored before, or it is the one of the key and
new. -/
theorem mem_take {t : Slots} {key : ScopeKey} {s : Slot} :
    s ∈ (t.take key).2.stored ↔ s ∈ t.stored ∨ s = (t.take key).1 := by
  rcases t.take_cases key with ⟨he, hs⟩ | ⟨-, -, he⟩
  · rw [he]
    exact ⟨.inl, fun h => h.elim id (fun h => h ▸ hs)⟩
  · rw [he]
    simp

/-- Whatever slot is stored was stored before, but for those that queue in it. -/
structure Under (t' t : Slots) : Prop where
  next : t'.next = t.next
  like : ∀ s ∈ t'.stored, ∃ u ∈ t.stored, s.Like u

namespace Under

theorem refl (t : Slots) : t.Under t := ⟨rfl, fun s hs => ⟨s, hs, .refl s⟩⟩

theorem filter (t : Slots) (p : Slot → Bool) :
    Under { t with stored := t.stored.filter p } t :=
  ⟨rfl, fun s hs => ⟨s, (List.mem_filter.mp hs).1, .refl s⟩⟩

theorem modify (t : Slots) (id : SlotId) {f : Slot → Slot} (hf : ∀ s, (f s).Like s) :
    (t.modify id f).Under t := by
  refine ⟨rfl, fun s hs => ?_⟩
  obtain ⟨u, hu, rfl⟩ := mem_modify.mp hs
  refine ⟨u, hu, ?_⟩
  split
  · exact hf u
  · exact .refl u

theorem abandon (t : Slots) (id : SlotId) (call : CallId) : (t.abandon id call).Under t :=
  modify t id fun _ => ⟨rfl, rfl, rfl, rfl⟩

theorem release (t : Slots) (key : ScopeKey) (id : SlotId) (call : CallId) :
    (t.release key id call).Under t := by
  refine ⟨rfl, fun s hs => ?_⟩
  exact (abandon t id call).like s (List.mem_filter.mp hs).1

end Under

namespace WellFormed

variable {t : Slots}

theorem empty : WellFormed {} := ⟨by simp, by simp, by simp, by simp⟩

theorem eq_of_id (h : t.WellFormed) {s u : Slot} (hs : s ∈ t.stored) (hu : u ∈ t.stored)
    (he : s.id = u.id) : s = u :=
  List.inj_on_of_nodup_map h.ids hs hu he

theorem eq_of_key (h : t.WellFormed) {s u : Slot} (hs : s ∈ t.stored) (hu : u ∈ t.stored)
    (he : s.key = u.key) : s = u :=
  List.inj_on_of_nodup_map h.keys hs hu he

theorem find?_eq_some_iff (h : t.WellFormed) {id : SlotId} {s : Slot} :
    t.find? id = some s ↔ s ∈ t.stored ∧ s.id = id :=
  find?_key_eq_some_iff h.ids

theorem at?_eq_some_iff (h : t.WellFormed) {key : ScopeKey} {s : Slot} :
    t.at? key = some s ↔ s ∈ t.stored ∧ s.key = key :=
  find?_key_eq_some_iff h.keys

/-- Dropping slots keeps the rest well formed. -/
theorem filter (h : t.WellFormed) (p : Slot → Bool) :
    WellFormed { t with stored := t.stored.filter p } where
  ids := (List.filter_sublist.map Slot.id).nodup h.ids
  keys := (List.filter_sublist.map Slot.key).nodup h.keys
  fresh s hs := h.fresh s (List.mem_filter.mp hs).1
  queues s hs := h.queues s (List.mem_filter.mp hs).1

/-- Changing one slot keeps the slots well formed if its number, its key and the form of its queue
are kept. -/
theorem modify (h : t.WellFormed) {id : SlotId} {f : Slot → Slot} (hid : ∀ s, (f s).id = s.id)
    (hkey : ∀ s, (f s).key = s.key)
    (hqueue : ∀ s ∈ t.stored, s.id = id → (f s).queue.Nodup) : (t.modify id f).WellFormed := by
  have hids : (t.modify id f).stored.map Slot.id = t.stored.map Slot.id := by
    simp only [Slots.modify, List.map_map]
    apply List.map_congr_left
    intro s _
    simp only [Function.comp_apply]
    split <;> simp [hid]
  have hkeys : (t.modify id f).stored.map Slot.key = t.stored.map Slot.key := by
    simp only [Slots.modify, List.map_map]
    apply List.map_congr_left
    intro s _
    simp only [Function.comp_apply]
    split <;> simp [hkey]
  refine ⟨by rw [hids]; exact h.ids, by rw [hkeys]; exact h.keys, ?_, ?_⟩
  · intro s hs
    obtain ⟨u, hu, rfl⟩ := mem_modify.mp hs
    have := h.fresh u hu
    split <;> simpa [hid, Slots.modify] using this
  · intro s hs
    obtain ⟨u, hu, rfl⟩ := mem_modify.mp hs
    split
    · exact hqueue u hu ‹_›
    · exact h.queues u hu

theorem abandon (h : t.WellFormed) (id : SlotId) (call : CallId) : (t.abandon id call).WellFormed :=
  h.modify (fun _ => rfl) (fun _ => rfl) fun s hs _ => (h.queues s hs).filter _

theorem release (h : t.WellFormed) (key : ScopeKey) (id : SlotId) (call : CallId) :
    (t.release key id call).WellFormed :=
  (h.abandon id call).filter _

theorem publish (h : t.WellFormed) (id : SlotId) (r : Except Failure AccessToken) :
    (t.modify id (·.publish r)).WellFormed :=
  h.modify (fun _ => rfl) (fun _ => rfl) fun s hs _ => h.queues s hs

theorem advance (h : t.WellFormed) (id : SlotId) (call : CallId) :
    (t.modify id (·.advance call)).WellFormed := by
  refine h.modify (fun _ => rfl) (fun _ => rfl) ?_
  intro s hs _
  simp only [Slot.advance, List.nodup_cons]
  exact ⟨by simp, (h.queues s hs).filter _⟩

theorem enter (h : t.WellFormed) {id : SlotId} {call : CallId}
    (hcall : ∀ s ∈ t.stored, call ∉ s.queue) : (t.modify id (·.enter call)).WellFormed := by
  refine h.modify (fun _ => rfl) (fun _ => rfl) ?_
  intro s hs _
  exact List.nodup_append.mpr ⟨h.queues s hs, by simp, by
    intro i hi j hj
    rintro rfl
    exact hcall s hs (by simpa [List.mem_singleton.mp hj] using hi)⟩

theorem take (h : t.WellFormed) (key : ScopeKey) : (t.take key).2.WellFormed := by
  rcases t.take_cases key with ⟨he, -⟩ | ⟨hnew, hn, he⟩
  · rwa [he]
  · rw [he, hnew]
    refine ⟨?_, ?_, ?_, ?_⟩
    · simp only [List.map_append, List.nodup_append]
      refine ⟨h.ids, by simp, ?_⟩
      intro i hi j hj
      obtain ⟨s, hs, rfl⟩ := List.mem_map.mp hi
      simp only [List.map_cons, List.map_nil, List.mem_singleton] at hj
      exact hj ▸ Nat.ne_of_lt (h.fresh s hs)
    · simp only [List.map_append, List.nodup_append]
      refine ⟨h.keys, by simp, ?_⟩
      intro i hi j hj
      obtain ⟨s, hs, rfl⟩ := List.mem_map.mp hi
      simp only [List.map_cons, List.map_nil, List.mem_singleton] at hj
      exact hj ▸ hn s hs
    · intro s hs
      rcases List.mem_append.mp hs with hs | hs
      · exact Nat.lt_succ_of_lt (h.fresh s hs)
      · rw [List.mem_singleton.mp hs]
        exact Nat.lt_succ_self _
    · intro s hs
      rcases List.mem_append.mp hs with hs | hs
      · exact h.queues s hs
      · rw [List.mem_singleton.mp hs]
        exact List.nodup_nil

end WellFormed

end Slots

end FederatedAccess
