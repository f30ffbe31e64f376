import FederatedAccess.Proofs.Broker.Log

/-!
# Reading journals

A journal is read in two ways. The occurrences of one call, taken out in order, are its history. A
property of every entry in the light of the entries before it is a chronicle; it is enough to look
at what each step adds.
-/

namespace FederatedAccess

/-- What happened to a call, in order. -/
def historyOf (journal : List Entry) (id : CallId) : List Occurrence :=
  (journal.filter (·.call = id)).map Entry.what

@[simp] theorem historyOf_append (j l : List Entry) (id : CallId) :
    historyOf (j ++ l) id = historyOf j id ++ historyOf l id := by
  simp [historyOf]

theorem mem_historyOf {j : List Entry} {id : CallId} {o : Occurrence} :
    o ∈ historyOf j id ↔ ∃ x ∈ j, x.call = id ∧ x.what = o := by
  simp [historyOf, and_assoc]

theorem historyOf_map_entry (b : Broker) (id i : CallId) (log : List Occurrence) :
    historyOf (log.map (b.entry id)) i = if i = id then log else [] := by
  split
  · subst i
    simp [historyOf, List.filter_map, Function.comp_def, Broker.entry]
  · have hne : id ≠ i := Ne.symm ‹_›
    simp [historyOf, List.filter_map, Function.comp_def, Broker.entry, hne]

/-- Where an element stands that is not before the last one. -/
theorem eq_of_concat_eq {α : Type} {l pre post : List α} {z a : α}
    (h : l ++ [z] = pre ++ a :: post) (ha : a ∉ l) : pre = l ∧ a = z := by
  rcases List.append_eq_append_iff.mp h with ⟨mid, rfl, hmid⟩ | ⟨mid, rfl, hmid⟩
  · rcases List.append_eq_singleton_iff.mp hmid.symm with ⟨rfl, hz⟩ | ⟨-, hz⟩
    · simp at hz
      simp [hz.1]
    · cases hz
  · rcases List.cons_eq_append_iff.mp hmid with ⟨rfl, hz⟩ | ⟨rest, rfl, -⟩
    · simp at hz
      simp [hz.1]
    · simp at ha

/-- Every entry of a journal is as it must be after the entries before it. -/
def Chronicle (Φ : List Entry → Entry → Prop) (journal : List Entry) : Prop :=
  ∀ pre x post, journal = pre ++ x :: post → Φ pre x

namespace Chronicle

variable {Φ : List Entry → Entry → Prop} {j l : List Entry}

theorem nil : Chronicle Φ [] := by
  intro pre x post h
  simp at h

theorem append (h : Chronicle Φ j) (hl : Chronicle (fun pre x => Φ (j ++ pre) x) l) :
    Chronicle Φ (j ++ l) := by
  intro pre x post he
  rcases List.append_eq_append_iff.mp he with ⟨mid, rfl, hmid⟩ | ⟨mid, hmid, htail⟩
  · exact hl mid x post hmid
  · rcases List.cons_eq_append_iff.mp htail with ⟨rfl, rfl⟩ | ⟨rest, rfl, -⟩
    · rw [List.append_nil] at hmid
      simpa [hmid] using hl [] x post rfl
    · exact h pre x rest hmid

theorem concat (h : Chronicle Φ j) {x : Entry} (hx : Φ j x) : Chronicle Φ (j ++ [x]) := by
  apply h.append
  intro pre y post he
  rcases List.append_eq_singleton_iff.mp he.symm with ⟨rfl, hy⟩ | ⟨-, hy⟩
  · obtain ⟨rfl, -⟩ := List.cons.inj hy
    simpa using hx
  · cases hy

theorem map {α : Type} {f : α → Entry} {log : List α}
    (h : ∀ pre o post, log = pre ++ o :: post → Φ (pre.map f) (f o)) : Chronicle Φ (log.map f) := by
  intro pre x post he
  obtain ⟨before, rest, rfl, rfl, hrest⟩ := List.map_eq_append_iff.mp he
  obtain ⟨o, after, rfl, rfl, -⟩ := List.map_eq_cons_iff.mp hrest
  exact h before o after rfl

/-- What a step adds to a journal is judged after the journal of the state before it. -/
theorem log (h : Chronicle Φ j) {b : Broker} {id : CallId} {log : List Occurrence}
    (hlog : ∀ pre o post, log = pre ++ o :: post → Φ (j ++ pre.map (b.entry id)) (b.entry id o)) :
    Chronicle Φ (j ++ log.map (b.entry id)) :=
  h.append (map hlog)

end Chronicle

namespace Broker

/-- What happened to a call of a broker, in order. -/
def history (b : Broker) (id : CallId) : List Occurrence := historyOf b.journal id

/-- A step adds to the history of the call that it is about. -/
theorem history_of_journal {b b' : Broker} {id : CallId} {log : List Occurrence}
    (hj : b'.journal = b.journal ++ log.map (b.entry id)) (i : CallId) :
    b'.history i = b.history i ++ if i = id then log else [] := by
  rw [history, history, hj, historyOf_append, historyOf_map_entry]

/-- What is known of every call that has ended is known after a step if it is of a call that ends in
that step. -/
theorem chronicle_ended {b b' : Broker} {id : CallId} {log : List Occurrence}
    {Φ : List Occurrence → Except Failure AccessToken → Prop}
    (h : Chronicle (fun pre x => ∀ r, x.what = .ended r → Φ (historyOf pre x.call) r) b.journal)
    (hj : b'.journal = b.journal ++ log.map (b.entry id))
    (hlog : ∀ pre r post, log = pre ++ .ended r :: post → Φ (b.history id ++ pre) r) :
    Chronicle (fun pre x => ∀ r, x.what = .ended r → Φ (historyOf pre x.call) r) b'.journal := by
  rw [hj]
  apply h.log
  intro pre o post he r hr
  replace hr : o = .ended r := hr
  rw [historyOf_append]
  change Φ (b.history id ++ historyOf (pre.map (b.entry id)) id) r
  rw [historyOf_map_entry, if_pos rfl]
  exact hlog pre r post (hr ▸ he)

end Broker

end FederatedAccess
