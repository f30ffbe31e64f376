import FederatedAccess.Classification
import FederatedAccess.Proofs.Text.Search
import Mathlib.Logic.Basic

/-!
# Which evidence decides

What is known of a failed exchange is evidence from several sources: the number in the description,
the error code, the words of the description and of the body, and the status. Each source either
names one kind or is silent. Unless the network or the service failed, the first source that names
a kind decides.
-/

namespace FederatedAccess.Classification

/-! ### Sources in order -/

/-- The first source that names a kind names this one. -/
inductive FirstOf : List (Kind → Prop) → Kind → Prop
  | here {source : Kind → Prop} {rest kind} (named : source kind) : FirstOf (source :: rest) kind
  | later {source : Kind → Prop} {rest kind} (silent : ∀ k, ¬source k) (next : FirstOf rest kind) :
      FirstOf (source :: rest) kind

/-- The computed answer is the kind that the source names, if it names one. -/
def Answers (answer : Option Kind) (source : Kind → Prop) : Prop :=
  ∀ kind, answer = some kind ↔ source kind

variable {answer rest : Option Kind} {source : Kind → Prop} {sources : List (Kind → Prop)}
  {kind : Kind}

theorem Answers.eq_none_iff (h : Answers answer source) : answer = none ↔ ∀ k, ¬source k := by
  rw [Option.eq_none_iff_forall_ne_some]
  exact forall_congr' fun k => not_congr (h k)

theorem answers_nil : Answers none (FirstOf []) :=
  fun _ => ⟨nofun, nofun⟩

/-- A silent source leaves the decision to those that follow. -/
theorem firstOf_cons_of_silent (silent : ∀ k, ¬source k) :
    FirstOf (source :: sources) kind ↔ FirstOf sources kind := by
  refine ⟨fun h => ?_, .later silent⟩
  cases h with
  | here named => exact absurd named (silent _)
  | later _ next => exact next

/-- Answers are combined as their sources are. -/
theorem Answers.or (first : Answers answer source) (others : Answers rest (FirstOf sources)) :
    Answers (answer.or rest) (FirstOf (source :: sources)) := by
  intro kind
  cases answer with
  | none =>
      rw [Option.none_or, others, firstOf_cons_of_silent (first.eq_none_iff.mp rfl)]
  | some k =>
      have named : source k := (first k).mp rfl
      rw [Option.some_or, first]
      refine ⟨.here, fun h => ?_⟩
      cases h with
      | here named => exact named
      | later silent => exact absurd named (silent k)

/-- A condition is a source that names one kind. -/
theorem answers_ite {condition holds : Prop} [Decidable condition] (decides : condition ↔ holds)
    (others : Answers rest (FirstOf sources)) :
    Answers (if condition then some kind else rest)
      (FirstOf ((fun k => holds ∧ k = kind) :: sources)) := by
  have first : Answers (if condition then some kind else none) fun k => holds ∧ k = kind := by
    intro k
    split <;> simp_all [eq_comm]
  have both := first.or others
  by_cases h : condition
  · rw [if_pos h] at both ⊢
    exact both
  · rw [if_neg h] at both ⊢
    exact both

/-! ### Words -/

/-- The text is the word, which is in lower case, capital letters of ASCII aside. -/
def Reads (text : List Char) (word : String) : Prop :=
  text.map Char.toLower = word.toList

/-- A piece of the text is the word, capital letters of ASCII aside. -/
def Mentions (text : List Char) (word : String) : Prop :=
  ∃ piece, piece <:+: text ∧ Reads piece word

theorem lowerAscii_eq_iff {s word : String} : Text.lowerAscii s = word ↔ Reads s.toList word := by
  rw [Text.lowerAscii, Reads, ← String.toList_inj, String.toList_ofList]

theorem mentions_eq_true_iff {text word : String} :
    mentions text word = true ↔ Mentions text.toList word := by
  rw [mentions, Text.occursIn_eq_true_iff, Text.lowerAscii, String.toList_ofList,
    List.infix_map_iff]
  exact exists_congr fun piece => and_congr_right fun _ => eq_comm

/-- The words that suggest a kind, in the order in which they are looked for. -/
def keywords : List (String × Kind) :=
  [("invalid_scope", .invalidScope),
    ("invalid_client", .invalidAssertion), ("invalid_grant", .invalidAssertion),
    ("assertion", .invalidAssertion),
    ("unauthorized_client", .insufficientPermissions),
    ("access_denied", .insufficientPermissions),
    ("temporarily_unavailable", .transient), ("server_error", .transient)]

/-- The text suggests the kind of the first keyword that it mentions. -/
def WordsSuggest (text : List Char) : Kind → Prop :=
  FirstOf (keywords.map fun entry kind => Mentions text entry.1 ∧ kind = entry.2)

theorem answers_ofWords (text : String) : Answers (ofWords text) (WordsSuggest text.toList) := by
  -- alternatives of one branch become branches of their own, so that each keyword has one
  simp only [ofWords, ite_or, WordsSuggest, keywords, List.map_cons, List.map_nil]
  repeat apply answers_ite mentions_eq_true_iff
  exact answers_nil

/-- The start of a body mentions what its characters mention; the ellipsis adds no word. -/
theorem mentions_previewOf {body : List Char} {word : String} (plain : '…' ∉ word.toList) :
    Mentions (previewOf body) word ↔ Mentions (body.take previewLimit) word := by
  unfold previewOf
  split
  · refine ⟨fun ⟨piece, part, read⟩ => ?_,
      fun ⟨piece, part, read⟩ => ⟨piece, part.trans (List.prefix_append _ _).isInfix, read⟩⟩
    rcases List.infix_concat_iff.mp part with ending | inside
    · rcases List.suffix_concat_iff.mp ending with rfl | ⟨front, rfl, -⟩
      · exact ⟨[], List.nil_infix, read⟩
      · refine absurd ?_ plain
        rw [← read]
        simp
    · exact ⟨piece, inside, read⟩
  · rename_i short
    rw [List.take_of_length_le (Nat.le_of_not_lt short)]

theorem wordsSuggest_previewOf (body : List Char) :
    WordsSuggest (previewOf body) = WordsSuggest (body.take previewLimit) := by
  have plain : ∀ entry ∈ keywords, '…' ∉ entry.1.toList := by decide
  unfold WordsSuggest
  congr 1
  refine List.map_congr_left fun entry listed => funext fun kind => ?_
  rw [mentions_previewOf (plain entry listed)]

/-! ### Codes and statuses -/

/-- The error codes that stand for a kind. -/
def codes : List (String × Kind) :=
  [("invalid_scope", .invalidScope),
    ("invalid_client", .invalidAssertion), ("invalid_grant", .invalidAssertion),
    ("unauthorized_client", .insufficientPermissions),
    ("access_denied", .insufficientPermissions),
    ("temporarily_unavailable", .transient), ("server_error", .transient)]

/-- The error code stands for the kind. An invalid request is blamed on the assertion if the
description mentions one. -/
def CodeSuggests (description : Option String) (code : String) : Kind → Prop :=
  FirstOf (codes.map (fun entry kind => Reads code.toList entry.1 ∧ kind = entry.2) ++
    [fun kind => (Reads code.toList "invalid_request" ∧
      ∃ d ∈ description, Mentions d.toList "assertion") ∧ kind = .invalidAssertion])

theorem answers_ofCode (code : String) (description : Option String) :
    Answers (ofCode code description) (CodeSuggests description code) := by
  have blames : Text.lowerAscii code = "invalid_request" ∧
      description.any (mentions · "assertion") = true ↔
        Reads code.toList "invalid_request" ∧
          ∃ d ∈ description, Mentions d.toList "assertion" := by
    rw [lowerAscii_eq_iff, Option.any_eq_true]
    simp only [mentions_eq_true_iff, Option.mem_def]
  simp only [ofCode, ite_or, CodeSuggests, codes, List.map_cons, List.map_nil, List.cons_append,
    List.nil_append]
  repeat apply answers_ite lowerAscii_eq_iff
  exact answers_ite blames answers_nil

/-- The kind that a status stands for. -/
inductive StatusSuggests : Option Nat → Kind → Prop
  | badRequest : StatusSuggests (some 400) .invalidScope
  | unauthorized : StatusSuggests (some 401) .invalidAssertion
  | forbidden : StatusSuggests (some 403) .insufficientPermissions
  | other {status} (unlisted : status ∉ [some 400, some 401, some 403]) :
      StatusSuggests status .transient

theorem ofStatus_eq_iff {status : Option Nat} :
    ofStatus status = kind ↔ StatusSuggests status kind := by
  constructor
  · rintro rfl
    unfold ofStatus
    split
    · exact .badRequest
    · exact .unauthorized
    · exact .forbidden
    · exact .other (by simp_all)
  · intro h
    cases h with
    | other unlisted =>
        unfold ofStatus
        split <;> simp_all
    | _ => rfl

/-! ### All sources -/

/-- The sources other than the number, in the order in which they are asked. -/
def Context.evidence (c : Context) : List (Kind → Prop) :=
  c.code.toList.map (CodeSuggests c.description) ++
    (c.description.toList.map (WordsSuggest ·.toList) ++
      (c.preview.toList.map (WordsSuggest ·.toList) ++ [StatusSuggests c.status]))

/-- A text that may be missing is a source if it is there. -/
theorem Answers.bind_or {text : Option String} {answerOf : String → Option Kind}
    {source : String → Kind → Prop} (each : ∀ t, Answers (answerOf t) (source t))
    (others : Answers rest (FirstOf sources)) :
    Answers ((text.bind answerOf).or rest) (FirstOf (text.toList.map source ++ sources)) := by
  cases text with
  | none => exact others
  | some t => exact (each t).or others

variable {c : Context}

/-- A description without a marker has no number. -/
theorem Context.directoryNumber?_eq_none
    (unmarked : ∀ text ∈ c.description, ¬marker <:+: text.toList) : c.directoryNumber? = none := by
  cases hd : c.description with
  | none => rw [Context.directoryNumber?, hd, Option.bind_none]
  | some text =>
      rw [Context.directoryNumber?, hd, Option.bind_some, Classification.directoryNumber?,
        Text.after?_eq_none_iff.mpr (unmarked text hd)]

/-- A known number decides, whatever else is known. -/
theorem standard_of_number (network : c.network = false)
    (service : c.status.any isServiceFailure = false)
    (number : c.directoryNumber?.bind ofNumber = some kind) : standard c = kind := by
  simp [standard, network, service, number]

/-- Without a known number the first source decides. -/
theorem standard_eq_iff (network : c.network = false)
    (service : c.status.any isServiceFailure = false)
    (unnumbered : c.directoryNumber?.bind ofNumber = none) :
    standard c = kind ↔ FirstOf c.evidence kind := by
  have status : Answers (some (ofStatus c.status)) (FirstOf [StatusSuggests c.status]) :=
    Answers.or (fun _ => Option.some_inj.trans ofStatus_eq_iff) answers_nil
  -- the status always answers, so that the default of the classifier is the last source
  have answers : Answers ((c.code.bind (ofCode · c.description)).or
      ((c.description.bind ofWords).or ((c.preview.bind ofWords).or (some (ofStatus c.status)))))
      (FirstOf c.evidence) :=
    .bind_or (answers_ofCode · c.description) (.bind_or answers_ofWords
      (.bind_or answers_ofWords status))
  rw [← answers kind, ← Option.some_inj]
  simp [standard, network, service, unnumbered, Option.or_assoc, Option.or_some]

end FederatedAccess.Classification
