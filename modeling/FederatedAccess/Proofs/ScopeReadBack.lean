import FederatedAccess.Proofs.CanonicalScopes
import FederatedAccess.Proofs.Json.ReadBack
import FederatedAccess.Proofs.Text.Pieces

/-!
# Scope sets are read back from texts and documents

A text is read as the set of its maximal runs without blanks, and the joined scopes of a set are
read as the set. A document that lists strings is read as the set of these strings, or refused as
they are, and the document of a set is read as the set.
-/

namespace FederatedAccess

namespace Text

/-- A maximal run without blanks: it is not empty, and the text around it ends and goes on with a
blank or not at all. -/
def IsRun (text run : List Char) : Prop :=
  ∃ front back, text = front ++ run ++ back ∧ run ≠ [] ∧ (∀ c ∈ run, isBlank c = false) ∧
    (∀ c ∈ front.getLast?, isBlank c = true) ∧ ∀ c ∈ back.head?, isBlank c = true

variable {text run w rest : List Char} {c : Char}

theorem not_isRun_nil : ¬ IsRun [] w := by
  rintro ⟨front, back, heq, hne, -⟩
  have hnil := List.append_eq_nil_iff.mp heq.symm
  exact hne (List.append_eq_nil_iff.mp hnil.1).2

/-- A leading blank belongs to no run. -/
theorem isRun_cons_iff (hc : isBlank c = true) : IsRun (c :: rest) w ↔ IsRun rest w := by
  constructor
  · rintro ⟨front, back, heq, hne, hw, hfront, hback⟩
    cases front with
    | nil =>
        obtain ⟨d, tail, rfl⟩ := List.exists_cons_of_ne_nil hne
        obtain ⟨rfl, -⟩ := List.cons.inj heq
        cases hc.symm.trans (hw c List.mem_cons_self)
    | cons d front =>
        obtain ⟨rfl, rfl⟩ := List.cons.inj heq
        refine ⟨front, back, rfl, hne, hw, fun d hd => hfront d ?_, hback⟩
        rw [List.getLast?_cons, Option.mem_def.mp hd]
        rfl
  · rintro ⟨front, back, rfl, hne, hw, hfront, hback⟩
    refine ⟨c :: front, back, rfl, hne, hw, fun d hd => ?_, hback⟩
    rw [List.getLast?_cons] at hd
    cases hlast : front.getLast? with
    | none =>
        rw [hlast] at hd
        obtain rfl : c = d := Option.some.inj hd
        exact hc
    | some e =>
        rw [hlast] at hd
        obtain rfl : e = d := Option.some.inj hd
        exact hfront e hlast

theorem takeWhile_run (hrun : ∀ c ∈ run, isBlank c = false)
    (hrest : ∀ c ∈ rest.head?, isBlank c = true) :
    (run ++ rest).takeWhile (!isBlank ·) = run :=
  takeWhile_append_of_stop (fun c hc => by rw [hrun c hc]; rfl) fun c hc => by rw [hrest c hc]; rfl

/-- A run at the front of a text is one of its runs, and the others are those of what follows. -/
theorem isRun_append_iff (hne : run ≠ []) (hrun : ∀ c ∈ run, isBlank c = false)
    (hrest : ∀ c ∈ rest.head?, isBlank c = true) :
    IsRun (run ++ rest) w ↔ w = run ∨ IsRun rest w := by
  constructor
  · rintro ⟨front, back, heq, hw, hblank, hfront, hback⟩
    rcases List.eq_nil_or_concat front with rfl | ⟨before, c, rfl⟩
    · refine .inl ?_
      rw [← takeWhile_run hrun hrest, heq, List.nil_append, takeWhile_run hblank hback]
    · have hc : isBlank c = true := hfront c (by simp)
      rw [List.append_assoc, List.append_eq_append_iff] at heq
      rcases heq with ⟨more, hfronts, htail⟩ | ⟨more, heq, -⟩
      · refine .inr ⟨more, back, by rw [htail, List.append_assoc], hw, hblank,
          fun d hd => ?_, hback⟩
        refine hfront d ?_
        rw [hfronts, List.getLast?_append, Option.mem_def.mp hd]
        rfl
      · cases (hrun c (by simp [heq])).symm.trans hc
  · rintro (rfl | ⟨front, back, rfl, hw, hblank, hfront, hback⟩)
    · exact ⟨[], rest, rfl, hne, hrun, by simp, hrest⟩
    · refine ⟨run ++ front, back, by simp, hw, hblank, fun d hd => hfront d ?_, hback⟩
      cases front with
      | nil =>
          obtain ⟨c, tail, rfl⟩ := List.exists_cons_of_ne_nil hw
          cases (hblank c List.mem_cons_self).symm.trans (hrest c rfl)
      | cons c front => rwa [List.getLast?_append_of_ne_nil _ (List.cons_ne_nil c front)] at hd

/-- The words of a text are its maximal runs without blanks. -/
theorem mem_words_iff : w ∈ words text ↔ IsRun text w := by
  induction text using words.induct with
  | case1 => exact iff_of_false (by simp) not_isRun_nil
  | case2 c rest hc ih => rw [words_cons_of_isBlank hc, ih, isRun_cons_iff hc]
  | case3 c rest hc ih =>
      have hwords : words (c :: rest) =
          (c :: rest.takeWhile (!isBlank ·)) :: words (rest.dropWhile (!isBlank ·)) := by
        rw [words, if_neg hc]
      have hrun := ne_nil_and_not_isBlank_of_mem_words (hwords ▸ List.mem_cons_self)
      have htail : ∀ d ∈ (rest.dropWhile (!isBlank ·)).head?, isBlank d = true := by
        intro d hd
        have hstop := List.head?_dropWhile_not (!isBlank ·) rest
        rw [Option.mem_def.mp hd] at hstop
        simpa using hstop
      have hsplit := isRun_append_iff (w := w) hrun.1 hrun.2 htail
      rw [List.cons_append, List.takeWhile_append_dropWhile] at hsplit
      rw [hwords, List.mem_cons, ih, hsplit]

end Text

namespace ScopeSet

variable {xs : List String}

/-! ### Texts -/

/-- Words are fit to be scopes. -/
theorem fault?_of_mem_words {x : String} {cs : List Char}
    (h : x ∈ (Text.words cs).map String.ofList) : Scope.fault? x = none := by
  obtain ⟨w, hw, rfl⟩ := List.mem_map.mp h
  rw [Scope.fault?_eq_none_iff, String.toList_ofList]
  exact Text.ne_nil_and_not_isBlank_of_mem_words hw

theorem mem_map_words_iff {x : String} {cs : List Char} :
    x ∈ (Text.words cs).map String.ofList ↔ Text.IsRun cs x.toList := by
  rw [← Text.mem_words_iff, List.mem_map]
  constructor
  · rintro ⟨w, hw, rfl⟩
    rwa [String.toList_ofList]
  · intro h
    exact ⟨_, h, String.ofList_toList⟩

/-- Blanks alone are no scope set. -/
theorem parse_of_blank {text : String} (present : text ≠ "")
    (blank : ∀ c ∈ text.toList, Text.isBlank c = true) : parse text = .error .empty := by
  have hne : text.toList.isEmpty = false := by simpa using present
  have hall : text.toList.all Text.isBlank = true := by simpa using blank
  simp only [parse, hne, hall, Bool.false_eq_true, if_false, if_true]

/-- A text that is empty or holds more than blanks is read as the set of its maximal runs without
blanks. -/
theorem parse_of_word {text : String} (h : text = "" ∨ ∃ c ∈ text.toList, Text.isBlank c = false) :
    ∃ s, parse text = .ok s ∧ ∀ x, x ∈ s.entries ↔ Text.IsRun text.toList x.toList := by
  rcases h with rfl | ⟨c, hc, hword⟩
  · exact ⟨empty, rfl, fun x => iff_of_false List.not_mem_nil Text.not_isRun_nil⟩
  · have hne : text.toList.isEmpty = false := List.isEmpty_eq_false_iff.mpr (List.ne_nil_of_mem hc)
    have hall : text.toList.all Text.isBlank = false :=
      List.all_eq_false.mpr ⟨c, hc, by simp [hword]⟩
    have hparse : parse text = ofList ((Text.words text.toList).map String.ofList) := by
      simp only [parse, hne, hall, Bool.false_eq_true, if_false]
    obtain ⟨s, hs⟩ := exists_ofList fun x (h : x ∈ (Text.words text.toList).map String.ofList) =>
      fault?_of_mem_words h
    refine ⟨s, hparse.trans hs, fun x => ?_⟩
    rw [(ofList_eq_ok_iff.mp hs).2, mem_map_words_iff]

/-! ### Documents -/

/-- A document from which strings are read is read as the set of these, or refused as they are. -/
theorem ofJson_of_texts {document : String}
    (h : Json.readAll (Json.readList (Json.readString "a string"))
      (Json.source document) = .ok xs) :
    ofJson document = (ofList xs).mapError fun f => .mismatch f.message := by
  have hlist := Json.readAll_eq_ok_iff.mp h
  cases hmade : ofList xs with
  | ok s =>
      refine Json.readAll_eq_ok_iff.mpr ?_
      simp only [reader, hlist, hmade]
  | error f =>
      rw [ofJson, Json.readAll, reader, hlist]
      simp only [hmade]
      rfl

theorem ofJson_written (xs : List String) :
    ofJson (String.ofList (Json.writeList (xs.map Json.writeString))) =
      (ofList xs).mapError fun f => .mismatch f.message := by
  have hread := Json.readList_textsOf "a string" xs []
  rw [List.append_nil] at hread
  exact ofJson_of_texts ((Json.cut_writeList_writeString xs).readAll_eq_ok hread)

theorem ofJson_toJson (s : ScopeSet) : ofJson s.toJson = .ok s := by
  rw [toJson, ofJson_written, ofList_entries]
  rfl

/-- What a text is read as. -/
inductive ReadsAs (text : String) : Except Scope.Fault ScopeSet → Prop
  | nothing (present : text ≠ "") (blank : ∀ c ∈ text.toList, Text.isBlank c = true) :
      ReadsAs text (.error .empty)
  | runs {s} (word : text = "" ∨ ∃ c ∈ text.toList, Text.isBlank c = false)
      (entries : ∀ x, x ∈ s.entries ↔ Text.IsRun text.toList x.toList)
      (settled : parse s.normalized = .ok s) : ReadsAs text (.ok s)

theorem readsAs_parse (text : String) : ReadsAs text (parse text) := by
  by_cases hblank : text ≠ "" ∧ ∀ c ∈ text.toList, Text.isBlank c = true
  · rw [parse_of_blank hblank.1 hblank.2]
    exact .nothing hblank.1 hblank.2
  · have hword : text = "" ∨ ∃ c ∈ text.toList, Text.isBlank c = false := by
      by_contra hnone
      push Not at hnone
      exact hblank ⟨hnone.1, fun c hc => Bool.of_not_eq_false (hnone.2 c hc)⟩
    obtain ⟨s, hparse, hentries⟩ := parse_of_word hword
    rw [hparse]
    exact .runs hword hentries s.parse_normalized

/-- The joined scopes of a set and its document are read as the set. Only blanks alone are a text of
which no set is made; any other is read as its maximal runs without blanks, and what is joined of
them is read as the same set. A document that lists strings, however it is written, is read as the
set of the strings or refused with the message with which they are. -/
theorem scope_sets_read_back :
    (∀ s : ScopeSet, parse s.normalized = .ok s ∧ ofJson s.toJson = .ok s) ∧
    (∀ text, ReadsAs text (parse text)) ∧
    (∀ xs, ofJson (String.ofList (Json.writeList (xs.map Json.writeString))) =
      (ofList xs).mapError fun f => .mismatch f.message) ∧
    ∀ document xs,
      Json.readAll (Json.readList (Json.readString "a string")) (Json.source document) = .ok xs →
        ofJson document = (ofList xs).mapError fun f => .mismatch f.message :=
  ⟨fun s => ⟨s.parse_normalized, s.ofJson_toJson⟩, readsAs_parse, ofJson_written,
    fun _ _ => ofJson_of_texts⟩

/-- Scopes that a document has to escape. -/
def escapedScope : ScopeSet := ⟨["\"\\\x01", "é"], by decide, by decide⟩

theorem escaped_scopes_read_back :
    ofJson escapedScope.toJson = .ok escapedScope ∧
      ofJson " [\"\\u00e9\" , \"\\\"\\\\\\u0001\"]" = .ok escapedScope ∧
      ofJson "[\"a b\", \"\"]" = .error (.mismatch "Scope contains whitespace: a b.") ∧
      ∃ s, parse "\u2003é\tb\n" = .ok s ∧ "é" ∈ s.entries := by
  obtain ⟨sets, texts, -, documents⟩ := scope_sets_read_back
  have reads (document : String) (xs : List String)
      (h : (Json.readAll (Json.readList (Json.readString "a string"))
        (Json.source document)).toOption = some xs) :
      ofJson document = (ofList xs).mapError fun f => .mismatch f.message := by
    refine documents document xs ?_
    cases hread : Json.readAll (Json.readList (Json.readString "a string"))
        (Json.source document) with
    | error f => cases (congrArg Except.toOption hread).symm.trans h
    | ok ys => rw [Option.some.inj ((congrArg Except.toOption hread).symm.trans h)]
  refine ⟨(sets escapedScope).2, ?_, ?_, ?_⟩
  · rw [reads _ ["é", "\"\\\x01"] (by decide +kernel)]
    rfl
  · rw [reads _ ["a b", ""] (by decide +kernel)]
    rfl
  · have hread := texts "\u2003é\tb\n"
    cases hparse : parse "\u2003é\tb\n" with
    | error f =>
        rw [hparse] at hread
        cases hread with
        | nothing _ blank => exact absurd (blank 'é' (by decide)) (by decide)
    | ok s =>
        rw [hparse] at hread
        cases hread with
        | runs _ entries =>
            have unblank : ∀ c ∈ "é".toList, Text.isBlank c = false := fun c hc => by
              obtain rfl := List.mem_singleton.mp hc
              decide
            refine ⟨s, rfl, (entries "é").mpr ⟨['\u2003'], ['\t', 'b', '\n'], by decide, by decide,
              unblank, fun c hc => ?_, fun c hc => ?_⟩⟩
            · cases hc
              decide
            · cases hc
              decide

end ScopeSet

end FederatedAccess
