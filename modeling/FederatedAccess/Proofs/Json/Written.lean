import FederatedAccess.Json.Lexeme
import FederatedAccess.Json.Writer
import FederatedAccess.Proofs.Url.Host

/-!
# The lexemes of what is written

Written values hold no blanks, so each step of the cutting gives a lexeme. A value is cut into the
same lexemes whatever follows it, unless what follows goes on with a number, and written values are
followed by punctuation only.
-/

namespace FederatedAccess.Json

/-! ### Texts -/

theorem hexDigit?_hexChar {n : Nat} (h : n < 16) : Text.hexDigit? (hexChar n) = some n := by
  have all : ∀ d : Fin 16, Text.hexDigit? (hexChar d) = some d.val := by decide
  exact all ⟨n, h⟩

/-- The ways in which a character is written: as it is, with a letter, or with its number. -/
inductive Escaped (c : Char) : List Char → Prop
  | plain (notQuote : c ≠ '"') (notSlash : c ≠ '\\') (low : ¬c.toNat < 0x20) : Escaped c [c]
  | letter {e} (notNumber : e ≠ 'u') (simple : simpleEscape? e = some c) : Escaped c ['\\', e]
  | number (low : c.toNat < 0x20) :
      Escaped c ['\\', 'u', '0', '0', hexChar (c.toNat / 16), hexChar (c.toNat % 16)]

theorem escaped_escape (c : Char) : Escaped c (escape c) := by
  unfold escape
  split
  · rename_i h
    rcases h with rfl | rfl <;> exact .letter (by decide) rfl
  · rename_i h
    split
    · subst c
      exact .letter (by decide) rfl
    · split
      · subst c
        exact .letter (by decide) rfl
      · split
        · subst c
          exact .letter (by decide) rfl
        · split
          · subst c
            exact .letter (by decide) rfl
          · split
            · subst c
              exact .letter (by decide) rfl
            · split
              · exact .number ‹_›
              · exact .plain (fun hc => h (.inl hc)) (fun hc => h (.inr hc)) ‹_›

theorem fourDigits?_control {c : Char} (low : c.toNat < 0x20) :
    fourDigits? (some '0') (some '0') (some (hexChar (c.toNat / 16)))
      (some (hexChar (c.toNat % 16))) = some c.toNat := by
  have hhigh := hexDigit?_hexChar (show c.toNat / 16 < 16 by omega)
  have hlow := hexDigit?_hexChar (show c.toNat % 16 < 16 by omega)
  have hzero : Text.hexDigit? '0' = some 0 := by decide
  have hsum : ((0 * 16 + 0) * 16 + c.toNat / 16) * 16 + c.toNat % 16 = c.toNat := by omega
  simp only [fourDigits?, Option.bind_some, hzero, hhigh, hlow, Option.bind_eq_bind, hsum]
  rfl

section

variable {c e : Char}

theorem readText_quote (rest : Source) : readText (some '"' :: rest) = .ok ([], rest) := by
  rw [readText.eq_def]
  simp only [if_true]

theorem readText_plain (notQuote : c ≠ '"') (notSlash : c ≠ '\\') (low : ¬c.toNat < 0x20)
    (rest : Source) : readText (some c :: rest) = prepend c (readText rest) := by
  rw [readText.eq_def]
  simp only [if_neg notQuote, if_neg notSlash, if_neg low]

theorem readText_letter (notNumber : e ≠ 'u') (simple : simpleEscape? e = some c)
    (rest : Source) : readText (some '\\' :: some e :: rest) = prepend c (readText rest) := by
  rw [readText.eq_def]
  simp only [if_neg notNumber, simple, Char.reduceEq, if_false, if_true]

theorem readText_control (low : c.toNat < 0x20) (rest : Source) :
    readText (some '\\' :: some 'u' :: some '0' :: some '0' :: some (hexChar (c.toNat / 16)) ::
      some (hexChar (c.toNat % 16)) :: rest) = prepend c (readText rest) := by
  have notLow : isLowSurrogate c.toNat = false := by
    simp only [isLowSurrogate, Bool.and_eq_false_iff, decide_eq_false_iff_not]
    omega
  have notHigh : isHighSurrogate c.toNat = false := by
    simp only [isHighSurrogate, Bool.and_eq_false_iff, decide_eq_false_iff_not]
    omega
  rw [readText.eq_def]
  simp only [fourDigits?_control low, notLow, notHigh, Char.reduceEq, if_false, if_true,
    Bool.false_eq_true, Char.ofNat_toNat]

theorem skipText_quote (rest : Source) : skipText (some '"' :: rest) = .ok rest := by
  rw [skipText.eq_def]
  simp only [if_true]

theorem skipText_plain (notQuote : c ≠ '"') (notSlash : c ≠ '\\') (low : ¬c.toNat < 0x20)
    (rest : Source) : skipText (some c :: rest) = skipText rest := by
  rw [skipText.eq_def]
  simp only [if_neg notQuote, if_neg notSlash, if_neg low]

theorem skipText_letter (notNumber : e ≠ 'u') (simple : simpleEscape? e = some c)
    (rest : Source) : skipText (some '\\' :: some e :: rest) = skipText rest := by
  rw [skipText.eq_def]
  simp only [if_neg notNumber, simple, Char.reduceEq, if_false, if_true]

theorem skipText_control (low : c.toNat < 0x20) (rest : Source) :
    skipText (some '\\' :: some 'u' :: some '0' :: some '0' :: some (hexChar (c.toNat / 16)) ::
      some (hexChar (c.toNat % 16)) :: rest) = skipText rest := by
  rw [skipText.eq_def]
  simp only [fourDigits?_control low, Char.reduceEq, if_false, if_true]

end

/-- A written character is read as it was. -/
theorem readText_escape (c : Char) (rest : Source) :
    readText ((escape c).map some ++ rest) = prepend c (readText rest) := by
  have written := escaped_escape c
  generalize escape c = cs at written
  cases written with
  | plain notQuote notSlash low => exact readText_plain notQuote notSlash low rest
  | letter notNumber simple => exact readText_letter notNumber simple rest
  | number low => exact readText_control low rest

theorem skipText_escape (c : Char) (rest : Source) :
    skipText ((escape c).map some ++ rest) = skipText rest := by
  have written := escaped_escape c
  generalize escape c = cs at written
  cases written with
  | plain notQuote notSlash low => exact skipText_plain notQuote notSlash low rest
  | letter notNumber simple => exact skipText_letter notNumber simple rest
  | number low => exact skipText_control low rest

theorem readText_written (cs : List Char) (rest : Source) :
    readText ((cs.flatMap escape).map some ++ some '"' :: rest) = .ok (cs, rest) := by
  induction cs with
  | nil => exact readText_quote rest
  | cons c cs ih =>
      rw [List.flatMap_cons, List.map_append, List.append_assoc, readText_escape, ih]
      rfl

theorem skipText_written (cs : List Char) (rest : Source) :
    skipText ((cs.flatMap escape).map some ++ some '"' :: rest) = .ok rest := by
  induction cs with
  | nil => exact skipText_quote rest
  | cons c cs ih => rw [List.flatMap_cons, List.map_append, List.append_assoc, skipText_escape, ih]

theorem lexText_written (s : String) (rest : Source) :
    lexText ((s.toList.flatMap escape).map some ++ some '"' :: rest) = (.text (.ok s), rest) := by
  simp only [lexText, skipText_written, readText_written, Except.map, String.ofList_toList]

/-! ### Numbers -/

/-- Whether what begins with the element may go on with a number before it. -/
def goesOn (c : Option Char) : Bool :=
  isDigit c || c == some '.' || c == some 'e' || c == some 'E'

/-- What follows a number ends it. -/
def Ends (rest : Source) : Prop := ∀ c ∈ rest.head?, goesOn c = false

theorem Ends.nil : Ends [] := nofun

theorem ends_mark {c : Char} (h : goesOn (some c) = false) {cs : List Char} :
    Ends ((c :: cs).map some) := by
  intro d hd
  cases hd
  exact h

/-- The number of an integer. -/
def Number.ofInt : Int → Number
  | .ofNat n => .natural n
  | .negSucc n => .negative (n + 1)

section

variable {rest : Source}

theorem Ends.not_isDigit (h : Ends rest) : ∀ c ∈ rest.head?, isDigit c = false := by
  intro c hc
  have hends := h c hc
  simp only [goesOn, Bool.or_eq_false_iff] at hends
  exact hends.1.1.1

theorem Ends.readFraction (h : Ends rest) : readFraction rest = .ok (none, rest) := by
  unfold Json.readFraction
  split
  · cases h _ rfl
  · rfl

theorem Ends.readExponent (h : Ends rest) : readExponent rest = .ok (none, rest) := by
  unfold Json.readExponent
  split
  · split
    · rename_i he
      rcases he with rfl | rfl <;> cases h _ rfl
    · rfl
  · rfl

/-- The values of the digits of a number. -/
def digitsOf (n : Nat) : List Nat := (Decimal.ofNat n).map fun c => (Decimal.digit? c).getD 0

/-- Digits are read up to what is none. -/
theorem spanDigits_append {ds : List Char} (digits : ∀ c ∈ ds, Decimal.isDigit c = true)
    (stop : ∀ c ∈ rest.head?, isDigit c = false) : spanDigits (ds.map some ++ rest) =
      (ds.map fun c => (Decimal.digit? c).getD 0, rest) := by
  have hdigits : ∀ c ∈ ds.map some, isDigit c = true := by
    intro c hc
    obtain ⟨d, hd, rfl⟩ := List.mem_map.mp hc
    exact digits d hd
  have hrest : rest.takeWhile isDigit = [] ∧ rest.dropWhile isDigit = rest := by
    cases rest with
    | nil => exact ⟨rfl, rfl⟩
    | cons c rest =>
        have hc : ¬isDigit c = true := Bool.eq_false_iff.mp (stop c rfl)
        exact ⟨List.takeWhile_cons_of_neg hc, List.dropWhile_cons_of_neg hc⟩
  rw [spanDigits, List.takeWhile_append_of_pos hdigits, List.dropWhile_append_of_pos hdigits,
    hrest.1, hrest.2, List.append_nil, List.map_map]
  rfl

/-- A number begins with a zero only if it is zero. -/
theorem head?_digitsOf {n : Nat} (h : n ≠ 0) : (digitsOf n).head? ≠ some 0 := by
  induction n using Nat.strongRecOn with
  | ind n ih =>
      rw [digitsOf, Decimal.ofNat, Nat.toDigits_eq_if (by decide)]
      split
      · rename_i hlt
        have hdigit : ∀ d : Fin 10, (Decimal.digit? (Nat.digitChar d)).getD 0 = d.val := by decide
        simpa [hdigit ⟨n, hlt⟩] using h
      · have hhead := ih (n / 10) (Nat.div_lt_self (by omega) (by decide)) (by omega)
        rw [digitsOf, Decimal.ofNat] at hhead
        rwa [List.map_append, List.head?_append_of_ne_nil]
        simp

/-- No digit is dropped as long as the number they make can be kept exactly. -/
theorem gather_eq {ds : List Nat} {significand : Nat} (used : Nat)
    (le : ds.foldl (fun m d => m * 10 + d) significand ≤ maxSignificand) :
    gather significand used ds =
      (ds.foldl (fun m d => m * 10 + d) significand, used + ds.length) := by
  -- what is made of all digits bounds what is made of the first ones
  have grows (ds : List Nat) (m : Nat) : m ≤ ds.foldl (fun m d => m * 10 + d) m := by
    induction ds generalizing m with
    | nil => exact Nat.le_refl m
    | cons d ds ih => exact Nat.le_trans (by omega) (ih (m * 10 + d))
  induction ds generalizing significand used with
  | nil => rfl
  | cons d ds ih =>
      rw [List.foldl_cons] at le
      rw [gather, if_pos (Nat.le_trans (grows ds _) le), ih (used + 1) le, List.foldl_cons,
        List.length_cons, Nat.add_assoc, Nat.add_comm 1]

/-- A number is kept exactly, with its sign if it has one. -/
structure Kept (below : Bool) (n : Nat) : Prop where
  exactly : n ≤ maxSignificand
  signed : below = true → 0 < n ∧ n ≤ Nat.pow 2 63

/-- Digits without fraction and exponent make their number if that is kept exactly. -/
theorem Kept.makeNumber_eq {below : Bool} {ds : List Nat}
    (h : Kept below (ds.foldl (fun m d => m * 10 + d) 0)) : makeNumber below ds none none =
      if below then .negative (ds.foldl (fun m d => m * 10 + d) 0)
      else .natural (ds.foldl (fun m d => m * 10 + d) 0) := by
  rw [makeNumber, gather_eq 0 h.exactly, Nat.zero_add]
  cases below with
  | false => simp
  | true => simp [h.signed rfl]

end

/-! ### Cutting -/

/-- Text that is cut into the given lexemes, one in each step, whatever ends it. There are at least as
many characters as lexemes, so the steps for a whole document suffice. -/
structure Cut (cs : List Char) (ls : List Lexeme) : Prop where
  count : ls.length ≤ cs.length
  cut : ∀ n rest, Ends rest → lexFrom (ls.length + n) (cs.map some ++ rest) = ls ++ lexFrom n rest

section

variable {c : Char} {cs ds : List Char} {l : Lexeme} {ls ks : List Lexeme}

theorem Cut.nil : Cut [] [] := ⟨Nat.le_refl 0, fun n rest _ => by simp⟩

/-- A lexeme that begins with a character. -/
theorem Cut.one (gap : isGap c = false)
    (h : ∀ rest, Ends rest → lexOne c (cs.map some ++ rest) = (l, rest)) : Cut (c :: cs) [l] where
  count := Nat.succ_le_succ (Nat.zero_le _)
  cut n rest ends := by
    change lexFrom (1 + n) (some c :: (cs.map some ++ rest)) = l :: lexFrom n rest
    rw [Nat.add_comm, lexFrom, if_neg (Bool.eq_false_iff.mp gap), h rest ends]

/-- A punctuation mark is a lexeme of its own. -/
theorem Cut.mark (gap : isGap c = false) (mark : ∀ rest, lexOne c rest = (l, rest))
    (h : Cut cs ls) : Cut (c :: cs) (l :: ls) where
  count := Nat.succ_le_succ h.count
  cut n rest ends := by
    change lexFrom (ls.length + 1 + n) (some c :: (cs.map some ++ rest)) = l :: (ls ++ lexFrom n rest)
    rw [Nat.add_right_comm, lexFrom, if_neg (Bool.eq_false_iff.mp gap), mark]
    exact congrArg (l :: ·) (h.cut n rest ends)

theorem Cut.append (h : Cut cs ls) (h' : Cut ds ks) (ends : Ends (ds.map some)) :
    Cut (cs ++ ds) (ls ++ ks) where
  count := by
    rw [List.length_append, List.length_append]
    exact Nat.add_le_add h.count h'.count
  cut n rest hrest := by
    have hends : Ends (ds.map some ++ rest) := by
      cases ds with
      | nil => exact hrest
      | cons d ds => exact ends
    rw [List.length_append, List.map_append, List.append_assoc, Nat.add_assoc, h.cut _ _ hends,
      h'.cut n rest hrest, List.append_assoc]

/-- What is cut from a document is all of it. -/
theorem Cut.lex_eq (h : Cut cs ls) : lex (cs.map some) = ls := by
  have hnil (n : Nat) : lexFrom n [] = [] := by cases n <;> rfl
  obtain ⟨n, hn⟩ := Nat.exists_eq_add_of_le h.count
  have hcut := h.cut n [] Ends.nil
  rw [List.append_nil, hnil, List.append_nil] at hcut
  rwa [lex, List.length_map, hn]

theorem cut_writeString (s : String) : Cut (writeString s) [.text (.ok s)] := by
  refine Cut.one rfl fun rest _ => ?_
  change lexText ((s.toList.flatMap escape ++ ['"']).map some ++ rest) = _
  rw [List.map_append, List.append_assoc]
  exact lexText_written s rest

theorem lexOne_digit (h : Decimal.isDigit c = true) (rest : Source) :
    lexOne c rest = lexemeOf .number (readMagnitude false (some c :: rest)) := by
  unfold lexOne
  split
  all_goals first
    | exact absurd h (by decide)
    | exact if_pos h

theorem isGap_digit (h : Decimal.isDigit c = true) : isGap c = false := by
  have hne {d : Char} (hd : Decimal.isDigit d = false) : c ≠ d := by
    rintro rfl
    exact Bool.false_ne_true (hd.symm.trans h)
  simp only [isGap, Bool.or_eq_false_iff, beq_eq_false_iff_ne]
  exact ⟨⟨⟨hne rfl, hne rfl⟩, hne rfl⟩, hne rfl⟩

/-- Lexemes with commas between them. -/
def joined : List (List Lexeme) → List Lexeme
  | [] => []
  | l :: ls => l ++ ls.flatMap (.comma :: ·)

theorem writeSeparated_cons (v : List Char) (vs : List (List Char)) :
    writeSeparated (v :: vs) = v ++ vs.flatMap (',' :: ·) := by
  induction vs generalizing v with
  | nil => simp [writeSeparated]
  | cons w vs ih =>
      change v ++ ',' :: writeSeparated (w :: vs) = _
      rw [ih, List.flatMap_cons, List.cons_append]

theorem cut_later {vs : List (List Char)} {lss : List (List Lexeme)} (h : List.Forall₂ Cut vs lss) :
    Cut (vs.flatMap (',' :: ·)) (lss.flatMap (.comma :: ·)) ∧
      Ends ((vs.flatMap (',' :: ·)).map some) := by
  induction h with
  | nil => exact ⟨.nil, .nil⟩
  | @cons v ls vs lss hv _ ih =>
      have hcomma : Cut (',' :: v) (.comma :: ls) := hv.mark rfl fun _ => rfl
      exact ⟨hcomma.append ih.1 ih.2, ends_mark rfl⟩

theorem cut_writeSeparated {vs : List (List Char)} {lss : List (List Lexeme)}
    (h : List.Forall₂ Cut vs lss) : Cut (writeSeparated vs) (joined lss) := by
  cases h with
  | nil => exact .nil
  | cons hv hvs =>
      rw [writeSeparated_cons]
      exact hv.append (cut_later hvs).1 (cut_later hvs).2

/-- The lexemes of a list of values. -/
def listOf (lss : List (List Lexeme)) : List Lexeme :=
  .openBracket :: (joined lss ++ [.closeBracket])

/-- A written list is cut into the lexemes of its values. -/
theorem cut_writeList {vs : List (List Char)} {lss : List (List Lexeme)}
    (h : List.Forall₂ Cut vs lss) : Cut (writeList vs) (listOf lss) := by
  have hclose : Cut [']'] [.closeBracket] := Cut.nil.mark rfl fun _ => rfl
  exact ((cut_writeSeparated h).append hclose (ends_mark rfl)).mark rfl fun _ => rfl

/-- The lexemes of a member. -/
def memberOf (m : String × List Lexeme) : List Lexeme := .text (.ok m.1) :: .colon :: m.2

/-- The lexemes of an object with members. -/
def objectOf (ms : List (String × List Lexeme)) : List Lexeme :=
  .openBrace :: (joined (ms.map memberOf) ++ [.closeBrace])

/-- A member with the text of its value, and with the lexemes into which that is cut. -/
structure Written (m : String × List Char) (v : String × List Lexeme) : Prop where
  name : m.1 = v.1
  value : Cut m.2 v.2

/-- A written object is cut into the lexemes of its members. -/
theorem cut_writeObject {ms : List (String × List Char)} {vs : List (String × List Lexeme)}
    (h : List.Forall₂ Written ms vs) : Cut (writeObject ms) (objectOf vs) := by
  have hmembers : List.Forall₂ Cut (ms.map fun m => writeString m.1 ++ ':' :: m.2)
      (vs.map memberOf) := by
    rw [List.forall₂_map_left_iff, List.forall₂_map_right_iff]
    refine h.imp fun m v written => ?_
    rw [written.name]
    exact (cut_writeString v.1).append (written.value.mark rfl fun _ => rfl) (ends_mark rfl)
  have hclose : Cut ['}'] [.closeBrace] := Cut.nil.mark rfl fun _ => rfl
  exact ((cut_writeSeparated hmembers).append hclose (ends_mark rfl)).mark rfl fun _ => rfl

end

end FederatedAccess.Json
