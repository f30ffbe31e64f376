import FederatedAccess.Proofs.Url.Authority

/-!
# A URL of the web is read back from its printed form

The parts of a URL that has been read are tidy: they hold only characters that stand for themselves
where they are, and no segment stands for a level. A URL with tidy parts is cut at the delimiters
that its printed form was joined with, so each part is found again as it was. The path may be less
tidy than the other parts: its segments are read as they would be on their own.
-/

namespace FederatedAccess.Url

/-! ### Texts -/

theorem not_isEdge {c : Char} (h : 0x20 < c.toNat) : isEdge c = false :=
  decide_eq_false (Nat.not_le.mpr h)

theorem not_isBreak {c : Char} (h : 0x20 < c.toNat) : isBreak c = false := by
  have hne {d : Char} (hd : d.toNat ≤ 0x20) : c ≠ d := by
    rintro rfl
    omega
  simp only [isBreak, Bool.or_eq_false_iff, beq_eq_false_iff_ne]
  exact ⟨⟨hne (by decide), hne (by decide)⟩, hne (by decide)⟩

theorem dropWhile_eq_self {p : Char → Bool} {cs : List Char} (h : ∀ c ∈ cs.head?, p c = false) :
    cs.dropWhile p = cs := by
  cases cs with
  | nil => rfl
  | cons c cs => rw [List.dropWhile_cons_of_neg (by simp [h c rfl])]

/-- A text is clean if no character in it and none at its ends is dropped. -/
theorem clean_eq_self {cs : List Char} (unbroken : ∀ c ∈ cs, isBreak c = false)
    (first : ∀ c ∈ cs.head?, isEdge c = false) (last : ∀ c ∈ cs.getLast?, isEdge c = false) :
    clean cs = cs := by
  have hlast : ∀ c ∈ cs.reverse.head?, isEdge c = false := by rwa [List.head?_reverse]
  rw [clean, dropWhile_eq_self first, dropWhile_eq_self hlast, List.reverse_reverse]
  exact List.filter_eq_self.mpr fun c hc => by rw [unbroken c hc]; rfl

/-- A scheme of the web other than that of files. -/
structure IsWeb (scheme : List Char) : Prop where
  special : isSpecial scheme = true
  notFile : scheme ≠ fileScheme

theorem IsWeb.mem {scheme : List Char} (web : IsWeb scheme) :
    scheme ∈ specialSchemes.map Prod.fst := by
  obtain ⟨entry, hentry, heq⟩ := List.lookup_isSome_iff.mp web.special
  exact beq_iff_eq.mp heq ▸ List.mem_map_of_mem hentry

/-- The schemes of the web are small letters. -/
theorem IsWeb.letters {scheme : List Char} (web : IsWeb scheme) :
    scheme ≠ [] ∧ ∀ c ∈ scheme, c.isAlpha = true ∧ isSchemeChar c = true ∧ c.toLower = c ∧
      0x20 < c.toNat := by
  have all : (specialSchemes.map Prod.fst).all (fun s => s ≠ [] && s.all fun c =>
      c.isAlpha ∧ isSchemeChar c ∧ c.toLower = c ∧ 0x20 < c.toNat) = true := by decide
  obtain ⟨nonempty, letters⟩ := Bool.and_eq_true_iff.mp (List.all_eq_true.mp all scheme web.mem)
  exact ⟨of_decide_eq_true nonempty,
    fun c hc => of_decide_eq_true (List.all_eq_true.mp letters c hc)⟩

theorem cutScheme_append {scheme : List Char} (web : IsWeb scheme) (rest : List Char) :
    cutScheme (scheme ++ ':' :: rest) = some (scheme, rest) := by
  obtain ⟨nonempty, letters⟩ := web.letters
  have htake : (scheme ++ ':' :: rest).takeWhile isSchemeChar = scheme := by
    rw [List.takeWhile_append_of_pos fun c hc => (letters c hc).2.1,
      List.takeWhile_cons_of_neg (by decide), List.append_nil]
  have hlower : scheme.map Char.toLower = scheme :=
    (List.map_congr_left fun c hc => (letters c hc).2.2.1).trans (List.map_id _)
  obtain ⟨c, cs, rfl⟩ := List.exists_cons_of_ne_nil nonempty
  rw [cutScheme]
  simp only [htake, List.drop_left, hlower, (letters c List.mem_cons_self).1]
  rfl

/-- Query and fragment are read back. -/
theorem readTail_write {query fragment : Option (List Char)}
    (hquery : ∀ q ∈ query, ∀ c ∈ q, isQueryPlain true c = true)
    (hfragment : ∀ f ∈ fragment, ∀ c ∈ f, isFragmentPlain c = true) :
    readTail true (writePart '?' query ++ writePart '#' fragment) = (query, fragment) := by
  have hfront : ∀ c ∈ writePart '?' query, (c != '#') = true := by
    cases query with
    | none => exact fun c hc => absurd hc List.not_mem_nil
    | some q =>
        intro c hc
        rcases List.mem_cons.mp hc with rfl | hc
        · rfl
        · refine bne_iff_ne.mpr ?_
          rintro rfl
          cases hquery q rfl _ hc
  have htake : (writePart '?' query ++ writePart '#' fragment).takeWhile (· != '#') =
      writePart '?' query := by
    rw [List.takeWhile_append_of_pos hfront]
    cases fragment <;> simp [writePart]
  rw [readTail, htake]
  simp only [List.drop_left]
  cases query with
  | none =>
      cases fragment with
      | none => rfl
      | some f => simp [writePart, Percent.encode_eq_self (hfragment f rfl)]
  | some q =>
      cases fragment with
      | none => simp [writePart, Percent.encode_eq_self (hquery q rfl)]
      | some f =>
          simp [writePart, Percent.encode_eq_self (hquery q rfl),
            Percent.encode_eq_self (hfragment f rfl)]

theorem isFragmentPlain_low {c : Char} (h : isFragmentPlain c = true) : 0x20 < c.toNat := by
  simp only [isFragmentPlain, Bool.and_eq_true, decide_eq_true_eq] at h
  exact h.1.1

theorem isQueryPlain_low {c : Char} {special : Bool} (h : isQueryPlain special c = true) :
    0x20 < c.toNat := by
  simp only [isQueryPlain, Bool.and_eq_true, decide_eq_true_eq] at h
  exact h.1.1.1

theorem low_of_mem_writePart {delimiter : Char} (hd : 0x20 < delimiter.toNat)
    {part : Option (List Char)} (h : ∀ cs ∈ part, ∀ c ∈ cs, 0x20 < c.toNat) {c : Char}
    (hc : c ∈ writePart delimiter part) : 0x20 < c.toNat := by
  cases part with
  | none => exact absurd hc List.not_mem_nil
  | some cs =>
      rcases List.mem_cons.mp hc with rfl | hc
      · exact hd
      · exact h cs rfl c hc

/-! ### Whole URLs -/

section

variable {scheme : List Char} {a : Authority} {raw : List (List Char)}
  {query fragment : Option (List Char)}

/-- What stands between scheme and query is read back. -/
theorem readWeb_write (web : IsWeb scheme) (tidy : IsTidyAuthority scheme a) (more : raw ≠ [])
    (uncut : ∀ s ∈ raw, ∀ c ∈ s, isSlash true c = false) :
    readWeb scheme (writeAuthority a ++ writeSegments raw) =
      some (some a, .segments (descend false [] (raw.map (Percent.encode isPathPlain)))) := by
  have hspec : ∀ c ∈ authorityText a, isSlash true c = false := fun c hc => (tidy.spec_of_mem hc).2.1
  have hdrop : (writeAuthority a ++ writeSegments raw).dropWhile (isSlash true) =
      authorityText a ++ writeSegments raw := by
    calc
      (writeAuthority a ++ writeSegments raw).dropWhile (isSlash true)
        = (authorityText a ++ writeSegments raw).dropWhile (isSlash true) := by
          rw [writeAuthority_eq]
          rfl
      _ = authorityText a ++ writeSegments raw := by
          apply dropWhile_eq_self
          rw [List.head?_append_of_ne_nil _ tidy.authorityText_ne_nil]
          exact fun c hc => hspec c (List.mem_of_mem_head? hc)
  have htake : (authorityText a ++ writeSegments raw).takeWhile (!isSlash true ·) =
      authorityText a := by
    rw [List.takeWhile_append_of_pos fun c hc => by simp [hspec c hc], writeSegments_eq more,
      List.takeWhile_cons_of_neg (by decide), List.append_nil]
  have hpath : readPath scheme (writeSegments raw) =
      descend false [] (raw.map (Percent.encode isPathPlain)) := by
    rw [writeSegments_eq more, readPath, ← readSegments_intercalate web.special web.notFile more uncut]
    simp [isSlash]
  rw [readWeb]
  simp only [hdrop, htake, List.drop_left, hpath, tidy.readAuthority_write web.special]
  rfl

theorem write_eq : write ⟨scheme, some a, .segments raw, query, fragment⟩ =
    scheme ++ ':' :: (writeAuthority a ++ writeSegments raw ++
      (writePart '?' query ++ writePart '#' fragment)) := by
  simp [write, writePlace]

theorem write_eq_append : write ⟨scheme, some a, .segments raw, query, fragment⟩ =
    scheme ++ ':' :: '/' :: '/' :: (authorityText a ++ (writeSegments raw ++
      (writePart '?' query ++ writePart '#' fragment))) := by
  simp [write_eq, writeAuthority_eq]

/-- Apart from the segments, a printed URL holds printable characters of ASCII. -/
theorem low_of_mem_write (web : IsWeb scheme) (tidy : IsTidyAuthority scheme a)
    (hquery : ∀ q ∈ query, ∀ c ∈ q, isQueryPlain true c = true)
    (hfragment : ∀ f ∈ fragment, ∀ c ∈ f, isFragmentPlain c = true) {c : Char}
    (h : c ∈ write ⟨scheme, some a, .segments raw, query, fragment⟩) :
    0x20 < c.toNat ∨ ∃ s ∈ raw, c ∈ s := by
  rw [write_eq, List.mem_append, List.mem_cons, List.mem_append, List.mem_append, List.mem_append,
    writeAuthority_eq, List.mem_cons, List.mem_cons] at h
  rcases h with h | rfl | ((rfl | rfl | h) | h) | h | h
  · exact .inl (web.letters.2 c h).2.2.2
  · exact .inl (by decide)
  · exact .inl (by decide)
  · exact .inl (by decide)
  · exact .inl (tidy.spec_of_mem h).1
  · obtain ⟨s, hs, h⟩ := List.mem_flatMap.mp h
    rcases List.mem_cons.mp h with rfl | h
    · exact .inl (by decide)
    · exact .inr ⟨s, hs, h⟩
  · exact .inl (low_of_mem_writePart (by decide)
      (fun q hq d hd => isQueryPlain_low (hquery q hq d hd)) h)
  · exact .inl (low_of_mem_writePart (by decide)
      (fun f hf d hd => isFragmentPlain_low (hfragment f hf d hd)) h)

/-- What stands between scheme and query does not end before. -/
theorem isPathEnd_of_mem_place (tidy : IsTidyAuthority scheme a)
    (uncut : ∀ s ∈ raw, ∀ c ∈ s, isPathEnd c = false) :
    ∀ c ∈ writeAuthority a ++ writeSegments raw, isPathEnd c = false := by
  intro c hc
  rw [List.mem_append, writeAuthority_eq, List.mem_cons, List.mem_cons] at hc
  rcases hc with (rfl | rfl | hc) | hc
  · rfl
  · rfl
  · exact (tidy.spec_of_mem hc).2.2
  · obtain ⟨s, hs, hc⟩ := List.mem_flatMap.mp hc
    rcases List.mem_cons.mp hc with rfl | hc
    · rfl
    · exact uncut s hs c hc

/-- It ends where the query or the fragment starts. -/
theorem takeWhile_append_tail {front : List Char} (h : ∀ c ∈ front, isPathEnd c = false)
    (query fragment : Option (List Char)) :
    (front ++ (writePart '?' query ++ writePart '#' fragment)).takeWhile (!isPathEnd ·) = front := by
  have htail : (writePart '?' query ++ writePart '#' fragment).takeWhile (!isPathEnd ·) = [] := by
    cases query with
    | none => cases fragment <;> rfl
    | some q => rfl
  rw [List.takeWhile_append_of_pos fun c hc => by simp [h c hc], htail, List.append_nil]

/-- A URL is read from its printed form. Its segments need not be tidy. -/
theorem read_write (web : IsWeb scheme) (tidy : IsTidyAuthority scheme a) (more : raw ≠ [])
    (uncut : ∀ s ∈ raw, ∀ c ∈ s, isSlash true c = false ∧ isPathEnd c = false ∧ isBreak c = false)
    (hquery : ∀ q ∈ query, ∀ c ∈ q, isQueryPlain true c = true)
    (hfragment : ∀ f ∈ fragment, ∀ c ∈ f, isFragmentPlain c = true)
    (last : ∀ c ∈ (write ⟨scheme, some a, .segments raw, query, fragment⟩).getLast?,
      isEdge c = false) :
    read (write ⟨scheme, some a, .segments raw, query, fragment⟩) =
      some ⟨scheme, some a, .segments (descend false [] (raw.map (Percent.encode isPathPlain))),
        query, fragment⟩ := by
  obtain ⟨nonempty, letters⟩ := web.letters
  have hclean : clean (write ⟨scheme, some a, .segments raw, query, fragment⟩) =
      write ⟨scheme, some a, .segments raw, query, fragment⟩ := by
    refine clean_eq_self (fun c hc => ?_) ?_ last
    · rcases low_of_mem_write web tidy hquery hfragment hc with hlow | ⟨s, hs, hc⟩
      · exact not_isBreak hlow
      · exact (uncut s hs c hc).2.2
    · rw [write_eq, List.head?_append_of_ne_nil _ nonempty]
      exact fun c hc => not_isEdge (letters c (List.mem_of_mem_head? hc)).2.2.2
  have htake := takeWhile_append_tail
    (isPathEnd_of_mem_place tidy fun s hs c hc => (uncut s hs c hc).2.1) query fragment
  have hplace := readWeb_write web tidy more fun s hs c hc => (uncut s hs c hc).1
  rw [read, hclean, write_eq, cutScheme_append web]
  simp only [Option.bind_eq_bind, Option.bind_some, htake, List.drop_left, if_neg web.notFile,
    web.special, if_true, hplace, readTail_write hquery hfragment]
  rfl

end

theorem isPathPlain_spec {c : Char} (h : isPathPlain c = true) :
    0x20 < c.toNat ∧ isPathEnd c = false := by
  simp only [isPathPlain, Bool.and_eq_true, Bool.not_eq_true', List.contains_eq_mem,
    decide_eq_false_iff_not] at h
  have hne {d : Char} (hd : d ∈ "#?\x7b\x7d".toList) : c ≠ d := (ne_of_mem_of_not_mem hd h.2).symm
  simp only [isPathEnd, Bool.or_eq_false_iff, beq_eq_false_iff_ne]
  exact ⟨isFragmentPlain_low h.1, hne (by decide), hne (by decide)⟩

/-- Nothing in a tidy segment ends it or the path, or is dropped. -/
theorem IsTidySegment.spec {s : List Char} (tidy : IsTidySegment s) {c : Char} (hc : c ∈ s) :
    isSlash true c = false ∧ isPathEnd c = false ∧ isBreak c = false := by
  obtain ⟨hlow, hend⟩ := isPathPlain_spec (tidy.plain c hc)
  exact ⟨tidy.uncut c hc, hend, not_isBreak hlow⟩

/-- Tidy segments are in their written form. -/
theorem map_encode_eq_self {ss : List (List Char)} (tidy : ∀ s ∈ ss, IsTidySegment s) :
    ss.map (Percent.encode isPathPlain) = ss :=
  (List.map_congr_left fun s hs => Percent.encode_eq_self (tidy s hs).plain).trans (List.map_id _)

/-- A URL of the web with tidy parts. -/
inductive IsTidy : Url → Prop
  | intro {scheme a ss query fragment} (web : IsWeb scheme) (authority : IsTidyAuthority scheme a)
      (more : ss ≠ []) (segments : ∀ s ∈ ss, IsTidySegment s)
      (hquery : ∀ q ∈ query, ∀ c ∈ q, isQueryPlain true c = true)
      (hfragment : ∀ f ∈ fragment, ∀ c ∈ f, isFragmentPlain c = true) :
      IsTidy ⟨scheme, some a, .segments ss, query, fragment⟩

/-- A URL with tidy parts is read back from its printed form. -/
theorem IsTidy.read_write {u : Url} (tidy : IsTidy u) : read u.write = some u := by
  cases tidy with
  | @intro scheme a ss query fragment web authority more segments hquery hfragment =>
      rw [Url.read_write web authority more (fun s hs c hc => (segments s hs).spec hc) hquery hfragment
        fun c hc => ?_, map_encode_eq_self segments, descend_eq_self segments]
      rcases low_of_mem_write web authority hquery hfragment (List.mem_of_getLast? hc) with
        hlow | ⟨s, hs, hc⟩
      · exact not_isEdge hlow
      · exact not_isEdge (isPathPlain_spec ((segments s hs).plain c hc)).1

theorem tidy_readPath {scheme : List Char} (web : IsWeb scheme) (cs : List Char) :
    readPath scheme cs ≠ [] ∧ ∀ s ∈ readPath scheme cs, IsTidySegment s := by
  have htidy := tidy_readSegments web.special web.notFile
  unfold readPath
  split
  · rw [if_pos web.special]
    exact htidy []
  · split
    · exact htidy _
    · exact htidy _

theorem plain_readTail (special : Bool) (cs : List Char) :
    (∀ q ∈ (readTail special cs).1, ∀ c ∈ q, isQueryPlain special c = true) ∧
      ∀ f ∈ (readTail special cs).2, ∀ c ∈ f, isFragmentPlain c = true := by
  constructor
  · intro q hq
    simp only [readTail] at hq
    split at hq
    · obtain rfl := Option.some.inj hq
      exact Percent.forall_mem_encode (by cases special <;> rfl) (by cases special <;> decide)
        fun _ _ h => h
    · cases hq
  · intro f hf
    simp only [readTail] at hf
    split at hf
    · obtain rfl := Option.some.inj hf
      exact Percent.forall_mem_encode rfl (by decide) fun _ _ h => h
    · cases hf

/-- A URL of the web is tidy once it has been read. -/
theorem isTidy_of_read {cs : List Char} {u : Url} (h : read cs = some u) (web : IsWeb u.scheme) :
    IsTidy u := by
  simp only [read, Option.bind_eq_bind, Option.bind_eq_some_iff] at h
  obtain ⟨⟨scheme, rest⟩, -, h⟩ := h
  dsimp only at h
  split at h
  · rename_i file
    obtain ⟨place, -, h⟩ := Option.bind_eq_some_iff.mp h
    obtain rfl := Option.some.inj h
    exact absurd file web.notFile
  · split at h
    · obtain ⟨⟨authority, path⟩, hplace, h⟩ := Option.bind_eq_some_iff.mp h
      obtain rfl := Option.some.inj h
      replace web : IsWeb scheme := web
      simp only [readWeb, Option.bind_eq_bind, Option.bind_eq_some_iff] at hplace
      obtain ⟨a, ha, hplace⟩ := hplace
      obtain ⟨rfl, rfl⟩ := Prod.mk.inj (Option.some.inj hplace)
      obtain ⟨more, segments⟩ := tidy_readPath web _
      obtain ⟨hquery, hfragment⟩ := plain_readTail (isSpecial scheme) _
      exact .intro web (isTidyAuthority_of_readAuthority web.special ha) more segments
        (fun q hq c hc => web.special ▸ hquery q hq c hc) hfragment
    · rename_i ordinary
      obtain ⟨place, -, h⟩ := Option.bind_eq_some_iff.mp h
      obtain rfl := Option.some.inj h
      exact absurd web.special ordinary

/-- A URL of the web that has been read is read back from its printed form. -/
theorem read_write_of_read {cs : List Char} {u : Url} (h : read cs = some u)
    (web : IsWeb u.scheme) : read u.write = some u :=
  (isTidy_of_read h web).read_write

end FederatedAccess.Url
