import FederatedAccess.Proofs.Text.RoundTrip
import FederatedAccess.Proofs.Url.Domain
import FederatedAccess.Url.Host
import Mathlib.Data.List.TakeWhile

/-!
# A host is read back from its printed form

Names are printed as they are, and a name in ASCII is brought into ASCII unchanged. Addresses are
printed in one form of the several that are read: in version 4 as four bytes in decimal, in
version 6 as groups in hexadecimal with a double colon in place of the first longest run of zeros.
-/

namespace FederatedAccess

/-! ### Numerals -/

namespace Text

/-- The numeral of a number holds digits of its base. -/
theorem exists_of_mem_toDigits {b n : Nat} (hb : 1 < b) {c : Char} (h : c ∈ Nat.toDigits b n) :
    ∃ d < b, c = d.digitChar := by
  induction n using Nat.strongRecOn with
  | ind n ih =>
      rw [Nat.toDigits_eq_if hb] at h
      split at h
      · exact ⟨n, ‹_›, List.mem_singleton.mp h⟩
      · rcases List.mem_append.mp h with h | h
        · exact ih (n / b) (Nat.div_lt_self (by omega) hb) h
        · exact ⟨n % b, Nat.mod_lt _ (by omega), List.mem_singleton.mp h⟩

/-- A number is the value of its numeral. -/
theorem foldl_toDigits {b : Nat} (hb : 1 < b) {value : Char → Nat}
    (hvalue : ∀ d < b, value d.digitChar = d) (n : Nat) :
    (Nat.toDigits b n).foldl (fun m c => m * b + value c) 0 = n := by
  induction n using Nat.strongRecOn with
  | ind n ih =>
      rw [Nat.toDigits_eq_if hb]
      split
      · rename_i hlt
        rw [List.foldl_cons, List.foldl_nil, hvalue n hlt, Nat.zero_mul, Nat.zero_add]
      · rw [List.foldl_append, ih (n / b) (Nat.div_lt_self (by omega) hb), List.foldl_cons,
          List.foldl_nil, hvalue _ (Nat.mod_lt _ (by omega)), Nat.div_add_mod']

end Text

namespace Host

theorem valueIn?_toDigits {b : Nat} (hb : 1 < b) (le : b ≤ 16) (n : Nat) :
    valueIn? b (Nat.toDigits b n) = some n := by
  have hdigit : ∀ d : Fin 16, Text.hexDigit? (Nat.digitChar d) = some d.val := by decide
  have hall : (Nat.toDigits b n).all (fun c => (Text.hexDigit? c).any (· < b)) = true := by
    refine List.all_eq_true.mpr fun c hc => ?_
    obtain ⟨d, hd, rfl⟩ := Text.exists_of_mem_toDigits hb hc
    rw [hdigit ⟨d, by omega⟩]
    exact decide_eq_true hd
  rw [valueIn?, if_pos hall, Text.foldl_toDigits hb fun d hd => by rw [hdigit ⟨d, by omega⟩]; rfl]

end Host

theorem Decimal.value_ofNat (n : Nat) : Decimal.value (Decimal.ofNat n) = n := by
  have hdigit : ∀ d : Fin 10, Decimal.digit? (Nat.digitChar d) = some d.val := by decide
  exact Text.foldl_toDigits (by decide) (fun d hd => by rw [hdigit ⟨d, hd⟩]; rfl) n

theorem Decimal.isDigit_of_mem_ofNat {n : Nat} {c : Char} (h : c ∈ Decimal.ofNat n) :
    Decimal.isDigit c = true := by
  have hdigit : ∀ d : Fin 10, Decimal.isDigit (Nat.digitChar d) = true := by decide
  obtain ⟨d, hd, rfl⟩ := Text.exists_of_mem_toDigits (by decide) h
  exact hdigit ⟨d, hd⟩

namespace Host

/-! ### Addresses in version 4 -/

/-- A byte in decimal is a label in ASCII and a part of an address. -/
theorem byte_spec {n : Nat} (h : n < 256) : '.' ∉ Decimal.ofNat n ∧
    Decimal.ofNat n ≠ [] ∧ readPart (Decimal.ofNat n) = some n ∧
      Domain.labelToAscii (Decimal.ofNat n) = some (Decimal.ofNat n) := by
  have all : ∀ m : Fin 256, '.' ∉ Decimal.ofNat m ∧ Decimal.ofNat m ≠ [] ∧
      readPart (Decimal.ofNat m) = some m.val ∧
        Domain.labelToAscii (Decimal.ofNat m) = some (Decimal.ofNat m) := by decide +kernel
  exact all ⟨n, h⟩

theorem lt_of_mem_bytes {address : UInt32} {n : Nat} (h : n ∈ bytes address) : n < 256 := by
  have hlt := address.toNat_lt
  simp only [bytes, List.mem_cons, List.not_mem_nil, or_false] at h
  omega

/-- The parts of a printed address are its bytes. -/
theorem splitOnP_render_ipv4 (address : UInt32) :
    (render (.ipv4 address)).splitOnP (· == '.') = (bytes address).map Decimal.ofNat := by
  refine Text.splitOnP_intercalate rfl (fun piece hpiece c hc => ?_) (List.cons_ne_nil _ _)
  obtain ⟨n, hn, rfl⟩ := List.mem_map.mp hpiece
  exact beq_eq_false_iff_ne.mpr (ne_of_mem_of_not_mem hc (byte_spec (lt_of_mem_bytes hn)).1)

theorem parts_render_ipv4 (address : UInt32) :
    parts (render (.ipv4 address)) = (bytes address).map Decimal.ofNat := by
  have hlast : ((bytes address).map Decimal.ofNat).getLast? ≠ some [] := by
    intro h
    obtain ⟨n, hn, hnil⟩ := List.mem_map.mp (List.mem_of_getLast? h)
    exact (byte_spec (lt_of_mem_bytes hn)).2.1 hnil
  rw [parts, splitOnP_render_ipv4, if_neg hlast]

theorem endsInNumber_render_ipv4 (address : UInt32) :
    endsInNumber (render (.ipv4 address)) = true := by
  have hread := (byte_spec (Nat.mod_lt address.toNat (show 256 > 0 by decide))).2.2.1
  simp [endsInNumber, parts_render_ipv4, bytes, hread]

theorem readIpv4_render (address : UInt32) :
    readIpv4 (render (.ipv4 address)) = some (.ipv4 address) := by
  have hlt := address.toNat_lt
  have hread : ((bytes address).map Decimal.ofNat).mapM readPart = some (bytes address) :=
    Text.mapM_map_eq_some fun n hn => (byte_spec (lt_of_mem_bytes hn)).2.2.1
  have hsum : sumParts (address.toNat % 256) 0 [address.toNat / 16777216,
      address.toNat / 65536 % 256, address.toNat / 256 % 256] = address.toNat := by
    change address.toNat / 16777216 * 16777216 + (address.toNat / 65536 % 256 * 65536 +
      (address.toNat / 256 % 256 * 256 + address.toNat % 256)) = _
    omega
  have hbytes : address.toNat / 16777216 ≤ 255 ∧ address.toNat / 65536 % 256 ≤ 255 ∧
      address.toNat / 256 % 256 ≤ 255 := by omega
  have hlast : address.toNat % 256 < 256 := Nat.mod_lt _ (by decide)
  rw [readIpv4, parts_render_ipv4, hread]
  simp [bytes, hsum, hbytes, hlast]

/-! ### Addresses in version 6 -/

/-- A group in hexadecimal. -/
def groupText (g : UInt16) : List Char := Nat.toDigits 16 g.toNat

theorem groupText_ne_nil (g : UInt16) : groupText g ≠ [] := Nat.toDigits_ne_nil

/-- A group holds neither colons nor full stops. -/
theorem not_mem_groupText {g : UInt16} : ':' ∉ groupText g ∧ '.' ∉ groupText g := by
  have hdigit : ∀ d : Fin 16, ':' ≠ Nat.digitChar d ∧ '.' ≠ Nat.digitChar d := by decide
  constructor
  · intro h
    obtain ⟨d, hd, heq⟩ := Text.exists_of_mem_toDigits (by decide) h
    exact (hdigit ⟨d, hd⟩).1 heq
  · intro h
    obtain ⟨d, hd, heq⟩ := Text.exists_of_mem_toDigits (by decide) h
    exact (hdigit ⟨d, hd⟩).2 heq

theorem readGroup_groupText (g : UInt16) : readGroup (groupText g) = some g := by
  have hlength : (groupText g).length ≤ 4 :=
    (Nat.length_toDigits_le_iff (by decide) (by decide)).mpr g.toNat_lt
  have hfits : ¬((groupText g).isEmpty = true ∨ 4 < (groupText g).length) := by
    rw [List.isEmpty_iff]
    exact fun h => h.elim (groupText_ne_nil g) (Nat.not_lt.mpr hlength)
  rw [readGroup, if_neg hfits, groupText, valueIn?_toDigits (by decide) (by decide),
    Option.map_some]
  exact congrArg some (UInt16.ofNat_toNat)

/-- Groups are read back, whether or not the last may be an address in version 4. -/
theorem readGroups_renderGroups (quad : Bool) (groups : List UInt16) :
    readGroups quad (renderGroups groups) = some groups := by
  rcases List.eq_nil_or_concat groups with rfl | ⟨front, last, rfl⟩
  · rfl
  · have hsplit : (renderGroups (front ++ [last])).splitOnP (· == ':') =
        (front ++ [last]).map groupText := by
      refine Text.splitOnP_intercalate rfl (fun piece hpiece c hc => ?_) (by simp)
      obtain ⟨g, -, rfl⟩ := List.mem_map.mp hpiece
      exact beq_eq_false_iff_ne.mpr (ne_of_mem_of_not_mem hc not_mem_groupText.1)
    have hempty : (renderGroups (front ++ [last])).isEmpty = false := by
      rw [List.isEmpty_eq_false_iff]
      intro hnil
      rw [hnil] at hsplit
      have hone := congrArg List.getLast? hsplit
      simp [List.splitOnP_nil, groupText_ne_nil last |>.symm] at hone
    have hfront : (front.map groupText).mapM readGroup = some front :=
      Text.mapM_map_eq_some fun g _ => readGroup_groupText g
    have hplain : (quad && (groupText last).contains '.') = false := by
      simp [not_mem_groupText.2]
    rw [List.concat_eq_append, readGroups, hempty, hsplit, List.map_append, List.map_singleton]
    simp only [List.getLast?_concat, List.dropLast_concat, hfront, hplain, readGroup_groupText]
    rfl

/-- Two colons next to each other are not found in a text that holds none. -/
theorem splitDouble_append {piece : List Char} (h : ':' ∉ piece) (rest : List Char) :
    splitDouble (piece ++ rest) = (splitDouble rest).map fun p => (piece ++ p.1, p.2) := by
  induction piece with
  | nil => simp
  | cons c piece ih =>
      have hc : c ≠ ':' := fun heq => h (heq ▸ List.mem_cons_self)
      rw [List.cons_append, splitDouble, ih (fun hmem => h (List.mem_cons_of_mem _ hmem)),
        Option.map_map]
      · rfl
      · rintro rest' rfl
        exact absurd rfl hc

/-- A colon that no colon follows is passed. -/
theorem splitDouble_cons {c : Char} (h : c ≠ ':') (rest : List Char) :
    splitDouble (':' :: c :: rest) = (splitDouble (c :: rest)).map fun p => (':' :: p.1, p.2) := by
  rw [splitDouble]
  rintro rest' - heq
  exact absurd (List.cons.inj heq).1 h

theorem renderGroups_singleton (g : UInt16) : renderGroups [g] = groupText g :=
  List.intercalate_singleton

theorem renderGroups_cons_cons (g h : UInt16) (groups : List UInt16) :
    renderGroups (g :: h :: groups) = groupText g ++ ':' :: renderGroups (h :: groups) := by
  simp only [renderGroups, List.map_cons, List.intercalate_cons_cons, List.append_assoc,
    List.singleton_append]
  rfl

/-- Groups begin with a digit. -/
theorem exists_renderGroups_eq (g : UInt16) (groups : List UInt16) :
    ∃ c cs, renderGroups (g :: groups) = c :: cs ∧ c ≠ ':' := by
  obtain ⟨c, cs, htext⟩ := List.exists_cons_of_ne_nil (groupText_ne_nil g)
  have hc : c ≠ ':' := ne_of_mem_of_not_mem (htext ▸ List.mem_cons_self) not_mem_groupText.1
  cases groups with
  | nil => exact ⟨c, cs, by rw [renderGroups_singleton, htext], hc⟩
  | cons h groups =>
      exact ⟨c, _, by rw [renderGroups_cons_cons, htext, List.cons_append], hc⟩

/-- Groups hold no double colon. -/
theorem splitDouble_renderGroups (groups : List UInt16) (rest : List Char) :
    splitDouble (renderGroups groups ++ rest) =
      (splitDouble rest).map fun p => (renderGroups groups ++ p.1, p.2) := by
  induction groups with
  | nil => exact splitDouble_append List.not_mem_nil rest
  | cons g groups ih =>
      cases groups with
      | nil =>
          rw [renderGroups_singleton]
          exact splitDouble_append not_mem_groupText.1 rest
      | cons h groups =>
          obtain ⟨c, cs, heq, hc⟩ := exists_renderGroups_eq h groups
          rw [renderGroups_cons_cons, List.append_assoc,
            splitDouble_append not_mem_groupText.1, List.cons_append]
          rw [heq] at ih ⊢
          rw [List.cons_append, splitDouble_cons hc, ← List.cons_append, ih, Option.map_map,
            Option.map_map]
          simp [Function.comp_def]

/-! ### Runs of zeros -/

/-- The run that is left out lies within the groups and holds zeros only. -/
theorem longestZeros_spec (groups : List UInt16) (start : Nat) :
    ∃ i, (longestZeros start groups).1 = start + i ∧
      i + (longestZeros start groups).2 ≤ groups.length ∧
      (groups.drop i).take (longestZeros start groups).2 =
        List.replicate (longestZeros start groups).2 0 := by
  induction groups generalizing start with
  | nil => exact ⟨0, rfl, Nat.le_refl _, rfl⟩
  | cons g rest ih =>
      obtain ⟨i, hstart, hle, hzeros⟩ := ih (start + 1)
      rw [longestZeros]
      split
      · have hrun : (g :: rest).takeWhile (· == 0) = List.replicate (zeroRun (g :: rest)) 0 :=
          List.eq_replicate_of_mem fun h hh =>
            beq_iff_eq.mp (List.mem_takeWhile_imp (p := (· == 0)) hh)
        refine ⟨0, rfl, ?_, ?_⟩
        · rw [Nat.zero_add]
          exact (List.takeWhile_sublist _).length_le
        · rw [List.drop_zero, ← hrun]
          exact (List.prefix_iff_eq_take.mp (List.takeWhile_prefix _)).symm
      · refine ⟨i + 1, by rw [hstart]; omega, ?_, ?_⟩
        · rw [List.length_cons]
          omega
        · rw [List.drop_succ_cons, hzeros]

theorem readIpv6_renderIpv6 {groups : List UInt16} (length : groups.length = 8) :
    readIpv6 (renderIpv6 groups) = some (.ipv6 groups) := by
  obtain ⟨start, hstart, hle, hzeros⟩ := longestZeros_spec groups 0
  obtain ⟨count, hcount⟩ : ∃ count, (longestZeros 0 groups).2 = count := ⟨_, rfl⟩
  rw [Nat.zero_add] at hstart
  rw [hcount] at hle hzeros
  have hpair : longestZeros 0 groups = (start, count) := by rw [← hstart, ← hcount]
  rw [renderIpv6, hpair]
  by_cases hshort : count < 2
  · -- all groups are printed
    have hnone : splitDouble (renderGroups groups) = none := by
      have h := splitDouble_renderGroups groups []
      rwa [List.append_nil] at h
    simp only [if_pos hshort]
    rw [readIpv6, hnone]
    simp only [readGroups_renderGroups, Option.bind_eq_bind, Option.bind_some, if_pos length]
  · -- the groups before and after the run are printed
    have hsome : splitDouble (renderGroups (groups.take start) ++ [':', ':'] ++
        renderGroups (groups.drop (start + count))) =
          some (renderGroups (groups.take start), renderGroups (groups.drop (start + count))) := by
      rw [List.append_assoc, splitDouble_renderGroups]
      simp [splitDouble]
    have hlength : (groups.take start).length + (groups.drop (start + count)).length = 8 - count := by
      rw [List.length_take, List.length_drop]
      omega
    have hmissing : 8 - (8 - count) = count := by omega
    have hwhole : groups.take start ++ List.replicate count 0 ++ groups.drop (start + count) =
        groups := by
      rw [← hzeros, ← List.take_add, List.take_append_drop]
    simp only [if_neg hshort]
    rw [readIpv6, hsome]
    simp only [readGroups_renderGroups, Option.bind_eq_bind, Option.bind_some, hlength, hmissing,
      hwhole]
    exact if_pos (by omega)

/-! ### Hosts -/

/-- A host that has been read under a scheme of the web. -/
inductive IsRead : Host → Prop
  | name {text : List Char} (ascii : Domain.IsAscii text) (nonempty : text ≠ [])
      (numberless : endsInNumber text = false) : IsRead (.name text)
  | ipv4 (address : UInt32) : IsRead (.ipv4 address)
  | ipv6 {groups : List UInt16} (length : groups.length = 8) : IsRead (.ipv6 groups)

theorem isRead_of_readIpv4 {cs : List Char} {h : Host} (read : readIpv4 cs = some h) :
    IsRead h := by
  simp only [readIpv4, Option.bind_eq_bind] at read
  split at read
  · cases read
  · simp only [Option.bind_eq_some_iff] at read
    obtain ⟨ns, -, last, -, read⟩ := read
    split at read
    · cases read
      exact .ipv4 _
    · cases read

theorem isRead_of_readIpv6 {cs : List Char} {h : Host} (read : readIpv6 cs = some h) :
    IsRead h := by
  unfold readIpv6 at read
  split at read
  · simp only [Option.bind_eq_bind, Option.bind_eq_some_iff] at read
    obtain ⟨groups, -, read⟩ := read
    split at read
    · cases read
      exact .ipv6 ‹_›
    · cases read
  · simp only [Option.bind_eq_bind, Option.bind_eq_some_iff] at read
    obtain ⟨front, -, back, -, read⟩ := read
    split at read
    · cases read
      refine .ipv6 ?_
      simp only [List.length_append, List.length_replicate]
      omega
    · cases read

theorem isRead_of_readDomain {cs : List Char} {h : Host} (read : readDomain cs = some h) :
    IsRead h := by
  unfold readDomain readBracketed at read
  split at read
  · split at read
    · exact isRead_of_readIpv6 read
    · cases read
  · simp only [Option.bind_eq_bind, Option.bind_eq_some_iff] at read
    obtain ⟨text, -, name, hname, read⟩ := read
    split at read
    · cases read
    · rename_i nonempty
      split at read
      · exact isRead_of_readIpv4 read
      · rename_i numberless
        cases read
        exact .name (Domain.isAscii_of_toAscii hname) (by simpa using nonempty)
          (by simpa using numberless)

/-- A name in ASCII is read as it is or as the address that it spells. -/
theorem readDomain_of_isAscii {text : List Char} (ascii : Domain.IsAscii text)
    (nonempty : text ≠ []) :
    readDomain text = if endsInNumber text then readIpv4 text else some (.name text) := by
  have hplain : Percent.decode text = Utf8.encode text := by
    have hpercent : ∀ c ∈ text, (c != '%') = true := by
      intro c hc
      refine bne_iff_ne.mpr ?_
      rintro rfl
      cases ascii.allowed _ hc
    have h := @Percent.decode_encode (· != '%') rfl text
    rwa [Percent.encode_eq_self hpercent] at h
  have hbracket : ∀ rest, text ≠ '[' :: rest := by
    rintro rest rfl
    cases ascii.allowed _ List.mem_cons_self
  have hutf8 : Utf8.decode? (Utf8.encode text) = some text := by
    rw [Utf8.decode?, Utf8.decode_encode]
    exact Text.mapM_map_eq_some fun _ _ => rfl
  have hempty : text.isEmpty = false := List.isEmpty_eq_false_iff.mpr nonempty
  rw [readDomain, readBracketed]
  · simp only [hplain, hutf8, ascii.toAscii_eq_self, hempty, Option.bind_eq_bind, Option.bind_some]
    rfl
  · exact hbracket

/-- A printed address in version 4 is a name in ASCII. -/
theorem isAscii_render_ipv4 (address : UInt32) : Domain.IsAscii (render (.ipv4 address)) := by
  have hdigit : ∀ d : Fin 10, Punycode.isBasic (Nat.digitChar d) = true ∧
      Domain.mapChar (Nat.digitChar d) = some [Nat.digitChar d] ∧
        Domain.isForbidden (Nat.digitChar d) = false := by decide
  have hchar : ∀ c ∈ render (.ipv4 address), Domain.IsPlain c ∧ Domain.isForbidden c = false := by
    intro c hc
    rcases Text.mem_intercalate hc with rfl | ⟨piece, hpiece, hc⟩
    · exact ⟨⟨rfl, rfl⟩, rfl⟩
    · obtain ⟨n, -, rfl⟩ := List.mem_map.mp hpiece
      obtain ⟨d, hd, rfl⟩ := Text.exists_of_mem_toDigits (by decide) hc
      obtain ⟨hbasic, hmap, hallowed⟩ := hdigit ⟨d, hd⟩
      exact ⟨⟨hbasic, hmap⟩, hallowed⟩
  refine ⟨fun c hc => (hchar c hc).1, fun c hc => (hchar c hc).2, fun label hlabel => ?_⟩
  rw [splitOnP_render_ipv4] at hlabel
  obtain ⟨n, hn, rfl⟩ := List.mem_map.mp hlabel
  exact (byte_spec (lt_of_mem_bytes hn)).2.2.2

/-- A host is read back from its printed form. -/
theorem IsRead.readDomain_render {h : Host} (read : IsRead h) : readDomain h.render = some h := by
  cases read with
  | name ascii nonempty numberless =>
      rw [render, readDomain_of_isAscii ascii nonempty, if_neg (by simp [numberless])]
  | ipv4 address =>
      have nonempty : render (.ipv4 address) ≠ [] := by
        intro hnil
        have h := endsInNumber_render_ipv4 address
        rw [hnil] at h
        cases h
      rw [readDomain_of_isAscii (isAscii_render_ipv4 address) nonempty,
        if_pos (endsInNumber_render_ipv4 address), readIpv4_render]
  | @ipv6 groups length =>
      have hbrackets : (renderIpv6 groups ++ [']']).getLast? = some ']' := List.getLast?_concat
      calc
        readDomain (render (.ipv6 groups))
          = if (renderIpv6 groups ++ [']']).getLast? = some ']' then
              readIpv6 (renderIpv6 groups ++ [']']).dropLast else none := rfl
        _ = some (.ipv6 groups) := by
          rw [if_pos hbrackets, List.dropLast_concat, readIpv6_renderIpv6 length]

/-! ### Characters of a printed host -/

/-- Characters that may stand in a printed host: printable ones of ASCII that no other part of a URL
begins or ends with. -/
def isRendered (c : Char) : Bool :=
  0x20 < c.toNat && c.toNat < 0x7F && !"/\\@?#".toList.contains c

theorem isRendered_of_isAscii {text : List Char} (ascii : Domain.IsAscii text) {c : Char}
    (hc : c ∈ text) : isRendered c = true ∧ c ≠ ':' ∧ c ≠ '[' := by
  have all : ∀ n < 128, Domain.isForbidden (Char.ofNat n) = false →
      isRendered (Char.ofNat n) = true ∧ Char.ofNat n ≠ ':' ∧ Char.ofNat n ≠ '[' := by decide
  exact Text.forall_ascii (P := fun c => Domain.isForbidden c = false →
    isRendered c = true ∧ c ≠ ':' ∧ c ≠ '[') all (of_decide_eq_true (ascii.plain c hc).1)
    (ascii.allowed c hc)

/-- Between brackets stand digits and colons. -/
theorem mem_renderIpv6 {groups : List UInt16} {c : Char} (h : c ∈ renderIpv6 groups) :
    c = ':' ∨ ∃ d < 16, c = Nat.digitChar d := by
  have hgroups {groups : List UInt16} (h : c ∈ renderGroups groups) :
      c = ':' ∨ ∃ d < 16, c = Nat.digitChar d := by
    refine (Text.mem_intercalate h).imp_right fun ⟨piece, hpiece, hc⟩ => ?_
    obtain ⟨g, -, rfl⟩ := List.mem_map.mp hpiece
    exact Text.exists_of_mem_toDigits (by decide) hc
  rw [renderIpv6] at h
  split at h
  split at h
  · exact hgroups h
  · rcases List.mem_append.mp h with h | h
    · rcases List.mem_append.mp h with h | h
      · exact hgroups h
      · simp only [List.mem_cons, List.not_mem_nil, or_false, or_self] at h
        exact .inl h
    · exact hgroups h

theorem mem_renderIpv6_spec {groups : List UInt16} {c : Char} (h : c ∈ renderIpv6 groups) :
    isRendered c = true ∧ c ≠ ']' := by
  have hdigit : ∀ d : Fin 16, isRendered (Nat.digitChar d) = true ∧ Nat.digitChar d ≠ ']' := by
    decide
  rcases mem_renderIpv6 h with rfl | ⟨d, hd, rfl⟩
  · decide
  · exact hdigit ⟨d, hd⟩

namespace IsRead

variable {h : Host}

theorem isRendered (read : IsRead h) {c : Char} (hc : c ∈ h.render) : isRendered c = true := by
  cases read with
  | name ascii _ _ => exact (isRendered_of_isAscii ascii hc).1
  | ipv4 address => exact (isRendered_of_isAscii (isAscii_render_ipv4 address) hc).1
  | ipv6 length =>
      rcases List.mem_append.mp hc with hc | hc
      · rcases List.mem_cons.mp hc with rfl | hc
        · rfl
        · exact (mem_renderIpv6_spec hc).1
      · obtain rfl := List.mem_singleton.mp hc
        rfl

theorem render_ne_nil (read : IsRead h) : h.render ≠ [] := by
  intro hnil
  have hread := read.readDomain_render
  rw [hnil] at hread
  cases hread

end IsRead

end Host

end FederatedAccess
