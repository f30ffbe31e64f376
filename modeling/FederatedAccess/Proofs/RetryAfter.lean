import FederatedAccess.Http.Metadata
import FederatedAccess.Proofs.Number.Decimal
import FederatedAccess.Proofs.Text.Pieces
import FederatedAccess.Proofs.Text.RoundTrip
import FederatedAccess.Proofs.Time.MailDate

/-!
# How long a server asks to wait

A header of digits asks to wait for as many seconds, and a header with a date asks to wait until
then, which is for nothing once the date has come. No header asks for a negative time, and whatever
is asked for has seconds of 64 bits.
-/

namespace FederatedAccess

/-- The bytes of a text in ASCII are its characters. -/
theorem Utf8.encode_of_ascii {cs : List Char} (ascii : ∀ c ∈ cs, c.toNat < 128) :
    encode cs = cs.map fun c => UInt8.ofNat c.toNat := by
  induction cs with
  | nil => rfl
  | cons c cs ih =>
      have hval : c.val.toNat ≤ 0x7f := Nat.le_of_lt_succ (ascii c List.mem_cons_self)
      have hchar : String.utf8EncodeChar c = [UInt8.ofNat c.toNat] := by
        simp only [String.utf8EncodeChar, if_pos hval]
        rfl
      have hrest := ih fun d hd => ascii d (List.mem_cons_of_mem c hd)
      rw [encode, List.flatMap_cons, hchar, List.map_cons, ← hrest]
      rfl

namespace RetryAfter

/-- What the text of a header asks for. -/
def ofText (text : List Char) (now : Instant) : Option Duration :=
  match Decimal.readNat maxSeconds text with
  | .ok n => some (.ofSeconds n)
  | .error _ =>
    match MailDate.read text with
    | some nanos => if now.nanos < nanos then some ⟨nanos - now.nanos⟩ else none
    | none => none

/-- Whether a character may stand in the text of a header. -/
def isVisible (c : Char) : Bool := (32 ≤ c.toNat && c.toNat < 127) || c.toNat == 9

theorem isVisible_of_isDigit {c : Char} (digit : Decimal.isDigit c = true) :
    isVisible c = true := by
  obtain ⟨low, high⟩ := Decimal.toNat_of_isDigit digit
  simp only [isVisible, Bool.or_eq_true, Bool.and_eq_true, decide_eq_true_eq]
  omega

theorem isVisible_of_isSpace {c : Char} (space : MailDate.isSpace c = true) :
    isVisible c = true ∧ Text.isBlank c = true := by
  rw [MailDate.isSpace, Bool.or_eq_true, beq_iff_eq, beq_iff_eq] at space
  rcases space with rfl | rfl <;> decide

/-- The text of a header is read without the blanks around it. -/
theorem read_encode {cs : List Char} (visible : ∀ c ∈ cs, isVisible c = true) (now : Instant) :
    read (Utf8.encode cs) now = ofText (Text.trim cs) now := by
  have ascii : ∀ c ∈ cs, c.toNat < 128 := fun c hc => by
    have hvisible := visible c hc
    simp only [isVisible, Bool.or_eq_true, Bool.and_eq_true, decide_eq_true_eq, beq_iff_eq]
      at hvisible
    omega
  have hbyte {c : Char} (hc : c ∈ cs) : (UInt8.ofNat c.toNat).toNat = c.toNat :=
    Utf8.toNat_ofNat_of_lt (Nat.lt_trans (ascii c hc) (by decide))
  have hall : (Utf8.encode cs).all (fun b => (32 ≤ b && b < 127) || b == 9) = true := by
    rw [Utf8.encode_of_ascii ascii, List.all_map, List.all_eq_true]
    intro c hc
    have hvisible := visible c hc
    simp only [isVisible, Function.comp_apply, Bool.or_eq_true, Bool.and_eq_true, decide_eq_true_eq,
      beq_iff_eq, UInt8.le_iff_toNat_le, UInt8.lt_iff_toNat_lt, ← UInt8.toNat_inj, hbyte hc]
      at hvisible ⊢
    exact hvisible
  have hchars : (Utf8.encode cs).map (fun b => Char.ofNat b.toNat) = cs := by
    rw [Utf8.encode_of_ascii ascii, List.map_map]
    refine (List.map_congr_left fun c hc => ?_).trans (List.map_id cs)
    rw [Function.comp_apply, hbyte hc, Char.ofNat_toNat, id]
  rw [read, if_pos hall]
  exact congrArg (fun text => ofText (Text.trim text) now) hchars

theorem ofText_of_digits {ds : List Char} (nonempty : ds ≠ [])
    (digits : ∀ c ∈ ds, Decimal.isDigit c = true) (within : Decimal.value ds < 2 ^ 32)
    (now : Instant) : ofText ds now = some (.ofSeconds (Decimal.value ds)) := by
  have hwithin : Decimal.value ds ≤ maxSeconds := Nat.le_pred_of_lt within
  rw [ofText, Decimal.readNat_of_digits _ nonempty digits, if_pos hwithin]

/-- A written date begins with a letter. -/
theorem head?_write (zone : String) (w : DateTime) : MailDate.write zone w ≠ [] ∧
    ∀ c ∈ (MailDate.write zone w).head?,
      Decimal.digit? c = none ∧ c ≠ '+' ∧ Text.isBlank c = false := by
  have named : ∀ k : Fin 7, (MailDate.weekdayNames.getD k "").toList.head?.any (fun c =>
      Decimal.digit? c = none && c != '+' && !Text.isBlank c) = true := by decide
  obtain ⟨k, hname⟩ := MailDate.exists_weekdayName w.date.dayNumber
  obtain ⟨nonempty, first⟩ := Text.head?_of_any (named k)
  rw [← hname] at nonempty first
  refine ⟨List.append_ne_nil_of_left_ne_nil nonempty _, fun c hc => ?_⟩
  rw [MailDate.write, List.head?_append_of_ne_nil _ nonempty] at hc
  simpa [and_assoc] using first c hc

/-- A written date ends with its zone. -/
theorem getLast?_write {zone : String} (utc : MailDate.IsUtc zone) (w : DateTime) :
    (MailDate.write zone w).getLast? = zone.toList.getLast? := by
  rcases utc with rfl | rfl <;> simp [MailDate.write, List.getLast?_append, List.getLast?_cons]

theorem isVisible_write {zone : String} (utc : MailDate.IsUtc zone) {w : DateTime}
    (valid : w.date.isValid = true) : ∀ c ∈ MailDate.write zone w, isVisible c = true := by
  have weekday : ∀ k : Fin 7, (MailDate.weekdayNames.getD k "").toList.all isVisible = true := by
    decide
  have month : ∀ k : Fin 12, (MailDate.monthNames.getD k "").toList.all isVisible = true := by
    decide
  have number (width n : Nat) : ∀ c ∈ Decimal.padded width n, isVisible c = true :=
    fun c hc => isVisible_of_isDigit (Decimal.isDigit_of_mem_padded hc)
  have hzone : zone.toList.all isVisible = true := by
    rcases utc with rfl | rfl <;> decide
  obtain ⟨⟨first, last⟩, -⟩ := (Date.isValid_iff _).mp valid
  obtain ⟨k, hname⟩ := MailDate.exists_weekdayName w.date.dayNumber
  simp only [MailDate.write, hname, List.forall_mem_append, List.forall_mem_cons]
  exact ⟨List.all_eq_true.mp (weekday k), rfl, rfl, number _ _, rfl,
    List.all_eq_true.mp (month ⟨w.date.month - 1, by omega⟩), rfl, number _ _, rfl, number _ _, rfl,
    number _ _, rfl, number _ _, rfl, List.all_eq_true.mp hzone⟩

/-- A date is no count of seconds. -/
theorem ofText_write {zone : String} {w : DateTime} {nanos : Int}
    (read : MailDate.read (MailDate.write zone w) = some nanos) (now : Instant) :
    ofText (MailDate.write zone w) now =
      if now.nanos < nanos then some ⟨nanos - now.nanos⟩ else none := by
  obtain ⟨nonempty, first⟩ := head?_write zone w
  obtain ⟨c, rest, hwrite⟩ := List.exists_cons_of_ne_nil nonempty
  obtain ⟨letter, unsigned, -⟩ := first c (by rw [hwrite]; rfl)
  have uncounted : Decimal.readNat maxSeconds (MailDate.write zone w) = .error .badDigit := by
    rw [hwrite]
    exact Decimal.readNat_of_letter _ letter unsigned _
  rw [ofText, uncounted]
  simp only [read]

/-- A header with blanks around a text of visible characters is read as the text. -/
theorem read_spaced {before text after : List Char}
    (spaces : ∀ c ∈ before ++ after, MailDate.isSpace c = true)
    (visible : ∀ c ∈ text, isVisible c = true) (nonempty : text ≠ [])
    (first : ∀ c ∈ text.head?, Text.isBlank c = false)
    (last : ∀ c ∈ text.getLast?, Text.isBlank c = false) (now : Instant) :
    read (Utf8.encode (before ++ text ++ after)) now = ofText text now := by
  obtain ⟨hbefore, hafter⟩ := List.forall_mem_append.mp spaces
  have hvisible : ∀ c ∈ before ++ text ++ after, isVisible c = true := by
    simp only [List.forall_mem_append]
    exact ⟨⟨fun c hc => (isVisible_of_isSpace (hbefore c hc)).1, visible⟩,
      fun c hc => (isVisible_of_isSpace (hafter c hc)).1⟩
  rw [read_encode hvisible, Text.trim_append (fun c hc => (isVisible_of_isSpace (hbefore c hc)).2)
    (fun c hc => (isVisible_of_isSpace (hafter c hc)).2) nonempty first last]

theorem read_digits {before ds after : List Char}
    (spaces : ∀ c ∈ before ++ after, MailDate.isSpace c = true) (nonempty : ds ≠ [])
    (digits : ∀ c ∈ ds, Decimal.isDigit c = true) (within : Decimal.value ds < 2 ^ 32)
    (now : Instant) : read (Utf8.encode (before ++ ds ++ after)) now =
      some (.ofSeconds (Decimal.value ds)) := by
  have unblank : ∀ c ∈ ds, Text.isBlank c = false :=
    fun c hc => Decimal.not_isBlank_of_isDigit (digits c hc)
  rw [read_spaced spaces (fun c hc => isVisible_of_isDigit (digits c hc)) nonempty
    (fun c hc => unblank c (List.mem_of_mem_head? hc))
    (fun c hc => unblank c (List.mem_of_mem_getLast? hc)), ofText_of_digits nonempty digits within]

theorem read_date {before after : List Char} {zone : String} {m : Instant}
    (spaces : ∀ c ∈ before ++ after, MailDate.isSpace c = true) (utc : MailDate.IsUtc zone)
    (whole : m.nanos % nanosPerSecond = 0) (least : 1900 ≤ (DateTime.ofInstant m).date.year)
    (greatest : (DateTime.ofInstant m).date.year ≤ 9999) (now : Instant) :
    read (Utf8.encode (before ++ MailDate.write zone (DateTime.ofInstant m) ++ after)) now =
      if now < m then some (m.since now) else none := by
  have hcalendar : (DateTime.ofInstant m).InCalendar :=
    DateTime.inCalendar_ofNanos ⟨Int.le_trans (by decide) least, greatest⟩
  have hwhole : (DateTime.ofInstant m).nano = 0 := by
    rw [DateTime.ofInstant, DateTime.ofNanos_eq]
    exact congrArg Int.toNat whole
  have hread := MailDate.read_write utc hcalendar least hwhole
  obtain ⟨nonempty, first⟩ := head?_write zone (DateTime.ofInstant m)
  have last : ∀ c ∈ (MailDate.write zone (DateTime.ofInstant m)).getLast?,
      Text.isBlank c = false := by
    rw [getLast?_write utc]
    rcases utc with rfl | rfl <;> rintro c ⟨⟩ <;> decide
  rw [read_spaced spaces (isVisible_write utc hcalendar.date) nonempty
    (fun c hc => (first c hc).2.2) last, ofText_write hread]
  rw [DateTime.ofInstant, DateTime.nanos_ofNanos]
  rfl

/-- The time from an instant to a date has seconds of 64 bits, whichever way it goes. -/
theorem bounds_of_read {text : List Char} {moment : Int} (read : MailDate.read text = some moment)
    (now : Instant) : -(2 ^ 63 * nanosPerSecond) < moment - now.nanos ∧
      moment - now.nanos < 2 ^ 63 * nanosPerSecond := by
  have hmoment := MailDate.read_mem read
  have hnow := now.inRange
  have hoffset := now.offset.bounded
  simp only [UtcOffset.Reaches, UtcOffset.nanos, nanosPerSecond] at hmoment hnow ⊢
  omega

theorem bounds_of_ofText {text : List Char} {now : Instant} {d : Duration}
    (h : ofText text now = some d) : 0 ≤ d.nanos ∧ d.nanos < 2 ^ 63 * nanosPerSecond := by
  unfold ofText at h
  split at h
  · rename_i n hread
    have hn : n ≤ 4294967295 := Decimal.le_of_readNat hread
    cases h
    simp only [Duration.ofSeconds, nanosPerSecond]
    omega
  · split at h
    · rename_i moment hread
      have hbounds := bounds_of_read hread now
      split at h
      · cases h
        dsimp only
        omega
      · cases h
    · cases h

/-- What a header asks for is never negative, and all times that are computed have seconds of 64
bits. A number below 2 ^ 32 in digits, with blanks around it, asks for as many seconds. A date of
the years from 1900 to 9999 in the fixed form, in GMT or with the offset of UTC, asks for the time
until the date, or for nothing once it has come. -/
theorem waiting_time_read :
    (∀ (value : List UInt8) (now : Instant) (d : Duration), read value now = some d →
      0 ≤ d.nanos ∧ d.nanos < 2 ^ 63 * nanosPerSecond) ∧
    (∀ (text : List Char) (moment : Int), MailDate.read text = some moment → ∀ now : Instant,
      -(2 ^ 63 * nanosPerSecond) < moment - now.nanos ∧
        moment - now.nanos < 2 ^ 63 * nanosPerSecond) ∧
    (∀ before after : List Char, (∀ c ∈ before ++ after, MailDate.isSpace c = true) →
      (∀ ds : List Char, ds ≠ [] → (∀ c ∈ ds, Decimal.isDigit c = true) →
        Decimal.value ds < 2 ^ 32 → ∀ now, read (Utf8.encode (before ++ ds ++ after)) now =
          some (.ofSeconds (Decimal.value ds))) ∧
      ∀ (zone : String) (m : Instant), MailDate.IsUtc zone → m.nanos % nanosPerSecond = 0 →
        1900 ≤ (DateTime.ofInstant m).date.year → (DateTime.ofInstant m).date.year ≤ 9999 → ∀ now,
          read (Utf8.encode (before ++ MailDate.write zone (DateTime.ofInstant m) ++ after)) now =
            if now < m then some (m.since now) else none) := by
  refine ⟨fun value now d h => ?_, fun _ _ => bounds_of_read, fun before after spaces =>
    ⟨fun _ nonempty digits within => read_digits spaces nonempty digits within,
      fun _ _ utc whole least greatest => read_date spaces utc whole least greatest⟩⟩
  unfold read at h
  split at h
  · exact bounds_of_ofText h
  · cases h

/-- The last second of a leap day. -/
def leapDayEnd : Instant := ⟨1709251199000000000, .utc, by decide⟩

/-- Half a second before the last second of a leap day. -/
def beforeLeapDayEnd : Instant := ⟨1709251198500000000, .utc, by decide⟩

theorem leap_day_awaited :
    read (Utf8.bytes " \tThu, 29 Feb 2024 23:59:59 GMT ") beforeLeapDayEnd = some ⟨500000000⟩ ∧
      read (Utf8.bytes "Thu, 29 Feb 2024 23:59:59 +0000") leapDayEnd = none ∧
      read (Utf8.bytes "\t007 ") leapDayEnd = some (.ofSeconds 7) := by
  obtain ⟨-, -, reads⟩ := waiting_time_read
  have least : 1900 ≤ (DateTime.ofInstant leapDayEnd).date.year := by decide
  have greatest : (DateTime.ofInstant leapDayEnd).date.year ≤ 9999 := by decide
  have named := (reads [' ', '\t'] [' '] (List.all_eq_true.mp (by decide))).2 "GMT" leapDayEnd
    (.inl rfl) (by decide) least greatest beforeLeapDayEnd
  have offset := (reads [] [] nofun).2 "+0000" leapDayEnd (.inr rfl) (by decide) least greatest leapDayEnd
  have seconds := (reads ['\t'] [' '] (List.all_eq_true.mp (by decide))).1 ['0', '0', '7']
    (by decide) (List.all_eq_true.mp (by decide)) (by decide) leapDayEnd
  have namedText : [' ', '\t'] ++ MailDate.write "GMT" (DateTime.ofInstant leapDayEnd) ++ [' '] =
      " \tThu, 29 Feb 2024 23:59:59 GMT ".toList := by decide +kernel
  have offsetText : [] ++ MailDate.write "+0000" (DateTime.ofInstant leapDayEnd) ++ [] =
      "Thu, 29 Feb 2024 23:59:59 +0000".toList := by decide +kernel
  rw [namedText] at named
  rw [offsetText] at offset
  exact ⟨named.trans (by decide), offset.trans (by decide), seconds⟩

end RetryAfter

end FederatedAccess
