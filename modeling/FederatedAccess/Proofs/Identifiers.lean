import FederatedAccess.Config
import FederatedAccess.Proofs.CanonicalScopes
import FederatedAccess.Proofs.Json.ReadBack

/-!
# Every way to an identifier

A text that is given, read, handed over or held by a document becomes the same identifier, or is
refused for the same defect, which is the first in a fixed order. The identifiers of a configuration
come from texts of its document in this way.
-/

namespace FederatedAccess

/-- The size of a string is that of its encoding. -/
theorem Utf8.size_eq (s : String) : size s = s.utf8ByteSize := by
  rw [size, bytes, encode, String.utf8ByteSize, ← s.utf8Encode_toList, List.utf8Encode,
    List.size_toByteArray]

namespace Identifier

variable {kind : Kind} {s : String} {f : Fault}

/-! ### Defects -/

/-- What it means that a text has a defect. -/
def Fault.Affects (s : String) : Fault → Prop
  | .empty => s = ""
  | .blank => ∃ c ∈ s.toList, Text.isBlank c = true
  | .separator => ∃ c ∈ s.toList, c ∈ ['/', '\\', '?', '#']
  | .tooLong => 256 < s.utf8ByteSize

/-- The place of a defect in the order of reporting. -/
def Fault.rank : Fault → Nat
  | .empty => 0
  | .blank => 1
  | .separator => 2
  | .tooLong => 3

/-- The defect of a text that no other one precedes. -/
structure Fault.IsFirst (s : String) (f : Fault) : Prop where
  affects : f.Affects s
  unpreceded : ∀ g : Fault, g.rank < f.rank → ¬g.Affects s

theorem isSeparator_iff {c : Char} : isSeparator c = true ↔ c ∈ ['/', '\\', '?', '#'] := by
  simp [isSeparator, or_assoc]

theorem Fault.IsFirst.unique {g : Fault} (hf : f.IsFirst s) (hg : g.IsFirst s) : f = g := by
  have hle : ¬g.rank < f.rank := fun h => hf.unpreceded g h hg.affects
  have hge : ¬f.rank < g.rank := fun h => hg.unpreceded f h hf.affects
  cases f <;> cases g <;> first | rfl | simp [Fault.rank] at hle hge

/-- The check finds the first defect if there is one. -/
theorem fault?_cases (s : String) :
    (∃ f, fault? s = some f ∧ f.IsFirst s) ∨ fault? s = none ∧ ∀ f : Fault, ¬f.Affects s := by
  have hempty : s.toList.isEmpty = true ↔ Fault.empty.Affects s := by simp [Fault.Affects]
  have hblank : s.toList.any Text.isBlank = true ↔ Fault.blank.Affects s := List.any_eq_true
  have hseparator : s.toList.any isSeparator = true ↔ Fault.separator.Affects s := by
    simp only [List.any_eq_true, isSeparator_iff, Fault.Affects]
  have hsize : maxSize < Utf8.size s ↔ Fault.tooLong.Affects s := by
    rw [Utf8.size_eq]
    rfl
  unfold fault?
  split
  · rename_i empty
    exact .inl ⟨.empty, rfl, hempty.mp empty, fun g hg => absurd hg (Nat.not_lt_zero _)⟩
  · rename_i present
    rw [hempty] at present
    split
    · rename_i blank
      refine .inl ⟨.blank, rfl, hblank.mp blank, fun g hg => ?_⟩
      cases g with
      | empty => exact present
      | _ => exact absurd hg (by decide)
    · rename_i unblank
      rw [hblank] at unblank
      split
      · rename_i separator
        refine .inl ⟨.separator, rfl, hseparator.mp separator, fun g hg => ?_⟩
        cases g with
        | empty => exact present
        | blank => exact unblank
        | _ => exact absurd hg (by decide)
      · rename_i unseparated
        rw [hseparator] at unseparated
        split
        · rename_i long
          refine .inl ⟨.tooLong, rfl, hsize.mp long, fun g hg => ?_⟩
          cases g with
          | empty => exact present
          | blank => exact unblank
          | separator => exact unseparated
          | tooLong => exact absurd hg (by decide)
        · rename_i short
          rw [hsize] at short
          refine .inr ⟨rfl, fun f => ?_⟩
          cases f with
          | empty => exact present
          | blank => exact unblank
          | separator => exact unseparated
          | tooLong => exact short

theorem fault?_eq_some_iff : fault? s = some f ↔ f.IsFirst s := by
  rcases fault?_cases s with ⟨g, hg, first⟩ | ⟨hnone, sound⟩
  · rw [hg, Option.some.injEq]
    exact ⟨fun h => h ▸ first, first.unique⟩
  · rw [hnone]
    exact iff_of_false nofun fun h => sound f h.affects

theorem fault?_eq_none_iff : fault? s = none ↔ s ≠ "" ∧ s.utf8ByteSize ≤ 256 ∧
    ∀ c ∈ s.toList, Text.isBlank c = false ∧ c ∉ ['/', '\\', '?', '#'] := by
  have hsound : fault? s = none ↔ ∀ f : Fault, ¬f.Affects s := by
    rcases fault?_cases s with ⟨g, hg, first⟩ | ⟨hnone, sound⟩
    · rw [hg]
      exact iff_of_false nofun fun sound => sound g first.affects
    · exact iff_of_true hnone sound
  rw [hsound]
  constructor
  · intro sound
    refine ⟨sound .empty, Nat.not_lt.mp (sound .tooLong), fun c hc => ⟨?_, fun hsep => ?_⟩⟩
    · exact Bool.eq_false_iff.mpr fun hblank => sound .blank ⟨c, hc, hblank⟩
    · exact sound .separator ⟨c, hc, hsep⟩
  · rintro ⟨present, short, chars⟩ f
    cases f with
    | empty => exact present
    | blank =>
        rintro ⟨c, hc, hblank⟩
        exact Bool.false_ne_true ((chars c hc).1.symm.trans hblank)
    | separator => exact fun ⟨c, hc, hsep⟩ => (chars c hc).2 hsep
    | tooLong => exact Nat.not_lt.mpr short

/-! ### Documents -/

/-- A document that holds a text is read as the identifier with the text, or refused as that is. -/
theorem ofJson_of_text {document : String}
    (h : Json.lex (Json.source document) = [.text (.ok s)]) :
    ofJson kind document = (make kind s).mapError fun f => .mismatch (f.message kind) := by
  rw [ofJson, Json.readAll, h, reader]
  simp only [Json.readString, convert_eq_make]
  cases make kind s <;> rfl

theorem lex_writeString (s : String) :
    Json.lex (Json.source (String.ofList (Json.writeString s))) = [.text (.ok s)] := by
  rw [Json.source, String.toList_ofList, (Json.cut_writeString s).lex_eq]

theorem ofJson_toJson (i : Identifier kind) : ofJson kind i.toJson = .ok i := by
  rw [toJson, ofJson_of_text (lex_writeString i.text), make_eq_ok_iff.mpr rfl]
  rfl

end Identifier

namespace Config

theorem make_of_identifier {kind : Identifier.Kind} {text : String} {i : Identifier kind}
    (h : Document.identifier kind text = .ok i) : Identifier.make kind text = .ok i := by
  unfold Document.identifier at h
  cases hmake : Identifier.make kind text with
  | ok j =>
      rw [hmake] at h
      exact congrArg _ (Except.ok.inj h)
  | error f =>
      rw [hmake] at h
      cases h

/-- The identifiers of a described configuration are made of the texts of the document. -/
theorem identifiers_of_toConfig {d : Document} {c : Config} (h : d.toConfig = .ok c) :
    Identifier.make .client d.clientId = .ok c.clientId ∧
      Identifier.make .tenant d.tenantId = .ok c.tenantId := by
  simp only [Document.toConfig, bind, Except.bind] at h
  split at h
  · cases h
  · rename_i client hclient
    split at h
    · cases h
    · rename_i tenant htenant
      split at h
      · cases h
      · split at h
        · cases h
        · unfold Draft.build at h
          split at h
          · cases h
          · cases h
            exact ⟨make_of_identifier hclient, make_of_identifier htenant⟩

/-- The identifiers of a configuration that is read are made of texts that its document names. -/
theorem identifiers_of_ofJson {document : String} {c : Config} (h : ofJson document = .ok c) :
    ∃ d : Document, Document.record.read {} (Json.lex (Json.source document)) = .ok (d, []) ∧
      Identifier.make .client d.clientId = .ok c.clientId ∧
      Identifier.make .tenant d.tenantId = .ok c.tenantId := by
  have hread := Json.readAll_eq_ok_iff.mp h
  unfold reader at hread
  split at hread
  · cases hread
  · rename_i d rest hrecord
    split at hread
    · rename_i c' hconfig
      cases hread
      exact ⟨d, hrecord, identifiers_of_toConfig hconfig⟩
    · cases hread

end Config

namespace Identifier

/-- All ways from a text to an identifier agree: each makes the identifier with the text, or reports
the first defect, and the document of an identifier is one of these ways. -/
structure Agree (kind : Kind) (v : String) : Prop where
  parsed : parse kind v = make kind v
  converted : convert kind v = make kind v
  /-- However the document writes the text. -/
  documents : ∀ document, Json.lex (Json.source document) = [.text (.ok v)] →
    ofJson kind document = (make kind v).mapError fun f => .mismatch (f.message kind)
  written : Json.lex (Json.source (String.ofList (Json.writeString v))) = [.text (.ok v)]
  accepted : (∃ i, make kind v = .ok i) ↔ v ≠ "" ∧ v.utf8ByteSize ≤ 256 ∧
    ∀ c ∈ v.toList, Text.isBlank c = false ∧ c ∉ ['/', '\\', '?', '#']
  kept : ∀ i, make kind v = .ok i → i.text = v ∧ ofJson kind i.toJson = .ok i
  refused : ∀ f, make kind v = .error f ↔ f.IsFirst v

theorem agree (kind : Kind) (v : String) : Agree kind v where
  parsed := rfl
  converted := convert_eq_make kind v
  documents _ := ofJson_of_text
  written := lex_writeString v
  accepted := by
    rw [← fault?_eq_none_iff]
    constructor
    · rintro ⟨i, hi⟩
      exact make_eq_ok_iff.mp hi ▸ i.valid
    · exact fun h => ⟨⟨v, h⟩, make_eq_ok_iff.mpr rfl⟩
  kept i hi := ⟨make_eq_ok_iff.mp hi, i.ofJson_toJson⟩
  refused _ := make_eq_error_iff.trans fault?_eq_some_iff

/-- The order of two identifiers is that of the bytes of their texts. -/
theorem order_spec (i j : Identifier kind) :
    (order i j = .lt ↔ Utf8.bytes i.text < Utf8.bytes j.text) ∧
    (order i j = .eq ↔ i = j) ∧
    (order i j = .gt ↔ Utf8.bytes j.text < Utf8.bytes i.text) := by
  have apart {a b : String} (hab : Utf8.before a b) : ¬Utf8.before b a :=
    fun hba => Utf8.not_before_self a (Utf8.before_trans hab hba)
  have hgt (hji : Utf8.before j.text i.text) : order i j = .gt := by
    rw [order, Utf8.order, if_neg (apart hji), if_pos hji]
  have heq (hij : i = j) : order i j = .eq := by
    subst hij
    rw [order, Utf8.order, if_neg (Utf8.not_before_self _), if_neg (Utf8.not_before_self _)]
  have eq_of_order (h : order i j = .eq) : i = j := by
    have htext : i.text = j.text := Utf8.eq_of_order h
    have hmake := (make_eq_ok_iff (i := i)).mpr htext
    exact Except.ok.inj (hmake.symm.trans (make_eq_ok_iff.mpr rfl))
  exact ⟨⟨Utf8.before_of_order, fun hij => if_pos hij⟩, ⟨eq_of_order, heq⟩,
    ⟨Utf8.before_of_order_gt, hgt⟩⟩

/-- All ways from a text to an identifier agree, for every text and both kinds. Identifiers are
ordered as the bytes of their texts are, and those of a configuration that is read from a document
are made of texts of the document, so none is there that would be refused. -/
theorem routes_agree :
    (∀ kind v, Agree kind v) ∧
    (∀ (kind : Kind) (i j : Identifier kind),
      (order i j = .lt ↔ Utf8.bytes i.text < Utf8.bytes j.text) ∧
      (order i j = .eq ↔ i = j) ∧
      (order i j = .gt ↔ Utf8.bytes j.text < Utf8.bytes i.text)) ∧
    ∀ document c, Config.ofJson document = .ok c →
      ∃ d : Config.Document,
        Config.Document.record.read {} (Json.lex (Json.source document)) = .ok (d, []) ∧
        make .client d.clientId = .ok c.clientId ∧ make .tenant d.tenantId = .ok c.tenantId :=
  ⟨agree, fun _ => order_spec, fun _ _ => Config.identifiers_of_ofJson⟩

/-- A document that names both identifiers, one of them with an escape. -/
def namingDocument : String :=
  "\x7b\"tenant_id\": \"contoso\", \"client_id\": \"app\\u002d1\", \"assertion_file\": \"/token\"\x7d"

theorem first_defect_reported :
    convert .tenant "a /" = .error .blank ∧
      ofJson .tenant (String.ofList (Json.writeString "a /")) =
        .error (.mismatch "Tenant identifier contains whitespace.") ∧
      ∃ c d, Config.ofJson namingDocument = .ok c ∧ c.clientId.text = "app-1" ∧
        make .client (Config.Document.clientId d) = .ok c.clientId ∧
        make .tenant d.tenantId = .ok c.tenantId := by
  obtain ⟨agrees, -, configured⟩ := routes_agree
  obtain ⟨-, converted, documents, written, -, -, refused⟩ := agrees .tenant "a /"
  have blank : Fault.blank.IsFirst "a /" := by
    refine ⟨⟨' ', by decide, by decide⟩, fun g hg => ?_⟩
    cases g with
    | empty => exact fun nothing : "a /" = "" => absurd nothing (by decide)
    | _ => exact absurd hg (by decide)
  have made := (refused .blank).mpr blank
  refine ⟨converted.trans made, ?_, ?_⟩
  · rw [documents _ written, made]
    rfl
  · have client : (Config.ofJson namingDocument).toOption.map (·.clientId.text) = some "app-1" := by
      decide +kernel
    cases hread : Config.ofJson namingDocument with
    | error f =>
        rw [hread] at client
        cases client
    | ok c =>
        rw [hread] at client
        obtain ⟨d, -, hclient, htenant⟩ := configured _ _ hread
        exact ⟨c, d, rfl, Option.some.inj client, hclient, htenant⟩

end Identifier

end FederatedAccess
