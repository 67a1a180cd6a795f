import LocaleLint.Encoding.Decode
import LocaleLint.Proofs.Encoding.Utf8

set_option autoImplicit false

namespace LocaleLint.Encoding

variable {Text : Type}

def mark : List UInt8 := [0xef, 0xbb, 0xbf]

def utf8 (text : List Char) : List UInt8 := text.flatMap String.utf8EncodeChar

/-- What the default encodings make of octets: the text that they write in UTF-8, or where they
write none, one character for every octet, with the number of the octet. -/
inductive IsReadAs (octets : List UInt8) (text : List Char) : Prop
  | written (same : octets = utf8 text)
  | each (ill : ∀ other, octets ≠ utf8 other) (same : text.map Char.toNat = octets.map UInt8.toNat)

-- The text that the default encodings give.
def defaultText (octets : List UInt8) : List Char :=
  match Utf8.decode (dropMark octets) with
  | .ok text => text
  | .error _ => (dropMark octets).map SingleByte.latin1

theorem defaultText_of_utf8 (octets : List UInt8) (text : List Char)
    (written : dropMark octets = utf8 text) : defaultText octets = text := by
  have decoded := (Utf8.decode_eq_ok_iff _ _).mpr written
  rw [defaultText, decoded]

theorem utf8_mark (text : List Char) : utf8 ('\ufeff' :: text) = mark ++ utf8 text := rfl

theorem dropMark_mark (rest : List UInt8) : dropMark (mark ++ rest) = rest := rfl

theorem dropMark_of_unmarked (octets : List UInt8) (unmarked : ¬ mark <+: octets) :
    dropMark octets = octets := by
  fun_cases dropMark octets with
  | case1 rest => exact absurd ⟨rest, rfl⟩ unmarked
  | case2 => rfl

theorem head?_of_mark (text : List Char) (marked : mark <+: utf8 text) :
    text.head? = some '\ufeff' := by
  obtain ⟨rest, whole⟩ := marked
  have decoded := (Utf8.decode_eq_ok_iff _ text).mpr rfl
  rw [← utf8, ← whole] at decoded
  have first : Utf8.decode (mark ++ rest) = (Utf8.decodeFrom 3 rest).map ('\ufeff' :: ·) :=
    Utf8.decodeFrom_three 0 0xef 0xbb 0xbf rest (by decide) (by decide) (by decide) (by decide)
  rw [first] at decoded
  obtain ⟨later, -, rfl⟩ := Utf8.map_cons_eq_ok decoded
  rfl

section
variable (ofChars : List Char → Text) (foreign : Foreign Text)

theorem answer_nil (name : String) (whole : '\x00' ∉ name.toList) :
    answer ofChars foreign name [] = .ok (some (ofChars [])) := by
  simp [answer, whole]

theorem answer_utf8 (octets : List UInt8) :
    answer ofChars foreign "utf-8" octets = .ok ((Utf8.decode octets).toOption.map ofChars) := by
  have named : lookup "utf-8" = some .utf8 := by decide +kernel
  cases octets with
  | nil => exact answer_nil ofChars foreign "utf-8" (by decide)
  | cons octet rest => simp [answer, named, Codec.decode?]

theorem answer_latin1 (octets : List UInt8) :
    answer ofChars foreign "iso-8859-1" octets =
      .ok (some (ofChars (octets.map SingleByte.latin1))) := by
  have named : lookup "iso-8859-1" = some .latin1 := by decide +kernel
  cases octets with
  | nil => exact answer_nil ofChars foreign "iso-8859-1" (by decide)
  | cons octet rest => simp [answer, named, Codec.decode?]

theorem map_toNat_latin1 (octets : List UInt8) :
    (octets.map SingleByte.latin1).map Char.toNat = octets.map UInt8.toNat := by
  rw [List.map_map, List.map_inj_left]
  intro octet _
  exact Utf8.toNat_ofNat _ (.inl (by have := octet.toNat_lt; omega))

theorem decodeBy_defaults_eq (octets : List UInt8) :
    decodeBy (answer ofChars foreign) defaults octets = .text (ofChars (defaultText octets)) := by
  cases decoded : Utf8.decode (dropMark octets) <;>
    simp [decodeBy, defaults, firstAccepted, answer_utf8, answer_latin1, defaultText, decoded,
      Except.toOption]

theorem decodeBy_defaults (octets : List UInt8) :
    ∃ text, decodeBy (answer ofChars foreign) defaults octets = .text (ofChars text) ∧
      IsReadAs (dropMark octets) text := by
  refine ⟨defaultText octets, decodeBy_defaults_eq ofChars foreign octets, ?_⟩
  cases decoded : Utf8.decode (dropMark octets) with
  | ok text =>
    have written := (Utf8.decode_eq_ok_iff _ _).mp decoded
    rw [defaultText, decoded]
    exact .written written
  | error bad =>
    refine .each (fun other same => ?_) (by simpa [defaultText, decoded] using map_toNat_latin1 _)
    rw [(Utf8.decode_eq_ok_iff _ other).mpr same] at decoded
    cases decoded

theorem decodeBy_defaults_of_utf8 (octets : List UInt8) (text : List Char)
    (written : dropMark octets = utf8 text) :
    decodeBy (answer ofChars foreign) defaults octets = .text (ofChars text) := by
  rw [decodeBy_defaults_eq, defaultText_of_utf8 octets text written]

end

section
variable (answer : String → Answer Text)

theorem firstAccepted_refused (before after : List String)
    (refused : ∀ name ∈ before, answer name = .ok none) :
    firstAccepted answer (before ++ after) = firstAccepted answer after := by
  induction before with
  | nil => rfl
  | cons name before ih =>
    rw [List.cons_append, firstAccepted, refused name (List.mem_cons_self ..)]
    exact ih fun other member => refused other (List.mem_cons_of_mem _ member)

theorem firstAccepted_decided (before after : List String) (name : String)
    (refused : ∀ name ∈ before, answer name = .ok none) (decides : answer name ≠ .ok none) :
    firstAccepted answer (before ++ name :: after) = answer name := by
  rw [firstAccepted_refused answer before _ refused, firstAccepted]
  split
  next abort fails => exact fails.symm
  next text accepts => exact accepts.symm
  next refuses => exact absurd refuses decides

theorem refused_or_decided (encodings : List String) :
    (∀ name ∈ encodings, answer name = .ok none) ∨
      ∃ before name after, encodings = before ++ name :: after ∧
        (∀ name ∈ before, answer name = .ok none) ∧ answer name ≠ .ok none := by
  induction encodings with
  | nil => exact .inl (by simp)
  | cons name rest ih =>
    by_cases refuses : answer name = .ok none
    next =>
      rcases ih with all | ⟨before, decisive, after, rfl, refused, decides⟩
      · exact .inl (List.forall_mem_cons.mpr ⟨refuses, all⟩)
      · exact .inr ⟨name :: before, decisive, after, rfl,
          List.forall_mem_cons.mpr ⟨refuses, refused⟩, decides⟩
    next => exact .inr ⟨[], name, rest, rfl, by simp, refuses⟩

theorem firstAccepted_eq_none_iff (encodings : List String) :
    firstAccepted answer encodings = .ok none ↔ ∀ name ∈ encodings, answer name = .ok none := by
  constructor
  · intro none
    rcases refused_or_decided answer encodings with all
      | ⟨before, name, after, rfl, refused, decides⟩
    · exact all
    · rw [firstAccepted_decided answer before after name refused decides] at none
      exact absurd none decides
  · intro all
    simpa [firstAccepted] using firstAccepted_refused answer encodings [] all

theorem firstAccepted_eq_iff (encodings : List String) (result : Answer Text)
    (decided : result ≠ .ok none) :
    firstAccepted answer encodings = result ↔
      ∃ before name after, encodings = before ++ name :: after ∧
        (∀ name ∈ before, answer name = .ok none) ∧ answer name = result := by
  constructor
  · rintro rfl
    rcases refused_or_decided answer encodings with all
      | ⟨before, name, after, rfl, refused, decides⟩
    · exact absurd ((firstAccepted_eq_none_iff answer encodings).mpr all) decided
    · exact ⟨before, name, after, rfl, refused,
        (firstAccepted_decided answer before after name refused decides).symm⟩
  · rintro ⟨before, name, after, rfl, refused, rfl⟩
    exact firstAccepted_decided answer before after name refused decided

end

section
variable (answer : String → List UInt8 → Answer Text) (encodings : List String)
  (octets : List UInt8)

theorem decodeBy_eq_text_iff (text : Text) :
    decodeBy answer encodings octets = .text text ↔
      firstAccepted (answer · (dropMark octets)) encodings = .ok (some text) := by
  unfold decodeBy
  split <;> simp_all

theorem decodeBy_eq_rejected_iff (r : Rejection) :
    decodeBy answer encodings octets = .rejected r ↔
      r = undecodable encodings ∧
        firstAccepted (answer · (dropMark octets)) encodings = .ok none := by
  unfold decodeBy
  split
  next abort ends => simp [ends]
  next text accepted => simp [accepted]
  next none => simp [none, eq_comm]

theorem decodeBy_eq_aborted_iff (abort : Abort) :
    decodeBy answer encodings octets = .aborted abort ↔
      firstAccepted (answer · (dropMark octets)) encodings = .error abort := by
  unfold decodeBy
  split <;> simp_all

end

def NamesText (name : String) : Prop :=
  '\x00' ∉ name.toList ∧ ∃ codec, lookup name = some codec ∧ codec ≠ .transformation

theorem answer_eq_error_iff (ofChars : List Char → Text) (foreign : Foreign Text) (name : String)
    (octets : List UInt8) (abort : Abort) (named : NamesText name) :
    answer ofChars foreign name octets = .error abort ↔
      octets ≠ [] ∧
        (lookup name = some .undefined ∧ abort = .undefinedEncoding ∨
          lookup name = some .foreign ∧ foreign name octets = .error abort) := by
  obtain ⟨whole, codec, found, isText⟩ := named
  cases octets with
  | nil => simp [answer_nil ofChars foreign name whole]
  | cons octet rest =>
    cases codec with
    | transformation => exact absurd rfl isText
    | undefined => simp [answer, whole, found, eq_comm]
    | foreign => simp [answer, whole, found]
    | _ => simp [answer, whole, found]

theorem decode_candidates (ofChars : List Char → Text) (foreign : Foreign Text) :
    (∀ rest, ∃ text, decodeBy (answer ofChars foreign) defaults (mark ++ rest) =
      .text (ofChars text) ∧
      IsReadAs rest text) ∧
    (∀ octets, ¬ mark <+: octets →
      ∃ text, decodeBy (answer ofChars foreign) defaults octets = .text (ofChars text) ∧
        IsReadAs octets text) ∧
    (∀ text, decodeBy (answer ofChars foreign) defaults (mark ++ utf8 text) =
      .text (ofChars text)) ∧
    (∀ text, text.head? ≠ some '\ufeff' →
      decodeBy (answer ofChars foreign) defaults (utf8 text) = .text (ofChars text)) ∧
    ∀ encodings octets,
      (∀ text, decodeBy (answer ofChars foreign) encodings octets = .text text ↔
        ∃ before name after, encodings = before ++ name :: after ∧
          (∀ other ∈ before, answer ofChars foreign other (dropMark octets) = .ok none) ∧
          answer ofChars foreign name (dropMark octets) = .ok (some text)) ∧
      (∀ r, decodeBy (answer ofChars foreign) encodings octets = .rejected r ↔
        r = undecodable encodings ∧
          ∀ name ∈ encodings, answer ofChars foreign name (dropMark octets) = .ok none) ∧
      (∀ abort, decodeBy (answer ofChars foreign) encodings octets = .aborted abort ↔
        ∃ before name after, encodings = before ++ name :: after ∧
          (∀ other ∈ before, answer ofChars foreign other (dropMark octets) = .ok none) ∧
          answer ofChars foreign name (dropMark octets) = .error abort) ∧
      ∀ name ∈ encodings, NamesText name → ∀ abort,
        answer ofChars foreign name (dropMark octets) = .error abort ↔
          dropMark octets ≠ [] ∧
            (lookup name = some .undefined ∧ abort = .undefinedEncoding ∨
              lookup name = some .foreign ∧ foreign name (dropMark octets) = .error abort) := by
  refine ⟨fun rest => ?_, fun octets unmarked => ?_, fun text => ?_, fun text unmarked => ?_,
    fun encodings octets => ⟨fun text => ?_, fun r => ?_, fun abort => ?_,
      fun name _ named abort => answer_eq_error_iff ofChars foreign name _ abort named⟩⟩
  · simpa [dropMark_mark] using decodeBy_defaults ofChars foreign (mark ++ rest)
  · simpa [dropMark_of_unmarked octets unmarked] using decodeBy_defaults ofChars foreign octets
  · exact decodeBy_defaults_of_utf8 ofChars foreign _ text (dropMark_mark _)
  · have kept := dropMark_of_unmarked (utf8 text) fun marked => unmarked (head?_of_mark text marked)
    exact decodeBy_defaults_of_utf8 ofChars foreign _ text kept
  · rw [decodeBy_eq_text_iff]
    exact firstAccepted_eq_iff _ encodings _ (by simp)
  · rw [decodeBy_eq_rejected_iff, firstAccepted_eq_none_iff]
  · rw [decodeBy_eq_aborted_iff]
    exact firstAccepted_eq_iff _ encodings _ (by simp)

def refusing : Foreign String := fun _ _ => .ok none

theorem decode_undefined :
    NamesText "undefined" ∧ answer String.ofList refusing "utf-8" [0x61] = .ok (some "a") ∧
      decodeBy (answer String.ofList refusing) ["undefined", "utf-8"] [0x61] =
        .aborted .undefinedEncoding := by
  have found : lookup "undefined" = some .undefined := by decide +kernel
  have named : NamesText "undefined" := ⟨by decide, .undefined, found, by decide⟩
  have accepts : answer String.ofList refusing "utf-8" [0x61] = .ok (some "a") := by
    rw [answer_utf8]
    rfl
  obtain ⟨-, -, ends, fails⟩ :=
    (decode_candidates String.ofList refusing).2.2.2.2 ["undefined", "utf-8"] [0x61]
  refine ⟨named, accepts, (ends _).mpr ⟨[], "undefined", ["utf-8"], rfl, by simp, ?_⟩⟩
  exact (fails "undefined" (List.mem_cons_self ..) named _).mpr
    ⟨by simp [dropMark], .inl ⟨found, rfl⟩⟩

end LocaleLint.Encoding
