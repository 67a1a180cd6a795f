import LocaleLint.Config.Basic
import LocaleLint.Proofs.Batch
import LocaleLint.Proofs.Encoding.Decode
import LocaleLint.Proofs.Record.Checked

set_option autoImplicit false

namespace LocaleLint

open LocaleLint.Yaml

open LocaleLint.Text (CodePoint)

namespace Field

theorem nonEmptyTexts_eq_ok_iff (order : SetOrder) (value : Value) (names : List (List CodePoint)) :
    nonEmptyTexts order value = .ok names ↔ texts order value = .ok names ∧ names ≠ [] := by
  unfold nonEmptyTexts
  cases texts order value with
  | error issues => simp
  | ok found =>
    cases found with
    | nil => simp [eq_comm]
    | cons first rest =>
      simp only [Except.ok.injEq, iff_self_and]
      rintro rfl
      exact List.cons_ne_nil first rest

end Field

namespace Encoding

def IsKnown (name : String) : Prop :=
  '\x00' ∉ name.toList ∧ ∃ codec, lookup name = some codec

theorem unknown?_eq_none_iff (name : String) : unknown? name = none ↔ IsKnown name := by
  unfold unknown?
  split
  next nul => simpa [IsKnown] using fun whole => absurd (by simpa using nul) whole
  next whole =>
    have whole : '\x00' ∉ name.toList := by simpa using whole
    cases found : lookup name <;> simp [IsKnown, whole, found]

def BreaksOff {Text : Type} (foreign : Foreign Text) (octets : List UInt8) (name : String)
    (abort : Abort) : Prop :=
  lookup name = some .transformation ∧ abort = .unknownEncoding name ∨
    lookup name = some .undefined ∧ abort = .undefinedEncoding ∨
    lookup name = some .foreign ∧ foreign name octets = .error abort

theorem answer_eq_error_iff_of_known {Text : Type} (ofChars : List Char → Text)
    (foreign : Foreign Text) (name : String) (octets : List UInt8) (abort : Abort)
    (known : IsKnown name) :
    answer ofChars foreign name octets = .error abort ↔
      octets ≠ [] ∧ BreaksOff foreign octets name abort := by
  obtain ⟨whole, codec, found⟩ := known
  by_cases isText : codec = .transformation
  · subst isText
    cases octets with
    | nil => simp [answer_nil ofChars foreign name whole]
    | cons octet rest => simp [answer, whole, found, BreaksOff, eq_comm]
  · rw [answer_eq_error_iff ofChars foreign name octets abort ⟨whole, codec, found, isText⟩]
    simp [BreaksOff, found, isText]

theorem isKnown_of_default (name : String) (member : name ∈ defaults) : IsKnown name := by
  rcases List.mem_cons.mp member with rfl | member
  · exact ⟨by decide, .utf8, by decide +kernel⟩
  · rcases List.mem_singleton.mp member with rfl
    exact ⟨by decide, .latin1, by decide +kernel⟩

end Encoding

namespace Field

theorem isKnown_of_encodings (order : SetOrder) (value : Value) (names : List String)
    (read : Field.encodings order value = .ok names) (name : String) (member : name ∈ names) :
    Encoding.IsKnown name := by
  unfold Field.encodings at read
  split at read
  next => cases read
  next found nonEmpty =>
    split at read
    next => cases read
    next passed =>
      cases read
      obtain ⟨points, inside, spelled⟩ := List.mem_filterMap.mp member
      obtain ⟨chars, whole, rfl⟩ := Option.map_eq_some_iff.mp spelled
      have known := List.findSome?_eq_none_iff.mp passed points inside
      have looked := (Option.or_eq_none_iff.mp known).2
      rw [whole, Option.bind_some] at looked
      exact (Encoding.unknown?_eq_none_iff _).mp looked

end Field

namespace Config

variable (order : Field.SetOrder)

/-- Each field has the value that the entries give it, and no entry is left over. -/
structure IsReadFrom (config : Config) (entries : List (Scalar × Value)) : Prop where
  langDir : Field.withDefault entries "lang_dir" default.langDir
    (fun value => Checked.ofDefect (Field.points value)) = .ok config.langDir
  extensions : Field.withDefault entries "extensions" default.extensions (Field.extensions order) =
    .ok config.extensions
  encodings : Field.withDefault entries "encodings" default.encodings (Field.encodings order) =
    .ok config.encodings
  throwing : Field.withDefault entries "throw_parse_exception" default.throwParseException
    (fun value => Checked.ofDefect (Field.truth value)) = .ok config.throwParseException
  ciMode : Field.withDefault entries "ci_mode" default.ciMode
    (fun value => Checked.ofDefect (Field.truth value)) = .ok config.ciMode
  named : ∀ entry ∈ entries, ∃ name ∈ fieldNames, entry.1 = .string name

theorem ofEntries_eq_ok_iff (entries : List (Scalar × Value)) (config : Config) :
    ofEntries order entries = .ok config ↔ config.IsReadFrom order entries := by
  constructor
  next =>
    intro accepted
    obtain ⟨⟨langDir, extensions, encodings, throwing, ciMode⟩, read, rfl⟩ :=
      Checked.of_map_eq_ok _ _ _ accepted
    obtain ⟨fields, named⟩ := (Checked.also_eq_ok _ _ _).mp read
    obtain ⟨first, fields⟩ := (Checked.both_eq_ok _ _ _ _).mp fields
    obtain ⟨second, fields⟩ := (Checked.both_eq_ok _ _ _ _).mp fields
    obtain ⟨third, fields⟩ := (Checked.both_eq_ok _ _ _ _).mp fields
    obtain ⟨fourth, fifth⟩ := (Checked.both_eq_ok _ _ _ _).mp fields
    exact ⟨first, second, third, fourth, fifth, (Key.unknown_eq_nil_iff _ _).mp named⟩
  next =>
    rintro ⟨first, second, third, fourth, fifth, named⟩
    have named := (Key.unknown_eq_nil_iff _ _).mpr named
    simp only [ofEntries, first, second, third, fourth, fifth, named]
    rfl

theorem ofValue_map_eq_ok_iff (entries : List (Scalar × Value)) (config : Config) :
    ofValue order (.map entries) = .ok config ↔ config.IsReadFrom order entries := by
  rw [ofValue]
  split
  next halved =>
    -- A key with halves of surrogate pairs is none of the fields.
    obtain ⟨entry, member, isHalved⟩ := List.any_eq_true.mp halved
    constructor
    next => intro impossible; cases impossible
    next =>
      intro read
      obtain ⟨name, -, same⟩ := read.named entry member
      rw [same] at isHalved
      cases isHalved
  next => exact ofEntries_eq_ok_iff order entries config

theorem exists_entries_of_accepted (value : Value) (config : Config)
    (accepted : ofValue order value = .ok config) :
    ∃ entries, value = .map entries ∧ config.IsReadFrom order entries := by
  cases value with
  | map entries => exact ⟨entries, rfl, (ofValue_map_eq_ok_iff order entries config).mp accepted⟩
  | _ => cases accepted

variable {order}

theorem IsReadFrom.isKnown {config : Config} {entries : List (Scalar × Value)}
    (read : config.IsReadFrom order entries) (name : String) (member : name ∈ config.encodings) :
    Encoding.IsKnown name :=
  Field.of_withDefault _ _ _ _ (fun names => ∀ name ∈ names, Encoding.IsKnown name)
    Encoding.isKnown_of_default (Field.isKnown_of_encodings order) _ read.encodings name member

theorem isKnown_of_accepted (value : Value) (config : Config)
    (accepted : ofValue order value = .ok config) (name : String)
    (member : name ∈ config.encodings) :
    Encoding.IsKnown name := by
  obtain ⟨entries, -, read⟩ := exists_entries_of_accepted order value config accepted
  exact read.isKnown name member

end Config

-- The octets of a document, when it has any.
def Document.octets? (d : Document) (fileSystem : FileSystem) : Option (List UInt8) :=
  match d.content with
  | .text _ => none
  | .octets octets => some octets
  | .file path => (fileSystem.read path).toOption

theorem Setting.inspect_of_undecoded (s : Setting) (d : Document) (octets : List UInt8)
    (source : d.octets? s.fileSystem = some octets) (abort : Abort)
    (undecoded : s.decode octets = .aborted abort) :
    (s.inspect d).outcome = .error abort := by
  have ends : (s.inspectOctets d.path octets).outcome = .error abort := by
    rw [inspectOctets, undecoded]
    rfl
  unfold Document.octets? at source
  unfold inspect
  cases content : d.content with
  | text text =>
    rw [content] at source
    cases source
  | octets found =>
    rw [content] at source
    cases source
    exact ends
  | file path =>
    rw [content] at source
    cases found : s.fileSystem.read path with
    | ok inside =>
      simp only [found, Except.toOption, Option.some.injEq] at source
      simpa only [found, source] using ends
    | error failure =>
      simp [found, Except.toOption] at source

namespace Config

theorem decodeBy_accepted (order : Field.SetOrder) (value : Value) (config : Config)
    (accepted : ofValue order value = .ok config) :
    (∀ {Text : Type} (ofChars : List Char → Text) (foreign : Encoding.Foreign Text)
      (octets : List UInt8),
      let heard := Encoding.dropMark octets
      let answer := Encoding.answer ofChars foreign
      ((∃ text, Encoding.decodeBy answer config.encodings octets = .text text) ∨
        Encoding.decodeBy answer config.encodings octets =
          .rejected (Encoding.undecodable config.encodings) ∨
        ∃ abort, Encoding.decodeBy answer config.encodings octets = .aborted abort) ∧
      ∀ abort, Encoding.decodeBy answer config.encodings octets = .aborted abort ↔
        heard ≠ [] ∧ ∃ before name after, config.encodings = before ++ name :: after ∧
          (∀ other ∈ before, answer other heard = .ok none) ∧
          Encoding.BreaksOff foreign heard name abort) ∧
    ∀ (s : Setting) (documents : List Document) (d : Document) (octets : List UInt8)
      (abort : Abort),
      s.encodings = config.encodings → d ∈ documents → d.octets? s.fileSystem = some octets →
      s.decode octets = .aborted abort →
      ∃ first, (s.check documents).outcome = .error first := by
  refine ⟨fun ofChars foreign octets => ⟨?_, fun abort => ?_⟩, ?_⟩
  · cases decoded : Encoding.decodeBy (Encoding.answer ofChars foreign) config.encodings octets with
    | text text => exact .inl ⟨text, rfl⟩
    | rejected r =>
      rw [((Encoding.decodeBy_eq_rejected_iff _ _ _ _).mp decoded).1]
      exact .inr (.inl rfl)
    | aborted abort => exact .inr (.inr ⟨abort, rfl⟩)
  · rw [Encoding.decodeBy_eq_aborted_iff, Encoding.firstAccepted_eq_iff _ _ _ (by simp)]
    constructor
    · rintro ⟨before, name, after, whole, refused, ends⟩
      have known : Encoding.IsKnown name :=
        isKnown_of_accepted value config accepted name (by simp [whole])
      obtain ⟨filled, breaks⟩ :=
        (Encoding.answer_eq_error_iff_of_known ofChars foreign name _ abort known).mp ends
      exact ⟨filled, before, name, after, whole, refused, breaks⟩
    · rintro ⟨filled, before, name, after, whole, refused, breaks⟩
      have known : Encoding.IsKnown name :=
        isKnown_of_accepted value config accepted name (by simp [whole])
      exact ⟨before, name, after, whole, refused,
        (Encoding.answer_eq_error_iff_of_known ofChars foreign name _ abort known).mpr
          ⟨filled, breaks⟩⟩
  · intro s documents d octets abort same member source undecoded
    have aborts := s.inspect_of_undecoded d octets source abort undecoded
    exact s.checkFrom_of_error .empty documents d member abort aborts

/-- A configuration may name a transformation, and any file that is not empty then ends the run. -/
theorem decodeBy_accepted_hex :
    let value : Value := .map [(.string "encodings", .list [.scalar (.string "hex")])]
    let s : Setting := { Setting.bare with encodings := ["hex"] }
    ∃ config, ofValue .asWritten value = .ok config ∧ config.encodings = ["hex"] ∧
      s.decode [0x61] = .aborted (.unknownEncoding "hex") ∧
      ∃ first, (s.check [⟨"a.yml", .octets [0x61]⟩]).outcome = .error first := by
  intro value s
  have accepted : ofValue .asWritten value = .ok { default with encodings := ["hex"] } := by rfl
  have found : Encoding.lookup "hex" = some .transformation := by decide +kernel
  obtain ⟨decoding, run⟩ := decodeBy_accepted .asWritten value _ accepted
  have ends : s.decode [0x61] = .aborted (.unknownEncoding "hex") :=
    ((decoding (·.map .char) s.foreign [0x61]).2 _).mpr
      ⟨by simp [Encoding.dropMark], [], "hex", [], rfl, by simp, .inl ⟨found, rfl⟩⟩
  exact ⟨_, accepted, rfl, ends,
    run s _ ⟨"a.yml", .octets [0x61]⟩ [0x61] _ rfl (List.mem_cons_self ..) rfl ends⟩

end Config

end LocaleLint
