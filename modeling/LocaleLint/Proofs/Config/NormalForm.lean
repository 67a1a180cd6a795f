import Mathlib.Data.List.TakeWhile
import LocaleLint.Config.Project
import LocaleLint.Proofs.Config.Encodings

set_option autoImplicit false

namespace LocaleLint

open LocaleLint.Yaml

open LocaleLint.Text (CodePoint)

namespace Text.CodePoint

theorem firstUnencodable_eq_none_iff (canWrite : CodePoint → Bool) (points : List CodePoint) :
    firstUnencodable canWrite points = none ↔ ∀ point ∈ points, canWrite point = true := by
  have rest : points.drop (points.takeWhile canWrite).length = points.dropWhile canWrite := by
    have whole := congrArg (List.drop (points.takeWhile canWrite).length)
      (List.takeWhile_append_dropWhile (p := canWrite) (l := points))
    rw [List.drop_left] at whole
    exact whole.symm
  rw [firstUnencodable, rest, ← List.dropWhile_eq_nil_iff]
  cases points.dropWhile canWrite <;> simp

theorem exists_whole (points : List CodePoint)
    (encodable : ∀ point ∈ points, point.isHalf = false) :
    ∃ text, whole? points = some text := by
  induction points with
  | nil => exact ⟨[], rfl⟩
  | cons point rest ih =>
    obtain ⟨text, whole⟩ := ih fun other member => encodable other (List.mem_cons_of_mem _ member)
    cases point with
    | char c => exact ⟨c :: text, by rw [whole?, whole]; rfl⟩
    | half code => exact absurd (encodable _ (List.mem_cons_self ..)) (by simp [isHalf])

end Text.CodePoint

namespace Extension

theorem head?_barePoints (extension : List CodePoint) :
    (barePoints extension).head? ≠ some (.char '.') := by
  intro point
  have stops := List.head?_dropWhile_not (· == CodePoint.char '.') extension
  rw [show extension.dropWhile (· == .char '.') = barePoints extension from rfl, point] at stops
  simp at stops

theorem barePoints_eq_self (extension : List CodePoint)
    (plain : extension.head? ≠ some (.char '.')) : barePoints extension = extension := by
  cases extension with
  | nil => rfl
  | cons c rest =>
    have other : (c == CodePoint.char '.') = false := by simpa using plain
    simp [barePoints, other]

end Extension

namespace Field

variable (order : SetOrder)

theorem nonEmptyTexts_textList (names : List (List CodePoint)) (some : names ≠ []) :
    nonEmptyTexts order (textList names) = .ok names :=
  (nonEmptyTexts_eq_ok_iff order _ _).mpr ⟨texts_textList order names, some⟩

theorem of_extensions (value : Value) (found : List (List CodePoint))
    (read : extensions order value = .ok found) :
    found ≠ [] ∧ ∀ extension ∈ found, extension.head? ≠ some (.char '.') := by
  obtain ⟨names, listed, rfl⟩ := Checked.of_map_eq_ok _ _ _ read
  have some := ((nonEmptyTexts_eq_ok_iff order _ _).mp listed).2
  refine ⟨by simpa using some, ?_⟩
  intro extension member
  obtain ⟨name, -, rfl⟩ := List.mem_map.mp member
  exact Extension.head?_barePoints name

theorem extensions_textList (names : List (List CodePoint)) (some : names ≠ [])
    (plain : ∀ name ∈ names, name.head? ≠ Option.some (.char '.')) :
    extensions order (textList names) = .ok names := by
  rw [extensions, nonEmptyTexts_textList order names some]
  change Except.ok (names.map Extension.barePoints) = _
  rw [List.map_congr_left fun name member => Extension.barePoints_eq_self name (plain name member),
    List.map_id']

theorem unknownEncoding?_ofString (name : String) (known : Encoding.IsKnown name) :
    unknownEncoding? (CodePoint.ofString name) = none := by
  have encodable : CodePoint.firstUnencodable (!·.isHalf) (CodePoint.ofString name) = none := by
    rw [CodePoint.firstUnencodable_eq_none_iff]
    intro point member
    obtain ⟨c, -, rfl⟩ := List.mem_map.mp member
    rfl
  have whole : CodePoint.whole? (CodePoint.ofString name) = some name.toList :=
    CodePoint.whole?_map_char _
  simp [unknownEncoding?, encodable, whole, (Encoding.unknown?_eq_none_iff name).mpr known]

theorem ne_nil_of_encodings (value : Value) (names : List String)
    (read : Field.encodings order value = .ok names) : names ≠ [] := by
  unfold Field.encodings at read
  split at read
  next => cases read
  next found listed =>
    split at read
    next => cases read
    next passed =>
      cases read
      have some := ((nonEmptyTexts_eq_ok_iff order _ _).mp listed).2
      obtain ⟨first, rest, rfl⟩ := List.exists_cons_of_ne_nil some
      have known := List.findSome?_eq_none_iff.mp passed first (List.mem_cons_self ..)
      have encodable := Option.map_eq_none_iff.mp (Option.or_eq_none_iff.mp known).1
      rw [CodePoint.firstUnencodable_eq_none_iff] at encodable
      obtain ⟨text, whole⟩ := CodePoint.exists_whole first fun point member => by
        simpa using encodable point member
      have spelled : CodePoint.text? first = Option.some (String.ofList text) := by
        rw [CodePoint.text?, whole]
        rfl
      simp [spelled]

theorem encodings_textList (names : List String) (some : names ≠ [])
    (known : ∀ name ∈ names, Encoding.IsKnown name) :
    Field.encodings order (textList (names.map CodePoint.ofString)) = .ok names := by
  have passed : (names.map CodePoint.ofString).findSome? unknownEncoding? = none := by
    rw [List.findSome?_eq_none_iff]
    intro points member
    obtain ⟨name, inside, rfl⟩ := List.mem_map.mp member
    exact unknownEncoding?_ofString name (known name inside)
  have spelled : (names.map CodePoint.ofString).filterMap CodePoint.text? = names := by
    have each (name : String) : CodePoint.text? (CodePoint.ofString name) = Option.some name := by
      simp [CodePoint.text?, CodePoint.ofString, CodePoint.whole?_map_char]
    rw [List.filterMap_map]
    simp [each]
  rw [Field.encodings, nonEmptyTexts_textList order _ (by simpa using some)]
  simp only [passed, spelled]

end Field

namespace Config

/-- At least one extension and one encoding, no point in front of an extension, every encoding
known. -/
structure IsNormal (config : Config) : Prop where
  extensions_ne : config.extensions ≠ []
  bare : ∀ extension ∈ config.extensions, extension.head? ≠ some (.char '.')
  encodings_ne : config.encodings ≠ []
  known : ∀ name ∈ config.encodings, Encoding.IsKnown name

theorem isNormal_default : default.IsNormal where
  extensions_ne := by decide
  bare := by decide
  encodings_ne := by decide
  known := Encoding.isKnown_of_default

variable {order : Field.SetOrder}

theorem IsReadFrom.isNormal {config : Config} {entries : List (Scalar × Value)}
    (read : config.IsReadFrom order entries) : config.IsNormal := by
  have extensions := Field.of_withDefault _ _ _ _ (fun names => names ≠ [] ∧
    ∀ extension ∈ names, extension.head? ≠ some (.char '.'))
    ⟨isNormal_default.extensions_ne, isNormal_default.bare⟩ (Field.of_extensions order) _
      read.extensions
  have encodings := Field.of_withDefault _ _ _ _ (· ≠ []) isNormal_default.encodings_ne
    (Field.ne_nil_of_encodings order) _ read.encodings
  exact ⟨extensions.1, extensions.2, encodings, read.isKnown⟩

theorem isNormal_of_accepted (value : Value) (config : Config)
    (accepted : ofValue order value = .ok config) : config.IsNormal := by
  obtain ⟨entries, -, read⟩ := exists_entries_of_accepted order value config accepted
  exact read.isNormal

-- The fields of a configuration, as the entries of a mapping.
def entries (config : Config) : List (Scalar × Value) :=
  [(.string "lang_dir", .scalar (.ofPoints config.langDir)),
    (.string "extensions", Field.textList config.extensions),
    (.string "encodings", Field.textList (config.encodings.map CodePoint.ofString)),
    (.string "throw_parse_exception", .scalar (.bool config.throwParseException)),
    (.string "ci_mode", .scalar (.bool config.ciMode))]

theorem toValue_eq (config : Config) : config.toValue = .map config.entries := by
  have spelled (name : String) : Scalar.ofPoints (CodePoint.ofString name) = .string name := by
    rw [CodePoint.ofString, Scalar.ofPoints_map_char, String.ofList_toList]
  simp [toValue, entries, Field.textList, spelled, Function.comp_def]

theorem map_fst_entries (config : Config) : config.entries.map (·.1) = fieldNames.map .string := rfl

/-- The order of the entries does not matter, because their keys are distinct. -/
theorem IsNormal.isReadFrom {config : Config} (normal : config.IsNormal)
    (entries : List (Scalar × Value)) (same : entries.Perm config.entries) :
    config.IsReadFrom order entries := by
  have keys : (entries.map (·.1)).Perm (fieldNames.map .string) :=
    config.map_fst_entries ▸ same.map (·.1)
  have distinct : (entries.map (·.1)).Nodup := keys.nodup_iff.mpr (by decide)
  have given {α : Type} (name : String) (value : Value)
    (listed : (.string name, value) ∈ config.entries)
      (standard : α) (read : Value → Checked α) (a : α) (reads : read value = .ok a) :
      Field.withDefault entries name standard read = .ok a :=
    Field.withDefault_of_mem entries name standard read value a distinct
      (same.mem_iff.mpr listed) reads
  constructor
  case langDir =>
    have reads := congrArg Checked.ofDefect (Field.points_ofPoints config.langDir)
    exact given _ (.scalar (.ofPoints config.langDir)) (by simp [Config.entries]) _ _ _ reads
  case extensions =>
    have reads := Field.extensions_textList order config.extensions normal.extensions_ne normal.bare
    exact given _ (Field.textList config.extensions) (by simp [Config.entries]) _ _ _ reads
  case encodings =>
    have reads := Field.encodings_textList order config.encodings normal.encodings_ne normal.known
    exact given _ (Field.textList (config.encodings.map CodePoint.ofString))
      (by simp [Config.entries]) _ _ _ reads
  case throwing =>
    exact given _ (.scalar (.bool config.throwParseException)) (by simp [Config.entries]) _ _ _ rfl
  case ciMode =>
    exact given _ (.scalar (.bool config.ciMode)) (by simp [Config.entries]) _ _ _ rfl
  case named =>
    intro entry listed
    have key := keys.mem_iff.mp (List.mem_map_of_mem listed)
    obtain ⟨name, field, spelled⟩ := List.mem_map.mp key
    exact ⟨name, field, spelled.symm⟩

/-- The configurations of that form are those that are read back from their own fields. -/
theorem isNormal_iff (order : Field.SetOrder) (config : Config) :
    config.IsNormal ↔ ofValue order config.toValue = .ok config := by
  rw [toValue_eq, ofValue_map_eq_ok_iff]
  exact ⟨fun normal => normal.isReadFrom _ (.refl _), fun read => read.isNormal⟩

theorem ofValue_isNormal (order : Field.SetOrder) :
    (∀ value config, ofValue order value = .ok config → config.IsNormal ∧
      ofValue order config.toValue = .ok config ∧
      ∀ again : List (Scalar × Value), again.Perm config.entries →
        ofValue order (.map again) = .ok config) ∧
    ∀ (entries : List (Scalar × Value)) (key : Scalar), key ∈ entries.map (·.1) →
      (∀ name ∈ fieldNames, key ≠ .string name) →
        ∃ issues, ofValue order (.map entries) = .error issues := by
  constructor
  next =>
    intro value config accepted
    have normal := isNormal_of_accepted value config accepted
    refine ⟨normal, (isNormal_iff order config).mp normal, ?_⟩
    intro again same
    exact (ofValue_map_eq_ok_iff order again config).mpr (normal.isReadFrom again same)
  next =>
    intro entries key member foreign
    cases accepted : ofValue order (.map entries) with
    | error issues => exact ⟨issues, rfl⟩
    | ok config =>
      obtain ⟨entry, listed, rfl⟩ := List.mem_map.mp member
      have read := (ofValue_map_eq_ok_iff order entries config).mp accepted
      obtain ⟨name, field, spelled⟩ := read.named entry listed
      exact absurd spelled (foreign name field)

/-- Points go whatever the value that lists the extensions, names of encodings stay as they are
spelled, and the entries may come back in another order. -/
theorem ofValue_isNormal_dotted :
    let given : Value := .map [(.string "extensions", .set [.string "..yml", .string "."]),
      (.string "encodings", .list [.scalar (.bytes [0x55, 0x38]), .scalar (.string "Latin 1")]),
      (.string "ci_mode", .scalar (.string "Yes"))]
    let config : Config := ⟨CodePoint.ofString "resources/lang", [CodePoint.ofString "yml", []],
      ["U8", "Latin 1"], false, true⟩
    ofValue .asWritten given = .ok config ∧ config.IsNormal ∧
      ofValue .asWritten (.map config.entries.reverse) = .ok config ∧
      ∃ issues, ofValue .asWritten (.map ((.null, .scalar .null) :: config.entries)) =
        .error issues := by
  intro given config
  have accepted : ofValue .asWritten given = .ok config := by rfl
  obtain ⟨normal, -, again⟩ := (ofValue_isNormal .asWritten).1 given config accepted
  refine ⟨accepted, normal, again _ config.entries.reverse_perm, ?_⟩
  exact (ofValue_isNormal .asWritten).2 _ .null (by simp) (by simp)

end Config

end LocaleLint
