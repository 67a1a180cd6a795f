import LocaleLint.Record.Field
import LocaleLint.Record.Key
import LocaleLint.Encoding.Decode
import LocaleLint.Extension

set_option autoImplicit false

namespace LocaleLint

open LocaleLint.Yaml

open LocaleLint.Text (CodePoint)

/-- A directory and an extension may be spelled with halves of surrogate pairs; they name no file
then. -/
structure Config where
  langDir : List CodePoint
  extensions : List (List CodePoint)
  encodings : List String
  throwParseException : Bool
  ciMode : Bool
deriving Repr, DecidableEq, Inhabited

-- Why an encoding cannot be looked up.
def Encoding.unknown? (name : String) : Option Defect :=
  if name.toList.contains '\x00' then some .nulInEncoding
  else if (lookup name).isNone then some (.unknownEncoding name)
  else none

namespace Field

def nonEmptyTexts (order : SetOrder) (value : Value) : Checked (List (List CodePoint)) :=
  match texts order value with
  | .error issues => .error issues
  | .ok [] => .error [⟨[], .emptyList⟩]
  | .ok found => .ok found

def extensions (order : SetOrder) (value : Value) : Checked (List (List CodePoint)) :=
  (nonEmptyTexts order value).map (·.map Extension.barePoints)

-- A name with halves of surrogate pairs is not even looked up.
def unknownEncoding? (name : List CodePoint) : Option Defect :=
  ((CodePoint.firstUnencodable (!·.isHalf) name).map .surrogatesInEncoding).or
    ((CodePoint.whole? name).bind fun chars => Encoding.unknown? (String.ofList chars))

def encodings (order : SetOrder) (value : Value) : Checked (List String) :=
  match nonEmptyTexts order value with
  | .error issues => .error issues
  | .ok names =>
      match names.findSome? unknownEncoding? with
      | some defect => .error [⟨[], defect⟩]
      | none => .ok (names.filterMap CodePoint.text?)

end Field

namespace Config

def default : Config :=
  ⟨CodePoint.ofString "resources/lang", Extension.defaults.map CodePoint.ofString,
    Encoding.defaults, false, false⟩

def fieldNames : List String :=
  ["lang_dir", "extensions", "encodings", "throw_parse_exception", "ci_mode"]

def recordName : String := "ProjectConfig"

def ofEntries (order : Field.SetOrder) (entries : List (Scalar × Value)) : Checked Config :=
  let truth (name : String) (standard : Bool) : Checked Bool :=
    Field.withDefault entries name standard fun value => Checked.ofDefect (Field.truth value)
  let langDir := Field.withDefault entries "lang_dir" default.langDir fun value =>
    Checked.ofDefect (Field.points value)
  let extensions :=
    Field.withDefault entries "extensions" default.extensions (Field.extensions order)
  let encodings := Field.withDefault entries "encodings" default.encodings (Field.encodings order)
  let throwing := truth "throw_parse_exception" default.throwParseException
  let ciMode := truth "ci_mode" default.ciMode
  let fields := Checked.both langDir (.both extensions (.both encodings (.both throwing ciMode)))
  (Checked.also fields (Key.unknown fieldNames entries)).map
    fun (langDir, extensions, encodings, throwing, ciMode) =>
      ⟨langDir, extensions, encodings, throwing, ciMode⟩

-- A key with halves of surrogate pairs spoils the whole record.
def ofValue (order : Field.SetOrder) : Value → Checked Config
  | .map entries =>
      if entries.any (·.1.isHalved) then .error [⟨[], .notUnicode⟩] else ofEntries order entries
  | _ => .error [⟨[], .notARecord recordName⟩]

-- The mapping that a configuration is read from.
def toValue (config : Config) : Value :=
  let texts (items : List Scalar) : Value := .list (items.map .scalar)
  .map
    [(.string "lang_dir", .scalar (.ofPoints config.langDir)),
      (.string "extensions", texts (config.extensions.map .ofPoints)),
      (.string "encodings", texts (config.encodings.map .string)),
      (.string "throw_parse_exception", .scalar (.bool config.throwParseException)),
      (.string "ci_mode", .scalar (.bool config.ciMode))]

end Config

end LocaleLint
