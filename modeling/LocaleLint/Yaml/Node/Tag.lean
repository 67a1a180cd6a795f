import LocaleLint.Calendar.Timestamp
import LocaleLint.Text.Lines

set_option autoImplicit false

namespace LocaleLint.Yaml

open LocaleLint.Text

inductive Tag
  | null
  | bool
  | int
  | float
  | binary
  | timestamp
  | orderedMap
  | pairs
  | set
  | str
  | seq
  | map
  | merge
  | value
  | other (name : String)
deriving Repr, DecidableEq, Inhabited

def standardSpace : String := "tag:yaml.org,2002:"

def standardTags : List (String × Tag) :=
  [("null", .null), ("bool", .bool), ("int", .int), ("float", .float), ("binary", .binary),
    ("timestamp", .timestamp), ("omap", .orderedMap), ("pairs", .pairs), ("set", .set),
    ("str", .str), ("seq", .seq), ("map", .map), ("merge", .merge), ("value", .value)]

def Tag.ofName (name : String) : Tag :=
  match standardTags.find? fun entry => standardSpace ++ entry.1 == name with
  | some (_, tag) => tag
  | none => .other name

def Tag.name : Tag → String
  | .other name => name
  | tag =>
      match standardTags.find? fun entry => entry.2 == tag with
      | some (name, _) => standardSpace ++ name
      | none => standardSpace

def isTruthWord (text : String) : Bool :=
  ["yes", "Yes", "YES", "no", "No", "NO", "true", "True", "TRUE", "false", "False", "FALSE",
    "on", "On", "ON", "off", "Off", "OFF"].contains text

def isDigitOrUnderscore (c : Char) : Bool := isAsciiDigit c || c == '_'

def dropSign : List Char → List Char
  | '-' :: rest | '+' :: rest => rest
  | rest => rest

def isDigitRun : List Char → Bool
  | [] => false
  | c :: rest => isAsciiDigit c && rest.all isDigitOrUnderscore

def isSexagesimalPart : List Char → Bool
  | [units] => isAsciiDigit units
  | [tens, units] => decide ('0' ≤ tens) && decide (tens ≤ '5') && isAsciiDigit units
  | _ => false

def isSexagesimal (isHead : List Char → Bool) (text : List Char) : Bool :=
  match splitOn ':' text with
  | head :: part :: parts => isHead head && (part :: parts).all isSexagesimalPart
  | _ => false

def isExponent : List Char → Bool
  | [] => true
  | e :: sign :: digits =>
      (e == 'e' || e == 'E') && (sign == '-' || sign == '+') && !digits.isEmpty &&
        digits.all isAsciiDigit
  | _ => false

def isFraction (text : List Char) : Bool := isExponent (text.dropWhile isDigitOrUnderscore)

def isInfinity (text : List Char) : Bool :=
  [".inf", ".Inf", ".INF"].contains (String.ofList (dropSign text))

def isNotANumber (text : List Char) : Bool := [".nan", ".NaN", ".NAN"].contains (String.ofList text)

def isFloat (text : List Char) : Bool :=
  let unsigned := dropSign text
  let whole := unsigned.takeWhile (· != '.')
  (match unsigned.dropWhile (· != '.') with
    | '.' :: fraction =>
        (isDigitRun whole && isFraction fraction) ||
          (isSexagesimal isDigitRun whole && fraction.all isDigitOrUnderscore)
    | _ => false) ||
    (match text with
      | '.' :: c :: fraction => isAsciiDigit c && isFraction fraction
      | _ => false) ||
    isInfinity text || isNotANumber text

def isPlainWhole : List Char → Bool
  | [] => false
  | c :: rest => isAsciiDigit c && c != '0' && rest.all isDigitOrUnderscore

def isInt (text : List Char) : Bool :=
  match dropSign text with
  | '0' :: 'b' :: bits => !bits.isEmpty && bits.all fun c => c == '0' || c == '1' || c == '_'
  | '0' :: 'x' :: digits => !digits.isEmpty && digits.all fun c => isHexDigit c || c == '_'
  | '0' :: octals => octals.all fun c => (decide ('0' ≤ c) && decide (c ≤ '7')) || c == '_'
  | unsigned => isPlainWhole unsigned || isSexagesimal isPlainWhole unsigned

def isTimestamp (text : List Char) : Bool :=
  ((Calendar.writtenWhole? text).map Calendar.Written.isPlain).getD false

def implicitTag (text : List Char) : Tag :=
  if text.isEmpty then .null
  else
    -- A line feed at the end does not matter.
    let core := Calendar.dropFinalLineFeed text
    let word := String.ofList core
    if isTruthWord word then .bool
    else if isFloat core then .float
    else if isInt core then .int
    else if word = "<<" then .merge
    else if word = "~" ∨ word = "null" ∨ word = "Null" ∨ word = "NULL" then .null
    else if isTimestamp core then .timestamp
    else if word = "=" then .value
    else if word = "!" ∨ word = "&" ∨ word = "*" then .other (standardSpace ++ "yaml")
    else .str

end LocaleLint.Yaml
