import LocaleLint.Encoding.Names
import LocaleLint.Encoding.Utf8
import LocaleLint.Encoding.Utf16
import LocaleLint.Encoding.Utf32
import LocaleLint.Encoding.SingleByte
import LocaleLint.Abort
import LocaleLint.Rejection

set_option autoImplicit false

namespace LocaleLint.Encoding

def Codec.decode? : Codec → List UInt8 → Option (List Char)
  | .utf8, octets => (Utf8.decode octets).toOption
  | .utf8Marked, octets =>
      match octets with
      | 0xef :: 0xbb :: 0xbf :: rest => (Utf8.decode rest).toOption
      | octets => (Utf8.decode octets).toOption
  | .utf16, octets => Utf16.decodeMarked octets
  | .utf16Little, octets => Utf16.decode false octets
  | .utf16Big, octets => Utf16.decode true octets
  | .utf32, octets => Utf32.decodeMarked octets
  | .utf32Little, octets => Utf32.decode false octets
  | .utf32Big, octets => Utf32.decode true octets
  | .latin1, octets => some (octets.map SingleByte.latin1)
  | .windows1252, octets => octets.mapM SingleByte.windows1252?
  | .ascii, octets => octets.mapM SingleByte.ascii?
  | .undefined, _ | .foreign, _ | .transformation, _ => none

abbrev Answer (Text : Type) := Except Abort (Option Text)

abbrev Foreign (Text : Type) := String → List UInt8 → Answer Text

-- A candidate by its name. The answers of foreign encodings are given, since their texts may hold
-- what no `Char` is.
def answer {Text : Type} (ofChars : List Char → Text) (foreign : Foreign Text) (name : String)
    (octets : List UInt8) : Answer Text :=
  if name.toList.contains '\x00' then .error .nulInEncoding
  else if octets.isEmpty then .ok (some (ofChars []))
  else
    match lookup name with
    | none | some .transformation => .error (.unknownEncoding name)
    | some .undefined => .error .undefinedEncoding
    | some .foreign => foreign name octets
    | some codec => .ok ((codec.decode? octets).map ofChars)

def firstAccepted {Text : Type} (answer : String → Answer Text) : List String → Answer Text
  | [] => .ok none
  | name :: rest =>
      match answer name with
      | .error abort => .error abort
      | .ok (some text) => .ok (some text)
      | .ok none => firstAccepted answer rest

def dropMark : List UInt8 → List UInt8
  | 0xef :: 0xbb :: 0xbf :: rest => rest
  | octets => octets

def defaults : List String := ["utf-8", "iso-8859-1"]

def undecodable (encodings : List String) : Rejection :=
  { category := .undecodable
    message := "Unable to decode file using any of: " ++ ", ".intercalate encodings
    line := none
    column := none
    filename := some anonymous
    snippet := none
    message_ne := by
      intro h
      have := congrArg String.length h
      simp [String.length_append] at this }

inductive Decoded (Text : Type)
  | text (text : Text)
  | rejected (rejection : Rejection)
  | aborted (abort : Abort)

def decodeBy {Text : Type} (answer : String → List UInt8 → Answer Text) (encodings : List String)
    (octets : List UInt8) : Decoded Text :=
  match firstAccepted (answer · (dropMark octets)) encodings with
  | .error abort => .aborted abort
  | .ok (some text) => .text text
  | .ok none => .rejected (undecodable encodings)

end LocaleLint.Encoding
