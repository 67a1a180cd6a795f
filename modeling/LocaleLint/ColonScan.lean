import LocaleLint.Text.Lines
import LocaleLint.Text.Space
import LocaleLint.Text.DecimalDigit
import LocaleLint.Rejection

set_option autoImplicit false

namespace LocaleLint.ColonScan

open LocaleLint.Text

def firstLine? : List Char → Option (List Char × List Char)
  | [] => none
  | c :: rest =>
      if c = '\n' then some ([], rest)
      else (firstLine? rest).map fun (line, after) => (c :: line, after)

theorem firstLine?_eq (text line after : List Char) (h : firstLine? text = some (line, after)) :
    text = line ++ '\n' :: after := by
  induction text generalizing line after with
  | nil => simp [firstLine?] at h
  | cons c rest ih =>
      simp only [firstLine?] at h
      split at h
      · next hc =>
        cases h
        simp [hc]
      · obtain ⟨found, hfound, same⟩ := Option.map_eq_some_iff.mp h
        cases same
        simp [← ih found.1 found.2 hfound]

theorem firstLine?_length (text line after : List Char) (h : firstLine? text = some (line, after)) :
    after.length < text.length := by
  have := congrArg List.length (firstLine?_eq text line after h)
  simp only [List.length_append, List.length_cons] at this
  omega

def isVersionLine (line : List Char) : Bool :=
  "%YAML".toList.isPrefixOf line &&
    match line.drop 5 with
    | separator :: c :: _ => (separator == ':' || separator == ' ') && (isDecimal c || c == '.')
    | _ => false

def isCommentLine (line : List Char) : Bool := line.head? == some '#'

def isStartLine (line : List Char) : Bool := "---".toList.isPrefixOf line

def dropLineIf (drops : List Char → Bool) (text : List Char) : List Char × Nat :=
  match firstLine? text with
  | some (line, after) => if drops line then (after, 1) else (text, 0)
  | none => (text, 0)

def dropLinesWhile (drops : List Char → Bool) (text : List Char) : List Char × Nat :=
  match _found : firstLine? text with
  | some (line, after) =>
      if drops line then
        let (rest, count) := dropLinesWhile drops after
        (rest, count + 1)
      else (text, 0)
  | none => (text, 0)
termination_by text.length
decreasing_by exact firstLine?_length _ _ _ _found

def isEndMarker (text : List Char) : Bool :=
  "...".toList.isPrefixOf text && (text.drop 3).all isSpace

def dropEndMarker : List Char → List Char
  | [] => []
  | c :: rest => if isEndMarker (c :: rest) then [] else c :: dropEndMarker rest

structure Normalized where
  text : List Char
  -- How many lines were taken off the front.
  offset : Nat
deriving Repr, DecidableEq, Inhabited

def normalize (source : List Char) : Normalized :=
  let (text, version) := dropLineIf isVersionLine (unifyLineEnds source)
  let (text, comments) := dropLinesWhile isCommentLine text
  let (text, start) := dropLineIf isStartLine text
  ⟨if start = 0 then text else dropEndMarker text, version + comments + start⟩

def isScanBlank (c : Char) : Bool :=
  c == ' ' || c == '\t' || c == '\n' || c == '\r' || c == '\x00' || c == '\x0b'

def mayFollowColon (c : Char) : Bool := c == ' ' || c == '\x00' || c == '\n'

def spaceFollowsColon (line : List Char) : Bool :=
  (line.dropWhile isScanBlank).head? == some ':' ||
    match line.dropWhile (· != ':') with
    | _ :: following :: _ => mayFollowColon following
    | _ => true

def colonIndex (line : List Char) : Nat := (line.takeWhile (· != ':')).length

def message : String := "No space after colon"

theorem message_ne : message ≠ "" := by decide

def firstBadLine : List (List Char) → Nat → Option (Nat × List Char)
  | [], _ => none
  | line :: rest, index =>
      if spaceFollowsColon line then firstBadLine rest (index + 1) else some (index, line)

def check (source : String) (filename : Option String) : Option Rejection :=
  let normalized := normalize source.toList
  (firstBadLine (linesOf normalized.text) 0).map fun (index, line) =>
    { category := .colonSpacing
      message := message
      line := some (normalized.offset + index + 1 : Nat)
      column := some (colonIndex line + 2 : Nat)
      filename := filename
      snippet := some (String.ofList line)
      message_ne := message_ne }

end LocaleLint.ColonScan
