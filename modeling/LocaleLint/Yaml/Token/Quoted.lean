import LocaleLint.Yaml.Token.Scan
import LocaleLint.Text.DecimalDigit

set_option autoImplicit false

namespace LocaleLint.Yaml.Scan

open LocaleLint.Text

def simpleEscape : Char → Option Char
  | '0' => some '\x00'
  | 'a' => some '\x07'
  | 'b' => some '\x08'
  | 't' => some '\x09'
  | '\t' => some '\x09'
  | 'n' => some '\x0a'
  | 'v' => some '\x0b'
  | 'f' => some '\x0c'
  | 'r' => some '\x0d'
  | 'e' => some '\x1b'
  | ' ' => some ' '
  | '"' => some '"'
  | '\\' => some '\\'
  | '/' => some '/'
  | 'N' => some '\x85'
  | '_' => some '\xa0'
  | 'L' => some '\u2028'
  | 'P' => some '\u2029'
  | _ => none

def escapeWidth : Char → Option Nat
  | 'x' => some 2
  | 'u' => some 4
  | 'U' => some 8
  | _ => none

def codeEscape (since : Position) (width : Nat) : Scan CodePoint := do
  let cursor ← get
  let digits := (List.range width).map cursor.peekAt
  match digits.find? fun c => !isHexDigit c with
  | some found => fail .doubleQuotedScalar since (.hexExpected width found)
  | none =>
      let code := hexNumber digits
      if 0x7fffffff < code then breakdown .codePointTooLarge
      else if 0x10ffff < code then breakdown .codePointBeyondUnicode
      else
        skip width
        return .ofCode code

def quotedBreaks (since : Position) : Nat → Scan (List Char)
  | 0 => return []
  | fuel + 1 => do
      demand (!(← atDocumentMarker)) .quotedScalar since .unexpectedSeparator
      skipWhile fun c => c == ' ' || c == '\t'
      match ← lineBreak with
      | some c => return c :: (← quotedBreaks since fuel)
      | none => return []

def escape (since : Position) : Scan (List CodePoint) := do
  let c ← peek
  match simpleEscape c, escapeWidth c with
  | some meant, _ =>
      skip 1
      return [.char meant]
  | none, some width =>
      skip 1
      return [← codeEscape since width]
  | none, none =>
      if (← lineBreak).isSome then return (← quotedBreaks since (← remaining)).map .char
      else fail .doubleQuotedScalar since (.unknownEscape c)

def isQuotedOrdinary (c : Char) : Bool :=
  !(isBlankOrBreak c || c == '\'' || c == '"' || c == '\\')

def quotedWord (double : Bool) (since : Position) : Nat → Scan (List CodePoint)
  | 0 => return []
  | fuel + 1 => do
      let run := (← takeWhile isQuotedOrdinary).map CodePoint.char
      let c ← peek
      if !double && c == '\'' && (← peekAt 1) == '\'' then
        skip 2
        return run ++ .char '\'' :: (← quotedWord double since fuel)
      else if (double && c == '\'') || (!double && (c == '"' || c == '\\')) then
        skip 1
        return run ++ .char c :: (← quotedWord double since fuel)
      else if double && c == '\\' then
        skip 1
        let meant ← escape since
        return run ++ meant ++ (← quotedWord double since fuel)
      else return run

def folded (first : Char) (breaks : List Char) : List Char :=
  if first != '\n' then first :: breaks
  else if breaks.isEmpty then [' ']
  else breaks

def quotedGap (since : Position) : Scan (List Char) := do
  let blanks ← takeWhile fun c => c == ' ' || c == '\t'
  demand ((← peek) != '\x00') .quotedScalar since .unexpectedEnd
  match ← lineBreak with
  | some first => return folded first (← quotedBreaks since (← remaining))
  | none => return blanks

def quote (double : Bool) : Char := if double then '"' else '\''

-- The words after the first gap, each with the gap before it, and the closing quote.
def quotedRest (double : Bool) (since : Position) : Nat → Scan (List CodePoint)
  | 0 => return []
  | fuel + 1 => do
      if (← peek) == quote double then
        skip 1
        return []
      else
        let gap ← quotedGap since
        let word ← quotedWord double since (← remaining)
        return gap.map .char ++ word ++ (← quotedRest double since fuel)

def quotedToken (double : Bool) : Scan Token := do
  let start ← place
  skip 1
  let word ← quotedWord double start (← remaining)
  let rest ← quotedRest double start (← remaining)
  return ⟨.scalar (word ++ rest) false, start, ← place⟩

end LocaleLint.Yaml.Scan
