import LocaleLint.Yaml.Token.Directive
import LocaleLint.Yaml.Token.Quoted

set_option autoImplicit false

namespace LocaleLint.Yaml.Scan

open LocaleLint.Text

inductive Chomping
  | clip
  | strip
  | keep
deriving Repr, DecidableEq

def chompingOf : Char → Option Chomping
  | '+' => some .keep
  | '-' => some .strip
  | _ => none

def chompingIndicator : Scan (Option Chomping) := do
  let c ← peek
  match chompingOf c with
  | some chomping =>
      skip 1
      return some chomping
  | none => return none

def indentationIndicator (since : Position) : Scan (Option Nat) := do
  let c ← peek
  if isAsciiDigit c then
    demand (c != '0') .blockScalar since .indentationZero
    skip 1
    return some (c.toNat - '0'.toNat)
  else return none

def lateChomping (early : Option Chomping) (increment : Option Nat) : Scan (Option Chomping) :=
  if early.isNone && increment.isSome then chompingIndicator else return none

def blockHeader (since : Position) : Scan (Chomping × Option Nat) := do
  let early ← chompingIndicator
  let increment ← indentationIndicator since
  let late ← lateChomping early increment
  let next ← peek
  demand (isSpaceOrBreakOrEnd next) .blockScalar since (.blockHeaderExpected next)
  return ((early.or late).getD .clip, increment)

-- Blank lines before the text; the deepest column a blank reaches is the indentation.
def leadingBlanks (deepest : Nat) : Nat → Scan (List Char × Nat)
  | 0 => return ([], deepest)
  | fuel + 1 => do
      if (← peek) == ' ' then
        skip 1
        leadingBlanks (max deepest (← place).column) fuel
      else
        match ← lineBreak with
        | some c =>
            let (breaks, deepest) ← leadingBlanks deepest fuel
            return (c :: breaks, deepest)
        | none => return ([], deepest)

def skipIndentation (indent : Nat) : Nat → Scan Unit
  | 0 => return ()
  | fuel + 1 => do
      if (← place).column < indent && (← peek) == ' ' then
        skip 1
        skipIndentation indent fuel

def blockBreaks (indent : Nat) : Nat → Scan (List Char)
  | 0 => return []
  | fuel + 1 => do
      skipIndentation indent indent
      match ← lineBreak with
      | some c => return c :: (← blockBreaks indent fuel)
      | none => return []

def atBlockLine (indent : Nat) : Scan Bool := do
  return (← place).column == indent && (← peek) != '\x00'

def isBlank (c : Char) : Bool := c == ' ' || c == '\t'

def lineJoin (fold : Bool) (lineEnd : List Char) (breaks : List Char) : List Char :=
  if fold && lineEnd == ['\n'] then (if breaks.isEmpty then [' '] else []) else lineEnd

def chomped : Chomping → List Char → List Char → List Char
  | .clip, lineEnd, _ => lineEnd
  | .strip, _, _ => []
  | .keep, lineEnd, breaks => lineEnd ++ breaks

def blockLines (foldLines : Bool) (chomping : Chomping) (indent : Nat) : Nat → Scan (List Char)
  | 0 => return []
  | fuel + 1 => do
      let startsBlank := isBlank (← peek)
      let line ← takeWhile fun c => !isBreakOrEnd c
      let lineEnd := (← lineBreak).toList
      let breaks ← blockBreaks indent (← remaining)
      if ← atBlockLine indent then
        let fold := foldLines && !startsBlank && !isBlank (← peek)
        let rest ← blockLines foldLines chomping indent fuel
        return line ++ lineJoin fold lineEnd breaks ++ breaks ++ rest
      else return line ++ chomped chomping lineEnd breaks

def blockLeading (least : Nat) : Option Nat → Scan (List Char × Nat)
  | none => do
      let (breaks, deepest) ← leadingBlanks 0 (← remaining)
      return (breaks, max least deepest)
  | some increment => do
      let indent := least + increment - 1
      return (← blockBreaks indent (← remaining), indent)

def blockText (foldLines : Bool) (chomping : Chomping) (leading : List Char) (indent : Nat) :
    Scan (List Char) := do
  if ← atBlockLine indent then
    return leading ++ (← blockLines foldLines chomping indent (← remaining))
  else return chomped chomping [] leading

def blockToken (foldLines : Bool) (outer : Int) : Scan Token := do
  let start ← place
  skip 1
  let (chomping, increment) ← blockHeader start
  restOfLine .blockScalar start
  let (leading, indent) ← blockLeading (max 1 (outer + 1).toNat) increment
  let text ← blockText foldLines chomping leading indent
  return ⟨.scalar (text.map .char) false, start, ← place⟩

end LocaleLint.Yaml.Scan
