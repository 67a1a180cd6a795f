import LocaleLint.Yaml.Fault
import LocaleLint.Text.DecimalDigit

set_option autoImplicit false

namespace LocaleLint.Yaml

open LocaleLint.Text

abbrev Scan := StateT Cursor (Except Stop)

def isBlankOrBreak (c : Char) : Bool := c == '\x00' || c == ' ' || c == '\t' || isBreak c

def isBreakOrEnd (c : Char) : Bool := c == '\x00' || isBreak c

def isSpaceOrBreakOrEnd (c : Char) : Bool := c == '\x00' || c == ' ' || isBreak c

def isNameChar (c : Char) : Bool :=
  (decide ('0' ≤ c) && decide (c ≤ '9')) || (decide ('A' ≤ c) && decide (c ≤ 'Z')) ||
    (decide ('a' ≤ c) && decide (c ≤ 'z')) || c == '-' || c == '_'

namespace Scan

def place : Scan Position := return (← get).place

def peek : Scan Char := return (← get).peek

def peekAt (offset : Nat) : Scan Char := return (← get).peekAt offset

def skip (count : Nat) : Scan Unit := modify (Cursor.skip count)

def skipWhile (keep : Char → Bool) : Scan Unit := modify (Cursor.skipWhile keep)

def takeWhile (keep : Char → Bool) : Scan (List Char) := do
  let cursor ← get
  set (cursor.skipWhile keep)
  return cursor.rest.takeWhile keep

def take (count : Nat) : Scan (List Char) := do
  let cursor ← get
  set (cursor.skip count)
  return cursor.rest.take count

def remaining : Scan Nat := return (← get).remaining

def breakdown {α : Type} (b : Breakdown) : Scan α := throw (.breakdown b)

def fail {α : Type} (activity : Activity) (since : Position) (cause : Cause) : Scan α := do
  throw (.fault ⟨some activity, some since, cause, ← place⟩)

def demand (holds : Bool) (activity : Activity) (since : Position) (cause : Cause) : Scan Unit :=
  if holds then return () else fail activity since cause

-- Every line end reads as a line feed, the line and the paragraph separator as themselves.
def lineBreak : Scan (Option Char) := do
  let c ← peek
  if c == '\r' && (← peekAt 1) == '\n' then
    skip 2
    return some '\n'
  else if c == '\r' || c == '\n' || c == '\x85' then
    skip 1
    return some '\n'
  else if isBreak c then
    skip 1
    return some c
  else return none

def skipComment : Scan Unit := do
  if (← peek) == '#' then skipWhile fun c => !isBreakOrEnd c

def atMarker (mark : Char) (cursor : Cursor) : Bool :=
  cursor.startsWith [mark, mark, mark] && isBlankOrBreak (cursor.peekAt 3)

def atDocumentMarker : Scan Bool := do
  let cursor ← get
  return atMarker '-' cursor || atMarker '.' cursor

end Scan

end LocaleLint.Yaml
