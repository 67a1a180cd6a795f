import LocaleLint.Console.Width
import LocaleLint.Text.Lines

set_option autoImplicit false

namespace LocaleLint.Console

def startsTag (c : Char) : Bool :=
  (decide ('a' ≤ c) && decide (c ≤ 'z')) || c == '#' || c == '/' || c == '@'

def closesTag : List Char → Bool
  | [] => false
  | c :: rest => if c = ']' then true else if c = '[' then false else closesTag rest

-- Whether the text behind an opening bracket makes it a tag.
def opensTag : List Char → Bool
  | [] => false
  | c :: rest => startsTag c && closesTag rest

def dropEscapes : List Char → List Char
  | [] => []
  | '\\' :: '[' :: rest =>
      if opensTag rest then '\\' :: '[' :: dropEscapes rest else '[' :: dropEscapes rest
  | c :: rest => c :: dropEscapes rest

def endsInOneBackslash (text : List Char) : Bool :=
  match text.reverse with
  | '\\' :: '\\' :: _ => false
  | '\\' :: _ => true
  | _ => false

def closeEnd (text : List Char) : List Char :=
  if endsInOneBackslash text then text ++ ['\\'] else text

def isSignal (c : Char) : Bool :=
  c == '\x07' || c == '\x08' || c == '\x0b' || c == '\x0c' || c == '\x0d'

def visible (text : List Char) : List Char :=
  (dropEscapes (closeEnd text)).filter fun c => !isSignal c

def tabStop : Nat := 8

def gapAt (column : Nat) : Nat := tabStop - column % tabStop

def expandTabs : Nat → List Char → List Char
  | _, [] => []
  | column, c :: rest =>
      if c = '\t' then blanks (gapAt column) ++ expandTabs (column + gapAt column) rest
      else c :: expandTabs (column + charWidth c) rest

def shownLines (text : List Char) : List (List Char) :=
  (Text.linesOf (visible text)).map (expandTabs 0)

def printed (text : String) : String :=
  "\n".intercalate ((shownLines text.toList).map String.ofList)

end LocaleLint.Console
