import LocaleLint.Console.Printed
import LocaleLint.Text.Space

set_option autoImplicit false

namespace LocaleLint.Console

open LocaleLint.Text

-- Splits before every character that follows a space and is none; `spaced` says whether one comes
-- right before.
def splitWords (spaced : Bool) : List Char → List (List Char)
  | [] => [[]]
  | c :: rest =>
      let later := extendFirst c (splitWords (isSpace c) rest)
      if spaced && !isSpace c then [] :: later else later

def words (text : List Char) : List (List Char) :=
  match splitWords false (text.dropWhile isSpace) with
  | [] => [text]
  | first :: rest => (text.takeWhile isSpace ++ first) :: rest

def fill (columns : Nat) (line : List Char) : List (List Char) → List (List Char)
  | [] => [line]
  | word :: rest =>
      if width line + width (trimRight word) ≤ columns then fill columns (line ++ word) rest
      else line :: fill columns word rest

def broken (columns : Nat) (text : List Char) : List (List Char) :=
  match words text with
  | [] => [text]
  | first :: rest => fill columns first rest

def dropOverhang (columns : Nat) (text : List Char) : List Char :=
  let spaces := text.length - (trimRight text).length
  text.take (text.length - min spaces (text.length - columns))

def ellipsis : Char := '…'

def shortened (columns : Nat) (text : List Char) : List Char :=
  if width text ≤ columns then text
  else padRight (columns - 1) (fitting (columns - 1) text) ++ [ellipsis]

def wrap (columns : Nat) (text : String) : List (List Char) :=
  (shownLines text.toList).flatMap fun line =>
    (broken columns line).map fun piece => shortened columns (dropOverhang columns piece)

end LocaleLint.Console
