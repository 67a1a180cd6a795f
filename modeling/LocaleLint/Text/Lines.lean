set_option autoImplicit false

namespace LocaleLint.Text

def isBreak (c : Char) : Bool :=
  c == '\n' || c == '\r' || c == '\x85' || c == '\u2028' || c == '\u2029'

def unifyLineEnds : List Char → List Char
  | [] => []
  | '\r' :: '\n' :: rest => '\n' :: unifyLineEnds rest
  | c :: rest => (if c = '\r' then '\n' else c) :: unifyLineEnds rest

-- Puts a character in front of the first of some lines.
def extendFirst (c : Char) : List (List Char) → List (List Char)
  | [] => [[c]]
  | first :: more => (c :: first) :: more

def splitOn (separator : Char) : List Char → List (List Char)
  | [] => [[]]
  | c :: rest =>
      if c = separator then [] :: splitOn separator rest else extendFirst c (splitOn separator rest)

def linesOf (text : List Char) : List (List Char) := splitOn '\n' text

def segments : List Char → List (List Char)
  | [] => [[]]
  | '\r' :: '\n' :: rest => [] :: segments rest
  | c :: rest => if isBreak c then [] :: segments rest else extendFirst c (segments rest)

theorem extendFirst_ne_nil (c : Char) (lines : List (List Char)) : extendFirst c lines ≠ [] := by
  cases lines <;> simp [extendFirst]

theorem splitOn_ne_nil (separator : Char) (text : List Char) : splitOn separator text ≠ [] := by
  fun_cases splitOn separator text with
  | case1 | case2 => simp
  | case3 => exact extendFirst_ne_nil _ _

theorem segments_ne_nil (text : List Char) : segments text ≠ [] := by
  fun_cases segments text with
  | case1 | case2 | case3 => simp
  | case4 => exact extendFirst_ne_nil _ _

def lineAt (text : List Char) (line : Int) : Option (List Char) :=
  if 0 < line then (segments text)[line.toNat - 1]? else none

end LocaleLint.Text
