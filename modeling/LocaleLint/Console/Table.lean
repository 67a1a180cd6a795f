import LocaleLint.Console.Wrap

set_option autoImplicit false

namespace LocaleLint.Console

inductive Alignment
  | left
  | right
deriving Repr, DecidableEq, Inhabited

structure Column where
  title : String
  alignment : Alignment
deriving Repr, DecidableEq, Inhabited

/-- Every row has one cell for each column. -/
structure Table where
  columns : List Column
  rows : List (List String)
deriving Repr, DecidableEq, Inhabited

def endsLine (c : Char) : Bool :=
  Text.isBreak c || c == '\x0b' || c == '\x0c' || (decide ('\x1c' ≤ c) && decide (c ≤ '\x1e'))

def widest : Nat → List Char → Nat
  | line, [] => line
  | line, c :: rest =>
    if endsLine c then max line (widest 0 rest) else widest (line + charWidth c) rest

def cellWidth (text : String) : Nat := widest 0 (visible text.toList)

def Alignment.align (alignment : Alignment) (columns : Nat) (line : List Char) : List Char :=
  match alignment with
  | .left => padRight columns line
  | .right => padLeft columns (Text.trimRight line)

namespace Table

def titles (t : Table) : List String := t.columns.map (·.title)

def widths (t : Table) : List Nat :=
  t.rows.foldl (fun widths row => List.zipWith max widths (row.map cellWidth))
    (t.titles.map cellWidth)

structure Block where
  columns : Nat
  lines : List (List Char)
deriving Repr, DecidableEq, Inhabited

def Block.line (b : Block) (index : Nat) : List Char := b.lines.getD index (blanks b.columns)

def blocks : List Column → List Nat → List String → List Block
  | column :: columns, width :: widths, cell :: cells =>
      ⟨width, (wrap width cell).map (column.alignment.align width)⟩ :: blocks columns widths cells
  | _, _, _ => []

def gap : List Char := blanks 3

def edge : List Char := blanks 2

def rowLine (blocks : List Block) (index : Nat) : List Char :=
  edge ++ gap.intercalate (blocks.map (·.line index)) ++ edge

def height (blocks : List Block) : Nat := blocks.foldl (fun height b => max height b.lines.length) 1

def rowLines (t : Table) (row : List String) : List (List Char) :=
  let blocks := blocks t.columns t.widths row
  (List.range (height blocks)).map (rowLine blocks)

def totalWidth (t : Table) : Nat :=
  t.widths.foldl (· + ·) 0 + gap.length * (t.columns.length - 1) + 2 * edge.length

def rule (t : Table) : List Char := ' ' :: List.replicate (t.totalWidth - 2) '─' ++ [' ']

def lines (t : Table) : List (List Char) :=
  [blanks t.totalWidth] ++ t.rowLines t.titles ++ [t.rule] ++ t.rows.flatMap t.rowLines ++
    [blanks t.totalWidth]

def render (t : Table) : String := "\n".intercalate (t.lines.map String.ofList)

end Table

end LocaleLint.Console
