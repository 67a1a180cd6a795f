import LocaleLint.Text.Lines

set_option autoImplicit false

namespace LocaleLint.Yaml

open LocaleLint.Text

structure Position where
  index : Nat
  line : Nat
  column : Nat
deriving Repr, DecidableEq, Inhabited

def Position.start : Position := ⟨0, 0, 0⟩

def endsLine (c : Char) (rest : List Char) : Bool :=
  isBreak c && !(c == '\r' && rest.head? == some '\n')

def Position.step (p : Position) (c : Char) (rest : List Char) : Position :=
  if endsLine c rest then ⟨p.index + 1, p.line + 1, 0⟩
  else if c = '\ufeff' then ⟨p.index + 1, p.line, p.column⟩
  else ⟨p.index + 1, p.line, p.column + 1⟩

theorem Position.step_index (p : Position) (c : Char) (rest : List Char) :
    (p.step c rest).index = p.index + 1 := by
  simp only [Position.step]
  split
  · rfl
  · split <;> rfl

def Position.after (p : Position) : List Char → Nat → Position
  | _, 0 => p
  | [], _ + 1 => p
  | c :: rest, count + 1 => (p.step c rest).after rest count

def positionAt (source : List Char) (index : Nat) : Position := Position.start.after source index

structure Cursor where
  rest : List Char
  place : Position
deriving Repr, Inhabited

namespace Cursor

def ofText (source : List Char) : Cursor := ⟨source, .start⟩

def peekAt (cursor : Cursor) (offset : Nat) : Char := cursor.rest.getD offset '\x00'

def peek (cursor : Cursor) : Char := cursor.rest.headD '\x00'

def next (cursor : Cursor) : Cursor :=
  match cursor.rest with
  | [] => cursor
  | c :: rest => ⟨rest, cursor.place.step c rest⟩

def skip : Nat → Cursor → Cursor
  | 0, cursor => cursor
  | count + 1, cursor => skip count cursor.next

def skipWhileFrom (keep : Char → Bool) : List Char → Position → Cursor
  | [], p => ⟨[], p⟩
  | c :: rest, p => if keep c then skipWhileFrom keep rest (p.step c rest) else ⟨c :: rest, p⟩

def skipWhile (keep : Char → Bool) (cursor : Cursor) : Cursor :=
  skipWhileFrom keep cursor.rest cursor.place

def passMark (cursor : Cursor) : Cursor := if cursor.peek = '\ufeff' then cursor.next else cursor

-- Work left, for loops that read at least one character or one line end a round.
def remaining (cursor : Cursor) : Nat := (unifyLineEnds cursor.rest).length + 1

def startsWith (cursor : Cursor) (text : List Char) : Bool := text.isPrefixOf cursor.rest

end Cursor

end LocaleLint.Yaml
