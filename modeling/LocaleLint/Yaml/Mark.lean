import LocaleLint.Yaml.Fault
import LocaleLint.Number.Written

set_option autoImplicit false

namespace LocaleLint.Yaml

open LocaleLint.Text

structure Mark where
  name : String
  line : Int
  column : Int
  -- The text the mark points into, with the U+0000 that ends it, and the place in it.
  excerpt : Option (List Char × Nat)
deriving Repr, DecidableEq, Inhabited

def endsExcerpt (c : Char) : Bool := c == '\x00' || isBreak c

def windowSide (fuel : Nat) : List Char → List Char → List Char × Bool
  | [], taken => (taken, false)
  | c :: rest, taken =>
      if endsExcerpt c then (taken, false)
      else if fuel < taken.length + 1 then ((c :: taken).drop 5, true)
      else windowSide fuel rest (c :: taken)

def windowHalf : Nat := 36

def excerptText (buffer : List Char) (pointer : Nat) : String :=
  let (before, cutBefore) := windowSide windowHalf (buffer.take pointer).reverse []
  let (after, cutAfter) := windowSide windowHalf (buffer.drop pointer) []
  let head := if cutBefore then " ... " else ""
  let tail := if cutAfter then " ... " else ""
  "    " ++ head ++ String.ofList before ++ String.ofList after.reverse ++ tail ++ "\n" ++
    String.ofList (List.replicate (4 + head.length + before.length) ' ') ++ "^"

/-- Why a text cannot be put together. -/
inductive Unwritten
  | numberTooLong
  | pointerOutside
  -- The parts say nothing about why.
  | unexplained
deriving Repr, DecidableEq, Inhabited

def Mark.obstacle? (mark : Mark) : Option Unwritten :=
  if mark.excerpt.any fun (buffer, pointer) => decide (buffer.length < pointer) then
    some .pointerOutside
  else if Number.isWritable (mark.line + 1) && Number.isWritable (mark.column + 1) then none
  else some .numberTooLong

def Mark.text (mark : Mark) : String :=
  "  in \"" ++ mark.name ++ "\", line " ++ toString (mark.line + 1) ++ ", column " ++
    toString (mark.column + 1) ++
    (match mark.excerpt with
      | none => ""
      | some (buffer, pointer) => ":\n" ++ excerptText buffer pointer)

def Mark.samePlace (a b : Mark) : Bool :=
  a.name == b.name && a.line == b.line && a.column == b.column

structure MarkedProblem where
  context : Option String
  contextMark : Option Mark
  problem : Option String
  problemMark : Option Mark
  note : Option String
deriving Repr, DecidableEq, Inhabited

def MarkedProblem.showsContextMark (p : MarkedProblem) (mark : Mark) : Bool :=
  match p.problem, p.problemMark with
  | some _, some problemMark => !mark.samePlace problemMark
  | _, _ => true

def MarkedProblem.obstacle? (p : MarkedProblem) : Option Unwritten :=
  ((p.contextMark.filter p.showsContextMark).bind Mark.obstacle?).or
    (p.problemMark.bind Mark.obstacle?)

def MarkedProblem.text (p : MarkedProblem) : String :=
  let contextMark := p.contextMark.filter p.showsContextMark
  "\n".intercalate
    (p.context.toList ++ (contextMark.map Mark.text).toList ++ p.problem.toList ++
      (p.problemMark.map Mark.text).toList ++ p.note.toList)

def sourceName : String := "<unicode string>"

def Position.mark (source : List Char) (p : Position) : Mark :=
  ⟨sourceName, p.line, p.column, some (source ++ ['\x00'], p.index)⟩

def Fault.marked (source : List Char) (fault : Fault) : MarkedProblem :=
  ⟨fault.activity.map Activity.text, fault.since.map (Position.mark source),
    some fault.cause.text, some (fault.place.mark source), none⟩

end LocaleLint.Yaml
