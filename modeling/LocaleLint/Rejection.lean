import LocaleLint.Yaml.Problem
import LocaleLint.Text.Lines

set_option autoImplicit false

namespace LocaleLint

/-- What reports call the kinds; an uncategorised rejection counts as malformed. -/
inductive Kind
  | malformed
  | duplicateKey
  | colonSpacing
  | undecodable
  | unreadable
deriving Repr, DecidableEq, Inhabited

inductive Category
  | general
  | malformed
  | duplicateKey
  | colonSpacing
  | undecodable
  | unreadable
  -- A class that a parser brings along. Its way of making objects may not do for a copy.
  | foreign (name : String) (kind : Kind) (copies : Bool)
deriving Repr, DecidableEq, Inhabited

def Category.kind : Category → Kind
  | .general | .malformed => .malformed
  | .duplicateKey => .duplicateKey
  | .colonSpacing => .colonSpacing
  | .undecodable => .undecodable
  | .unreadable => .unreadable
  | .foreign _ kind _ => kind

def Category.copies : Category → Bool
  | .foreign _ _ copies => copies
  | _ => true

def Kind.name : Kind → String
  | .malformed => "syntax"
  | .duplicateKey => "duplicate_key"
  | .colonSpacing => "colon_spacing"
  | .undecodable => "encoding"
  | .unreadable => "unreadable"

def Kind.all : List Kind := [.malformed, .duplicateKey, .colonSpacing, .undecodable, .unreadable]

def Kind.ofName? (name : String) : Option Kind := Kind.all.find? (·.name == name)

theorem Kind.ofName?_name (kind : Kind) : Kind.ofName? kind.name = some kind := by
  cases kind <;> decide

def anonymous : String := "<string>"

structure Rejection where
  category : Category
  message : String
  line : Option Int
  column : Option Int
  filename : Option String
  snippet : Option String
  message_ne : message ≠ ""
  -- The message with its halves of surrogate pairs as escapes, when it holds any.
  escaped : Option String := none
deriving DecidableEq

namespace Rejection

def kind (r : Rejection) : Kind := r.category.kind

def named (r : Rejection) (filename : Option String) : Rejection := { r with filename := filename }

-- A copy under another file's name; none where the class makes no copies.
def attributedTo? (r : Rejection) (filename : Option String) : Option Rejection :=
  if r.category.copies then some (r.named filename) else none

def splitPeriod (text : List Char) : List Char × List Char :=
  if text.getLast? = some '.' then (text.dropLast, ['.']) else (text, [])

theorem splitPeriod_append (text : List Char) :
    (splitPeriod text).1 ++ (splitPeriod text).2 = text := by
  simp only [splitPeriod]
  split
  · next h =>
    have ne : text ≠ [] := by rintro rfl; simp at h
    rw [List.getLast?_eq_some_getLast ne] at h
    have last := List.dropLast_concat_getLast ne
    simp only [Option.some.injEq] at h
    rw [h] at last
    exact last
  · simp

def placeOf (filename line snippet : Option String) : String :=
  (match filename with
    | none => ""
    | some name => if name = "" ∨ name = anonymous then "" else " in \"" ++ name ++ "\"") ++
  (match line with
    | none => ""
    | some line => " at line " ++ line) ++
  (match snippet with
    | none => ""
    | some snippet => if snippet = "" then "" else " (near \"" ++ snippet ++ "\")")

-- A message with its place before its final period.
def describeWith (message place : String) : String :=
  let (body, period) := splitPeriod message.toList
  String.ofList body ++ place ++ String.ofList period

def place (r : Rejection) : String := placeOf r.filename (r.line.map toString) r.snippet

def description (r : Rejection) : String := describeWith r.message r.place

-- The description where halves of surrogate pairs cannot be written.
def escapedDescription (r : Rejection) : String := describeWith (r.escaped.getD r.message) r.place

def hasWritableLine (r : Rejection) : Bool := r.line.all Number.isWritable

def describe (r : Rejection) : Except Yaml.Unwritten String :=
  if r.hasWritableLine then .ok r.description else .error .numberTooLong

def ofProblem (problem : Yaml.Problem) (source : String) (filename : Option String) : Rejection :=
  let line := problem.mark.map (·.line + 1)
  { category := .malformed
    message := problem.message
    line := line
    column := problem.mark.map (·.column + 1)
    filename := filename
    snippet := (line.bind (Text.lineAt source.toList)).map String.ofList
    message_ne := problem.message_ne }

end Rejection

end LocaleLint
