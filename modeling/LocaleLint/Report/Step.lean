import LocaleLint.Report.Read
import LocaleLint.Abort

set_option autoImplicit false

namespace LocaleLint

open LocaleLint.Yaml

/-- A line or a column as it is handed over; only nothing and whole numbers are meant to be. -/
inductive Count
  | absent
  | int (value : Int)
  | bool (value : Bool)
  | float (value : Number.Binary64)
  | text (value : String)
deriving Repr, DecidableEq, Inhabited

def Count.scalar : Count → Scalar
  | .absent => .null
  | .int value => .int value
  | .bool value => .bool value
  | .float value => .float value
  | .text value => .string value

def Count.ofOption : Option Int → Count
  | none => .absent
  | some value => .int value

def Count.written : Count → Except Unwritten (Option String)
  | .absent => .ok none
  | count => if count.scalar.isWritable then .ok (some count.scalar.text) else .error .numberTooLong

-- What the check of a record reads a line or a column as.
def Count.read (count : Count) : Except Defect (Option Int) :=
  Field.optional Field.integer (.scalar count.scalar)

/-- What a rejection is made of where it is handed over, before anything is asked of its parts. -/
structure Rejection.Draft where
  category : Category
  message : String
  line : Count
  column : Count
  filename : Option String
  snippet : Option String
deriving Repr, DecidableEq, Inhabited

namespace Rejection

def ofParts (category : Category) (message : String) (line column : Option Int)
    (filename snippet : Option String) : Except Abort Rejection :=
  if h : message ≠ "" then .ok ⟨category, message, line, column, filename, snippet, h, none⟩
  else .error .emptyMessage

def draft (r : Rejection) : Draft :=
  ⟨r.category, r.message, .ofOption r.line, .ofOption r.column, r.filename, r.snippet⟩

-- The description under another file's name.
def Draft.describe (draft : Draft) (path : String) : Except Unwritten String :=
  draft.line.written.map fun line =>
    describeWith draft.message (placeOf (some path) line draft.snippet)

end Rejection

namespace FileFailure

-- The fields of the record that a rejection gives.
def entriesOf (path : String) (draft : Rejection.Draft) (message : String) :
    List (Scalar × Value) :=
  [(.string "path", .scalar (.string path)),
    (.string "kind", .scalar (.string draft.category.kind.name)),
    (.string "message", .scalar (.string message)), (.string "line", .scalar draft.line.scalar),
    (.string "column", .scalar draft.column.scalar),
    (.string "snippet", .scalar ((draft.snippet.map Scalar.string).getD .null))]

-- The record of a rejection, which is copied and described, and all its fields checked.
def recorded (path : String) (draft : Rejection.Draft) : Except Abort FileFailure :=
  if !draft.category.copies then .error .uncopiable
  else
    match draft.describe path with
    | .error cause => .error (.unwritten cause)
    | .ok message => (ofEntries (entriesOf path draft message)).mapError .unrecordable

end FileFailure

namespace Report

inductive Step
  | setChecked (count : Int)
  | addFailure (path : String) (draft : Rejection.Draft)
deriving Repr, DecidableEq, Inhabited

def withFailure (report : Report) (failure : FileFailure) : Report :=
  { report with failures := report.failures ++ [failure] }

def take : Step → ExceptT Abort (StateM Report) (Option FileFailure)
  | .setChecked count => do
      modify (·.withChecked count)
      return none
  | .addFailure path draft => do
      if draft.message = "" then throw .emptyMessage
      let failure ← FileFailure.recorded path draft
      modify (·.withFailure failure)
      return some failure

def outcome (report : Report) (step : Step) : Except Abort (Option FileFailure) × Report :=
  (take step).run report

def runSteps (report : Report) (steps : List Step) : Report :=
  steps.foldl (fun report step => (report.outcome step).2) report

end Report

end LocaleLint
