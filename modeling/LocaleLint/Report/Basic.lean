import LocaleLint.Abort
import LocaleLint.Json.Basic

set_option autoImplicit false

namespace LocaleLint

structure FileFailure where
  path : String
  kind : Kind
  message : String
  line : Option Int
  column : Option Int
  snippet : Option String
  message_ne : message ≠ ""

theorem FileFailure.eq_iff (a b : FileFailure) :
    a = b ↔ a.path = b.path ∧ a.kind = b.kind ∧ a.message = b.message ∧ a.line = b.line ∧
      a.column = b.column ∧ a.snippet = b.snippet := by
  cases a
  cases b
  simp

instance : DecidableEq FileFailure := fun a b => decidable_of_iff _ (FileFailure.eq_iff a b).symm

structure Report where
  filesChecked : Int
  failures : List FileFailure
deriving DecidableEq

namespace Rejection

theorem describeWith_ne (message place : String) (given : message ≠ "") :
    describeWith message place ≠ "" := by
  intro empty
  have length := congrArg String.length empty
  simp only [describeWith, String.length_append, String.length_ofList,
    String.length_empty] at length
  have parts := splitPeriod_append message.toList
  have first : (splitPeriod message.toList).1 = [] := List.length_eq_zero_iff.mp (by omega)
  have second : (splitPeriod message.toList).2 = [] := List.length_eq_zero_iff.mp (by omega)
  rw [first, second] at parts
  exact given (String.toList_eq_nil_iff.mp parts.symm)

end Rejection

-- What a record finds wrong with a message that holds halves of surrogate pairs.
def FileFailure.brokenMessage : List Issue := [⟨["message"], .notUnicode⟩]

-- Why a rejection cannot be recorded: it has to be copied, described and checked.
def Rejection.refusal? (r : Rejection) : Option Abort :=
  if !r.category.copies then some .uncopiable
  else if !r.hasWritableLine then some (.unwritten .numberTooLong)
  else if r.escaped.isSome then some (.unrecordable FileFailure.brokenMessage)
  else none

theorem Rejection.refusal?_eq_none_iff (r : Rejection) :
    r.refusal? = none ↔
      r.category.copies = true ∧ r.hasWritableLine = true ∧ r.escaped = none := by
  unfold refusal?
  cases r.category.copies <;> cases r.hasWritableLine <;> cases r.escaped <;> simp

-- The failure names the file as it is listed.
def FileFailure.ofRejection (path : String) (r : Rejection) : FileFailure :=
  let attributed := r.named (some path)
  { path := path
    kind := attributed.kind
    message := attributed.description
    line := attributed.line
    column := attributed.column
    snippet := attributed.snippet
    message_ne := Rejection.describeWith_ne _ _ attributed.message_ne }

namespace Report

def empty : Report := ⟨0, []⟩

def messages (report : Report) : List String := report.failures.map (·.message)

def failureCount (report : Report) : Nat := report.failures.length

def ok (report : Report) : Bool := report.failures.isEmpty

def withChecked (report : Report) (count : Int) : Report := { report with filesChecked := count }

def addFailure (report : Report) (path : String) (r : Rejection) : Report :=
  { report with failures := report.failures ++ [.ofRejection path r] }

theorem length_messages (report : Report) : report.messages.length = report.failureCount := by
  simp [messages, failureCount]

theorem ok_iff (report : Report) : report.ok = true ↔ report.failureCount = 0 := by
  simp [ok, failureCount]

end Report

def FileFailure.toJson (failure : FileFailure) : Json :=
  .object
    [("path", .string failure.path), ("kind", .string failure.kind.name),
      ("message", .string failure.message), ("line", .ofOption .int failure.line),
      ("column", .ofOption .int failure.column), ("snippet", .ofOption .string failure.snippet)]

def Report.toJson (report : Report) : Json :=
  .object
    [("files_checked", .int report.filesChecked),
      ("failures", .list (report.failures.map (·.toJson))),
      ("messages", .list (report.messages.map .string)),
      ("failure_count", .int report.failureCount)]

end LocaleLint
