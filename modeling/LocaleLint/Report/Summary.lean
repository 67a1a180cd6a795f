import LocaleLint.Report.Style
import LocaleLint.Console.Table

set_option autoImplicit false

namespace LocaleLint

open LocaleLint.Console

namespace FileFailure

def lineCell (failure : FileFailure) : String :=
  match failure.line with
  | some line => toString line
  | none => "-"

def errorCell (failure : FileFailure) : String := failure.kind.code ++ " " ++ failure.kind.title

def nearCell (failure : FileFailure) : String :=
  String.ofList (Text.trim (failure.snippet.getD "").toList)

def cells (failure : FileFailure) : List String :=
  [failure.path, failure.lineCell, failure.errorCell, failure.nearCell]

end FileFailure

namespace Report

def summaryColumns : List Column :=
  [⟨"File", .left⟩, ⟨"Line", .right⟩, ⟨"Error", .left⟩, ⟨"Near", .left⟩]

def summary (report : Report) : Table := ⟨summaryColumns, report.failures.map (·.cells)⟩

def tally (report : Report) : String :=
  toString report.failureCount ++ " of " ++ toString report.filesChecked ++ " file(s) failed"

end Report

end LocaleLint
