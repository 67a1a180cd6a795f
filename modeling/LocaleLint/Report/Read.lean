import LocaleLint.Report.Basic
import LocaleLint.Record.Field

set_option autoImplicit false

namespace LocaleLint

open LocaleLint.Yaml

def Field.message (value : Value) : Except Defect { message : String // message ≠ "" } :=
  match text value with
  | .error defect => .error defect
  | .ok message => if h : message ≠ "" then .ok ⟨message, h⟩ else .error .emptyText

def FileFailure.ofEntries (entries : List (Scalar × Value)) : Checked FileFailure :=
  let optional {α : Type} (name : String) (read : Value → Except Defect α) : Checked (Option α) :=
    Field.withDefault entries name none fun value => Checked.ofDefect (Field.optional read value)
  let path := Field.required entries "path" fun value => Checked.ofDefect (Field.text value)
  let kind := Field.required entries "kind" fun value => Checked.ofDefect (Field.kind value)
  let message :=
    Field.required entries "message" fun value => Checked.ofDefect (Field.message value)
  let line := optional "line" Field.integer
  let column := optional "column" Field.integer
  let snippet := optional "snippet" Field.text
  (Checked.both path (.both kind (.both message (.both line (.both column snippet))))).map
    fun (path, kind, message, line, column, snippet) =>
      { path := path
        kind := kind
        message := message.val
        line := line
        column := column
        snippet := snippet
        message_ne := message.property }

def FileFailure.ofValue : Value → Checked FileFailure
  | .map entries => ofEntries entries
  | _ => .error [⟨[], .notARecord "FileFailure"⟩]

def Field.failures (order : SetOrder) (value : Value) : Checked (List FileFailure) :=
  match list order value with
  | .error defect => .error [⟨[], defect⟩]
  | .ok items => Checked.items FileFailure.ofValue 0 items

def Report.ofValue (order : Field.SetOrder) : Value → Checked Report
  | .map entries =>
      let count := Field.withDefault entries "files_checked" 0 fun value =>
        Checked.ofDefect (Field.integer value)
      let failures := Field.withDefault entries "failures" [] (Field.failures order)
      (Checked.both count failures).map fun (count, failures) => ⟨count, failures⟩
  | _ => .error [⟨[], .notARecord "ValidationReport"⟩]

end LocaleLint
