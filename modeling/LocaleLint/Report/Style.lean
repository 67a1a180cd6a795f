import LocaleLint.Report.Basic
import LocaleLint.Text.Space

set_option autoImplicit false

namespace LocaleLint

def Kind.code : Kind → String
  | .malformed => "E001"
  | .duplicateKey => "E002"
  | .colonSpacing => "E003"
  | .undecodable => "E004"
  | .unreadable => "E005"

def Kind.title : Kind → String
  | .malformed => "YAML syntax error"
  | .duplicateKey => "duplicate key"
  | .colonSpacing => "no space after colon"
  | .undecodable => "undecodable file"
  | .unreadable => "unreadable file"

def unknownCode : String := "E999"

def codeOfName (name : String) : String :=
  match Kind.ofName? name with
  | some kind => kind.code
  | none => unknownCode

inductive Style
  | annotated
  | concise
deriving Repr, DecidableEq, Inhabited

namespace Style

def affirmative : List String := ["true", "1", "yes"]

-- The style for a terminal, or for the log of a build when the environment says it is one.
def ofEnvironment (continuousIntegration : Option String) : Style :=
  if affirmative.contains (continuousIntegration.getD "").toLower then .concise else .annotated

end Style

namespace FileFailure

def spaces (count : Int) : String := String.ofList (List.replicate count.toNat ' ')

def concise (failure : FileFailure) : String :=
  failure.path ++ ":" ++ toString (failure.line.getD 0) ++ ":" ++
    toString (failure.column.getD 0) ++
    " -- " ++ failure.message

def headline (failure : FileFailure) : String :=
  "error[" ++ failure.kind.code ++ "]: " ++ failure.kind.title

def excerpt (failure : FileFailure) (line column : Int) (snippet : String) : List String :=
  let number := toString line
  [" " ++ number ++ " | " ++ String.ofList (Text.trimRight snippet.toList),
    " " ++ spaces number.length ++ " | " ++ spaces (column - 1) ++ "^ " ++ failure.message]

def annotatedLines (failure : FileFailure) : List String :=
  match failure.line with
  | none => [failure.headline, "  --> " ++ failure.path, "   |", "   | " ++ failure.message, "   |"]
  | some line =>
      let column := failure.column.getD 1
      [failure.headline, "  --> " ++ failure.path ++ ":" ++ toString line ++ ":" ++ toString column,
        "   |"] ++
      (match failure.snippet with
        | some snippet => failure.excerpt line column snippet
        | none => ["   | " ++ failure.message]) ++
      ["   |"]

def styled (style : Style) (failure : FileFailure) : String :=
  match style with
  | .annotated => "\n".intercalate failure.annotatedLines
  | .concise => failure.concise

end FileFailure

def Style.separator : Style → String
  | .annotated => "\n\n"
  | .concise => "\n"

def Style.render (style : Style) (failures : List FileFailure) : String :=
  style.separator.intercalate (failures.map (·.styled style))

end LocaleLint
