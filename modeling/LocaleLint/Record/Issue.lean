import LocaleLint.Rejection
import LocaleLint.Text.CodePoint

set_option autoImplicit false

namespace LocaleLint

inductive Defect
  | missing
  | notText
  | notUnicode
  | emptyText
  | notAKind
  | notInteger
  | notANumeral
  | fractional
  | notFinite
  | tooLarge
  | notTruth
  | notATruthWord
  | notList
  | emptyList
  | unknownEncoding (name : String)
  | nulInEncoding
  | surrogatesInEncoding (bad : Text.CodePoint.Unencodable)
  | unknownField
  | keyNotText
  | notARecord (record : String)
deriving Repr, DecidableEq, Inhabited

namespace Defect

def code : Defect → String
  | .missing => "missing"
  | .notText => "string_type"
  | .notUnicode => "string_unicode"
  | .emptyText => "string_too_short"
  | .notAKind => "enum"
  | .notInteger => "int_type"
  | .notANumeral => "int_parsing"
  | .fractional => "int_from_float"
  | .notFinite => "finite_number"
  | .tooLarge => "int_parsing_size"
  | .notTruth => "bool_type"
  | .notATruthWord => "bool_parsing"
  | .notList => "list_type"
  | .emptyList => "too_short"
  | .unknownEncoding _ | .nulInEncoding | .surrogatesInEncoding _ => "value_error"
  | .unknownField => "extra_forbidden"
  | .keyNotText => "invalid_key"
  | .notARecord _ => "model_type"

-- Names in single quotes, with "or" before the last.
def alternatives : List String → String
  | [] => ""
  | [name] => "'" ++ name ++ "'"
  | [name, last] => "'" ++ name ++ "' or '" ++ last ++ "'"
  | name :: rest => "'" ++ name ++ "', " ++ alternatives rest

def message : Defect → String
  | .missing => "Field required"
  | .notText => "Input should be a valid string"
  | .notUnicode => "Input should be a valid string, unable to parse raw data as a unicode string"
  | .emptyText => "String should have at least 1 character"
  | .notAKind => "Input should be " ++ alternatives (Kind.all.map (·.name))
  | .notInteger => "Input should be a valid integer"
  | .notANumeral => "Input should be a valid integer, unable to parse string as an integer"
  | .fractional => "Input should be a valid integer, got a number with a fractional part"
  | .notFinite => "Input should be a finite number"
  | .tooLarge => "Unable to parse input string as an integer, exceeded maximum size"
  | .notTruth => "Input should be a valid boolean"
  | .notATruthWord => "Input should be a valid boolean, unable to interpret input"
  | .notList => "Input should be a valid list"
  | .emptyList => "List should have at least 1 item after validation, not 0"
  | .unknownEncoding name => "Value error, unknown encoding: " ++ name
  | .nulInEncoding => "Value error, embedded null character"
  | .surrogatesInEncoding bad => "Value error, " ++ bad.text "utf-8" "surrogates not allowed"
  | .unknownField => "Extra inputs are not permitted"
  | .keyNotText => "Keys should be strings"
  | .notARecord record => "Input should be a valid dictionary or instance of " ++ record

end Defect

structure Issue where
  place : List String
  defect : Defect
deriving Repr, DecidableEq, Inhabited

abbrev Checked (α : Type) := Except (List Issue) α

namespace Checked

def ofDefect {α : Type} (checked : Except Defect α) : Checked α :=
  checked.mapError fun defect => [⟨[], defect⟩]

def inside {α : Type} (step : String) (checked : Checked α) : Checked α :=
  checked.mapError (·.map fun issue => { issue with place := step :: issue.place })

def both {α β : Type} (first : Checked α) (second : Checked β) : Checked (α × β) :=
  match first, second with
  | .ok a, .ok b => .ok (a, b)
  | .error issues, .ok _ => .error issues
  | .ok _, .error issues => .error issues
  | .error issues, .error more => .error (issues ++ more)

def items {α β : Type} (check : α → Checked β) : Nat → List α → Checked (List β)
  | _, [] => .ok []
  | index, item :: rest =>
      (both (inside (toString index) (check item)) (items check (index + 1) rest)).map
        fun (first, more) => first :: more

def also {α : Type} (checked : Checked α) (issues : List Issue) : Checked α :=
  match checked with
  | .ok value => if issues.isEmpty then .ok value else .error issues
  | .error found => .error (found ++ issues)

theorem both_eq_ok {α β : Type} (first : Checked α) (second : Checked β) (a : α) (b : β) :
    both first second = .ok (a, b) ↔ first = .ok a ∧ second = .ok b := by
  cases first <;> cases second <;> simp [both]

theorem also_eq_ok {α : Type} (checked : Checked α) (issues : List Issue) (value : α) :
    also checked issues = .ok value ↔ checked = .ok value ∧ issues = [] := by
  cases checked <;> cases issues <;> simp [also]

end Checked

end LocaleLint
