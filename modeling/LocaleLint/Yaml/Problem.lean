import LocaleLint.Yaml.Mark

set_option autoImplicit false

namespace LocaleLint.Yaml

/-- A problem of a class of its own, by what is asked of it. -/
structure ForeignProblem where
  name : String
  text : String
  obstacle : Option Unwritten
  mark : Option Mark
  name_ne : name ≠ "" := by decide
deriving Repr

theorem ForeignProblem.eq_iff (a b : ForeignProblem) :
    a = b ↔ a.name = b.name ∧ a.text = b.text ∧ a.obstacle = b.obstacle ∧ a.mark = b.mark := by
  cases a
  cases b
  simp

instance : DecidableEq ForeignProblem := fun a b =>
  decidable_of_iff _ (ForeignProblem.eq_iff a b).symm

inductive Problem
  | plain (text : String)
  | marked (problem : MarkedProblem)
  | foreign (problem : ForeignProblem)
deriving Repr, DecidableEq, Inhabited

-- What a problem is called that has no text.
def Problem.name : Problem → String
  | .plain _ => "YAMLError"
  | .marked _ => "MarkedYAMLError"
  | .foreign problem => problem.name

def Problem.text : Problem → String
  | .plain text => text
  | .marked problem => problem.text
  | .foreign problem => problem.text

def Problem.message (p : Problem) : String := if p.text = "" then p.name else p.text

theorem Problem.message_ne (p : Problem) : p.message ≠ "" := by
  simp only [message]
  split
  · cases p with
    | plain text => simp [name]
    | marked problem => simp [name]
    | foreign problem => exact problem.name_ne
  · assumption

-- Why a problem cannot be told: its text is not to be had.
def Problem.obstacle? : Problem → Option Unwritten
  | .plain _ => none
  | .marked problem => problem.obstacle?
  | .foreign problem => problem.obstacle

def Problem.mark : Problem → Option Mark
  | .plain _ => none
  | .marked problem => problem.problemMark
  | .foreign problem => problem.mark

def unacceptableText (code index : Nat) : String :=
  let width := if code ≤ 0xffff then 4 else if code ≤ 0xfffff then 5 else 6
  "unacceptable character #x" ++ String.ofList (Text.hexDigits width code) ++
    ": special characters are not allowed\n  in \"" ++ sourceName ++ "\", position " ++
    toString index

end LocaleLint.Yaml
