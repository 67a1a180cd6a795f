import LocaleLint.Yaml.Value.Basic
import LocaleLint.Yaml.Mark

set_option autoImplicit false

namespace LocaleLint.Yaml

structure DuplicateKey where
  key : Scalar
  path : String
  line : Option Int
  column : Option Int
deriving Repr, DecidableEq, Inhabited

def escapeBreak (c : Char) : List Char :=
  if c = '\n' then "\\n".toList
  else if c = '\r' then "\\r".toList
  else if c = '\x85' then "\\x85".toList
  else if c = '\u2028' then "\\u2028".toList
  else if c = '\u2029' then "\\u2029".toList
  else [c]

def escapeBreaks (text : List Char) : List Char := text.flatMap escapeBreak

theorem escapeBreaks_no_break (text : List Char) (c : Char) (h : c ∈ escapeBreaks text) :
    Text.isBreak c = false := by
  obtain ⟨d, _, hd⟩ := List.mem_flatMap.mp h
  simp only [escapeBreak] at hd
  repeat' split at hd
  all_goals
    first
    | (simp at hd
       rcases hd with rfl | rfl | rfl | rfl | rfl | rfl <;> rfl)
    | simp_all [Text.isBreak]

def DuplicateKey.head : List Char :=
  ['D', 'u', 'p', 'l', 'i', 'c', 'a', 't', 'e', ' ', 'k', 'e', 'y', ' ', '"']

def DuplicateKey.tail : List Char :=
  ['"', ' ', 'd', 'e', 't', 'e', 'c', 't', 'e', 'd', ' ', 'w', 'h', 'i', 'l', 's', 't', ' ', 'p',
    'a', 'r', 's', 'i', 'n', 'g', ' ', 'Y', 'A', 'M', 'L']

-- The text of the diagnostic where the key is written as `key`.
def DuplicateKey.textFor (d : DuplicateKey) (key : String) : String :=
  String.ofList (head ++ escapeBreaks key.toList ++ tail) ++
    (match d.line with
      | some line => " at line " ++ toString line
      | none => "") ++ "."

def DuplicateKey.wording (d : DuplicateKey) : String := d.textFor d.key.text

def DuplicateKey.isWritable (d : DuplicateKey) : Bool :=
  d.key.isWritable && d.line.all Number.isWritable

-- A diagnostic is made with its text, so there is none whose key or line cannot be written.
def DuplicateKey.text (d : DuplicateKey) : Except Unwritten String :=
  if d.isWritable then .ok d.wording else .error .numberTooLong

-- The same where halves of surrogate pairs cannot be written; none when the key has none.
def DuplicateKey.escapedText? (d : DuplicateKey) : Option String :=
  if d.key.isHalved then some (d.textFor d.key.escapedText) else none

end LocaleLint.Yaml
