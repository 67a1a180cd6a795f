import LocaleLint.Yaml.DuplicateKey
import LocaleLint.Rejection

set_option autoImplicit false

namespace LocaleLint

open LocaleLint.Yaml

/-- A diagnostic of another class; what it says of a place stands beside its text. -/
structure ForeignDiagnostic where
  category : String
  text : String
  line : Option Int
  column : Option Int
deriving Repr, DecidableEq, Inhabited

inductive Diagnostic
  | duplicateKey (found : DuplicateKey)
  | other (found : ForeignDiagnostic)
deriving Repr, DecidableEq, Inhabited

namespace Diagnostic

def category : Diagnostic → String
  | .duplicateKey _ => "DuplicateKeyWarning"
  | .other found => found.category

def text : Diagnostic → String
  | .duplicateKey found => found.wording
  | .other found => found.text

def escapedText? : Diagnostic → Option String
  | .duplicateKey found => found.escapedText?
  | .other _ => none

def line : Diagnostic → Option Int
  | .duplicateKey found => found.line
  | .other found => found.line

def column : Diagnostic → Option Int
  | .duplicateKey found => found.column
  | .other found => found.column

def throughTail : List Char → Option (List Char)
  | [] => none
  | c :: rest =>
      if DuplicateKey.tail.isPrefixOf (c :: rest) then some DuplicateKey.tail
      else (throughTail rest).map (c :: ·)

def findDuplicate : List Char → Option (List Char)
  | [] => none
  | c :: rest =>
      match if DuplicateKey.head.isPrefixOf (c :: rest) then
          throughTail ((c :: rest).drop DuplicateKey.head.length)
        else none with
      | some found => some (DuplicateKey.head ++ found)
      | none => findDuplicate rest

theorem findDuplicate_ne_nil (text found : List Char) (h : findDuplicate text = some found) :
    found ≠ [] := by
  induction text with
  | nil => simp [findDuplicate] at h
  | cons c rest ih =>
      simp only [findDuplicate] at h
      split at h
      · cases h
        exact List.append_ne_nil_of_left_ne_nil (List.cons_ne_nil _ _) _
      · exact ih h

def duplicateIn? (text : String) : Option String := (findDuplicate text.toList).map String.ofList

theorem duplicateIn?_ne (text found : String) (h : duplicateIn? text = some found) :
    found ≠ "" := by
  obtain ⟨chars, hc, rfl⟩ := Option.map_eq_some_iff.mp h
  have ne := findDuplicate_ne_nil _ _ hc
  intro empty
  exact ne (by simpa using empty)

def escalated? (d : Diagnostic) (filename : Option String) : Option Rejection :=
  match h : duplicateIn? d.text with
  | none => none
  | some found =>
      some
        { category := .duplicateKey
          message := found
          line := d.line
          column := d.column
          filename := filename
          snippet := none
          message_ne := duplicateIn?_ne _ _ h
          escaped := (d.escapedText?.bind duplicateIn?).filter (· ≠ found) }

end Diagnostic

end LocaleLint
