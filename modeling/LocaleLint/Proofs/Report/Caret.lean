import Mathlib.Data.List.DropRight
import LocaleLint.Report.Style
import LocaleLint.Proofs.ColonScan.Place
import LocaleLint.Proofs.Text.Unbroken

set_option autoImplicit false

namespace LocaleLint

open LocaleLint.Text

namespace Text

theorem trimRight_append_of_visible (front back : List Char)
    (visible : ∃ c ∈ back, isSpace c = false) :
    trimRight (front ++ back) = front ++ trimRight back := by
  have kept : ¬ (back.reverse.dropWhile isSpace).isEmpty = true := by
    simpa using visible
  simp only [trimRight, dropRightWhile, List.reverse_append, List.dropWhile_append, if_neg kept,
    List.reverse_reverse]

theorem trimRight_append_of_blank (front back : List Char) (blank : ∀ c ∈ back, isSpace c = true) :
    trimRight (front ++ back) = trimRight front := by
  have dropped : (back.reverse.dropWhile isSpace).isEmpty = true := by
    simpa using blank
  simp only [trimRight, dropRightWhile, List.reverse_append, List.dropWhile_append, if_pos dropped]

theorem head?_trimRight (c : Char) (rest : List Char)
    (visible : ∃ d ∈ c :: rest, isSpace d = false) :
    (trimRight (c :: rest)).head? = some c := by
  have prefixed : trimRight (c :: rest) <+: c :: rest := List.rdropWhile_prefix _ _
  have some : trimRight (c :: rest) ≠ [] := by
    obtain ⟨d, member, shows⟩ := visible
    intro empty
    have blank : isSpace d = true := List.rdropWhile_eq_nil_iff.mp empty d member
    rw [shows] at blank
    contradiction
  obtain ⟨d, more, shown⟩ := List.exists_cons_of_ne_nil some
  rw [shown] at prefixed
  rw [shown, List.head?_cons, (List.cons_prefix_cons.mp prefixed).1]

end Text

namespace FileFailure

def gutter (number : String) : List Char := ' ' :: number.toList ++ [' ', '|', ' ']

theorem length_gutter (number : String) : (gutter number).length = number.length + 4 := by
  simp [gutter, String.length_toList]

theorem toList_excerpt (failure : FileFailure) (line column : Int) (snippet : String) :
    (failure.excerpt line column snippet).map String.toList =
      [gutter (toString line) ++ trimRight snippet.toList,
        gutter (spaces (toString line).length) ++
          (List.replicate (column - 1).toNat ' ' ++ '^' :: ' ' :: failure.message.toList)] := by
  simp [excerpt, gutter, spaces]

theorem idxOf_caret (width : Nat) (column : Nat) (message : List Char) :
    (gutter (spaces width) ++ (List.replicate column ' ' ++ '^' :: message)).idxOf '^' =
      width + 4 + column := by
  have before : '^' ∉ gutter (spaces width) := by
    simp [gutter, spaces]
  have between : '^' ∉ List.replicate column ' ' := by
    simp
  rw [List.idxOf_append_of_notMem before, List.idxOf_append_of_notMem between, List.idxOf_cons_self,
    length_gutter]
  simp [spaces]

/-- How the line with the caret lies under a line of source, which is shown behind its number and
has a first colon between `before` and `c`. -/
structure Marks (number : String) (before : List Char) (c : Char) (after : List Char)
    (shown caret : String) : Prop where
  shown_eq : shown.toList = gutter number ++ trimRight (before ++ ':' :: c :: after)
  marked : '^' ∈ caret.toList
  column : caret.toList.idxOf '^' = (gutter number).length + (before ++ [':']).length
  behindColon : caret.toList.idxOf '^' = shown.toList.idxOf ':' + 1
  under : (∃ d ∈ c :: after, isSpace d = false) → shown.toList[caret.toList.idxOf '^']? = some c
  behindLine : (∀ d ∈ c :: after, isSpace d = true) →
    shown.toList = gutter number ++ before ++ [':'] ∧ caret.toList.idxOf '^' = shown.toList.length

section Source
variable (number : String) (before : List Char) (c : Char) (after : List Char)

theorem shown_of_visible (visible : ∃ d ∈ c :: after, isSpace d = false) :
    ∃ more, gutter number ++ trimRight (before ++ ':' :: c :: after) =
      gutter number ++ before ++ ':' :: c :: more := by
  obtain ⟨more, shown⟩ := List.head?_eq_some_iff.mp (head?_trimRight c after visible)
  have split : before ++ ':' :: c :: after = (before ++ [':']) ++ c :: after := by simp
  rw [split, trimRight_append_of_visible _ _ visible, shown]
  exact ⟨more, by simp⟩

theorem shown_of_blank (blank : ∀ d ∈ c :: after, isSpace d = true) :
    gutter number ++ trimRight (before ++ ':' :: c :: after) = gutter number ++
      before ++ [':'] := by
  have split : before ++ ':' :: c :: after = (before ++ [':']) ++ c :: after := by simp
  have colon : trimRight (before ++ [':']) = before ++ [':'] :=
    List.rdropWhile_concat_neg isSpace before ':' (by decide)
  rw [split, trimRight_append_of_blank _ _ blank, colon, List.append_assoc]

theorem idxOf_colon (rest : List Char) (plain : ':' ∉ number.toList) (first : ':' ∉ before) :
    (gutter number ++ before ++ ':' :: rest).idxOf ':' = number.length + 4 + before.length := by
  have ahead : ':' ∉ gutter number ++ before := by
    simp [gutter, plain, first]
  rw [List.idxOf_append_of_notMem ahead, List.idxOf_cons_self, List.length_append, length_gutter]
  rfl

variable (shown caret : String) (message : List Char)

theorem marks (plain : ':' ∉ number.toList) (first : ':' ∉ before)
    (source : shown.toList = gutter number ++ trimRight (before ++ ':' :: c :: after))
    (below : caret.toList = gutter (spaces number.length) ++
      (List.replicate (before.length + 1) ' ' ++ '^' :: message)) :
    Marks number before c after shown caret := by
  have caretAt : caret.toList.idxOf '^' = number.length + 4 + (before.length + 1) := by
    rw [below, idxOf_caret]
  have blank_or_visible : (∀ d ∈ c :: after, isSpace d = true) ∨
      ∃ d ∈ c :: after, isSpace d = false := by
    by_cases visible : ∃ d ∈ c :: after, isSpace d = false
    next => exact .inr visible
    next => exact .inl (by simpa using visible)
  -- Whatever is taken off the end of the line, the first colon stays.
  have colonAt : shown.toList.idxOf ':' = number.length + 4 + before.length := by
    rcases blank_or_visible with blank | visible
    · rw [source, shown_of_blank number before c after blank,
        idxOf_colon number before [] plain first]
    · obtain ⟨more, shows⟩ := shown_of_visible number before c after visible
      rw [source, shows, idxOf_colon number before _ plain first]
  constructor
  case shown_eq => exact source
  case marked => simp [below]
  case column =>
    rw [caretAt, length_gutter, List.length_append]
    rfl
  case behindColon => omega
  case under =>
    intro visible
    obtain ⟨more, shows⟩ := shown_of_visible number before c after visible
    have behind :
      number.length + 4 + (before.length + 1) - (gutter number ++ before).length = 1 := by
      rw [List.length_append, length_gutter]
      omega
    rw [caretAt, source, shows, List.getElem?_append_right (by omega), behind]
    rfl
  case behindLine =>
    intro blank
    have shows := source.trans (shown_of_blank number before c after blank)
    refine ⟨shows, ?_⟩
    rw [caretAt, shows, List.length_append, List.length_append, length_gutter,
      List.length_singleton]
    omega

end Source

theorem annotatedLines_placed (failure : FileFailure) (line column : Int) (snippet : String)
    (numbered : failure.line = some line) (placed : failure.column = some column)
    (near : failure.snippet = some snippet) :
    ∃ shown caret, failure.annotatedLines =
        [failure.headline,
          "  --> " ++ failure.path ++ ":" ++ toString line ++ ":" ++ toString column, "   |", shown,
          caret, "   |"] ∧
      shown.toList = gutter (toString line) ++ trimRight snippet.toList ∧
      caret.toList = gutter (spaces (toString line).length) ++
        (List.replicate (column - 1).toNat ' ' ++ '^' :: ' ' :: failure.message.toList) := by
  have written := toList_excerpt failure line column snippet
  obtain ⟨shown, caret, lines⟩ : ∃ shown caret,
      failure.excerpt line column snippet = [shown, caret] := ⟨_, _, rfl⟩
  rw [lines, List.map_cons, List.map_cons, List.map_nil, List.cons.injEq,
    List.cons.injEq] at written
  refine ⟨shown, caret, ?_, written.1, written.2.1⟩
  simp [annotatedLines, numbered, placed, near, lines]

theorem headline_colonSpacing (path : String) (r : Rejection)
    (category : r.category = .colonSpacing) :
    (ofRejection path r).headline = "error[E003]: no space after colon" := by
  have kind : (ofRejection path r).kind = .colonSpacing := by
    change r.category.kind = .colonSpacing
    rw [category]
    rfl
  rw [headline, kind]
  decide

theorem annotated_caret (source path : String) (filename : Option String) (r : Rejection)
    (found : ColonScan.check source filename = some r) :
    ∃ (before after : List Char) (c : Char) (number shown caret : String),
      r.snippet = some (String.ofList (before ++ ':' :: c :: after)) ∧ ':' ∉ before ∧
      r.line.map toString = some number ∧
      (ofRejection path r).annotatedLines =
        ["error[E003]: no space after colon",
          "  --> " ++ path ++ ":" ++ number ++ ":" ++ toString (before.length + 2), "   |", shown,
          caret, "   |"] ∧
      (ofRejection path r).styled .annotated =
        "\n".intercalate (ofRejection path r).annotatedLines ∧
      Marks number before c after shown caret := by
  obtain ⟨i, line, first⟩ := ColonScan.exists_first_of_check source filename r found
  obtain ⟨same, rejected, category, numbered, column, near⟩ :=
    ColonScan.check_of_first source filename i line first
  rw [found] at rejected
  cases rejected
  obtain ⟨-, -, -, -, ⟨before, c, after, rfl, noColon, -, -⟩, -⟩ := first
  rw [ColonScan.colonIndex_eq before _ noColon] at column
  generalize (ColonScan.normalize source.toList).offset + i + 1 = n at numbered
  obtain ⟨shown, caret, lines, source, below⟩ :=
    annotatedLines_placed (ofRejection path r) n (before.length + 2 : Nat) _ numbered column near
  have source : shown.toList = gutter n.repr ++ trimRight (before ++ ':' :: c :: after) := by
    rw [source, String.toList_ofList]
    rfl
  have shift : ((before.length + 2 : Nat) - 1 : Int).toNat = before.length + 1 := by omega
  rw [shift] at below
  have digits : ':' ∉ n.repr.toList := not_mem_repr ':' (by decide) n
  refine ⟨before, after, c, n.repr, shown, caret, near, noColon, by rw [numbered]; rfl, ?_, rfl,
    marks n.repr before c after shown caret _ digits noColon source below⟩
  rw [lines, headline_colonSpacing path r category]
  rfl

def tenth : String := "# t\n---\n\n\n\n\n\n\n\n  key:\t \n"

theorem annotated_caret_tenth :
    ∃ r, ColonScan.check tenth none = some r ∧ ∃ shown caret,
      (ofRejection "t.yml" r).annotatedLines[3]? = some shown ∧
      (ofRejection "t.yml" r).annotatedLines[4]? = some caret ∧
      shown = " 10 |   key:" ∧ '^' ∈ caret.toList ∧
      caret.toList.idxOf '^' = shown.toList.idxOf ':' + 1 ∧
      caret.toList.idxOf '^' = shown.toList.length := by
  have block : (ColonScan.check tenth none).map
      (fun r => (ofRejection "t.yml" r).annotatedLines[3]?) = some (some " 10 |   key:") := by
    cbv
  obtain ⟨r, found, third⟩ := Option.map_eq_some_iff.mp block
  obtain ⟨before, after, c, number, shown, caret, -, -, -, lines, -, marks⟩ :=
    annotated_caret tenth "t.yml" none r found
  rw [lines] at third
  have isShown : shown = " 10 |   key:" := Option.some.inj third
  refine ⟨r, found, shown, caret, by rw [lines]; rfl, by rw [lines]; rfl, isShown, marks.marked,
    marks.behindColon, ?_⟩
  rw [marks.behindColon, isShown]
  decide

end FileFailure

end LocaleLint
