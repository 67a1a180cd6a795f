import Mathlib.Data.List.Basic
import LocaleLint.Text.Lines

set_option autoImplicit false

namespace LocaleLint.Text

theorem linesOf_feed (rest : List Char) : linesOf ('\n' :: rest) = [] :: linesOf rest := by
  simp [linesOf, splitOn]

theorem linesOf_char (c : Char) (rest : List Char) (inside : c ≠ '\n') :
    linesOf (c :: rest) = extendFirst c (linesOf rest) := by
  simp [linesOf, splitOn, inside]

theorem exists_linesOf (text : List Char) : ∃ first more, linesOf text = first :: more :=
  List.exists_cons_of_ne_nil (splitOn_ne_nil '\n' text)

theorem linesOf_append (text after : List Char) :
    ∃ before last first more, linesOf text = before ++ [last] ∧ linesOf after = first :: more ∧
      linesOf (text ++ after) = before ++ (last ++ first) :: more := by
  induction text with
  | nil =>
    obtain ⟨first, more, lines⟩ := exists_linesOf after
    exact ⟨[], [], first, more, rfl, lines, lines⟩
  | cons c rest ih =>
    obtain ⟨before, last, first, more, lines, later, joined⟩ := ih
    by_cases feed : c = '\n'
    next =>
      refine ⟨[] :: before, last, first, more, ?_, later, ?_⟩
      · simp [feed, linesOf_feed, lines]
      · simp [feed, linesOf_feed, joined]
    next =>
      -- The character goes to the first line, which is the one at the seam if there is no other.
      cases before with
      | nil =>
        refine ⟨[], c :: last, first, more, ?_, later, ?_⟩
        · simp [linesOf_char c rest feed, lines, extendFirst]
        · simp [linesOf_char c _ feed, joined, extendFirst]
      | cons line before =>
        refine ⟨(c :: line) :: before, last, first, more, ?_, later, ?_⟩
        · simp [linesOf_char c rest feed, lines, extendFirst]
        · simp [linesOf_char c _ feed, joined, extendFirst]

theorem linesOf_line (line : List Char) (single : '\n' ∉ line) : linesOf line = [line] := by
  induction line with
  | nil => rfl
  | cons c line ih =>
    simp only [List.mem_cons, not_or] at single
    rw [linesOf_char c line (Ne.symm single.1), ih single.2, extendFirst]

theorem linesOf_line_feed (line rest : List Char) (single : '\n' ∉ line) :
    linesOf (line ++ '\n' :: rest) = line :: linesOf rest := by
  obtain ⟨before, last, first, more, lines, later, joined⟩ := linesOf_append line ('\n' :: rest)
  rw [linesOf_line line single] at lines
  rw [linesOf_feed] at later
  cases later
  obtain ⟨rfl, rfl⟩ : before = [] ∧ last = line := by
    cases before <;> simp_all
  simpa using joined

theorem mem_linesOf (text line : List Char) (member : line ∈ linesOf text) :
    ∀ c ∈ line, c ∈ text ∧ c ≠ '\n' := by
  induction text generalizing line with
  | nil =>
    obtain rfl : line = [] := by simpa [linesOf, splitOn] using member
    simp
  | cons d rest ih =>
    intro c inLine
    by_cases feed : d = '\n'
    next =>
      rw [feed, linesOf_feed, List.mem_cons] at member
      rcases member with rfl | member
      · cases inLine
      · exact ⟨List.mem_cons_of_mem _ (ih line member c inLine).1, (ih line member c inLine).2⟩
    next =>
      obtain ⟨first, more, lines⟩ := exists_linesOf rest
      rw [linesOf_char d rest feed, lines, extendFirst, List.mem_cons] at member
      rcases member with rfl | member
      · rcases List.mem_cons.mp inLine with rfl | inLine
        · exact ⟨List.mem_cons_self .., feed⟩
        · have found := ih first (by simp [lines]) c inLine
          exact ⟨List.mem_cons_of_mem _ found.1, found.2⟩
      · have found := ih line (by simp [lines, member]) c inLine
        exact ⟨List.mem_cons_of_mem _ found.1, found.2⟩

theorem head_linesOf (text : List Char) :
    (linesOf text).head? = some (text.takeWhile (· != '\n')) := by
  induction text with
  | nil => rfl
  | cons c rest ih =>
    by_cases feed : c = '\n'
    next => simp [feed, linesOf_feed]
    next =>
      obtain ⟨first, more, lines⟩ := exists_linesOf rest
      rw [lines, List.head?_cons, Option.some.injEq] at ih
      simp [linesOf_char c rest feed, lines, extendFirst, feed, ih]

theorem getElem?_linesOf_append (text after line : List Char) (i : Nat)
    (found : (linesOf text)[i]? = some line) :
    (linesOf (text ++ after))[i]? =
      some (if i + 1 = (linesOf text).length then line ++ after.takeWhile (· != '\n')
        else line) := by
  obtain ⟨before, last, first, more, lines, later, joined⟩ := linesOf_append text after
  have goesOn := head_linesOf after
  rw [later, List.head?_cons, Option.some.injEq] at goesOn
  obtain ⟨inside, -⟩ := List.getElem?_eq_some_iff.mp found
  rw [lines] at found inside ⊢
  rw [joined, ← goesOn]
  simp only [List.length_append, List.length_singleton] at inside ⊢
  by_cases isLast : i = before.length
  next =>
    subst isLast
    simp_all
  next =>
    have early : i < before.length := by omega
    rw [List.getElem?_append_left early] at found ⊢
    simp [found, isLast]

def terminated (lines : List (List Char)) : List Char := lines.flatMap (· ++ ['\n'])

theorem terminated_append (early late : List (List Char)) :
    terminated (early ++ late) = terminated early ++ terminated late :=
  List.flatMap_append

theorem linesOf_terminated (lines : List (List Char)) (rest : List Char)
    (single : ∀ line ∈ lines, '\n' ∉ line) :
    linesOf (terminated lines ++ rest) = lines ++ linesOf rest := by
  induction lines with
  | nil => rfl
  | cons line lines ih =>
    have later := ih fun other member => single other (List.mem_cons_of_mem _ member)
    have whole :
        terminated (line :: lines) ++ rest = line ++ '\n' :: (terminated lines ++ rest) := by
      simp [terminated]
    rw [whole, linesOf_line_feed line _ (single line (List.mem_cons_self ..)), later,
      List.cons_append]

theorem count_terminated (lines : List (List Char)) (single : ∀ line ∈ lines, '\n' ∉ line) :
    (terminated lines).count '\n' = lines.length := by
  induction lines with
  | nil => rfl
  | cons line lines ih =>
    have later := ih fun other member => single other (List.mem_cons_of_mem _ member)
    have none : line.count '\n' = 0 := List.count_eq_zero.mpr (single line (List.mem_cons_self ..))
    simp only [terminated, List.flatMap_cons, List.count_append, List.length_cons] at later ⊢
    rw [none, later]
    simp
    omega

theorem getLast?_terminated (lines : List (List Char)) :
    terminated lines = [] ∨ (terminated lines).getLast? = some '\n' := by
  rcases lines.eq_nil_or_concat with rfl | ⟨early, last, rfl⟩
  · exact .inl rfl
  · exact .inr (by simp [terminated])

-- The lines of a text in which a line feed, a carriage return or the two together end a line.
def sourceLines : List Char → List (List Char)
  | [] => [[]]
  | '\r' :: '\n' :: rest => [] :: sourceLines rest
  | c :: rest =>
      if c = '\r' ∨ c = '\n' then [] :: sourceLines rest else extendFirst c (sourceLines rest)

theorem length_sourceLines_le (text : List Char) :
    (sourceLines text).length ≤ text.length + 1 := by
  fun_induction sourceLines text with
  | case1 => simp
  | case2 rest ih => simpa using Nat.le_succ_of_le (Nat.succ_le_succ ih)
  | case3 c rest lone ends ih => simpa using Nat.succ_le_succ ih
  | case4 c rest lone other ih =>
    have grown : (extendFirst c (sourceLines rest)).length ≤ (sourceLines rest).length + 1 := by
      cases sourceLines rest <;> simp [extendFirst]
    rw [List.length_cons]
    omega

theorem linesOf_unifyLineEnds (text : List Char) :
    linesOf (unifyLineEnds text) = sourceLines text := by
  fun_induction unifyLineEnds text with
  | case1 => rfl
  | case2 rest ih => rw [linesOf_feed, ih, sourceLines]
  | case3 c rest lone ih =>
    rw [sourceLines]
    · by_cases ends : c = '\r' ∨ c = '\n'
      next =>
        have feed : (if c = '\r' then '\n' else c) = '\n' := by
          rcases ends with rfl | rfl <;> simp
        rw [if_pos ends, feed, linesOf_feed, ih]
      next =>
        rw [if_neg ends]
        simp only [not_or] at ends
        rw [if_neg ends.1, linesOf_char c _ ends.2, ih]
    · exact lone

theorem return_not_mem_unifyLineEnds (text : List Char) : '\r' ∉ unifyLineEnds text := by
  fun_induction unifyLineEnds text with
  | case1 => simp
  | case2 rest ih => simpa using ih
  | case3 c rest lone ih =>
    simp only [List.mem_cons, not_or]
    refine ⟨?_, ih⟩
    split
    · decide
    · next other => exact Ne.symm other

theorem unifyLineEnds_of_not_mem (text : List Char) (plain : '\r' ∉ text) :
    unifyLineEnds text = text := by
  fun_induction unifyLineEnds text with
  | case1 => rfl
  | case2 rest ih => simp at plain
  | case3 c rest lone ih =>
    simp only [List.mem_cons, not_or] at plain
    rw [if_neg (Ne.symm plain.1), ih plain.2]

end LocaleLint.Text
