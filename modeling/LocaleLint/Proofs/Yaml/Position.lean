import LocaleLint.Rejection
import LocaleLint.Yaml.Position
import LocaleLint.Proofs.Text.Breaks

set_option autoImplicit false

namespace LocaleLint.Yaml

open LocaleLint.Text

theorem endsLine_iff (c : Char) (rest : List Char) :
    endsLine c rest = true ↔ isBreak c = true ∧ ¬ StaysOpen c rest := by
  simp [endsLine, StaysOpen, imp_iff_not_or]

theorem endsLine_of_plain (c : Char) (rest : List Char) (plain : isBreak c = false) :
    endsLine c rest = false := by
  simp [endsLine, plain]

namespace Position

theorem line_step_of_ends (p : Position) (c : Char) (rest : List Char)
    (ends : endsLine c rest = true) : (p.step c rest).line = p.line + 1 := by
  rw [step, if_pos ends]

theorem column_step_of_ends (p : Position) (c : Char) (rest : List Char)
    (ends : endsLine c rest = true) : (p.step c rest).column = 0 := by
  rw [step, if_pos ends]

theorem line_step (p : Position) (c : Char) (rest : List Char) (opened : endsLine c rest = false) :
    (p.step c rest).line = p.line := by
  rw [step, if_neg (by simp [opened])]
  split <;> rfl

theorem column_step (p : Position) (c : Char) (rest : List Char)
    (opened : endsLine c rest = false) :
    (p.step c rest).column = p.column + [c].countP (· != '\ufeff') := by
  rw [step, if_neg (by simp [opened])]
  by_cases mark : c = '\ufeff' <;> simp [mark]

@[simp]
theorem after_zero (p : Position) (text : List Char) : p.after text 0 = p := by
  cases text <;> rfl

theorem after_succ (p : Position) (c : Char) (rest : List Char) (count : Nat) :
    p.after (c :: rest) (count + 1) = (p.step c rest).after rest count := rfl

theorem after_add (p : Position) (text : List Char) (m n : Nat) :
    p.after text (m + n) = (p.after text m).after (text.drop m) n := by
  induction m generalizing p text with
  | zero => rw [Nat.zero_add, after_zero, List.drop_zero]
  | succ m ih =>
    cases text with
    | nil =>
      rw [Nat.add_right_comm]
      cases n <;> rfl
    | cons c rest =>
      rw [Nat.add_right_comm, after_succ, ih, after_succ, List.drop_succ_cons]

theorem after_plain (p : Position) (line rest : List Char) (plain : ∀ c ∈ line, isBreak c = false) :
    (p.after (line ++ rest) line.length).line = p.line ∧
      (p.after (line ++ rest) line.length).column = p.column + line.countP (· != '\ufeff') := by
  induction line generalizing p with
  | nil => simp
  | cons c line ih =>
    have opened := endsLine_of_plain c (line ++ rest) (plain c (List.mem_cons_self ..))
    obtain ⟨sameLine, further⟩ := ih (p.step c (line ++ rest)) fun d member =>
      plain d (List.mem_cons_of_mem _ member)
    rw [List.cons_append, List.length_cons, after_succ]
    refine ⟨sameLine.trans (line_step p c _ opened), ?_⟩
    rw [further, column_step p c _ opened, List.countP_cons, List.countP_cons]
    simp
    omega

theorem line_after (p : Position) (before rest : List Char)
    (apart : Apart before rest) :
    (p.after (before ++ rest) before.length).line + 1 = p.line + (segments before).length := by
  rw [segments_eq]
  -- A return with its feed is two steps, of which only the second ends the line.
  fun_induction linesBy isBreak before generalizing p with
  | case1 => simp
  | case2 later ih =>
    have opened : endsLine '\r' ('\n' :: (later ++ rest)) = false := rfl
    have ends : endsLine '\n' (later ++ rest) = true := rfl
    have further := ih ((p.step '\r' ('\n' :: (later ++ rest))).step '\n' (later ++ rest))
      apart.tail.tail
    rw [line_step_of_ends _ _ _ ends, line_step _ _ _ opened] at further
    simp only [List.cons_append, List.length_cons, after_succ]
    omega
  | case3 c later lone isEnd ih =>
    have ends : endsLine c (later ++ rest) = true :=
      (endsLine_iff _ _).mpr ⟨isEnd, apart.alone lone⟩
    have further := ih (p.step c (later ++ rest)) apart.tail
    rw [line_step_of_ends _ _ _ ends] at further
    simp only [List.cons_append, List.length_cons, after_succ]
    omega
  | case4 c later lone inside ih =>
    have opened := endsLine_of_plain c (later ++ rest) (by simpa using inside)
    have further := ih (p.step c (later ++ rest)) apart.tail
    rw [line_step _ _ _ opened] at further
    rw [length_extendFirst c _ (linesBy_ne_nil isBreak later)]
    exact further

theorem column_after (p : Position) (before rest : List Char)
    (begins : LineBegins isBreak before rest) (fresh : before = [] → p.column = 0) :
    (p.after (before ++ rest) before.length).column = 0 := by
  rcases begins with rfl | ⟨early, c, rfl, isEnd, alone⟩
  · simpa using fresh rfl
  · have ends : endsLine c rest = true := (endsLine_iff c rest).mpr ⟨isEnd, alone⟩
    rw [List.length_append, after_add, List.append_assoc, List.drop_left]
    simp only [List.cons_append, List.nil_append, List.length_singleton, after_succ, after_zero]
    exact column_step_of_ends _ _ _ ends

end Position

section
variable {source : List Char} {placed : PlacedLine} (isOf : placed.IsOf isBreak source)

include isOf

theorem positionAt_begin :
    (positionAt source placed.before.length).line + 1 = (segments placed.before).length ∧
      (positionAt source placed.before.length).column = 0 := by
  rw [isOf.whole]
  constructor
  · have lines := Position.start.line_after _ _ isOf.begins.apart
    rwa [Position.start, Nat.zero_add] at lines
  · exact Position.column_after _ _ _ isOf.begins fun _ => rfl

theorem positionAt_of_holds (index : Nat) (holds : placed.Holds index) :
    (positionAt source index).line + 1 = (segments placed.before).length ∧
      (positionAt source index).column =
        ((source.take index).drop placed.before.length).countP (· != '\ufeff') := by
  obtain ⟨count, rfl⟩ := Nat.exists_eq_add_of_le holds.1
  have within : count ≤ placed.line.length + (placed.ending.length - 1) := by
    have inside := holds.2
    omega
  obtain ⟨begun, fresh⟩ := positionAt_begin isOf
  have here :
    source.drop placed.before.length = placed.line ++ (placed.ending ++ placed.after) := by
    conv_lhs => rw [isOf.whole]
    exact List.drop_left
  rw [positionAt, Position.after_add, ← positionAt, ← begun, List.drop_take, here,
    Nat.add_sub_cancel_left]
  by_cases inLine : count ≤ placed.line.length
  next =>
    -- The characters of the line that were read end no line themselves.
    obtain ⟨sameLine, counted⟩ := (positionAt source placed.before.length).after_plain
      (placed.line.take count) (placed.line.drop count ++ (placed.ending ++ placed.after))
      fun c member => isOf.plain c (List.take_subset _ _ member)
    rw [List.length_take_of_le inLine, ← List.append_assoc,
      List.take_append_drop] at sameLine counted
    rw [sameLine, counted, fresh, Nat.zero_add, List.take_append_of_le_length inLine]
    exact ⟨rfl, rfl⟩
  next =>
    -- Behind its line and still before its end there is one place: between a return and its feed.
    obtain ⟨before, line, ending, after⟩ := placed
    cases isOf.closes with
    | last => exact absurd within inLine
    | single => exact absurd within inLine
    | pair =>
      obtain rfl : count = line.length + 1 := by
        simp only [List.length_cons, List.length_nil] at within inLine
        omega
      have opened : endsLine '\r' ('\n' :: after) = false := rfl
      obtain ⟨sameLine, counted⟩ := (positionAt source before.length).after_plain line
        (['\r', '\n'] ++ after) isOf.plain
      rw [Position.after_add, List.drop_left, List.take_length_add_append, List.countP_append]
      simp only [List.cons_append, List.nil_append, Position.after_succ,
        Position.after_zero] at sameLine counted ⊢
      rw [Position.line_step _ _ _ opened, Position.column_step _ _ _ opened, sameLine,
        counted, fresh]
      simp

end

namespace Cursor

theorem skip_eq (count : Nat) (cursor : Cursor) :
    skip count cursor = ⟨cursor.rest.drop count, cursor.place.after cursor.rest count⟩ := by
  induction count generalizing cursor with
  | zero => simp [skip]
  | succ count ih =>
    obtain ⟨rest, place⟩ := cursor
    cases rest with
    | nil =>
      rw [skip, ih]
      cases count <;> simp [next, Position.after]
    | cons c rest =>
      rw [skip, ih, next, List.drop_succ_cons, Position.after_succ]

theorem place_skip (source : List Char) (index : Nat) :
    (skip index (ofText source)).place = positionAt source index := by
  rw [skip_eq]
  rfl

end Cursor

end LocaleLint.Yaml

namespace LocaleLint.Rejection

open LocaleLint.Text LocaleLint.Yaml

theorem lineAt_of_isOf {source : List Char} {placed : PlacedLine}
    (isOf : placed.IsOf isBreak source) :
    lineAt source ((segments placed.before).length : Nat) = some placed.line := by
  have found := isOf.getElem? rfl
  rw [← segments_eq, ← segments_eq] at found
  have some : 0 < (segments placed.before).length := List.length_pos_iff.mpr (segments_ne_nil _)
  rw [lineAt, if_pos (by exact_mod_cast some)]
  simpa using found

structure Shows (r : Rejection) (source : List Char) (index : Nat) (place : Position)
    (placed : PlacedLine) : Prop where
  line : r.line = some (place.line + 1 : Int)
  column : r.column = some (place.column + 1 : Int)
  snippet : r.snippet = some (String.ofList placed.line)
  unbroken : ∀ c ∈ placed.line, isBreak c = false
  counted : place.column = ((source.take index).drop placed.before.length).countP (· != '\ufeff')
  offset : '\ufeff' ∉ (source.take index).drop placed.before.length →
    place.column = index - placed.before.length

theorem ofProblem_place (source : String) (filename : Option String) (index : Nat)
    (within : index ≤ source.toList.length) (problem : Problem) (mark : Mark) (place : Position)
    (reached : (Cursor.skip index (Cursor.ofText source.toList)).place = place)
    (marked : problem.mark = some mark) (line : mark.line = place.line)
    (column : mark.column = place.column) :
    (ofProblem problem source filename).message = problem.message ∧ problem.message ≠ "" ∧
      (∃ placed : PlacedLine, placed.IsOf isBreak source.toList ∧ placed.Holds index) ∧
      ∀ placed : PlacedLine, placed.IsOf isBreak source.toList → placed.Holds index →
        (ofProblem problem source filename).Shows source.toList index place placed := by
  rw [Cursor.place_skip] at reached
  refine ⟨rfl, problem.message_ne, exists_placed rfl source.toList index within, ?_⟩
  intro placed isOf holds
  obtain ⟨ended, counted⟩ := positionAt_of_holds isOf index holds
  rw [reached] at ended counted
  constructor
  case line => simp [ofProblem, marked, line]
  case column => simp [ofProblem, marked, column]
  case snippet =>
    have number : mark.line + 1 = ((segments placed.before).length : Nat) := by
      rw [line, ← ended]
      rfl
    simp [ofProblem, marked, number, lineAt_of_isOf isOf]
  case unbroken => exact isOf.plain
  case counted => exact counted
  case offset =>
    intro unmarked
    have all : ∀ c ∈ (source.toList.take index).drop placed.before.length,
      (c != '\ufeff') = true := by
      intro c member
      rw [bne_iff_ne]
      rintro rfl
      exact unmarked member
    rw [counted, List.countP_eq_length.mpr all, List.length_drop, List.length_take_of_le within]

theorem ofProblem_torn :
    4 ≤ "a\u2028b\r\nc".toList.length ∧
      (Cursor.skip 4 (Cursor.ofText "a\u2028b\r\nc".toList)).place = ⟨4, 1, 2⟩ ∧
      (ofProblem (.marked ⟨none, none, none, some ⟨"", 1, 2, none⟩, none⟩) "a\u2028b\r\nc"
        none).snippet =
        some "b" := by
  have within : 4 ≤ "a\u2028b\r\nc".toList.length := by decide
  have reached : (Cursor.skip 4 (Cursor.ofText "a\u2028b\r\nc".toList)).place = ⟨4, 1, 2⟩ := by
    decide
  refine ⟨within, reached, ?_⟩
  have shows := (ofProblem_place "a\u2028b\r\nc" none 4 within
    (.marked ⟨none, none, none, some ⟨"", 1, 2, none⟩, none⟩) ⟨"", 1, 2, none⟩ ⟨4, 1, 2⟩
      reached rfl rfl
    rfl).2.2.2 ⟨['a', '\u2028'], ['b'], ['\r', '\n'], ['c']⟩
  have isOf : (⟨['a', '\u2028'], ['b'], ['\r', '\n'], ['c']⟩ : PlacedLine).IsOf isBreak
      "a\u2028b\r\nc".toList := by
    constructor
    case whole => decide
    case begins => exact .inr ⟨['a'], '\u2028', rfl, by decide, by simp [StaysOpen]⟩
    case plain => simp [isBreak]
    case closes => exact .pair ['c']
  exact (shows isOf ⟨by decide, by decide⟩).snippet

end LocaleLint.Rejection
