import LocaleLint.ColonScan
import LocaleLint.Proofs.Text.Lines

set_option autoImplicit false

namespace LocaleLint.ColonScan

open LocaleLint.Text

theorem firstLine?_line (line after : List Char) (single : '\n' ∉ line) :
    firstLine? (line ++ '\n' :: after) = some (line, after) := by
  induction line with
  | nil => simp [firstLine?]
  | cons c line ih =>
    simp only [List.mem_cons, not_or] at single
    rw [List.cons_append, firstLine?, if_neg (Ne.symm single.1), ih single.2]
    rfl

theorem firstLine?_single (text line after : List Char)
    (found : firstLine? text = some (line, after)) :
    '\n' ∉ line := by
  induction text generalizing line after with
  | nil => simp [firstLine?] at found
  | cons c rest ih =>
    rw [firstLine?] at found
    by_cases feed : c = '\n'
    next =>
      rw [if_pos feed] at found
      cases found
      simp
    next =>
      rw [if_neg feed] at found
      obtain ⟨⟨shorter, later⟩, inside, same⟩ := Option.map_eq_some_iff.mp found
      cases same
      simp [Ne.symm feed, ih shorter _ inside]

theorem dropLinesWhile_of_other (drops : List Char → Bool) (text line after : List Char)
    (found : firstLine? text = some (line, after)) (other : drops line = false) :
    dropLinesWhile drops text = (text, 0) := by
  unfold dropLinesWhile
  split
  · next same =>
    rw [found] at same
    cases same
    rw [other]
    rfl
  · rfl

def Opens (kind : List Char → Prop) (text : List Char) : Prop :=
  ∃ line after, text = line ++ '\n' :: after ∧ '\n' ∉ line ∧ kind line

theorem opens_iff (kind : List Char → Prop) (text : List Char) :
    Opens kind text ↔ ∃ line after, firstLine? text = some (line, after) ∧ kind line := by
  constructor
  · rintro ⟨line, after, rfl, single, isKind⟩
    exact ⟨line, after, firstLine?_line line after single, isKind⟩
  · rintro ⟨line, after, found, isKind⟩
    exact ⟨line, after, firstLine?_eq text line after found,
      firstLine?_single text line after found,
      isKind⟩

theorem not_opens_of_none (kind : List Char → Prop) (text : List Char)
    (missing : firstLine? text = none) : ¬ Opens kind text := by
  rw [opens_iff, missing]
  simp

theorem not_opens_of_other (kind : List Char → Prop) (text line after : List Char)
    (found : firstLine? text = some (line, after)) (other : ¬ kind line) : ¬ Opens kind text := by
  rw [opens_iff, found]
  rintro ⟨same, after, equal, isKind⟩
  cases equal
  exact other isKind

def TakesFirst (kind : List Char → Prop) (taken : List (List Char)) (rest : List Char) : Prop :=
  (∃ line, taken = [line] ∧ kind line) ∨ (taken = [] ∧ ¬ Opens kind rest)

def TakesAll (kind : List Char → Prop) (taken : List (List Char)) (rest : List Char) : Prop :=
  (∀ line ∈ taken, kind line) ∧ ¬ Opens kind rest

section
variable (kind : List Char → Prop) (drops : List Char → Bool)
  (same : ∀ line, drops line = true ↔ kind line)

include same

theorem dropLineIf_takes (text rest : List Char) (count : Nat)
    (dropped : dropLineIf drops text = (rest, count)) :
    ∃ taken, text = terminated taken ++ rest ∧ count = taken.length ∧
      (∀ line ∈ taken, '\n' ∉ line) ∧ TakesFirst kind taken rest := by
  unfold dropLineIf at dropped
  cases found : firstLine? text with
  | none =>
    simp only [found] at dropped
    cases dropped
    exact ⟨[], rfl, rfl, by simp, .inr ⟨rfl, not_opens_of_none kind text found⟩⟩
  | some pair =>
    obtain ⟨line, after⟩ := pair
    simp only [found] at dropped
    by_cases isKind : drops line = true
    next =>
      rw [if_pos isKind] at dropped
      cases dropped
      refine ⟨[line], ?_, rfl, ?_, .inl ⟨line, rfl, (same line).mp isKind⟩⟩
      · simpa [terminated] using firstLine?_eq text line rest found
      · simpa using firstLine?_single text line rest found
    next =>
      have other : ¬ kind line := fun holds => isKind ((same line).mpr holds)
      rw [if_neg isKind] at dropped
      cases dropped
      exact ⟨[], rfl, rfl, by simp, .inr ⟨rfl, not_opens_of_other kind text line after found other⟩⟩

theorem dropLinesWhile_takes (text rest : List Char) (count : Nat)
    (dropped : dropLinesWhile drops text = (rest, count)) :
    ∃ taken, text = terminated taken ++ rest ∧ count = taken.length ∧
      (∀ line ∈ taken, '\n' ∉ line) ∧ TakesAll kind taken rest := by
  fun_induction dropLinesWhile drops text generalizing rest count with
  | case1 text line after found isKind more number later ih =>
    cases dropped
    obtain ⟨taken, whole, counted, single, all, stops⟩ := ih more number later
    refine ⟨line :: taken, ?_, by simp [counted], ?_, ?_, stops⟩
    · rw [firstLine?_eq text line after found]
      simp [terminated, whole]
    · simpa [firstLine?_single text line after found] using single
    · simpa [(same line).mp isKind] using all
  | case2 text line after found isKind =>
    have other : ¬ kind line := fun holds => isKind ((same line).mpr holds)
    cases dropped
    exact ⟨[], rfl, rfl, by simp, by simp, not_opens_of_other kind _ line after found other⟩
  | case3 text found =>
    cases dropped
    exact ⟨[], rfl, rfl, by simp, by simp, not_opens_of_none kind _ found⟩

end

def StartsVersion (line : List Char) : Prop :=
  ∃ separator c more, line = "%YAML".toList ++ separator :: c :: more ∧
    (separator = ':' ∨ separator = ' ') ∧ (isDecimal c = true ∨ c = '.')

def StartsComment (line : List Char) : Prop := ∃ more, line = '#' :: more

def StartsDocument (line : List Char) : Prop := ∃ more, line = "---".toList ++ more

theorem isVersionLine_iff (line : List Char) : isVersionLine line = true ↔ StartsVersion line := by
  rw [isVersionLine, Bool.and_eq_true, List.isPrefixOf_iff_prefix]
  constructor
  · rintro ⟨⟨rest, rfl⟩, starts⟩
    have behind : ("%YAML".toList ++ rest).drop 5 = rest := rfl
    rw [behind] at starts
    match rest with
    | [] | [_] => cases starts
    | separator :: c :: more =>
      exact ⟨separator, c, more, rfl, by simpa using starts⟩
  · rintro ⟨separator, c, more, rfl, starts⟩
    have behind : ("%YAML".toList ++ separator :: c :: more).drop 5 = separator :: c :: more := rfl
    refine ⟨List.prefix_append _ _, ?_⟩
    rw [behind]
    simpa using starts

theorem isCommentLine_iff (line : List Char) : isCommentLine line = true ↔ StartsComment line := by
  cases line <;> simp [isCommentLine, StartsComment]

theorem isStartLine_iff (line : List Char) : isStartLine line = true ↔ StartsDocument line := by
  rw [isStartLine, List.isPrefixOf_iff_prefix]
  constructor
  · rintro ⟨more, whole⟩
    exact ⟨more, whole.symm⟩
  · rintro ⟨more, rfl⟩
    exact List.prefix_append _ _

def IsEnd (text : List Char) : Prop :=
  ∃ blanks, text = "...".toList ++ blanks ∧ ∀ c ∈ blanks, isSpace c = true

theorem isEndMarker_iff (text : List Char) : isEndMarker text = true ↔ IsEnd text := by
  rw [isEndMarker, Bool.and_eq_true, List.isPrefixOf_iff_prefix, List.all_eq_true]
  constructor
  · rintro ⟨⟨blanks, rfl⟩, white⟩
    exact ⟨blanks, rfl, white⟩
  · rintro ⟨blanks, rfl, white⟩
    exact ⟨List.prefix_append _ _, white⟩

def HasEnd (text : List Char) : Prop := ∃ before marker, text = before ++ marker ∧ IsEnd marker

def CutsEnd (text tail : List Char) : Prop := IsEnd tail ∨ tail = [] ∧ ¬ HasEnd text

theorem dropEndMarker_cuts (text : List Char) :
    ∃ tail, text = dropEndMarker text ++ tail ∧ CutsEnd text tail := by
  induction text with
  | nil =>
    refine ⟨[], rfl, .inr ⟨rfl, ?_⟩⟩
    rintro ⟨before, marker, none, blanks, rfl, -⟩
    simp at none
  | cons c rest ih =>
    rw [dropEndMarker]
    by_cases ends : isEndMarker (c :: rest) = true
    next =>
      rw [if_pos ends]
      exact ⟨c :: rest, rfl, .inl ((isEndMarker_iff _).mp ends)⟩
    next =>
      -- No document end starts here, so one of the whole text is one of the rest.
      rw [if_neg ends]
      obtain ⟨tail, whole, cuts⟩ := ih
      refine ⟨tail, by rw [List.cons_append, ← whole], ?_⟩
      rcases cuts with marked | ⟨none, unmarked⟩
      · exact .inl marked
      · refine .inr ⟨none, ?_⟩
        rintro ⟨before, marker, split, isEnd⟩
        cases before with
        | nil =>
          rw [List.nil_append] at split
          exact ends ((isEndMarker_iff _).mpr (split ▸ isEnd))
        | cons d before => exact unmarked ⟨before, marker, (List.cons.inj split).2, isEnd⟩

/-- A text in parts: lines that are taken off the front, what is scanned, and the document end. -/
structure Layout where
  version : List (List Char)
  comments : List (List Char)
  start : List (List Char)
  text : List Char
  tail : List Char

namespace Layout

def taken (layout : Layout) : List (List Char) := layout.version ++ layout.comments ++ layout.start

def header (layout : Layout) : List Char := terminated layout.taken

def body (layout : Layout) : List Char := layout.text ++ layout.tail

structure IsOf (layout : Layout) (whole : List Char) : Prop where
  split : whole = layout.header ++ layout.body
  single : ∀ line ∈ layout.taken, '\n' ∉ line
  version : TakesFirst StartsVersion layout.version
    (terminated layout.comments ++ (terminated layout.start ++ layout.body))
  comments : TakesAll StartsComment layout.comments (terminated layout.start ++ layout.body)
  start : TakesFirst StartsDocument layout.start layout.body
  open_end : layout.start = [] → layout.tail = []
  marked_end : layout.start ≠ [] → CutsEnd layout.body layout.tail

theorem IsOf.lines {layout : Layout} {whole : List Char} (isOf : layout.IsOf whole) :
    linesOf whole = layout.taken ++ linesOf layout.body := by
  rw [isOf.split, header, linesOf_terminated _ _ isOf.single]

theorem IsOf.count_header {layout : Layout} {whole : List Char} (isOf : layout.IsOf whole) :
    layout.header.count '\n' = layout.taken.length :=
  count_terminated _ isOf.single

theorem IsOf.line {layout : Layout} {whole : List Char} (isOf : layout.IsOf whole) (i : Nat)
    (line : List Char) (found : (linesOf layout.text)[i]? = some line) :
    (linesOf whole)[layout.taken.length + i]? =
      some (if i + 1 = (linesOf layout.text).length then line ++ layout.tail.takeWhile (· != '\n')
        else line) := by
  rw [isOf.lines, List.getElem?_append_right (Nat.le_add_right _ _), Nat.add_sub_cancel_left]
  exact getElem?_linesOf_append layout.text layout.tail line i found

end Layout

theorem exists_layout (source : List Char) :
    ∃ layout : Layout, layout.IsOf (unifyLineEnds source) ∧
      normalize source = ⟨layout.text, layout.taken.length⟩ := by
  obtain ⟨afterVersion, versions, atVersion⟩ :
      ∃ rest count, dropLineIf isVersionLine (unifyLineEnds source) = (rest, count) := ⟨_, _, rfl⟩
  obtain ⟨afterComments, number, atComments⟩ :
      ∃ rest count, dropLinesWhile isCommentLine afterVersion = (rest, count) := ⟨_, _, rfl⟩
  obtain ⟨body, starts, atStart⟩ :
      ∃ rest count, dropLineIf isStartLine afterComments = (rest, count) := ⟨_, _, rfl⟩
  have normalized : normalize source =
      ⟨if starts = 0 then body else dropEndMarker body, versions + number + starts⟩ := by
    simp only [normalize, atVersion, atComments, atStart]
  -- Each step leaves the text that the next one starts from.
  obtain ⟨version, whole, rfl, versionLines, isVersion⟩ :=
    dropLineIf_takes StartsVersion isVersionLine isVersionLine_iff _ _ _ atVersion
  obtain ⟨comments, rfl, rfl, commentLines, areComments⟩ :=
    dropLinesWhile_takes StartsComment isCommentLine isCommentLine_iff _ _ _ atComments
  obtain ⟨start, rfl, rfl, startLines, isStart⟩ :=
    dropLineIf_takes StartsDocument isStartLine isStartLine_iff _ _ _ atStart
  obtain ⟨text, tail, rfl, scanned, openEnd, markedEnd⟩ : ∃ text tail, body = text ++ tail ∧
      text = (if start.length = 0 then body else dropEndMarker body) ∧
        (start = [] → tail = []) ∧ (start ≠ [] → CutsEnd body tail) := by
    by_cases none : start = []
    next => exact ⟨body, [], by simp, by simp [none], by simp, by simp [none]⟩
    next =>
      obtain ⟨tail, split, cuts⟩ := dropEndMarker_cuts body
      have some : start.length ≠ 0 := by simpa using none
      exact ⟨dropEndMarker body, tail, split, by rw [if_neg some], by simp [none], fun _ => cuts⟩
  refine ⟨⟨version, comments, start, text, tail⟩, ?_, ?_⟩
  · constructor
    case split => simp [whole, Layout.header, Layout.taken, Layout.body, terminated_append]
    case single =>
      intro line member
      simp only [Layout.taken, List.mem_append] at member
      rcases member with (member | member) | member
      · exact versionLines line member
      · exact commentLines line member
      · exact startLines line member
    case version => exact isVersion
    case comments => exact areComments
    case start => exact isStart
    case open_end => exact openEnd
    case marked_end => exact markedEnd
  · rw [normalized, ← scanned]
    simp [Layout.taken, Nat.add_assoc]

theorem normalize_layout (source : List Char) :
    ∃ layout : Layout, layout.IsOf (unifyLineEnds source) ∧
      (normalize source).text = layout.text ∧
      (normalize source).offset = layout.header.count '\n' ∧
      (layout.header = [] ∨ layout.header.getLast? = some '\n') ∧
      ∀ i line, (linesOf (normalize source).text)[i]? = some line →
        (linesOf (unifyLineEnds source))[(normalize source).offset + i]? =
          some (if i + 1 = (linesOf (normalize source).text).length then
            line ++ layout.tail.takeWhile (· != '\n') else line) := by
  obtain ⟨layout, isOf, normalized⟩ := exists_layout source
  rw [normalized]
  exact ⟨layout, isOf, rfl, isOf.count_header.symm, getLast?_terminated _, isOf.line⟩

example : normalize "%YAML 1.2\r\n# c\r--- x\na: 1\n... \n".toList = ⟨"a: 1\n".toList, 3⟩ := by
  decide +kernel

end LocaleLint.ColonScan
