import LocaleLint.Proofs.ColonScan.DocumentEnd

set_option autoImplicit false

namespace LocaleLint

open LocaleLint.Text

-- Kind and place of a rejection. Of a colon in the first line
-- behind a mark, the column is left out.
def Rejection.told (marked : Bool) (r : Rejection) : Kind × Option Int × Option Int :=
  (r.kind, r.line, if marked && r.kind == .colonSpacing && r.line == some 1 then none else r.column)

namespace ColonScan

/-- The scan would not reject the text for what it leaves out, or for its first line behind a
mark. -/
structure Layout.KeepsNothingBack (layout : Layout) : Prop where
  header : ∀ line ∈ layout.taken, ¬ IsBad line
  ending : layout.tail ≠ [] →
    ∀ key, ':' ∉ key → (linesOf layout.text).getLast? ≠ some (key ++ [':'])
  front : ∀ blanks c after, (∀ b ∈ blanks, b ∈ [' ', '\t', '\n', '\r', '\x00', '\x0b']) →
    (linesOf (layout.header ++ layout.body)).head? = some (blanks ++ ':' :: c :: after) →
      c ∈ [' ', '\x00', '\n']

section
variable {lines others : List (List Char)} {line : List Char} {i : Nat}

theorem IsFirstBad.behind (first : IsFirstBad lines i line) (good : ∀ line ∈ others, ¬ IsBad line) :
    IsFirstBad (others ++ lines) (others.length + i) line := by
  obtain ⟨before, after, rfl, rfl, bad, goodBefore⟩ := first
  refine ⟨others ++ before, after, by simp, by simp, bad, fun earlier member => ?_⟩
  rcases List.mem_append.mp member with inside | inside
  · exact good earlier inside
  · exact goodBefore earlier inside

theorem isFirstBad_cons_iff (head : List Char) :
    IsFirstBad (head :: lines) i line ↔
      (i = 0 ∧ line = head ∧ IsBad head) ∨
        ¬ IsBad head ∧ ∃ j, i = j + 1 ∧ IsFirstBad lines j line := by
  constructor
  · rintro ⟨before, after, whole, rfl, bad, good⟩
    cases before with
    | nil =>
      obtain ⟨rfl, rfl⟩ := List.cons.inj whole
      exact .inl ⟨rfl, rfl, bad⟩
    | cons first before =>
      obtain ⟨rfl, rfl⟩ := List.cons.inj whole
      refine .inr ⟨good head (List.mem_cons_self ..), before.length, rfl, before, after, rfl,
        rfl, bad, ?_⟩
      exact fun earlier member => good earlier (List.mem_cons_of_mem _ member)
  · rintro (⟨rfl, rfl, bad⟩ | ⟨good, j, rfl, first⟩)
    · exact ⟨[], lines, rfl, rfl, bad, by simp⟩
    · have alone : ∀ other ∈ [head], ¬ IsBad other := by simpa using good
      have later := first.behind alone
      rwa [List.length_singleton, Nat.add_comm] at later

end

/-- The bad lines stand at the same places, and the first of them differ behind the colon only. -/
structure SameBad (lines others : List (List Char)) : Prop where
  first : ∀ i line, IsFirstBad others i line → ∃ cut, IsFirstBad lines i (line ++ cut)
  good : (∀ line ∈ others, ¬ IsBad line) → ∀ line ∈ lines, ¬ IsBad line

theorem SameBad.refl (lines : List (List Char)) : SameBad lines lines :=
  ⟨fun _ _ first => ⟨[], by simpa using first⟩, fun good => good⟩

theorem SameBad.cons {lines others : List (List Char)} (same : SameBad lines others)
    (head : List Char) : SameBad (head :: lines) (head :: others) := by
  constructor
  case first =>
    intro i line first
    rcases (isFirstBad_cons_iff head).mp first with ⟨rfl, rfl, bad⟩ | ⟨good, j, rfl, later⟩
    · exact ⟨[], (isFirstBad_cons_iff line).mpr (.inl ⟨rfl, by simp, bad⟩)⟩
    · obtain ⟨cut, again⟩ := same.first j line later
      exact ⟨cut, (isFirstBad_cons_iff head).mpr (.inr ⟨good, j, rfl, again⟩)⟩
  case good =>
    intro good
    rw [List.forall_mem_cons] at good ⊢
    exact ⟨good.1, same.good good.2⟩

theorem sameBad_last (kept cut : List Char) (more : List (List Char)) (isEnd : IsEnd cut)
    (apart : ∀ key, ':' ∉ key → kept ≠ key ++ [':']) (harmless : ∀ line ∈ more, ¬ IsBad line) :
    SameBad ((kept ++ cut) :: more) [kept] := by
  constructor
  case first =>
    intro i line first
    rcases (isFirstBad_cons_iff kept).mp first with ⟨rfl, rfl, bad⟩ | ⟨-, j, -, later⟩
    · exact ⟨cut, (isFirstBad_cons_iff _).mpr (.inl ⟨rfl, rfl, bad.append cut⟩)⟩
    · obtain ⟨before, after, none, -⟩ := later
      simp at none
  case good =>
    intro good
    rw [List.forall_mem_cons]
    refine ⟨fun bad => ?_, harmless⟩
    obtain ⟨key, ends, first⟩ := (not_isBad_iff_of_cut kept cut isEnd bad).mp (good kept (by simp))
    exact apart key first ends

theorem sameBad_append (early : List (List Char)) {lines others : List (List Char)}
    (same : SameBad lines others) : SameBad (early ++ lines) (early ++ others) := by
  induction early with
  | nil => exact same
  | cons head early ih => exact ih.cons head

namespace Layout

variable {layout : Layout} {whole : List Char}

theorem KeepsNothingBack.sameBad (kept : layout.KeepsNothingBack)
    (isOf : layout.IsOf whole) : SameBad (linesOf layout.body) (linesOf layout.text) := by
  by_cases none : layout.tail = []
  next =>
    rw [body, none, List.append_nil]
    exact .refl _
  next =>
    have started : layout.start ≠ [] := fun absent => none (isOf.open_end absent)
    have isEnd : IsEnd layout.tail :=
      (isOf.marked_end started).resolve_right fun absent => none absent.1
    obtain ⟨i, last, endsIn⟩ := exists_endsIn layout.body ⟨layout.text, layout.tail, rfl, isEnd⟩
    obtain ⟨early, cut, more, keptLines, -, lines, cutEnds, harmless⟩ := endsIn.lines
    rw [body, dropEndMarker_append _ _ isEnd] at keptLines
    rw [lines, keptLines]
    refine sameBad_append early (sameBad_last last cut more cutEnds ?_ harmless)
    rintro key first rfl
    exact kept.ending none key first (by simp [keptLines])

end Layout

/-- A mark is no blank, so a first colon behind it is not skipped. -/
theorem isBad_marked_iff (line : List Char) :
    IsBad ('\ufeff' :: line) ↔
      ∃ before c after, line = before ++ ':' :: c :: after ∧ ':' ∉ before ∧
        c ∉ [' ', '\x00', '\n'] := by
  constructor
  · rintro ⟨before, c, after, same, first, -, follows⟩
    cases before with
    | nil => cases (List.cons.inj same).1
    | cons d before =>
      obtain ⟨rfl, rfl⟩ := List.cons.inj same
      exact ⟨before, c, after, rfl, fun inside => first (List.mem_cons_of_mem _ inside), follows⟩
  · rintro ⟨before, c, after, rfl, first, follows⟩
    refine ⟨'\ufeff' :: before, c, after, rfl, ?_, ⟨'\ufeff', by simp, by decide⟩, follows⟩
    simpa using first

theorem isBad_marked (line : List Char)
    (front : ∀ blanks c after, (∀ b ∈ blanks, b ∈ [' ', '\t', '\n', '\r', '\x00', '\x0b']) →
      line = blanks ++ ':' :: c :: after → c ∈ [' ', '\x00', '\n']) :
    IsBad ('\ufeff' :: line) ↔ IsBad line := by
  rw [isBad_marked_iff]
  constructor
  · rintro ⟨before, c, after, rfl, first, follows⟩
    by_cases blank : ∀ b ∈ before, b ∈ [' ', '\t', '\n', '\r', '\x00', '\x0b']
    next => exact absurd (front before c after blank rfl) follows
    next =>
      rw [not_forall] at blank
      obtain ⟨d, visible⟩ := blank
      rw [Classical.not_imp] at visible
      exact ⟨before, c, after, rfl, first, ⟨d, visible⟩, follows⟩
  · rintro ⟨before, c, after, rfl, first, -, follows⟩
    exact ⟨before, c, after, rfl, first, follows⟩

theorem normalize_mark (text : List Char) (plain : '\r' ∉ text) :
    normalize ('\ufeff' :: text) = ⟨'\ufeff' :: text, 0⟩ := by
  have unified : unifyLineEnds ('\ufeff' :: text) = '\ufeff' :: text :=
    unifyLineEnds_of_not_mem _ (by simpa using plain)
  have opens : ∀ drops : List Char → Bool, (∀ line, drops ('\ufeff' :: line) = false) →
      dropLineIf drops ('\ufeff' :: text) = ('\ufeff' :: text, 0) := by
    intro drops none
    rw [dropLineIf, firstLine?, if_neg (by decide)]
    cases firstLine? text with
    | none => rfl
    | some pair => simp [none]
  have comments : dropLinesWhile isCommentLine ('\ufeff' :: text) = ('\ufeff' :: text, 0) := by
    cases found : firstLine? ('\ufeff' :: text) with
    | none =>
      unfold dropLinesWhile
      split
      · next same =>
        rw [found] at same
        cases same
      · rfl
    | some pair =>
      obtain ⟨line, after⟩ := pair
      refine dropLinesWhile_of_other _ _ line after found ?_
      have whole := firstLine?_eq _ _ _ found
      cases line with
      | nil => cases (List.cons.inj whole).1
      | cons c line =>
        obtain rfl := (List.cons.inj whole).1
        rfl
  have version := opens isVersionLine fun line => rfl
  have start := opens isStartLine fun line => rfl
  simp only [normalize, unified, version, comments, start, if_true]

theorem linesOf_mark (text first : List Char) (more : List (List Char))
    (lines : linesOf text = first :: more) :
    linesOf ('\ufeff' :: text) = ('\ufeff' :: first) :: more := by
  rw [linesOf_char _ _ (by decide), lines]
  rfl

theorem colonIndex_append (line cut : List Char) (colon : ':' ∈ line) :
    colonIndex (line ++ cut) = colonIndex line := by
  obtain ⟨before, rest, rfl, first⟩ := List.eq_append_cons_of_mem colon
  rw [List.append_assoc, List.cons_append, colonIndex_eq _ _ first, colonIndex_eq _ _ first]

/-- The first bad line of a text is the first behind a mark too, where the mark may stand in it. -/
theorem IsFirstBad.marked {first : List Char} {more : List (List Char)} {i : Nat} {line : List Char}
    (found : IsFirstBad (first :: more) i line) (front : IsBad ('\ufeff' :: first) ↔ IsBad first) :
    ∃ other, IsFirstBad (('\ufeff' :: first) :: more) i other ∧ (i ≠ 0 → other = line) := by
  rcases (isFirstBad_cons_iff first).mp found with ⟨rfl, rfl, bad⟩ | ⟨good, j, rfl, later⟩
  · exact ⟨_, (isFirstBad_cons_iff _).mpr (.inl ⟨rfl, rfl, front.mpr bad⟩),
      fun some => absurd rfl some⟩
  · exact ⟨line, (isFirstBad_cons_iff _).mpr (.inr ⟨mt front.mp good, j, rfl, later⟩), fun _ => rfl⟩

section
variable (text : List Char) (layout : Layout) (isOf : layout.IsOf (unifyLineEnds text))
  (normalized : normalize text = ⟨layout.text, layout.taken.length⟩)
  (kept : layout.KeepsNothingBack) (filename other : Option String)
include isOf kept

theorem isBad_marked_of_kept {first : List Char} {more : List (List Char)}
    (lines : linesOf (unifyLineEnds text) = first :: more) :
    IsBad ('\ufeff' :: first) ↔ IsBad first := by
  refine isBad_marked first fun blanks c after blank begins => kept.front blanks c after blank ?_
  rw [← isOf.split, lines, begins]
  rfl

include normalized

theorem told_marked_of_firstBad {i : Nat} {line : List Char}
    (isFirst : IsFirstBad (linesOf layout.text) i line) :
    (check (String.ofList text) filename).map (·.told true) =
      (check (String.ofList ('\ufeff' :: unifyLineEnds text)) other).map (·.told true) := by
  obtain ⟨first, more, lines⟩ := exists_linesOf (unifyLineEnds text)
  have markedNormal := normalize_mark (unifyLineEnds text) (return_not_mem_unifyLineEnds text)
  obtain ⟨cut, again⟩ := (kept.sameBad isOf).first i line isFirst
  have whole := again.behind kept.header
  rw [← isOf.lines, lines] at whole
  obtain ⟨near, marked, unmoved⟩ := whole.marked (isBad_marked_of_kept text layout isOf kept lines)
  obtain ⟨r, found, category, number, column, -⟩ :=
    check_of_first (String.ofList text) filename i line
      (by rw [String.toList_ofList, normalized]; exact isFirst)
  obtain ⟨q, foundMarked, categoryMarked, numberMarked, columnMarked, -⟩ :=
    check_of_first (String.ofList ('\ufeff' :: unifyLineEnds text)) other
      (layout.taken.length + i) near
      (by rw [String.toList_ofList, markedNormal, linesOf_mark _ _ _ lines]; exact marked)
  rw [String.toList_ofList, normalized] at number
  rw [String.toList_ofList, markedNormal, Nat.zero_add] at numberMarked
  have kinds : r.kind = q.kind := by rw [Rejection.kind, Rejection.kind, category, categoryMarked]
  have numbers : r.line = q.line := number.trans numberMarked.symm
  have isColon : r.kind = .colonSpacing := by rw [Rejection.kind, category]; rfl
  rw [found, foundMarked, Option.map_some, Option.map_some, Rejection.told, Rejection.told,
    ← kinds, ← numbers]
  by_cases top : layout.taken.length + i = 0
  next =>
    have one : r.line = some 1 := by rw [number, top]; rfl
    rw [one, isColon]
    rfl
  next =>
    obtain ⟨_, _, _, _, isBad, _⟩ := isFirst
    rw [column, columnMarked, unmoved top,
      colonIndex_append line cut (colon_mem_of_isBad line isBad)]

theorem check_marked_of_good (good : ∀ line ∈ linesOf layout.text, ¬ IsBad line) :
    check (String.ofList text) filename = none ∧
      check (String.ofList ('\ufeff' :: unifyLineEnds text)) other = none := by
  obtain ⟨first, more, lines⟩ := exists_linesOf (unifyLineEnds text)
  have markedNormal := normalize_mark (unifyLineEnds text) (return_not_mem_unifyLineEnds text)
  have all : ∀ line ∈ first :: more, ¬ IsBad line := by
    intro line member
    rw [← lines, isOf.lines] at member
    rcases List.mem_append.mp member with inside | inside
    · exact kept.header line inside
    · exact (kept.sameBad isOf).good good line inside
  constructor
  · rw [check_eq_none_iff, String.toList_ofList, normalized]
    exact good
  · rw [check_eq_none_iff, String.toList_ofList, markedNormal, linesOf_mark _ _ _ lines,
      List.forall_mem_cons, isBad_marked_of_kept text layout isOf kept lines]
    exact List.forall_mem_cons.mp all

theorem told_marked :
    (check (String.ofList text) filename).map (·.told true) =
      (check (String.ofList ('\ufeff' :: unifyLineEnds text)) other).map (·.told true) := by
  by_cases bad : ∃ i line, IsFirstBad (linesOf layout.text) i line
  next =>
    obtain ⟨i, line, isFirst⟩ := bad
    exact told_marked_of_firstBad text layout isOf normalized kept filename other isFirst
  next =>
    have good : ∀ line ∈ linesOf layout.text, ¬ IsBad line := fun line member isBad =>
      bad (exists_firstBad _ line member isBad)
    obtain ⟨passes, passesMarked⟩ :=
      check_marked_of_good text layout isOf normalized kept filename other good
    rw [passes, passesMarked]

end

end ColonScan

end LocaleLint
