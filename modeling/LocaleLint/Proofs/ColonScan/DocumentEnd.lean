import LocaleLint.Proofs.ColonScan.Place

set_option autoImplicit false

namespace LocaleLint.ColonScan

open LocaleLint.Text

theorem isSpace_point : isSpace '.' = false := by decide

theorem isSpace_colon : isSpace ':' = false := by decide

theorem IsEnd.count {text : List Char} (isEnd : IsEnd text) : text.count '.' = 3 := by
  obtain ⟨blanks, rfl, white⟩ := isEnd
  have none : blanks.count '.' = 0 := by
    rw [List.count_eq_zero]
    intro member
    have := white '.' member
    simp [isSpace_point] at this
  rw [List.count_append, none]
  rfl

theorem IsEnd.no_colon {text : List Char} (isEnd : IsEnd text) : ':' ∉ text := by
  obtain ⟨blanks, rfl, white⟩ := isEnd
  rw [List.mem_append, not_or]
  refine ⟨by decide, fun member => ?_⟩
  have := white ':' member
  simp [isSpace_colon] at this

theorem IsEnd.ne_nil {text : List Char} (isEnd : IsEnd text) : text ≠ [] := by
  rintro rfl
  cases isEnd.count

theorem dropEndMarker_append (before marker : List Char) (isEnd : IsEnd marker) :
    dropEndMarker (before ++ marker) = before := by
  induction before with
  | nil =>
    obtain ⟨c, rest, rfl⟩ := List.exists_cons_of_ne_nil isEnd.ne_nil
    rw [List.nil_append, dropEndMarker, if_pos ((isEndMarker_iff _).mpr isEnd)]
  | cons c before ih =>
    -- A document end that began here would have more than its three points.
    have later : ¬ isEndMarker (c :: (before ++ marker)) = true := by
      intro early
      have sooner := (isEndMarker_iff _).mp early
      have points := sooner.count
      obtain ⟨blanks, whole, -⟩ := sooner
      obtain rfl : c = '.' := (List.cons.inj whole).1
      rw [List.count_cons_self, List.count_append, isEnd.count] at points
      omega
    rw [List.cons_append, dropEndMarker, if_neg later, ih]

theorem dropEndMarker_of_no_end (text : List Char) (none : ¬ HasEnd text) :
    dropEndMarker text = text := by
  obtain ⟨tail, whole, cuts⟩ := dropEndMarker_cuts text
  rcases cuts with isEnd | ⟨rfl, -⟩
  · exact absurd ⟨dropEndMarker text, tail, whole, isEnd⟩ none
  · simpa using whole.symm

theorem normalize_marked (body : List Char) (plain : '\r' ∉ body) :
    normalize ("---\n".toList ++ body) = ⟨dropEndMarker body, 1⟩ := by
  have unified : unifyLineEnds ("---\n".toList ++ body) = "---".toList ++ '\n' :: body := by
    rw [unifyLineEnds_of_not_mem]
    · rfl
    · rw [List.mem_append, not_or]
      exact ⟨by decide, plain⟩
  have first : firstLine? ("---".toList ++ '\n' :: body) = some ("---".toList, body) :=
    firstLine?_line _ _ (by decide)
  have version : isVersionLine "---".toList = false := by decide
  have comment : isCommentLine "---".toList = false := by decide
  have start : isStartLine "---".toList = true := by decide
  have comments := dropLinesWhile_of_other isCommentLine _ _ _ first comment
  simp only [normalize, unified, dropLineIf, first, version, comments, start, Bool.false_eq_true,
    if_false, if_true, Nat.succ_ne_zero]

/-- Whether the document end of a text begins in the line with an index, and what stands before it
there. -/
def EndsIn (text : List Char) (i : Nat) (kept : List Char) : Prop :=
  ∃ before marker early, text = before ++ marker ∧ IsEnd marker ∧ linesOf before = early ++ [kept] ∧
    early.length = i

theorem EndsIn.lines {text kept : List Char} {i : Nat} (endsIn : EndsIn text i kept) :
    ∃ early cut more, linesOf (dropEndMarker text) = early ++ [kept] ∧ early.length = i ∧
      linesOf text = early ++ (kept ++ cut) :: more ∧ IsEnd cut ∧ ∀ line ∈ more, ¬ IsBad line := by
  obtain ⟨before, marker, early, rfl, isEnd, lines, length⟩ := endsIn
  obtain ⟨sooner, last, first, more, split, later, joined⟩ := linesOf_append before marker
  obtain ⟨rfl, same⟩ := List.append_inj' (lines.symm.trans split) rfl
  cases same
  refine ⟨early, first, more, ?_, length, joined, ?_, ?_⟩
  · rw [dropEndMarker_append before marker isEnd, lines]
  · have head := head_linesOf marker
    rw [later, List.head?_cons, Option.some.injEq] at head
    rw [head]
    exact isEnd.firstLine
  · intro line member bad
    have inside :=
      mem_linesOf marker line (by simp [later, member]) ':' (colon_mem_of_isBad line bad)
    exact isEnd.no_colon inside.1

theorem exists_endsIn (text : List Char) (hasEnd : HasEnd text) : ∃ i kept, EndsIn text i kept := by
  obtain ⟨before, marker, whole, isEnd⟩ := hasEnd
  obtain ⟨early, last, first, more, split, -, -⟩ := linesOf_append before marker
  exact ⟨early.length, last, before, marker, early, whole, isEnd, split, rfl⟩

theorem IsBad.append {line : List Char} (bad : IsBad line) (cut : List Char) :
    IsBad (line ++ cut) := by
  obtain ⟨before, c, after, rfl, first, visible, follows⟩ := bad
  exact ⟨before, c, after ++ cut, by simp, first, visible, follows⟩

theorem IsFirstBad.unique {lines : List (List Char)} {i j : Nat} {line other : List Char}
    (first : IsFirstBad lines i line) (again : IsFirstBad lines j other) :
    i = j ∧ line = other := by
  have found := firstBadLine_of_first lines 0 i line first
  rw [firstBadLine_of_first lines 0 j other again] at found
  simp only [Nat.zero_add, Option.some.injEq, Prod.mk.injEq] at found
  exact ⟨found.1.symm, found.2.symm⟩

theorem not_isBad_iff_of_cut (kept cut : List Char) (isEnd : IsEnd cut)
    (bad : IsBad (kept ++ cut)) :
    ¬ IsBad kept ↔ ∃ key, kept = key ++ [':'] ∧ ':' ∉ key := by
  constructor
  · intro good
    have colon : ':' ∈ kept := by
      rcases List.mem_append.mp (colon_mem_of_isBad _ bad) with colon | colon
      · exact colon
      · exact absurd colon isEnd.no_colon
    obtain ⟨key, rest, rfl, first⟩ := List.eq_append_cons_of_mem colon
    cases rest with
    | nil => exact ⟨key, rfl, first⟩
    | cons c rest =>
      rw [List.append_assoc, List.cons_append, isBad_iff key _ first] at bad
      rw [isBad_iff key _ first] at good
      obtain ⟨visible, d, after, same, follows⟩ := bad
      exact absurd ⟨visible, c, rest, rfl, (List.cons.inj same).1 ▸ follows⟩ good
  · rintro ⟨key, rfl, first⟩ bad
    rw [isBad_iff key [] first] at bad
    obtain ⟨-, c, after, none, -⟩ := bad
    cases none

theorem IsFirstBad.before_end {text line : List Char} {i : Nat}
    (first : IsFirstBad (linesOf text) i line) (apart : ∀ kept, ¬ EndsIn text i kept) :
    IsFirstBad (linesOf (dropEndMarker text)) i line := by
  by_cases hasEnd : HasEnd text
  next =>
    obtain ⟨j, kept, endsIn⟩ := exists_endsIn text hasEnd
    obtain ⟨early, cut, more, keptLines, rfl, lines, -, harmless⟩ := endsIn.lines
    obtain ⟨before, after, whole, rfl, bad, good⟩ := first
    rw [lines] at whole
    have elsewhere : before.length ≠ early.length := by
      intro same
      rw [← same] at endsIn
      exact apart kept endsIn
    rcases List.append_eq_append_iff.mp whole with ⟨gap, split, rest⟩ | ⟨gap, split, rest⟩
    · cases gap with
      | nil => simp [split] at elsewhere
      | cons _ gap =>
        -- Behind the document end there are blanks only.
        have behind : line ∈ more := by simp [(List.cons.inj rest).2]
        exact absurd bad (harmless line behind)
    · cases gap with
      | nil => simp [split] at elsewhere
      | cons other gap =>
        obtain rfl : line = other := (List.cons.inj rest).1
        exact ⟨before, gap ++ [kept], by simp [keptLines, split], rfl, bad, good⟩
  next =>
    rw [dropEndMarker_of_no_end text hasEnd]
    exact first

theorem IsFirstBad.at_end {text line kept : List Char} {i : Nat}
    (first : IsFirstBad (linesOf text) i line) (endsIn : EndsIn text i kept) :
    (∃ cut, IsEnd cut ∧ line = kept ++ cut) ∧
      (IsBad kept → IsFirstBad (linesOf (dropEndMarker text)) i kept) ∧
      (¬ IsBad kept → ∀ other ∈ linesOf (dropEndMarker text), ¬ IsBad other) := by
  obtain ⟨early, cut, more, keptLines, rfl, lines, isEnd, -⟩ := endsIn.lines
  obtain ⟨before, after, whole, length, bad, good⟩ := first
  rw [lines] at whole
  obtain ⟨rfl, same⟩ := List.append_inj whole length.symm
  rw [keptLines]
  refine ⟨⟨cut, isEnd, (List.cons.inj same).1.symm⟩, fun bad => ?_, fun passes other member => ?_⟩
  · exact ⟨early, [], rfl, rfl, bad, good⟩
  · rcases List.mem_append.mp member with inside | isLast
    · exact good other inside
    · rw [List.mem_singleton.mp isLast]
      exact passes

theorem good_before_end (text : List Char) (good : ∀ line ∈ linesOf text, ¬ IsBad line) :
    ∀ line ∈ linesOf (dropEndMarker text), ¬ IsBad line := by
  intro line member bad
  by_cases hasEnd : HasEnd text
  next =>
    obtain ⟨i, kept, endsIn⟩ := exists_endsIn text hasEnd
    obtain ⟨early, cut, more, keptLines, -, lines, -, -⟩ := endsIn.lines
    rw [keptLines, List.mem_append, List.mem_singleton] at member
    rcases member with inside | rfl
    · exact good line (by simp [lines, inside]) bad
    · exact good (line ++ cut) (by simp [lines]) (bad.append cut)
  next =>
    rw [dropEndMarker_of_no_end text hasEnd] at member
    exact good line member bad

theorem text_marked (body : String) (plain : '\r' ∉ body.toList) :
    normalize ("---\n" ++ body).toList = ⟨dropEndMarker body.toList, 1⟩ := by
  rw [String.toList_append]
  exact normalize_marked body.toList plain

def Transparent (body : String) (filename : Option String) : Prop :=
  ((check ("---\n" ++ body) filename).isSome = true ↔
    ∃ line ∈ linesOf body.toList, spaceFollowsColon line = false) ∧
  ∀ r, check ("---\n" ++ body) filename = some r →
    ∃ i line, IsFirstBad (linesOf body.toList) i line ∧ r.line = some ((i + 1) + 1 : Nat) ∧
      r.snippet = some (String.ofList line)

theorem exists_bad_iff (lines : List (List Char)) :
    (∃ line ∈ lines, spaceFollowsColon line = false) ↔ ∃ i line, IsFirstBad lines i line := by
  constructor
  · rintro ⟨line, member, fails⟩
    have bad : IsBad line := by
      by_contra good
      rw [(spaceFollowsColon_iff line).mpr good] at fails
      cases fails
    exact exists_firstBad lines line member bad
  · rintro ⟨i, line, before, after, rfl, -, bad, -⟩
    refine ⟨line, by simp, ?_⟩
    rw [← Bool.not_eq_true, spaceFollowsColon_iff, not_not]
    exact bad

theorem transparent_of_apart (body : String) (filename : Option String)
    (plain : '\r' ∉ body.toList)
    (apart : ∀ i line kept, IsFirstBad (linesOf body.toList) i line → ¬ EndsIn body.toList i kept) :
    Transparent body filename := by
  have normalized := text_marked body plain
  by_cases bad : ∃ i line, IsFirstBad (linesOf body.toList) i line
  next =>
    obtain ⟨i, line, first⟩ := bad
    have stays := first.before_end fun kept => apart i line kept first
    obtain ⟨r, found, -, number, -, snippet⟩ := check_of_first ("---\n" ++ body) filename i line
      (by rw [normalized]; exact stays)
    rw [normalized] at number
    constructor
    · rw [exists_bad_iff, found]
      simp only [Option.isSome_some, true_iff]
      exact ⟨i, line, first⟩
    · intro same rejected
      rw [found] at rejected
      cases rejected
      exact ⟨i, line, first, by rw [number, Nat.add_comm 1 i], snippet⟩
  next =>
    have good : ∀ line ∈ linesOf body.toList, ¬ IsBad line := fun line member isBad =>
      bad (exists_firstBad _ line member isBad)
    have passes : check ("---\n" ++ body) filename = none := by
      rw [check_eq_none_iff, normalized]
      exact good_before_end body.toList good
    constructor
    · rw [exists_bad_iff, passes]
      simp only [Option.isSome_none, Bool.false_eq_true, false_iff]
      exact bad
    · intro r rejected
      rw [passes] at rejected
      cases rejected

theorem check_at_end (body : String) (filename : Option String) (plain : '\r' ∉ body.toList)
    (i : Nat) (line kept : List Char) (first : IsFirstBad (linesOf body.toList) i line)
    (endsIn : EndsIn body.toList i kept) :
    (check ("---\n" ++ body) filename = none ↔ ∃ key, kept = key ++ [':'] ∧ ':' ∉ key) ∧
      ∀ r, check ("---\n" ++ body) filename = some r → r.line = some (i + 2 : Nat) ∧
        r.snippet = some (String.ofList kept) ∧ kept ≠ line := by
  have normalized := text_marked body plain
  obtain ⟨⟨cut, isEnd, rfl⟩, reported, hidden⟩ := first.at_end endsIn
  obtain ⟨_, _, _, _, bad, _⟩ := first
  rw [← not_isBad_iff_of_cut kept cut isEnd bad]
  have shorter : kept ≠ kept ++ cut := by simp [isEnd.ne_nil]
  by_cases keptBad : IsBad kept
  next =>
    obtain ⟨r, found, -, number, -, snippet⟩ := check_of_first ("---\n" ++ body) filename i kept
      (by rw [normalized]; exact reported keptBad)
    rw [normalized] at number
    constructor
    · simp [found, keptBad]
    · intro same rejected
      rw [found] at rejected
      cases rejected
      exact ⟨by rw [number, Nat.add_comm 1 i], snippet, shorter⟩
  next =>
    have passes : check ("---\n" ++ body) filename = none := by
      rw [check_eq_none_iff, normalized]
      exact hidden keptBad
    constructor
    · simp [passes, keptBad]
    · intro r rejected
      rw [passes] at rejected
      cases rejected

theorem check_marked (body : String) (filename : Option String) (plain : '\r' ∉ body.toList) :
    (Transparent body filename ↔
      ¬ ∃ i line kept, IsFirstBad (linesOf body.toList) i line ∧ EndsIn body.toList i kept) ∧
    ∀ i line kept, IsFirstBad (linesOf body.toList) i line → EndsIn body.toList i kept →
      (check ("---\n" ++ body) filename = none ↔ ∃ key, kept = key ++ [':'] ∧ ':' ∉ key) ∧
        ∀ r, check ("---\n" ++ body) filename = some r → r.line = some (i + 2 : Nat) ∧
          r.snippet = some (String.ofList kept) ∧ kept ≠ line := by
  refine ⟨⟨?_, fun apart => ?_⟩, check_at_end body filename plain⟩
  · rintro ⟨iff, places⟩ ⟨i, line, kept, first, endsIn⟩
    have found := iff.mpr ((exists_bad_iff _).mpr ⟨i, line, first⟩)
    obtain ⟨r, rejected⟩ := Option.isSome_iff_exists.mp found
    obtain ⟨-, near, cut⟩ :=
      (check_at_end body filename plain i line kept first endsIn).2 r rejected
    obtain ⟨j, other, again, -, snippet⟩ := places r rejected
    obtain ⟨-, rfl⟩ := first.unique again
    rw [near, Option.some.injEq, String.ofList_inj] at snippet
    exact cut snippet
  · exact transparent_of_apart body filename plain fun i line kept first endsIn =>
      apart ⟨i, line, kept, first, endsIn⟩

def pointed : String := "a:..."

def closed : String := "a:b\n...\n"

theorem check_pointed :
    '\r' ∉ pointed.toList ∧ '\r' ∉ closed.toList ∧ ¬ Transparent pointed none ∧
      check ("---\n" ++ pointed) none = none ∧ Transparent closed none := by
  have plain : '\r' ∉ pointed.toList := by decide
  have alsoPlain : '\r' ∉ closed.toList := by decide
  have first : IsFirstBad (linesOf pointed.toList) 0 "a:...".toList :=
    ⟨[], [], by decide, rfl,
      ⟨['a'], '.', ['.', '.'], by decide, by decide,
        ⟨'a', by decide, by decide⟩, by decide⟩, by simp⟩
  have endsIn : EndsIn pointed.toList 0 "a:".toList :=
    ⟨"a:".toList, "...".toList, [], by decide, ⟨[], by decide, by simp⟩, by decide, rfl⟩
  have other : IsFirstBad (linesOf closed.toList) 0 "a:b".toList :=
    ⟨[], ["...".toList, []], by decide, rfl,
      ⟨['a'], 'b', [], by decide, by decide, ⟨'a', by decide, by decide⟩, by decide⟩, by simp⟩
  refine ⟨plain, alsoPlain, fun same => ?_, ?_, ?_⟩
  · exact (check_marked pointed none plain).1.mp same ⟨0, _, _, first, endsIn⟩
  · exact ((check_marked pointed none plain).2 0 _ _ first endsIn).1.mpr
      ⟨['a'], by decide, by decide⟩
  · apply (check_marked closed none alsoPlain).1.mpr
    rintro ⟨i, line, kept, again, endsAt⟩
    obtain ⟨rfl, -⟩ := other.unique again
    obtain ⟨early, -, -, lines, length, -⟩ := endsAt.lines
    have two : linesOf (dropEndMarker closed.toList) = ["a:b".toList, []] := by decide
    rw [two] at lines
    have sizes := congrArg List.length lines
    simp [length] at sizes

end LocaleLint.ColonScan
