import Mathlib.Data.List.TakeWhile
import LocaleLint.Proofs.ColonScan.Layout

set_option autoImplicit false

namespace LocaleLint.ColonScan

open LocaleLint.Text

def IsBad (line : List Char) : Prop :=
  ∃ before c after, line = before ++ ':' :: c :: after ∧ ':' ∉ before ∧
    (∃ d ∈ before, d ∉ [' ', '\t', '\n', '\r', '\x00', '\x0b']) ∧ c ∉ [' ', '\x00', '\n']

theorem isScanBlank_iff (c : Char) :
    isScanBlank c = true ↔ c ∈ [' ', '\t', '\n', '\r', '\x00', '\x0b'] := by
  simp [isScanBlank, or_assoc]

theorem mayFollowColon_iff (c : Char) : mayFollowColon c = true ↔ c ∈ [' ', '\x00', '\n'] := by
  simp [mayFollowColon, or_assoc]

theorem dropWhile_to_colon (before rest : List Char) (first : ':' ∉ before) :
    (before ++ ':' :: rest).dropWhile (· != ':') = ':' :: rest := by
  induction before with
  | nil => simp
  | cons c before ih =>
    simp only [List.mem_cons, not_or] at first
    rw [List.cons_append, List.dropWhile_cons_of_pos (by simpa using Ne.symm first.1), ih first.2]

theorem colonIndex_eq (before rest : List Char) (first : ':' ∉ before) :
    colonIndex (before ++ ':' :: rest) = before.length := by
  induction before with
  | nil => simp [colonIndex]
  | cons c before ih =>
    simp only [List.mem_cons, not_or] at first
    have shorter := ih first.2
    simp only [colonIndex] at shorter ⊢
    rw [List.cons_append, List.takeWhile_cons_of_pos (by simpa using Ne.symm first.1),
      List.length_cons, shorter, List.length_cons]

theorem startsWithColon_iff (before rest : List Char) (first : ':' ∉ before) :
    ((before ++ ':' :: rest).dropWhile isScanBlank).head? = some ':' ↔
      ∀ d ∈ before, isScanBlank d = true := by
  induction before with
  | nil => simp [isScanBlank]
  | cons c before ih =>
    simp only [List.mem_cons, not_or] at first
    by_cases blank : isScanBlank c = true
    next =>
      rw [List.cons_append, List.dropWhile_cons_of_pos blank, ih first.2]
      simp [blank]
    next =>
      rw [List.cons_append, List.dropWhile_cons_of_neg blank]
      simp [blank, Ne.symm first.1]

theorem isBad_iff (before rest : List Char) (first : ':' ∉ before) :
    IsBad (before ++ ':' :: rest) ↔
      (∃ d ∈ before, isScanBlank d = false) ∧
        ∃ c after, rest = c :: after ∧ mayFollowColon c = false := by
  constructor
  · rintro ⟨other, c, after, same, alsoFirst, ⟨d, member, visible⟩, follows⟩
    have length : before.length = other.length := by
      rw [← colonIndex_eq before rest first, same, colonIndex_eq other _ alsoFirst]
    obtain ⟨rfl, tails⟩ := List.append_inj same length
    refine ⟨⟨d, member, ?_⟩, c, after, (List.cons.inj tails).2, ?_⟩
    · rwa [← isScanBlank_iff, Bool.not_eq_true] at visible
    · rwa [← mayFollowColon_iff, Bool.not_eq_true] at follows
  · rintro ⟨⟨d, member, visible⟩, c, after, rfl, follows⟩
    refine ⟨before, c, after, rfl, first, ⟨d, member, ?_⟩, ?_⟩
    · rwa [← isScanBlank_iff, Bool.not_eq_true]
    · rwa [← mayFollowColon_iff, Bool.not_eq_true]

theorem colon_mem_of_isBad (line : List Char) (bad : IsBad line) : ':' ∈ line := by
  obtain ⟨before, c, after, rfl, -⟩ := bad
  simp

theorem spaceFollowsColon_iff (line : List Char) :
    spaceFollowsColon line = true ↔ ¬ IsBad line := by
  by_cases colon : ':' ∈ line
  next =>
    obtain ⟨before, rest, rfl, first⟩ := List.eq_append_cons_of_mem colon
    rw [spaceFollowsColon, dropWhile_to_colon before rest first, Bool.or_eq_true, beq_iff_eq,
      startsWithColon_iff before rest first, isBad_iff before rest first]
    cases rest with
    | nil => simp
    | cons c after =>
      by_cases follows : mayFollowColon c = true <;> simp [follows]
  next =>
    have none : line.dropWhile (· != ':') = [] := by
      rw [List.dropWhile_eq_nil_iff]
      intro c member
      rw [bne_iff_ne]
      rintro rfl
      exact colon member
    have good : ¬ IsBad line := fun bad => colon (colon_mem_of_isBad line bad)
    simp [spaceFollowsColon, none, good]

def IsFirstBad (lines : List (List Char)) (i : Nat) (line : List Char) : Prop :=
  ∃ before after, lines = before ++ line :: after ∧ before.length = i ∧ IsBad line ∧
    ∀ earlier ∈ before, ¬ IsBad earlier

theorem firstBadLine_eq_none_iff (lines : List (List Char)) (index : Nat) :
    firstBadLine lines index = none ↔ ∀ line ∈ lines, ¬ IsBad line := by
  induction lines generalizing index with
  | nil => simp [firstBadLine]
  | cons line rest ih =>
    by_cases passes : spaceFollowsColon line = true
    next => simp [firstBadLine, passes, ih, (spaceFollowsColon_iff line).mp passes]
    next =>
      have bad : IsBad line := not_not.mp fun good => passes ((spaceFollowsColon_iff line).mpr good)
      simp [firstBadLine, passes, bad]

theorem firstBadLine_of_first (lines : List (List Char)) (index i : Nat) (line : List Char)
    (first : IsFirstBad lines i line) : firstBadLine lines index = some (index + i, line) := by
  obtain ⟨before, after, rfl, rfl, bad, good⟩ := first
  induction before generalizing index with
  | nil =>
    have fails : ¬ spaceFollowsColon line = true :=
      fun passes => (spaceFollowsColon_iff line).mp passes bad
    simp [firstBadLine, fails]
  | cons earlier before ih =>
    have passes := (spaceFollowsColon_iff earlier).mpr (good earlier (List.mem_cons_self ..))
    have later := ih (index + 1) fun other member => good other (List.mem_cons_of_mem _ member)
    simp only [List.cons_append, firstBadLine, passes, if_true, later, List.length_cons]
    congr 2
    omega

theorem exists_firstBad (lines : List (List Char)) (line : List Char) (member : line ∈ lines)
    (bad : IsBad line) : ∃ i first, IsFirstBad lines i first := by
  induction lines with
  | nil => cases member
  | cons other rest ih =>
    by_cases here : IsBad other
    next => exact ⟨0, other, [], rest, rfl, rfl, here, by simp⟩
    next =>
      have later : line ∈ rest := by
        rcases List.mem_cons.mp member with rfl | later
        · exact absurd bad here
        · exact later
      obtain ⟨i, first, before, after, whole, length, isBad, good⟩ := ih later
      refine ⟨i + 1, first, other :: before, after, by simp [whole], by simp [length], isBad, ?_⟩
      simpa [here] using good

theorem check_eq_none_iff (source : String) (filename : Option String) :
    check source filename = none ↔
      ∀ line ∈ linesOf (normalize source.toList).text, ¬ IsBad line := by
  rw [check, Option.map_eq_none_iff, firstBadLine_eq_none_iff]

theorem check_of_first (source : String) (filename : Option String) (i : Nat) (line : List Char)
    (first : IsFirstBad (linesOf (normalize source.toList).text) i line) :
    ∃ r, check source filename = some r ∧ r.category = .colonSpacing ∧
      r.line = some ((normalize source.toList).offset + i + 1 : Nat) ∧
      r.column = some (colonIndex line + 2 : Nat) ∧ r.snippet = some (String.ofList line) := by
  have found := firstBadLine_of_first _ 0 i line first
  rw [Nat.zero_add] at found
  rw [check, found]
  exact ⟨_, rfl, rfl, rfl, rfl, rfl⟩

theorem exists_first_of_check (source : String) (filename : Option String) (r : Rejection)
    (found : check source filename = some r) :
    ∃ i line, IsFirstBad (linesOf (normalize source.toList).text) i line := by
  by_contra none
  have good : check source filename = .none := by
    rw [check_eq_none_iff]
    intro line member bad
    exact none (exists_firstBad _ line member bad)
  rw [good] at found
  cases found

theorem IsEnd.firstLine (text : List Char) (isEnd : IsEnd text) :
    IsEnd (text.takeWhile (· != '\n')) := by
  obtain ⟨blanks, rfl, white⟩ := isEnd
  exact ⟨blanks.takeWhile (· != '\n'), rfl,
    fun c member => white c (List.takeWhile_subset _ member)⟩

/-- Where line, column and snippet lead to in the source: to the snippet's line, of which at most a
document end is missing, to its first colon and to the character behind it. -/
structure Points (source : List Char) (layout : Layout) (n c : Nat) (snippet whole : List Char) :
    Prop where
  numbered : 0 < n ∧ (sourceLines source)[n - 1]? = some whole
  begins : snippet <+: whole
  complete : snippet = whole ∨
    layout.start ≠ [] ∧ ∃ marker, IsEnd marker ∧ whole = snippet ++ marker
  colon : 2 ≤ c ∧ ':' ∈ whole ∧ whole.idxOf ':' = c - 2
  offending : ∃ d, whole[c - 1]? = some d ∧ d ∉ [' ', '\x00', '\n']
  first : ∃ i, n = layout.header.count '\n' + i + 1 ∧ IsFirstBad (linesOf layout.text) i snippet

theorem Layout.IsOf.points {source : List Char} {layout : Layout}
    (isOf : layout.IsOf (unifyLineEnds source)) (i : Nat) (snippet : List Char)
    (first : IsFirstBad (linesOf layout.text) i snippet) :
    ∃ whole, Points source layout (layout.taken.length + i + 1) (colonIndex snippet + 2) snippet
      whole := by
  have isFirst := first
  obtain ⟨early, late, lines, rfl, bad, -⟩ := first
  have here : (linesOf layout.text)[early.length]? = some snippet := by simp [lines]
  have place := isOf.line early.length snippet here
  rw [linesOf_unifyLineEnds] at place
  obtain ⟨before, d, after, rfl, noColon, -, follows⟩ := bad
  -- The line of the source goes on behind the snippet when the document end began there.
  obtain ⟨cut, goesOn, ends⟩ : ∃ cut, (sourceLines source)[layout.taken.length + early.length]? =
      some (before ++ ':' :: d :: after ++ cut) ∧
        (cut = [] ∨ layout.start ≠ [] ∧ IsEnd cut) := by
    by_cases isLast : early.length + 1 = (linesOf layout.text).length
    next =>
      rw [if_pos isLast] at place
      refine ⟨_, place, ?_⟩
      by_cases marked : layout.start = []
      next => exact .inl (by rw [isOf.open_end marked]; rfl)
      next =>
        rcases isOf.marked_end marked with isEnd | ⟨none, -⟩
        · exact .inr ⟨marked, isEnd.firstLine⟩
        · exact .inl (by rw [none]; rfl)
    next =>
      rw [if_neg isLast] at place
      exact ⟨[], by rw [List.append_nil]; exact place, .inl rfl⟩
  refine ⟨before ++ ':' :: d :: after ++ cut, ?_⟩
  rw [colonIndex_eq before _ noColon]
  constructor
  case numbered => exact ⟨Nat.succ_pos _, goesOn⟩
  case begins => exact List.prefix_append _ _
  case complete =>
    rcases ends with rfl | ⟨marked, isEnd⟩
    · exact .inl (List.append_nil _).symm
    · exact .inr ⟨marked, cut, isEnd, rfl⟩
  case colon =>
    refine ⟨by omega, by simp, ?_⟩
    rw [List.append_assoc, List.idxOf_append_of_notMem noColon]
    simp
  case offending =>
    refine ⟨d, ?_, follows⟩
    have behind : before.length + 2 - 1 = before.length + 1 := by omega
    rw [behind, List.append_assoc, List.getElem?_append_right (by omega)]
    simp
  case first => exact ⟨early.length, by rw [isOf.count_header], isFirst⟩

theorem check_points (source : String) (filename : Option String) :
    ((check source filename).isSome = true ↔
      ∃ line ∈ linesOf (normalize source.toList).text, IsBad line) ∧
    ∀ r, check source filename = some r → r.category = .colonSpacing ∧
      ∃ layout : Layout, layout.IsOf (unifyLineEnds source.toList) ∧
        layout.text = (normalize source.toList).text ∧
        ∃ (n c : Nat) (snippet whole : List Char), r.line = some (n : Int) ∧
          r.column = some (c : Int) ∧ r.snippet = some (String.ofList snippet) ∧
            Points source.toList layout n c snippet whole := by
  constructor
  · rw [Option.isSome_iff_ne_none, ne_eq, check_eq_none_iff]
    simp
  · intro r found
    obtain ⟨i, snippet, first⟩ := exists_first_of_check source filename r found
    obtain ⟨same, rejected, category, line, column, near⟩ :=
      check_of_first source filename i snippet first
    rw [found] at rejected
    cases rejected
    obtain ⟨layout, isOf, normalized⟩ := exists_layout source.toList
    rw [normalized] at first line
    obtain ⟨whole, points⟩ := isOf.points i snippet first
    exact ⟨category, layout, isOf, by rw [normalized], _, _, snippet, whole, line, column,
      near, points⟩

example : (check "# c\r--- x\r\nok: 1\n  key:v\n" none).map
    (fun r => (r.line, r.column, r.snippet)) =
    some (some 4, some 7, some "  key:v") := by
  cbv

end LocaleLint.ColonScan
