import LocaleLint.Proofs.ColonScan.DocumentEnd
import LocaleLint.Proofs.Text.Breaks

set_option autoImplicit false

namespace LocaleLint.ColonScan

open LocaleLint.Text

section
variable (kind : List Char → Prop) (drops : List Char → Bool)
  (same : ∀ line, drops line = true ↔ kind line)

include same

theorem drops_of_stops (rest line after : List Char) (stops : ¬ Opens kind rest)
    (found : firstLine? rest = some (line, after)) : drops line = false := by
  rw [opens_iff] at stops
  rw [← Bool.not_eq_true]
  exact fun drop => stops ⟨line, after, found, (same line).mp drop⟩

theorem dropLineIf_of_takes (taken : List (List Char)) (rest : List Char)
    (single : ∀ line ∈ taken, '\n' ∉ line) (takes : TakesFirst kind taken rest) :
    dropLineIf drops (terminated taken ++ rest) = (rest, taken.length) := by
  rcases takes with ⟨line, rfl, isKind⟩ | ⟨rfl, stops⟩
  · have found := firstLine?_line line rest (single line (List.mem_cons_self ..))
    have whole : terminated [line] ++ rest = line ++ '\n' :: rest := by simp [terminated]
    rw [whole, dropLineIf, found]
    simp [(same line).mpr isKind]
  · rw [terminated, List.flatMap_nil, List.nil_append, dropLineIf]
    cases found : firstLine? rest with
    | none => rfl
    | some pair => simp [drops_of_stops kind drops same rest pair.1 pair.2 stops found]

theorem dropLinesWhile_of_takes (taken : List (List Char)) (rest : List Char)
    (single : ∀ line ∈ taken, '\n' ∉ line) (takes : TakesAll kind taken rest) :
    dropLinesWhile drops (terminated taken ++ rest) = (rest, taken.length) := by
  induction taken with
  | nil =>
    rw [terminated, List.flatMap_nil, List.nil_append]
    cases found : firstLine? rest with
    | none =>
      unfold dropLinesWhile
      split
      · next other => simp [found] at other
      · rfl
    | some pair =>
      exact dropLinesWhile_of_other drops rest pair.1 pair.2 found
        (drops_of_stops kind drops same rest pair.1 pair.2 takes.2 found)
  | cons line taken ih =>
    have further := ih (fun other member => single other (List.mem_cons_of_mem _ member))
      ⟨fun other member => takes.1 other (List.mem_cons_of_mem _ member), takes.2⟩
    have found :=
      firstLine?_line line (terminated taken ++ rest) (single line (List.mem_cons_self ..))
    have whole :
        terminated (line :: taken) ++ rest = line ++ '\n' :: (terminated taken ++ rest) := by
      simp [terminated]
    have drop := (same line).mpr (takes.1 line (List.mem_cons_self ..))
    rw [whole]
    unfold dropLinesWhile
    split
    · next other after again =>
      rw [found] at again
      cases again
      rw [if_pos drop, further]
      rfl
    · next missing => simp [found] at missing

end

theorem dropEndMarker_of_cuts (text tail : List Char) (cuts : CutsEnd (text ++ tail) tail) :
    dropEndMarker (text ++ tail) = text := by
  rcases cuts with isEnd | ⟨rfl, unmarked⟩
  · exact dropEndMarker_append text tail isEnd
  · rw [List.append_nil] at unmarked ⊢
    exact dropEndMarker_of_no_end text unmarked

theorem Layout.IsOf.normalize_eq {layout : Layout} {source : List Char}
    (isOf : layout.IsOf (unifyLineEnds source)) :
    normalize source = ⟨layout.text, layout.taken.length⟩ := by
  have single := isOf.single
  simp only [taken, List.mem_append] at single
  have version := dropLineIf_of_takes StartsVersion isVersionLine isVersionLine_iff _ _
    (fun line member => single line (.inl (.inl member))) isOf.version
  have comments := dropLinesWhile_of_takes StartsComment isCommentLine isCommentLine_iff _ _
    (fun line member => single line (.inl (.inr member))) isOf.comments
  have start := dropLineIf_of_takes StartsDocument isStartLine isStartLine_iff _ _
    (fun line member => single line (.inr member)) isOf.start
  have whole : unifyLineEnds source = terminated layout.version ++
      (terminated layout.comments ++ (terminated layout.start ++ layout.body)) := by
    rw [isOf.split, header, taken, terminated_append, terminated_append]
    simp only [List.append_assoc]
  have text : (if layout.start.length = 0 then layout.body else dropEndMarker layout.body) =
      layout.text := by
    by_cases none : layout.start = []
    next => simp [none, body, isOf.open_end none]
    next =>
      rw [if_neg (by simpa using none)]
      exact dropEndMarker_of_cuts layout.text layout.tail (isOf.marked_end none)
  simp only [normalize, whole, version, comments, start, text]
  simp [taken, Nat.add_assoc]

theorem opens_line (kind : List Char → Prop) (line after : List Char) (single : '\n' ∉ line) :
    Opens kind (line ++ '\n' :: after) ↔ kind line := by
  rw [opens_iff, firstLine?_line line after single]
  constructor
  · rintro ⟨same, rest, equal, isKind⟩
    cases equal
    exact isKind
  · exact fun isKind => ⟨line, after, rfl, isKind⟩

theorem opens_feed (kind : List Char → Prop) (text : List Char) :
    Opens kind (text ++ ['\n']) ↔ Opens kind text ∨ '\n' ∉ text ∧ kind text := by
  by_cases feed : '\n' ∈ text
  next =>
    obtain ⟨line, after, rfl, single⟩ := List.eq_append_cons_of_mem feed
    rw [List.append_assoc, List.cons_append, opens_line kind line _ single,
      opens_line kind line _ single]
    simp [feed]
  next =>
    have none : ¬ Opens kind text := by
      rintro ⟨line, after, rfl, -⟩
      simp at feed
    simp [opens_line kind text [] feed, none, feed]

theorem TakesFirst.feed {kind : List Char → Prop} {taken : List (List Char)} {rest : List Char}
    (takes : TakesFirst kind taken rest) (ended : taken = [] → '\n' ∉ rest → ¬ kind rest) :
    TakesFirst kind taken (rest ++ ['\n']) := by
  rcases takes with isFirst | ⟨none, stops⟩
  · exact .inl isFirst
  · refine .inr ⟨none, ?_⟩
    rw [opens_feed, not_or, not_and]
    exact ⟨stops, ended none⟩

theorem TakesAll.feed {kind : List Char → Prop} {taken : List (List Char)} {rest : List Char}
    (takes : TakesAll kind taken rest) (ended : '\n' ∉ rest → ¬ kind rest) :
    TakesAll kind taken (rest ++ ['\n']) := by
  refine ⟨takes.1, ?_⟩
  rw [opens_feed, not_or, not_and]
  exact ⟨takes.2, ended⟩

theorem eq_of_no_feed (lines : List (List Char)) (rest : List Char)
    (single : '\n' ∉ terminated lines ++ rest) : lines = [] ∧ terminated lines ++ rest = rest := by
  cases lines with
  | nil => exact ⟨rfl, rfl⟩
  | cons line lines => simp [terminated] at single

theorem hasEnd_of_feed (text : List Char) (hasEnd : HasEnd (text ++ ['\n'])) : HasEnd text := by
  obtain ⟨before, marker, whole, blanks, rfl, white⟩ := hasEnd
  -- The marker ends with a dot, so the feed is one of the blanks behind it.
  rcases blanks.eq_nil_or_concat with rfl | ⟨shorter, c, rfl⟩
  · have last := congrArg List.getLast? whole
    simp at last
  · have split : text ++ ['\n'] = (before ++ ("...".toList ++ shorter)) ++ [c] := by
      rw [whole]
      simp
    obtain ⟨rfl, -⟩ := List.append_inj' split rfl
    exact ⟨before, _, rfl, shorter, rfl, fun d member => white d (by simp [member])⟩

theorem IsEnd.feed {text : List Char} (isEnd : IsEnd text) : IsEnd (text ++ ['\n']) := by
  obtain ⟨blanks, rfl, white⟩ := isEnd
  refine ⟨blanks ++ ['\n'], by simp, ?_⟩
  intro c member
  rcases List.mem_append.mp member with inside | isFeed
  · exact white c inside
  · rw [List.mem_singleton.mp isFeed]
    decide

namespace Layout

/-- What is left is one line without a feed, which would be a line of the header if it had one. -/
def LacksFeed (layout : Layout) : Prop :=
  layout.start = [] ∧ '\n' ∉ layout.text ∧
    (layout.taken = [] ∧ StartsVersion layout.text ∨ StartsComment layout.text ∨
      StartsDocument layout.text)

theorem IsOf.body_eq_text {layout : Layout} {whole : List Char} (isOf : layout.IsOf whole)
    (noStart : layout.start = []) : layout.body = layout.text := by
  rw [body, isOf.open_end noStart, List.append_nil]

theorem IsOf.exists_cut {layout : Layout} {whole : List Char} (isOf : layout.IsOf whole) :
    ∃ text tail, text ++ tail = layout.body ++ ['\n'] ∧
      (text = layout.text ∨ text = layout.text ++ ['\n']) ∧ (layout.start = [] → tail = []) ∧
        (layout.start ≠ [] → CutsEnd (text ++ tail) tail) := by
  by_cases none : layout.start = []
  next =>
    refine ⟨layout.text ++ ['\n'], [], ?_, .inr rfl, fun _ => rfl, fun some => absurd none some⟩
    rw [isOf.body_eq_text none, List.append_nil]
  next =>
    rcases isOf.marked_end none with isEnd | ⟨noTail, unmarked⟩
    · refine ⟨layout.text, layout.tail ++ ['\n'], ?_, .inl rfl, fun start => absurd start none,
        fun _ => .inl isEnd.feed⟩
      simp [body]
    · have whole : layout.body = layout.text := by rw [body, noTail, List.append_nil]
      rw [whole] at unmarked ⊢
      refine ⟨layout.text ++ ['\n'], [], List.append_nil _, .inr rfl, fun _ => rfl,
        fun _ => .inr ⟨rfl, ?_⟩⟩
      rw [List.append_nil]
      exact fun marked => unmarked (hasEnd_of_feed layout.text marked)

theorem IsOf.feed {layout : Layout} {whole : List Char} (isOf : layout.IsOf whole)
    (ended : ¬ layout.LacksFeed) :
    ∃ text tail, (⟨layout.version, layout.comments, layout.start, text, tail⟩ : Layout).IsOf
        (whole ++ ['\n']) ∧ (text = layout.text ∨ text = layout.text ++ ['\n']) := by
  obtain ⟨text, tail, split, same, openEnd, markedEnd⟩ := isOf.exists_cut
  -- A line that is left without a feed opens nothing, or the feed would make it one of the header.
  have single (start : layout.start = []) (one : '\n' ∉ layout.body) :
      layout.body = layout.text ∧ ¬ StartsComment layout.text ∧ ¬ StartsDocument layout.text ∧
        (layout.taken = [] → ¬ StartsVersion layout.text) := by
    have whole := isOf.body_eq_text start
    rw [whole] at one
    refine ⟨whole, fun comment => ended ⟨start, one, .inr (.inl comment)⟩,
      fun document => ended ⟨start, one, .inr (.inr document)⟩,
      fun first version => ended ⟨start, one, .inl ⟨first, version⟩⟩⟩
  have joined : (⟨layout.version, layout.comments, layout.start, text, tail⟩ : Layout).body =
      layout.body ++ ['\n'] := split
  refine ⟨text, tail, ?_, same⟩
  constructor
  case split => rw [joined, isOf.split, List.append_assoc]; rfl
  case single => exact isOf.single
  case version =>
    have takes := isOf.version.feed fun noVersion one => by
      obtain ⟨noComments, rest⟩ := eq_of_no_feed _ _ one
      rw [rest] at one ⊢
      obtain ⟨noStart, rest⟩ := eq_of_no_feed _ _ one
      rw [rest] at one ⊢
      obtain ⟨left, -, -, version⟩ := single noStart one
      rw [left]
      exact version (by simp [taken, noVersion, noComments, noStart])
    rw [joined]
    simpa only [List.append_assoc] using takes
  case comments =>
    have takes := isOf.comments.feed fun one => by
      obtain ⟨noStart, rest⟩ := eq_of_no_feed _ _ one
      rw [rest] at one ⊢
      obtain ⟨left, comment, -⟩ := single noStart one
      rwa [left]
    rw [joined]
    simpa only [List.append_assoc] using takes
  case start =>
    rw [joined]
    exact isOf.start.feed fun noStart one => by
      obtain ⟨left, -, document, -⟩ := single noStart one
      rwa [left]
  case open_end => exact openEnd
  case marked_end => exact markedEnd

theorem not_startsVersion (line : List Char) (other : StartsComment line ∨ StartsDocument line) :
    ¬ StartsVersion line := by
  rintro ⟨separator, c, more, rfl, -⟩
  rcases other with ⟨rest, whole⟩ | ⟨rest, whole⟩
  · exact absurd (List.cons.inj whole).1 (by decide)
  · exact absurd (List.cons.inj whole).1 (by decide)

theorem not_startsComment (line : List Char) (document : StartsDocument line) :
    ¬ StartsComment line := by
  rintro ⟨more, rfl⟩
  obtain ⟨rest, whole⟩ := document
  exact absurd (List.cons.inj whole).1 (by decide)

theorem not_opens_nil (kind : List Char → Prop) : ¬ Opens kind [] := by
  rintro ⟨line, after, none, -⟩
  simp at none

theorem isOf_header (version comments start : List (List Char))
    (single : ∀ line ∈ version ++ comments ++ start, '\n' ∉ line)
    (isVersion : TakesFirst StartsVersion version (terminated comments ++ terminated start))
    (areComments : TakesAll StartsComment comments (terminated start))
    (isStart : TakesFirst StartsDocument start []) :
    (⟨version, comments, start, [], []⟩ : Layout).IsOf
      (terminated (version ++ comments ++ start)) := by
  constructor
  case split => simp [header, taken, body]
  case single => exact single
  case version => simpa [body] using isVersion
  case comments => simpa [body] using areComments
  case start => exact isStart
  case open_end => exact fun _ => rfl
  case marked_end =>
    refine fun _ => .inr ⟨rfl, ?_⟩
    rintro ⟨before, marker, none, isEnd⟩
    exact isEnd.ne_nil (List.append_eq_nil_iff.mp none.symm).2

section
variable {layout : Layout} {whole : List Char} (isOf : layout.IsOf whole)
  (noStart : layout.start = [])

include isOf noStart

theorem IsOf.ended_lines (one : '\n' ∉ layout.text) :
    whole ++ ['\n'] = terminated (layout.version ++ layout.comments ++ [layout.text]) ∧
      ∀ line ∈ layout.version ++ layout.comments ++ [layout.text], '\n' ∉ line := by
  have taken : layout.taken = layout.version ++ layout.comments := by
    rw [Layout.taken, noStart, List.append_nil]
  constructor
  · rw [isOf.split, header, taken, isOf.body_eq_text noStart, terminated_append _ [layout.text]]
    simp [terminated]
  · intro line member
    rcases List.mem_append.mp member with early | isLast
    · exact isOf.single line (taken ▸ early)
    · rwa [List.mem_singleton.mp isLast]

theorem IsOf.version_ended (other : ¬ StartsVersion layout.text) :
    TakesFirst StartsVersion layout.version
      (terminated layout.comments ++ (layout.text ++ ['\n'])) := by
  have version := isOf.version
  rw [noStart, isOf.body_eq_text noStart] at version
  rw [← List.append_assoc]
  refine version.feed fun _ single => ?_
  have left := (eq_of_no_feed _ _ single).2
  rw [left]
  exact other

end

theorem IsOf.feed_of_lacks {layout : Layout} {whole : List Char} (isOf : layout.IsOf whole)
    (lacks : layout.LacksFeed) : ∃ more : Layout, more.IsOf (whole ++ ['\n']) ∧ more.text = [] := by
  obtain ⟨noStart, one, isHeader⟩ := lacks
  obtain ⟨ended, single⟩ := isOf.ended_lines noStart one
  rw [ended]
  have noMore : TakesFirst StartsDocument [] [] := .inr ⟨rfl, not_opens_nil _⟩
  rcases isHeader with ⟨first, isVersion⟩ | comment | document
  · -- A version line is taken as the first line only, so there is no header before it.
    simp only [taken, List.append_eq_nil_iff] at first
    obtain ⟨⟨noVersion, noComments⟩, -⟩ := first
    refine ⟨⟨[layout.text], [], [], [], []⟩, ?_, rfl⟩
    rw [noVersion, noComments] at single ⊢
    exact isOf_header [layout.text] [] [] (by simpa using single) (.inl ⟨_, rfl, isVersion⟩)
      ⟨by simp, not_opens_nil _⟩ noMore
  · refine ⟨⟨layout.version, layout.comments ++ [layout.text], [], [], []⟩, ?_, rfl⟩
    have all : ∀ line ∈ layout.comments ++ [layout.text], StartsComment line := by
      intro line member
      rcases List.mem_append.mp member with early | isLast
      · exact isOf.comments.1 line early
      · rwa [List.mem_singleton.mp isLast]
    rw [List.append_assoc] at single ⊢
    rw [← List.append_nil (layout.version ++ (layout.comments ++ [layout.text]))] at single ⊢
    refine isOf_header _ _ _ single ?_ ⟨all, not_opens_nil _⟩ noMore
    have version := isOf.version_ended noStart (not_startsVersion layout.text (.inl comment))
    simpa [terminated] using version
  · refine ⟨⟨layout.version, layout.comments, [layout.text], [], []⟩, ?_, rfl⟩
    refine isOf_header _ _ _ single ?_ ⟨isOf.comments.1, ?_⟩ (.inl ⟨_, rfl, document⟩)
    · have version := isOf.version_ended noStart (not_startsVersion layout.text (.inr document))
      simpa [terminated] using version
    · have stops := not_startsComment layout.text document
      simpa [terminated] using (opens_line StartsComment layout.text [] one).not.mpr stops

end Layout

theorem unifyLineEnds_feed (text : List Char) :
    unifyLineEnds (text ++ ['\n']) = unifyLineEnds text ++ ['\n'] ∨
      ∃ early, unifyLineEnds text = early ++ ['\n'] ∧
        unifyLineEnds (text ++ ['\n']) = unifyLineEnds text := by
  by_cases torn : ∃ early, text = early ++ ['\r']
  next =>
    obtain ⟨early, rfl⟩ := torn
    have alone : unifyLineEnds (early ++ ['\r']) = unifyLineEnds early ++ ['\n'] :=
      unifyLineEnds_append early ['\r'] (by simp [Apart, StaysOpen])
    have pair : unifyLineEnds (early ++ ['\r', '\n']) = unifyLineEnds early ++ ['\n'] :=
      unifyLineEnds_append early ['\r', '\n'] (by simp [Apart, StaysOpen])
    refine .inr ⟨unifyLineEnds early, alone, ?_⟩
    rw [alone, ← pair, List.append_assoc]
    rfl
  next =>
    exact .inl (unifyLineEnds_append text ['\n'] fun early whole => absurd ⟨early, whole⟩ torn)

theorem Layout.LacksFeed.not_ended {layout : Layout} {whole : List Char} (lacks : layout.LacksFeed)
    (isOf : layout.IsOf whole) (early : List Char) : whole ≠ early ++ ['\n'] := by
  intro ended
  obtain ⟨noStart, one, isHeader⟩ := lacks
  have some : layout.text ≠ [] := by
    rintro none
    rw [none] at isHeader
    rcases isHeader with ⟨-, separator, c, more, whole, -⟩ | ⟨more, whole⟩ | ⟨more, whole⟩ <;>
      simp at whole
  have last := congrArg List.getLast? (isOf.split.symm.trans ended)
  rw [isOf.body_eq_text noStart, List.getLast?_append_of_ne_nil _ some,
    List.getLast?_concat] at last
  exact one (List.mem_of_getLast? last)

theorem firstBadLine_append (lines more : List (List Char)) (index : Nat)
    (good : ∀ line ∈ more, ¬ IsBad line) :
    firstBadLine (lines ++ more) index = firstBadLine lines index := by
  induction lines generalizing index with
  | nil =>
    rw [List.nil_append, (firstBadLine_eq_none_iff more index).mpr good]
    rfl
  | cons line lines ih => simp only [List.cons_append, firstBadLine, ih]

theorem check_congr (source other : String) (filename : Option String)
    (offset : (normalize source.toList).offset = (normalize other.toList).offset)
    (first : firstBadLine (linesOf (normalize source.toList).text) 0 =
      firstBadLine (linesOf (normalize other.toList).text) 0) :
    check source filename = check other filename := by
  simp only [check, offset, first]

theorem not_isBad_nil : ¬ IsBad [] := fun bad => by
  cases colon_mem_of_isBad [] bad

theorem firstBadLine_feed (text : List Char) (index : Nat) :
    firstBadLine (linesOf (text ++ ['\n'])) index = firstBadLine (linesOf text) index := by
  obtain ⟨before, last, first, more, lines, later, joined⟩ := linesOf_append text ['\n']
  obtain ⟨rfl, rfl⟩ : first = [] ∧ more = [[]] := by
    rw [linesOf_feed] at later
    cases later
    exact ⟨rfl, rfl⟩
  have whole : linesOf (text ++ ['\n']) = linesOf text ++ [[]] := by simp [joined, lines]
  rw [whole, firstBadLine_append _ _ index (by simpa using not_isBad_nil)]

section
variable {source : String} {layout : Layout}
  (isOf : layout.IsOf (unifyLineEnds source.toList)) (filename : Option String)

include isOf

theorem check_feed_of_lacks (lacks : layout.LacksFeed) :
    check (source ++ "\n") filename = none := by
  have ended : (source ++ "\n").toList = source.toList ++ ['\n'] := String.toList_append
  rw [check_eq_none_iff, ended]
  rcases unifyLineEnds_feed source.toList with further | ⟨early, whole, -⟩
  · obtain ⟨more, moreOf, none⟩ := isOf.feed_of_lacks lacks
    rw [← further] at moreOf
    rw [moreOf.normalize_eq, none]
    simpa [linesOf, splitOn] using not_isBad_nil
  · exact absurd whole (lacks.not_ended isOf early)

theorem check_feed_of_ended (ended : ¬ layout.LacksFeed) :
    check (source ++ "\n") filename = check source filename := by
  have toList : (source ++ "\n").toList = source.toList ++ ['\n'] := String.toList_append
  rcases unifyLineEnds_feed source.toList with further | ⟨early, -, same⟩
  · obtain ⟨text, tail, moreOf, cases⟩ := isOf.feed ended
    rw [← further, ← toList] at moreOf
    apply check_congr
    · rw [moreOf.normalize_eq, isOf.normalize_eq]
      rfl
    · rw [moreOf.normalize_eq, isOf.normalize_eq]
      rcases cases with rfl | rfl
      · rfl
      · exact firstBadLine_feed layout.text 0
  · have normalized : normalize (source ++ "\n").toList = normalize source.toList := by
      rw [toList, normalize, normalize, same]
    apply check_congr
    · rw [normalized]
    · rw [normalized]

theorem check_of_lacks (lacks : layout.LacksFeed) :
    (IsBad layout.text → ∃ r, check source filename = some r ∧
      r.snippet = some (String.ofList layout.text)) ∧
    (¬ IsBad layout.text → check source filename = none) := by
  have lines : linesOf (normalize source.toList).text = [layout.text] := by
    rw [isOf.normalize_eq, linesOf_line _ lacks.2.1]
  constructor
  · intro bad
    obtain ⟨r, found, -, -, -, near⟩ := check_of_first source filename 0 layout.text
      ⟨[], [], lines, rfl, bad, by simp⟩
    exact ⟨r, found, near⟩
  · intro good
    rw [check_eq_none_iff, lines]
    simpa using good

end

theorem check_feed (source : String) (filename : Option String) :
    ∃ layout : Layout, layout.IsOf (unifyLineEnds source.toList) ∧
      layout.text = (normalize source.toList).text ∧
      (check (source ++ "\n") filename = check source filename ↔
        ¬ (layout.LacksFeed ∧ IsBad layout.text)) ∧
      (layout.LacksFeed ∧ IsBad layout.text →
        check (source ++ "\n") filename = none ∧
          ∃ r, check source filename = some r ∧ r.snippet = some (String.ofList layout.text)) := by
  obtain ⟨layout, isOf, normalized⟩ := exists_layout source.toList
  refine ⟨layout, isOf, by rw [normalized], ?_⟩
  by_cases lacks : layout.LacksFeed
  next =>
    obtain ⟨rejects, passes⟩ := check_of_lacks isOf filename lacks
    have taken := check_feed_of_lacks isOf filename lacks
    refine ⟨⟨fun same both => ?_, fun good => ?_⟩, fun both => ⟨taken, rejects both.2⟩⟩
    · obtain ⟨r, found, -⟩ := rejects both.2
      rw [taken, found] at same
      cases same
    · rw [taken, passes fun bad => good ⟨lacks, bad⟩]
  next =>
    refine ⟨⟨fun _ both => lacks both.1, fun _ => check_feed_of_ended isOf filename lacks⟩,
      fun both => ?_⟩
    exact absurd both.1 lacks

theorem check_unended :
    ∃ layout : Layout, layout.IsOf (unifyLineEnds "#a:b".toList) ∧ layout.LacksFeed ∧
      IsBad layout.text ∧ (check "#a:b" none).isSome = true ∧
        check ("#a:b" ++ "\n") none = none := by
  have rejected : (check "#a:b" none).isSome = true := by decide +kernel
  have passes : check ("#a:b" ++ "\n") none = none := by decide +kernel
  obtain ⟨layout, isOf, -, same, -⟩ := check_feed "#a:b" none
  have both : layout.LacksFeed ∧ IsBad layout.text := by
    by_contra good
    rw [← same.mpr good, passes] at rejected
    cases rejected
  exact ⟨layout, isOf, both.1, both.2, rejected, passes⟩

end LocaleLint.ColonScan
