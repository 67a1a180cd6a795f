import LocaleLint.Proofs.Strict
import LocaleLint.Proofs.ColonScan.Place
import LocaleLint.Proofs.Yaml.Position

set_option autoImplicit false

namespace LocaleLint

open LocaleLint.Text LocaleLint.Yaml

theorem Strict.check_of_colonSpacing (source : String) (filename : Option String) (r : Rejection)
    (ended : (parse Lenient.parser source filename).outcome = .error (.rejected r))
    (category : r.category = .colonSpacing) : ColonScan.check source filename = some r := by
  -- What is announced ends the run before the scan does, and never as a matter of colons.
  cases announced : (Lenient.parse Channel.outermost source (some anonymous)).diagnostics with
  | nil =>
    rw [outcome_of_silent source filename announced] at ended
    cases ending : (Lenient.parse Channel.outermost source (some anonymous)).outcome with
    | error failure =>
      rw [ending] at ended
      cases failure with
      | rejected own =>
        obtain ⟨problem, -, rfl⟩ := Lenient.problem_of_rejected _ _ _ ending
        cases ended
        cases category
      | aborted abort => cases ended
    | ok value =>
      rw [ending] at ended
      cases scanned : ColonScan.check source filename with
      | some other =>
        rw [scanned] at ended
        cases ended
        rfl
      | none =>
        rw [scanned] at ended
        cases ended
  | cons first rest =>
    obtain ⟨other, escalated, rejected⟩ := outcome_of_announced source filename first rest announced
    obtain ⟨text, matched⟩ := Diagnostic.duplicateIn?_textFor first first.key.text
    obtain ⟨same, again, duplicate, -⟩ :=
      Diagnostic.escalated?_eq_some (.duplicateKey first) filename text matched
    rw [ended] at rejected
    cases rejected
    rw [escalated] at again
    cases again
    rw [category] at duplicate
    cases duplicate

namespace ColonScan

def NumbersLine (source : List Char) (n index : Nat) (snippet : List Char) : Prop :=
  (positionAt source index).line + 1 = n ∧
    ∃ line, lineAt source n = some line ∧ snippet <+: line

structure Finds (source : List Char) (n : Nat) (before snippet after : List Char) : Prop where
  whole : source = before ++ (snippet ++ after)
  begins : LineBegins isFeed before (snippet ++ after)
  numbered : (sourceLines before).length = n
  inside : ∀ c ∈ snippet, isFeed c = false
  bad : IsBad snippet

section
variable {source before snippet after : List Char} {n : Nat}
  (finds : Finds source n before snippet after)

include finds

theorem Finds.length_sourceLines (k : Nat) :
    (sourceLines (before ++ snippet.take k)).length = n := by
  have whole : snippet ++ after = snippet.take k ++ (snippet.drop k ++ after) := by
    rw [← List.append_assoc, List.take_append_drop]
  have begins := (whole ▸ finds.begins).of_append
  obtain ⟨early, lines, joined, -⟩ := linesBy_append _ _ begins
  have single := linesBy_plain rfl (snippet.take k) fun c member =>
    finds.inside c (List.take_subset _ _ member)
  have number := finds.numbered
  rw [sourceLines_eq, lines] at number
  rw [sourceLines_eq, joined, single]
  simpa using number

theorem Finds.before_colon :
    source.take (before.length + colonIndex snippet) =
      before ++ snippet.take (colonIndex snippet) := by
  have inside : colonIndex snippet ≤ snippet.length := (List.takeWhile_prefix _).length_le
  rw [finds.whole, List.take_length_add_append, List.take_append_of_le_length inside]

theorem Finds.line_positionAt :
    (positionAt source (before.length + colonIndex snippet)).line + 1 =
      n + (source.take (before.length + colonIndex snippet)).countP isRareBreak := by
  obtain ⟨key, c, more, split, first, -⟩ := finds.bad
  have index : colonIndex snippet = key.length := by
    rw [split, colonIndex_eq key _ first]
  have taken : snippet.take key.length = key := by
    rw [split, List.take_left]
  have whole : source = (before ++ key) ++ (':' :: c :: more ++ after) := by
    rw [finds.whole, split]
    simp
  have lines := Position.start.line_after (before ++ key) (':' :: c :: more ++ after)
    (by simp [Apart, StaysOpen])
  -- Within the snippet the lines of the source do not go on
  -- counting, so the key adds rare breaks only.
  have number := finds.length_sourceLines key.length
  rw [taken] at number
  rw [length_segments, number, ← whole, List.length_append] at lines
  rw [finds.before_colon, index, taken, positionAt, lines]
  exact Nat.zero_add _

theorem Finds.lineAt_of_plain (plain : ∀ c ∈ before ++ snippet, isRareBreak c = false) :
    ∃ line, lineAt source n = some line ∧ snippet <+: line := by
  have unbroken : ∀ c ∈ snippet, isBreak c = false := by
    intro c member
    have notRare := plain c (List.mem_append_right _ member)
    simpa [isRareBreak, finds.inside c member] using notRare
  have noneBefore : before.countP isRareBreak = 0 := by
    rw [List.countP_eq_zero]
    intro c member
    simp [plain c (List.mem_append_left _ member)]
  obtain ⟨first, more, later⟩ := exists_linesBy isBreak after
  obtain ⟨early, lines, joined, -⟩ := linesBy_append _ _ finds.begins.ofFeed
  rw [linesBy_plain_append rfl snippet after first more unbroken later, ← finds.whole,
    ← segments_eq] at joined
  have number := length_segments before
  rw [noneBefore, finds.numbered, segments_eq, lines] at number
  simp only [List.length_append, List.length_singleton, Nat.add_zero] at number
  refine ⟨snippet ++ first, ?_, List.prefix_append _ _⟩
  rw [lineAt, if_pos (by omega), joined, ← number]
  simp

theorem Finds.numbersLine_iff :
    NumbersLine source n (before.length + colonIndex snippet) snippet ↔
      ∀ c ∈ before ++ snippet, isRareBreak c = false := by
  have falls := finds.line_positionAt
  rw [finds.before_colon] at falls
  -- A rare break before the colon shifts the number; one in the snippet behind its colon breaks the
  -- line that is found, which then cannot begin with the whole snippet.
  constructor
  · rintro ⟨number, line, found, starts⟩
    have none : (before ++ snippet.take (colonIndex snippet)).countP isRareBreak = 0 := by
      omega
    rw [List.countP_eq_zero] at none
    have unbroken : ∀ c ∈ line, isBreak c = false := by
      rw [lineAt] at found
      split at found
      · rw [segments_eq] at found
        exact mem_linesBy _ _ (List.mem_of_getElem? found)
      · cases found
    intro c member
    rcases List.mem_append.mp member with early | inSnippet
    · simpa using none c (List.mem_append_left _ early)
    · simp [isRareBreak, unbroken c (starts.subset inSnippet)]
  · intro plain
    have none : (before ++ snippet.take (colonIndex snippet)).countP isRareBreak = 0 := by
      rw [List.countP_eq_zero]
      intro c member
      have inside : c ∈ before ++ snippet := by
        rw [List.mem_append] at member ⊢
        exact member.imp_right fun taken => List.take_subset _ snippet taken
      simp [plain c inside]
    exact ⟨by omega, finds.lineAt_of_plain plain⟩

end

theorem exists_finds (source : String) (filename : Option String) (r : Rejection)
    (found : check source filename = some r) :
    ∃ n before snippet after, Finds source.toList n before snippet after ∧ r.line = some (n : Int) ∧
      r.column = some (colonIndex snippet + 2 : Nat) ∧
        r.snippet = some (String.ofList snippet) := by
  obtain ⟨i, snippet, first⟩ := exists_first_of_check source filename r found
  obtain ⟨same, rejected, -, line, column, near⟩ := check_of_first source filename i snippet first
  rw [found] at rejected
  cases rejected
  obtain ⟨layout, isOf, normalized⟩ := exists_layout source.toList
  rw [normalized] at first line
  obtain ⟨whole, points⟩ := isOf.points i snippet first
  obtain ⟨-, -, -, -, bad, -⟩ := first
  obtain ⟨rest, split⟩ := points.begins
  have place := points.numbered.2
  rw [sourceLines_eq] at place
  obtain ⟨placed, placedOf, rfl, number⟩ := exists_placed_of_getElem? rfl rfl _ _ _ place
  refine ⟨_, placed.before, snippet, rest ++ (placed.ending ++ placed.after), ?_, line,
    column, near⟩
  constructor
  case whole => rw [placedOf.whole, ← split, List.append_assoc]
  case begins =>
    have begins := placedOf.begins
    rwa [← split, List.append_assoc] at begins
  case numbered =>
    rw [sourceLines_eq, number]
    rfl
  case inside =>
    intro c member
    exact placedOf.plain c (points.begins.subset member)
  case bad => exact bad

theorem check_numbered (source : String) (filename : Option String) (r : Rejection)
    (ended : (Strict.parse Lenient.parser source filename).outcome = .error (.rejected r))
    (category : r.category = .colonSpacing) :
    ∃ n before snippet after, Finds source.toList n before snippet after ∧ r.line = some (n : Int) ∧
      r.column = some (colonIndex snippet + 2 : Nat) ∧ r.snippet = some (String.ofList snippet) ∧
      (positionAt source.toList (before.length + colonIndex snippet)).line + 1 =
        n + (source.toList.take (before.length + colonIndex snippet)).countP isRareBreak ∧
      (NumbersLine source.toList n (before.length + colonIndex snippet) snippet ↔
        ∀ c ∈ before ++ snippet, isRareBreak c = false) := by
  have found := Strict.check_of_colonSpacing source filename r ended category
  obtain ⟨n, before, snippet, after, finds, line, column, near⟩ :=
    exists_finds source filename r found
  exact ⟨n, before, snippet, after, finds, line, column, near, finds.line_positionAt,
    finds.numbersLine_iff⟩

def separated : String := "- a\u2028\n- b:c\n"

theorem parse_separated :
    ∃ r, (Strict.parse Lenient.parser separated none).outcome = .error (.rejected r) ∧
      r.category = .colonSpacing ∧
      ∃ n before snippet after, Finds separated.toList n before snippet after ∧
        r.line = some (n : Int) ∧
        ¬ NumbersLine separated.toList n (before.length + colonIndex snippet) snippet := by
  have silent : (Lenient.parse Channel.outermost separated (some anonymous)).diagnostics = [] := by
    decide +kernel
  have reads :
    (Lenient.parse Channel.outermost separated (some anonymous)).outcome.isOk = true := by
    decide +kernel
  have rejects : (check separated none).isSome = true := by decide +kernel
  obtain ⟨r, found⟩ := Option.isSome_iff_exists.mp rejects
  have category := category_of_check separated none r found
  have ended : (Strict.parse Lenient.parser separated none).outcome = .error (.rejected r) := by
    rw [Strict.outcome_of_silent separated none silent]
    cases outcome : (Lenient.parse Channel.outermost separated (some anonymous)).outcome with
    | error failure =>
      rw [outcome] at reads
      cases reads
    | ok value => simp only [found]
  refine ⟨r, ended, category, ?_⟩
  obtain ⟨n, before, snippet, after, finds, line, -, -, -, iff⟩ :=
    check_numbered separated none r ended category
  refine ⟨n, before, snippet, after, finds, line, fun agrees => ?_⟩
  -- Every start of the text that reaches a colon holds the separator.
  have reaches : ∀ m ≤ 11, ':' ∈ separated.toList.take m → '\u2028' ∈ separated.toList.take m := by
    decide
  have length : before.length + snippet.length ≤ 11 := by
    have whole := congrArg List.length finds.whole
    simp only [List.length_append] at whole
    have eleven : separated.toList.length = 11 := by decide
    omega
  have taken : separated.toList.take (before.length + snippet.length) = before ++ snippet := by
    rw [finds.whole, ← List.append_assoc, ← List.length_append, List.take_left]
  have colon : ':' ∈ before ++ snippet := List.mem_append_right _ (colon_mem_of_isBad _ finds.bad)
  have separator := iff.mp agrees '\u2028' (taken ▸ reaches _ length (taken ▸ colon))
  cases separator

end ColonScan

end LocaleLint
