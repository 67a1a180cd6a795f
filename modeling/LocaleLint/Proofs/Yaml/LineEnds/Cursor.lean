import Mathlib.Data.List.Basic
import LocaleLint.Yaml.Token.Scan
import LocaleLint.Proofs.Text.Lines

set_option autoImplicit false

namespace LocaleLint.Text

def asFeed (c : Char) : Char := if c = '\r' then '\n' else c

theorem asFeed_of_ne (c : Char) (other : c ≠ '\r') : asFeed c = c := if_neg other

theorem asFeed_ne_return (c : Char) : asFeed c ≠ '\r' := by
  unfold asFeed
  split
  next => decide
  next other => exact other

theorem asFeed_eq_iff (c d : Char) (noReturn : d ≠ '\r') (noFeed : d ≠ '\n') :
    asFeed c = d ↔ c = d := by
  unfold asFeed
  split
  next isReturn => simp [isReturn, Ne.symm noReturn, Ne.symm noFeed]
  next => rfl

theorem asFeed_class {γ : Type} (classify : Char → γ) (same : classify '\n' = classify '\r')
    (c : Char) : classify (asFeed c) = classify c := by
  unfold asFeed
  split
  next isReturn => rw [isReturn, same]
  next => rfl

theorem ne_return_of_class (classify : Char → Bool) (c : Char) (held : classify c = true)
    (noReturn : classify '\r' = false) : c ≠ '\r' := by
  rintro rfl
  rw [noReturn] at held
  cases held

theorem ne_return_of_some {γ : Type} (classify : Char → Option γ) (c : Char) (value : γ)
    (held : classify c = some value) (noReturn : classify '\r' = none) : c ≠ '\r' := by
  rintro rfl
  rw [noReturn] at held
  cases held

theorem unifyLineEnds_cons (c : Char) (rest : List Char) (alone : c ≠ '\r') :
    unifyLineEnds (c :: rest) = c :: unifyLineEnds rest := by
  rw [unifyLineEnds, if_neg alone]
  intro later same
  cases same
  exact absurd rfl alone

theorem unifyLineEnds_return (rest : List Char) (alone : rest.head? ≠ some '\n') :
    unifyLineEnds ('\r' :: rest) = '\n' :: unifyLineEnds rest := by
  rw [unifyLineEnds, if_pos rfl]
  intro later _ same
  rw [same] at alone
  exact alone rfl

section
variable (keep : Char → Bool) (noReturn : keep '\r' = false) (noFeed : keep '\n' = false)

include noReturn noFeed

theorem takeWhile_unifyLineEnds (text : List Char) :
    (unifyLineEnds text).takeWhile keep = text.takeWhile keep := by
  fun_induction unifyLineEnds text with
  | case1 => rfl
  | case2 rest ih => simp [noReturn, noFeed]
  | case3 c rest lone ih =>
    by_cases isReturn : c = '\r'
    next => simp [isReturn, noReturn, noFeed]
    next => simp [isReturn, List.takeWhile_cons, ih]

end

theorem isPrefixOf_unifyLineEnds (marks text : List Char) (noReturn : '\r' ∉ marks)
    (noFeed : '\n' ∉ marks) : marks.isPrefixOf (unifyLineEnds text) = marks.isPrefixOf text := by
  induction marks generalizing text with
  | nil => rfl
  | cons m marks ih =>
    simp only [List.mem_cons, not_or] at noReturn noFeed
    fun_cases unifyLineEnds text with
    | case1 => rfl
    | case2 rest => simp [List.isPrefixOf, beq_false_of_ne (Ne.symm noReturn.1),
        beq_false_of_ne (Ne.symm noFeed.1)]
    | case3 c rest lone =>
      by_cases isReturn : c = '\r'
      next => simp [isReturn, List.isPrefixOf, beq_false_of_ne (Ne.symm noReturn.1),
        beq_false_of_ne (Ne.symm noFeed.1)]
      next => simp [isReturn, List.isPrefixOf, ih rest noReturn.2 noFeed.2]

theorem headD_unifyLineEnds (text : List Char) :
    (unifyLineEnds text).headD '\x00' = asFeed (text.headD '\x00') := by
  fun_cases unifyLineEnds text with
  | case1 | case2 | case3 => rfl

end LocaleLint.Text

namespace LocaleLint.Yaml

open LocaleLint.Text

variable (shift : Nat → Nat)

-- The place further on by the returns left out above it.
def Position.moved (p : Position) : Position := ⟨p.index + shift p.line, p.line, p.column⟩

-- From a line on, a line end takes one return more away exactly where it is a return with its feed.
def Counts : Nat → List Char → Prop
  | _, [] => True
  | line, '\r' :: '\n' :: rest => shift (line + 1) = shift line + 1 ∧ Counts (line + 1) rest
  | line, c :: rest =>
      if isBreak c then shift (line + 1) = shift line ∧ Counts (line + 1) rest else Counts line rest

theorem counts_congr (shift other : Nat → Nat) (line : Nat) (text : List Char)
    (same : ∀ n, line ≤ n → shift n = other n) (counts : Counts shift line text) :
    Counts other line text := by
  fun_induction Counts shift line text with
  | case1 => trivial
  | case2 line rest ih =>
    rw [Counts, ← same line (Nat.le_refl _), ← same (line + 1) (Nat.le_succ _)]
    exact ⟨counts.1, ih (fun n below => same n (by omega)) counts.2⟩
  | case3 line c rest lone isEnd ih =>
    rw [Counts, if_pos isEnd, ← same line (Nat.le_refl _), ← same (line + 1) (Nat.le_succ _)]
    · exact ⟨counts.1, ih (fun n below => same n (by omega)) counts.2⟩
    · exact lone
  | case4 line c rest lone inside ih =>
    rw [Counts, if_neg inside]
    · exact ih same counts
    · exact lone

theorem counts_above (shift : Nat → Nat) (line count : Nat) (text : List Char)
    (counts : Counts shift (line + 1) text) :
    Counts (fun n => if n = line then count else shift n) (line + 1) text := by
  refine counts_congr _ _ _ _ (fun n below => ?_) counts
  rw [if_neg (by omega)]

theorem exists_counts (text : List Char) (line count : Nat) :
    ∃ shift : Nat → Nat, shift line = count ∧ Counts shift line text := by
  fun_induction unifyLineEnds text generalizing line count with
  | case1 => exact ⟨fun _ => count, rfl, trivial⟩
  | case2 rest ih =>
    obtain ⟨shift, above, counts⟩ := ih (line + 1) (count + 1)
    refine ⟨fun n => if n = line then count else shift n, if_pos rfl, ?_⟩
    rw [Counts]
    exact ⟨by simpa using above, counts_above shift line count rest counts⟩
  | case3 c rest lone ih =>
    by_cases isEnd : isBreak c = true
    next =>
      obtain ⟨shift, above, counts⟩ := ih (line + 1) count
      refine ⟨fun n => if n = line then count else shift n, if_pos rfl, ?_⟩
      rw [Counts, if_pos isEnd]
      · exact ⟨by simpa using above, counts_above shift line count rest counts⟩
      · exact lone
    next =>
      obtain ⟨shift, above, counts⟩ := ih line count
      refine ⟨shift, above, ?_⟩
      rw [Counts, if_neg isEnd]
      · exact counts
      · exact lone

theorem endsLine_of_ne (c : Char) (rest : List Char) (alone : c ≠ '\r') :
    endsLine c rest = isBreak c := by
  simp [endsLine, alone]

theorem counts_cons (line : Nat) (c : Char) (rest : List Char) (alone : c ≠ '\r') :
    Counts shift line (c :: rest) ↔
      if isBreak c then shift (line + 1) = shift line ∧ Counts shift (line + 1) rest
      else Counts shift line rest := by
  rw [Counts]
  intro later same
  cases same
  exact absurd rfl alone

theorem counts_return (line : Nat) (rest : List Char) (alone : rest.head? ≠ some '\n') :
    Counts shift line ('\r' :: rest) ↔
      shift (line + 1) = shift line ∧ Counts shift (line + 1) rest := by
  rw [Counts, if_pos (by decide)]
  intro later _ same
  rw [same] at alone
  exact alone rfl

namespace Cursor

theorem peekAt_zero (c : Cursor) : c.peekAt 0 = c.peek := by
  obtain ⟨text, p⟩ := c
  cases text <;> rfl

theorem peekAt_succ (c : Cursor) (offset : Nat) : c.peekAt (offset + 1) = c.next.peekAt offset := by
  obtain ⟨text, p⟩ := c
  cases text <;> rfl

theorem rest_of_peek (c : Cursor) (first : Char) (stands : c.peek = first)
    (inside : first ≠ '\x00') :
    ∃ rest, c.rest = first :: rest := by
  obtain ⟨text, p⟩ := c
  cases text with
  | nil => exact absurd stands.symm inside
  | cons ch rest => exact ⟨rest, by rw [← stands]; rfl⟩

theorem alone_of_prefix (c : Cursor) (taken : List Char) (first : taken <+: c.rest)
    (noReturn : '\r' ∉ taken) : ∀ i < taken.length, c.peekAt i ≠ '\r' := by
  intro i within same
  obtain ⟨rest, whole⟩ := first
  have inside : c.peekAt i = taken[i] := by
    rw [peekAt, ← whole, List.getD_eq_getElem?_getD, List.getElem?_append_left within,
      List.getElem?_eq_getElem within]
    rfl
  rw [inside] at same
  exact noReturn (same ▸ List.getElem_mem within)

structure Beside (c d : Cursor) : Prop where
  rest : d.rest = unifyLineEnds c.rest
  place : c.place = d.place.moved shift
  counts : Counts shift c.place.line c.rest

namespace Beside

variable {shift} {c d : Cursor} (beside : Beside shift c d)

include beside

theorem line : c.place.line = d.place.line := by
  rw [beside.place]
  rfl

theorem column : c.place.column = d.place.column := by
  rw [beside.place]
  rfl

theorem peek : d.peek = asFeed c.peek := by
  rw [Cursor.peek, beside.rest, headD_unifyLineEnds, Cursor.peek]

theorem remaining : c.remaining = d.remaining := by
  rw [Cursor.remaining, Cursor.remaining, beside.rest,
    unifyLineEnds_of_not_mem _ (return_not_mem_unifyLineEnds c.rest)]

theorem next (alone : c.peek ≠ '\r') : Beside shift c.next d.next := by
  obtain ⟨text, p⟩ := c
  obtain ⟨unified, q⟩ := d
  obtain ⟨rest, place, counts⟩ := beside
  simp only at rest place counts
  cases text with
  | nil =>
    rw [rest]
    exact ⟨rfl, place, counts⟩
  | cons ch text =>
    -- A line end without a return takes nothing away, so the next line has the count of this one.
    have other : ch ≠ '\r' := alone
    rw [unifyLineEnds_cons ch text other] at rest
    rw [counts_cons shift _ ch text other] at counts
    rw [rest, place]
    simp only [Cursor.next, Position.step, endsLine_of_ne ch _ other]
    rw [place] at counts
    split
    next isEnd =>
      rw [if_pos isEnd] at counts
      refine ⟨rfl, ?_, counts.2⟩
      simp only [Position.moved, Position.mk.injEq, and_true]
      have same := counts.1
      simp only [Position.moved] at same
      omega
    next inside =>
      rw [if_neg inside] at counts
      split
      next =>
        refine ⟨rfl, ?_, counts⟩
        simp only [Position.moved, Position.mk.injEq, and_true]
        omega
      next =>
        refine ⟨rfl, ?_, counts⟩
        simp only [Position.moved, Position.mk.injEq, and_true]
        omega

theorem skip (count : Nat) (alone : ∀ i < count, c.peekAt i ≠ '\r') :
    Beside shift (c.skip count) (d.skip count) := by
  induction count generalizing c d with
  | zero => exact beside
  | succ count ih =>
    have here : c.peek ≠ '\r' := by
      rw [← peekAt_zero]
      exact alone 0 (Nat.succ_pos count)
    refine ih (beside.next here) fun i within => ?_
    rw [← peekAt_succ]
    exact alone (i + 1) (Nat.succ_lt_succ within)

theorem peekAt (offset : Nat) (alone : ∀ i < offset, c.peekAt i ≠ '\r') :
    d.peekAt offset = asFeed (c.peekAt offset) := by
  induction offset generalizing c d with
  | zero =>
    rw [peekAt_zero, peekAt_zero]
    exact beside.peek
  | succ offset ih =>
    have here : c.peek ≠ '\r' := by
      rw [← peekAt_zero]
      exact alone 0 (Nat.succ_pos offset)
    rw [peekAt_succ, peekAt_succ]
    refine ih (beside.next here) fun i within => ?_
    rw [← peekAt_succ]
    exact alone (i + 1) (Nat.succ_lt_succ within)

theorem pair (rest : List Char) (whole : c.rest = '\r' :: '\n' :: rest) :
    Beside shift (c.skip 2) (d.skip 1) := by
  obtain ⟨text, p⟩ := c
  obtain ⟨unified, q⟩ := d
  obtain ⟨same, place, counts⟩ := beside
  simp only at same place counts whole
  rw [whole, Counts] at counts
  rw [same, place, whole]
  refine ⟨rfl, ?_, ?_⟩
  · have further := counts.1
    simp only [place, Position.moved] at further
    simp [Cursor.skip, Cursor.next, Position.step, endsLine, isBreak, unifyLineEnds, Position.moved]
    omega
  · have later := counts.2
    rw [place] at later
    simpa [Cursor.skip, Cursor.next, Position.step, endsLine, isBreak] using later

theorem lone (rest : List Char) (whole : c.rest = '\r' :: rest) (alone : rest.head? ≠ some '\n') :
    Beside shift (c.skip 1) (d.skip 1) := by
  obtain ⟨text, p⟩ := c
  obtain ⟨unified, q⟩ := d
  obtain ⟨same, place, counts⟩ := beside
  simp only at same place counts whole
  rw [whole, counts_return shift _ rest alone] at counts
  rw [same, place, whole, unifyLineEnds_return rest alone]
  refine ⟨rfl, ?_, ?_⟩
  · have further := counts.1
    simp only [place, Position.moved] at further
    simp [Cursor.skip, Cursor.next, Position.step, endsLine, isBreak, Position.moved, alone]
    omega
  · have later := counts.2
    rw [place] at later
    simpa [Cursor.skip, Cursor.next, Position.step, endsLine, isBreak, alone] using later

theorem startsWith (marks : List Char) (noReturn : '\r' ∉ marks) (noFeed : '\n' ∉ marks) :
    d.startsWith marks = c.startsWith marks := by
  rw [Cursor.startsWith, beside.rest, isPrefixOf_unifyLineEnds marks _ noReturn noFeed,
    Cursor.startsWith]

end Beside

theorem skipWhile_of_nil (keep : Char → Bool) (c : Cursor) (none : c.rest = []) :
    c.skipWhile keep = c := by
  obtain ⟨text, p⟩ := c
  simp only at none
  rw [none]
  rfl

theorem skipWhile_of_keep (keep : Char → Bool) (c : Cursor) (some : c.rest ≠ [])
    (kept : keep c.peek = true) : c.skipWhile keep = c.next.skipWhile keep := by
  obtain ⟨text, p⟩ := c
  cases text with
  | nil => exact absurd rfl some
  | cons ch text => exact if_pos kept

theorem skipWhile_of_stop (keep : Char → Bool) (c : Cursor) (stops : keep c.peek = false) :
    c.skipWhile keep = c := by
  obtain ⟨text, p⟩ := c
  cases text with
  | nil => rfl
  | cons ch text =>
    have stopped : ¬ keep ch = true := ne_true_of_eq_false stops
    exact if_neg stopped

theorem Beside.skipWhile {c d : Cursor} (beside : Beside shift c d) (keep : Char → Bool)
    (noReturn : keep '\r' = false) (noFeed : keep '\n' = false) :
    Beside shift (c.skipWhile keep) (d.skipWhile keep) := by
  obtain ⟨text, whole⟩ : ∃ text, c.rest = text := ⟨_, rfl⟩
  induction text generalizing c d with
  | nil =>
    have none : d.rest = [] := by
      rw [beside.rest, whole]
      rfl
    rw [skipWhile_of_nil keep c whole, skipWhile_of_nil keep d none]
    exact beside
  | cons ch text ih =>
    have first : c.peek = ch := by
      rw [Cursor.peek, whole]
      rfl
    have firstBeside := beside.peek
    rw [first] at firstBeside
    by_cases kept : keep ch = true
    next =>
      have alone : ch ≠ '\r' := ne_return_of_class keep ch kept noReturn
      have someBeside : d.rest ≠ [] := by
        rw [beside.rest, whole, unifyLineEnds_cons ch text alone]
        exact List.cons_ne_nil _ _
      rw [asFeed_of_ne ch alone] at firstBeside
      rw [skipWhile_of_keep keep c (by simp [whole]) (by rw [first, kept]),
        skipWhile_of_keep keep d someBeside (by rw [firstBeside, kept])]
      refine ih (beside.next (by rwa [first])) ?_
      rw [Cursor.next, whole]
    next =>
      have stops : keep ch = false := by simpa using kept
      have stopsBeside : keep (asFeed ch) = false := by
        rw [asFeed_class keep (noFeed.trans noReturn.symm), stops]
      rw [skipWhile_of_stop keep c (by rw [first, stops]),
        skipWhile_of_stop keep d (by rw [firstBeside, stopsBeside])]
      exact beside

theorem Beside.passMark {c d : Cursor} (beside : Beside shift c d) :
    Beside shift c.passMark d.passMark := by
  have same : d.peek = '\ufeff' ↔ c.peek = '\ufeff' := by
    rw [beside.peek, asFeed_eq_iff _ _ (by decide) (by decide)]
  unfold Cursor.passMark
  simp only [same]
  split
  next marked => exact beside.next (by rw [marked]; decide)
  next => exact beside

theorem beside_ofText (text : List Char) :
    ∃ shift, Beside shift (ofText text) (ofText (unifyLineEnds text)) := by
  obtain ⟨shift, none, counts⟩ := exists_counts text 0 0
  refine ⟨shift, rfl, ?_, counts⟩
  simp [ofText, Position.start, Position.moved, none]

theorem passMark_of_marked (text : List Char) :
    (ofText ('\ufeff' :: text)).passMark = ⟨text, ⟨1, 0, 0⟩⟩ := rfl

theorem passMark_of_unmarked (text : List Char) (unmarked : text.head? ≠ some '\ufeff') :
    (ofText text).passMark = ofText text := by
  cases text with
  | nil => rfl
  | cons c rest =>
    have other : c ≠ '\ufeff' := by simpa using unmarked
    exact if_neg other

/-- A mark in front moves all places on by one and leaves lines and columns alone. -/
theorem beside_ofMarked (text : List Char) (unmarked : text.head? ≠ some '\ufeff') :
    ∃ shift, Beside shift (ofText ('\ufeff' :: text)).passMark
      (ofText (unifyLineEnds text)).passMark := by
  obtain ⟨shift, one, counts⟩ := exists_counts text 0 1
  have first : (unifyLineEnds text).head? ≠ some '\ufeff' := by
    fun_cases unifyLineEnds text with
    | case1 => exact unmarked
    | case2 rest => simp
    | case3 c rest lone =>
      have other : c ≠ '\ufeff' := by simpa using unmarked
      split
      next => simp
      next => simpa using other
  rw [passMark_of_marked, passMark_of_unmarked _ first]
  refine ⟨shift, rfl, ?_, counts⟩
  simp [ofText, Position.start, Position.moved, one]

end Cursor

end LocaleLint.Yaml
