import LocaleLint.Proofs.Text.Lines

set_option autoImplicit false

namespace LocaleLint.Text

def linesBy (ends : Char → Bool) : List Char → List (List Char)
  | [] => [[]]
  | '\r' :: '\n' :: rest => [] :: linesBy ends rest
  | c :: rest =>
      if ends c then [] :: linesBy ends rest else extendFirst c (linesBy ends rest)

def isFeed (c : Char) : Bool := c == '\r' || c == '\n'

-- The breaks that end no line of a source: next line, line separator and paragraph separator.
def isRareBreak (c : Char) : Bool := isBreak c && !isFeed c

theorem segments_eq (text : List Char) : segments text = linesBy isBreak text := by
  fun_induction segments text with
  | case1 => rfl
  | case2 rest ih => rw [linesBy, ih]
  | case3 c rest lone ends ih =>
    rw [linesBy, if_pos ends, ih]
    exact lone
  | case4 c rest lone inside ih =>
    rw [linesBy, if_neg inside, ih]
    exact lone

theorem sourceLines_eq (text : List Char) : sourceLines text = linesBy isFeed text := by
  fun_induction sourceLines text with
  | case1 => rfl
  | case2 rest ih => rw [linesBy, ih]
  | case3 c rest lone ends ih =>
    rw [linesBy, if_pos (by simpa [isFeed] using ends), ih]
    exact lone
  | case4 c rest lone inside ih =>
    rw [linesBy, if_neg (by simpa [isFeed] using inside), ih]
    exact lone

section
variable (ends : Char → Bool)

theorem linesBy_ne_nil (text : List Char) : linesBy ends text ≠ [] := by
  fun_cases linesBy ends text with
  | case1 | case2 | case3 => simp
  | case4 => exact extendFirst_ne_nil _ _

theorem exists_linesBy (text : List Char) : ∃ first more, linesBy ends text = first :: more :=
  List.exists_cons_of_ne_nil (linesBy_ne_nil ends text)

def StaysOpen (c : Char) (after : List Char) : Prop := c = '\r' ∧ after.head? = some '\n'

theorem StaysOpen.append {c : Char} {before : List Char} (opened : StaysOpen c before)
    (after : List Char) : StaysOpen c (before ++ after) := by
  obtain ⟨isReturn, feed⟩ := opened
  exact ⟨isReturn, by simp [List.head?_append, feed]⟩

theorem not_staysOpen_of_lone (c : Char) (rest : List Char)
    (lone : ∀ later, c = '\r' → rest = '\n' :: later → False) : ¬ StaysOpen c rest := by
  rintro ⟨isReturn, feed⟩
  obtain ⟨later, followed⟩ := List.head?_eq_some_iff.mp feed
  exact lone later isReturn followed

def Apart (before after : List Char) : Prop :=
  ∀ early, before = early ++ ['\r'] → ¬ StaysOpen '\r' after

theorem Apart.tail {c : Char} {before after : List Char} (apart : Apart (c :: before) after) :
    Apart before after :=
  fun early whole => apart (c :: early) (by rw [whole, List.cons_append])

theorem Apart.alone {c : Char} {before after : List Char} (apart : Apart (c :: before) after)
    (lone : ∀ later, c = '\r' → before = '\n' :: later → False) :
    ¬ StaysOpen c (before ++ after) := by
  cases before with
  | nil =>
    rintro ⟨rfl, feed⟩
    exact apart [] rfl ⟨rfl, feed⟩
  | cons d before =>
    rintro ⟨isReturn, feed⟩
    obtain rfl : d = '\n' := by simpa using feed
    exact lone before isReturn rfl

theorem unifyLineEnds_append (before after : List Char) (apart : Apart before after) :
    unifyLineEnds (before ++ after) = unifyLineEnds before ++ unifyLineEnds after := by
  fun_induction unifyLineEnds before with
  | case1 => rfl
  | case2 rest ih =>
    rw [List.cons_append, List.cons_append, unifyLineEnds, ih apart.tail.tail, List.cons_append]
  | case3 c rest lone ih =>
    rw [List.cons_append, unifyLineEnds, ih apart.tail, List.cons_append]
    rintro more rfl whole
    exact apart.alone lone ⟨rfl, by rw [whole, List.head?_cons]⟩

theorem linesBy_end (c : Char) (rest : List Char) (isEnd : ends c = true)
    (alone : ¬ StaysOpen c rest) :
    linesBy ends (c :: rest) = [] :: linesBy ends rest := by
  rw [linesBy, if_pos isEnd]
  rintro later rfl rfl
  exact alone ⟨rfl, rfl⟩

theorem linesBy_inside (c : Char) (rest : List Char) (inside : ends c = false)
    (alone : ¬ StaysOpen c rest) :
    linesBy ends (c :: rest) = extendFirst c (linesBy ends rest) := by
  rw [linesBy, if_neg (by simp [inside])]
  rintro later rfl rfl
  exact alone ⟨rfl, rfl⟩

def LineBegins (before after : List Char) : Prop :=
  before = [] ∨ ∃ early c, before = early ++ [c] ∧ ends c = true ∧ ¬ StaysOpen c after

inductive LineEnds : List Char → List Char → Prop
  | last : LineEnds [] []
  | pair (after : List Char) : LineEnds ['\r', '\n'] after
  | single (c : Char) (after : List Char) (isEnd : ends c = true) (alone : ¬ StaysOpen c after) :
      LineEnds [c] after

variable {ends}

theorem LineBegins.tail {c : Char} {before after : List Char}
    (begins : LineBegins ends (c :: before) after) : LineBegins ends before after := by
  rcases begins with none | ⟨early, d, whole, isEnd, alone⟩
  · cases none
  · cases early with
    | nil => exact .inl (List.cons.inj whole).2
    | cons _ early => exact .inr ⟨early, d, (List.cons.inj whole).2, isEnd, alone⟩

theorem LineBegins.of_append {before line after : List Char}
    (begins : LineBegins ends before (line ++ after)) : LineBegins ends before line := by
  rcases begins with none | ⟨early, c, whole, isEnd, alone⟩
  · exact .inl none
  · exact .inr ⟨early, c, whole, isEnd, fun opened => alone (opened.append after)⟩

theorem LineBegins.apart {before after : List Char} (begins : LineBegins ends before after) :
    Apart before after := by
  intro early whole
  rcases begins with none | ⟨other, c, same, -, alone⟩
  · simp [none] at whole
  · obtain rfl : '\r' = c := by
      have last := (List.append_inj' (whole.symm.trans same) rfl).2
      exact (List.cons.inj last).1
    exact alone

theorem LineBegins.ends_of_single {c : Char} {after : List Char}
    (begins : LineBegins ends [c] after) : ends c = true := by
  rcases begins with none | ⟨early, d, whole, isEnd, -⟩
  · cases none
  · have split : [] ++ [c] = early ++ [d] := whole
    obtain ⟨-, same⟩ := List.append_inj' split rfl
    rwa [(List.cons.inj same).1]

theorem linesBy_append (before after : List Char) (begins : LineBegins ends before after) :
    ∃ early, linesBy ends before = early ++ [[]] ∧
      linesBy ends (before ++ after) = early ++ linesBy ends after ∧
        (before ≠ [] → early ≠ []) := by
  fun_induction linesBy ends before with
  | case1 => exact ⟨[], rfl, rfl, fun some => absurd rfl some⟩
  | case2 rest ih =>
    obtain ⟨early, lines, joined, -⟩ := ih begins.tail.tail
    refine ⟨[] :: early, by simp [lines], ?_, by simp⟩
    simp [linesBy, joined]
  | case3 c rest lone isEnd ih =>
    obtain ⟨early, lines, joined, -⟩ := ih begins.tail
    refine ⟨[] :: early, by simp [lines], ?_, by simp⟩
    rw [List.cons_append, linesBy_end ends c _ isEnd (begins.apart.alone lone), joined,
      List.cons_append]
  | case4 c rest lone inside ih =>
    obtain ⟨early, lines, joined, some⟩ := ih begins.tail
    -- A last character that ends no line would let the line go on into what follows.
    have goesOn : rest ≠ [] := by
      rintro rfl
      exact inside begins.ends_of_single
    obtain ⟨first, more, rfl⟩ := List.exists_cons_of_ne_nil (some goesOn)
    refine ⟨(c :: first) :: more, by simp [lines, extendFirst], ?_, by simp⟩
    rw [List.cons_append, linesBy_inside ends c _ (by simpa using inside)
      (begins.apart.alone lone), joined]
    rfl

theorem not_staysOpen (c : Char) (after : List Char) (returns : ends '\r' = true)
    (plain : ends c = false) : ¬ StaysOpen c after := by
  rintro ⟨rfl, -⟩
  rw [returns] at plain
  cases plain

theorem linesBy_plain_append (returns : ends '\r' = true) (line after first : List Char)
    (more : List (List Char)) (plain : ∀ c ∈ line, ends c = false)
    (later : linesBy ends after = first :: more) :
    linesBy ends (line ++ after) = (line ++ first) :: more := by
  induction line with
  | nil => exact later
  | cons c line ih =>
    have inside := plain c (List.mem_cons_self ..)
    rw [List.cons_append, linesBy_inside ends c _ inside (not_staysOpen c _ returns inside),
      ih fun d member => plain d (List.mem_cons_of_mem _ member), extendFirst, List.cons_append]

theorem linesBy_plain (returns : ends '\r' = true) (line : List Char)
    (plain : ∀ c ∈ line, ends c = false) : linesBy ends line = [line] := by
  simpa using linesBy_plain_append returns line [] [] [] plain rfl

theorem linesBy_line (returns : ends '\r' = true) (line ending after : List Char)
    (plain : ∀ c ∈ line, ends c = false) (closes : LineEnds ends ending after) :
    ∃ more, linesBy ends (line ++ (ending ++ after)) = line :: more := by
  obtain ⟨more, later⟩ : ∃ more, linesBy ends (ending ++ after) = [] :: more := by
    cases closes with
    | last => exact ⟨[], rfl⟩
    | pair => exact ⟨_, rfl⟩
    | single c _ isEnd alone => exact ⟨_, linesBy_end ends c after isEnd alone⟩
  exact ⟨more, by simpa using linesBy_plain_append returns line _ [] more plain later⟩

theorem mem_linesBy (text line : List Char) (member : line ∈ linesBy ends text) :
    ∀ c ∈ line, ends c = false := by
  fun_induction linesBy ends text generalizing line with
  | case1 =>
    obtain rfl : line = [] := by simpa using member
    simp
  | case2 rest ih | case3 c rest lone isEnd ih =>
    rcases List.mem_cons.mp member with rfl | member
    · simp
    · exact ih line member
  | case4 c rest lone inside ih =>
    obtain ⟨first, more, lines⟩ := exists_linesBy ends rest
    rw [lines, extendFirst, List.mem_cons] at member
    rcases member with rfl | member
    · have plain := ih first (by simp [lines])
      simpa [inside] using plain
    · exact ih line (by simp [lines, member])

variable (ends)

structure PlacedLine where
  before : List Char
  line : List Char
  ending : List Char
  after : List Char

namespace PlacedLine

structure IsOf (placed : PlacedLine) (text : List Char) : Prop where
  whole : text = placed.before ++ (placed.line ++ (placed.ending ++ placed.after))
  begins : LineBegins ends placed.before (placed.line ++ (placed.ending ++ placed.after))
  plain : ∀ c ∈ placed.line, ends c = false
  closes : LineEnds ends placed.ending placed.after

def Holds (placed : PlacedLine) (index : Nat) : Prop :=
  placed.before.length ≤ index ∧
    index ≤ placed.before.length + placed.line.length + (placed.ending.length - 1)

def below (ended : List Char) (placed : PlacedLine) : PlacedLine :=
  { placed with before := ended ++ placed.before }

def under (c : Char) (placed : PlacedLine) : PlacedLine :=
  match placed.before with
  | [] => { placed with line := c :: placed.line }
  | before => { placed with before := c :: before }

variable {ends}

theorem IsOf.below {placed : PlacedLine} {text : List Char} (isOf : placed.IsOf ends text)
    (early : List Char) (c : Char) (isEnd : ends c = true) (alone : ¬ StaysOpen c text) :
    (placed.below (early ++ [c])).IsOf ends (early ++ c :: text) := by
  constructor
  case whole => simp [PlacedLine.below, isOf.whole]
  case begins =>
    rcases isOf.begins with none | ⟨further, d, whole, ends, open'⟩
    · refine .inr ⟨early, c, by simp [PlacedLine.below, none], isEnd, ?_⟩
      have start := isOf.whole
      rw [none, List.nil_append] at start
      exact start ▸ alone
    · exact .inr ⟨early ++ c :: further, d, by simp [PlacedLine.below, whole], ends, open'⟩
  case plain => exact isOf.plain
  case closes => exact isOf.closes

theorem IsOf.under {placed : PlacedLine} {text : List Char} (isOf : placed.IsOf ends text)
    (c : Char) (inside : ends c = false) : (placed.under c).IsOf ends (c :: text) := by
  obtain ⟨before, line, ending, after⟩ := placed
  cases before with
  | nil =>
    constructor
    case whole => simp [PlacedLine.under, isOf.whole]
    case begins => exact .inl rfl
    case plain => simpa [PlacedLine.under, inside] using isOf.plain
    case closes => exact isOf.closes
  | cons d before =>
    constructor
    case whole => simp [PlacedLine.under, isOf.whole]
    case begins =>
      rcases isOf.begins with none | ⟨early, e, whole, rest⟩
      · cases none
      · exact .inr ⟨c :: early, e, congrArg (c :: ·) whole, rest⟩
    case plain => exact isOf.plain
    case closes => exact isOf.closes

theorem IsOf.getElem? {placed : PlacedLine} {text : List Char} (isOf : placed.IsOf ends text)
    (returns : ends '\r' = true) :
    (linesBy ends text)[(linesBy ends placed.before).length - 1]? = some placed.line := by
  obtain ⟨early, lines, joined, -⟩ := linesBy_append _ _ isOf.begins
  obtain ⟨more, here⟩ := linesBy_line returns _ _ _ isOf.plain isOf.closes
  rw [isOf.whole, joined, lines, here]
  simp

end PlacedLine

variable {ends}

theorem exists_placed (feeds : ends '\n' = true) (text : List Char)
    (index : Nat) (within : index ≤ text.length) :
    ∃ placed : PlacedLine, placed.IsOf ends text ∧ placed.Holds index := by
  fun_induction linesBy ends text generalizing index with
  | case1 =>
    refine ⟨⟨[], [], [], []⟩, ⟨rfl, .inl rfl, by simp, .last⟩, ?_⟩
    simpa [PlacedLine.Holds] using within
  | case2 rest ih =>
    by_cases here : index ≤ 1
    next =>
      exact ⟨⟨[], [], ['\r', '\n'], rest⟩, ⟨rfl, .inl rfl, by simp, .pair rest⟩, Nat.zero_le _, by
        simpa using here⟩
    next =>
      obtain ⟨placed, isOf, holds⟩ := ih (index - 2) (by simp at within; omega)
      refine ⟨_, isOf.below ['\r'] '\n' feeds (by simp [StaysOpen]), ?_⟩
      simp only [PlacedLine.Holds, PlacedLine.below, List.length_append, List.length_cons,
        List.length_nil] at holds ⊢
      omega
  | case3 c rest lone isEnd ih =>
    have alone := not_staysOpen_of_lone c rest lone
    cases index with
    | zero =>
      exact ⟨⟨[], [], [c], rest⟩, ⟨rfl, .inl rfl, by simp, .single c rest isEnd alone⟩,
        Nat.zero_le _,
        Nat.zero_le _⟩
    | succ index =>
      obtain ⟨placed, isOf, holds⟩ := ih index (by simpa using within)
      refine ⟨_, isOf.below [] c isEnd alone, ?_⟩
      simp only [PlacedLine.Holds, PlacedLine.below, List.length_append, List.length_cons,
        List.length_nil] at holds ⊢
      omega
  | case4 c rest lone inside ih =>
    obtain ⟨placed, isOf, holds⟩ := ih (index - 1) (by simp at within; omega)
    refine ⟨_, isOf.under c (by simpa using inside), ?_⟩
    obtain ⟨before, line, ending, after⟩ := placed
    cases before with
    | nil =>
      simp only [PlacedLine.Holds, PlacedLine.under, List.length_cons, List.length_nil] at holds ⊢
      omega
    | cons d before =>
      simp only [PlacedLine.Holds, PlacedLine.under, List.length_cons] at holds ⊢
      omega

theorem LineBegins.length_linesBy {before after : List Char}
    (begins : LineBegins ends before after) :
    (linesBy ends before).length = 1 ↔ before = [] := by
  obtain ⟨early, lines, -, some⟩ := linesBy_append before after begins
  rw [lines, List.length_append, List.length_singleton]
  constructor
  · intro one
    by_contra more
    exact some more (List.eq_nil_of_length_eq_zero (by omega))
  · rintro rfl
    simpa [linesBy] using congrArg List.length lines.symm

theorem exists_placed_of_getElem? (returns : ends '\r' = true) (feeds : ends '\n' = true)
    (text : List Char) (i : Nat) (line : List Char)
    (found : (linesBy ends text)[i]? = some line) :
    ∃ placed : PlacedLine, placed.IsOf ends text ∧ placed.line = line ∧
      (linesBy ends placed.before).length = i + 1 := by
  fun_induction linesBy ends text generalizing i line with
  | case1 =>
    obtain ⟨rfl, rfl⟩ : i = 0 ∧ line = [] := by
      cases i <;> simp_all
    exact ⟨⟨[], [], [], []⟩, ⟨rfl, .inl rfl, by simp, .last⟩, rfl, rfl⟩
  | case2 rest ih =>
    cases i with
    | zero =>
      obtain rfl : [] = line := by simpa using found
      exact ⟨⟨[], [], ['\r', '\n'], rest⟩, ⟨rfl, .inl rfl, by simp, .pair rest⟩, rfl, rfl⟩
    | succ i =>
      obtain ⟨placed, isOf, same, number⟩ := ih i line (by simpa using found)
      refine ⟨_, isOf.below ['\r'] '\n' feeds (by simp [StaysOpen]), same, ?_⟩
      simpa [PlacedLine.below, linesBy] using number
  | case3 c rest lone isEnd ih =>
    have alone := not_staysOpen_of_lone c rest lone
    cases i with
    | zero =>
      obtain rfl : [] = line := by simpa using found
      exact ⟨⟨[], [], [c], rest⟩, ⟨rfl, .inl rfl, by simp, .single c rest isEnd alone⟩, rfl, rfl⟩
    | succ i =>
      obtain ⟨placed, isOf, same, number⟩ := ih i line (by simpa using found)
      refine ⟨_, isOf.below [] c isEnd alone, same, ?_⟩
      have early : ¬ StaysOpen c placed.before := fun opened =>
        alone (isOf.whole ▸ opened.append _)
      simp [PlacedLine.below, linesBy_end ends c _ isEnd early, number]
  | case4 c rest lone inside ih =>
    have inside : ends c = false := by simpa using inside
    obtain ⟨first, more, lines⟩ := exists_linesBy ends rest
    rw [lines, extendFirst] at found
    cases i with
    | zero =>
      obtain rfl : c :: first = line := by simpa using found
      obtain ⟨placed, isOf, same, number⟩ := ih 0 first (by simp [lines])
      refine ⟨_, isOf.under c inside, ?_⟩
      -- Only the first line is joined by the character; it is the one with nothing before it.
      have start := isOf.begins.length_linesBy.mp number
      obtain ⟨before, line, ending, after⟩ := placed
      obtain rfl : before = [] := start
      exact ⟨congrArg (c :: ·) same, rfl⟩
    | succ i =>
      obtain ⟨placed, isOf, same, number⟩ := ih (i + 1) line (by simpa [lines] using found)
      refine ⟨_, isOf.under c inside, ?_⟩
      have further : placed.before ≠ [] := fun start => by
        have one := isOf.begins.length_linesBy.mpr start
        omega
      obtain ⟨before, line, ending, after⟩ := placed
      obtain ⟨d, before, rfl⟩ := List.exists_cons_of_ne_nil further
      obtain ⟨head, others, further⟩ := exists_linesBy ends (d :: before)
      refine ⟨same, ?_⟩
      simp only [PlacedLine.under] at number ⊢
      rw [linesBy_inside ends c _ inside (not_staysOpen c _ returns inside)]
      rw [further] at number ⊢
      exact number

end

theorem isBreak_of_isFeed (c : Char) (feed : isFeed c = true) : isBreak c = true := by
  simp only [isFeed, Bool.or_eq_true, beq_iff_eq] at feed
  rcases feed with rfl | rfl <;> rfl

theorem length_extendFirst (c : Char) (lines : List (List Char)) (some : lines ≠ []) :
    (extendFirst c lines).length = lines.length := by
  obtain ⟨first, more, rfl⟩ := List.exists_cons_of_ne_nil some
  rfl

theorem LineBegins.ofFeed {before after : List Char} (begins : LineBegins isFeed before after) :
    LineBegins isBreak before after := by
  rcases begins with none | ⟨early, c, whole, feed, alone⟩
  · exact .inl none
  · exact .inr ⟨early, c, whole, isBreak_of_isFeed c feed, alone⟩

theorem length_segments (text : List Char) :
    (segments text).length = (sourceLines text).length + text.countP isRareBreak := by
  rw [segments_eq, sourceLines_eq]
  -- Both split at the same feeds; inside a line of the source only a rare break splits further.
  fun_induction linesBy isFeed text with
  | case1 => rfl
  | case2 rest ih =>
    have pair : ('\r' :: '\n' :: rest).countP isRareBreak = rest.countP isRareBreak := by
      simp [isRareBreak, isFeed]
    rw [linesBy, pair, List.length_cons, List.length_cons, ih]
    omega
  | case3 c rest lone feed ih =>
    have notRare : isRareBreak c = false := by simp [isRareBreak, feed]
    rw [linesBy_end isBreak c rest (isBreak_of_isFeed c feed) (not_staysOpen_of_lone c rest lone),
      List.countP_cons_of_neg (by simp [notRare]), List.length_cons, List.length_cons, ih]
    omega
  | case4 c rest lone inside ih =>
    rw [length_extendFirst c _ (linesBy_ne_nil isFeed rest)]
    by_cases rare : isBreak c = true
    next =>
      have isRare : isRareBreak c = true := by simp [isRareBreak, rare, inside]
      rw [linesBy_end isBreak c rest rare (not_staysOpen_of_lone c rest lone),
        List.countP_cons_of_pos isRare, List.length_cons, ih]
      omega
    next =>
      have notRare : isRareBreak c = false := by simp [isRareBreak, rare]
      rw [linesBy_inside isBreak c rest (by simpa using rare) (not_staysOpen_of_lone c rest lone),
        List.countP_cons_of_neg (by simp [notRare]),
        length_extendFirst c _ (linesBy_ne_nil isBreak rest), ih]

end LocaleLint.Text
