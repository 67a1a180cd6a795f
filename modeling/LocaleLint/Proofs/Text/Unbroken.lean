import LocaleLint.Proofs.Text.Lines
import LocaleLint.Text.Quoted

set_option autoImplicit false

namespace LocaleLint.Text

def IsUnbroken (text : String) : Prop := '\n' ∉ text.toList

instance (text : String) : Decidable (IsUnbroken text) := inferInstanceAs (Decidable (_ ∉ _))

@[simp] theorem isUnbroken_append (a b : String) :
    IsUnbroken (a ++ b) ↔ IsUnbroken a ∧ IsUnbroken b := by
  simp [IsUnbroken]

@[simp] theorem isUnbroken_ofList (text : List Char) :
    IsUnbroken (String.ofList text) ↔ '\n' ∉ text := by
  simp [IsUnbroken]

theorem not_mem_repr (c : Char) (other : c.isDigit = false) (n : Nat) : c ∉ n.repr.toList := by
  intro among
  rw [Nat.toList_repr] at among
  have digit := Nat.isDigit_of_mem_toDigits (by decide) (by decide) among
  rw [other] at digit
  contradiction

theorem not_mem_intRepr (c : Char) (other : c.isDigit = false) (notMinus : c ≠ '-') (n : Int) :
    c ∉ n.repr.toList := by
  cases n with
  | ofNat n => exact not_mem_repr c other n
  | negSucc n =>
    change c ∉ ("-" ++ (n + 1).repr).toList
    rw [String.toList_append, List.mem_append, not_or]
    exact ⟨by simpa using notMinus, not_mem_repr c other (n + 1)⟩

@[simp] theorem isUnbroken_intRepr (n : Int) : IsUnbroken n.repr :=
  not_mem_intRepr '\n' (by decide) (by decide) n

theorem isUnbroken_of_mem (separator : String) (texts : List String)
    (whole : IsUnbroken (separator.intercalate texts)) (text : String) (member : text ∈ texts) :
    IsUnbroken text := by
  induction texts with
  | nil => cases member
  | cons first rest ih =>
    cases rest with
    | nil => simpa [List.mem_singleton.mp member] using whole
    | cons second rest =>
      rw [String.intercalate_cons_cons, isUnbroken_append, isUnbroken_append] at whole
      rcases List.mem_cons.mp member with rfl | later
      · exact whole.1.1
      · exact ih whole.2 later

theorem isUnbroken_intercalate (separator : String) (plain : IsUnbroken separator)
    (texts : List String) :
    IsUnbroken (separator.intercalate texts) ↔ ∀ text ∈ texts, IsUnbroken text := by
  refine ⟨isUnbroken_of_mem separator texts, fun each => ?_⟩
  induction texts with
  | nil => simp [IsUnbroken]
  | cons first rest ih =>
    cases rest with
    | nil => simpa using each
    | cons second rest =>
      have later := ih fun text member => each text (List.mem_cons_of_mem _ member)
      rw [String.intercalate_cons_cons, isUnbroken_append, isUnbroken_append]
      exact ⟨⟨each first (List.mem_cons_self ..), plain⟩, later⟩

theorem linesOf_append_feed (before after : List Char) :
    linesOf (before ++ '\n' :: after) = linesOf before ++ linesOf after := by
  obtain ⟨early, last, first, more, lines, later, joined⟩ := linesOf_append before ('\n' :: after)
  rw [linesOf_feed] at later
  cases later
  rw [joined, lines]
  simp

theorem linesOf_intercalate (texts : List String) (some : texts ≠ []) :
    linesOf ("\n".intercalate texts).toList = texts.flatMap fun text => linesOf text.toList := by
  induction texts with
  | nil => exact absurd rfl some
  | cons first rest ih =>
    cases rest with
    | nil => simp
    | cons second rest =>
      have later := ih (List.cons_ne_nil _ _)
      have joined : ("\n".intercalate (first :: second :: rest)).toList =
          first.toList ++ '\n' :: ("\n".intercalate (second :: rest)).toList := by
        rw [String.intercalate_cons_cons, String.toList_append, String.toList_append,
          List.append_assoc]
        rfl
      rw [joined, linesOf_append_feed, later]
      rfl

theorem linesOf_eq_singleton_iff (text : String) (first : List Char) (more : List (List Char))
    (lines : linesOf text.toList = first :: more) : more = [] ↔ IsUnbroken text := by
  constructor
  · rintro rfl feed
    obtain ⟨before, after, whole⟩ := List.append_of_mem feed
    have two : 2 ≤ (linesOf text.toList).length := by
      rw [whole, linesOf_append_feed, List.length_append]
      have one := List.length_pos_iff.mpr (splitOn_ne_nil '\n' before)
      have other := List.length_pos_iff.mpr (splitOn_ne_nil '\n' after)
      simp only [linesOf]
      omega
    rw [lines] at two
    simp at two
  · intro single
    rw [linesOf_line _ single] at lines
    cases lines
    rfl

end LocaleLint.Text
