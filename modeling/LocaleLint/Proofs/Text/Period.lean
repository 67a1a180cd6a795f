import LocaleLint.Proofs.Text.Unbroken

set_option autoImplicit false

namespace LocaleLint

def EndsWithPeriod (text : String) : Prop := text.toList.getLast? = some '.'

instance (text : String) : Decidable (EndsWithPeriod text) := inferInstanceAs (Decidable (_ = _))

theorem endsWithPeriod_append (a b : String) :
    EndsWithPeriod (a ++ b) ↔ EndsWithPeriod b ∨ b = "" ∧ EndsWithPeriod a := by
  simp only [EndsWithPeriod, String.toList_append, List.getLast?_append]
  cases last : b.toList.getLast? with
  | none =>
    rw [List.getLast?_eq_none_iff, String.toList_eq_nil_iff] at last
    simp [last]
  | some c =>
    have some : b ≠ "" := by
      rintro rfl
      cases last
    simp [some]

theorem not_endsWithPeriod_behind (a b : String) (some : b ≠ "") (closed : ¬ EndsWithPeriod b) :
    ¬ EndsWithPeriod (a ++ b) := by
  rw [endsWithPeriod_append]
  rintro (ends | ⟨empty, -⟩)
  · exact closed ends
  · exact some empty

theorem not_endsWithPeriod_append (a b : String) (before : ¬ EndsWithPeriod a)
    (behind : ¬ EndsWithPeriod b) : ¬ EndsWithPeriod (a ++ b) := by
  rw [endsWithPeriod_append]
  rintro (ends | ⟨-, ends⟩)
  · exact behind ends
  · exact before ends

theorem not_endsWithPeriod_of_not_mem (text : String) (plain : '.' ∉ text.toList) :
    ¬ EndsWithPeriod text :=
  fun ends => plain (List.mem_of_getLast? ends)

theorem not_endsWithPeriod_repr (n : Nat) : ¬ EndsWithPeriod n.repr :=
  not_endsWithPeriod_of_not_mem _ (Text.not_mem_repr '.' (by decide) n)

theorem not_endsWithPeriod_intRepr (n : Int) : ¬ EndsWithPeriod n.repr :=
  not_endsWithPeriod_of_not_mem _ (Text.not_mem_intRepr '.' (by decide) (by decide) n)

end LocaleLint
