import LocaleLint.Report.Step
import LocaleLint.Proofs.Text.Period

set_option autoImplicit false

namespace LocaleLint

open LocaleLint.Text

namespace Number

section
variable (digits : Nat) (exponent : Int)

theorem not_mem_toDigits : '.' ∉ Nat.toDigits 10 digits := by
  rw [← Nat.toList_repr]
  exact not_mem_repr '.' (by decide) digits

theorem not_endsWithPeriod_layout : ¬ EndsWithPeriod (layout digits exponent) := by
  have digit := not_mem_toDigits digits
  unfold layout
  simp only
  split
  next fixed =>
    split
    next => exact not_endsWithPeriod_behind _ ".0" (by decide) (by decide)
    next negative =>
      split
      next =>
        -- There is a digit behind the point, because the exponent counts at least one.
        apply not_endsWithPeriod_behind
        · intro none
          have length := congrArg String.length none
          simp only [String.length_ofList, List.length_drop, String.length_empty] at length
          omega
        · apply not_endsWithPeriod_of_not_mem
          rw [String.toList_ofList]
          exact fun among => digit (List.mem_of_mem_drop among)
      next =>
        apply not_endsWithPeriod_behind
        · intro none
          have length := congrArg String.length none
          have some : 0 < (Nat.toDigits 10 digits).length := Nat.length_toDigits_pos
          simp only [String.length_ofList, List.length_append, String.length_empty] at length
          omega
        · apply not_endsWithPeriod_of_not_mem
          simp [digit]
  next =>
    exact not_endsWithPeriod_behind _ _ (by simp) (not_endsWithPeriod_repr _)

end

theorem Binary64.not_endsWithPeriod_text (x : Binary64) : ¬ EndsWithPeriod x.text := by
  cases x with
  | nan negative => exact not_endsWithPeriod_of_not_mem "nan" (by decide)
  | infinite negative => cases negative <;> decide
  | finite negative mantissa exponent =>
    simp only [text]
    split
    next => exact not_endsWithPeriod_behind _ "0.0" (by decide) (by decide)
    next =>
      apply not_endsWithPeriod_append
      · split <;> decide
      · exact not_endsWithPeriod_layout _ _

end Number

namespace Field

open LocaleLint.Number

theorem strip_append_period (front : List Char) :
    ∃ kept, strip isWhite (front ++ ['.']) = kept ++ ['.'] := by
  refine ⟨front.dropWhile isWhite, ?_⟩
  have stays : isWhite '.' = false := by decide
  simp only [strip, dropRightWhile, List.dropWhile_append]
  split
  next none => simp [List.isEmpty_iff.mp none, stays]
  next => simp [stays]

theorem dropZeros_append_period (last : Char) (front : List Char) :
    ∃ kept, dropZeros last (front ++ ['.']) = kept ++ ['.'] := by
  induction front generalizing last with
  | nil => exact ⟨[last], rfl⟩
  | cons c rest ih =>
    rw [List.cons_append, dropZeros]
    split
    next => exact ih _
    next =>
      split
      next => exact ⟨last :: c :: rest, rfl⟩
      next => exact ⟨c :: rest, rfl⟩

theorem leadingZeros_append_period (front : List Char) :
    ∃ kept, leadingZeros (front ++ ['.']) = kept ++ ['.'] := by
  unfold leadingZeros
  split
  next rest whole =>
    cases front with
    | nil => cases whole
    | cons c front =>
      cases whole
      exact dropZeros_append_period '0' front
  next => exact ⟨front, rfl⟩

theorem dropFraction_append_period (front : List Char) :
    dropFraction (front ++ ['.']) = front ++ ['.'] := by
  unfold dropFraction
  split
  next point fraction rest =>
    -- The fraction ends with the point that ends the text, so it is not made of zeros.
    have suffix : point :: '0' :: fraction <:+ front ++ ['.'] := rest ▸ List.dropWhile_suffix _
    obtain ⟨before, whole⟩ := suffix
    have last : ('0' :: fraction).getLast? = some '.' := by
      have ends := congrArg List.getLast? whole
      simpa using ends
    have point : '.' ∈ fraction := by simpa using List.mem_of_getLast? last
    have other : fraction.all (· == '0') = false := List.all_eq_false.mpr ⟨'.', point, by decide⟩
    simp [other]
  next => rfl

theorem mem_tidied (front tidy : List Char) (kept : tidied (front ++ ['.']) = some tidy) :
    '.' ∈ tidy := by
  unfold tidied at kept
  split at kept
  next =>
    obtain ⟨zeros, dropped⟩ := leadingZeros_append_period front
    rw [dropped, dropFraction_append_period] at kept
    cases kept
    unfold dropUnderscores
    split
    next => simp
    next => simp
  next => cases kept

theorem plainInteger?_of_period (text : List Char) (point : '.' ∈ text) :
    plainInteger? text = none := by
  have unread (digits : List Char) (among : '.' ∈ digits) : digits.all isAsciiDigit = false := by
    rw [List.all_eq_false]
    exact ⟨'.', among, by decide⟩
  unfold plainInteger?
  simp only
  split
  next digits =>
    have among : '.' ∈ digits := by simpa using point
    simp [unread digits among]
  next => simp [unread text point]

theorem integerOfText_of_period (written : List Char) (ends : written.getLast? = some '.')
    (value : Int) : integerOfText written ≠ .ok value := by
  obtain ⟨front, rfl⟩ := List.getLast?_eq_some_iff.mp ends
  obtain ⟨kept, stripped⟩ := strip_append_period front
  have behind (c : Char) (other : c ≠ '.') (rest : List Char) (whole : kept ++ ['.'] = c :: rest) :
      ∃ front, rest = front ++ ['.'] := by
    cases kept with
    | nil =>
      cases whole
      exact absurd rfl other
    | cons d kept =>
      cases whole
      exact ⟨kept, rfl⟩
  have unread (rest : List Char) (ends : ∃ front, rest = front ++ ['.']) :
      (tidied rest).bind plainInteger? = none ∧
        ((tidied rest).map ('-' :: ·)).bind plainInteger? = none := by
    obtain ⟨front, rfl⟩ := ends
    cases tidy : tidied (front ++ ['.']) with
    | none => exact ⟨rfl, rfl⟩
    | some numeral =>
      have point := mem_tidied front numeral tidy
      exact ⟨plainInteger?_of_period numeral point,
        plainInteger?_of_period ('-' :: numeral) (List.mem_cons_of_mem _ point)⟩
  unfold integerOfText
  rw [stripped]
  split
  next => simp
  next =>
    split
    next rest whole => simp [(unread rest (behind '+' (by decide) rest whole)).1]
    next rest whole =>
      have none := (unread rest (behind '-' (by decide) rest whole)).2
      simp only [none]
      simp
    next => simp [(unread _ ⟨kept, rfl⟩).1]

end Field

namespace Count

theorem not_endsWithPeriod_text (count : Count) (value : Option Int)
    (reads : count.read = .ok value) : ¬ EndsWithPeriod count.scalar.text := by
  cases count with
  | absent => decide
  | int given => exact not_endsWithPeriod_intRepr given
  | bool given => cases given <;> decide
  | float given => exact given.not_endsWithPeriod_text
  | text given =>
    intro ends
    cases number : Field.integerOfText given.toList with
    | error defect =>
      simp only [read, Field.optional, Field.integer, scalar, number] at reads
      cases reads
    | ok value => exact Field.integerOfText_of_period given.toList ends value number

end Count

end LocaleLint
