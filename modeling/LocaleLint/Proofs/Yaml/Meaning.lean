import Mathlib.Data.Finset.Card
import Mathlib.Algebra.Order.Ring.Rat
import Mathlib.Data.Rat.Cast.CharZero
import LocaleLint.Yaml.Value.Basic

set_option autoImplicit false

namespace LocaleLint.Number.Binary64

theorem signed_mul (negative : Bool) (m n : Nat) :
    signed negative (m * n) = signed negative m * n := by
  cases negative <;> simp [signed]

theorem size_of_shift (negative : Bool) (m : Nat) (exponent low : Int) (below : low ≤ exponent) :
    (signed negative m * (2 : ℚ) ^ exponent) =
      (signed negative (m * Nat.pow 2 (exponent - low).toNat) : ℤ) * (2 : ℚ) ^ low := by
  have split : (2 : ℚ) ^ exponent = (2 : ℚ) ^ (exponent - low).toNat * (2 : ℚ) ^ low := by
    rw [← zpow_natCast, ← zpow_add₀ (two_ne_zero), Int.toNat_of_nonneg (by omega)]
    congr 1
    omega
  have power : ((Nat.pow 2 (exponent - low).toNat : Nat) : ℚ) = (2 : ℚ) ^ (exponent - low).toNat :=
    Nat.cast_pow 2 _
  rw [split, signed_mul, Int.cast_mul, Int.cast_natCast, power, mul_assoc]

theorem same_finite_iff (n n' : Bool) (m m' : Nat) (e e' : Int) :
    (finite n m e).same (finite n' m' e') = true ↔
      (signed n m * (2 : ℚ) ^ e) = signed n' m' * (2 : ℚ) ^ e' := by
  have unit : (2 : ℚ) ^ min e e' ≠ 0 := zpow_ne_zero _ two_ne_zero
  rw [size_of_shift n m e (min e e') (Int.min_le_left ..),
    size_of_shift n' m' e' (min e e') (Int.min_le_right ..), mul_left_inj' unit, Int.cast_inj]
  simp only [same, beq_iff_eq]

theorem toInt?_finite_iff (n : Bool) (m : Nat) (e i : Int) :
    (finite n m e).toInt? = some i ↔ (signed n m * (2 : ℚ) ^ e) = i := by
  by_cases whole : 0 ≤ e
  · rw [size_of_shift n m e 0 whole]
    simp only [toInt?, whole, if_true, Option.some.injEq, zpow_zero, mul_one, Int.cast_inj,
      Int.sub_zero]
  · -- Below the point only a mantissa that the unit divides makes a whole number.
    let unit := Nat.pow 2 (-e).toNat
    have positive : 0 < unit := Nat.pow_pos (by decide)
    have scale : (2 : ℚ) ^ e * unit = 1 := by
      have power : (unit : ℚ) = (2 : ℚ) ^ (-e) := by
        have nonneg : ((-e).toNat : ℤ) = -e := Int.toNat_of_nonneg (by omega)
        rw [← nonneg, zpow_natCast]
        simp [unit]
      rw [power, ← zpow_add₀ two_ne_zero]
      simp
    have nonzero : (unit : ℚ) ≠ 0 := by exact_mod_cast Nat.pos_iff_ne_zero.mp positive
    have scaled : (signed n m * (2 : ℚ) ^ e) = i ↔ signed n m = i * unit := by
      rw [← mul_left_inj' nonzero, mul_assoc, scale, mul_one]
      exact_mod_cast Iff.rfl
    rw [scaled]
    simp only [toInt?, whole, if_false]
    change (if m % unit = 0 then some (signed n (m / unit)) else none) = some i ↔ _
    by_cases divides : m % unit = 0
    · have parts : m = m / unit * unit := (Nat.div_mul_cancel (Nat.dvd_of_mod_eq_zero divides)).symm
      have product : signed n m = signed n (m / unit) * unit := by
        rw [← signed_mul, ← parts]
      have nonzero : (unit : ℤ) ≠ 0 := by omega
      rw [if_pos divides, product, Option.some.injEq, mul_left_inj' nonzero]
    · rw [if_neg divides]
      refine ⟨nofun, fun equal => ?_⟩
      have dvd : (unit : ℤ) ∣ signed n m := ⟨i, by rw [equal, Int.mul_comm]⟩
      have inside : unit ∣ m := by
        cases n with
        | false => exact Int.natCast_dvd_natCast.mp dvd
        | true => exact Int.natCast_dvd_natCast.mp (Int.dvd_neg.mp dvd)
      exact absurd (Nat.mod_eq_zero_of_dvd inside) divides

end LocaleLint.Number.Binary64

namespace LocaleLint.Yaml

open LocaleLint.Number LocaleLint.Calendar

inductive Meaning
  | null
  | number (size : ℚ)
  | infinite (negative : Bool)
  | nan (origin : Nat)
  | string (value : String)
  | halved (points : List Text.CodePoint)
  | bytes (value : List UInt8)
  | date (value : Date)
  | instant (microseconds : Int)
  | local (microseconds : Int)
deriving DecidableEq

def Scalar.meaning : Scalar → Meaning
  | .null => .null
  | .bool value => .number (if value then 1 else 0)
  | .int value => .number value
  | .float (.finite n m e) => .number (Binary64.signed n m * (2 : ℚ) ^ e)
  | .float (.infinite negative) => .infinite negative
  | .float (.nan origin) => .nan origin
  | .string value => .string value
  | .halved points => .halved points
  | .bytes value => .bytes value
  | .date value => .date value
  | .dateTime value =>
      match value.offset with
      | some offset => .instant (value.instant offset)
      | none => .local value.clock

theorem same_dateTime_iff (a b : DateTime) :
    a.same b = true ↔ (Scalar.dateTime a).meaning = (Scalar.dateTime b).meaning := by
  cases left : a.offset <;> cases right : b.offset <;>
    simp [DateTime.same, Scalar.meaning, left, right]

theorem same_float_iff (x y : Binary64) :
    x.same y = true ↔ (Scalar.float x).meaning = (Scalar.float y).meaning := by
  cases x <;> cases y <;>
    simp [Scalar.meaning, Binary64.same_finite_iff] <;> simp [Binary64.same]

theorem sameAsInt_iff (x : Binary64) (i : Int) :
    x.sameAsInt i = true ↔ (Scalar.float x).meaning = .number i := by
  cases x with
  | finite n m e =>
    simp only [Binary64.sameAsInt, beq_iff_eq, Scalar.meaning, Meaning.number.injEq,
      Binary64.toInt?_finite_iff]
  | infinite n => simp [Binary64.sameAsInt, Binary64.toInt?, Scalar.meaning]
  | nan origin => simp [Binary64.sameAsInt, Binary64.toInt?, Scalar.meaning]

namespace Scalar

theorem meaning_of_asInt? (a : Scalar) (i : Int) (whole : a.asInt? = some i) :
    a.meaning = .number i := by
  cases a with
  | bool value => cases value <;> cases whole <;> simp [meaning]
  | int value =>
    cases whole
    rfl
  | _ => cases whole

theorem same_iff (a b : Scalar) : a.same b = true ↔ a.meaning = b.meaning := by
  unfold same
  -- Truth values and integers are compared as integers, and floats with those by their size.
  cases left : a.asInt? with
  | some i =>
    rw [meaning_of_asInt? a i left]
    cases right : b.asInt? with
    | some j =>
      rw [meaning_of_asInt? b j right]
      simp
    | none =>
      cases b with
      | float y => rw [sameAsInt_iff, eq_comm]
      | dateTime t => cases given : t.offset <;> simp [meaning, given]
      | bool value => cases right
      | int value => cases right
      | _ => simp [meaning]
  | none =>
    cases right : b.asInt? with
    | some j =>
      rw [meaning_of_asInt? b j right]
      cases a with
      | float x => exact sameAsInt_iff x j
      | dateTime t => cases given : t.offset <;> simp [meaning, given]
      | bool value => cases left
      | int value => cases left
      | _ => simp [meaning]
    | none =>
      cases a with
      | bool value => cases left
      | int value => cases left
      | float x =>
        cases b with
        | bool value => cases right
        | int value => cases right
        | float y => exact same_float_iff x y
        | dateTime t => cases x <;> cases given : t.offset <;> simp [meaning, given]
        | _ => cases x <;> simp [meaning]
      | dateTime t =>
        cases b with
        | bool value => cases right
        | int value => cases right
        | float y => cases y <;> cases given : t.offset <;> simp [meaning, given]
        | dateTime u => exact same_dateTime_iff t u
        | _ => cases given : t.offset <;> simp [meaning, given]
      | _ =>
        cases b with
        | bool value => cases right
        | int value => cases right
        | float y => cases y <;> simp [meaning]
        | dateTime u => cases given : u.offset <;> simp [meaning, given]
        | _ => simp [meaning]

theorem any_same_iff (names : List Scalar) (name : Scalar) :
    names.any (·.same name) = true ↔ name.meaning ∈ names.map meaning := by
  simp only [List.any_eq_true, same_iff, List.mem_map]

def variety (names : List Scalar) : Nat := (names.map meaning).toFinset.card

-- How many of the names come again, after each other or after those seen before.
def repeats (seen : List Scalar) : List Scalar → Nat
  | [] => 0
  | name :: rest => (if seen.any (·.same name) then 1 else 0) + repeats (name :: seen) rest

theorem variety_cons (name : Scalar) (names : List Scalar) :
    variety (name :: names) =
      if names.any (·.same name) then variety names else variety names + 1 := by
  unfold variety
  rw [List.map_cons, List.toFinset_cons]
  by_cases known : names.any (·.same name) = true
  · rw [if_pos known, Finset.insert_eq_of_mem]
    rw [List.mem_toFinset]
    exact (any_same_iff names name).mp known
  · rw [if_neg known, Finset.card_insert_of_notMem]
    rw [List.mem_toFinset]
    exact fun member => known ((any_same_iff names name).mpr member)

theorem variety_perm (names others : List Scalar) (perm : names.Perm others) :
    variety names = variety others := by
  unfold variety
  rw [List.toFinset_eq_of_perm _ _ (perm.map meaning)]

theorem repeats_add_variety (seen names : List Scalar) :
    repeats seen names + variety (names ++ seen) = names.length + variety seen := by
  induction names generalizing seen with
  | nil => simp [repeats]
  | cons name rest ih =>
    have later := ih (name :: seen)
    have moved : variety (name :: rest ++ seen) = variety (rest ++ name :: seen) :=
      variety_perm _ _ List.perm_middle.symm
    have here := variety_cons name seen
    rw [repeats, moved, List.length_cons]
    split at here
    · next known =>
      rw [if_pos known]
      omega
    · next new =>
      rw [if_neg new]
      omega

theorem repeats_eq (names : List Scalar) : repeats [] names = names.length - variety names := by
  have whole := repeats_add_variety [] names
  have none : variety [] = 0 := rfl
  rw [List.append_nil, none] at whole
  omega

end Scalar

def meanings (entries : List (Scalar × Value)) : List Meaning := entries.map (·.1.meaning)

theorem meanings_putEntry (entries : List (Scalar × Value)) (key : Scalar) (value : Value) :
    meanings (putEntry entries key value) =
      if key.meaning ∈ meanings entries then meanings entries
      else meanings entries ++ [key.meaning] := by
  induction entries with
  | nil => rfl
  | cons entry rest ih =>
    obtain ⟨name, old⟩ := entry
    rw [putEntry]
    by_cases same : name.same key = true
    · have equal := (Scalar.same_iff name key).mp same
      simp [meanings, same, equal]
    · have differ : key.meaning ≠ name.meaning := fun equal =>
        same ((Scalar.same_iff name key).mpr equal.symm)
      simp only [meanings] at ih ⊢
      simp only [same, Bool.false_eq_true, if_false, List.map_cons, List.mem_cons, differ, false_or,
        ih, List.cons_append]
      exact apply_ite (List.cons name.meaning) _ _ _

theorem nodup_meanings_putEntry (entries : List (Scalar × Value)) (key : Scalar) (value : Value)
    (distinct : (meanings entries).Nodup) : (meanings (putEntry entries key value)).Nodup := by
  rw [meanings_putEntry]
  split
  · exact distinct
  · next new => exact List.nodup_append.mpr ⟨distinct, List.nodup_singleton _, by
      intro old member other only same
      rw [List.mem_singleton.mp only] at same
      exact new (same ▸ member)⟩

theorem toFinset_meanings_putEntry (entries : List (Scalar × Value)) (key : Scalar)
    (value : Value) :
    (meanings (putEntry entries key value)).toFinset =
      insert key.meaning (meanings entries).toFinset := by
  rw [meanings_putEntry]
  split
  · next known => rw [Finset.insert_eq_of_mem (List.mem_toFinset.mpr known)]
  · simp

end LocaleLint.Yaml
