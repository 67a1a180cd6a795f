set_option autoImplicit false

namespace LocaleLint.Number

inductive Binary64
  | finite (negative : Bool) (mantissa : Nat) (exponent : Int)
  | infinite (negative : Bool)
  | nan (origin : Nat)
deriving Repr, DecidableEq, Inhabited

def divNearestEven (num den : Nat) : Nat :=
  let quotient := num / den
  let twice := 2 * (num % den)
  if twice < den then quotient
  else if den < twice then quotient + 1
  else if quotient % 2 = 0 then quotient
  else quotient + 1

namespace Binary64

def zero : Binary64 := .finite false 0 (-1074)

def scaled (num den : Nat) (exponent : Int) : Nat × Nat :=
  if 0 ≤ exponent then (num, den * Nat.pow 2 exponent.toNat)
  else (num * Nat.pow 2 (-exponent).toNat, den)

def ofRatio (negative : Bool) (num den : Nat) : Binary64 :=
  if num = 0 then .finite negative 0 (-1074)
  else
    let low : Int := (num.log2 : Int) - (den.log2 : Int) - 53
    let (n, d) := scaled num den low
    let exponent := max (if n / d < Nat.pow 2 53 then low else low + 1) (-1074)
    let (n, d) := scaled num den exponent
    let mantissa := divNearestEven n d
    let (mantissa, exponent) :=
      if mantissa = Nat.pow 2 53 then (Nat.pow 2 52, exponent + 1) else (mantissa, exponent)
    if 971 < exponent then .infinite negative else .finite negative mantissa exponent

def ofDyadic (negative : Bool) (mantissa : Nat) (exponent : Int) : Binary64 :=
  if 0 ≤ exponent then ofRatio negative (mantissa * Nat.pow 2 exponent.toNat) 1
  else ofRatio negative mantissa (Nat.pow 2 (-exponent).toNat)

def ofInt (value : Int) : Binary64 := ofRatio (decide (value < 0)) value.natAbs 1

-- A decimal number; `digits` counts the places of `coefficient`, and beyond the bounds the result
-- is known.
def ofDecimal (negative : Bool) (coefficient : Nat) (exponent : Int) (digits : Nat) : Binary64 :=
  if coefficient = 0 then .finite negative 0 (-1074)
  else if 310 < digits + exponent then .infinite negative
  else if digits + exponent < -330 then .finite negative 0 (-1074)
  else if 0 ≤ exponent then ofRatio negative (coefficient * Nat.pow 10 exponent.toNat) 1
  else ofRatio negative coefficient (Nat.pow 10 (-exponent).toNat)

def isNegative : Binary64 → Bool
  | .finite negative _ _ | .infinite negative => negative
  | .nan _ => false

def isZero : Binary64 → Bool
  | .finite _ mantissa _ => mantissa == 0
  | _ => false

def neg : Binary64 → Binary64
  | .finite negative mantissa exponent => .finite (!negative) mantissa exponent
  | .infinite negative => .infinite (!negative)
  | .nan origin => .nan origin

def mul (origin : Nat) : Binary64 → Binary64 → Binary64
  | .finite n m e, .finite n' m' e' => ofDyadic (n != n') (m * m') (e + e')
  | .nan _, _ | _, .nan _ => .nan origin
  | x, y => if x.isZero || y.isZero then .nan origin else .infinite (x.isNegative != y.isNegative)

def signed (negative : Bool) (magnitude : Nat) : Int :=
  if negative then -(magnitude : Int) else magnitude

def add (origin : Nat) : Binary64 → Binary64 → Binary64
  | .finite n m e, .finite n' m' e' =>
      let exponent := min e e'
      let sum := signed n (m * Nat.pow 2 (e - exponent).toNat) +
        signed n' (m' * Nat.pow 2 (e' - exponent).toNat)
      if sum = 0 then .finite (n && n') 0 (-1074)
      else ofDyadic (decide (sum < 0)) sum.natAbs exponent
  | .nan _, _ | _, .nan _ => .nan origin
  | .infinite n, .infinite n' => if n = n' then .infinite n else .nan origin
  | .infinite n, _ | _, .infinite n => .infinite n

def same : Binary64 → Binary64 → Bool
  | .finite n m e, .finite n' m' e' =>
      let exponent := min e e'
      signed n (m * Nat.pow 2 (e - exponent).toNat) ==
        signed n' (m' * Nat.pow 2 (e' - exponent).toNat)
  | .infinite n, .infinite n' => n == n'
  | .nan origin, .nan origin' => origin == origin'
  | _, _ => false

def toInt? : Binary64 → Option Int
  | .finite n m e =>
      if 0 ≤ e then some (signed n (m * Nat.pow 2 e.toNat))
      else if m % Nat.pow 2 (-e).toNat = 0 then some (signed n (m / Nat.pow 2 (-e).toNat))
      else none
  | _ => none

def sameAsInt (x : Binary64) (i : Int) : Bool := x.toInt? == some i

theorem same_symm (x y : Binary64) : x.same y = y.same x := by
  cases x <;> cases y <;> simp only [same, Bool.beq_comm]
  rw [Int.min_comm, Bool.beq_comm]

end Binary64

end LocaleLint.Number
