import LocaleLint.Number.Binary64

set_option autoImplicit false

namespace LocaleLint.Number

structure Rounding where
  lower : Nat
  value : Nat
  upper : Nat
  den : Nat
  closed : Bool

def Rounding.of (mantissa : Nat) (exponent : Int) : Rounding :=
  -- Below a power of two the gap is half as wide.
  let below := if mantissa = Nat.pow 2 52 ∧ -1074 < exponent then 1 else 2
  let scale := if 2 ≤ exponent then Nat.pow 2 (exponent - 2).toNat else 1
  let den := if 2 ≤ exponent then 1 else Nat.pow 2 (2 - exponent).toNat
  ⟨(4 * mantissa - below) * scale, 4 * mantissa * scale, (4 * mantissa + 2) * scale, den,
    mantissa % 2 == 0⟩

def ratioDigits : Nat → Nat → Nat → Nat
  | 0, _, _ => 0
  | fuel + 1, n, count => if n < 10 then count else ratioDigits fuel (n / 10) (count + 1)

def leadingZeros : Nat → Nat → Nat → Nat → Nat
  | 0, _, _, count => count
  | fuel + 1, num, den, count =>
      if den ≤ num then count else leadingZeros fuel (10 * num) den (count + 1)

def leadingExponent (num den : Nat) : Int :=
  if den ≤ num then ratioDigits 400 (num / den) 0 else -(leadingZeros 400 num den 0 : Int)

def Rounding.holds (r : Rounding) (num den : Nat) : Bool :=
  if r.closed then decide (r.lower * den ≤ num * r.den) && decide (num * r.den ≤ r.upper * den)
  else decide (r.lower * den < num * r.den) && decide (num * r.den < r.upper * den)

def gridPoint (digits : Nat) (exponent : Int) : Nat × Nat :=
  if 0 ≤ exponent then (digits * Nat.pow 10 exponent.toNat, 1)
    else (digits, Nat.pow 10 (-exponent).toNat)

def gridHit (r : Rounding) (exponent : Int) : Option Nat :=
  let (unit, unitDen) := gridPoint 1 exponent
  let below := r.value * unitDen / (r.den * unit)
  let reads (digits : Nat) : Bool :=
    let (num, den) := gridPoint digits exponent
    r.holds num den
  let rest := r.value * unitDen - below * (r.den * unit)
  match reads below, reads (below + 1) with
  | true, true =>
      if 2 * rest < r.den * unit ∨ (2 * rest = r.den * unit ∧ below % 2 = 0) then some below
      else some (below + 1)
  | true, false => some below
  | false, true => some (below + 1)
  | false, false => none

def searchGrids (r : Rounding) (leading : Int) : Nat → Nat → Nat × Int
  | 0, _ => (0, 0)
  | fuel + 1, places =>
      let exponent := leading - places
      match gridHit r exponent with
      | some digits => (digits, exponent)
      | none => searchGrids r leading fuel (places + 1)

def shortestDigits (mantissa : Nat) (exponent : Int) : Nat × Int :=
  let r := Rounding.of mantissa exponent
  searchGrids r (leadingExponent r.value r.den) 18 0

def stripZeros : Nat → Nat → Int → Nat × Int
  | 0, digits, exponent => (digits, exponent)
  | fuel + 1, digits, exponent =>
      if digits % 10 = 0 ∧ 10 ≤ digits then stripZeros fuel (digits / 10) (exponent + 1)
      else (digits, exponent)

def layout (digits : Nat) (exponent : Int) : String :=
  let text := (Nat.toDigits 10 digits)
  let leading : Int := exponent + text.length - 1
  if -4 ≤ leading ∧ leading < 16 then
    if 0 ≤ exponent then String.ofList (text ++ List.replicate exponent.toNat '0') ++ ".0"
    else if 0 ≤ leading then
      String.ofList (text.take (leading.toNat + 1)) ++ "." ++
        String.ofList (text.drop (leading.toNat + 1))
    else
      "0." ++ String.ofList (List.replicate ((-leading).toNat - 1) '0' ++ text)
  else
    let fraction := if text.length = 1 then "" else "." ++ String.ofList (text.drop 1)
    let sign := if 0 ≤ leading then "+" else "-"
    let power := toString leading.natAbs
    let padding := if power.length < 2 then "0" else ""
    String.ofList (text.take 1) ++ fraction ++ "e" ++ sign ++ padding ++ power

def Binary64.text : Binary64 → String
  | .nan _ => "nan"
  | .infinite negative => if negative then "-inf" else "inf"
  | .finite negative mantissa exponent =>
      let sign := if negative then "-" else ""
      if mantissa = 0 then sign ++ "0.0"
      else
        let (digits, power) := shortestDigits mantissa exponent
        let (digits, power) := stripZeros 20 digits power
        sign ++ layout digits power

end LocaleLint.Number
