import LocaleLint.Number.Binary64
import LocaleLint.Text.DecimalDigit
import LocaleLint.Text.Space

set_option autoImplicit false

namespace LocaleLint.Number

open LocaleLint.Text

-- Every character of a numeral as an ASCII one; what is neither a digit nor a blank fits nowhere.
def asciiNumeralChar (c : Char) : Char :=
  if c.toNat < 127 then c
  else if isSpace c then ' '
  else match decimalValue c with
    | some d => Char.ofNat ('0'.toNat + d)
    | none => '?'

def asciiNumeral (text : List Char) : List Char := strip isAsciiBlank (text.map asciiNumeralChar)

def splitSign : List Char → Bool × List Char
  | '-' :: rest => (true, rest)
  | '+' :: rest => (false, rest)
  | rest => (false, rest)

def digitValue (c : Char) : Option Nat :=
  if isAsciiDigit c then some (c.toNat - '0'.toNat)
  else if 'a' ≤ c ∧ c ≤ 'z' then some (c.toNat - 'a'.toNat + 10)
  else if 'A' ≤ c ∧ c ≤ 'Z' then some (c.toNat - 'A'.toNat + 10)
  else none

def positional (base : Nat) : List Char → Nat → Option Nat
  | [], value => some value
  | c :: rest, value =>
      match digitValue c with
      | some d => if d < base then positional base rest (base * value + d) else none
      | none => none

def basePrefix (base : Nat) (text : List Char) : List Char :=
  match text with
  | '0' :: c :: rest =>
      if (base == 2 && (c == 'b' || c == 'B')) || (base == 8 && (c == 'o' || c == 'O')) ||
          (base == 16 && (c == 'x' || c == 'X')) then rest
      else text
  | _ => text

def maxDecimalDigits : Nat := 4300

def integer? (base : Nat) (text : List Char) : Option Int :=
  let (negative, rest) := splitSign (asciiNumeral text)
  let digits := basePrefix base rest
  if digits.isEmpty || (base == 10 && decide (maxDecimalDigits < digits.length)) then none
  else (positional base digits 0).map (Binary64.signed negative)

def lowerAscii (c : Char) : Char :=
  if 'A' ≤ c ∧ c ≤ 'Z' then Char.ofNat (c.toNat + 32) else c

def decimalDigits (text : List Char) : Nat :=
  text.foldl (fun value c => 10 * value + (c.toNat - '0'.toNat)) 0

def exponent? : List Char → Option Int
  | [] => some 0
  | c :: rest =>
      if c == 'e' || c == 'E' then
        let (negative, digits) := splitSign rest
        if digits.isEmpty || !digits.all isAsciiDigit then none
        else some (Binary64.signed negative (decimalDigits digits))
      else none

def decimal? (negative : Bool) (text : List Char) : Option Binary64 :=
  let whole := text.takeWhile isAsciiDigit
  let afterWhole := text.drop whole.length
  let (fraction, afterFraction) := match afterWhole with
    | '.' :: rest => (rest.takeWhile isAsciiDigit, rest.dropWhile isAsciiDigit)
    | rest => ([], rest)
  if whole.isEmpty && fraction.isEmpty then none
  else (exponent? afterFraction).map fun exponent =>
    let digits := (whole ++ fraction).dropWhile (· == '0')
    Binary64.ofDecimal negative (decimalDigits digits) (exponent - fraction.length) digits.length

def float? (origin : Nat) (text : List Char) : Option Binary64 :=
  let (negative, rest) := splitSign (asciiNumeral text)
  let word := String.ofList (rest.map lowerAscii)
  if word = "inf" ∨ word = "infinity" then some (.infinite negative)
  else if word = "nan" then some (.nan origin)
  else decimal? negative rest

end LocaleLint.Number
