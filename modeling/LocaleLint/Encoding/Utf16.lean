set_option autoImplicit false

namespace LocaleLint.Encoding.Utf16

def unit (big : Bool) (a b : UInt8) : Nat :=
  if big then a.toNat * 256 + b.toNat else b.toNat * 256 + a.toNat

def units? (big : Bool) : List UInt8 → Option (List Nat)
  | [] => some []
  | [_] => none
  | a :: b :: rest => (units? big rest).map (unit big a b :: ·)

def isHigh (unit : Nat) : Bool := decide (0xd800 ≤ unit) && decide (unit < 0xdc00)

def isLow (unit : Nat) : Bool := decide (0xdc00 ≤ unit) && decide (unit < 0xe000)

def chars? : List Nat → Option (List Char)
  | [] => some []
  | [unit] => if isHigh unit || isLow unit then none else some [Char.ofNat unit]
  | high :: low :: rest =>
      if isLow high then none
      else if isHigh high then
        if isLow low then
          (chars? rest).map (Char.ofNat (0x10000 + (high - 0xd800) * 0x400 + (low - 0xdc00)) :: ·)
        else none
      else (chars? (low :: rest)).map (Char.ofNat high :: ·)

def decode (big : Bool) (octets : List UInt8) : Option (List Char) :=
  (units? big octets).bind chars?

-- A byte order mark tells the order and is dropped; without one the low octet comes first.
def decodeMarked : List UInt8 → Option (List Char)
  | 0xff :: 0xfe :: rest => decode false rest
  | 0xfe :: 0xff :: rest => decode true rest
  | octets => decode false octets

end LocaleLint.Encoding.Utf16
