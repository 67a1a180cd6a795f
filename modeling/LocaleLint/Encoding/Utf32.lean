set_option autoImplicit false

namespace LocaleLint.Encoding.Utf32

def unit (big : Bool) (a b c d : UInt8) : Nat :=
  if big then ((a.toNat * 256 + b.toNat) * 256 + c.toNat) * 256 + d.toNat
  else ((d.toNat * 256 + c.toNat) * 256 + b.toNat) * 256 + a.toNat

def char? (code : Nat) : Option Char :=
  if code < 0xd800 ∨ (0xdfff < code ∧ code < 0x110000) then some (Char.ofNat code) else none

def decode (big : Bool) : List UInt8 → Option (List Char)
  | [] => some []
  | a :: b :: c :: d :: rest =>
      match char? (unit big a b c d) with
      | some char => (decode big rest).map (char :: ·)
      | none => none
  | _ => none

-- A byte order mark tells the order and is dropped; without one the low octet comes first.
def decodeMarked : List UInt8 → Option (List Char)
  | 0xff :: 0xfe :: 0x00 :: 0x00 :: rest => decode false rest
  | 0x00 :: 0x00 :: 0xfe :: 0xff :: rest => decode true rest
  | octets => decode false octets

end LocaleLint.Encoding.Utf32
