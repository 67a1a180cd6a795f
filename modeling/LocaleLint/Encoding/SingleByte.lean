set_option autoImplicit false

namespace LocaleLint.Encoding.SingleByte

def ascii? (octet : UInt8) : Option Char :=
  if octet < 0x80 then some (Char.ofNat octet.toNat) else none

def latin1 (octet : UInt8) : Char := Char.ofNat octet.toNat

-- The characters of the octets 0x80 to 0x9f in Windows code page 1252.
def windows1252High : Array (Option Char) := #[
  some '\u20ac', none, some '\u201a', some '\u0192', some '\u201e', some '\u2026', some '\u2020',
  some '\u2021', some '\u02c6', some '\u2030', some '\u0160', some '\u2039', some '\u0152', none,
  some '\u017d', none, none, some '\u2018', some '\u2019', some '\u201c', some '\u201d',
  some '\u2022', some '\u2013', some '\u2014', some '\u02dc', some '\u2122', some '\u0161',
  some '\u203a', some '\u0153', none, some '\u017e', some '\u0178']

def windows1252? (octet : UInt8) : Option Char :=
  if 0x80 ≤ octet ∧ octet < 0xa0 then windows1252High.getD (octet.toNat - 0x80) none
  else some (Char.ofNat octet.toNat)

end LocaleLint.Encoding.SingleByte
