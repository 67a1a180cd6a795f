set_option autoImplicit false

namespace LocaleLint.Encoding.Utf8

structure BadOctets where
  start : Nat
  octets : List UInt8
  reason : String
deriving Repr, DecidableEq, Inhabited

def encodeChar (c : Char) : List UInt8 :=
  let code := c.toNat
  let tail (n : Nat) : UInt8 := UInt8.ofNat (0x80 + n % 64)
  if code < 0x80 then [UInt8.ofNat code]
  else if code < 0x800 then [UInt8.ofNat (0xc0 + code / 64), tail code]
  else if code < 0x10000 then [UInt8.ofNat (0xe0 + code / 4096), tail (code / 64), tail code]
  else [UInt8.ofNat (0xf0 + code / 262144), tail (code / 4096), tail (code / 64), tail code]

def encode (text : List Char) : List UInt8 := text.flatMap encodeChar

def isTail (b : UInt8) : Bool := decide (0x80 ≤ b) && decide (b < 0xc0)

-- The second octet rules out overlong forms, surrogates and what lies above U+10FFFF.
def isSecond (lead b : UInt8) : Bool :=
  isTail b && (lead != 0xe0 || decide (0xa0 ≤ b)) && (lead != 0xed || decide (b < 0xa0)) &&
    (lead != 0xf0 || decide (0x90 ≤ b)) && (lead != 0xf4 || decide (b < 0x90))

def charOf2 (a b : UInt8) : Char := Char.ofNat ((a.toNat - 0xc0) * 64 + (b.toNat - 0x80))

def charOf3 (a b c : UInt8) : Char :=
  Char.ofNat ((a.toNat - 0xe0) * 4096 + (b.toNat - 0x80) * 64 + (c.toNat - 0x80))

def charOf4 (a b c d : UInt8) : Char :=
  Char.ofNat ((a.toNat - 0xf0) * 262144 + (b.toNat - 0x80) * 4096 + (c.toNat - 0x80) * 64 +
    (d.toNat - 0x80))

def badStart (start : Nat) (octet : UInt8) : Except BadOctets (List Char) :=
  .error ⟨start, [octet], "invalid start byte"⟩

def badTail (start : Nat) (octets : List UInt8) : Except BadOctets (List Char) :=
  .error ⟨start, octets, "invalid continuation byte"⟩

def cutShort (start : Nat) (octets : List UInt8) : Except BadOctets (List Char) :=
  .error ⟨start, octets, "unexpected end of data"⟩

def decodeFrom (start : Nat) : List UInt8 → Except BadOctets (List Char)
  | [] => .ok []
  | a :: rest =>
      if a < 0x80 then (decodeFrom (start + 1) rest).map (Char.ofNat a.toNat :: ·)
      else if a < 0xc2 then badStart start a
      else if a < 0xe0 then
        match rest with
        | [] => cutShort start [a]
        | b :: rest =>
            if isSecond a b then (decodeFrom (start + 2) rest).map (charOf2 a b :: ·)
            else badTail start [a]
      else if a < 0xf0 then
        match rest with
        | [] => cutShort start [a]
        | [b] => if isSecond a b then cutShort start [a, b] else badTail start [a]
        | b :: c :: rest =>
            if !isSecond a b then badTail start [a]
            else if !isTail c then badTail start [a, b]
            else (decodeFrom (start + 3) rest).map (charOf3 a b c :: ·)
      else if a < 0xf5 then
        match rest with
        | [] => cutShort start [a]
        | [b] => if isSecond a b then cutShort start [a, b] else badTail start [a]
        | [b, c] =>
            if !isSecond a b then badTail start [a]
            else if !isTail c then badTail start [a, b]
            else cutShort start [a, b, c]
        | b :: c :: d :: rest =>
            if !isSecond a b then badTail start [a]
            else if !isTail c then badTail start [a, b]
            else if !isTail d then badTail start [a, b, c]
            else (decodeFrom (start + 4) rest).map (charOf4 a b c d :: ·)
      else badStart start a

def decode (octets : List UInt8) : Except BadOctets (List Char) := decodeFrom 0 octets

end LocaleLint.Encoding.Utf8
