set_option autoImplicit false

namespace LocaleLint.Text.Base64

inductive Failure
  | padding
  -- One character is left over after this many, itself included.
  | danglingCharacter (characters : Nat)
deriving Repr, DecidableEq, Inhabited

def sextet (c : Char) : Option Nat :=
  if 'A' ≤ c ∧ c ≤ 'Z' then some (c.toNat - 'A'.toNat)
  else if 'a' ≤ c ∧ c ≤ 'z' then some (c.toNat - 'a'.toNat + 26)
  else if '0' ≤ c ∧ c ≤ '9' then some (c.toNat - '0'.toNat + 52)
  else if c = '+' then some 62
  else if c = '/' then some 63
  else none

structure Decoder where
  octets : List UInt8
  carry : Nat
  group : Nat
  pads : Nat

def Decoder.take (d : Decoder) (value : Nat) : Decoder :=
  let octet (n : Nat) : List UInt8 := UInt8.ofNat n :: d.octets
  match d.group with
  | 0 => { d with carry := value, group := 1, pads := 0 }
  | 1 => ⟨octet (d.carry * 4 + value / 16), value % 16, 2, 0⟩
  | 2 => ⟨octet (d.carry * 16 + value / 4), value % 4, 3, 0⟩
  | _ => ⟨octet (d.carry * 64 + value), 0, 0, 0⟩

def Decoder.finish (d : Decoder) : Except Failure (List UInt8) :=
  if d.group = 0 then .ok d.octets.reverse
  else if d.group = 1 then .error (.danglingCharacter (d.octets.length / 3 * 4 + 1))
  else .error .padding

def Decoder.run : List Char → Decoder → Except Failure (List UInt8)
  | [], d => d.finish
  | c :: rest, d =>
      if c = '=' then
        if 2 ≤ d.group then
          if 4 ≤ d.group + d.pads + 1 then .ok d.octets.reverse
          else Decoder.run rest { d with pads := d.pads + 1 }
        else Decoder.run rest d
      else match sextet c with
        | some value => Decoder.run rest (d.take value)
        | none => Decoder.run rest d

def decode (text : List Char) : Except Failure (List UInt8) := Decoder.run text ⟨[], 0, 0, 0⟩

end LocaleLint.Text.Base64
