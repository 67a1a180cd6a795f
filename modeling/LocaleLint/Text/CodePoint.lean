import LocaleLint.Text.Quoted

set_option autoImplicit false

namespace LocaleLint.Text

inductive CodePoint
  | char (c : Char)
  | half (code : Nat)
deriving Repr, DecidableEq, Inhabited

def isHighSurrogate (code : Nat) : Bool := decide (0xd800 ≤ code) && decide (code < 0xdc00)

def isLowSurrogate (code : Nat) : Bool := decide (0xdc00 ≤ code) && decide (code < 0xe000)

def pairCode (high low : Nat) : Nat := 0x10000 + (high - 0xd800) * 0x400 + (low - 0xdc00)

namespace CodePoint

def ofCode (code : Nat) : CodePoint :=
  if isHighSurrogate code || isLowSurrogate code then .half code else .char (Char.ofNat code)

def code : CodePoint → Nat
  | .char c => c.toNat
  | .half code => code

def isHalf : CodePoint → Bool
  | .char _ => false
  | .half _ => true

def toChar : CodePoint → Char
  | .char c => c
  | .half _ => '\ufffd'

def paired? : CodePoint → CodePoint → Option Char
  | .half high, .half low =>
      if isHighSurrogate high && isLowSurrogate low then some (Char.ofNat (pairCode high low))
        else none
  | _, _ => none

def whole? : List CodePoint → Option (List Char)
  | [] => some []
  | .char c :: rest => (whole? rest).map (c :: ·)
  | .half _ :: _ => none

def ofString (text : String) : List CodePoint := text.toList.map .char

def text? (points : List CodePoint) : Option String := (whole? points).map String.ofList

theorem whole?_map_char (text : List Char) : whole? (text.map .char) = some text := by
  induction text with
  | nil => rfl
  | cons c rest ih => simp [whole?, ih]

theorem whole?_eq_some_iff (points : List CodePoint) (text : List Char) :
    whole? points = some text ↔ points = text.map .char := by
  constructor
  · intro h
    induction points generalizing text with
    | nil =>
        cases h
        rfl
    | cons point rest ih =>
        cases point with
        | char c =>
            obtain ⟨chars, hc, rfl⟩ := Option.map_eq_some_iff.mp h
            simp [ih chars hc]
        | half code => simp [whole?] at h
  · rintro rfl
    exact whole?_map_char text

def joined : List CodePoint → List Char
  | [] => []
  | [point] => [point.toChar]
  | point :: next :: rest =>
      match paired? point next with
      | some c => c :: joined rest
      | none => point.toChar :: joined (next :: rest)

def escaped (points : List CodePoint) : List Char :=
  points.flatMap fun
    | .char c => [c]
    | .half code => codePointEscape code

/-- The first run of code points that an encoding cannot write: where it starts, its length and the
first of them. -/
structure Unencodable where
  start : Nat
  count : Nat
  first : Nat
deriving Repr, DecidableEq, Inhabited

def firstUnencodable (canWrite : CodePoint → Bool) (points : List CodePoint) : Option Unencodable :=
  let before := points.takeWhile canWrite
  match points.drop before.length with
  | [] => none
  | point :: rest =>
      some ⟨before.length, (rest.takeWhile fun p => !canWrite p).length + 1, point.code⟩

def Unencodable.text (bad : Unencodable) (encoding reason : String) : String :=
  let place :=
    if bad.count = 1 then
      "character '" ++ String.ofList (codePointEscape bad.first) ++ "' in position " ++
        toString bad.start
    else
      "characters in position " ++ toString bad.start ++ "-" ++ toString (bad.start + bad.count - 1)
  "'" ++ encoding ++ "' codec can't encode " ++ place ++ ": " ++ reason

end CodePoint

end LocaleLint.Text
