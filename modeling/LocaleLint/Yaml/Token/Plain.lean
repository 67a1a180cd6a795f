import LocaleLint.Yaml.Token.Quoted

set_option autoImplicit false

namespace LocaleLint.Yaml.Scan

open LocaleLint.Text

def isFlowIndicator (c : Char) : Bool :=
  c == ',' || c == '[' || c == ']' || c == '\x7b' || c == '\x7d'

def endsPlainWord (inFlow : Bool) (c next : Char) : Bool :=
  isBlankOrBreak c ||
    (c == ':' && (isBlankOrBreak next || (inFlow && isFlowIndicator next))) ||
    (inFlow && (c == '?' || isFlowIndicator c))

def plainWordOf (inFlow : Bool) : List Char → List Char
  | [] => []
  | c :: rest =>
      if endsPlainWord inFlow c (rest.headD '\x00') then []
      else c :: plainWordOf inFlow rest

def plainWord (inFlow : Bool) : Scan (List Char) := do
  take (plainWordOf inFlow (← get).rest).length

def plainBreaks : Nat → Scan (Option (List Char))
  | 0 => return some []
  | fuel + 1 => do
      skipWhile (· == ' ')
      match ← lineBreak with
      | none => return some []
      | some c =>
          if ← atDocumentMarker then return none
          else return (← plainBreaks fuel).map (c :: ·)

structure PlainGap where
  text : List Char
  crossedLine : Bool

def plainGap : Scan PlainGap := do
  let blanks ← takeWhile (· == ' ')
  match ← lineBreak with
  | none => return ⟨blanks, false⟩
  | some first =>
      if ← atDocumentMarker then return ⟨[], true⟩
      else
        match ← plainBreaks (← remaining) with
        | none => return ⟨[], true⟩
        | some breaks => return ⟨folded first breaks, true⟩

structure PlainText where
  text : List Char
  stop : Position
  -- Whether a line end follows the text, so that a key may start after it.
  crossedLine : Bool

def plainRest (inFlow : Bool) (outer : Int) : Nat → Scan PlainText
  | 0 => return ⟨[], ← place, false⟩
  | fuel + 1 => do
      let stop ← place
      let gap ← plainGap
      let ended := gap.text.isEmpty || (← peek) == '#' ||
        (!inFlow && decide ((← place).column < outer + 1))
      if ended then return ⟨[], stop, gap.crossedLine⟩
      else
        let word ← plainWord inFlow
        if word.isEmpty then return ⟨[], stop, gap.crossedLine⟩
        else
          let rest ← plainRest inFlow outer fuel
          return ⟨gap.text ++ word ++ rest.text, rest.stop, rest.crossedLine⟩

def plainToken (inFlow : Bool) (outer : Int) : Scan (Token × Bool) := do
  let start ← place
  let word ← plainWord inFlow
  let rest ← plainRest inFlow outer (← remaining)
  return (⟨.scalar ((word ++ rest.text).map .char) true, start, rest.stop⟩, rest.crossedLine)

end LocaleLint.Yaml.Scan
