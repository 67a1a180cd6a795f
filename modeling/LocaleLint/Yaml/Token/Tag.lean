import LocaleLint.Yaml.Token.Scan
import LocaleLint.Encoding.Utf8

set_option autoImplicit false

namespace LocaleLint.Yaml.Scan

open LocaleLint.Text

structure TagSetting where
  reading : Activity
  naming : Activity

def TagSetting.ofTag : TagSetting := ⟨.tag, .tagName⟩

def TagSetting.ofDirective : TagSetting := ⟨.directive, .directiveName⟩

def isUriChar (c : Char) : Bool :=
  isNameChar c || ";/?:@&=+$,_.!~*'()[]%".toList.contains c

def escapedOctets (setting : TagSetting) (since : Position) : Nat → Scan (List UInt8)
  | 0 => return []
  | fuel + 1 => do
      if (← peek) == '%' then
        skip 1
        let high ← peek
        demand (isHexDigit high) setting.reading since (.uriEscapeExpected high)
        let low ← peekAt 1
        demand (isHexDigit low) setting.reading since (.uriEscapeExpected low)
        skip 2
        return UInt8.ofNat (hexNumber [high, low]) :: (← escapedOctets setting since fuel)
      else return []

def uriEscapes (setting : TagSetting) (since : Position) : Scan (List Char) := do
  let start ← place
  let octets ← escapedOctets setting since (← remaining)
  match Encoding.Utf8.decode octets with
  | .ok text => return text
  | .error bad => throw (.fault ⟨some setting.reading, some since, .uriOctets bad, start⟩)

def uriChunks (setting : TagSetting) (since : Position) : Nat → Scan (List Char)
  | 0 => return []
  | fuel + 1 => do
      let c ← peek
      if c == '%' then
        let text ← uriEscapes setting since
        return text ++ (← uriChunks setting since fuel)
      else if isUriChar c then
        skip 1
        return c :: (← uriChunks setting since fuel)
      else return []

def tagUri (setting : TagSetting) (since : Position) : Scan String := do
  let first ← peek
  demand (isUriChar first) setting.naming since (.uriExpected first)
  return String.ofList (← uriChunks setting since (← remaining))

def tagHandle (setting : TagSetting) (since : Position) : Scan String := do
  let first ← peek
  demand (first == '!') setting.reading since (.exclamationExpected first)
  skip 1
  if (← peek) == ' ' then return "!"
  else
    let name ← takeWhile isNameChar
    let closing ← peek
    demand (closing == '!') setting.reading since (.exclamationExpected closing)
    skip 1
    return String.ofList ('!' :: name ++ ['!'])

def hasNamedHandle (rest : List Char) : Bool :=
  (rest.takeWhile fun c => !isSpaceOrBreakOrEnd c).contains '!'

-- The handle and the suffix of a tag; the cursor stands on its exclamation mark.
def tagParts (start : Position) : Scan (Option String × String) := do
  let second ← peekAt 1
  if second == '<' then
    skip 2
    let suffix ← tagUri .ofTag start
    let closing ← peek
    demand (closing == '>') .tagName start (.closingAngleExpected closing)
    skip 1
    return (none, suffix)
  else if isBlankOrBreak second then
    skip 1
    return (none, "!")
  else if hasNamedHandle ((← get).rest.drop 1) then
    let handle ← tagHandle .ofTag start
    return (some handle, ← tagUri .ofTag start)
  else
    skip 1
    return (some "!", ← tagUri .ofTag start)

def tagToken : Scan Token := do
  let start ← place
  let parts ← tagParts start
  let next ← peek
  demand (isSpaceOrBreakOrEnd next) .tag start (.spaceExpected next)
  return ⟨.tag parts.1 parts.2, start, ← place⟩

def endsName (c : Char) : Bool := isBlankOrBreak c || "?:,]\x7d%@`".toList.contains c

def nameToken (activity : Activity) (lexeme : String → Lexeme) : Scan Token := do
  let start ← place
  skip 1
  let name ← takeWhile isNameChar
  let next ← peek
  demand (!name.isEmpty && endsName next) activity start (.nameExpected next)
  return ⟨lexeme (String.ofList name), start, ← place⟩

end LocaleLint.Yaml.Scan
