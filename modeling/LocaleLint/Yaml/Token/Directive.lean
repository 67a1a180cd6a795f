import LocaleLint.Yaml.Token.Tag
import LocaleLint.Number.Numeral

set_option autoImplicit false

namespace LocaleLint.Yaml.Scan

open LocaleLint.Text

def directiveNumber (since : Position) : Scan Nat := do
  let digits ← takeWhile isAsciiDigit
  let next ← peek
  demand (!digits.isEmpty) .directive since (.digitExpected next)
  if Number.maxDecimalDigits < digits.length then breakdown .badNumeral
  else return Number.decimalDigits digits

def versionValue (since : Position) : Scan Lexeme := do
  skipWhile (· == ' ')
  let major ← directiveNumber since
  let point ← peek
  demand (point == '.') .directive since (.digitOrDotExpected point)
  skip 1
  let minor ← directiveNumber since
  let next ← peek
  demand (isSpaceOrBreakOrEnd next) .directive since (.digitOrSpaceExpected next)
  return .version major minor

def handleValue (since : Position) : Scan Lexeme := do
  skipWhile (· == ' ')
  let handle ← tagHandle .ofDirective since
  let next ← peek
  demand (next == ' ') .directive since (.spaceExpected next)
  skipWhile (· == ' ')
  let expansion ← tagUri .ofDirective since
  let next ← peek
  demand (isSpaceOrBreakOrEnd next) .directive since (.spaceExpected next)
  return .tagHandle handle expansion

-- What may stand after a directive or the header of a block scalar.
def restOfLine (activity : Activity) (since : Position) : Scan Unit := do
  skipWhile (· == ' ')
  skipComment
  let next ← peek
  demand (isBreakOrEnd next) activity since (.lineEndExpected next)
  let _ ← lineBreak

def directiveValue (name : List Char) (since : Position) : Scan Lexeme :=
  if name == "YAML".toList then versionValue since
  else if name == "TAG".toList then handleValue since
  else do
    skipWhile fun c => !isBreakOrEnd c
    return .otherDirective

def directiveToken : Scan Token := do
  let start ← place
  skip 1
  let name ← takeWhile isNameChar
  let next ← peek
  demand (!name.isEmpty && isSpaceOrBreakOrEnd next) .directive start (.nameExpected next)
  let lexeme ← directiveValue name start
  let stop ← place
  restOfLine .directive start
  return ⟨lexeme, start, stop⟩

end LocaleLint.Yaml.Scan
