import LocaleLint.Yaml.Value.Basic
import LocaleLint.Yaml.Fault
import LocaleLint.Number.Numeral
import LocaleLint.Calendar.Timestamp

set_option autoImplicit false

namespace LocaleLint.Yaml

open LocaleLint.Text LocaleLint.Number LocaleLint.Calendar

def dropUnderscores (text : List Char) : List Char := text.filter (· != '_')

def numeral (base : Nat) (text : List Char) : Except Breakdown Int :=
  match integer? base text with
  | some value => .ok value
  | none => .error .badNumeral

def sexagesimalInt : List Int → Int
  | parts => parts.foldl (fun value part => value * 60 + part) 0

def intOf (text : List Char) : Except Breakdown Int :=
  let unsigned (negative : Bool) (digits : List Char) : Except Breakdown Int :=
    let signed := fun value : Int => if negative then -value else value
    match digits with
    | [] => .error .emptyNumeral
    | ['0'] => .ok 0
    | '0' :: 'b' :: bits => (numeral 2 bits).map signed
    | '0' :: 'x' :: hex => (numeral 16 hex).map signed
    | '0' :: _ => (numeral 8 digits).map signed
    | _ =>
        if digits.contains ':' then
          ((splitOn ':' digits).mapM (numeral 10)).map fun parts => signed (sexagesimalInt parts)
        else (numeral 10 digits).map signed
  match dropUnderscores text with
  | [] => .error .emptyNumeral
  | '-' :: digits => unsigned true digits
  | '+' :: digits => unsigned false digits
  | digits => unsigned false digits

-- The last part counts once, each one before it sixty times the next; `scale` grows beyond every
-- floating-point number when the parts are too many.
def sexagesimalFloat (origin : Nat) : List Binary64 → Nat → Binary64 → Except Breakdown Binary64
  | [], _, sum => .ok sum
  | part :: rest, scale, sum =>
      match Binary64.ofInt scale with
      | .finite n m e =>
          sexagesimalFloat origin rest (60 * scale)
            (Binary64.add origin sum (Binary64.mul origin part (.finite n m e)))
      | _ => .error .scaleTooLarge

def floatPart (origin : Nat) (text : List Char) : Except Breakdown Binary64 :=
  match float? origin text with
  | some value => .ok value
  | none => .error .badNumeral

def sharedNan : Binary64 := .nan 0

def floatOf (origin : Nat) (text : List Char) : Except Breakdown Binary64 :=
  let unsigned (negative : Bool) (digits : List Char) : Except Breakdown Binary64 :=
    let signed := fun value : Binary64 => if negative then value.neg else value
    if digits = ".inf".toList then .ok (.infinite negative)
    else if digits = ".nan".toList then .ok sharedNan
    else if digits.contains ':' then do
      let parts ← (splitOn ':' digits).mapM (floatPart (origin + 1))
      return signed (← sexagesimalFloat (origin + 1) parts.reverse 1 Binary64.zero)
    else (floatPart (origin + 1) digits).map signed
  match (dropUnderscores text).map lowerAscii with
  | [] => .error .emptyNumeral
  | '-' :: digits => unsigned true digits
  | '+' :: digits => unsigned false digits
  | digits => unsigned false digits

def boolOf (text : List Char) : Except Breakdown Bool :=
  let word := String.ofList (text.map lowerAscii)
  if ["yes", "true", "on"].contains word then .ok true
  else if ["no", "false", "off"].contains word then .ok false
  else .error .notATruthWord

def timestampOf (text : List Char) : Except Breakdown Scalar :=
  match written? text with
  | none => .error .notATimestamp
  | some written =>
      match written.date? with
      | none => .error .impossibleDate
      | some date =>
          match written.time with
          | none => .ok (.date date)
          | some time =>
              match time.on? date with
              | none => .error .impossibleDate
              | some dateTime => .ok (.dateTime dateTime)

def isAscii (point : CodePoint) : Bool := decide (point.code < 128)

def binaryOf (text : List CodePoint) : Except Cause (List UInt8) :=
  match CodePoint.firstUnencodable isAscii text with
  | some bad => .error (.notAscii bad)
  | none => (Base64.decode (text.map (·.toChar))).mapError Cause.badBase64

end LocaleLint.Yaml
