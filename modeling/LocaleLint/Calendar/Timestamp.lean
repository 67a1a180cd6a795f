import LocaleLint.Calendar.Basic
import LocaleLint.Text.DecimalDigit

set_option autoImplicit false

namespace LocaleLint.Calendar

open LocaleLint.Text

def digits (text : List Char) : Nat :=
  text.foldl (fun value c => 10 * value + (c.toNat - '0'.toNat)) 0

def digitRun (least most : Nat) (text : List Char) : Option (List Char × List Char) :=
  let run := (text.take most).takeWhile isAsciiDigit
  if run.length < least then none else some (run, text.drop run.length)

def skipChar (c : Char) : List Char → Option (List Char)
  | d :: rest => if c = d then some rest else none
  | [] => none

structure WrittenTime where
  hour : Nat
  minute : Nat
  second : Nat
  fraction : List Char
  -- Minutes from universal time.
  offset : Option Int
deriving Repr, DecidableEq, Inhabited

structure Written where
  year : Nat
  month : List Char
  day : List Char
  time : Option WrittenTime
deriving Repr, DecidableEq, Inhabited

def isBlank (c : Char) : Bool := c == ' ' || c == '\t'

def skipTimeMark (text : List Char) : Option (List Char) :=
  match text with
  | c :: rest =>
      if c == 'T' || c == 't' then some rest
      else if isBlank c then some (rest.dropWhile isBlank)
      else none
  | [] => none

def writtenOffset (text : List Char) : Option (Option Int) :=
  match text with
  | [] => some none
  | _ =>
      match text.dropWhile isBlank with
      | ['Z'] => some (some 0)
      | sign :: rest => do
          if !(sign == '+' || sign == '-') then none
          let (hours, rest) ← digitRun 1 2 rest
          let minutes ← (match rest with
            | [] => some []
            | _ => do
                let (minutes, rest) ← digitRun 2 2 (← skipChar ':' rest)
                if rest.isEmpty then some minutes else none)
          let total : Int := digits hours * 60 + digits minutes
          return some (if sign == '-' then -total else total)
      | [] => none

def writtenTime (text : List Char) : Option WrittenTime := do
  let (hour, rest) ← digitRun 1 2 text
  let (minute, rest) ← digitRun 2 2 (← skipChar ':' rest)
  let (second, rest) ← digitRun 2 2 (← skipChar ':' rest)
  let (fraction, rest) := match rest with
    | '.' :: rest => (rest.takeWhile isAsciiDigit, rest.dropWhile isAsciiDigit)
    | rest => ([], rest)
  return ⟨digits hour, digits minute, digits second, fraction, ← writtenOffset rest⟩

def dropFinalLineFeed (text : List Char) : List Char :=
  if text.getLast? = some '\n' then text.dropLast else text

def writtenWhole? (text : List Char) : Option Written := do
  let (year, rest) ← digitRun 4 4 text
  let (month, rest) ← digitRun 1 2 (← skipChar '-' rest)
  let (day, rest) ← digitRun 1 2 (← skipChar '-' rest)
  match rest with
  | [] => return ⟨digits year, month, day, none⟩
  | _ => return ⟨digits year, month, day, some (← writtenTime (← skipTimeMark rest))⟩

def written? (text : List Char) : Option Written := writtenWhole? (dropFinalLineFeed text)

def Written.isPlain (w : Written) : Bool :=
  w.time.isSome || (w.month.length == 2 && w.day.length == 2)

def microseconds (fraction : List Char) : Nat :=
  let kept := fraction.take 6
  digits kept * Nat.pow 10 (6 - kept.length)

def Written.date? (w : Written) : Option Date :=
  Calendar.date? w.year (digits w.month) (digits w.day)

def WrittenTime.on? (t : WrittenTime) (date : Date) : Option DateTime :=
  dateTime? date t.hour t.minute t.second (microseconds t.fraction) t.offset

end LocaleLint.Calendar
