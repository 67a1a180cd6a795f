import LocaleLint.Record.Issue
import LocaleLint.Encoding.Utf8
import LocaleLint.Yaml.Value.Basic
import LocaleLint.Number.Numeral

set_option autoImplicit false

namespace LocaleLint.Field

open LocaleLint.Yaml LocaleLint.Number

open LocaleLint.Text (CodePoint)

/-- In which order a set gives its elements: nothing is said but that it gives each of them. -/
structure SetOrder where
  arrange : List Scalar → List Scalar
  arrange_perm (elements : List Scalar) : (arrange elements).Perm elements

def SetOrder.asWritten : SetOrder := ⟨id, fun elements => .refl elements⟩

def points : Value → Except Defect (List CodePoint)
  | .scalar (.string s) => .ok (CodePoint.ofString s)
  | .scalar (.halved points) => .ok points
  | .scalar (.bytes octets) =>
      match Encoding.Utf8.decode octets with
      | .ok chars => .ok (chars.map .char)
      | .error _ => .error .notUnicode
  | _ => .error .notText

-- A text without halves of surrogate pairs.
def text (value : Value) : Except Defect String :=
  match points value with
  | .error defect => .error defect
  | .ok points =>
      match CodePoint.whole? points with
      | some chars => .ok (String.ofList chars)
      | none => .error .notUnicode

def kind (value : Value) : Except Defect Kind :=
  match text value with
  | .ok name =>
      match Kind.ofName? name with
      | some kind => .ok kind
      | none => .error .notAKind
  | .error _ => .error .notAKind

def dropZeros (last : Char) : List Char → List Char
  | [] => [last]
  | c :: rest =>
      if c = '0' ∨ c = '_' then dropZeros c rest
      else if c = '.' then last :: c :: rest
      else c :: rest

def leadingZeros : List Char → List Char
  | '0' :: rest => dropZeros '0' rest
  | numeral => numeral

def dropFraction (numeral : List Char) : List Char :=
  match numeral.dropWhile (· != '.') with
  | _ :: '0' :: fraction =>
    if fraction.all (· == '0') then numeral.takeWhile (· != '.') else numeral
  | _ => numeral

def hasDoubled (mark : Char) : List Char → Bool
  | a :: b :: rest => (a == mark && b == mark) || hasDoubled mark (b :: rest)
  | _ => false

def dropUnderscores (numeral : List Char) : List Char :=
  if numeral.head? = some '_' ∨ numeral.getLast? = some '_' ∨ hasDoubled '_' numeral then numeral
  else numeral.filter (· != '_')

def maxIntegerLength : Nat := 4300

def leadingDigits : List Char → List Char
  | '-' :: rest => '-' :: rest.takeWhile Text.isAsciiDigit
  | text => text.takeWhile Text.isAsciiDigit

def hasSpareZero : List Char → Bool
  | '0' :: _ :: _ => true
  | _ => false

def startsTooLong (text : List Char) : Bool :=
  let leading := leadingDigits text
  decide (maxIntegerLength < leading.length) && !hasSpareZero (leading.dropWhile (· == '-'))

def plainInteger? (text : List Char) : Option Int :=
  let unsigned (negative : Bool) (digits : List Char) : Option Int :=
    if digits.isEmpty || !digits.all Text.isAsciiDigit || hasSpareZero digits ||
        decide (maxIntegerLength < text.length) then none
    else some (Binary64.signed negative (decimalDigits digits))
  match text with
  | '-' :: digits => unsigned true digits
  | digits => unsigned false digits

def tidied (numeral : List Char) : Option (List Char) :=
  if (numeral.head?.map Text.isAsciiDigit).getD false then
    some (dropUnderscores (dropFraction (leadingZeros numeral)))
  else none

def integerOfText (written : List Char) : Except Defect Int :=
  if startsTooLong written then .error .tooLarge
  else
    let tidy := match Text.strip Text.isWhite written with
      | '+' :: rest => tidied rest
      | '-' :: rest => (tidied rest).map ('-' :: ·)
      | rest => tidied rest
    match tidy.bind plainInteger? with
    | some i => .ok i
    | none => .error .notANumeral

def wordLimit : Int := 9223372036854775808

def wholeOfFloat (x : Binary64) : Except Defect Int :=
  match x with
  | .finite _ _ _ =>
      match x.toInt? with
      | none => .error .fractional
      | some i => if -wordLimit < i ∧ i < wordLimit then .ok i else .error .tooLarge
  | _ => .error .notFinite

def integer : Value → Except Defect Int
  | .scalar (.int i) => .ok i
  | .scalar (.bool b) => .ok (if b then 1 else 0)
  | .scalar (.float x) => wholeOfFloat x
  | .scalar (.string s) => integerOfText s.toList
  | .scalar (.halved _) => .error .notUnicode
  | .scalar (.bytes octets) =>
      match Encoding.Utf8.decode octets with
      | .ok chars => integerOfText chars
      | .error _ => .error .notANumeral
  | _ => .error .notInteger

def trueWords : List String := ["1", "t", "y", "on", "yes", "true"]

def falseWords : List String := ["0", "f", "n", "no", "off", "false"]

def truthOfText (word : List Char) : Except Defect Bool :=
  let word := String.ofList (word.map lowerAscii)
  if trueWords.contains word then .ok true
  else if falseWords.contains word then .ok false
  else .error .notATruthWord

def truthOfInt (i : Int) : Except Defect Bool :=
  if i = 0 then .ok false
  else if i = 1 then .ok true
  else if -wordLimit ≤ i ∧ i < wordLimit then .error .notATruthWord
  else .error .notTruth

def truth : Value → Except Defect Bool
  | .scalar (.bool b) => .ok b
  | .scalar (.int i) => truthOfInt i
  | .scalar (.float x) =>
      match wholeOfFloat x with
      | .ok i => truthOfInt i
      | .error _ => .error .notTruth
  | .scalar (.string s) => truthOfText s.toList
  | .scalar (.halved _) => .error .notUnicode
  | .scalar (.bytes octets) =>
      match Encoding.Utf8.decode octets with
      | .ok chars => truthOfText chars
      | .error _ => .error .notATruthWord
  | _ => .error .notTruth

def list (order : SetOrder) : Value → Except Defect (List Value)
  | .list items => .ok items
  | .set elements => .ok ((order.arrange elements).map .scalar)
  | .pair key value => .ok [key, value]
  | _ => .error .notList

def texts (order : SetOrder) (value : Value) : Checked (List (List CodePoint)) :=
  match list order value with
  | .error defect => .error [⟨[], defect⟩]
  | .ok items => Checked.items (fun item => Checked.ofDefect (points item)) 0 items

def optional {α : Type} (read : Value → Except Defect α) : Value → Except Defect (Option α)
  | .scalar .null => .ok none
  | value => (read value).map some

def find? (entries : List (Scalar × Value)) (name : String) : Option Value :=
  (entries.find? fun entry => entry.1 == .string name).map (·.2)

def required {α : Type} (entries : List (Scalar × Value)) (name : String)
    (read : Value → Checked α) : Checked α :=
  Checked.inside name
    (match find? entries name with
      | some value => read value
      | none => .error [⟨[], .missing⟩])

def withDefault {α : Type} (entries : List (Scalar × Value)) (name : String) (default : α)
    (read : Value → Checked α) : Checked α :=
  match find? entries name with
  | some value => Checked.inside name (read value)
  | none => .ok default

end LocaleLint.Field
