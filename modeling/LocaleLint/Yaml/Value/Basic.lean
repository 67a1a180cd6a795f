import LocaleLint.Number.Shortest
import LocaleLint.Number.Written
import LocaleLint.Calendar.Basic
import LocaleLint.Text.CodePoint

set_option autoImplicit false

namespace LocaleLint.Yaml

open LocaleLint.Number LocaleLint.Calendar

inductive Scalar
  | null
  | bool (value : Bool)
  | int (value : Int)
  | float (value : Binary64)
  | string (value : String)
  -- A text with halves of surrogate pairs.
  | halved (points : List Text.CodePoint)
  | bytes (value : List UInt8)
  | date (value : Date)
  | dateTime (value : DateTime)
deriving Repr, DecidableEq, Inhabited

inductive Value
  | scalar (value : Scalar)
  | list (items : List Value)
  | map (entries : List (Scalar × Value))
  | set (elements : List Scalar)
  | pair (key value : Value)
  -- A collection that is filled when everything around it has been read, by its node.
  | unfilled (node : Nat)
deriving Repr, Inhabited

namespace Scalar

def asInt? : Scalar → Option Int
  | .bool value => some (if value then 1 else 0)
  | .int value => some value
  | _ => none

def same (a b : Scalar) : Bool :=
  match a.asInt?, b.asInt? with
  | some i, some j => i == j
  | some i, none => match b with | .float y => y.sameAsInt i | _ => false
  | none, some j => match a with | .float x => x.sameAsInt j | _ => false
  | none, none =>
      match a, b with
      | .null, .null => true
      | .float x, .float y => x.same y
      | .string s, .string t => s == t
      | .halved s, .halved t => s == t
      | .bytes s, .bytes t => s == t
      | .date d, .date e => d == e
      | .dateTime t, .dateTime u => t.same u
      | _, _ => false

theorem same_symm (a b : Scalar) : a.same b = b.same a := by
  cases a <;> cases b <;>
    simp [same, asInt?, Bool.beq_comm, Binary64.same_symm, DateTime.same_symm]

def ofPoints (points : List Text.CodePoint) : Scalar :=
  match Text.CodePoint.whole? points with
  | some text => .string (String.ofList text)
  | none => .halved points

theorem ofPoints_map_char (text : List Char) :
    ofPoints (text.map .char) = .string (String.ofList text) := by
  simp [ofPoints, Text.CodePoint.whole?_map_char]

def isHalved : Scalar → Bool
  | .halved _ => true
  | _ => false

def text : Scalar → String
  | .null => "None"
  | .bool value => if value then "True" else "False"
  | .int value => toString value
  | .float value => value.text
  | .string value => value
  | .halved points => String.ofList (Text.CodePoint.joined points)
  | .bytes value => Text.quotedBytes value
  | .date value => value.text
  | .dateTime value => value.text " "

def isWritable : Scalar → Bool
  | .int value => Number.isWritable value
  | _ => true

def escapedText : Scalar → String
  | .halved points => String.ofList (Text.CodePoint.escaped points)
  | key => key.text

end Scalar

def putEntry (entries : List (Scalar × Value)) (key : Scalar) (value : Value) :
    List (Scalar × Value) :=
  match entries with
  | [] => [(key, value)]
  | (k, v) :: rest =>
      if k.same key then (k, value) :: rest else (k, v) :: putEntry rest key value

def Value.key? : Value → Option Scalar
  | .scalar value => some value
  | _ => none

end LocaleLint.Yaml
