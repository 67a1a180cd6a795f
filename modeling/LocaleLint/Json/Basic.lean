import LocaleLint.Text.Quoted

set_option autoImplicit false

namespace LocaleLint

inductive Json
  | null
  | int (value : Int)
  | string (text : String)
  | list (items : List Json)
  | object (fields : List (String × Json))
deriving Repr, Inhabited

namespace Json

def escape (c : Char) : List Char :=
  if c = '"' then ['\\', '"']
  else if c = '\\' then ['\\', '\\']
  else if c = '\x08' then ['\\', 'b']
  else if c = '\t' then ['\\', 't']
  else if c = '\n' then ['\\', 'n']
  else if c = '\x0c' then ['\\', 'f']
  else if c = '\r' then ['\\', 'r']
  else if c < ' ' then '\\' :: 'u' :: Text.hexDigits 4 c.toNat
  else [c]

def quote (text : String) : List Char := '"' :: text.toList.flatMap escape ++ ['"']

def newLine (depth : Nat) : List Char := '\n' :: List.replicate (2 * depth) ' '

mutual

-- The written form of a value that stands `depth` levels in.
def writeFrom (depth : Nat) : Json → List Char
  | .null => ['n', 'u', 'l', 'l']
  | .int value => (toString value).toList
  | .string text => quote text
  | .list [] => ['[', ']']
  | .list (item :: items) =>
      '[' :: newLine (depth + 1) ++ writeFrom (depth + 1) item ++ writeItems (depth + 1) items ++
        newLine depth ++ [']']
  | .object [] => ['\x7b', '\x7d']
  | .object ((name, value) :: fields) =>
      '\x7b' :: newLine (depth + 1) ++ quote name ++ [':', ' '] ++ writeFrom (depth + 1) value ++
        writeFields (depth + 1) fields ++ newLine depth ++ ['\x7d']

def writeItems (depth : Nat) : List Json → List Char
  | [] => []
  | item :: items => ',' :: newLine depth ++ writeFrom depth item ++ writeItems depth items

def writeFields (depth : Nat) : List (String × Json) → List Char
  | [] => []
  | (name, value) :: fields =>
      ',' :: newLine depth ++ quote name ++ [':', ' '] ++ writeFrom depth value ++
        writeFields depth fields

end

def write (value : Json) : String := String.ofList (writeFrom 0 value)

def ofOption {α : Type} (write : α → Json) : Option α → Json
  | none => .null
  | some value => write value

end Json

end LocaleLint
