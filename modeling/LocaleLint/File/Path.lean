import LocaleLint.Text.Lines

set_option autoImplicit false

namespace LocaleLint

inductive Anchor
  | relative
  | root
  | doubleRoot
deriving Repr, DecidableEq, Inhabited

structure Path where
  anchor : Anchor
  parts : List String
deriving Repr, DecidableEq, Inhabited

def Path.components (text : String) : List String :=
  (Text.splitOn '/' text.toList).map String.ofList

namespace Path

def isPart (component : String) : Bool := component != "" && component != "."

def anchorOf : List Char → Anchor
  | '/' :: '/' :: '/' :: _ => .root
  | '/' :: '/' :: _ => .doubleRoot
  | '/' :: _ => .root
  | _ => .relative

def ofString (text : String) : Path := ⟨anchorOf text.toList, (components text).filter isPart⟩

def absolute (parts : List String) : Path := ⟨.root, parts⟩

def isAbsolute (path : Path) : Bool := path.anchor != .relative

def toString (path : Path) : String :=
  let joined := "/".intercalate path.parts
  match path.anchor with
  | .relative => if path.parts.isEmpty then "." else joined
  | .root => "/" ++ joined
  | .doubleRoot => "//" ++ joined

def join (path next : Path) : Path :=
  if next.isAbsolute then next else { path with parts := path.parts ++ next.parts }

def under (path : Path) (parts : List String) : Path := { path with parts := path.parts ++ parts }

def hasNul (path : Path) : Bool := path.parts.any fun part => part.toList.contains '\x00'

-- The end of a name from its last point, unless that point is first or last in it.
def suffix (name : String) : String :=
  let backwards := name.toList.reverse
  let tail := backwards.takeWhile (· != '.')
  if tail.isEmpty || backwards.length ≤ tail.length + 1 then ""
  else String.ofList ('.' :: tail.reverse)

end Path

end LocaleLint
