import LocaleLint.File.Access
import LocaleLint.Abort

set_option autoImplicit false

namespace LocaleLint.FileSystem

structure Resolution where
  place : List String
  complete : Bool
deriving Repr, DecidableEq, Inhabited

def append (here : List String) : List String → List String
  | [] => here
  | name :: rest =>
      if !Path.isPart name then append here rest
      else if name = ".." then append here.dropLast rest
      else append (here ++ [name]) rest

-- Resolves the parts that lie before the next link; `follow` resolves the target of a link, and
-- `pending` are the links whose targets are being resolved.
def resolveWith (tree : Tree)
    (follow : List (List String) → List String → List String → Resolution)
    (pending : List (List String)) : List String → List String → Resolution
  | here, [] => ⟨here, true⟩
  | here, name :: rest =>
      if !Path.isPart name then resolveWith tree follow pending here rest
      else if name = ".." then resolveWith tree follow pending here.dropLast rest
      else
        let place := here ++ [name]
        match tree.find? place with
        | some (.link target) =>
            if pending.contains place then ⟨append place rest, false⟩
            else
              let found := follow (place :: pending) (startOf target here) (Path.components target)
              if found.complete then resolveWith tree follow pending found.place rest
              else ⟨append found.place rest, false⟩
        | _ => resolveWith tree follow pending place rest

def resolveFrom (tree : Tree) : Nat → List (List String) → List String → List String → Resolution
  | 0 => resolveWith tree fun _ here rest => ⟨append here rest, false⟩
  | depth + 1 => resolveWith tree (resolveFrom tree depth)

def resolve (fs : FileSystem) (path : Path) : Except Abort (List String) :=
  if path.hasNul then .error (.inaccessible .nulInPath)
  else
    let place := (resolveFrom fs.tree fs.tree.linkCount [] (fs.start path) path.parts).place
    match fs.locate (.absolute place) with
    | .error .tooManyLinks => .error .linkLoop
    | _ => .ok place

end LocaleLint.FileSystem
