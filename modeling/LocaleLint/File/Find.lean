import LocaleLint.File.Access
import LocaleLint.Abort
import LocaleLint.Extension

set_option autoImplicit false

namespace LocaleLint

inductive FindFailure
  | directoryMissing (root : Path)
  | aborted (abort : Abort)
deriving DecidableEq

def FindFailure.directoryMissingMessage (root : Path) : String :=
  "Directory not found: " ++ root.toString

namespace FileSystem

-- Whether the parts of one path come before those of another, compared character by character.
def precedes : List String → List String → Bool
  | [], _ => true
  | _ :: _, [] => false
  | a :: as, b :: bs => decide (a < b) || (a == b && precedes as bs)

def isWanted (suffixes : List String) (parts : List String) : Bool :=
  suffixes.contains (Path.suffix (parts.getLast?.getD ""))

def keepFiles (fs : FileSystem) (root : Path) :
    List (List String) → Except AccessFailure (List (List String))
  | [] => .ok []
  | parts :: rest =>
      match fs.holds (root.under parts) isFile with
      | .error failure => .error failure
      | .ok isOne =>
          match keepFiles fs root rest with
          | .error failure => .error failure
          | .ok kept => .ok (if isOne then parts :: kept else kept)

def findFiles (fs : FileSystem) (root : Path) (extensions : List String) :
    Except FindFailure (List Path) :=
  match fs.open? root with
  | .error failure =>
      if failure.meansAbsent then .error (.directoryMissing root)
      else .error (.aborted (.inaccessible failure))
  | .ok tree =>
      if !isDirectory tree then .error (.directoryMissing root)
      else
        match keepFiles fs root tree.places with
        | .error failure => .error (.aborted (.inaccessible failure))
        | .ok places =>
            let wanted := places.filter (isWanted (extensions.map Extension.suffix))
            .ok ((wanted.mergeSort precedes).map root.under)

end FileSystem

end LocaleLint
