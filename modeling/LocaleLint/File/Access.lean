import LocaleLint.File.Path
import LocaleLint.File.Tree

set_option autoImplicit false

namespace LocaleLint

inductive AccessFailure
  | noSuchFile
  | notDirectory
  | isDirectory
  | tooManyLinks
  | nameTooLong
  | nulInPath
deriving Repr, DecidableEq, Inhabited

def AccessFailure.message : AccessFailure → String
  | .noSuchFile => "No such file or directory"
  | .notDirectory => "Not a directory"
  | .isDirectory => "Is a directory"
  | .tooManyLinks => "Too many levels of symbolic links"
  | .nameTooLong => "File name too long"
  | .nulInPath => "embedded null byte"

-- Failures that say that there is nothing under a path.
def AccessFailure.meansAbsent : AccessFailure → Bool
  | .noSuchFile | .notDirectory | .tooManyLinks | .nulInPath => true
  | .isDirectory | .nameTooLong => false

structure FileSystem where
  tree : Tree
  -- Where relative paths start; a place that no link leads to.
  workingDirectory : List String
deriving Inhabited

namespace FileSystem

def maxPartOctets : Nat := 255

def maxPathOctets : Nat := 4095

def maxLinks : Nat := 40

def isAbsoluteTarget (target : String) : Bool := target.toList.head? == some '/'

def startOf (target : String) (here : List String) : List String :=
  if isAbsoluteTarget target then [] else here

def walkWith (tree : Tree)
    (follow : List String → List String → Except AccessFailure (List String)) :
    List String → List String → Except AccessFailure (List String)
  | here, [] => .ok here
  | here, name :: rest =>
      match tree.find? here with
      | some (.directory entries) =>
          if !Path.isPart name then walkWith tree follow here rest
          else if name = ".." then walkWith tree follow here.dropLast rest
          else if maxPartOctets < name.utf8ByteSize then .error .nameTooLong
          else
            match entries.lookup name with
            | none => .error .noSuchFile
            | some (.link target) => follow (startOf target here) (Path.components target ++ rest)
            | some _ => walkWith tree follow (here ++ [name]) rest
      | some _ => .error .notDirectory
      | none => .error .noSuchFile

def walk (tree : Tree) : Nat → List String → List String → Except AccessFailure (List String)
  | 0 => walkWith tree fun _ _ => .error .tooManyLinks
  | links + 1 => walkWith tree (walk tree links)

def start (fs : FileSystem) (path : Path) : List String :=
  if path.isAbsolute then [] else fs.workingDirectory

def locate (fs : FileSystem) (path : Path) : Except AccessFailure (List String) :=
  if path.hasNul then .error .nulInPath
  else if maxPathOctets < path.toString.utf8ByteSize then .error .nameTooLong
  else walk fs.tree maxLinks (fs.start path) path.parts

def open? (fs : FileSystem) (path : Path) : Except AccessFailure Tree :=
  match fs.locate path with
  | .error failure => .error failure
  | .ok place =>
      match fs.tree.find? place with
      | some tree => .ok tree
      | none => .error .noSuchFile

def holds (fs : FileSystem) (path : Path) (kind : Tree → Bool) : Except AccessFailure Bool :=
  match fs.open? path with
  | .ok tree => .ok (kind tree)
  | .error failure =>
      if failure.meansAbsent then .ok false else .error failure

def isAny (_ : Tree) : Bool := true

def isFile : Tree → Bool
  | .file _ => true
  | _ => false

def isDirectory : Tree → Bool
  | .directory _ => true
  | _ => false

def read (fs : FileSystem) (path : Path) : Except AccessFailure (List UInt8) :=
  match fs.open? path with
  | .error failure => .error failure
  | .ok (.file octets) => .ok octets
  | .ok (.directory _) => .error .isDirectory
  | .ok (.link _) => .error .tooManyLinks

end FileSystem

end LocaleLint
