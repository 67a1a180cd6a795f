import LocaleLint.Config.Basic
import LocaleLint.File.Resolve
import LocaleLint.Strict

set_option autoImplicit false

namespace LocaleLint

open LocaleLint.Yaml

def configName : String := "transval.yaml"

inductive ConfigFailure
  | rejected (rejection : Rejection)
  | invalid (issues : List Issue)
  | aborted (abort : Abort)
deriving DecidableEq

def Config.ofText (order : Field.SetOrder) (text filename : String) : Except ConfigFailure Config :=
  match (Strict.parse Lenient.parser text (some filename)).outcome with
  | .error (.rejected r) => .error (.rejected r)
  | .error (.aborted abort) => .error (.aborted abort)
  | .ok (.scalar .null) => .ok .default
  | .ok value => (Config.ofValue order value).mapError .invalid

namespace FileSystem

def hasConfig (fs : FileSystem) (directory : List String) : Except AccessFailure Bool :=
  fs.holds (.absolute (directory ++ [configName])) isAny

-- The parts of a place, the last first; the top of the tree is never the root of a project.
def nearestRoot (fs : FileSystem) : List String → Except AccessFailure (Option (List String))
  | [] => .ok none
  | name :: above =>
      match fs.hasConfig (name :: above).reverse with
      | .error failure => .error failure
      | .ok true => .ok (some (name :: above).reverse)
      | .ok false => fs.nearestRoot above

def parentIfFile (fs : FileSystem) (place : List String) : Except AccessFailure (List String) :=
  (fs.holds (.absolute place) isFile).map fun isOne => if isOne then place.dropLast else place

def projectRootFrom (fs : FileSystem) (place : List String) : Except AccessFailure (List String) :=
  match fs.parentIfFile place with
  | .error failure => .error failure
  | .ok directory =>
      (fs.nearestRoot directory.reverse).map fun found => found.getD fs.workingDirectory

def projectRoot (fs : FileSystem) (start : Path) : Except Abort (List String) :=
  match fs.resolve start with
  | .error abort => .error abort
  | .ok place => (fs.projectRootFrom place).mapError .inaccessible

def decodeConfig (octets : List UInt8) : Except Abort String :=
  match Encoding.Utf8.decode octets with
  | .ok text => .ok (String.ofList (Text.unifyLineEnds text))
  | .error _ => .error .notUtf8

def loadConfig (order : Field.SetOrder) (fs : FileSystem) (root : Path) :
    Except ConfigFailure Config :=
  let path := root.under [configName]
  match fs.holds path isAny with
  | .error failure => .error (.aborted (.inaccessible failure))
  | .ok false => .ok .default
  | .ok true =>
      match fs.read path with
      | .error failure => .error (.aborted (.inaccessible failure))
      | .ok octets =>
          match decodeConfig octets with
          | .error abort => .error (.aborted abort)
          | .ok text => Config.ofText order text path.toString

end FileSystem

end LocaleLint
