import LocaleLint.Yaml.Token.Basic

set_option autoImplicit false

namespace LocaleLint.Yaml

inductive Occurrence
  | streamEnd
  | documentStart
  | documentEnd
  | alias (name : String)
  | scalar (anchor tag : Option String) (plain : Bool) (text : List Text.CodePoint)
  | sequenceStart (anchor tag : Option String)
  | sequenceEnd
  | mappingStart (anchor tag : Option String)
  | mappingEnd
deriving Repr, DecidableEq, Inhabited

structure Event where
  occurrence : Occurrence
  start : Position
deriving Repr, DecidableEq, Inhabited

end LocaleLint.Yaml
