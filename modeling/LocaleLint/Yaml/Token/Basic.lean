import LocaleLint.Yaml.Position
import LocaleLint.Text.CodePoint

set_option autoImplicit false

namespace LocaleLint.Yaml

inductive Lexeme
  | streamStart
  | streamEnd
  | version (major minor : Nat)
  | tagHandle (handle expansion : String)
  | otherDirective
  | documentStart
  | documentEnd
  | blockSequenceStart
  | blockMappingStart
  | blockEnd
  | flowSequenceStart
  | flowSequenceEnd
  | flowMappingStart
  | flowMappingEnd
  | key
  | value
  | blockEntry
  | flowEntry
  | alias (name : String)
  | anchor (name : String)
  | tag (handle : Option String) (suffix : String)
  | scalar (text : List Text.CodePoint) (plain : Bool)
deriving Repr, DecidableEq, Inhabited

structure Token where
  lexeme : Lexeme
  start : Position
  stop : Position
deriving Repr, DecidableEq, Inhabited

def Lexeme.name : Lexeme → String
  | .streamStart => "<stream start>"
  | .streamEnd => "<stream end>"
  | .version _ _ | .tagHandle _ _ | .otherDirective => "<directive>"
  | .documentStart => "<document start>"
  | .documentEnd => "<document end>"
  | .blockSequenceStart => "<block sequence start>"
  | .blockMappingStart => "<block mapping start>"
  | .blockEnd => "<block end>"
  | .flowSequenceStart => "["
  | .flowSequenceEnd => "]"
  | .flowMappingStart => "\x7b"
  | .flowMappingEnd => "\x7d"
  | .key => "?"
  | .value => ":"
  | .blockEntry => "-"
  | .flowEntry => ","
  | .alias _ => "<alias>"
  | .anchor _ => "<anchor>"
  | .tag _ _ => "<tag>"
  | .scalar _ _ => "<scalar>"

/-- Items delivered in order, and what ended the delivery early. -/
structure Delivery (Item Stop : Type) where
  items : List Item
  stop : Option Stop
deriving Repr, Inhabited

end LocaleLint.Yaml
