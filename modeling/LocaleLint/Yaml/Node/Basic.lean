import LocaleLint.Yaml.Node.Tag
import LocaleLint.Yaml.Event.Stream

set_option autoImplicit false

namespace LocaleLint.Yaml

abbrev NodeId := Nat

inductive Content
  | scalar (text : List Text.CodePoint)
  | sequence (items : List NodeId)
  | mapping (pairs : List (NodeId × NodeId))
deriving Repr, DecidableEq, Inhabited

structure Node where
  content : Content
  tag : Tag
  start : Position
deriving Repr, DecidableEq, Inhabited

def Content.kind : Content → NodeKind
  | .scalar _ => .scalar
  | .sequence _ => .sequence
  | .mapping _ => .mapping

def Node.kind (node : Node) : NodeKind := node.content.kind

def Node.isCollection (node : Node) : Bool := node.kind != .scalar

def Node.pairs (node : Node) : List (NodeId × NodeId) :=
  match node.content with
  | .mapping pairs => pairs
  | _ => []

structure Graph where
  nodes : Array Node
  root : NodeId
deriving Repr, DecidableEq, Inhabited

def Graph.node (graph : Graph) (id : NodeId) : Node := graph.nodes.getD id default

-- The nodes that a node holds.
def Content.children : Content → List NodeId
  | .scalar _ => []
  | .sequence items => items
  | .mapping pairs => pairs.flatMap fun pair => [pair.1, pair.2]

end LocaleLint.Yaml
