import LocaleLint.Yaml.Node.Basic

set_option autoImplicit false

namespace LocaleLint.Yaml

/-- A collection that has started: what it holds so far, the last one first. -/
inductive Frame
  | sequence (id : NodeId) (items : List NodeId)
  | mapping (id : NodeId) (pairs : List (NodeId × NodeId)) (key : Option NodeId)
deriving Repr, Inhabited

structure Composition where
  nodes : Array Node
  anchors : List (String × NodeId)
  frames : List Frame
  root : Option NodeId
deriving Inhabited

namespace Composition

def empty : Composition := ⟨#[], [], [], none⟩

def attach (c : Composition) (id : NodeId) : Composition :=
  match c.frames with
  | [] => { c with root := some id }
  | .sequence owner items :: frames => { c with frames := .sequence owner (id :: items) :: frames }
  | .mapping owner pairs none :: frames =>
      { c with frames := .mapping owner pairs (some id) :: frames }
  | .mapping owner pairs (some key) :: frames =>
      { c with frames := .mapping owner ((key, id) :: pairs) none :: frames }

theorem nodes_attach (c : Composition) (id : NodeId) : (c.attach id).nodes = c.nodes := by
  unfold attach
  split <;> rfl

def finish (c : Composition) (id : NodeId) (content : Content) (frames : List Frame) :
    Composition :=
  attach
    { c with nodes := c.nodes.modify id fun node => { node with content := content }
             frames := frames }
    id

def close (c : Composition) : Composition :=
  match c.frames with
  | [] => c
  | .sequence id items :: frames => c.finish id (.sequence items.reverse) frames
  | .mapping id pairs _ :: frames => c.finish id (.mapping pairs.reverse) frames

def startOf (c : Composition) (id : NodeId) : Position := (c.nodes.getD id default).start

def add (c : Composition) (anchor : Option String) (node : Node) : Except Stop Composition :=
  let id := c.nodes.size
  match anchor with
  | none => .ok { c with nodes := c.nodes.push node }
  | some name =>
      match c.anchors.lookup name with
      | some first =>
          .error (.fault ⟨some (.anchorAgain name), some (c.startOf first), .secondAnchor,
            node.start⟩)
      | none =>
          .ok { c with nodes := c.nodes.push node, anchors := (name, id) :: c.anchors }

def tagOr (tag : Option String) (default : Tag) : Tag := (tag.map Tag.ofName).getD default

def addEvent (c : Composition) (event : Event) : Except Stop Composition :=
  let id := c.nodes.size
  match event.occurrence with
  | .alias name =>
      match c.anchors.lookup name with
      | some id => .ok (c.attach id)
      | none => .error (.fault ⟨none, none, .undefinedAlias name, event.start⟩)
  | .scalar anchor tag plain text => do
      let chosen := if plain then implicitTag (text.map (·.toChar)) else .str
      let c ← c.add anchor ⟨.scalar text, tagOr tag chosen, event.start⟩
      return c.attach id
  | .sequenceStart anchor tag => do
      let c ← c.add anchor ⟨.sequence [], tagOr tag .seq, event.start⟩
      return { c with frames := .sequence id [] :: c.frames }
  | .mappingStart anchor tag => do
      let c ← c.add anchor ⟨.mapping [], tagOr tag .map, event.start⟩
      return { c with frames := .mapping id [] none :: c.frames }
  | .sequenceEnd | .mappingEnd => .ok c.close
  | .streamEnd | .documentStart | .documentEnd => .ok c

def graph? (c : Composition) : Option Graph := c.root.map fun root => ⟨c.nodes, root⟩

def run (starved : Option Stop) : List Event → Composition → Except Stop (Option Graph)
  | [], c =>
      match starved with
      | some stop => .error stop
      | none => .ok c.graph?
  | event :: rest, c =>
      match event.occurrence, c.frames, c.root with
      | .documentStart, [], some root =>
          .error (.fault
            ⟨some .singleDocument, some (c.startOf root), .anotherDocument, event.start⟩)
      | _, _, _ =>
          match c.addEvent event with
          | .error stop => .error stop
          | .ok c => c.run starved rest

end Composition

def graphOf (events : Delivery Event Stop) : Except Stop (Option Graph) :=
  Composition.empty.run events.stop events.items

end LocaleLint.Yaml
