import LocaleLint.Interception
import LocaleLint.Yaml.Value.Scalar
import LocaleLint.Yaml.Node.Basic

set_option autoImplicit false

namespace LocaleLint.Yaml

structure Memory where
  nodes : Array Node
  -- Merging goes no deeper than the document has pairs: each step inwards takes one of them away.
  pairCount : Nat
  built : Array (Option Value)
  underway : List NodeId
  deferred : List NodeId
  filled : List (NodeId × Value)
  channel : Channel
  -- Those that the channel let through, the last one first.
  duplicates : List DuplicateKey
deriving Inhabited

inductive Halt
  | stop (stop : Stop)
  | raised (rejection : Rejection)
deriving DecidableEq

abbrev Build := ExceptT Halt (StateM Memory)

namespace Build

def node (id : NodeId) : Build Node := return (← get).nodes.getD id default

def pairsOf (id : NodeId) : Build (List (NodeId × NodeId)) := return (← node id).pairs

def tagOf (id : NodeId) : Build Tag := return (← node id).tag

def setPairs (id : NodeId) (pairs : List (NodeId × NodeId)) : Build Unit :=
  modify fun m =>
    { m with nodes := m.nodes.modify id fun node => { node with content := .mapping pairs } }

def halt {α : Type} (stop : Stop) : Build α := throw (.stop stop)

def fail {α : Type} (cause : Cause) (place : Position) : Build α :=
  halt (.fault ⟨none, none, cause, place⟩)

def failIn {α : Type} (activity : Activity) (since : Position) (cause : Cause) (place : Position) :
    Build α :=
  halt (.fault ⟨some activity, some since, cause, place⟩)

def breakdown {α : Type} (b : Breakdown) : Build α := halt (.breakdown b)

def attempt {α : Type} (result : Except Stop α) : Build α :=
  match result with
  | .ok value => return value
  | .error stop => halt stop

def demand (holds : Bool) (stop : Stop) : Build Unit := if holds then return () else halt stop

def takeMerge? {α β : Type} (isMerge : α → Bool) : List (α × β) → Option (β × List (α × β))
  | [] => none
  | (key, value) :: rest =>
      if isMerge key then some (value, rest)
      else (takeMerge? isMerge rest).map fun (source, others) => (source, (key, value) :: others)

def hasTag (nodes : Array Node) (tag : Tag) (id : NodeId) : Bool :=
  (nodes.getD id default).tag == tag

def plainValueKeys (pairs : List (NodeId × NodeId)) : Build Unit :=
  modify fun m =>
    { m with
      nodes := pairs.foldl
        (fun nodes pair =>
          if hasTag nodes .value pair.1 then
            nodes.modify pair.1 fun node => { node with tag := .str }
          else nodes)
        m.nodes }

def noMergeSource (start : Position) (item : Node) : Stop :=
  .fault ⟨some .mappingValue, some start, .mergeSourceExpected item.kind, item.start⟩

def listedPairs (flattenNode : NodeId → Build Unit) (start : Position) :
    List NodeId → Build (List (List (NodeId × NodeId)))
  | [] => return []
  | item :: rest => do
      let itemNode ← node item
      demand (itemNode.kind == .mapping) (noMergeSource start itemNode)
      flattenNode item
      let pairs ← pairsOf item
      return pairs :: (← listedPairs flattenNode start rest)

def sourcePairs (flattenNode : NodeId → Build Unit) (start : Position) (source : NodeId) :
    Build (List (NodeId × NodeId)) := do
  let sourceNode ← node source
  match sourceNode.content with
  | .mapping _ =>
      flattenNode source
      pairsOf source
  | .sequence items => return (← listedPairs flattenNode start items).reverse.flatten
  | .scalar _ => failIn .mappingValue start (.mergeSourcesExpected .scalar) sourceNode.start

def absorb (flattenNode : NodeId → Build Unit) (id : NodeId) :
    Nat → List (NodeId × NodeId) → Build Unit
  | 0, _ => return ()
  | fuel + 1, merged => do
      let nodes := (← get).nodes
      let pairs ← pairsOf id
      match takeMerge? (hasTag nodes .merge) pairs with
      | some (source, others) =>
          setPairs id others
          let more ← sourcePairs flattenNode (← node id).start source
          absorb flattenNode id fuel (merged ++ more)
      | none =>
          plainValueKeys pairs
          if !merged.isEmpty then setPairs id (merged ++ pairs)

def flatten : Nat → NodeId → Build Unit
  | 0, _ => return ()
  | fuel + 1, id => absorb (flatten fuel) id (fuel + 1) []

def scalarText : Nat → NodeId → Build (List Text.CodePoint)
  | 0, _ => breakdown .endlessDefault
  | fuel + 1, id => do
      let current ← node id
      match current.content with
      | .scalar text => return text
      | .sequence _ => fail (.scalarExpected .sequence) current.start
      | .mapping pairs =>
          let nodes := (← get).nodes
          match pairs.find? fun pair => hasTag nodes .value pair.1 with
          | some (_, default) => scalarText fuel default
          | none => fail (.scalarExpected .mapping) current.start

def announce (path : List String) (key : Scalar) (place : Position) : Build Unit := do
  let found : DuplicateKey :=
    ⟨key, ".".intercalate (key.text :: path).reverse, some (place.line + 1),
      some (place.column + 1)⟩
  match (← get).channel.deliver (.duplicateKey found) with
  | .raised rejection => throw (.raised rejection)
  | .delivered _ => modify fun m => { m with duplicates := found :: m.duplicates }

abbrev NodeBuilder := List String → NodeId → Build Value

def announceIf (again : Bool) (path : List String) (key : Scalar) (place : Position) : Build Unit :=
  if again then announce path key place else return ()

def hashable (start place : Position) (value : Value) : Build Scalar :=
  match value.key? with
  | some key => return key
  | none => failIn .mappingValue start .unhashableKey place

def entriesFrom (build : NodeBuilder) (path : List String) (start : Position) :
    List (NodeId × NodeId) → (merged : Nat) → (seen : List Scalar) → List (Scalar × Value) →
      Build (List (Scalar × Value))
  | [], _, _, entries => return entries
  | (keyId, valueId) :: rest, merged, seen, entries => do
      let place := (← node keyId).start
      let key ← hashable start place (← build path keyId)
      let again := merged == 0 && seen.any (·.same key)
      let leadsOn := (← node valueId).isCollection
      demand (!(again || leadsOn) || key.isWritable) (.breakdown .keyTooLong)
      announceIf again path key place
      let value ← build (if leadsOn then key.text :: path else path) valueId
      entriesFrom build path start rest (merged - 1) (if merged == 0 then key :: seen else seen)
        (putEntry entries key value)

def mappingEntries (build : NodeBuilder) (path : List String) (id : NodeId) :
    Build (List (Scalar × Value)) := do
  let current ← node id
  match current.content with
  | .scalar text => if text.isEmpty then return [] else breakdown .mappingOfText
  | .sequence items => if items.isEmpty then return [] else breakdown .mappingOfSequence
  | .mapping pairs =>
      let m ← get
      let own := (pairs.filter fun pair => !hasTag m.nodes .merge pair.1).length
      flatten (m.pairCount + m.nodes.size + 1) id
      let pairs ← pairsOf id
      entriesFrom build path current.start pairs (pairs.length - own) [] []

def itemsFrom (build : NodeBuilder) (path : List String) : List NodeId → Nat → Build (List Value)
  | [], _ => return []
  | item :: rest, index => do
      let value ← build (toString index :: path) item
      return value :: (← itemsFrom build path rest (index + 1))

def sequenceItems (build : NodeBuilder) (path : List String) (id : NodeId) :
    Build (List Value) := do
  match (← node id).content with
  | .sequence items => itemsFrom build path items 0
  | .scalar text => if text.isEmpty then return [] else breakdown .sequenceOfAnotherKind
  | .mapping pairs => if pairs.isEmpty then return [] else breakdown .sequenceOfAnotherKind

def pairFrom (build : NodeBuilder) (path : List String) (activity : Activity) (start : Position)
    (id : NodeId) : Build Value := do
  let current ← node id
  match current.content with
  | .mapping [(key, value)] =>
      let key ← build path key
      return .pair key (← build path value)
  | .mapping pairs => failIn activity start (.itemsExpected pairs.length) current.start
  | content => failIn activity start (.singlePairExpected content.kind) current.start

def pairList (build : NodeBuilder) (path : List String) (activity : Activity) (id : NodeId) :
    Build (List Value) := do
  let current ← node id
  match current.content with
  | .sequence items => items.mapM (pairFrom build path activity current.start)
  | content => failIn activity current.start (.sequenceExpected content.kind) current.start

def fill (build : NodeBuilder) (path : List String) (id : NodeId) : Build Value := do
  match ← tagOf id with
  | .orderedMap => return .list (← pairList build path .orderedMap id)
  | .pairs => return .list (← pairList build path .pairs id)
  | _ => return .set ((← mappingEntries build path id).map (·.1))

def scalarOf (id : NodeId) (start : Position) (tag : Tag) (text : List Text.CodePoint) :
    Except Stop Scalar :=
  let chars := text.map (·.toChar)
  match tag with
  | .null => .ok .null
  | .bool => ((boolOf chars).map .bool).mapError .breakdown
  | .int => ((intOf chars).map .int).mapError .breakdown
  | .float => ((floatOf id chars).map .float).mapError .breakdown
  | .binary => ((binaryOf text).map .bytes).mapError fun cause => .fault ⟨none, none, cause, start⟩
  | .timestamp => (timestampOf chars).mapError .breakdown
  | _ => .ok (.ofPoints text)

def scalarValue (id : NodeId) (tag : Tag) : Build Value := do
  let current ← node id
  let text ← scalarText ((← get).nodes.size + 1) id
  -- The text of a default does not count as written.
  demand (!(tag == .timestamp && current.isCollection)) (.breakdown .timestampOfCollection)
  return .scalar (← attempt (scalarOf id current.start tag text))

def defer (id : NodeId) : Build Value := do
  modify fun m => { m with deferred := m.deferred ++ [id] }
  return .unfilled id

def valueOf (build : Bool → NodeBuilder) (deep : Bool) (path : List String) (id : NodeId) :
    Build Value := do
  let current ← node id
  match current.tag with
  | .map => return .map (← mappingEntries (build true) path id)
  | .seq => return .list (← sequenceItems (build true) path id)
  | .orderedMap | .pairs | .set => if deep then fill (build deep) path id else defer id
  | .merge | .value | .other _ => fail (.unknownTag current.tag.name) current.start
  | tag => scalarValue id tag

def remembered (id : NodeId) : Build (Option Value) := return ((← get).built.getD id none)

def enter (id : NodeId) : Build Unit := do
  if (← get).underway.contains id then fail .recursiveNode (← node id).start
  else modify fun m => { m with underway := id :: m.underway }

def leave (id : NodeId) (value : Value) : Build Unit :=
  modify fun m =>
    { m with built := m.built.setIfInBounds id (some value), underway := m.underway.erase id }

def object : Nat → Bool → NodeBuilder
  | 0, _, _, _ => return .scalar .null
  | fuel + 1, deep, path, id => do
      match ← remembered id with
      | some value => return value
      | none => do
          enter id
          let value ← valueOf (object fuel) deep path id
          leave id value
          return value

def fillDeferred (build : Bool → NodeBuilder) : Nat → Build Unit
  | 0 => return ()
  | fuel + 1 => do
      match (← get).deferred with
      | [] => return ()
      | id :: rest =>
          modify fun m => { m with deferred := rest }
          let value ← fill (build false) [] id
          modify fun m => { m with filled := (id, value) :: m.filled }
          fillDeferred build fuel

end Build

mutual

def Value.settle (contents : NodeId → Value) : Value → Value
  | .list items => .list (settleItems contents items)
  | .map entries => .map (settleEntries contents entries)
  | .pair key value => .pair (key.settle contents) (value.settle contents)
  | .unfilled id => contents id
  | value => value

def Value.settleItems (contents : NodeId → Value) : List Value → List Value
  | [] => []
  | item :: rest => item.settle contents :: settleItems contents rest

def Value.settleEntries (contents : NodeId → Value) : List (Scalar × Value) → List (Scalar × Value)
  | [] => []
  | (key, value) :: rest => (key, value.settle contents) :: settleEntries contents rest

end

def contentsOf (filled : List (NodeId × Value)) : Nat → NodeId → Value
  | 0, _ => .list []
  | fuel + 1, id => ((filled.lookup id).getD (.list [])).settle (contentsOf filled fuel)

structure Reading where
  duplicates : List DuplicateKey
  outcome : Except Halt Value

def Graph.memory (graph : Graph) (channel : Channel) : Memory :=
  ⟨graph.nodes, graph.nodes.foldl (fun count node => count + node.pairs.length) 0,
    Array.replicate graph.nodes.size none, [], [], [], channel, []⟩

def Graph.build (graph : Graph) : Build Value := do
  let size := graph.nodes.size
  let value ← Build.object (size + 1) false [] graph.root
  Build.fillDeferred (Build.object (size + 1)) (size + 1)
  let filled := (← get).filled
  if filled.isEmpty then return value
  else return value.settle (contentsOf filled filled.length)

def Graph.read (graph : Graph) (channel : Channel) : Reading :=
  let (outcome, memory) := graph.build.run (graph.memory channel)
  ⟨memory.duplicates.reverse, outcome⟩

end LocaleLint.Yaml
