import LocaleLint.Yaml.Read
import LocaleLint.Proofs.Yaml.Run
import LocaleLint.Proofs.Yaml.Order.Events

set_option autoImplicit false

namespace LocaleLint.Yaml

variable (source : List Char)

def StartsIn (nodes : Array Node) : Prop := ∀ id, (nodes.getD id default).start.IsIn source

def GraphIsIn : Except Stop (Option Graph) → Prop
  | .error stop => stop.IsIn source
  | .ok root => ∀ g, root = some g → StartsIn source g.nodes

def Halt.IsIn : Halt → Prop
  | .stop met => met.IsIn source
  | .raised _ => True

variable {source} {nodes : Array Node}

theorem StartsIn.modify (starts : StartsIn source nodes) (id : NodeId) (change : Node → Node)
    (same : ∀ node, (change node).start = node.start) :
    StartsIn source (nodes.modify id change) := by
  intro other
  rw [getD_modify]
  split
  · rw [same]
    exact starts other
  · exact starts other

theorem StartsIn.empty : StartsIn source #[] := fun _ => Position.start_isIn source

theorem StartsIn.push (starts : StartsIn source nodes) {node : Node}
    (isIn : node.start.IsIn source) :
    StartsIn source (nodes.push node) := by
  intro id
  have before := starts id
  rw [Array.getD_eq_getD_getElem?] at before ⊢
  rw [Array.getElem?_push]
  split
  · exact isIn
  · exact before

namespace Composition

variable (source) in
def GoesOn : Except Stop Composition → Prop
  | .ok later => StartsIn source later.nodes
  | .error stop => stop.IsIn source

variable {c : Composition}

theorem startsIn_close (starts : StartsIn source c.nodes) : StartsIn source c.close.nodes := by
  have finished (id : NodeId) (content : Content) (frames : List Frame) :
      StartsIn source (c.finish id content frames).nodes := by
    rw [finish, nodes_attach]
    exact starts.modify id _ fun _ => rfl
  unfold close
  split
  · exact starts
  · exact finished _ _ _
  · exact finished _ _ _

theorem startsIn_add (starts : StartsIn source c.nodes) (anchor : Option String) (node : Node)
    (isIn : node.start.IsIn source) : GoesOn source (c.add anchor node) := by
  unfold add
  dsimp only
  split
  · exact starts.push isIn
  · split
    · exact isIn
    · exact starts.push isIn

theorem startsIn_addEvent (starts : StartsIn source c.nodes) {event : Event}
    (isIn : event.start.IsIn source) : GoesOn source (c.addEvent event) := by
  have added (anchor : Option String) (content : Content) (tag : Tag)
      (opens : Composition → Composition) (same : ∀ c, (opens c).nodes = c.nodes) :
      GoesOn source (c.add anchor ⟨content, tag, event.start⟩ >>= fun c => pure (opens c)) := by
    have reached := startsIn_add starts anchor ⟨content, tag, event.start⟩ isIn
    cases adding : c.add anchor ⟨content, tag, event.start⟩ with
    | error stop =>
      rw [adding] at reached
      exact reached
    | ok later =>
      rw [adding] at reached
      change StartsIn source (opens later).nodes
      rw [same]
      exact reached
  unfold addEvent
  dsimp only
  split
  · split
    · next id _ =>
      change StartsIn source (c.attach id).nodes
      rw [nodes_attach]
      exact starts
    · exact isIn
  · exact added _ _ _ _ fun later => nodes_attach later _
  · exact added _ _ _ _ fun _ => rfl
  · exact added _ _ _ _ fun _ => rfl
  · exact startsIn_close starts
  · exact startsIn_close starts
  · exact starts
  · exact starts
  · exact starts

theorem startsIn_run (starved : Option Stop)
    (starvedIn : ∀ stop, starved = some stop → stop.IsIn source) (events : List Event)
    (eventsIn : ∀ event ∈ events, event.start.IsIn source) (c : Composition)
    (starts : StartsIn source c.nodes) : GraphIsIn source (c.run starved events) := by
  induction events generalizing c with
  | nil =>
    cases starved with
    | some stop => exact starvedIn stop rfl
    | none =>
      intro g same
      obtain ⟨root, -, rfl⟩ := Option.map_eq_some_iff.mp same
      exact starts
  | cons event rest ih =>
    rw [List.forall_mem_cons] at eventsIn
    have reached := startsIn_addEvent starts eventsIn.1
    rw [run]
    split
    · exact eventsIn.1
    · split
      · next stop failed =>
        rw [failed] at reached
        exact reached
      · next later added =>
        rw [added] at reached
        exact ih eventsIn.2 later reached

end Composition

theorem graphOfSource_isIn (source : List Char) : GraphIsIn source (graphOfSource source) := by
  rw [graphOfSource]
  split
  · trivial
  · obtain ⟨ascends, stopIn⟩ := eventsOf_ascends source
    exact Composition.startsIn_run _ stopIn _ (fun event member => (ascends.isIn event member).1)
      .empty .empty

namespace Build

/-- A building keeps the starts of the nodes, and a fault of it is at one of them. -/
def StaysIn (source : List Char) {α : Type} (x : Build α) : Prop :=
  ∀ m : Memory, StartsIn source m.nodes →
    match on x m with
    | (.ok _, later) => StartsIn source later.nodes
    | (.error halt, _) => halt.IsIn source

variable {α β : Type} {x y : Build α}

namespace StaysIn

theorem pure (value : α) : StaysIn source (pure value) := fun _ starts => starts

theorem bind {f : α → Build β} (first : StaysIn source x) (next : ∀ a, StaysIn source (f a)) :
    StaysIn source (x >>= f) := by
  intro m starts
  have reached := first m starts
  rw [on_bind]
  cases ran : on x m with
  | mk result later =>
    rw [ran] at reached
    cases result with
    | error halt => exact reached
    | ok value => exact next value later reached

theorem ite {p : Prop} [Decidable p] (holds : StaysIn source x) (fails : StaysIn source y) :
    StaysIn source (if p then x else y) := by
  split
  · exact holds
  · exact fails

theorem get_bind {f : Memory → Build β} (next : ∀ m, StaysIn source (f m)) :
    StaysIn source (get >>= f) :=
  fun m starts => next m m starts

theorem modify {change : Memory → Memory}
    (keeps : ∀ m : Memory, StartsIn source m.nodes → StartsIn source (change m).nodes) :
    StaysIn source (modify change : Build Unit) :=
  keeps

theorem node_bind {f : Node → Build β} (id : NodeId)
    (next : ∀ current : Node, current.start.IsIn source → StaysIn source (f current)) :
    StaysIn source (node id >>= f) :=
  fun m starts => next _ (starts id) m starts

theorem pairsOf (id : NodeId) : StaysIn source (pairsOf id) := fun _ starts => starts

theorem halt {stop : Stop} (isIn : stop.IsIn source) : StaysIn source (halt stop : Build α) :=
  fun _ _ => isIn

theorem breakdown (b : Breakdown) : StaysIn source (breakdown b : Build α) := fun _ _ => trivial

theorem demand (holds : Bool) {stop : Stop} (isIn : stop.IsIn source) :
    StaysIn source (demand holds stop) :=
  .ite (.pure ()) (.halt isIn)

theorem setPairs (id : NodeId) (pairs : List (NodeId × NodeId)) :
    StaysIn source (setPairs id pairs) :=
  modify fun _ starts => starts.modify id _ fun _ => rfl

end StaysIn

theorem staysIn_plainValueKeys (pairs : List (NodeId × NodeId)) :
    StaysIn source (plainValueKeys pairs) := by
  refine .modify fun m starts => ?_
  change StartsIn source (pairs.foldl _ m.nodes)
  generalize m.nodes = nodes at starts
  induction pairs generalizing nodes with
  | nil => exact starts
  | cons pair rest ih =>
    rw [List.foldl_cons]
    refine ih _ ?_
    split
    · exact starts.modify pair.1 _ fun _ => rfl
    · exact starts

theorem staysIn_listedPairs {flattenNode : NodeId → Build Unit}
    (flattens : ∀ id, StaysIn source (flattenNode id)) (start : Position) (items : List NodeId) :
    StaysIn source (listedPairs flattenNode start items) := by
  induction items with
  | nil => exact .pure _
  | cons item rest ih =>
    refine .node_bind item fun current isIn => .bind (.demand _ isIn) fun _ => ?_
    exact .bind (flattens item) fun _ => .bind (.pairsOf item) fun _ => .bind ih fun _ => .pure _

theorem staysIn_sourcePairs {flattenNode : NodeId → Build Unit}
    (flattens : ∀ id, StaysIn source (flattenNode id)) (start : Position) (id : NodeId) :
    StaysIn source (sourcePairs flattenNode start id) := by
  refine .node_bind id fun current isIn => ?_
  split
  · exact .bind (flattens id) fun _ => .pairsOf id
  · exact .bind (staysIn_listedPairs flattens start _) fun _ => .pure _
  · exact .halt isIn

theorem staysIn_absorb {flattenNode : NodeId → Build Unit}
    (flattens : ∀ id, StaysIn source (flattenNode id)) (id : NodeId) (fuel : Nat)
    (merged : List (NodeId × NodeId)) : StaysIn source (absorb flattenNode id fuel merged) := by
  induction fuel generalizing merged with
  | zero => exact .pure _
  | succ fuel ih =>
    refine .get_bind fun m => .bind (.pairsOf id) fun pairs => ?_
    split
    · refine .bind (.setPairs id _) fun _ => .node_bind id fun _ _ => ?_
      exact .bind (staysIn_sourcePairs flattens _ _) fun _ => ih _
    · exact .bind (staysIn_plainValueKeys _) fun _ => .ite (.setPairs id _) (.pure _)

theorem staysIn_flatten (fuel : Nat) (id : NodeId) : StaysIn source (flatten fuel id) := by
  induction fuel generalizing id with
  | zero => exact .pure _
  | succ fuel ih => exact staysIn_absorb ih id _ _

theorem staysIn_scalarText (fuel : Nat) (id : NodeId) : StaysIn source (scalarText fuel id) := by
  induction fuel generalizing id with
  | zero => exact .breakdown _
  | succ fuel ih =>
    refine .node_bind id fun current isIn => ?_
    split
    · exact .pure _
    · exact .halt isIn
    · refine .get_bind fun m => ?_
      dsimp only
      split
      · exact ih _
      · exact .halt isIn

theorem staysIn_announceIf (again : Bool) (path : List String) (key : Scalar) (place : Position) :
    StaysIn source (announceIf again path key place) := by
  refine .ite (.get_bind fun m => ?_) (.pure _)
  split
  · exact fun _ _ => trivial
  · exact .modify fun _ starts => starts

theorem staysIn_hashable (start : Position) {place : Position} (isIn : place.IsIn source)
    (value : Value) : StaysIn source (hashable start place value) := by
  unfold hashable
  split
  · exact .pure _
  · exact .halt isIn

variable {build : NodeBuilder}

theorem staysIn_entriesFrom (builds : ∀ path id, StaysIn source (build path id))
    (path : List String) (start : Position) (pairs : List (NodeId × NodeId)) (merged : Nat)
    (seen : List Scalar) (entries : List (Scalar × Value)) :
    StaysIn source (entriesFrom build path start pairs merged seen entries) := by
  induction pairs generalizing merged seen entries with
  | nil => exact .pure _
  | cons pair rest ih =>
    refine .node_bind pair.1 fun keyNode isIn => .bind (builds path pair.1) fun keyValue => ?_
    refine .bind (staysIn_hashable start isIn keyValue) fun key => .node_bind pair.2 fun _ _ => ?_
    refine .bind (.demand _ trivial) fun _ => .bind (staysIn_announceIf _ _ _ _) fun _ => ?_
    exact .bind (builds _ pair.2) fun _ => ih _ _ _

theorem staysIn_mappingEntries (builds : ∀ path id, StaysIn source (build path id))
    (path : List String) (id : NodeId) : StaysIn source (mappingEntries build path id) := by
  refine .node_bind id fun current _ => ?_
  split
  · exact .ite (.pure _) (.breakdown _)
  · exact .ite (.pure _) (.breakdown _)
  · refine .get_bind fun m => .bind (staysIn_flatten _ id) fun _ => ?_
    exact .bind (.pairsOf id) fun _ => staysIn_entriesFrom builds _ _ _ _ _ _

theorem staysIn_itemsFrom (builds : ∀ path id, StaysIn source (build path id)) (path : List String)
    (items : List NodeId) (index : Nat) : StaysIn source (itemsFrom build path items index) := by
  induction items generalizing index with
  | nil => exact .pure _
  | cons item rest ih => exact .bind (builds _ item) fun _ => .bind (ih _) fun _ => .pure _

theorem staysIn_sequenceItems (builds : ∀ path id, StaysIn source (build path id))
    (path : List String) (id : NodeId) : StaysIn source (sequenceItems build path id) := by
  refine .node_bind id fun current _ => ?_
  split
  · exact staysIn_itemsFrom builds _ _ _
  · exact .ite (.pure _) (.breakdown _)
  · exact .ite (.pure _) (.breakdown _)

theorem staysIn_pairFrom (builds : ∀ path id, StaysIn source (build path id)) (path : List String)
    (activity : Activity) (start : Position) (id : NodeId) :
    StaysIn source (pairFrom build path activity start id) := by
  refine .node_bind id fun current isIn => ?_
  split
  · exact .bind (builds _ _) fun _ => .bind (builds _ _) fun _ => .pure _
  · exact .halt isIn
  · exact .halt isIn

theorem staysIn_mapM (f : NodeId → Build α) (each : ∀ id, StaysIn source (f id))
    (items : List NodeId) : StaysIn source (items.mapM f) := by
  induction items with
  | nil => exact .pure _
  | cons item rest ih =>
    rw [List.mapM_cons]
    exact .bind (each item) fun _ => .bind ih fun _ => .pure _

theorem staysIn_pairList (builds : ∀ path id, StaysIn source (build path id)) (path : List String)
    (activity : Activity) (id : NodeId) : StaysIn source (pairList build path activity id) := by
  refine .node_bind id fun current isIn => ?_
  split
  · exact staysIn_mapM _ (staysIn_pairFrom builds path activity current.start) _
  · exact .halt isIn

theorem staysIn_fill (builds : ∀ path id, StaysIn source (build path id)) (path : List String)
    (id : NodeId) : StaysIn source (fill build path id) := by
  refine .bind (fun _ starts => starts) fun tag => ?_
  split
  · exact .bind (staysIn_pairList builds _ _ id) fun _ => .pure _
  · exact .bind (staysIn_pairList builds _ _ id) fun _ => .pure _
  · exact .bind (staysIn_mappingEntries builds _ id) fun _ => .pure _

theorem isIn_of_scalarOf (id : NodeId) {start : Position} (isIn : start.IsIn source) (tag : Tag)
    (text : List Text.CodePoint) (stop : Stop) (failed : scalarOf id start tag text = .error stop) :
    stop.IsIn source := by
  have broken {γ : Type} (result : Except Breakdown γ)
      (failed : result.mapError Stop.breakdown = .error stop) : stop.IsIn source := by
    cases result with
    | ok value => cases failed
    | error b =>
      cases failed
      trivial
  unfold scalarOf at failed
  cases tag
  case bool => exact broken _ failed
  case int => exact broken _ failed
  case float => exact broken _ failed
  case timestamp => exact broken _ failed
  case binary =>
    cases read : (binaryOf text).map Scalar.bytes with
    | ok value =>
      simp only [read] at failed
      cases failed
    | error cause =>
      simp only [read] at failed
      cases failed
      exact isIn
  all_goals cases failed

theorem staysIn_scalarValue (id : NodeId) (tag : Tag) : StaysIn source (scalarValue id tag) := by
  refine .node_bind id fun current isIn => .get_bind fun m => ?_
  refine .bind (staysIn_scalarText _ id) fun text => .bind (.demand _ trivial) fun _ => ?_
  refine .bind ?_ fun _ => .pure _
  cases read : scalarOf id current.start tag text with
  | ok name => exact .pure name
  | error stop => exact .halt (isIn_of_scalarOf id isIn tag text stop read)

theorem staysIn_valueOf {build : Bool → NodeBuilder}
    (builds : ∀ deep path id, StaysIn source (build deep path id)) (deep : Bool)
    (path : List String) (id : NodeId) : StaysIn source (valueOf build deep path id) := by
  have fillOrDefer : StaysIn source (if deep then fill (build deep) path id else defer id) :=
    .ite (staysIn_fill (builds deep) path id)
      (.bind (.modify fun _ starts => starts) fun _ => .pure _)
  refine .node_bind id fun current isIn => ?_
  cases current.tag
  case map => exact .bind (staysIn_mappingEntries (builds true) path id) fun _ => .pure _
  case seq => exact .bind (staysIn_sequenceItems (builds true) path id) fun _ => .pure _
  case orderedMap => exact fillOrDefer
  case pairs => exact fillOrDefer
  case set => exact fillOrDefer
  case merge => exact .halt isIn
  case value => exact .halt isIn
  case other name => exact .halt isIn
  all_goals exact staysIn_scalarValue id _

theorem staysIn_enter (id : NodeId) : StaysIn source (enter id) := by
  refine .get_bind fun m => .ite (.node_bind id fun _ isIn => .halt isIn) ?_
  exact .modify fun _ starts => starts

theorem staysIn_object (fuel : Nat) (deep : Bool) (path : List String) (id : NodeId) :
    StaysIn source (object fuel deep path id) := by
  induction fuel generalizing deep path id with
  | zero => exact .pure _
  | succ fuel ih =>
    refine .bind (fun _ starts => starts) fun known => ?_
    cases known with
    | some value => exact .pure value
    | none =>
      refine .bind (staysIn_enter id) fun _ => .bind (staysIn_valueOf ih deep path id) fun _ => ?_
      exact .bind (.modify fun _ starts => starts) fun _ => .pure _

theorem staysIn_fillDeferred {build : Bool → NodeBuilder}
    (builds : ∀ deep path id, StaysIn source (build deep path id)) (fuel : Nat) :
    StaysIn source (fillDeferred build fuel) := by
  induction fuel with
  | zero => exact .pure _
  | succ fuel ih =>
    refine .get_bind fun m => ?_
    split
    · exact .pure _
    · refine .bind (.modify fun _ starts => starts) fun _ => ?_
      refine .bind (staysIn_fill (builds false) [] _) fun _ => ?_
      exact .bind (.modify fun _ starts => starts) fun _ => ih

end Build

theorem Graph.staysIn_build (g : Graph) : Build.StaysIn source g.build := by
  refine .bind (Build.staysIn_object _ _ _ _) fun _ => ?_
  refine .bind (Build.staysIn_fillDeferred (Build.staysIn_object _) _) fun _ => ?_
  exact .get_bind fun _ => .ite (.pure _) (.pure _)

theorem read_halt_isIn (channel : Channel) (source : List Char) (halt : Halt)
    (ended : (read channel source).outcome = .error halt) : halt.IsIn source := by
  have composed := graphOfSource_isIn source
  rw [read] at ended
  split at ended
  · next stop failed =>
    rw [failed] at composed
    cases ended
    exact composed
  · cases ended
  · next g found =>
    rw [found] at composed
    have built := g.staysIn_build (g.memory channel) (composed g rfl)
    change (Build.on g.build (g.memory channel)).1 = .error halt at ended
    cases ran : Build.on g.build (g.memory channel) with
    | mk outcome later =>
      rw [ran] at built ended
      subst ended
      exact built

end LocaleLint.Yaml
