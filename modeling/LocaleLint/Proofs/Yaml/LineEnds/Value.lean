import LocaleLint.Proofs.Yaml.Run
import LocaleLint.Proofs.Yaml.LineEnds.Graph

set_option autoImplicit false

namespace LocaleLint.Yaml

variable (shift : Nat → Nat)

def Halt.told : Halt → Told ⊕ Rejection
  | .stop met => .inl met.told
  | .raised rejection => .inr rejection

def Position.SamePlace (p q : Position) : Prop := p.line = q.line ∧ p.column = q.column

def Memory.moved (m : Memory) : Memory := { m with nodes := m.nodes.map (Node.moved shift) }

theorem getD_moved_node (nodes : Array Node) (id : NodeId) :
    (nodes.map (Node.moved shift)).getD id default = (nodes.getD id default).moved shift ∨
      (nodes.map (Node.moved shift)).getD id default = default ∧
        nodes.getD id default = default := by
  rw [Array.getD_eq_getD_getElem?, Array.getD_eq_getD_getElem?, Array.getElem?_map]
  cases nodes[id]? with
  | none => exact .inr ⟨rfl, rfl⟩
  | some node => exact .inl rfl

namespace Build

variable {α β : Type}

/-- Two buildings that end alike where the first one sees moved places, with the same result. -/
def Alike (x y : Build α) : Prop :=
  ∀ m : Memory, EndAlike Halt.told Eq (on x (m.moved shift)).1 (on y m).1 ∧
    (on x (m.moved shift)).2 = (on y m).2.moved shift

namespace Alike

variable {shift} {x y : Build α} {f g : α → Build β}

theorem pure (value : α) : Alike shift (pure value) (pure value) := fun _ => ⟨.ok rfl, rfl⟩

theorem halt (stop other : Stop) (alike : stop.told = other.told) :
    Alike shift (halt stop : Build α) (halt other) :=
  fun _ => ⟨.error (congrArg Sum.inl alike), rfl⟩

theorem fail (cause : Cause) (place other : Position) (same : place.SamePlace other) :
    Alike shift (fail cause place : Build α) (fail cause other) := by
  refine halt _ _ ?_
  simp only [Stop.told, Fault.told, same.1, same.2]

theorem failIn (activity : Activity) (since start : Position) (cause : Cause)
    (place other : Position)
    (same : place.SamePlace other) :
    Alike shift (failIn activity since cause place : Build α)
      (failIn activity start cause other) := by
  refine halt _ _ ?_
  simp only [Stop.told, Fault.told, same.1, same.2]

theorem bind (first : Alike shift x y) (next : ∀ value, Alike shift (f value) (g value)) :
    Alike shift (x >>= f) (y >>= g) := by
  intro m
  obtain ⟨ends, later⟩ := first m
  rw [on_bind, on_bind]
  generalize on x (m.moved shift) = ran, on y m = went at ends later
  obtain ⟨result, after⟩ := ran
  obtain ⟨other, late⟩ := went
  obtain rfl : after = late.moved shift := later
  cases ends with
  | @ok value _ same =>
    cases same
    exact next value late
  | error alike => exact ⟨.error alike, rfl⟩

theorem get_bind {f g : Memory → Build α}
    (next : ∀ m : Memory, Alike shift (f (m.moved shift)) (g m)) :
    Alike shift (get >>= f) (get >>= g) := by
  intro m
  rw [on_get_bind, on_get_bind]
  exact next m m

theorem modify (change other : Memory → Memory)
    (keeps : ∀ m : Memory, change (m.moved shift) = (other m).moved shift) :
    Alike shift (modify change) (modify other) :=
  fun m => ⟨.ok rfl, keeps m⟩

theorem node_bind (id : NodeId) {f g : Node → Build α}
    (next : ∀ content tag p q, Position.SamePlace p q →
      Alike shift (f ⟨content, tag, p⟩) (g ⟨content, tag, q⟩)) :
    Alike shift (node id >>= f) (node id >>= g) := by
  intro m
  have ends : ∀ seen other : Node, seen.content = other.content → seen.tag = other.tag →
      seen.start.SamePlace other.start → EndAlike Halt.told Eq (on (f seen) (m.moved shift)).1
        (on (g other) m).1 ∧ (on (f seen) (m.moved shift)).2 = (on (g other) m).2.moved shift := by
    rintro ⟨content, tag, p⟩ ⟨_, _, q⟩ rfl rfl same
    exact next content tag p q same m
  rw [on_bind_ok _ _ _ _ _ (on_node id _), on_bind_ok _ _ _ _ _ (on_node id _)]
  have nodes : (m.moved shift).nodes = m.nodes.map (Node.moved shift) := rfl
  rw [nodes]
  rcases getD_moved_node shift m.nodes id with moved | ⟨none, noneBeside⟩
  · rw [moved]
    exact ends _ _ rfl rfl ⟨rfl, rfl⟩
  · rw [none, noneBeside]
    exact ends _ _ rfl rfl ⟨rfl, rfl⟩

theorem demand (holds : Bool) (stop other : Stop) (alike : stop.told = other.told) :
    Alike shift (demand holds stop) (demand holds other) := by
  cases holds with
  | true => exact .pure ()
  | false => exact .halt _ _ alike

theorem attempt (result other : Except Stop α) (alike : EndAlike Stop.told Eq result other) :
    Alike shift (attempt result) (attempt other) := by
  cases alike with
  | ok same =>
    rw [same]
    exact .pure _
  | error alike => exact .halt _ _ alike

theorem ite {p : Prop} [Decidable p] {x y x' y' : Build α} (holds : p → Alike shift x y)
    (fails : ¬ p → Alike shift x' y') : Alike shift (if p then x else x') (if p then y else y') :=
  rel_ite (Alike shift) holds fails

theorem mapM {γ : Type} (f g : γ → Build α) (each : ∀ item, Alike shift (f item) (g item))
    (items : List γ) : Alike shift (items.mapM f) (items.mapM g) := by
  induction items with
  | nil => exact .pure _
  | cons item rest ih =>
    rw [List.mapM_cons, List.mapM_cons]
    exact .bind (each item) fun _ => .bind ih fun _ => .pure _

end Alike

variable {shift}

theorem alike_pairsOf (id : NodeId) : Alike shift (pairsOf id) (pairsOf id) :=
  .node_bind id fun _ _ _ _ _ => .pure _

theorem alike_tagOf (id : NodeId) : Alike shift (tagOf id) (tagOf id) :=
  .node_bind id fun _ _ _ _ _ => .pure _

theorem alike_setPairs (id : NodeId) (pairs : List (NodeId × NodeId)) :
    Alike shift (setPairs id pairs) (setPairs id pairs) := by
  refine .modify _ _ fun m => ?_
  have nodes :
    (m.nodes.map (Node.moved shift)).modify id
      (fun node => { node with content := .mapping pairs }) =
      (m.nodes.modify id fun node => { node with content := .mapping pairs }).map
        (Node.moved shift) :=
    modify_map _ _ _ _ _ fun _ => rfl
  simp only [Memory.moved, nodes]

theorem hasTag_moved (nodes : Array Node) (tag : Tag) (id : NodeId) :
    hasTag (nodes.map (Node.moved shift)) tag id = hasTag nodes tag id := by
  rw [hasTag, hasTag]
  rcases getD_moved_node shift nodes id with moved | ⟨none, noneBeside⟩
  · rw [moved]
    rfl
  · rw [none, noneBeside]

theorem alike_plainValueKeys (pairs : List (NodeId × NodeId)) :
    Alike shift (plainValueKeys pairs) (plainValueKeys pairs) := by
  refine .modify _ _ fun m => ?_
  have retagged (nodes : Array Node) :
      pairs.foldl (fun nodes pair =>
          if hasTag nodes .value pair.1 then nodes.modify pair.1 fun node =>
            { node with tag := .str }
          else nodes) (nodes.map (Node.moved shift)) =
        (pairs.foldl (fun nodes pair =>
          if hasTag nodes .value pair.1 then nodes.modify pair.1 fun node =>
            { node with tag := .str }
          else nodes) nodes).map (Node.moved shift) := by
    induction pairs generalizing nodes with
    | nil => rfl
    | cons pair rest ih =>
      rw [List.foldl_cons, List.foldl_cons, ← ih, hasTag_moved]
      split
      next => exact congrArg (List.foldl _ · rest) (modify_map nodes _ _ _ _ fun _ => rfl)
      next => rfl
  simp only [Memory.moved, retagged]

theorem alike_leave (id : NodeId) (value : Value) : Alike shift (leave id value) (leave id value) :=
  .modify _ _ fun _ => rfl

theorem alike_remembered (id : NodeId) : Alike shift (remembered id) (remembered id) :=
  .get_bind fun _ => .pure _

theorem alike_enter (id : NodeId) : Alike shift (enter id) (enter id) := by
  refine .get_bind fun m => ?_
  refine .ite (fun _ => ?_) fun _ => .modify _ _ fun _ => rfl
  exact .node_bind id fun _ _ p q same => .fail _ p q same

theorem alike_hashable (since start place other : Position) (same : place.SamePlace other)
    (value : Value) : Alike shift (hashable since place value) (hashable start other value) := by
  unfold hashable
  cases value.key? with
  | some key => exact .pure _
  | none => exact .failIn _ _ _ _ _ _ same

section
variable (flattenNode : NodeId → Build Unit)
  (flattens : ∀ id, Alike shift (flattenNode id) (flattenNode id))

include flattens

theorem alike_listedPairs (since start : Position) (items : List NodeId) :
    Alike shift (listedPairs flattenNode since items) (listedPairs flattenNode start items) := by
  induction items with
  | nil => exact .pure _
  | cons item rest ih =>
    refine .node_bind item fun content tag p q same => ?_
    refine .bind (.demand _ _ _ ?_) fun _ => ?_
    · simp only [noMergeSource, Stop.told, Fault.told, same.1, same.2]
    refine .bind (flattens item) fun _ => ?_
    refine .bind (alike_pairsOf item) fun pairs => ?_
    exact .bind ih fun _ => .pure _

theorem alike_sourcePairs (since start : Position) (source : NodeId) :
    Alike shift (sourcePairs flattenNode since source) (sourcePairs flattenNode start source) := by
  refine .node_bind source fun content tag p q same => ?_
  cases content with
  | mapping pairs => exact .bind (flattens source) fun _ => alike_pairsOf source
  | sequence items =>
    exact .bind (alike_listedPairs flattenNode flattens since start items) fun _ => .pure _
  | scalar text => exact .failIn _ _ _ _ _ _ same

theorem alike_absorb (id : NodeId) (fuel : Nat) (merged : List (NodeId × NodeId)) :
    Alike shift (absorb flattenNode id fuel merged) (absorb flattenNode id fuel merged) := by
  induction fuel generalizing merged with
  | zero => exact .pure ()
  | succ fuel ih =>
    refine .get_bind fun m => ?_
    have merges : hasTag (m.moved shift).nodes .merge = hasTag m.nodes .merge :=
      funext fun key => hasTag_moved m.nodes .merge key
    simp only [merges]
    refine .bind (alike_pairsOf id) fun pairs => ?_
    cases takeMerge? (hasTag m.nodes .merge) pairs with
    | some found =>
      refine .bind (alike_setPairs _ _) fun _ => ?_
      refine .node_bind id fun content tag p q same => ?_
      exact .bind (alike_sourcePairs flattenNode flattens p q found.1) fun more => ih _
    | none =>
      refine .bind (alike_plainValueKeys _) fun _ => ?_
      exact .ite (fun _ => alike_setPairs _ _) fun _ => .pure ()

end

theorem alike_flatten (fuel : Nat) (id : NodeId) :
    Alike shift (flatten fuel id) (flatten fuel id) := by
  induction fuel generalizing id with
  | zero => exact .pure ()
  | succ fuel ih => exact alike_absorb _ ih id _ _

theorem alike_scalarText (fuel : Nat) (id : NodeId) :
    Alike shift (scalarText fuel id) (scalarText fuel id) := by
  induction fuel generalizing id with
  | zero => exact .halt _ _ rfl
  | succ fuel ih =>
    refine .node_bind id fun content tag p q same => ?_
    cases content with
    | scalar text => exact .pure _
    | sequence items => exact .fail _ _ _ same
    | mapping pairs =>
      refine .get_bind fun m => ?_
      have values : hasTag (m.moved shift).nodes .value = hasTag m.nodes .value :=
        funext fun key => hasTag_moved m.nodes .value key
      simp only [values]
      cases pairs.find? fun pair => hasTag m.nodes .value pair.1 with
      | some found => exact ih found.2
      | none => exact .fail _ _ _ same

theorem alike_announce (path : List String) (key : Scalar) (place other : Position)
    (same : place.SamePlace other) :
    Alike shift (announce path key place) (announce path key other) := by
  unfold announce
  rw [same.1, same.2]
  refine .get_bind fun m => ?_
  have channel : (m.moved shift).channel = m.channel := rfl
  simp only [channel]
  split
  next => exact fun _ => ⟨.error rfl, rfl⟩
  next => exact .modify _ _ fun _ => rfl

theorem alike_announceIf (again : Bool) (path : List String) (key : Scalar) (place other : Position)
    (same : place.SamePlace other) :
    Alike shift (announceIf again path key place) (announceIf again path key other) :=
  .ite (fun _ => alike_announce path key place other same) fun _ => .pure ()

section
variable (build : NodeBuilder) (builds : ∀ path id, Alike shift (build path id) (build path id))
  (path : List String)

include builds

theorem alike_entriesFrom (since start : Position) (pairs : List (NodeId × NodeId)) (merged : Nat)
    (seen : List Scalar) (entries : List (Scalar × Value)) :
    Alike shift (entriesFrom build path since pairs merged seen entries)
      (entriesFrom build path start pairs merged seen entries) := by
  induction pairs generalizing merged seen entries with
  | nil => exact .pure _
  | cons pair rest ih =>
    obtain ⟨keyId, valueId⟩ := pair
    refine .node_bind keyId fun content tag p q same => ?_
    refine .bind (builds path keyId) fun value => ?_
    refine .bind (alike_hashable _ _ p q same value) fun key => ?_
    refine .node_bind valueId fun content tag _ _ _ => ?_
    refine .bind (.demand _ _ _ rfl) fun _ => ?_
    refine .bind (alike_announceIf _ _ _ p q same) fun _ => ?_
    exact .bind (builds _ valueId) fun _ => ih _ _ _

theorem alike_mappingEntries (id : NodeId) :
    Alike shift (mappingEntries build path id) (mappingEntries build path id) := by
  refine .node_bind id fun content tag p q same => ?_
  cases content with
  | scalar text => exact .ite (fun _ => .pure _) fun _ => .halt _ _ rfl
  | sequence items => exact .ite (fun _ => .pure _) fun _ => .halt _ _ rfl
  | mapping pairs =>
    refine .get_bind fun m => ?_
    have merges : hasTag (m.moved shift).nodes .merge = hasTag m.nodes .merge :=
      funext fun key => hasTag_moved m.nodes .merge key
    have size : (m.moved shift).nodes.size = m.nodes.size := Array.size_map
    simp only [merges, size]
    refine .bind (alike_flatten _ id) fun _ => ?_
    refine .bind (alike_pairsOf id) fun pairs => ?_
    exact alike_entriesFrom build builds path p q _ _ _ _

theorem alike_itemsFrom (items : List NodeId) (index : Nat) :
    Alike shift (itemsFrom build path items index) (itemsFrom build path items index) := by
  induction items generalizing index with
  | nil => exact .pure _
  | cons item rest ih =>
    refine .bind (builds _ item) fun value => ?_
    exact .bind (ih _) fun _ => .pure _

theorem alike_sequenceItems (id : NodeId) :
    Alike shift (sequenceItems build path id) (sequenceItems build path id) := by
  refine .node_bind id fun content tag p q same => ?_
  cases content with
  | sequence items => exact alike_itemsFrom build builds path items 0
  | scalar text => exact .ite (fun _ => .pure _) fun _ => .halt _ _ rfl
  | mapping pairs => exact .ite (fun _ => .pure _) fun _ => .halt _ _ rfl

theorem alike_pairFrom (activity : Activity) (since start : Position) (id : NodeId) :
    Alike shift (pairFrom build path activity since id)
      (pairFrom build path activity start id) := by
  refine .node_bind id fun content tag p q same => ?_
  cases content with
  | scalar text => exact .failIn _ _ _ _ _ _ same
  | sequence items => exact .failIn _ _ _ _ _ _ same
  | mapping pairs =>
    match pairs with
    | [(key, value)] =>
      refine .bind (builds path key) fun first => ?_
      exact .bind (builds path value) fun _ => .pure _
    | [] => exact .failIn _ _ _ _ _ _ same
    | _ :: _ :: _ => exact .failIn _ _ _ _ _ _ same

theorem alike_pairList (activity : Activity) (id : NodeId) :
    Alike shift (pairList build path activity id) (pairList build path activity id) := by
  refine .node_bind id fun content tag p q same => ?_
  cases content with
  | sequence items => exact .mapM _ _ (alike_pairFrom build builds path activity p q) items
  | scalar text => exact .failIn _ _ _ _ _ _ same
  | mapping pairs => exact .failIn _ _ _ _ _ _ same

theorem alike_fill (id : NodeId) : Alike shift (fill build path id) (fill build path id) := by
  refine .bind (alike_tagOf id) fun tag => ?_
  split
  · exact .bind (alike_pairList build builds path _ id) fun _ => .pure _
  · exact .bind (alike_pairList build builds path _ id) fun _ => .pure _
  · exact .bind (alike_mappingEntries build builds path id) fun _ => .pure _

end

theorem scalarOf_alike (id : NodeId) (tag : Tag) (text : List Text.CodePoint)
    (place other : Position)
    (same : place.SamePlace other) :
    EndAlike Stop.told Eq (scalarOf id place tag text) (scalarOf id other tag text) := by
  cases tag with
  | binary =>
    rw [scalarOf, scalarOf]
    cases binaryOf text with
    | ok octets => exact .ok rfl
    | error cause =>
      refine .error ?_
      simp only [Stop.told, Fault.told, same.1, same.2]
  | _ => exact .refl _ _

theorem alike_scalarValue (id : NodeId) (tag : Tag) :
    Alike shift (scalarValue id tag) (scalarValue id tag) := by
  refine .node_bind id fun content nodeTag p q same => ?_
  refine .get_bind fun m => ?_
  have size : (m.moved shift).nodes.size = m.nodes.size := Array.size_map
  rw [size]
  refine .bind (alike_scalarText _ id) fun text => ?_
  refine .bind (.demand _ _ _ rfl) fun _ => ?_
  exact .bind (.attempt _ _ (scalarOf_alike id tag text p q same)) fun _ => .pure _

theorem alike_defer (id : NodeId) : Alike shift (defer id) (defer id) :=
  .bind (.modify _ _ fun _ => rfl) fun _ => .pure _

section
variable (build : Bool → NodeBuilder)
  (builds : ∀ deep path id, Alike shift (build deep path id) (build deep path id))

include builds

theorem alike_valueOf (deep : Bool) (path : List String) (id : NodeId) :
    Alike shift (valueOf build deep path id) (valueOf build deep path id) := by
  refine .node_bind id fun content tag p q same => ?_
  have fills : Alike shift (if deep then fill (build deep) path id else defer id)
      (if deep then fill (build deep) path id else defer id) :=
    .ite (fun _ => alike_fill _ (builds deep) path id) fun _ => alike_defer id
  cases tag with
  | map => exact .bind (alike_mappingEntries _ (builds true) path id) fun _ => .pure _
  | seq => exact .bind (alike_sequenceItems _ (builds true) path id) fun _ => .pure _
  | orderedMap | pairs | set => exact fills
  | merge | value | other => exact .fail _ _ _ same
  | _ => exact alike_scalarValue id _

theorem alike_fillDeferred (fuel : Nat) :
    Alike shift (fillDeferred build fuel) (fillDeferred build fuel) := by
  induction fuel with
  | zero => exact .pure ()
  | succ fuel ih =>
    refine .get_bind fun m => ?_
    have deferred : (m.moved shift).deferred = m.deferred := rfl
    rw [deferred]
    cases m.deferred with
    | nil => exact .pure ()
    | cons id rest =>
      refine .bind (.modify _ _ fun _ => rfl) fun _ => ?_
      refine .bind (alike_fill _ (builds false) [] id) fun value => ?_
      exact .bind (.modify _ _ fun _ => rfl) fun _ => ih

end

theorem alike_object (fuel : Nat) (deep : Bool) (path : List String) (id : NodeId) :
    Alike shift (object fuel deep path id) (object fuel deep path id) := by
  induction fuel generalizing deep path id with
  | zero => exact .pure _
  | succ fuel ih =>
    refine .bind (alike_remembered id) fun known => ?_
    cases known with
    | some value => exact .pure _
    | none =>
      refine .bind (alike_enter id) fun _ => ?_
      refine .bind (alike_valueOf _ ih deep path id) fun value => ?_
      exact .bind (alike_leave id value) fun _ => .pure _

end Build

theorem Graph.alike_build (graph : Graph) :
    Build.Alike shift (graph.moved shift).build graph.build := by
  have size : (graph.moved shift).nodes.size = graph.nodes.size := Array.size_map
  unfold Graph.build
  rw [size]
  refine .bind (Build.alike_object _ _ _ _) fun value => ?_
  refine .bind (Build.alike_fillDeferred _ (Build.alike_object _) _) fun _ => ?_
  refine .get_bind fun m => ?_
  exact .ite (fun _ => .pure _) fun _ => .pure _

/-- The same announcements, and the same value or ends that are told alike. -/
def Reading.Alike (reading other : Reading) : Prop :=
  reading.duplicates = other.duplicates ∧ EndAlike Halt.told Eq reading.outcome other.outcome

theorem Reading.Alike.symm {reading other : Reading} (alike : reading.Alike other) :
    other.Alike reading :=
  ⟨alike.1.symm, alike.2.symm⟩

theorem Reading.Alike.trans {reading other third : Reading} (alike : reading.Alike other)
    (later : other.Alike third) : reading.Alike third :=
  ⟨alike.1.trans later.1, alike.2.trans later.2⟩

theorem Graph.read_moved (graph : Graph) (channel : Channel) :
    ((graph.moved shift).read channel).Alike (graph.read channel) := by
  have memory : (graph.moved shift).memory channel = (graph.memory channel).moved shift := by
    have count :
      (graph.nodes.map (Node.moved shift)).foldl (fun count node => count + node.pairs.length) 0 =
        graph.nodes.foldl (fun count node => count + node.pairs.length) 0 := by
      rw [Array.foldl_map]
      rfl
    simp only [Graph.memory, Graph.moved, Memory.moved, count]
    rw [Array.size_map]
  obtain ⟨ends, later⟩ := graph.alike_build shift (graph.memory channel)
  rw [← memory] at ends later
  have announced := congrArg (fun m : Memory => m.duplicates.reverse) later
  exact ⟨announced, ends⟩

theorem read_moved (channel : Channel) (source other : List Char)
    (ends : EndAlike Stop.told (fun a b => a = b.map (Graph.moved shift)) (graphOfSource source)
      (graphOfSource other)) : (read channel source).Alike (read channel other) := by
  rw [read, read]
  generalize graphOfSource source = x, graphOfSource other = y at ends
  cases ends with
  | error told => exact ⟨rfl, .error (congrArg Sum.inl told)⟩
  | @ok found graph same =>
    rw [same]
    cases graph with
    | none => exact ⟨rfl, .ok rfl⟩
    | some graph => exact graph.read_moved shift channel

theorem read_unifyLineEnds (channel : Channel) (source : List Char) :
    (read channel source).Alike (read channel (Text.unifyLineEnds source)) := by
  obtain ⟨shift, ends⟩ := graphOfSource_unifyLineEnds source
  exact read_moved shift channel _ _ ends

theorem read_marked (channel : Channel) (source : List Char)
    (unmarked : source.head? ≠ some '\ufeff') :
    (read channel ('\ufeff' :: source)).Alike (read channel (Text.unifyLineEnds source)) := by
  obtain ⟨shift, ends⟩ := graphOfSource_marked source unmarked
  exact read_moved shift channel _ _ ends

end LocaleLint.Yaml
