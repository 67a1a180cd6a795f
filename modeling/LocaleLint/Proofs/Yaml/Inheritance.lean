import LocaleLint.Proofs.Yaml.Construction
import LocaleLint.Proofs.Yaml.Precedence
import LocaleLint.Proofs.Yaml.Recall

set_option autoImplicit false

namespace LocaleLint.Yaml

namespace Graph

variable (g : Graph)

def sources (id : NodeId) : List NodeId :=
  match (g.node id).content with
  | .sequence items => items
  | _ => [id]

inductive Merges : NodeId → Prop
  | of (id : NodeId) (isMapping : (g.node id).kind = .mapping)
      (sources : ∀ pair ∈ (g.node id).pairs, (g.node pair.1).tag = .merge →
        ∀ item ∈ g.sources pair.2, Merges item) : Merges id

theorem Merges.isMapping {id : NodeId} (merges : g.Merges id) : (g.node id).kind = .mapping := by
  cases merges
  assumption

theorem given_of_sources (start : Position) (t : Tree) (stands : t.Stands g)
    (each : ∀ item : Tree, item.Stands g → item.id ∈ g.sources t.id →
      item.kind = .mapping ∧ ∃ entries, item.flattened = .ok entries) :
    ∃ entries, t.given start = .ok entries ∧ ∀ entry ∈ entries, True := by
  have here := stands.here g
  cases t with
  | scalar id tag place text =>
    have alone : id ∈ g.sources id := by
      rw [sources, show g.node id = _ from here]
      exact List.mem_singleton_self id
    obtain ⟨isMapping, -⟩ := each _ stands alone
    contradiction
  | mapping id tag place pairs =>
    have alone : id ∈ g.sources id := by
      rw [sources, show g.node id = _ from here]
      exact List.mem_singleton_self id
    obtain ⟨-, entries, flattened⟩ := each _ stands alone
    exact ⟨entries, flattened, fun _ _ => trivial⟩
  | sequence id tag place items =>
    have all (item : Tree) (member : item ∈ items) : item.kind = .mapping ∧
        ∃ first, item.given start = .ok first ∧ ∀ entry ∈ first, True := by
      have among : item.id ∈ g.sources id := by
        rw [sources, show g.node id = _ from here]
        exact List.mem_map_of_mem member
      obtain ⟨isMapping, entries, flattened⟩ := each item (stands.child g item _ member) among
      refine ⟨isMapping, entries, ?_, fun _ _ => trivial⟩
      rw [item.given_mapping start isMapping, flattened]
    obtain ⟨lists, listed, -⟩ := Tree.listed_ok (fun _ => True) start items all
    refine ⟨lists.reverse.flatten, ?_, fun _ _ => trivial⟩
    rw [Tree.given, listed]
    rfl

theorem Merges.flattens {id : NodeId} (merges : g.Merges id) (t : Tree) (stands : t.Stands g)
    (same : t.id = id) : ∃ entries, t.flattened = .ok entries := by
  induction merges generalizing t with
  | of id isMapping sources ih =>
    subst same
    rw [stands.kind g t] at isMapping
    cases t with
    | scalar id tag start text => cases isMapping
    | sequence id tag start items => cases isMapping
    | mapping id tag start pairs =>
      have each (pair : Tree × Tree) (member : pair ∈ pairs) (isMerge : pair.1.isMerge = true) :
          ∃ first, pair.2.given start = .ok first ∧ ∀ entry ∈ first, True := by
        obtain ⟨keyBelow, valueBelow⟩ := Tree.mem_children_mapping id tag start pairs pair member
        have written : (pair.1.id, pair.2.id) ∈ (g.node id).pairs := by
          rw [show g.node id = _ from stands.here g]
          exact List.mem_map_of_mem member
        have tagged : (g.node pair.1.id).tag = .merge := by
          rw [← beq_iff_eq, (stands.child g pair.1 _ keyBelow).isMerge, isMerge]
        have below := stands.child g pair.2 _ valueBelow
        refine given_of_sources g start pair.2 below fun item other among => ?_
        have merges := sources _ written tagged item.id among
        refine ⟨?_, ih _ written tagged item.id among item other rfl⟩
        rw [← other.kind g item, merges.isMapping g]
      obtain ⟨more, merged, -⟩ := Tree.merged_ok (fun _ => True) start pairs each
      refine ⟨more ++ Tree.own pairs, ?_⟩
      rw [Tree.flattened, merged]
      rfl

end Graph

structure Graph.IsFinite (g : Graph) : Prop where
  closed : g.IsClosed
  acyclic : ∀ id, ¬Relation.TransGen g.Holds id id

namespace Graph.IsFinite

variable (g : Graph) (finite : g.IsFinite)

include finite

theorem exists_tree (id : NodeId) :
    ∃ t : Tree, t.Stands g ∧ t.id = id ∧ t.height ≤ g.nodes.size + 1 := by
  obtain ⟨t, ⟨stands, small⟩, same⟩ := Tree.exists_standing_of g g.nodes.size id
    (fun other _ => finite.acyclic other) (g.card_below_le id)
  exact ⟨t, stands, same, small⟩

theorem inside_of_holds (holder held : NodeId) (holds : g.Holds holder held) :
    held < g.nodes.size :=
  finite.closed.held holder (g.lt_size_of_holds holder held holds) held holds

theorem inside_of_below (s t : Tree) (stands : t.Stands g) (below : Tree.Below s t) :
    s.id < g.nodes.size := by
  obtain ⟨child, member, within⟩ := below
  have path := (stands.child g child t member).reaches g s child within
  obtain ⟨holder, -, holds⟩ :=
    Relation.TransGen.tail'_iff.mp (.head' (stands.holds g child t member) path)
  exact finite.inside_of_holds g holder s.id holds

theorem inside_of_recalls (nodes : Array Node) (recalls : Recalls g [] nodes) (id child : NodeId)
    (member : child ∈ (nodes.getD id default).content.children) : child < nodes.size := by
  rw [recalls.size]
  obtain ⟨t, stands, rfl, -⟩ := finite.exists_tree g id
  have written (same : (nodes.getD t.id default).content = t.node.content) :
    child < g.nodes.size := by
    rw [same, ← stands.here] at member
    exact finite.inside_of_holds g t.id child member
  by_cases isMapping : t.kind = .mapping
  · rcases recalls.pairs t stands isMapping List.not_mem_nil with same
      | ⟨entries, flattened, content⟩
    · exact written same
    · rw [content] at member
      obtain ⟨pair, among, which⟩ := List.mem_flatMap.mp member
      obtain ⟨entry, there, rfl⟩ := List.mem_map.mp among
      have below := Tree.below_of_flattened t entries flattened entry there
      rcases List.mem_cons.mp which with rfl | which
      · exact finite.inside_of_below g entry.1 t stands below.1
      · rw [List.mem_singleton.mp which]
        exact finite.inside_of_below g entry.2 t stands below.2.1
  · exact written (recalls.content_of g [] nodes t stands isMapping)

end Graph.IsFinite

theorem View.Taken.orderly (g : Graph) (finite : g.IsFinite) (flat : List NodeId) (m later : Memory)
    (orderly : m.IsOrderly) (recalls : Recalls g [] m.nodes)
    (taken : (recalling g).Taken flat [] m later) : later.IsOrderly := by
  have nodes : Recalls g [] later.nodes := taken.nodes
  have size : later.nodes.size = m.nodes.size := nodes.size.trans recalls.size.symm
  rw [taken.rest]
  refine ⟨?_, finite.inside_of_recalls g later.nodes nodes, orderly.apart, orderly.distinct, ?_, ?_⟩
  · change m.built.size = later.nodes.size
    rw [size, orderly.size]
  · intro id member
    change id < later.nodes.size
    rw [size]
    exact orderly.inside id member
  · intro id member
    change id < later.nodes.size
    rw [size]
    exact orderly.waiting id member

namespace Graph

def explicit (g : Graph) (id : NodeId) : List (NodeId × NodeId) :=
  (g.node id).pairs.filter fun pair => (g.node pair.1).tag != .merge

theorem explicit_of (g : Graph) (t : Tree) (stands : t.Stands g) (isMapping : t.kind = .mapping) :
    g.explicit t.id = Tree.idsOf (Tree.own t.pairs) := by
  rw [explicit, stands.here, Node.pairs, t.content_mapping isMapping]
  change (t.pairs.map _).filter _ = (t.pairs.filter _).map _
  rw [List.filter_map]
  refine congrArg _ (List.filter_congr fun pair member => ?_)
  have key := (t.mem_children_of_pair pair member).1
  rw [← (stands.child g pair.1 _ key).isMerge]
  rfl

end Graph

/-- Mappings of the usual tag were built of what they inherit and their own pairs. -/
def Graph.Inherits (g : Graph) (built : Array (Option Value)) : Prop :=
  ∀ t : Tree, t.Stands g → t.kind = .mapping → t.tag = .map → ∀ all, t.flattened = .ok all →
    ∀ value, built.getD t.id none = some value →
      ∃ entries, value = .map entries ∧ Entered built (Tree.idsOf all) entries

namespace Build

def inherit (build : NodeBuilder) (path : List String) (start : Position) :
    List (NodeId × NodeId) → List (Scalar × Value) → Build (List (Scalar × Value))
  | [], entries => return entries
  | (keyId, valueId) :: rest, entries => do
      let place := (← node keyId).start
      let key ← hashable start place (← build path keyId)
      let leadsOn := (← node valueId).isCollection
      demand (!leadsOn || key.isWritable) (.breakdown .keyTooLong)
      let value ← build (if leadsOn then key.text :: path else path) valueId
      inherit build path start rest (putEntry entries key value)

theorem entriesFrom_inherited (build : NodeBuilder) (path : List String) (start : Position)
    (inherited own : List (NodeId × NodeId)) (entries : List (Scalar × Value)) :
    entriesFrom build path start (inherited ++ own) inherited.length [] entries =
      inherit build path start inherited entries >>= entriesFrom build path start own 0 [] := by
  induction inherited generalizing entries with
  | nil => rw [inherit, pure_bind, List.nil_append, List.length_nil]
  | cons pair rest ih =>
    obtain ⟨keyId, valueId⟩ := pair
    simp only [List.cons_append, entriesFrom, inherit, List.length_cons, bind_assoc, announceIf]
    simp [ih]

variable (g : Graph)

def inheriting : Invariant where
  holds := fun m => Recalls g [] m.nodes ∧ g.PairsWithin m.pairCount ∧ g.Inherits m.built
  failed := fun _ => True
  made := fun id entries m => ∀ t : Tree, t.Stands g → t.id = id → t.kind = .mapping →
    ∀ all, t.flattened = .ok all → Entered m.built (Tree.idsOf all) entries
  weakens := fun _ _ => trivial

theorem round_inheriting (pairs : List (NodeId × NodeId)) :
    Round (inheriting g) fun rest _ _ entries m => ∃ done, done ++ rest = pairs ∧
      Entered m.built done entries where
  grows := by
    rintro rest _ _ entries m later ⟨done, whole, entered⟩ grown
    exact ⟨done, whole, entered.mono m later done entries grown⟩
  tells := by
    rintro pair rest _ _ entries before m path key - orderly holds - -
    exact keeps_announceIf m orderly holds _ path key _ fun _ _ => holds
  goes := by
    rintro pair rest _ _ entries m key value ⟨done, whole, entered⟩ named made
    refine ⟨done ++ [pair], ?_, .next done entries pair key value entered named made⟩
    rw [List.append_assoc, List.singleton_append, whole]

variable (finite : g.IsFinite) (m : Memory) (orderly : m.IsOrderly) (holds : (inheriting g).holds m)

include finite orderly holds

omit orderly in
theorem ends_flattened (t : Tree) (stands : t.Stands g) (isMapping : t.kind = .mapping) :
    Ends (flatten (m.pairCount + m.nodes.size + 1) t.id) m (t.flattened.map fun _ => ())
      fun _ later =>
      (recalling g).Taken (t.flattens ++ []) [] m later ∧ ∀ all, t.flattened = .ok all →
        (later.nodes.getD t.id default).content = .mapping (Tree.idsOf all) := by
  have size := holds.1.size
  have small : t.height ≤ g.nodes.size + 1 := by
    obtain ⟨other, standing, same, small⟩ := finite.exists_tree g t.id
    rwa [standing.unique g other t stands same] at small
  exact (recalling g).flattens m.pairCount holds.2.1 _ (g.nodes.size + 1) (by omega) t []
    [] m stands
    isMapping small (fun _ _ => List.not_mem_nil) holds.1

theorem keeps_flattened (t : Tree) (stands : t.Stands g) (isMapping : t.kind = .mapping) :
    Keeps (inheriting g) m (flatten (m.pairCount + m.nodes.size + 1) t.id) fun _ later =>
      ∃ all, t.flattened = .ok all ∧
        (later.nodes.getD t.id default).content = .mapping (Tree.idsOf all) := by
  have run := ends_flattened g finite m holds t stands isMapping
  obtain ⟨recalls, few, inherits⟩ := holds
  unfold Keeps
  cases flattened : t.flattened with
  | error stop =>
    rw [flattened] at run
    obtain ⟨later, ran⟩ := run
    rw [ran]
    trivial
  | ok all =>
    rw [flattened] at run
    obtain ⟨later, ran, taken, held⟩ := run
    have nodes : Recalls g [] later.nodes := taken.nodes
    have rest := taken.rest
    rw [ran]
    refine ⟨⟨taken.orderly g finite _ m later orderly recalls, ⟨nodes, ?_, ?_⟩, ⟨?_, ?_, ?_⟩⟩, ?_,
      all, rfl, held all rfl⟩
    · rw [rest]
      exact few
    · rw [rest]
      exact inherits
    · rw [nodes.size, recalls.size]
    · rw [rest]
    · rw [rest]
      exact fun _ _ built => built
    · rw [rest]

theorem keeps_inherited (fuel : Nat) (build : NodeBuilder)
    (builds : Upholds (inheriting g) fuel build)
    (path : List String) (id : NodeId) (deep : m.HasDepth fuel) :
    Keeps (inheriting g) m (mappingEntries build path id) ((inheriting g).made id) := by
  obtain ⟨t, stands, rfl, small⟩ := finite.exists_tree g id
  have kind := (recalling g).kind [] [] m.nodes holds.1 t stands List.not_mem_nil
  refine keeps_mappingEntries m fuel build builds path orderly holds deep t.id _ _
    (fun isMapping => keeps_flattened g finite m orderly holds t stands (kind.symm.trans isMapping))
      ?_ ?_
  · intro other s unfolds same isMapping
    rw [unfolds.unique g s t stands same, ← kind] at isMapping
    contradiction
  · rintro later kept ⟨all, flattened, held⟩
    refine ⟨_, round_inheriting g _, ⟨[], rfl, .nil⟩, ?_⟩
    rintro - - entries last ⟨done, whole, entered⟩ s unfolds equal - every other
    rw [unfolds.unique g s t stands equal, flattened] at other
    cases other
    rw [List.append_nil, Node.pairs, held] at whole
    rwa [whole] at entered

omit orderly in
theorem on_mappingEntries_written (build : NodeBuilder) (path : List String) (t : Tree)
    (stands : t.Stands g)
    (isMapping : t.kind = .mapping) (inherited : List (Tree × Tree))
    (merged : Tree.merged t.start t.pairs = .ok inherited)
    (written : (m.nodes.getD t.id default).content = (g.node t.id).content) :
    ∃ flat, on (flatten (m.pairCount + m.nodes.size + 1) t.id) m = (.ok (), flat) ∧
      (flat.nodes.getD t.id default).pairs = Tree.idsOf inherited ++ g.explicit t.id ∧
      on (mappingEntries build path t.id) m =
        on (inherit build path t.start (Tree.idsOf inherited) [] >>=
          entriesFrom build path t.start (g.explicit t.id) 0 []) flat := by
  have run := ends_flattened g finite m holds t stands isMapping
  rw [t.flattened_of_merged isMapping inherited merged] at run
  obtain ⟨flat, ran, -, held⟩ := run
  have all : (flat.nodes.getD t.id default).pairs = Tree.idsOf inherited ++ g.explicit t.id := by
    rw [Node.pairs, held _ rfl, g.explicit_of t stands isMapping]
    exact List.map_append
  have content : (m.nodes.getD t.id default).content = .mapping (Tree.idsOf t.pairs) := by
    rw [written, stands.here, t.content_mapping isMapping]
  -- The memory tells the same merge keys as the graph.
  have own : ((Tree.idsOf t.pairs).filter fun pair => !hasTag m.nodes .merge pair.1) =
    g.explicit t.id := by
    rw [Graph.explicit, stands.here, Node.pairs, t.content_mapping isMapping]
    refine List.filter_congr fun pair member => ?_
    obtain ⟨entry, there, rfl⟩ := List.mem_map.mp member
    have key := t.mem_children_of_pair entry there
    have standing := stands.child g entry.1 t key.1
    have merges := (holds.1.isOf g [] m.nodes entry.1 standing).isMerge
    rw [hasTag, merges, ← standing.isMerge g]
    rfl
  refine ⟨flat, ran, all, ?_⟩
  rw [mappingEntries, on_bind_ok _ _ _ _ _ (on_node t.id m), content]
  dsimp only
  rw [on_get_bind, on_bind_ok _ _ _ _ _ ran, on_bind_ok _ _ _ _ _ (on_pairsOf t.id flat), all, own,
    List.length_append, Nat.add_sub_cancel, (holds.1.isOf g [] m.nodes t stands).start_eq,
    entriesFrom_inherited]

omit orderly holds in
theorem upheld_inheriting : Upheld (inheriting g) where
  settled := by
    rintro m later ⟨recalls, few, inherits⟩ grown nodes built -
    refine ⟨?_, ?_, ?_⟩
    · rwa [nodes]
    · rwa [grown.pairCount]
    · rwa [built]
  entries := fun fuel build path id m builds orderly holds _ deep =>
    keeps_inherited g finite m orderly holds fuel build builds path id deep
  remembers := by
    rintro before m later id value ⟨earlier, -⟩ ⟨recalls, few, inherits⟩ grown nodes - built made
    refine ⟨?_, ?_, fun t stands isMapping tagged all flattened other known => ?_⟩
    · rwa [nodes]
    · rwa [grown.pairCount]
    · rw [built, getD_setIfInBounds] at known
      split at known
      · next here =>
        cases known
        have written : (g.node t.id).tag = .map := by rw [stands.here, t.tag_node, tagged]
        have unchanged : (before.nodes.getD id default).tag = .map := by
          rw [here.1]
          rcases earlier.tag t.id with same | ⟨value, -⟩
          · rw [same, written]
          · rw [written] at value
            contradiction
        obtain ⟨entries, same, entered⟩ := made unchanged
        exact ⟨entries, same,
          (entered t stands here.1.symm isMapping all flattened).mono m later _ entries grown⟩
      · obtain ⟨entries, same, entered⟩ :=
          inherits t stands isMapping tagged all flattened other known
        exact ⟨entries, same, entered.mono m later _ entries grown⟩

end Build

namespace Graph

variable (g : Graph)

theorem inheriting_memory (channel : Channel) : (Build.inheriting g).holds (g.memory channel) := by
  refine ⟨⟨rfl, fun _ => rfl, fun _ => .inl rfl, fun _ _ => rfl, ?_⟩, g.pairsWithin channel, ?_⟩
  · exact fun t stands _ _ => .inl (congrArg Node.content (stands.here g))
  · intro t _ _ _ _ _ value built
    simp [memory, Array.getD] at built

end Graph

-- Under each key, the entries have the value of the node that the tree of the mapping provides.
def Tree.Provides (t : Tree) (built : Array (Option Value)) (entries : List (Scalar × Value)) :
    Prop :=
  ∀ key, lookupKey entries key =
    (t.provided (isKeyIn built key)).bind fun value => built.getD value.id none

theorem Entered.provides (t : Tree) (isMapping : t.kind = .mapping) (all : List (Tree × Tree))
    (flattened : t.flattened = .ok all) (built : Array (Option Value))
    (entries : List (Scalar × Value))
    (entered : Entered built (Tree.idsOf all) entries) : t.Provides built entries := by
  intro key
  rw [entered.lookupKey_eq, Tree.find?_idsOf, Tree.lastOf_given _ t.start t all]
  rw [t.given_mapping t.start isMapping, flattened]

structure Memory.Builds (g : Graph) (m : Memory) : Prop where
  orderly : m.IsOrderly
  inheriting : (Build.inheriting g).holds m

structure Tree.MergesFrom (g : Graph) (t : Tree) (build : Build.NodeBuilder) (path : List String)
    (m : Memory) : Prop where
  entered : ∃ inherited flat, Tree.merged t.start t.pairs = .ok inherited ∧
    Build.on (Build.flatten (m.pairCount + m.nodes.size + 1) t.id) m = (.ok (), flat) ∧
    (flat.nodes.getD t.id default).pairs = Tree.idsOf inherited ++ g.explicit t.id ∧
    Build.on (Build.mappingEntries build path t.id) m =
      Build.on (Build.inherit build path t.start (Tree.idsOf inherited) [] >>=
        Build.entriesFrom build path t.start (g.explicit t.id) 0 []) flat
  provides : ∀ entries last,
    Build.on (Build.mappingEntries build path t.id) m = (.ok entries, last) →
    t.Provides last.built entries

namespace Graph

variable (g : Graph) (finite : g.IsFinite)

theorem builds_memory (channel : Channel) (closed : g.IsClosed) : (g.memory channel).Builds g :=
  ⟨g.isOrderly_memory channel closed, g.inheriting_memory channel⟩

include finite

theorem builds_object (fuel : Nat) (within : Bool) (path : List String) (id : NodeId)
    (m last : Memory)
    (value : Value) (builds : m.Builds g) (inside : id < g.nodes.size) (deep : m.HasDepth fuel)
    (run : Build.on (Build.object fuel within path id) m = (.ok value, last)) : last.Builds g := by
  have keeps :=
    Build.upholds_object (Build.upheld_inheriting g finite) fuel within path id m builds.orderly
    builds.inheriting (by rw [builds.inheriting.1.size]; exact inside) deep
  unfold Build.Keeps at keeps
  rw [run] at keeps
  exact ⟨keeps.1.orderly, keeps.1.holds⟩

theorem build_inherits (channel : Channel) (value : Value)
    (read : (g.read channel).outcome = .ok value) : g.Inherits (g.builtBy channel) := by
  have keeps := g.keeps_build channel finite.closed _ (Build.upheld_inheriting g finite)
    (g.inheriting_memory channel)
  have run : (Build.on g.build (g.memory channel)).1 = .ok value := read
  rw [builtBy]
  unfold Build.Keeps at keeps
  cases ending : Build.on g.build (g.memory channel) with
  | mk result later =>
    rw [ending] at keeps run
    cases run
    exact keeps.1.holds.2.2

theorem mergesFrom (t : Tree) (stands : t.Stands g) (merges : g.Merges t.id) (fuel : Nat)
    (within : Bool)
    (path : List String) (m : Memory) (builds : m.Builds g) (deep : m.HasDepth fuel)
    (written : (m.nodes.getD t.id default).content = (g.node t.id).content) :
    t.MergesFrom g (Build.object fuel within) path m := by
  have isMapping : t.kind = .mapping := by rw [← stands.kind g t, merges.isMapping g]
  obtain ⟨all, flattened⟩ := merges.flattens g t stands rfl
  refine ⟨?_, fun entries last run => ?_⟩
  · obtain ⟨inherited, merged, -⟩ := t.flattened_eq_ok isMapping all flattened
    obtain ⟨flat, ran, pairs, same⟩ := Build.on_mappingEntries_written g finite m builds.inheriting
      (Build.object fuel within) path t stands isMapping inherited merged written
    exact ⟨inherited, flat, merged, ran, pairs, same⟩
  · have keeps := Build.keeps_inherited g finite m builds.orderly builds.inheriting fuel _
      (Build.upholds_object (Build.upheld_inheriting g finite) fuel within) path t.id deep
    unfold Build.Keeps at keeps
    rw [run] at keeps
    have entered := keeps.2.2 t stands rfl isMapping all flattened
    exact entered.provides t isMapping all flattened last.built entries

theorem build_merged (id : NodeId) (merges : g.Merges id) :
    (∀ channel, (g.memory channel).Builds g) ∧
    (∀ fuel within path other (m last : Memory) value, m.Builds g → other < g.nodes.size →
      m.HasDepth fuel → Build.on (Build.object fuel within path other) m = (.ok value, last) →
        last.Builds g) ∧
    ∃ t : Tree, t.Stands g ∧ t.id = id ∧
      (∀ fuel within path (m : Memory), m.Builds g → m.HasDepth fuel →
        (m.nodes.getD id default).content = (g.node id).content →
          t.MergesFrom g (Build.object fuel within) path m) ∧
      ∀ channel value, (g.read channel).outcome = .ok value → (g.node id).tag = .map →
        ∀ made, (g.builtBy channel).getD id none = some made →
          ∃ entries, made = .map entries ∧ t.Provides (g.builtBy channel) entries := by
  refine ⟨fun channel => g.builds_memory channel finite.closed, ?_, ?_⟩
  · exact fun fuel within path other m last value => g.builds_object finite fuel within path other m
      last value
  · obtain ⟨t, stands, rfl, -⟩ := finite.exists_tree g id
    refine ⟨t, stands, rfl, g.mergesFrom finite t stands merges, ?_⟩
    intro channel value read tagged made built
    have isMapping : t.kind = .mapping := by rw [← stands.kind g t, merges.isMapping g]
    obtain ⟨all, flattened⟩ := merges.flattens g t stands rfl
    rw [stands.here, t.tag_node] at tagged
    obtain ⟨entries, same, entered⟩ :=
      g.build_inherits finite channel value read t stands isMapping tagged all flattened made built
    exact ⟨entries, same, entered.provides t isMapping all flattened _ entries⟩

end Graph

def scalarAt (tag : Tag) (text : String) : Node := ⟨.scalar (text.toList.map .char), tag, ⟨0, 0, 0⟩⟩

def collectionAt (tag : Tag) (content : Content) : Node := ⟨content, tag, ⟨0, 0, 0⟩⟩

-- The last mapping merges a list of the two before it, then one of its own, and has a pair itself.
def layered : Graph where
  root := 0
  nodes := #[collectionAt .map (.mapping [(1, 2), (3, 4), (5, 6)]),
    scalarAt .str "first", collectionAt .map (.mapping [(7, 8), (9, 8)]),
    scalarAt .str "second", collectionAt .map (.mapping [(9, 10), (11, 10)]),
    scalarAt .str "whole", collectionAt .map (.mapping [(12, 13), (12, 14), (15, 17)]),
    scalarAt .str "a", scalarAt .int "1", scalarAt .str "b", scalarAt .int "2", scalarAt .str "c",
    scalarAt .merge "<<", collectionAt .seq (.sequence [2, 4]),
    collectionAt .map (.mapping [(11, 16), (15, 16)]),
    scalarAt .str "d", scalarAt .int "3", scalarAt .int "4"]

set_option maxRecDepth 20000 in
theorem layered_merged :
    ∃ t : Tree, t.Stands layered ∧ t.id = 6 ∧
      t.MergesFrom layered (Build.object 19 true) [] (layered.memory Channel.outermost) ∧
      ∃ entries, (layered.builtBy Channel.outermost).getD 6 none = some (.map entries) ∧
        t.Provides (layered.builtBy Channel.outermost) entries ∧
        entries = [(.string "b", .scalar (.int 1)), (.string "c", .scalar (.int 3)),
          (.string "a", .scalar (.int 1)), (.string "d", .scalar (.int 4))] := by
  have finite : layered.IsFinite :=
    ⟨by decide, layered.no_cycle_of_rank
      (fun id => [4, 0, 1, 0, 1, 0, 3, 0, 0, 0, 0, 0, 0, 2, 1].getD id 0) (by decide)⟩
  have plain : ∀ id, id = 2 ∨ id = 4 ∨ id = 14 → (layered.node id).kind = .mapping ∧
      ∀ pair ∈ (layered.node id).pairs, (layered.node pair.1).tag ≠ .merge := by
    rintro id (rfl | rfl | rfl) <;> decide
  have leaf (id : NodeId) (among : id = 2 ∨ id = 4 ∨ id = 14) : layered.Merges id :=
    .of id (plain id among).1 fun pair member tagged =>
      absurd tagged ((plain id among).2 pair member)
  have sources : ∀ pair ∈ (layered.node 6).pairs, (layered.node pair.1).tag = .merge →
      ∀ item ∈ layered.sources pair.2, item = 2 ∨ item = 4 ∨ item = 14 := by decide
  have merges : layered.Merges 6 :=
    .of 6 (by decide) fun pair member tagged item among =>
      leaf item (sources pair member tagged item among)
  obtain ⟨start, -, t, stands, same, states, reads⟩ := layered.build_merged finite 6 merges
  have built : (layered.builtBy Channel.outermost).getD 6 none =
      some (.map [(.string "b", .scalar (.int 1)), (.string "c", .scalar (.int 3)),
        (.string "a", .scalar (.int 1)), (.string "d", .scalar (.int 4))]) := rfl
  obtain ⟨value, read⟩ : ∃ value, (layered.read Channel.outermost).outcome = .ok value := ⟨_, rfl⟩
  have deep : (layered.memory Channel.outermost).HasDepth 19 := show 18 < 0 + 19 by decide
  obtain ⟨entries, equal, provides⟩ := reads Channel.outermost value read (by decide) _ built
  cases equal
  exact ⟨t, stands, same, states 19 true [] _ (start Channel.outermost) deep rfl, _, built,
    provides, rfl⟩

end LocaleLint.Yaml
