import LocaleLint.Proofs.Yaml.Merge
import LocaleLint.Proofs.Yaml.Run

set_option autoImplicit false

namespace LocaleLint.Yaml

structure Node.Becomes (node later : Node) : Prop where
  content : later.content = node.content
  start : later.start = node.start
  tag : later.tag = node.tag ∨ node.tag = .value ∧ later.tag = .str

theorem Node.Becomes.refl (node : Node) : node.Becomes node := ⟨rfl, rfl, .inl rfl⟩

theorem Node.Becomes.trans (node middle later : Node) (first : node.Becomes middle)
    (next : middle.Becomes later) : node.Becomes later where
  content := next.content.trans first.content
  start := next.start.trans first.start
  tag := by
    rcases first.tag with same | ⟨value, str⟩
    · rw [← same]
      exact next.tag
    · rcases next.tag with same | ⟨value', -⟩
      · exact .inr ⟨value, same.trans str⟩
      · rw [str] at value'
        contradiction

theorem Node.Becomes.plain {node later : Node} (becomes : node.Becomes later)
    (plain : node.tag ≠ .value) : later.tag ≠ .value := by
  rcases becomes.tag with same | ⟨value, -⟩
  · rwa [same]
  · contradiction

def Node.IsOf (node : Node) (t : Tree) : Prop :=
  ({ t.node with content := node.content } : Node).Becomes node

namespace Node.IsOf

variable (node later : Node) (t : Tree) (isOf : node.IsOf t)

include isOf

theorem becomes (becomes : node.Becomes later) : later.IsOf t := by
  rw [IsOf, becomes.content]
  exact Node.Becomes.trans _ _ _ isOf becomes

theorem withContent (content : Content) : ({ node with content := content } : Node).IsOf t :=
  ⟨rfl, isOf.start, isOf.tag⟩

theorem start_eq : node.start = t.start :=
  isOf.start.trans t.start_node

theorem isMerge : (node.tag == .merge) = t.isMerge := by
  rcases isOf.tag with same | ⟨value, str⟩
  · rw [same]
    exact congrArg (· == Tag.merge) t.tag_node
  · rw [str, Tree.isMerge, ← t.tag_node, value]
    rfl

end Node.IsOf

namespace Build

def plainKey (nodes : Array Node) (pair : NodeId × NodeId) : Array Node :=
  if hasTag nodes .value pair.1 then nodes.modify pair.1 fun node => { node with tag := .str }
  else nodes

theorem becomes_plainKey (nodes : Array Node) (pair : NodeId × NodeId) (id : NodeId) :
    (nodes.getD id default).Becomes ((plainKey nodes pair).getD id default) := by
  unfold plainKey
  split
  · next tagged =>
    rw [getD_modify]
    split
    · next here => exact ⟨rfl, rfl, .inr ⟨by rw [← here.1]; exact beq_iff_eq.mp tagged, rfl⟩⟩
    · exact .refl _
  · exact .refl _

theorem becomes_plainKeys (pairs : List (NodeId × NodeId)) (nodes : Array Node) (id : NodeId) :
    (nodes.getD id default).Becomes ((pairs.foldl plainKey nodes).getD id default) := by
  induction pairs generalizing nodes with
  | nil => exact .refl _
  | cons pair rest ih => exact (becomes_plainKey nodes pair id).trans _ _ _ (ih _)

theorem size_plainKeys (pairs : List (NodeId × NodeId)) (nodes : Array Node) :
    (pairs.foldl plainKey nodes).size = nodes.size := by
  induction pairs generalizing nodes with
  | nil => rfl
  | cons pair rest ih =>
    rw [List.foldl_cons, ih, plainKey]
    split
    · exact Array.size_modify
    · rfl

theorem on_plainValueKeys (pairs : List (NodeId × NodeId)) (m : Memory) :
    on (plainValueKeys pairs) m = (.ok (), { m with nodes := pairs.foldl plainKey m.nodes }) :=
  rfl

theorem on_setPairs (id : NodeId) (ids : List (NodeId × NodeId)) (m : Memory) :
    on (setPairs id ids) m =
      (.ok (), { m with nodes := m.nodes.modify id fun node =>
        { node with content := .mapping ids } }) :=
  rfl

end Build

namespace Tree

def Free (busy : List NodeId) (t : Tree) : Prop := ∀ s ∈ t.parts, s.id ∉ busy

theorem Free.part (busy : List NodeId) (s t : Tree) (free : t.Free busy) (within : s ∈ t.parts) :
    s.Free busy :=
  fun r inner => free r (parts_trans r s t inner within)

theorem Free.below (g : Graph) (busy : List NodeId) (s t : Tree) (free : t.Free busy)
    (stands : t.Stands g) (below : Below s t) : s.Free (t.id :: busy) := by
  obtain ⟨child, member, within⟩ := below
  intro r inner
  have inside : r ∈ child.parts := parts_trans r s child inner within
  have whole : r ∈ t.parts := parts_trans r child t inside (mem_parts_of_child child t member)
  rw [List.mem_cons, not_or]
  exact ⟨stands.id_ne_of_below g r child t member inside, free r whole⟩

end Tree

def Graph.PairsWithin (g : Graph) (most : Nat) : Prop := ∀ id, (g.node id).pairs.length ≤ most

/-- What is known of the nodes of some trees of a graph, when the mappings of `flat` have lost their
merge keys; nothing has to be known of those that are being worked on. -/
structure View (g : Graph) where
  covers : Tree → Prop
  shows : (flat busy : List NodeId) → Array Node → Prop
  stands : ∀ t, covers t → t.Stands g
  child : ∀ s t, covers t → s ∈ t.children → covers s
  size : ∀ flat busy nodes, shows flat busy nodes → nodes.size = g.nodes.size
  isOf : ∀ flat busy nodes t, shows flat busy nodes → covers t → t.id ∉ busy →
    (nodes.getD t.id default).IsOf t
  content : ∀ flat busy nodes t, shows flat busy nodes → covers t → t.id ∉ busy →
    t.kind ≠ .mapping →
    (nodes.getD t.id default).content = t.node.content
  -- A mapping is as it was written, or it was flattened before; then nothing is left to take out.
  pairs : ∀ flat busy nodes t, shows flat busy nodes → covers t → t.id ∉ busy → t.kind = .mapping →
    (nodes.getD t.id default).content = t.node.content ∨
      ∃ entries, t.flattened = .ok entries ∧
        (nodes.getD t.id default).content = .mapping (Tree.idsOf entries) ∧
          shows (t.flattens ++ flat) busy nodes
  congr : ∀ flat other busy nodes, (∀ id, id ∈ flat ↔ id ∈ other) → shows flat busy nodes →
    shows other busy nodes
  -- What is known while a mapping is worked on, and when that is done.
  working : ∀ flat busy nodes id, shows flat busy nodes → shows flat (id :: busy) nodes
  setPairs : ∀ flat busy nodes t ids, covers t → t.kind = .mapping →
    shows flat (t.id :: busy) nodes →
    shows flat (t.id :: busy) (nodes.modify t.id fun node => { node with content := .mapping ids })
  plainKeys : ∀ flat busy nodes pairs, (∀ pair ∈ pairs, covers pair.1 ∧ pair.1.id ∉ busy) →
    shows flat busy nodes → shows flat busy ((Tree.idsOf pairs).foldl Build.plainKey nodes)
  release : ∀ flat busy nodes t entries, covers t → t.kind = .mapping → t.flattened = .ok entries →
    (nodes.getD t.id default).IsOf t →
      (nodes.getD t.id default).content = .mapping (Tree.idsOf entries) →
        (∀ id ∈ t.flattens, id = t.id ∨ id ∈ flat) → shows flat (t.id :: busy) nodes →
          shows (t.flattens ++ flat) busy nodes

namespace View

variable {g : Graph} (v : View g)

structure Taken (flat busy : List NodeId) (m later : Memory) : Prop where
  rest : later = { m with nodes := later.nodes }
  nodes : v.shows flat busy later.nodes
  kept : ∀ id ∈ busy, (m.nodes.getD id default).Becomes (later.nodes.getD id default)

theorem Taken.refl (flat busy : List NodeId) (m : Memory) (shows : v.shows flat busy m.nodes) :
    v.Taken flat busy m m :=
  ⟨rfl, shows, fun _ _ => .refl _⟩

theorem Taken.trans (flat other busy : List NodeId) (m middle later : Memory)
    (first : v.Taken flat busy m middle) (next : v.Taken other busy middle later) :
    v.Taken other busy m later where
  rest := by rw [next.rest, first.rest]
  nodes := next.nodes
  kept := fun id worked => (first.kept id worked).trans _ _ _ (next.kept id worked)

theorem Taken.congr (flat other busy : List NodeId) (m later : Memory)
    (same : ∀ id, id ∈ flat ↔ id ∈ other) (taken : v.Taken flat busy m later) :
    v.Taken other busy m later :=
  { taken with nodes := v.congr flat other busy later.nodes same taken.nodes }

def Flattens (flattenNode : NodeId → Build Unit) (bound : Nat) : Prop :=
  ∀ (t : Tree) (flat busy : List NodeId) (m : Memory), v.covers t → t.kind = .mapping →
    t.height ≤ bound → t.Free busy → v.shows flat busy m.nodes →
      Build.Ends (flattenNode t.id) m (t.flattened.map fun _ => ()) fun _ later =>
        v.Taken (t.flattens ++ flat) busy m later ∧ ∀ entries, t.flattened = .ok entries →
          (later.nodes.getD t.id default).content = .mapping (Tree.idsOf entries)

theorem covers_of_part (s t : Tree) (covers : v.covers t) (within : s ∈ t.parts) : v.covers s := by
  induction t using Tree.induction with
  | step t ih =>
    rcases (Tree.mem_parts_iff s t).mp within with rfl | ⟨child, below, inside⟩
    · exact covers
    · exact ih child below (v.child child t covers below) inside

section Shown

variable (flat busy : List NodeId) (nodes : Array Node) (shown : v.shows flat busy nodes) (t : Tree)
  (covers : v.covers t) (away : t.id ∉ busy)

include shown covers away

theorem exists_pairs (isMapping : t.kind = .mapping) :
    ∃ ids, (nodes.getD t.id default).content = .mapping ids := by
  rcases v.pairs flat busy nodes t shown covers away isMapping with same | ⟨entries, -, same, -⟩
  · exact ⟨_, same.trans (t.content_mapping isMapping)⟩
  · exact ⟨_, same⟩

theorem kind : (nodes.getD t.id default).kind = t.kind := by
  by_cases isMapping : t.kind = .mapping
  · obtain ⟨ids, content⟩ := v.exists_pairs flat busy nodes shown t covers away isMapping
    rw [isMapping, Node.kind, content]
    rfl
  · rw [Node.kind, v.content flat busy nodes t shown covers away isMapping, ← t.kind_node,
      Node.kind]

end Shown

structure Absorbable (bound : Nat) (busy : List NodeId) (pair : Tree × Tree) : Prop where
  key : v.covers pair.1
  value : v.covers pair.2
  keyAway : pair.1.id ∉ busy
  valueFree : pair.2.Free busy
  small : pair.2.height ≤ bound

theorem Absorbable.of_below (bound : Nat) (busy : List NodeId) (t : Tree) (pair : Tree × Tree)
    (covers : v.covers t) (free : t.Free busy) (small : t.height ≤ bound + 1)
    (key : Tree.Below pair.1 t) (value : Tree.Below pair.2 t) :
    v.Absorbable bound (t.id :: busy) pair where
  key := v.covers_of_part _ _ covers (key.part _ _)
  value := v.covers_of_part _ _ covers (value.part _ _)
  keyAway := free.below g busy _ _ (v.stands t covers) key _ (Tree.mem_parts_self _)
  valueFree := free.below g busy _ _ (v.stands t covers) value
  small := by
    have smaller := value.height_lt _ _
    omega

section Sources

variable {v} {flattenNode : NodeId → Build Unit} {bound : Nat}
  (right : v.Flattens flattenNode bound)
  (start : Position) (flat busy : List NodeId) (m : Memory) (shown : v.shows flat busy m.nodes)

include right shown

theorem ends_listedPairs (items : List Tree)
    (each : ∀ item ∈ items, v.covers item ∧ item.height ≤ bound ∧ item.Free busy) :
    Build.Ends (Build.listedPairs flattenNode start (items.map Tree.id)) m
      ((Tree.listed start items).map (List.map Tree.idsOf)) fun _ later =>
        v.Taken (Tree.itemFlattens items ++ flat) busy m later := by
  induction items generalizing flat m with
  | nil => exact .of_on _ _ _ _ _ rfl (.refl v flat busy m shown)
  | cons item rest ih =>
    obtain ⟨covers, small, free⟩ := each item (List.mem_cons_self ..)
    have away : item.id ∉ busy := free item item.mem_parts_self
    refine .after _ _ _ _ _ _ _ (Build.on_node item.id m) ?_
    rw [v.kind flat busy m.nodes shown item covers away]
    by_cases isMapping : item.kind = .mapping
    · -- The item may have lost its merge keys before, with an item that merges it too.
      have fits : (item.kind == .mapping) = true := by rw [isMapping]; rfl
      rw [fits]
      refine .after _ _ _ _ _ _ _ (Build.on_demand_true _ m) ?_
      have run := right item flat busy m covers isMapping small free shown
      simp only [Tree.listed, fits, if_true, item.given_mapping start isMapping]
      cases flattened : item.flattened with
      | error stop =>
        rw [flattened] at run
        exact .failed _ _ _ _ _ _ run
      | ok entries =>
        rw [flattened] at run
        obtain ⟨middle, ran, first, content⟩ := run
        refine .after _ _ _ _ _ _ _ ran ?_
        refine .after _ _ _ _ _ _ _ (Build.on_pairsOf item.id middle) ?_
        rw [Node.pairs, content entries rfl]
        have later := ih (item.flattens ++ flat) middle first.nodes
          fun item member => each item (List.mem_cons_of_mem _ member)
        cases lists : Tree.listed start rest with
        | error stop =>
          rw [lists] at later
          exact .failed _ _ _ _ _ _ later
        | ok found =>
          rw [lists] at later
          obtain ⟨last, ran, next⟩ := later
          refine .after _ _ _ _ _ _ _ ran (.of_on _ _ _ _ _ rfl ?_)
          refine .congr v _ _ busy m last ?_ (first.trans v _ _ busy m middle last next)
          intro id
          simp only [Tree.itemFlattens, List.mem_append]
          tauto
    · have other : (item.kind == .mapping) = false := by simpa using isMapping
      rw [other]
      simp only [Tree.listed, other, Bool.false_eq_true, if_false]
      refine .failed _ _ _ _ (fun _ _ => True) _ ⟨m, ?_⟩
      rw [Build.on_demand_false, Build.noMergeSource, Build.noMergeSource,
        v.kind flat busy m.nodes shown item covers away,
        (v.isOf flat busy m.nodes item shown covers away).start_eq, item.kind_node, item.start_node]

theorem ends_sourcePairs (source : Tree) (covers : v.covers source) (small : source.height ≤ bound)
    (free : source.Free busy) :
    Build.Ends (Build.sourcePairs flattenNode start source.id) m
      ((source.given start).map Tree.idsOf)
      fun _ later => v.Taken (source.flattens ++ flat) busy m later := by
  have away : source.id ∉ busy := free source source.mem_parts_self
  refine .after _ _ _ _ _ _ _ (Build.on_node source.id m) ?_
  cases source with
  | scalar id tag place text =>
    rw [v.content flat busy m.nodes _ shown covers away nofun,
      (v.isOf flat busy m.nodes _ shown covers away).start_eq]
    exact ⟨m, rfl⟩
  | sequence id tag place items =>
    have below (item : Tree) (member : item ∈ items) :
        v.covers item ∧ item.height ≤ bound ∧ item.Free busy := by
      have child : item ∈ (Tree.sequence id tag place items).children := member
      have smaller := Tree.height_lt_of_child _ item child
      exact ⟨v.child item _ covers child, by omega,
        free.part busy item _ (Tree.mem_parts_of_child item _ child)⟩
    have run := ends_listedPairs right start flat busy m shown items below
    rw [v.content flat busy m.nodes _ shown covers away nofun]
    change Build.Ends (Build.listedPairs flattenNode start (items.map Tree.id) >>= _) m _ _
    simp only [Tree.given]
    cases lists : Tree.listed start items with
    | error stop =>
      rw [lists] at run
      exact .failed _ _ _ _ _ _ run
    | ok found =>
      rw [lists] at run
      obtain ⟨later, ran, taken⟩ := run
      refine .after _ _ _ _ _ _ _ ran (.of_on _ _ _ _ _ ?_ taken)
      simp only [Build.on_pure, Tree.idsOf, List.map_flatten, List.map_reverse]
      rfl
  | mapping id tag place pairs =>
    have run := right _ flat busy m covers rfl small free shown
    obtain ⟨ids, content⟩ := v.exists_pairs flat busy m.nodes shown _ covers away rfl
    rw [content, Tree.given_mapping start _ rfl]
    change Build.Ends (flattenNode id >>= fun _ => Build.pairsOf id) m _ _
    cases flattened : (Tree.mapping id tag place pairs).flattened with
    | error stop =>
      rw [flattened] at run
      exact .failed _ _ _ _ _ _ run
    | ok entries =>
      rw [flattened] at run
      obtain ⟨later, ran, taken, held⟩ := run
      refine .after _ _ _ _ _ _ _ ran (.of_on _ _ _ _ _ ?_ taken)
      have here : (later.nodes.getD id default).content = _ := held entries rfl
      rw [Build.on_pairsOf, Node.pairs, here]

end Sources

structure Absorbed (t : Tree) (pairs : List (Tree × Tree)) (gone : List (NodeId × NodeId))
    (flat busy : List NodeId) (m later : Memory) : Prop where
  rest : later = { m with nodes := later.nodes }
  nodes : v.shows (Tree.pairFlattens pairs ++ flat) (t.id :: busy) later.nodes
  kept : ∀ other ∈ busy, (m.nodes.getD other default).Becomes (later.nodes.getD other default)
  isOf : (later.nodes.getD t.id default).IsOf t
  final : ∀ more, Tree.merged t.start pairs = .ok more →
    (later.nodes.getD t.id default).content = .mapping (gone ++ Tree.idsOf (more ++ Tree.own pairs))

structure Works (bound : Nat) (t : Tree) (pairs : List (Tree × Tree)) (flat busy : List NodeId)
    (m : Memory) : Prop where
  each : ∀ pair ∈ pairs, v.Absorbable bound (t.id :: busy) pair
  shown : v.shows flat (t.id :: busy) m.nodes
  isOf : (m.nodes.getD t.id default).IsOf t
  content : (m.nodes.getD t.id default).content = .mapping (Tree.idsOf pairs)

section Absorb

variable {v} (t : Tree) (covers : v.covers t) (isMapping : t.kind = .mapping) {bound : Nat}
  (flat busy : List NodeId) (away : t.id ∉ busy) (m : Memory) (pairs : List (Tree × Tree))
  (gone : List (NodeId × NodeId)) (works : v.Works bound t pairs flat busy m)

include works in
theorem Works.inside : t.id < m.nodes.size := by
  by_contra outside
  have missing : m.nodes.getD t.id default = default := by simp [Array.getD, outside]
  have content := works.content
  rw [missing] at content
  contradiction

include away in
theorem becomes_modify (change : Node → Node) (other : NodeId) (worked : other ∈ busy) :
    (m.nodes.getD other default).Becomes ((m.nodes.modify t.id change).getD other default) := by
  rw [getD_modify, if_neg]
  · exact .refl _
  · rintro ⟨rfl, -⟩
    exact away worked

include covers isMapping away works

theorem ends_absorb_last (plain : ∀ pair ∈ pairs, pair.1.isMerge = false) :
    Build.Ends (Build.plainValueKeys (Tree.idsOf pairs) >>= fun _ =>
      if !gone.isEmpty then Build.setPairs t.id (gone ++ Tree.idsOf pairs) else pure ()) m (.ok ())
      fun _ later => v.Absorbed t pairs gone flat busy m later := by
  obtain ⟨nothing, owns, none⟩ := Tree.merged_of_plain t.start pairs plain
  let textual : Memory := { m with nodes := (Tree.idsOf pairs).foldl Build.plainKey m.nodes }
  have becomes (id : NodeId) : (m.nodes.getD id default).Becomes (textual.nodes.getD id default) :=
    Build.becomes_plainKeys _ m.nodes id
  have shown : v.shows flat (t.id :: busy) textual.nodes :=
    v.plainKeys flat _ m.nodes pairs (fun pair member => ⟨(works.each pair member).key,
      (works.each pair member).keyAway⟩) works.shown
  have isOf := works.isOf.becomes _ _ _ (becomes t.id)
  have whole (more : List (Tree × Tree)) (merged : Tree.merged t.start pairs = .ok more) :
      Tree.idsOf (more ++ Tree.own pairs) = Tree.idsOf pairs := by
    rw [nothing] at merged
    cases merged
    rw [List.nil_append, owns]
  refine .after _ _ _ _ _ _ _ (Build.on_plainValueKeys _ m) ?_
  by_cases empty : gone.isEmpty = true
  · rw [List.isEmpty_iff] at empty
    subst empty
    refine .of_on _ _ _ _ _ rfl ⟨rfl, ?_, fun other _ => becomes other, isOf, fun more merged => ?_⟩
    · rw [none]
      exact shown
    · rw [whole more merged, List.nil_append, (becomes t.id).content, works.content]
  · have inside : t.id < textual.nodes.size := by
      rw [Build.size_plainKeys]
      exact works.inside t flat busy m pairs
    rw [if_pos (by simpa using empty)]
    refine .of_on _ _ _ _ _ (Build.on_setPairs t.id _ textual) ⟨rfl, ?_, ?_, ?_, ?_⟩
    · rw [none]
      exact v.setPairs flat busy _ t _ covers isMapping shown
    · intro other worked
      exact (becomes other).trans _ _ _ (becomes_modify t busy away textual _ other worked)
    · rw [getD_modify, if_pos ⟨rfl, inside⟩]
      exact isOf.withContent _ _ _
    · intro more merged
      rw [getD_modify, if_pos ⟨rfl, inside⟩, whole more merged]

omit isMapping covers works in
theorem Absorbed.of_source (others first : List (Tree × Tree)) (source : Tree)
    (middle later : Memory)
    (change : Node → Node) (taken : Build.takeMerge? Tree.isMerge pairs = some (source, others))
    (given : source.given t.start = .ok first)
    (gives : v.Taken (source.flattens ++ flat) (t.id :: busy)
      { m with nodes := m.nodes.modify t.id change } middle)
    (absorbed : v.Absorbed t others (gone ++ Tree.idsOf first) (source.flattens ++ flat) busy
      middle later) :
    v.Absorbed t pairs gone flat busy m later := by
  obtain ⟨-, -, -, owns, flattens⟩ := Tree.takeMerge?_eq_some pairs others source taken
  refine ⟨?_, ?_, ?_, absorbed.isOf, ?_⟩
  · rw [absorbed.rest, gives.rest]
  · refine v.congr _ _ _ _ (fun other => ?_) absorbed.nodes
    simp only [List.mem_append, flattens]
    tauto
  · intro other worked
    have cut := becomes_modify t busy away m change other worked
    have source := gives.kept other (List.mem_cons_of_mem _ worked)
    exact cut.trans _ _ _ (source.trans _ _ _ (absorbed.kept other worked))
  · intro all same
    rw [Tree.merged_of_taken t.start pairs others source taken, given] at same
    cases rest : Tree.merged t.start others with
    | error stop =>
      rw [rest] at same
      cases same
    | ok more =>
      rw [rest] at same
      cases same
      rw [absorbed.final more rest, owns]
      simp only [Tree.idsOf, List.map_append, List.append_assoc]

omit away in
theorem Works.cut (others : List (Tree × Tree)) (subset : ∀ pair ∈ others, pair ∈ pairs) :
    v.Works bound t others flat busy { m with nodes := m.nodes.modify t.id fun node =>
      { node with content := .mapping (Tree.idsOf others) } } := by
  have inside := works.inside t flat busy m pairs
  refine ⟨fun pair member => works.each pair (subset pair member), ?_, ?_, ?_⟩
  · exact v.setPairs flat busy _ t _ covers isMapping works.shown
  · rw [getD_modify, if_pos ⟨rfl, inside⟩]
    exact works.isOf.withContent _ _ _
  · rw [getD_modify, if_pos ⟨rfl, inside⟩]

omit covers isMapping away in
theorem Works.taken (other : List NodeId) (later : Memory)
    (taken : v.Taken other (t.id :: busy) m later) : v.Works bound t pairs other busy later := by
  have kept := taken.kept t.id (List.mem_cons_self ..)
  exact ⟨works.each, taken.nodes, works.isOf.becomes _ _ _ kept, kept.content.trans works.content⟩

theorem ends_absorb {flattenNode : NodeId → Build Unit} (right : v.Flattens flattenNode bound)
    (loops : Nat) (enough : pairs.countP (·.1.isMerge) < loops) :
    Build.Ends (Build.absorb flattenNode t.id loops gone) m
      ((Tree.merged t.start pairs).map fun _ => ())
      fun _ later => v.Absorbed t pairs gone flat busy m later := by
  -- Each round takes one merge key away, so the rounds are enough for all of them.
  induction loops generalizing pairs gone flat m with
  | zero => omega
  | succ loops ih =>
    have keys : ∀ pair ∈ pairs, Build.hasTag m.nodes .merge pair.1.id = pair.1.isMerge := by
      intro pair member
      have of := works.each pair member
      exact (v.isOf flat _ m.nodes pair.1 works.shown of.key of.keyAway).isMerge
    have now : (m.nodes.getD t.id default).pairs = Tree.idsOf pairs := by
      rw [Node.pairs, works.content]
    rw [Build.absorb]
    refine .after _ _ _ _ _ _ _ (Build.on_get m) ?_
    refine .after _ _ _ _ _ _ _ (Build.on_pairsOf t.id m) ?_
    rw [now, Tree.takeMerge?_idsOf _ pairs keys]
    cases taken : Build.takeMerge? Tree.isMerge pairs with
    | none =>
      have plain := Tree.takeMerge?_eq_none pairs taken
      rw [(Tree.merged_of_plain t.start pairs plain).1]
      exact ends_absorb_last t covers isMapping flat busy away m pairs gone works plain
    | some found =>
      obtain ⟨source, others⟩ := found
      obtain ⟨⟨key, there⟩, subset, shorter, -, -⟩ :=
        Tree.takeMerge?_eq_some pairs others source taken
      have of := works.each (key, source) there
      have cut := works.cut t covers isMapping flat busy m pairs others subset
      rw [Option.map_some]
      refine .after _ _ _ _ _ _ _ (Build.on_setPairs t.id _ m) ?_
      refine .after _ _ _ _ _ _ _ (Build.on_node t.id _) ?_
      rw [cut.isOf.start_eq, Tree.merged_of_taken t.start pairs others source taken]
      have run :=
        ends_sourcePairs right t.start flat (t.id :: busy) _ cut.shown source of.value of.small
        of.valueFree
      cases given : source.given t.start with
      | error stop =>
        rw [given] at run
        exact .failed _ _ _ _ _ _ run
      | ok first =>
        rw [given] at run
        obtain ⟨middle, ran, gives⟩ := run
        refine .after _ _ _ _ _ _ _ ran ?_
        have later := ih (source.flattens ++ flat) middle others (gone ++ Tree.idsOf first)
          (cut.taken t flat busy _ others _ middle gives) (by omega)
        have whole (last : Memory) (absorbed : v.Absorbed t others (gone ++ Tree.idsOf first)
            (source.flattens ++ flat) busy middle
              last) : v.Absorbed t pairs gone flat busy m last :=
          .of_source t flat busy away m pairs gone others first source middle last _ taken
            given gives
            absorbed
        cases rest : Tree.merged t.start others with
        | error stop =>
          rw [rest] at later
          exact later
        | ok more =>
          rw [rest] at later
          exact .weaken _ _ _ _ _ later fun _ last _ => whole last

end Absorb

theorem ends_flatten (fuel bound : Nat) (right : v.Flattens (Build.flatten fuel) bound) (t : Tree)
    (entries : List (Tree × Tree)) (flat busy : List NodeId) (m : Memory) (covers : v.covers t)
    (isMapping : t.kind = .mapping) (away : t.id ∉ busy)
    (works : v.Works bound t entries flat busy m)
    (few : entries.countP (·.1.isMerge) < fuel + 1)
    (comes : t.flattened = (Tree.merged t.start entries).map (· ++ Tree.own entries))
    (all : ∀ id ∈ t.flattens, id = t.id ∨ id ∈ Tree.pairFlattens entries ++ flat) :
    Build.Ends (Build.flatten (fuel + 1) t.id) m (t.flattened.map fun _ => ()) fun _ later =>
      v.Taken (t.flattens ++ (Tree.pairFlattens entries ++ flat)) busy m later ∧
        ∀ entries, t.flattened = .ok entries →
          (later.nodes.getD t.id default).content = .mapping (Tree.idsOf entries) := by
  have run := ends_absorb t covers isMapping flat busy away m entries [] works right (fuel + 1) few
  rw [comes]
  cases merged : Tree.merged t.start entries with
  | error stop =>
    rw [merged] at run
    exact run
  | ok more =>
    rw [merged] at run
    obtain ⟨later, ran, done⟩ := run
    have final := done.final more merged
    rw [List.nil_append] at final
    have flattened : t.flattened = .ok (more ++ Tree.own entries) := by
      rw [comes, merged]
      rfl
    refine ⟨later, ran, ⟨done.rest, ?_, done.kept⟩, ?_⟩
    · exact v.release _ busy later.nodes t _ covers isMapping flattened done.isOf final all
        done.nodes
    · rintro _ ⟨⟩
      exact final

section Flatten

variable {v} (fuel bound : Nat) (right : v.Flattens (Build.flatten fuel) bound) (t : Tree)
  (flat busy : List NodeId) (m : Memory) (covers : v.covers t) (isMapping : t.kind = .mapping)
  (small : t.height ≤ bound + 1) (free : t.Free busy)

include right covers isMapping small free

theorem ends_flatten_written (shown : v.shows flat busy m.nodes)
    (few : t.pairs.countP (·.1.isMerge) < fuel + 1)
    (content : (m.nodes.getD t.id default).content = t.node.content) :
    Build.Ends (Build.flatten (fuel + 1) t.id) m (t.flattened.map fun _ => ()) fun _ later =>
      v.Taken (t.flattens ++ flat) busy m later ∧ ∀ entries, t.flattened = .ok entries →
        (later.nodes.getD t.id default).content = .mapping (Tree.idsOf entries) := by
  have away : t.id ∉ busy := free t t.mem_parts_self
  have listed := t.flattens_eq isMapping
  have works : v.Works bound t t.pairs flat busy m := by
    refine ⟨fun pair member => ?_, v.working flat busy _ _ shown,
      v.isOf flat busy m.nodes t shown covers away, content.trans (t.content_mapping isMapping)⟩
    obtain ⟨key, value⟩ := t.mem_children_of_pair pair member
    exact .of_below v _ busy t pair covers free small (.of_child _ _ key) (.of_child _ _ value)
  refine .weaken _ _ _ _ _
    (v.ends_flatten fuel bound right t t.pairs flat busy m covers isMapping away
      works few (t.flattened_eq isMapping) ?_) fun _ later _ done =>
      ⟨done.1.congr v _ _ busy m later ?_, done.2⟩
  · intro id member
    rw [listed] at member
    rcases List.mem_cons.mp member with same | inside
    · exact .inl same
    · exact .inr (List.mem_append_left _ inside)
  · intro id
    simp only [listed, List.mem_append, List.mem_cons]
    tauto

theorem ends_flatten_again (entries : List (Tree × Tree)) (flattened : t.flattened = .ok entries)
    (shown : v.shows (t.flattens ++ flat) busy m.nodes)
    (content : (m.nodes.getD t.id default).content = .mapping (Tree.idsOf entries)) :
    Build.Ends (Build.flatten (fuel + 1) t.id) m (t.flattened.map fun _ => ()) fun _ later =>
      v.Taken (t.flattens ++ flat) busy m later ∧ ∀ entries, t.flattened = .ok entries →
        (later.nodes.getD t.id default).content = .mapping (Tree.idsOf entries) := by
  have away : t.id ∉ busy := free t t.mem_parts_self
  have below := Tree.below_of_flattened t entries flattened
  have plain (entry : Tree × Tree) (member : entry ∈ entries) := (below entry member).2.2
  obtain ⟨nothing, owns, none⟩ := Tree.merged_of_plain t.start entries plain
  have noMerge : entries.countP (·.1.isMerge) = 0 := by
    rw [List.countP_eq_zero]
    intro entry member
    rw [plain entry member]
    exact Bool.false_ne_true
  have works : v.Works bound t entries (t.flattens ++ flat) busy m := by
    refine ⟨fun entry member => ?_, v.working _ busy _ _ shown,
      v.isOf _ busy m.nodes t shown covers away, content⟩
    exact .of_below v _ busy t entry covers free small (below entry member).1
      (below entry member).2.1
  refine .weaken _ _ _ _ _ (v.ends_flatten fuel bound right t entries _ busy m covers isMapping away
    works (by omega) ?_ ?_) fun _ later _ done => ⟨done.1.congr v _ _ busy m later ?_, done.2⟩
  · rw [flattened, nothing, owns]
    rfl
  · exact fun id member => .inr (List.mem_append_right _ (List.mem_append_left _ member))
  · intro id
    simp only [none, List.nil_append, List.mem_append]
    tauto

end Flatten

theorem flattens (most : Nat) (within : g.PairsWithin most) (fuel bound : Nat)
    (enough : most + bound ≤ fuel) : v.Flattens (Build.flatten fuel) bound := by
  induction fuel generalizing bound with
  | zero =>
    intro t flat busy m covers isMapping small free shown
    have positive := t.height_pos
    omega
  | succ fuel ih =>
    intro t flat busy m covers isMapping small free shown
    have positive := t.height_pos
    have right := ih (bound - 1) (by omega)
    have lower : t.height ≤ bound - 1 + 1 := by omega
    have away : t.id ∉ busy := free t t.mem_parts_self
    rcases v.pairs flat busy m.nodes t shown covers away isMapping with
      written | ⟨entries, flattened, content, before⟩
    · have few : t.pairs.countP (·.1.isMerge) < fuel + 1 := by
        have count : t.pairs.countP (·.1.isMerge) ≤ t.pairs.length := List.countP_le_length
        have bounded := within t.id
        rw [(v.stands t covers).here, Node.pairs, t.content_mapping isMapping] at bounded
        simp only [Tree.idsOf, List.length_map] at bounded
        omega
      exact ends_flatten_written fuel (bound - 1) right t flat busy m covers isMapping lower free
        shown few
        written
    · exact ends_flatten_again fuel (bound - 1) right t flat busy m covers isMapping lower
        free entries
        flattened before content

end View

end LocaleLint.Yaml
