import LocaleLint.Proofs.Yaml.Absorption

set_option autoImplicit false

namespace LocaleLint.Yaml

namespace Tree

def nodeIn (flat : List NodeId) : Tree → Node
  | .mapping id tag start pairs =>
      if id ∈ flat then
        ⟨.mapping (idsOf ((flattened (.mapping id tag start pairs)).toOption.getD pairs)),
          tag, start⟩
      else node (.mapping id tag start pairs)
  | t => t.node

theorem nodeIn_mapping (flat : List NodeId) (id : NodeId) (tag : Tag) (start : Position)
    (pairs : List (Tree × Tree)) :
    ∃ ids, (mapping id tag start pairs).nodeIn flat = ⟨.mapping ids, tag, start⟩ := by
  simp only [nodeIn]
  split
  · exact ⟨_, rfl⟩
  · exact ⟨_, rfl⟩

theorem nodeIn_of_single (flat : List NodeId) (id : NodeId) (tag : Tag) (start : Position)
    (key value : Tree) (plain : key.isMerge = false) :
    (mapping id tag start [(key, value)]).nodeIn flat =
      ⟨.mapping [(key.id, value.id)], tag, start⟩ := by
  obtain ⟨nothing, owns, -⟩ := merged_of_plain start [(key, value)] (by simpa using plain)
  simp only [nodeIn, flattened, nothing, owns]
  split <;> rfl

theorem nodeIn_congr (flat other : List NodeId) (t : Tree)
    (same : t.id ∈ flat ↔ t.id ∈ other) : t.nodeIn flat = t.nodeIn other := by
  cases t with
  | mapping id tag start pairs =>
    have here : id ∈ flat ↔ id ∈ other := same
    simp only [nodeIn, here]
  | scalar id tag start text => rfl
  | sequence id tag start items => rfl

theorem nodeIn_of_not_mem (flat : List NodeId) (t : Tree) (outside : t.id ∉ flat) :
    t.nodeIn flat = t.node := by
  cases t with
  | mapping id tag start pairs => exact if_neg outside
  | scalar id tag start text => rfl
  | sequence id tag start items => rfl

theorem exists_nodeIn (flat : List NodeId) (t : Tree) :
    ∃ content : Content, content.kind = t.kind ∧ t.nodeIn flat = ⟨content, t.tag, t.start⟩ := by
  cases t with
  | mapping id tag start pairs =>
    obtain ⟨ids, shape⟩ := nodeIn_mapping flat id tag start pairs
    exact ⟨_, rfl, shape⟩
  | scalar id tag start text => exact ⟨_, rfl, rfl⟩
  | sequence id tag start items => exact ⟨_, rfl, rfl⟩

theorem nodeIn_kind (flat : List NodeId) (t : Tree) : (t.nodeIn flat).kind = t.kind := by
  obtain ⟨content, kind, shape⟩ := t.exists_nodeIn flat
  rw [shape]
  exact kind

theorem nodeIn_start (flat : List NodeId) (t : Tree) : (t.nodeIn flat).start = t.start := by
  obtain ⟨content, -, shape⟩ := t.exists_nodeIn flat
  rw [shape]

theorem nodeIn_tag (flat : List NodeId) (t : Tree) : (t.nodeIn flat).tag = t.tag := by
  obtain ⟨content, -, shape⟩ := t.exists_nodeIn flat
  rw [shape]

end Tree

structure Shows (g : Graph) (flat busy : List NodeId) (nodes : Array Node) : Prop where
  size : nodes.size = g.nodes.size
  node : ∀ t : Tree, t.Unfolds g → t.id ∉ busy → nodes.getD t.id default = t.nodeIn flat
  closed : ∀ t : Tree, t.Unfolds g → t.kind = .mapping → t.id ∈ flat →
    (∃ entries, t.flattened = .ok entries) ∧ ∀ id ∈ t.flattens, id ∈ flat

theorem Shows.working (g : Graph) (flat busy : List NodeId) (nodes : Array Node) (id : NodeId)
    (shows : Shows g flat busy nodes) : Shows g flat (id :: busy) nodes where
  size := shows.size
  node :=
    fun t unfolds free => shows.node t unfolds fun worked => free (List.mem_cons_of_mem _ worked)
  closed := shows.closed

theorem Shows.congr (g : Graph) (flat other busy : List NodeId) (nodes : Array Node)
    (same : ∀ id, id ∈ flat ↔ id ∈ other) (shows : Shows g flat busy nodes) :
    Shows g other busy nodes where
  size := shows.size
  node :=
    fun t unfolds free => by rw [shows.node t unfolds free, t.nodeIn_congr flat other (same _)]
  closed := fun t unfolds isMapping member => by
    obtain ⟨flat, all⟩ := shows.closed t unfolds isMapping ((same _).mpr member)
    exact ⟨flat, fun id inside => (same id).mp (all id inside)⟩

theorem Shows.modify (g : Graph) (flat busy : List NodeId) (nodes : Array Node) (id : NodeId)
    (change : Node → Node) (worked : id ∈ busy) (shows : Shows g flat busy nodes) :
    Shows g flat busy (nodes.modify id change) where
  size := by rw [Array.size_modify, shows.size]
  node := fun t unfolds free => by
    rw [getD_modify, if_neg, shows.node t unfolds free]
    rintro ⟨rfl, -⟩
    exact free worked
  closed := shows.closed

theorem Tree.tag_ne_value (g : Graph) (t : Tree) (unfolds : t.Unfolds g) :
    (t.tag == .value) = false := by
  have fits := unfolds.fits
  rw [beq_eq_false_iff_ne]
  intro same
  cases t with
  | scalar id tag start text =>
    cases same
    cases fits
  | sequence id tag start items =>
    cases same
    rcases fits with same | ⟨lists, -⟩
    · cases same
    · cases lists
  | mapping id tag start pairs =>
    cases same
    rcases fits with same | same <;> cases same

theorem Build.hasTag_tree (g : Graph) (flat busy : List NodeId) (nodes : Array Node) (tag : Tag)
    (t : Tree) (shows : Shows g flat busy nodes) (unfolds : t.Unfolds g) (away : t.id ∉ busy) :
    hasTag nodes tag t.id = (t.tag == tag) := by
  rw [hasTag, shows.node t unfolds away, t.nodeIn_tag]

theorem Shows.isOf (g : Graph) (flat busy : List NodeId) (nodes : Array Node) (t : Tree)
    (shows : Shows g flat busy nodes) (unfolds : t.Unfolds g) (away : t.id ∉ busy) :
    (nodes.getD t.id default).IsOf t := by
  rw [shows.node t unfolds away]
  exact ⟨rfl, by rw [t.nodeIn_start, t.start_node], .inl (by rw [t.nodeIn_tag, t.tag_node])⟩

theorem Shows.plainKeys (g : Graph) (flat busy : List NodeId) (nodes : Array Node)
    (pairs : List (Tree × Tree)) (shows : Shows g flat busy nodes)
    (each : ∀ pair ∈ pairs, pair.1.Unfolds g ∧ pair.1.id ∉ busy) :
    (Tree.idsOf pairs).foldl Build.plainKey nodes = nodes := by
  induction pairs with
  | nil => rfl
  | cons pair rest ih =>
    rw [List.forall_mem_cons] at each
    have plain : Build.hasTag nodes .value pair.1.id = false := by
      rw [Build.hasTag_tree g flat busy nodes .value pair.1 shows each.1.1 each.1.2]
      exact pair.1.tag_ne_value g each.1.1
    rw [Tree.idsOf, List.map_cons, List.foldl_cons, Build.plainKey, plain]
    exact ih each.2

theorem Shows.pairs (g : Graph) (flat busy : List NodeId) (nodes : Array Node) (t : Tree)
    (shows : Shows g flat busy nodes) (unfolds : t.Unfolds g) (away : t.id ∉ busy)
    (isMapping : t.kind = .mapping) :
    (nodes.getD t.id default).content = t.node.content ∨
      ∃ entries, t.flattened = .ok entries ∧
        (nodes.getD t.id default).content = .mapping (Tree.idsOf entries) ∧
          Shows g (t.flattens ++ flat) busy nodes := by
  rw [shows.node t unfolds away]
  by_cases member : t.id ∈ flat
  · obtain ⟨⟨entries, flattened⟩, all⟩ := shows.closed t unfolds isMapping member
    refine .inr ⟨entries, flattened, ?_, shows.congr g flat _ busy nodes fun id => ?_⟩
    · cases t with
      | mapping id tag start pairs =>
        have inside : id ∈ flat := member
        simp only [Tree.nodeIn, inside, if_true, flattened]
        rfl
      | scalar id tag start text => cases isMapping
      | sequence id tag start items => cases isMapping
    · rw [List.mem_append]
      exact ⟨.inr, fun either => either.elim (all id) fun inside => inside⟩
  · rw [t.nodeIn_of_not_mem flat member]
    exact .inl rfl

/-- The mapping was being worked on, so nothing had been shown of it. -/
theorem Shows.release (g : Graph) (flat busy : List NodeId) (nodes : Array Node) (t : Tree)
    (entries : List (Tree × Tree)) (shows : Shows g flat (t.id :: busy) nodes)
    (unfolds : t.Unfolds g) (isMapping : t.kind = .mapping) (flattened : t.flattened = .ok entries)
    (isOf : (nodes.getD t.id default).IsOf t)
    (content : (nodes.getD t.id default).content = .mapping (Tree.idsOf entries))
    (all : ∀ id ∈ t.flattens, id = t.id ∨ id ∈ flat) : Shows g (t.flattens ++ flat) busy nodes := by
  have whole (id : NodeId) : id ∈ t.flattens ++ flat ↔ id = t.id ∨ id ∈ flat := by
    rw [List.mem_append]
    refine ⟨fun either => either.elim (all id) .inr, ?_⟩
    rintro (rfl | inside)
    · exact .inl (by rw [t.flattens_eq isMapping]; exact List.mem_cons_self ..)
    · exact .inr inside
  have current : nodes.getD t.id default = ⟨.mapping (Tree.idsOf entries), t.tag, t.start⟩ := by
    rcases isOf.tag with same | ⟨value, -⟩
    · rw [← content, ← t.tag_node, ← same, ← isOf.start_eq]
    · exact absurd (t.tag_node.symm.trans value) (beq_eq_false_iff_ne.mp (t.tag_ne_value g unfolds))
  -- Only this mapping shows anything else than before.
  refine ⟨shows.size, fun s other free => ?_, fun s other sMapping member => ?_⟩
  · by_cases here : s.id = t.id
    · obtain rfl : s = t := other.unique g s t unfolds here
      rw [current]
      cases s with
      | mapping id tag start pairs =>
        have member := (whole id).mpr (.inl rfl)
        simp only [Tree.nodeIn, member, if_true, flattened]
        rfl
      | scalar id tag start text => cases isMapping
      | sequence id tag start items => cases isMapping
    · rw [shows.node s other (List.not_mem_cons_of_ne_of_not_mem here free)]
      refine s.nodeIn_congr flat _ ?_
      rw [whole]
      simp [here]
  · by_cases here : s.id = t.id
    · obtain rfl : s = t := other.unique g s t unfolds here
      exact ⟨⟨entries, flattened⟩, fun id inside => List.mem_append_left _ inside⟩
    · have before : s.id ∈ flat := ((whole s.id).mp member).resolve_left here
      obtain ⟨fine, inside⟩ := shows.closed s other sMapping before
      exact ⟨fine, fun id within => List.mem_append_right _ (inside id within)⟩

def showing (g : Graph) : View g where
  covers := Tree.Unfolds g
  shows := Shows g
  stands := fun t unfolds => unfolds.stands g t
  child := fun s t unfolds below => unfolds.child g s t below
  size := fun _ _ _ shows => shows.size
  isOf := fun flat busy nodes t shows unfolds away => shows.isOf g flat busy nodes t unfolds away
  content := fun flat busy nodes t shows unfolds away other => by
    rw [shows.node t unfolds away]
    cases t with
    | mapping id tag start pairs => exact absurd rfl other
    | scalar id tag start text => rfl
    | sequence id tag start items => rfl
  pairs := fun flat busy nodes t shows unfolds away isMapping =>
    shows.pairs g flat busy nodes t unfolds away isMapping
  congr := fun flat other busy nodes same shows => shows.congr g flat other busy nodes same
  working := fun flat busy nodes id shows => shows.working g flat busy nodes id
  setPairs := fun flat busy nodes t ids _ _ shows =>
    shows.modify g flat _ nodes t.id _ (List.mem_cons_self ..)
  plainKeys := fun flat busy nodes pairs each shows => by
    rwa [shows.plainKeys g flat busy nodes pairs each]
  release := fun flat busy nodes t entries unfolds isMapping flattened isOf content all shows =>
    shows.release g flat busy nodes t entries unfolds isMapping flattened isOf content all

end LocaleLint.Yaml
