import LocaleLint.Strict
import LocaleLint.Proofs.Yaml.Tour

set_option autoImplicit false

namespace LocaleLint.Yaml

namespace Graph

def IsItem (g : Graph) (id : NodeId) : Prop := (g.node id).isDefault = true ∧ g.Reads id

def IsKey (g : Graph) (id : NodeId) : Prop :=
  (g.node id).kind = .scalar ∧ (g.IsItem id ∨ (g.node id).tag = .value)

def IsRegularAt (g : Graph) (id : NodeId) : Prop :=
  match (g.node id).content with
  | .scalar _ => True
  | .sequence items => ∀ item ∈ items, g.IsItem item
  | .mapping pairs => ∀ pair ∈ pairs, g.IsKey pair.1 ∧ g.IsItem pair.2

instance (g : Graph) (id : NodeId) : Decidable (g.IsItem id) := inferInstanceAs (Decidable (_ ∧ _))

instance (g : Graph) (id : NodeId) : Decidable (g.IsKey id) :=
  inferInstanceAs (Decidable (_ ∧ (_ ∨ _)))

instance (g : Graph) (id : NodeId) : Decidable (g.IsRegularAt id) :=
  match content : (g.node id).content with
  | .scalar _ => .isTrue (by rw [IsRegularAt, content]; trivial)
  | .sequence items =>
      decidable_of_iff (∀ item ∈ items, g.IsItem item) (by rw [IsRegularAt, content])
  | .mapping pairs =>
      decidable_of_iff (∀ pair ∈ pairs, g.IsKey pair.1 ∧ g.IsItem pair.2)
        (by rw [IsRegularAt, content])

structure IsRegular (g : Graph) : Prop where
  root : g.IsItem g.root
  held : ∀ id, g.Reachable id → g.IsRegularAt id

def Spells (g : Graph) (id : NodeId) (key : Scalar) : Prop :=
  ∃ text, (g.node id).content = .scalar text ∧
    Build.scalarOf id (g.node id).start (g.node id).tag text = .ok key

def HasLongKey (g : Graph) : Prop :=
  ∃ id before pair after key, g.Reachable id ∧
    (g.node id).content = .mapping (before ++ pair :: after) ∧
    g.Spells pair.1 key ∧ key.isWritable = false ∧
    ((g.node pair.2).isCollection = true ∨ ∃ other ∈ before, ∃ name, g.Spells other.1 name ∧
      name.same key)

def Cycles (g : Graph) (id : NodeId) : Prop := g.Reachable id ∧ Relation.TransGen g.Holds id id

def recursionFault (g : Graph) (id : NodeId) : Fault :=
  ⟨none, none, .recursiveNode, (g.node id).start⟩

def recursion (g : Graph) (id : NodeId) : Halt := .stop (.fault (g.recursionFault id))

inductive Excuses (g : Graph) : Halt → Prop
  | recursion (id : NodeId) (cycles : g.Cycles id) : Excuses g (g.recursion id)
  | longKey (long : g.HasLongKey) : Excuses g (.stop (.breakdown .keyTooLong))

end Graph

namespace Graph

variable (g : Graph)

theorem IsItem.reads_scalar (id : NodeId) (item : g.IsItem id)
    (isScalar : (g.node id).kind = .scalar) :
    ∃ text key, (g.node id).content = .scalar text ∧ (g.node id).tag.isOfScalar = true ∧
      scalarResult id (g.node id).tag (g.node id).start text = .ok (.scalar key) ∧
        g.Spells id key := by
  obtain ⟨isDefault, reads⟩ := item
  rw [Node.isDefault] at isDefault
  rw [Reads] at reads
  rw [Node.kind] at isScalar
  cases content : (g.node id).content with
  | sequence items => rw [content] at isScalar; contradiction
  | mapping pairs => rw [content] at isScalar; contradiction
  | scalar text =>
    rw [content] at isDefault reads
    have spelled (result : scalarResult id (g.node id).tag (g.node id).start text =
        (Build.scalarOf id (g.node id).start (g.node id).tag text).map .scalar) :
        ∃ key, scalarResult id (g.node id).tag (g.node id).start text = .ok (.scalar key) ∧
          g.Spells id key := by
      cases read : Build.scalarOf id (g.node id).start (g.node id).tag text with
      | ok key => exact ⟨key, by rw [result, read]; rfl, text, content, read⟩
      | error stop =>
        simp only [result, read] at reads
        contradiction
    obtain ⟨key, result, spells⟩ := spelled (by
      cases tag : (g.node id).tag <;> rw [tag] at reads <;> first | rfl | contradiction)
    exact ⟨text, key, rfl, isDefault, result, spells⟩

theorem IsKey.tag_ne_merge (id : NodeId) (isKey : g.IsKey id) : (g.node id).tag ≠ .merge := by
  intro merge
  rcases isKey.2 with item | value
  · obtain ⟨text, key, -, -, result, -⟩ := item.reads_scalar g id isKey.1
    rw [merge] at result
    contradiction
  · rw [merge] at value
    contradiction

theorem IsKey.spells (id : NodeId) (isKey : g.IsKey id) : ∃ key, g.Spells id key := by
  rcases isKey.2 with item | value
  · obtain ⟨text, key, -, -, -, spells⟩ := item.reads_scalar g id isKey.1
    exact ⟨key, spells⟩
  · have isScalar := isKey.1
    rw [Node.kind] at isScalar
    cases content : (g.node id).content with
    | sequence items => rw [content] at isScalar; contradiction
    | mapping pairs => rw [content] at isScalar; contradiction
    | scalar text => exact ⟨.ofPoints text, text, content, by rw [value]; rfl⟩

end Graph

namespace Build

theorem tag_plainKey (nodes : Array Node) (pair : NodeId × NodeId) :
    ((plainKey nodes pair).getD pair.1 default).tag ≠ .value := by
  unfold plainKey
  split
  · next tagged =>
    have inside : pair.1 < nodes.size := by
      by_contra outside
      simp [hasTag, Array.getD, outside] at tagged
      contradiction
    rw [getD_modify, if_pos ⟨rfl, inside⟩]
    simp
  · next other => simpa [hasTag] using other

theorem tag_plainKeys (pairs : List (NodeId × NodeId)) (nodes : Array Node)
    (pair : NodeId × NodeId) (member : pair ∈ pairs) :
    ((pairs.foldl plainKey nodes).getD pair.1 default).tag ≠ .value := by
  induction pairs generalizing nodes with
  | nil => contradiction
  | cons first rest ih =>
    rcases List.mem_cons.mp member with rfl | member
    · exact (becomes_plainKeys rest _ _).plain (tag_plainKey nodes pair)
    · exact ih _ member

theorem takeMerge?_plain (nodes : Array Node) (pairs : List (NodeId × NodeId))
    (plain : ∀ pair ∈ pairs, hasTag nodes .merge pair.1 = false) :
    takeMerge? (hasTag nodes .merge) pairs = none := by
  induction pairs with
  | nil => rfl
  | cons pair rest ih =>
    rw [List.forall_mem_cons] at plain
    rw [takeMerge?, plain.1, ih plain.2]
    rfl

theorem on_mappingEntries (build : NodeBuilder) (path : List String) (id : NodeId) (m : Memory)
    (pairs : List (NodeId × NodeId)) (content : (m.nodes.getD id default).content = .mapping pairs)
    (plain : ∀ pair ∈ pairs, hasTag m.nodes .merge pair.1 = false) :
    on (mappingEntries build path id) m =
      on (entriesFrom build path (m.nodes.getD id default).start pairs 0 [] [])
        { m with nodes := pairs.foldl plainKey m.nodes } := by
  have own : (pairs.filter fun pair => !hasTag m.nodes .merge pair.1) = pairs := by
    rw [List.filter_eq_self]
    exact fun pair member => by rw [plain pair member]; rfl
  have now : (m.nodes.getD id default).pairs = pairs := by rw [Node.pairs, content]
  have later : ((pairs.foldl plainKey m.nodes).getD id default).pairs = pairs := by
    rw [Node.pairs, (becomes_plainKeys pairs m.nodes id).content, content]
  have flattened (fuel : Nat) : on (flatten (fuel + 1) id) m =
      (.ok (), { m with nodes := pairs.foldl plainKey m.nodes }) := by
    rw [flatten, absorb, on_get_bind, on_bind_ok _ _ _ _ _ (on_pairsOf id m), now,
      takeMerge?_plain m.nodes pairs plain]
    rfl
  rw [mappingEntries, on_bind_ok _ _ _ _ _ (on_node id m), content]
  simp only
  rw [on_get_bind, own, on_bind_ok _ _ _ _ _ (flattened _), on_bind_ok _ _ _ _ _ (on_pairsOf id _),
    later, Nat.sub_self]

end Build

structure Memory.Mirrors (g : Graph) (m : Memory) : Prop where
  size : m.built.size = g.nodes.size
  nodes : ∀ id, (g.node id).Becomes (m.nodes.getD id default)
  channel : m.channel = Channel.outermost
  deferred : m.deferred = []
  filled : m.filled = []
  spelled : ∀ id value, m.built.getD id none = some value → (g.node id).kind = .scalar →
    ∃ key, g.Spells id key ∧ value = .scalar key
  closed : ∀ id child, (m.built.getD id none).isSome → g.Holds id child →
    (g.node child).isCollection = true → (m.built.getD child none).isSome
  acyclic : ∀ id, (m.built.getD id none).isSome → ¬Relation.TransGen g.Holds id id
  apart : ∀ id ∈ m.underway, m.built.getD id none = none
  distinct : m.underway.Nodup
  inside : ∀ id ∈ m.underway, id < g.nodes.size

structure Memory.Grows (g : Graph) (m later : Memory) : Prop where
  mirrors : later.Mirrors g
  underway : later.underway = m.underway
  built : ∀ id, (m.built.getD id none).isSome → (later.built.getD id none).isSome
  plain : ∀ id, (m.nodes.getD id default).tag ≠ .value → (later.nodes.getD id default).tag ≠ .value

theorem Memory.Grows.refl (g : Graph) (m : Memory) (mirrors : m.Mirrors g) : m.Grows g m :=
  ⟨mirrors, rfl, fun _ => id, fun _ => id⟩

theorem Memory.Grows.trans (g : Graph) (m middle later : Memory) (first : m.Grows g middle)
    (next : middle.Grows g later) : m.Grows g later where
  mirrors := next.mirrors
  underway := next.underway.trans first.underway
  built := fun id known => next.built id (first.built id known)
  plain := fun id known => next.plain id (first.plain id known)

theorem Memory.Grows.announced (g : Graph) (m : Memory) (duplicates : List DuplicateKey)
    (mirrors : m.Mirrors g) :
    m.Grows g { m with duplicates := duplicates } :=
  ⟨{ mirrors with }, rfl, fun _ => id, fun _ => id⟩

theorem Memory.Grows.plainKeys (g : Graph) (m : Memory) (mirrors : m.Mirrors g)
    (pairs : List (NodeId × NodeId)) :
    m.Grows g { m with nodes := pairs.foldl Build.plainKey m.nodes } where
  mirrors := { mirrors with
    nodes := fun id => (mirrors.nodes id).trans _ _ _ (Build.becomes_plainKeys pairs m.nodes id) }
  underway := rfl
  built := fun _ => id
  plain := fun id => (Build.becomes_plainKeys pairs m.nodes id).plain

namespace Memory.Mirrors

variable (g : Graph) (m : Memory) (mirrors : m.Mirrors g)

include mirrors

theorem length_underway : m.underway.length ≤ g.nodes.size := by
  rw [← List.toFinset_card_of_nodup mirrors.distinct, ← Finset.card_range g.nodes.size]
  refine Finset.card_le_card fun id member => ?_
  exact Finset.mem_range.mpr (mirrors.inside id (List.mem_toFinset.mp member))

theorem built_of_path (id last : NodeId) (built : (m.built.getD id none).isSome)
    (path : Relation.ReflTransGen g.Holds id last)
    (collection : (g.node last).isCollection = true) :
    (m.built.getD last none).isSome := by
  induction path with
  | refl => exact built
  | tail _ holds ih =>
    exact mirrors.closed _ _ (ih (g.isCollection_of_holds _ _ holds)) holds collection

theorem acyclic_of_children (id : NodeId) (fresh : m.built.getD id none = none)
    (children : ∀ child, g.Holds id child → (g.node child).isCollection = true →
      (m.built.getD child none).isSome) : ¬Relation.TransGen g.Holds id id := by
  intro cycle
  obtain ⟨child, holds, path⟩ := Relation.TransGen.head'_iff.mp cycle
  have collection := g.isCollection_of_holds id child holds
  have childCollection : (g.node child).isCollection = true := by
    rcases Relation.ReflTransGen.cases_head path with rfl | ⟨next, further, -⟩
    · exact collection
    · exact g.isCollection_of_holds child next further
  have built :=
    mirrors.built_of_path g m child id (children child holds childCollection) path collection
  rw [fresh] at built
  contradiction

theorem remember (id : NodeId) (value : Value) (away : id ∉ m.underway)
    (fresh : m.built.getD id none = none)
    (spelled : (g.node id).kind = .scalar → ∃ key, g.Spells id key ∧ value = .scalar key)
    (children : ∀ child, g.Holds id child → (g.node child).isCollection = true →
      (m.built.getD child none).isSome) :
    ({ m with built := m.built.setIfInBounds id (some value) } : Memory).Mirrors g where
  size := by rw [Array.size_setIfInBounds, mirrors.size]
  nodes := mirrors.nodes
  channel := mirrors.channel
  deferred := mirrors.deferred
  filled := mirrors.filled
  spelled := by
    intro other result known isScalar
    rw [getD_setIfInBounds] at known
    split at known
    · next here =>
      cases known
      exact here.1 ▸ spelled (here.1 ▸ isScalar)
    · exact mirrors.spelled other result known isScalar
  closed := by
    intro other child known holds collection
    simp only [getD_setIfInBounds] at known ⊢
    have before : (m.built.getD child none).isSome := by
      by_cases here : id = other
      · exact children child (here ▸ holds) collection
      · rw [if_neg fun both => here both.1] at known
        exact mirrors.closed other child known holds collection
    split
    · rfl
    · exact before
  acyclic := by
    intro other known cycle
    simp only [getD_setIfInBounds] at known
    by_cases here : id = other
    · subst here
      -- A cycle through the node would go on with a child, and what was built closes none.
      exact mirrors.acyclic_of_children g m id fresh children cycle
    · rw [if_neg fun both => here both.1] at known
      exact mirrors.acyclic other known cycle
  apart := by
    intro other working
    rw [getD_setIfInBounds, if_neg]
    · exact mirrors.apart other working
    · rintro ⟨rfl, -⟩
      exact away working
  distinct := mirrors.distinct
  inside := mirrors.inside

theorem enter (id : NodeId) (fresh : m.built.getD id none = none) (idle : id ∉ m.underway)
    (collection : (g.node id).isCollection = true) :
    ({ m with underway := id :: m.underway } : Memory).Mirrors g :=
  { mirrors with
    apart := List.forall_mem_cons.mpr ⟨fresh, mirrors.apart⟩
    distinct := List.nodup_cons.mpr ⟨idle, mirrors.distinct⟩
    inside := List.forall_mem_cons.mpr ⟨g.lt_size_of_isCollection id collection, mirrors.inside⟩ }

theorem leave (id : NodeId) (rest : List NodeId) (underway : m.underway = id :: rest) :
    ({ m with underway := rest } : Memory).Mirrors g := by
  have within (other : NodeId) (member : other ∈ rest) : other ∈ m.underway := by
    rw [underway]
    exact List.mem_cons_of_mem _ member
  have distinct := mirrors.distinct
  rw [underway] at distinct
  exact { mirrors with
    apart := fun other member => mirrors.apart other (within other member)
    distinct := (List.nodup_cons.mp distinct).2
    inside := fun other member => mirrors.inside other (within other member) }

end Memory.Mirrors

namespace Build

variable {α β : Type}

def Agree (g : Graph) (m : Memory) (x y : Build α) (good : α → Memory → Prop) : Prop :=
  on x m = on y m ∧
    match on x m with
    | (.ok value, later) => good value later
    | (.error halt, _) => g.Excuses halt

variable (g : Graph)

theorem Agree.of_on (m later : Memory) (x : Build α) (value : α) (good : α → Memory → Prop)
    (run : on x m = (.ok value, later)) (holds : good value later) : Agree g m x x good :=
  ⟨rfl, by rw [run]; exact holds⟩

theorem Agree.excused (m later : Memory) (x y : Build α) (halt : Halt) (good : α → Memory → Prop)
    (run : on x m = (.error halt, later)) (same : on y m = (.error halt, later))
    (excuse : g.Excuses halt) : Agree g m x y good :=
  ⟨run.trans same.symm, by rw [run]; exact excuse⟩

theorem Agree.bind (m : Memory) (x y : Build α) (f h : α → Build β) (good : α → Memory → Prop)
    (better : β → Memory → Prop) (first : Agree g m x y good)
    (next : ∀ value later, good value later → Agree g later (f value) (h value) better) :
    Agree g m (x >>= f) (y >>= h) better := by
  obtain ⟨same, ends⟩ := first
  cases run : on x m with
  | mk result later =>
    rw [run] at same ends
    cases result with
    | ok value =>
      obtain ⟨agrees, holds⟩ := next value later ends
      constructor
      · rw [on_bind_ok _ _ _ _ _ run, on_bind_ok _ _ _ _ _ same.symm, agrees]
      · rw [on_bind_ok _ _ _ _ _ run]
        exact holds
    | error halt =>
      constructor
      · rw [on_bind_error _ _ _ _ _ run, on_bind_error _ _ _ _ _ same.symm]
      · rw [on_bind_error _ _ _ _ _ run]
        exact ends

theorem Agree.after (m later : Memory) (x : Build α) (f h : α → Build β) (value : α)
    (good : β → Memory → Prop) (run : on x m = (.ok value, later))
    (rest : Agree g later (f value) (h value) good) : Agree g m (x >>= f) (x >>= h) good := by
  unfold Agree at rest ⊢
  rw [on_bind_ok _ _ _ _ _ run, on_bind_ok _ _ _ _ _ run]
  exact rest

theorem Agree.weaken (m : Memory) (x y : Build α) (good better : α → Memory → Prop)
    (agree : Agree g m x y better) (weaker : ∀ value later, better value later → good value later) :
    Agree g m x y good := by
  obtain ⟨same, ends⟩ := agree
  refine ⟨same, ?_⟩
  cases run : on x m with
  | mk result later =>
    rw [run] at ends
    cases result with
    | ok value => exact weaker value later ends
    | error halt => exact ends

def Ready (m : Memory) (id : NodeId) : Prop :=
  g.IsItem id ∨ g.IsKey id ∧ (m.nodes.getD id default).tag ≠ .value

structure Built (id : NodeId) (m : Memory) (value : Value) (later : Memory) : Prop where
  grows : m.Grows g later
  known : (g.node id).isCollection = true → (later.built.getD id none).isSome
  spelled : (g.node id).kind = .scalar → ∃ key, g.Spells id key ∧ value = .scalar key

def Builds (owner : NodeId) (m : Memory) (build other : NodeBuilder) : Prop :=
  ∀ path child later, m.Grows g later → g.Holds owner child → Ready g later child →
    Agree g later (build path child) (other path child) (Built g child later)

theorem agree_announceIf (again : Bool) (path : List String) (name : Scalar) (place : Position)
    (m : Memory) (mirrors : m.Mirrors g) :
    Agree g m (announceIf again path name place) (announceIf again path name place)
      fun _ later => m.Grows g later := by
  cases again with
  | false => exact .of_on g m m _ () _ rfl (.refl g m mirrors)
  | true =>
    exact .of_on g m _ _ () _ (on_announce path name place m mirrors.channel)
      (Memory.Grows.announced g m _ mirrors)

theorem on_hashable (start place : Position) (name : Scalar) (m : Memory) :
    on (hashable start place (.scalar name)) m = (.ok name, m) :=
  rfl

section Owner

variable (owner : NodeId) (m : Memory) (build other : NodeBuilder)
  (builds : Builds g owner m build other)

include builds

theorem agree_itemsFrom (path : List String) (items : List NodeId) (index : Nat) (now : Memory)
    (grows : m.Grows g now) (held : ∀ item ∈ items, g.Holds owner item ∧ g.IsItem item) :
    Agree g now (itemsFrom build path items index) (itemsFrom other path items index)
      fun _ later => now.Grows g later ∧ ∀ item ∈ items, (g.node item).isCollection = true →
        (later.built.getD item none).isSome := by
  induction items generalizing index now with
  | nil => exact .of_on g now now _ [] _ rfl ⟨.refl g now grows.mirrors, by simp⟩
  | cons item rest ih =>
    rw [List.forall_mem_cons] at held
    rw [itemsFrom, itemsFrom]
    refine .bind g now _ _ _ _ _ _ (builds _ item now grows held.1.1 (.inl held.1.2)) ?_
    intro value later done
    refine .bind g later _ _ _ _ _ _
      (ih (index + 1) later (grows.trans _ _ _ _ done.grows) held.2) ?_
    rintro values last ⟨growsLast, known⟩
    refine .of_on g last last _ _ _ rfl ⟨done.grows.trans _ _ _ _ growsLast, ?_⟩
    rw [List.forall_mem_cons]
    exact ⟨fun collection => growsLast.built item (done.known collection), known⟩

omit builds in
theorem hasLongKey_of_refused (reachable : g.Reachable owner) (before rest : List (NodeId × NodeId))
    (pair : NodeId × NodeId) (content : (g.node owner).content = .mapping (before ++ pair :: rest))
    (seen : List Scalar) (written : ∀ name ∈ seen, ∃ other ∈ before, g.Spells other.1 name)
    (name : Scalar) (spells : g.Spells pair.1 name)
    (refused :
      (!(seen.any (·.same name) || (g.node pair.2).isCollection) || name.isWritable) = false) :
    g.HasLongKey := by
  simp only [Bool.or_eq_false_iff, Bool.not_eq_false', Bool.or_eq_true] at refused
  refine ⟨owner, before, pair, rest, name, reachable, content, spells, refused.2, ?_⟩
  rcases refused.1 with repeats | leadsOn
  · rw [List.any_eq_true] at repeats
    obtain ⟨earlier, member, same⟩ := repeats
    obtain ⟨other, within, spelled⟩ := written earlier member
    exact .inr ⟨other, within, earlier, spelled, same⟩
  · exact .inl leadsOn

theorem agree_entriesFrom (reachable : g.Reachable owner) (path : List String) (start : Position)
    (before pairs : List (NodeId × NodeId))
    (content : (g.node owner).content = .mapping (before ++ pairs))
    (regular : ∀ pair ∈ pairs, g.IsKey pair.1 ∧ g.IsItem pair.2) (now : Memory)
    (grows : m.Grows g now) (plain : ∀ pair ∈ pairs, (now.nodes.getD pair.1 default).tag ≠ .value)
    (seen : List Scalar) (written : ∀ name ∈ seen, ∃ pair ∈ before, g.Spells pair.1 name)
    (entries : List (Scalar × Value)) :
    Agree g now (entriesFrom build path start pairs 0 seen entries)
      (entriesFrom other path start pairs 0 seen entries)
      fun _ later => now.Grows g later ∧ ∀ pair ∈ pairs, (g.node pair.2).isCollection = true →
        (later.built.getD pair.2 none).isSome := by
  -- The names seen are those that the pairs before spell, which is what a key that is too long is
  -- excused with.
  induction pairs generalizing before now seen entries with
  | nil => exact .of_on g now now _ entries _ rfl ⟨.refl g now grows.mirrors, by simp⟩
  | cons pair rest ih =>
    obtain ⟨keyId, valueId⟩ := pair
    rw [List.forall_mem_cons] at regular plain
    obtain ⟨⟨isKey, isItem⟩, regular⟩ := regular
    obtain ⟨plainKey, plain⟩ := plain
    have holds : g.Holds owner keyId ∧ g.Holds owner valueId := by
      rw [Graph.Holds, Graph.Holds, content]
      simp [Content.children]
    rw [entriesFrom, entriesFrom]
    refine .after g now now _ _ _ _ _ (on_node keyId now) ?_
    refine .bind g now _ _ _ _ _ _ (builds path keyId now grows holds.1 (.inr ⟨isKey, plainKey⟩)) ?_
    intro value told done
    obtain ⟨name, spells, rfl⟩ := done.spelled isKey.1
    refine .after g told told _ _ _ _ _ (on_hashable start _ name told) ?_
    refine .after g told told _ _ _ _ _ (on_node valueId told) ?_
    have kind : (told.nodes.getD valueId default).isCollection = (g.node valueId).isCollection := by
      rw [Node.isCollection, Node.isCollection, Node.kind, Node.kind,
        (done.grows.mirrors.nodes valueId).content]
    simp only [kind, beq_self_eq_true, Bool.true_and, if_true, Nat.zero_sub]
    cases fits : !(seen.any (·.same name) || (g.node valueId).isCollection) || name.isWritable with
    | false =>
      exact .excused g told told _ _ _ _ (on_bind_error _ _ _ _ _ (on_demand_false _ told))
        (on_bind_error _ _ _ _ _ (on_demand_false _ told)) (.longKey (hasLongKey_of_refused g owner
          reachable before rest (keyId, valueId) content seen written name spells fits))
    | true =>
      refine .after g told told _ _ _ _ _ (on_demand_true _ told) ?_
      refine .bind g told _ _ _ _ _ _ (agree_announceIf g _ path name _ told done.grows.mirrors) ?_
      intro _ announced grown
      have growsTold := grows.trans _ _ _ _ (done.grows.trans _ _ _ _ grown)
      refine .bind g announced _ _ _ _ _ _
        (builds _ valueId announced growsTold holds.2 (.inl isItem)) ?_
      intro value later doneValue
      have growsLater := done.grows.trans _ _ _ _ (grown.trans _ _ _ _ doneValue.grows)
      refine .weaken g later _ _ _ _ (ih (before ++ [(keyId, valueId)]) (by simpa using content)
        regular later (grows.trans _ _ _ _ growsLater)
        (fun pair member => growsLater.plain pair.1 (plain pair member)) (name :: seen) ?_ _) ?_
      · rw [List.forall_mem_cons]
        refine ⟨⟨(keyId, valueId), by simp, spells⟩, fun earlier member => ?_⟩
        obtain ⟨pair, within, spelled⟩ := written earlier member
        exact ⟨pair, List.mem_append_left _ within, spelled⟩
      · rintro entries last ⟨growsLast, known⟩
        refine ⟨growsLater.trans _ _ _ _ growsLast, ?_⟩
        rw [List.forall_mem_cons]
        exact ⟨fun collection => growsLast.built valueId (doneValue.known collection), known⟩

end Owner

theorem built_of_left (m later : Memory) (id : NodeId) (value : Value)
    (mirrors : ({ later with underway := m.underway } : Memory).Mirrors g)
    (underway : later.underway = id :: m.underway) (away : id ∉ m.underway)
    (fresh : later.built.getD id none = none)
    (built : ∀ other, (m.built.getD other none).isSome → (later.built.getD other none).isSome)
    (plain : ∀ other, (m.nodes.getD other default).tag ≠ .value →
      (later.nodes.getD other default).tag ≠ .value)
    (spelled : (g.node id).kind = .scalar → ∃ key, g.Spells id key ∧ value = .scalar key)
    (children : ∀ child, g.Holds id child → (g.node child).isCollection = true →
      (later.built.getD child none).isSome) :
    Built g id m value { later with
      built :=
        later.built.setIfInBounds id (some value), underway := later.underway.erase id } := by
  have left : later.underway.erase id = m.underway := by rw [underway, List.erase_cons_head]
  rw [left]
  refine ⟨⟨mirrors.remember g _ id value away fresh spelled children, rfl,
    fun other known => ?_, plain⟩,
    fun collection => ?_, spelled⟩
  · simp only [getD_setIfInBounds]
    split
    · rfl
    · exact built other known
  · have inside : id < later.built.size := by
      rw [mirrors.size]
      exact g.lt_size_of_isCollection id collection
    simp only [getD_setIfInBounds, inside, and_self, if_true]
    rfl

def Holdings (id : NodeId) (m : Memory) (later : Memory) : Prop :=
  m.Grows g later ∧ ∀ child, g.Holds id child → (g.node child).isCollection = true →
    (later.built.getD child none).isSome

section Collection

variable (id : NodeId) (m : Memory) (build other : NodeBuilder) (builds : Builds g id m build other)
  (mirrors : m.Mirrors g) (regular : g.IsRegularAt id)

include builds mirrors regular

theorem agree_mappingEntries (reachable : g.Reachable id) (path : List String)
    (pairs : List (NodeId × NodeId)) (content : (g.node id).content = .mapping pairs) :
    Agree g m (mappingEntries build path id) (mappingEntries other path id)
      fun _ later => Holdings g id m later := by
  have here : (m.nodes.getD id default).content = .mapping pairs :=
    (mirrors.nodes id).content.trans content
  rw [Graph.IsRegularAt, content] at regular
  have plain : ∀ pair ∈ pairs, hasTag m.nodes .merge pair.1 = false := by
    intro pair member
    have becomes := mirrors.nodes pair.1
    have apart := (regular pair member).1.tag_ne_merge g pair.1
    refine beq_eq_false_iff_ne.mpr fun merge => ?_
    rcases becomes.tag with same | ⟨-, str⟩
    · exact apart (same ▸ merge)
    · rw [str] at merge
      contradiction
  have run (build : NodeBuilder) := on_mappingEntries build path id m pairs here plain
  have entries := agree_entriesFrom g id m build other builds reachable path
    (m.nodes.getD id default).start [] pairs content regular _ (.plainKeys g m mirrors pairs)
    (tag_plainKeys pairs m.nodes) [] (by simp) []
  unfold Agree at entries ⊢
  rw [run, run]
  refine Agree.weaken g _ _ _ _ _ entries ?_
  rintro values later ⟨grows, known⟩
  refine ⟨.trans g _ _ _ (.plainKeys g m mirrors pairs) grows, fun child holds collection => ?_⟩
  rw [Graph.Holds, content, Content.children, List.mem_flatMap] at holds
  obtain ⟨pair, member, which⟩ := holds
  rcases List.mem_cons.mp which with rfl | which
  · rw [Node.isCollection, (regular pair member).1.1] at collection
    contradiction
  · rw [List.mem_singleton.mp which] at collection ⊢
    exact known pair member collection

theorem agree_sequenceItems (path : List String) (items : List NodeId)
    (content : (g.node id).content = .sequence items) :
    Agree g m (sequenceItems build path id) (sequenceItems other path id)
      fun _ later => Holdings g id m later := by
  have here : (m.nodes.getD id default).content = .sequence items :=
    (mirrors.nodes id).content.trans content
  have held (item : NodeId) : g.Holds id item ↔ item ∈ items := by
    rw [Graph.Holds, content, Content.children]
  rw [Graph.IsRegularAt, content] at regular
  refine .after g m m _ _ _ _ _ (on_node id m) ?_
  rw [here]
  refine .weaken g m _ _ _ _ (agree_itemsFrom g id m build other builds path items 0 m
    (.refl g m mirrors) fun item member => ⟨(held item).mpr member, regular item member⟩) ?_
  rintro values later ⟨grows, known⟩
  exact ⟨grows, fun child holds collection => known child ((held child).mp holds) collection⟩

end Collection

theorem agree_collection (build other : Bool → NodeBuilder) (deep : Bool) (path : List String)
    (id : NodeId) (m : Memory) (builds : Builds g id m (build true) (other true))
    (mirrors : m.Mirrors g) (reachable : g.Reachable id) (regular : g.IsRegularAt id)
    (isDefault : (g.node id).isDefault = true) (collection : (g.node id).isCollection = true) :
    Agree g m (valueOf build deep path id) (valueOf other deep path id)
      fun _ later => Holdings g id m later := by
  have becomes := mirrors.nodes id
  have tag : (g.node id).tag ≠ .value → (m.nodes.getD id default).tag = (g.node id).tag := by
    rcases becomes.tag with same | ⟨value, -⟩
    · exact fun _ => same
    · exact fun apart => absurd value apart
  rw [Node.isDefault] at isDefault
  rw [Node.isCollection, Node.kind] at collection
  refine .after g m m _ _ _ _ _ (on_node id m) ?_
  cases content : (g.node id).content with
  | scalar text => rw [content] at collection; contradiction
  | sequence items =>
    rw [content] at isDefault
    have isSeq : (g.node id).tag = .seq := beq_iff_eq.mp isDefault
    rw [tag (by rw [isSeq]; simp), isSeq]
    refine .bind g m _ _ _ _ _ _ (agree_sequenceItems g id m _ _ builds mirrors regular path items
      content) ?_
    exact fun values later done => .of_on g later later _ _ _ rfl done
  | mapping pairs =>
    rw [content] at isDefault
    have isMap : (g.node id).tag = .map := beq_iff_eq.mp isDefault
    rw [tag (by rw [isMap]; simp), isMap]
    refine .bind g m _ _ _ _ _ _ (agree_mappingEntries g id m _ _ builds mirrors regular reachable
      path pairs content) ?_
    exact fun values later done => .of_on g later later _ _ _ rfl done

theorem on_valueOf_scalar (build : Bool → NodeBuilder) (deep : Bool) (path : List String)
    (id : NodeId) (tag : Tag) (start : Position) (text : List Text.CodePoint) (key : Scalar)
    (m : Memory) (current : m.nodes.getD id default = ⟨.scalar text, tag, start⟩)
    (ofScalar : tag.isOfScalar = true)
    (result : scalarResult id tag start text = .ok (.scalar key)) :
    on (valueOf build deep path id) m = (.ok (.scalar key), m) := by
  have run := on_scalarValue id tag start text m current
  have spelled (same : scalarResult id tag start text = (scalarOf id start tag text).map .scalar) :
      on (scalarValue id tag) m = (.ok (.scalar key), m) := by
    rw [same] at result
    cases read : scalarOf id start tag text with
    | error stop => rw [read] at result; contradiction
    | ok name =>
      rw [read] at result run
      cases result
      exact run
  rw [valueOf, on_bind_ok _ _ _ _ _ (on_node id m), current]
  cases tag <;> first | exact spelled rfl | contradiction

theorem on_item_scalar (id : NodeId) (m : Memory)
    (becomes : (g.node id).Becomes (m.nodes.getD id default)) (item : g.IsItem id)
    (isScalar : (g.node id).kind = .scalar) :
    ∃ key, g.Spells id key ∧ ∀ (build : Bool → NodeBuilder) (deep : Bool) (path : List String),
      on (valueOf build deep path id) m = (.ok (.scalar key), m) := by
  obtain ⟨text, key, content, ofScalar, result, spells⟩ := item.reads_scalar g id isScalar
  have tag : (m.nodes.getD id default).tag = (g.node id).tag := by
    rcases becomes.tag with same | ⟨value, -⟩
    · exact same
    · rw [value] at ofScalar
      contradiction
  have current : m.nodes.getD id default = ⟨.scalar text, (g.node id).tag, (g.node id).start⟩ := by
    rw [← content, ← becomes.content, ← becomes.start, ← tag]
  exact ⟨key, spells, fun build deep path =>
    on_valueOf_scalar build deep path id _ _ text key m current ofScalar result⟩

theorem on_ready_scalar (id : NodeId) (m : Memory)
    (becomes : (g.node id).Becomes (m.nodes.getD id default)) (ready : Ready g m id)
    (isScalar : (g.node id).kind = .scalar) :
    ∃ key, g.Spells id key ∧ ∀ (build : Bool → NodeBuilder) (deep : Bool) (path : List String),
      on (valueOf build deep path id) m = (.ok (.scalar key), m) := by
  rcases ready with item | ⟨isKey, plain⟩
  · exact on_item_scalar g id m becomes item isScalar
  rcases isKey.2 with item | value
  · exact on_item_scalar g id m becomes item isScalar
  have str : (m.nodes.getD id default).tag = .str := by
    rcases becomes.tag with same | ⟨-, str⟩
    · exact absurd (same.trans value) plain
    · exact str
  obtain ⟨key, text, content, read⟩ := isKey.spells g id
  rw [value] at read
  have current : m.nodes.getD id default = ⟨.scalar text, .str, (g.node id).start⟩ := by
    rw [← content, ← becomes.content, ← becomes.start, ← str]
  refine ⟨key, ⟨text, content, by rw [value]; exact read⟩, fun build deep path => ?_⟩
  exact on_valueOf_scalar build deep path id _ _ text key m current rfl
    (congrArg (Except.map Value.scalar) read)

section Visit

variable (build other : Bool → NodeBuilder) (deep : Bool) (path : List String) (id : NodeId)
  (m : Memory)
  (mirrors : m.Mirrors g) (ready : Ready g m id) (fresh : m.built.getD id none = none)
  (idle : id ∉ m.underway)

include mirrors ready fresh idle

theorem agree_visit_scalar (isScalar : (g.node id).kind = .scalar) :
    Agree g m (visit build deep path id) (visit other deep path id) (Built g id m) := by
  let entered : Memory := { m with underway := id :: m.underway }
  obtain ⟨key, spells, run⟩ := on_ready_scalar g id entered (mirrors.nodes id) ready isScalar
  have noChild (child : NodeId) (holds : g.Holds id child) : False := by
    have collection := g.isCollection_of_holds id child holds
    rw [Node.isCollection, isScalar] at collection
    contradiction
  have agree : Agree g entered (valueOf build deep path id) (valueOf other deep path id)
      fun value later => value = .scalar key ∧ later = entered :=
    ⟨(run _ deep path).trans (run _ deep path).symm, by rw [run]; exact ⟨rfl, rfl⟩⟩
  rw [visit, visit]
  refine .after g m _ _ _ _ _ _ (on_enter id m idle) ?_
  refine .bind g entered _ _ _ _ _ _ agree ?_
  rintro value later ⟨rfl, rfl⟩
  refine .after g entered _ _ _ _ _ _ (on_leave id (.scalar key) entered) ?_
  exact .of_on g _ _ _ (.scalar key) _ rfl (built_of_left g m entered id (.scalar key) mirrors rfl
    idle fresh (fun _ known => known) (fun _ known => known) (fun _ => ⟨key, spells, rfl⟩)
    fun child holds _ => (noChild child holds).elim)

theorem agree_visit_collection (collection : (g.node id).isCollection = true)
    (builds : Builds g id { m with underway := id :: m.underway } (build true) (other true))
    (reachable : g.Reachable id) (regular : g.IsRegularAt id) :
    Agree g m (visit build deep path id) (visit other deep path id) (Built g id m) := by
  have entered := mirrors.enter g m id fresh idle collection
  have isDefault : (g.node id).isDefault = true := by
    rcases ready with item | ⟨isKey, -⟩
    · exact item.1
    · rw [Node.isCollection, isKey.1] at collection
      contradiction
  rw [visit, visit]
  refine .after g m _ _ _ _ _ _ (on_enter id m idle) ?_
  refine .bind g _ _ _ _ _ _ _ (agree_collection g _ _ deep path id _ builds entered reachable
    regular isDefault collection) ?_
  rintro value later ⟨grows, children⟩
  refine .after g later _ _ _ _ _ _ (on_leave id value later) ?_
  refine .of_on g _ _ _ value _ rfl ?_
  have left := grows.mirrors.leave g later id m.underway grows.underway
  exact built_of_left g m later id value left grows.underway idle
    (grows.mirrors.apart id (by rw [grows.underway]; exact List.mem_cons_self)) grows.built
    grows.plain (fun isScalar => by rw [Node.isCollection, isScalar] at collection; contradiction)
    children

end Visit

theorem agree_object (regular : ∀ id, g.Reachable id → g.IsRegularAt id) (fuel : Nat) (deep : Bool)
    (path : List String) (id : NodeId) (m : Memory) (mirrors : m.Mirrors g)
    (enough : g.nodes.size < fuel + m.underway.length) (reachable : g.Reachable id)
    (ready : Ready g m id) (chain : ∀ holder ∈ m.underway, Relation.TransGen g.Holds holder id) :
    Agree g m (object fuel deep path id) (object (fuel + 1) deep path id) (Built g id m) := by
  -- With every call one more node is underway, and no more can
  -- be than there are: the fuel is enough.
  induction fuel generalizing deep path id m with
  | zero =>
    have bound := mirrors.length_underway
    omega
  | succ fuel ih =>
    rw [object, object]
    refine .after g m m _ _ _ _ _ (on_remembered id m) ?_
    cases built : m.built.getD id none with
    | some value =>
      refine .of_on g m m _ value _ rfl ⟨.refl g m mirrors, fun _ => by rw [built]; rfl, ?_⟩
      exact mirrors.spelled id value built
    | none =>
      by_cases working : id ∈ m.underway
      · have fails : on (enter id) m = (.error (g.recursion id), m) := by
          rw [on_enter_again id m working, Graph.recursion, Graph.recursionFault,
            ← (mirrors.nodes id).start]
        exact .excused g m m _ _ _ _ (on_bind_error _ _ _ _ _ fails)
          (on_bind_error _ _ _ _ _ fails) (.recursion id ⟨reachable, chain id working⟩)
      cases collection : (g.node id).isCollection with
      | false =>
        have isScalar : (g.node id).kind = .scalar := by simpa [Node.isCollection] using collection
        exact agree_visit_scalar g _ _ deep path id m mirrors ready built working isScalar
      | true =>
        refine agree_visit_collection g _ _ deep path id m mirrors ready built working collection ?_
          reachable (regular id reachable)
        intro path child later grows holds readyChild
        refine ih true path child later grows.mirrors ?_ (reachable.tail holds) readyChild ?_
        · rw [grows.underway, List.length_cons]
          omega
        · rw [grows.underway, List.forall_mem_cons]
          exact ⟨.single holds, fun holder member => (chain holder member).tail holds⟩

end Build

namespace Graph

variable (g : Graph)

theorem mirrors_memory : (g.memory Channel.outermost).Mirrors g := by
  have unbuilt (id : NodeId) : (g.memory Channel.outermost).built.getD id none = none := by
    simp [Graph.memory, Array.getD]
  exact {
    size := by simp [Graph.memory]
    nodes := fun id => .refl _
    channel := rfl
    deferred := rfl
    filled := rfl
    spelled := fun id value known => by rw [unbuilt] at known; contradiction
    closed := fun id child known => by rw [unbuilt] at known; contradiction
    acyclic := fun id known => by rw [unbuilt] at known; contradiction
    apart := fun id _ => unbuilt id
    distinct := List.nodup_nil
    inside := fun id member => absurd member List.not_mem_nil }

theorem isCollection_root (id : NodeId) (cycles : g.Cycles id) :
    (g.node g.root).isCollection = true := by
  obtain ⟨reachable, cycle⟩ := cycles
  rcases Relation.ReflTransGen.cases_head reachable with rfl | ⟨next, holds, -⟩
  · obtain ⟨next, holds, -⟩ := Relation.TransGen.head'_iff.mp cycle
    exact g.isCollection_of_holds _ next holds
  · exact g.isCollection_of_holds _ next holds

variable (regular : g.IsRegular)

include regular

theorem agree_root (fuel : Nat) (enough : g.nodes.size < fuel) :
    Build.Agree g (g.memory Channel.outermost) (Build.object fuel false [] g.root)
      (Build.object (fuel + 1) false [] g.root)
      (Build.Built g g.root (g.memory Channel.outermost)) :=
  Build.agree_object g regular.held fuel false [] g.root _ g.mirrors_memory
    (Nat.lt_of_lt_of_le enough (Nat.le_add_right _ _)) .refl (.inl regular.root)
    fun _ member => absurd member List.not_mem_nil

theorem on_object_steady (fuel : Nat) (enough : g.nodes.size < fuel) :
    Build.on (Build.object fuel false [] g.root) (g.memory Channel.outermost) =
      Build.on (Build.object (g.nodes.size + 1) false [] g.root) (g.memory Channel.outermost) := by
  induction fuel, enough using Nat.le_induction with
  | base => rfl
  | succ fuel enough ih => rw [← (g.agree_root regular fuel enough).1, ih]

theorem read_regular :
    (∃ value, (g.read Channel.outermost).outcome = .ok value ∧ ¬∃ id, g.Cycles id) ∨
      ∃ halt, (g.read Channel.outermost).outcome = .error halt ∧ g.Excuses halt := by
  have outcome : (g.read Channel.outermost).outcome =
      (Build.on g.build (g.memory Channel.outermost)).1 := rfl
  have ends := (g.agree_root regular (g.nodes.size + 1) (Nat.lt_succ_self _)).2
  rw [outcome, Graph.build]
  cases run : Build.on (Build.object (g.nodes.size + 1) false [] g.root)
      (g.memory Channel.outermost) with
  | mk result later =>
    rw [run] at ends
    cases result with
    | error halt => exact .inr ⟨halt, by rw [Build.on_bind_error _ _ _ _ _ run], ends⟩
    | ok value =>
      have mirrors := ends.grows.mirrors
      refine .inl ⟨value, ?_, ?_⟩
      · have settled : Build.on (Build.fillDeferred (Build.object (g.nodes.size + 1))
            (g.nodes.size + 1)) later = (.ok (), later) := by
          rw [Build.fillDeferred, Build.on_get_bind, mirrors.deferred]
          rfl
        rw [Build.on_bind_ok _ _ _ _ _ run, Build.on_bind_ok _ _ _ _ _ settled, Build.on_get_bind,
          mirrors.filled]
        rfl
      · rintro ⟨id, cycles⟩
        obtain ⟨next, holds, -⟩ := Relation.TransGen.head'_iff.mp cycles.2
        have built := mirrors.built_of_path g later g.root id
          (ends.known (g.isCollection_root id cycles)) cycles.1
            (g.isCollection_of_holds id next holds)
        exact mirrors.acyclic id built cycles.2

theorem read_recursion :
    (∀ fuel, g.nodes.size < fuel →
      Build.on (Build.object fuel false [] g.root) (g.memory Channel.outermost) =
        Build.on (Build.object (g.nodes.size + 1) false [] g.root) (g.memory Channel.outermost)) ∧
      (∀ value, (g.read Channel.outermost).outcome = .ok value → ¬∃ id, g.Cycles id) ∧
      (∀ halt, (g.read Channel.outermost).outcome = .error halt → g.Excuses halt) ∧
      (¬g.HasLongKey →
        ((∃ id, g.Cycles id ∧ (g.read Channel.outermost).outcome = .error (g.recursion id)) ↔
          ∃ id, g.Cycles id) ∧
        ((¬∃ id, g.Cycles id) → ∃ value, (g.read Channel.outermost).outcome = .ok value)) ∧
      ∀ (source : String) (filename : Option String) (id : NodeId),
        graphOfSource source.toList = .ok (some g) →
        (g.read Channel.outermost).outcome = .error (g.recursion id) →
        ∃ rejection, (Lenient.parse Channel.outermost source filename).outcome =
          .error (.rejected rejection) ∧ rejection.category = .malformed := by
  refine ⟨g.on_object_steady regular, ?_, ?_, ?_, ?_⟩
  · intro value read
    obtain ⟨_, _, acyclic⟩ | ⟨halt, fails, -⟩ := g.read_regular regular
    · exact acyclic
    · rw [read] at fails
      contradiction
  · intro halt fails
    obtain ⟨value, read, -⟩ | ⟨other, fails', excuse⟩ := g.read_regular regular
    · rw [fails] at read
      contradiction
    · cases fails.symm.trans fails'
      exact excuse
  · intro short
    obtain ⟨value, read, acyclic⟩ | ⟨halt, fails, excuse⟩ := g.read_regular regular
    · exact ⟨⟨fun ⟨id, cycles, _⟩ => ⟨id, cycles⟩, fun cyclic => absurd cyclic acyclic⟩,
        fun _ => ⟨value, read⟩⟩
    · cases excuse with
      | longKey long => exact absurd long short
      | recursion id cycles =>
        exact ⟨⟨fun ⟨id, cycles, _⟩ => ⟨id, cycles⟩, fun _ => ⟨id, cycles, fails⟩⟩,
          fun acyclic => absurd ⟨id, cycles⟩ acyclic⟩
  · intro source filename id composed fails
    have reads : Yaml.read Channel.outermost source.toList = g.read Channel.outermost := by
      rw [Yaml.read, composed]
    refine ⟨.ofProblem (.marked ((g.recursionFault id).marked source.toList)) source filename,
      ?_, rfl⟩
    rw [Lenient.parse, reads]
    simp only [fails]
    rfl

end Graph

def looped : Graph where
  nodes := #[⟨.mapping [(1, 2)], .map, ⟨0, 0, 0⟩⟩, ⟨.scalar [.char 'a'], .str, ⟨0, 3, 3⟩⟩,
    ⟨.sequence [0], .seq, ⟨0, 6, 6⟩⟩]
  root := 0

theorem looped_recursion :
    ∃ id, looped.Cycles id ∧
      (looped.read Channel.outermost).outcome = .error (looped.recursion id) := by
  have inside (id : NodeId) (reachable : looped.Reachable id) : id < 3 :=
    looped.lt_size_of_reachable (by decide) (by decide) id reachable
  have held : ∀ id < 3, looped.IsRegularAt id := by decide
  have regular : looped.IsRegular := ⟨by decide, fun id reachable => held id (inside id reachable)⟩
  have keys : ∀ id < 3, ∀ pair ∈ (looped.node id).pairs, pair.1 = 1 := by decide
  have short : ¬looped.HasLongKey := by
    rintro ⟨id, before, pair, after, key, reachable, content, ⟨text, written, spelled⟩,
      unwritable, -⟩
    have key_one : pair.1 = 1 :=
      keys id (inside id reachable) pair (by rw [Node.pairs, content]; simp)
    rw [key_one] at written spelled
    cases written
    cases spelled
    contradiction
  have first : looped.Holds 0 2 := show 2 ∈ (looped.node 0).content.children by decide
  have second : looped.Holds 2 0 := show 0 ∈ (looped.node 2).content.children by decide
  exact ((looped.read_recursion regular).2.2.2.1 short).1.mpr
    ⟨0, .refl, .tail (.single first) second⟩

end LocaleLint.Yaml
