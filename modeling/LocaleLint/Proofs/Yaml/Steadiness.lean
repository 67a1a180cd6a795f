import LocaleLint.Yaml.Read
import LocaleLint.Proofs.Yaml.Run

set_option autoImplicit false

namespace LocaleLint.Yaml

def Scalar.isPrintable (name : Scalar) : Bool := name.isWritable && !name.isHalved

def isSteadyResult : Except Stop Scalar → Bool
  | .ok name => name.isPrintable
  | .error (.breakdown _) => false
  | .error _ => true

def Node.isSteady (node : Node) (id : NodeId) : Bool :=
  match node.content, node.tag with
  | .scalar text, .map | .scalar text, .set | .scalar text, .seq => text.isEmpty
  | .scalar _, .orderedMap | .scalar _, .pairs | .scalar _, .merge | .scalar _, .other _ => true
  | .scalar text, .value => isSteadyResult (Build.scalarOf id node.start .str text)
  | .scalar text, tag => isSteadyResult (Build.scalarOf id node.start tag text)
  | .sequence items, .map | .sequence items, .set => items.isEmpty
  | .sequence _, _ => true
  | .mapping _, .map | .mapping _, .set | .mapping _, .orderedMap | .mapping _, .pairs
  | .mapping _, .merge | .mapping _, .other _ => true
  | .mapping _, _ => false

def Graph.IsSteady (g : Graph) : Prop := ∀ id < g.nodes.size, (g.node id).isSteady id = true

def Value.IsPrintable (value : Value) : Prop :=
  ∀ name, value.key? = some name → name.isPrintable = true

structure Memory.IsSteady (m : Memory) : Prop where
  nodes : ∀ id, (m.nodes.getD id default).isSteady id = true
  built : ∀ id value, m.built.getD id none = some value → value.IsPrintable
  -- What is filled later is a set, an ordered map or pairs.
  deferred : ∀ id ∈ m.deferred, (m.nodes.getD id default).tag ∈ [Tag.set, .orderedMap, .pairs]
  duplicates : ∀ found ∈ m.duplicates, found.key.isHalved = false

structure Memory.Keeps (m later : Memory) : Prop where
  kind : ∀ id, (later.nodes.getD id default).kind = (m.nodes.getD id default).kind
  tag : ∀ id, (m.nodes.getD id default).tag ≠ .value →
    (later.nodes.getD id default).tag = (m.nodes.getD id default).tag

theorem Memory.Keeps.refl (m : Memory) : m.Keeps m := ⟨fun _ => rfl, fun _ _ => rfl⟩

theorem Memory.Keeps.trans (m middle later : Memory) (first : m.Keeps middle)
    (next : middle.Keeps later) : m.Keeps later where
  kind := fun id => (next.kind id).trans (first.kind id)
  tag := fun id plain => by
    have same := first.tag id plain
    rw [next.tag id (by rw [same]; exact plain), same]

namespace Build

variable {α β : Type}

def SafeAt (m : Memory) (x : Build α) (good : α → Prop) : Prop :=
  match on x m with
  | (.ok value, later) => later.IsSteady ∧ m.Keeps later ∧ good value
  | (.error halt, later) =>
      (∀ b, halt ≠ .stop (.breakdown b)) ∧ ∀ found ∈ later.duplicates, found.key.isHalved = false

def Safe (x : Build α) (good : α → Prop) : Prop := ∀ m : Memory, m.IsSteady → SafeAt m x good

theorem SafeAt.pure (m : Memory) (value : α) (good : α → Prop) (steady : m.IsSteady)
    (holds : good value) : SafeAt m (pure value) good :=
  ⟨steady, .refl m, holds⟩

theorem SafeAt.halt (m : Memory) (stop : Stop) (good : α → Prop) (steady : m.IsSteady)
    (faulty : ∀ b, stop ≠ .breakdown b) : SafeAt m (halt stop : Build α) good :=
  ⟨fun b same => faulty b (Halt.stop.inj same), steady.duplicates⟩

theorem SafeAt.after (m : Memory) (x : Build α) (f : α → Build β) (value : α) (good : β → Prop)
    (run : on x m = (.ok value, m)) (rest : SafeAt m (f value) good) : SafeAt m (x >>= f) good := by
  unfold SafeAt at rest ⊢
  rw [on_bind_ok _ _ _ _ _ run]
  exact rest

theorem SafeAt.bind (m : Memory) (x : Build α) (f : α → Build β) (good : α → Prop)
    (better : β → Prop) (first : SafeAt m x good)
    (next : ∀ value later, good value → later.IsSteady → m.Keeps later →
      SafeAt later (f value) better) : SafeAt m (x >>= f) better := by
  unfold SafeAt at first ⊢
  cases run : on x m with
  | mk result middle =>
    rw [run] at first
    cases result with
    | error halt =>
      rw [on_bind_error _ _ _ _ _ run]
      exact first
    | ok value =>
      obtain ⟨steady, keeps, holds⟩ := first
      have rest := next value middle holds steady keeps
      rw [on_bind_ok _ _ _ _ _ run]
      unfold SafeAt at rest
      cases ending : on (f value) middle with
      | mk outcome later =>
        rw [ending] at rest
        cases outcome with
        | error halt => exact rest
        | ok last =>
          obtain ⟨steadyLast, keepsLast, holdsLast⟩ := rest
          exact ⟨steadyLast, keeps.trans _ _ _ keepsLast, holdsLast⟩

theorem SafeAt.change (m : Memory) (change : Memory → Memory) (steady : (change m).IsSteady)
    (keeps : m.Keeps (change m)) : SafeAt m (modify change) fun _ => True :=
  ⟨steady, keeps, trivial⟩

theorem SafeAt.afterChange (m : Memory) (change : Memory → Memory) (f : Unit → Build β)
    (good : β → Prop) (keeps : m.Keeps (change m)) (rest : SafeAt (change m) (f ()) good) :
    SafeAt m (modify change >>= f) good := by
  unfold SafeAt at rest ⊢
  rw [on_modify_bind]
  cases ending : on (f ()) (change m) with
  | mk outcome later =>
    rw [ending] at rest
    cases outcome with
    | error halt => exact rest
    | ok last =>
      obtain ⟨steady, keepsLast, holds⟩ := rest
      exact ⟨steady, keeps.trans _ _ _ keepsLast, holds⟩

theorem Safe.bind (x : Build α) (f : α → Build β) (good : α → Prop) (better : β → Prop)
    (first : Safe x good) (next : ∀ value, good value → Safe (f value) better) :
    Safe (x >>= f) better := by
  intro m steady
  refine .bind m x f good better (first m steady) ?_
  exact fun value later holds steadyLater _ => next value holds later steadyLater

theorem Safe.pure (value : α) (good : α → Prop) (holds : good value) : Safe (pure value) good :=
  fun m steady => .pure m value good steady holds

theorem Safe.halt (stop : Stop) (good : α → Prop) (faulty : ∀ b, stop ≠ .breakdown b) :
    Safe (halt stop : Build α) good :=
  fun m steady => .halt m stop good steady faulty

theorem safe_node (id : NodeId) : Safe (node id) fun current => current.isSteady id = true :=
  fun m steady => ⟨steady, .refl m, steady.nodes id⟩

theorem safe_pairsOf (id : NodeId) : Safe (pairsOf id) fun _ => True :=
  fun m steady => ⟨steady, .refl m, trivial⟩

theorem safe_demand (holds : Bool) (stop : Stop) (faulty : ∀ b, stop ≠ .breakdown b) :
    Safe (demand holds stop) fun _ => True := by
  cases holds with
  | true => exact .pure () _ trivial
  | false => exact .halt stop _ faulty

theorem safe_hashable (start place : Position) (value : Value) (printable : value.IsPrintable) :
    Safe (hashable start place value) fun name => name.isPrintable = true := by
  unfold hashable
  cases named : value.key? with
  | some name => exact .pure name _ (printable name named)
  | none => exact .halt _ _ fun _ => nofun

structure Allows (m : Memory) (nodes : Array Node) : Prop where
  each : ∀ id, (nodes.getD id default).isSteady id = true
  keeps : m.Keeps { m with nodes := nodes }

theorem SafeAt.changeNodes (m : Memory) (nodes : Array Node) (steady : m.IsSteady)
    (allows : Allows m nodes) :
    SafeAt m (modify fun m => { m with nodes := nodes }) fun _ => True := by
  refine .change m _ ⟨allows.each, steady.built, fun id member => ?_, steady.duplicates⟩
    allows.keeps
  have filled := steady.deferred id member
  have late : (m.nodes.getD id default).tag ≠ .value := by
    intro same
    rw [same] at filled
    simp at filled
  rw [← allows.keeps.tag id late] at filled
  exact filled

theorem isSteady_mapping (node : Node) (id : NodeId) (pairs : List (NodeId × NodeId))
    (isMapping : node.kind = .mapping) (steady : node.isSteady id = true) :
    ({ node with content := .mapping pairs } : Node).isSteady id = true := by
  obtain ⟨content, tag, start⟩ := node
  cases content with
  | scalar text => cases isMapping
  | sequence items => cases isMapping
  | mapping old => cases tag <;> exact steady

theorem safe_setPairs (id : NodeId) (pairs : List (NodeId × NodeId)) (m : Memory)
    (steady : m.IsSteady) (isMapping : (m.nodes.getD id default).kind = .mapping) :
    SafeAt m (setPairs id pairs) fun _ => True := by
  refine SafeAt.changeNodes m _ steady ⟨fun other => ?_, fun other => ?_, fun other _ => ?_⟩
  · rw [getD_modify]
    split
    · next here =>
      rw [← here.1]
      exact isSteady_mapping _ id pairs isMapping (steady.nodes id)
    · exact steady.nodes other
  · simp only [getD_modify]
    split
    · next here =>
      rw [← here.1, isMapping]
      rfl
    · rfl
  · simp only [getD_modify]
    split <;> rfl

theorem isSteady_str (node : Node) (id : NodeId) (tag : node.tag = .value)
    (steady : node.isSteady id = true) : ({ node with tag := .str } : Node).isSteady id = true := by
  obtain ⟨content, tag, start⟩ := node
  cases tag
  cases content with
  | scalar text => exact steady
  | sequence items => rfl
  | mapping pairs => cases steady

theorem Allows.plainKey (m : Memory) (nodes : Array Node) (id : NodeId) (allows : Allows m nodes)
    (tagged : hasTag nodes .value id = true) :
    Allows m (nodes.modify id fun node => { node with tag := .str }) := by
  have tag : (nodes.getD id default).tag = .value := beq_iff_eq.mp tagged
  refine ⟨fun other => ?_, fun other => ?_, fun other plain => ?_⟩
  · rw [getD_modify]
    split
    · next here =>
      rw [← here.1]
      exact isSteady_str _ id tag (allows.each id)
    · exact allows.each other
  · have same := allows.keeps.kind other
    simp only [getD_modify]
    split <;> exact same
  · have same := allows.keeps.tag other plain
    simp only [getD_modify]
    split
    · next here =>
      -- It was a plain `=` from the beginning, of which nothing is said.
      simp only at same
      rw [← here.1, tag] at same
      exact absurd (here.1 ▸ same.symm) plain
    · exact same

theorem safe_plainValueKeys (pairs : List (NodeId × NodeId)) :
    Safe (plainValueKeys pairs) fun _ => True := by
  intro m steady
  have all (pairs : List (NodeId × NodeId)) (nodes : Array Node) (allows : Allows m nodes) :
      Allows m (pairs.foldl (fun nodes pair => if hasTag nodes .value pair.1 then
        nodes.modify pair.1 fun node => { node with tag := .str } else nodes) nodes) := by
    induction pairs generalizing nodes with
    | nil => exact allows
    | cons pair rest ih =>
      rw [List.foldl_cons]
      split
      · next tagged => exact ih _ (allows.plainKey m nodes pair.1 tagged)
      · exact ih _ allows
  exact SafeAt.changeNodes m _ steady (all pairs m.nodes ⟨steady.nodes, .refl m⟩)

theorem safe_listedPairs (flattenNode : NodeId → Build Unit)
    (flattens : ∀ id, Safe (flattenNode id) fun _ => True) (start : Position)
    (items : List NodeId) :
    Safe (listedPairs flattenNode start items) fun _ => True := by
  induction items with
  | nil => exact .pure _ _ trivial
  | cons item rest ih =>
    refine .bind _ _ _ _ (safe_node item) fun itemNode _ => ?_
    refine .bind _ _ _ _ (safe_demand _ _ fun _ => nofun) fun _ _ => ?_
    refine .bind _ _ _ _ (flattens item) fun _ _ => ?_
    refine .bind _ _ _ _ (safe_pairsOf item) fun pairs _ => ?_
    exact .bind _ _ _ _ ih fun _ _ => .pure _ _ trivial

theorem safe_sourcePairs (flattenNode : NodeId → Build Unit)
    (flattens : ∀ id, Safe (flattenNode id) fun _ => True) (start : Position) (source : NodeId) :
    Safe (sourcePairs flattenNode start source) fun _ => True := by
  refine .bind _ _ _ _ (safe_node source) fun sourceNode _ => ?_
  split
  · exact .bind _ _ _ _ (flattens source) fun _ _ => safe_pairsOf source
  · refine .bind _ _ _ _ (safe_listedPairs _ flattens _ _) fun _ _ => ?_
    exact .pure _ _ trivial
  · exact .halt _ _ fun _ => nofun

theorem safe_absorb (flattenNode : NodeId → Build Unit)
    (flattens : ∀ id, Safe (flattenNode id) fun _ => True) (id : NodeId) (fuel : Nat)
    (merged : List (NodeId × NodeId)) (m : Memory) (steady : m.IsSteady)
    (isMapping : merged ≠ [] → (m.nodes.getD id default).kind = .mapping) :
    SafeAt m (absorb flattenNode id fuel merged) fun _ => True := by
  induction fuel generalizing merged m with
  | zero => exact .pure m _ _ steady trivial
  | succ fuel ih =>
    rw [absorb]
    refine .after m _ _ _ _ (on_get m) ?_
    refine .after m _ _ _ _ (on_pairsOf id m) ?_
    cases taken : takeMerge? (hasTag m.nodes .merge) (m.nodes.getD id default).pairs with
    | none =>
      dsimp only
      refine .bind m _ _ _ _ (safe_plainValueKeys _ m steady) ?_
      intro _ later _ steadyLater keeps
      by_cases empty : merged = []
      next =>
        rw [empty]
        exact .pure later _ _ steadyLater trivial
      next =>
        have some : (!merged.isEmpty) = true := by simpa using empty
        rw [if_pos some]
        exact safe_setPairs id _ later steadyLater (by rw [keeps.kind]; exact isMapping empty)
    | some found =>
      obtain ⟨source, others⟩ := found
      -- Nothing but a mapping has merge keys, so nothing else is given new pairs.
      obtain ⟨key, there, -, -⟩ := takeMerge?_mem _ _ _ _ taken
      have here : (m.nodes.getD id default).kind = .mapping := by
        rw [Node.kind, Node.content_of_mem_pairs _ _ there]
        rfl
      dsimp only
      refine .bind m _ _ _ _ (safe_setPairs id others m steady here) ?_
      intro _ cut _ steadyCut keepsCut
      refine .after cut _ _ _ _ (on_node id cut) ?_
      refine .bind cut _ _ _ _ (safe_sourcePairs _ flattens _ source cut steadyCut) ?_
      intro more later _ steadyLater keepsLater
      exact ih _ later steadyLater fun _ => by rw [keepsLater.kind, keepsCut.kind, here]

theorem safe_flatten (fuel : Nat) (id : NodeId) : Safe (flatten fuel id) fun _ => True := by
  induction fuel generalizing id with
  | zero => exact .pure _ _ trivial
  | succ fuel ih =>
    exact fun m steady => safe_absorb _ ih id _ _ m steady fun some => absurd rfl some

theorem safe_announce (path : List String) (key : Scalar) (place : Position)
    (printable : key.isPrintable = true) : Safe (announce path key place) fun _ => True := by
  have whole : key.isHalved = false := by
    simp only [Scalar.isPrintable, Bool.and_eq_true, Bool.not_eq_true'] at printable
    exact printable.2
  intro m steady
  unfold announce
  refine .after m _ _ _ _ (on_get m) ?_
  cases m.channel.deliver _ with
  | raised rejection => exact ⟨fun _ => nofun, steady.duplicates⟩
  | delivered diagnostic =>
    refine .change m _ { steady with duplicates := ?_ } ⟨fun _ => rfl, fun _ _ => rfl⟩
    intro found member
    rcases List.mem_cons.mp member with rfl | member
    · exact whole
    · exact steady.duplicates found member

theorem safe_announceIf (again : Bool) (path : List String) (key : Scalar) (place : Position)
    (printable : key.isPrintable = true) :
    Safe (announceIf again path key place) fun _ => True := by
  cases again with
  | true => exact safe_announce path key place printable
  | false => exact .pure _ _ trivial

def SafeBuilder (build : NodeBuilder) : Prop := ∀ path id, Safe (build path id) Value.IsPrintable

theorem safe_entriesFrom (build : NodeBuilder) (builds : SafeBuilder build) (path : List String)
    (start : Position) (pairs : List (NodeId × NodeId)) (merged : Nat) (seen : List Scalar)
    (entries : List (Scalar × Value)) :
    Safe (entriesFrom build path start pairs merged seen entries) fun _ => True := by
  induction pairs generalizing merged seen entries with
  | nil => exact .pure _ _ trivial
  | cons pair rest ih =>
    obtain ⟨keyId, valueId⟩ := pair
    refine .bind _ _ _ _ (safe_node keyId) fun keyNode _ => ?_
    refine .bind _ _ _ _ (builds path keyId) fun value printable => ?_
    refine .bind _ _ _ _ (safe_hashable _ _ _ printable) fun key fine => ?_
    have short : key.isWritable = true := by
      simp only [Scalar.isPrintable, Bool.and_eq_true] at fine
      exact fine.1
    refine .bind _ _ _ _ (safe_node valueId) fun valueNode _ => ?_
    dsimp only
    rw [short, Bool.or_true]
    refine .bind _ _ _ _ (.pure () (fun _ => True) trivial) fun _ _ => ?_
    refine .bind _ _ _ _ (safe_announceIf _ _ _ _ fine) fun _ _ => ?_
    exact .bind _ _ _ _ (builds _ valueId) fun _ _ => ih _ _ _

theorem safe_mappingEntries (build : NodeBuilder) (builds : SafeBuilder build) (path : List String)
    (id : NodeId) (m : Memory) (steady : m.IsSteady)
    (tag : (m.nodes.getD id default).tag ∈ [Tag.map, .set]) :
    SafeAt m (mappingEntries build path id) fun _ => True := by
  have here := steady.nodes id
  rw [mappingEntries]
  refine .after m _ _ _ _ (on_node id m) ?_
  cases current : m.nodes.getD id default with
  | mk content kind start =>
    rw [current] at here tag
    have either : kind = .map ∨ kind = .set := by simpa using tag
    cases content with
    | scalar text =>
      have empty : text.isEmpty = true := by
        rcases either with rfl | rfl
        · exact here
        · exact here
      simp only [empty, if_true]
      exact .pure m _ _ steady trivial
    | sequence items =>
      have empty : items.isEmpty = true := by
        rcases either with rfl | rfl
        · exact here
        · exact here
      simp only [empty, if_true]
      exact .pure m _ _ steady trivial
    | mapping pairs =>
      refine .after m _ _ _ _ (on_get m) ?_
      refine .bind m _ _ _ _ (safe_flatten _ id m steady) fun _ later _ steadyLater _ => ?_
      refine .after later _ _ _ _ (on_pairsOf id later) ?_
      exact safe_entriesFrom build builds path _ _ _ _ _ later steadyLater

theorem safe_itemsFrom (build : NodeBuilder) (builds : SafeBuilder build) (path : List String)
    (items : List NodeId) (index : Nat) :
    Safe (itemsFrom build path items index) fun _ => True := by
  induction items generalizing index with
  | nil => exact .pure _ _ trivial
  | cons item rest ih =>
    refine .bind _ _ _ _ (builds _ item) fun value _ => ?_
    exact .bind _ _ _ _ (ih _) fun _ _ => .pure _ _ trivial

theorem safe_sequenceItems (build : NodeBuilder) (builds : SafeBuilder build) (path : List String)
    (id : NodeId) (m : Memory) (steady : m.IsSteady) (tag : (m.nodes.getD id default).tag = .seq) :
    SafeAt m (sequenceItems build path id) fun _ => True := by
  have here := steady.nodes id
  rw [sequenceItems]
  refine .after m _ _ _ _ (on_node id m) ?_
  cases current : m.nodes.getD id default with
  | mk content kind start =>
    rw [current] at here tag
    cases tag
    cases content with
    | sequence items => exact safe_itemsFrom build builds path items 0 m steady
    | scalar text =>
      have empty : text.isEmpty = true := here
      simp only [empty, if_true]
      exact .pure m _ _ steady trivial
    | mapping pairs => cases here

theorem safe_pairFrom (build : NodeBuilder) (builds : SafeBuilder build) (path : List String)
    (activity : Activity) (start : Position) (id : NodeId) :
    Safe (pairFrom build path activity start id) fun _ => True := by
  refine .bind _ _ _ _ (safe_node id) fun current _ => ?_
  split
  · refine .bind _ _ _ _ (builds _ _) fun key _ => ?_
    exact .bind _ _ _ _ (builds _ _) fun _ _ => .pure _ _ trivial
  · exact .halt _ _ fun _ => nofun
  · exact .halt _ _ fun _ => nofun

theorem safe_mapM {γ : Type} (f : γ → Build α) (each : ∀ item, Safe (f item) fun _ => True)
    (items : List γ) : Safe (items.mapM f) fun _ => True := by
  induction items with
  | nil => exact .pure _ _ trivial
  | cons item rest ih =>
    rw [List.mapM_cons]
    refine .bind _ _ _ _ (each item) fun _ _ => ?_
    exact .bind _ _ _ _ ih fun _ _ => .pure _ _ trivial

theorem safe_pairList (build : NodeBuilder) (builds : SafeBuilder build) (path : List String)
    (activity : Activity) (id : NodeId) :
    Safe (pairList build path activity id) fun _ => True := by
  refine .bind _ _ _ _ (safe_node id) fun current _ => ?_
  split
  · exact safe_mapM _ (safe_pairFrom build builds path activity _) _
  · exact .halt _ _ fun _ => nofun

theorem safe_fill (build : NodeBuilder) (builds : SafeBuilder build) (path : List String)
    (id : NodeId) (m : Memory) (steady : m.IsSteady)
    (tag : (m.nodes.getD id default).tag ∈ [Tag.set, .orderedMap, .pairs]) :
    SafeAt m (fill build path id) Value.IsPrintable := by
  have list (activity : Activity) : SafeAt m
      (pairList build path activity id >>= fun items => pure (Value.list items))
        Value.IsPrintable :=
    .bind m _ _ _ _ (safe_pairList build builds path activity id m steady)
      fun _ later _ steadyLater _ => .pure later _ _ steadyLater nofun
  rw [fill]
  refine .after m _ _ _ _ (on_tagOf id m) ?_
  cases current : (m.nodes.getD id default).tag
  case orderedMap => exact list .orderedMap
  case pairs => exact list .pairs
  case set =>
    refine .bind m _ _ _ _ (safe_mappingEntries build builds path id m steady ?_) ?_
    · rw [current]
      simp
    · exact fun _ later _ steadyLater _ => .pure later _ _ steadyLater nofun
  all_goals
    rw [current] at tag
    simp at tag

theorem safe_attempt (result : Except Stop Scalar) (steady : isSteadyResult result = true) :
    Safe (attempt result) fun name => name.isPrintable = true := by
  cases result with
  | ok name => exact .pure name _ steady
  | error stop =>
    refine .halt stop _ fun b same => ?_
    rw [same] at steady
    cases steady

theorem on_scalarText_sequence (fuel : Nat) (id : NodeId) (m : Memory) (items : List NodeId)
    (content : (m.nodes.getD id default).content = .sequence items) :
    on (scalarText (fuel + 1) id) m =
      (.error (.stop (.fault ⟨none, none, .scalarExpected .sequence,
        (m.nodes.getD id default).start⟩)), m) := by
  rw [scalarText, on_bind_ok _ _ _ _ _ (on_node id m), content]
  rfl

theorem safe_scalarValue (id : NodeId) (m : Memory) (steady : m.IsSteady) (tag : Tag)
    (result : ∀ text, (m.nodes.getD id default).content = .scalar text →
      isSteadyResult (scalarOf id (m.nodes.getD id default).start tag text) = true)
    (noMapping : (m.nodes.getD id default).kind ≠ .mapping) :
    SafeAt m (scalarValue id tag) Value.IsPrintable := by
  rw [scalarValue]
  refine .after m _ _ _ _ (on_node id m) ?_
  refine .after m _ _ _ _ (on_get m) ?_
  cases content : (m.nodes.getD id default).content with
  | mapping pairs =>
    rw [Node.kind, content] at noMapping
    exact absurd rfl noMapping
  | sequence items =>
    have run := on_scalarText_sequence m.nodes.size id m items content
    unfold SafeAt
    rw [on_bind_error _ _ _ _ _ run]
    exact ⟨fun _ => nofun, steady.duplicates⟩
  | scalar text =>
    have run : on (scalarText (m.nodes.size + 1) id) m = (.ok text, m) := by
      rw [scalarText, on_bind_ok _ _ _ _ _ (on_node id m), content]
      rfl
    refine .after m _ _ _ _ run ?_
    have noCollection : (m.nodes.getD id default).isCollection = false := by
      rw [Node.isCollection, Node.kind, content]
      rfl
    rw [noCollection, Bool.and_false]
    refine .after m _ _ _ _ (on_demand_true _ m) ?_
    refine .bind m _ _ _ _ (safe_attempt _ (result text content) m steady) ?_
    intro name later fine steadyLater _
    refine .pure later _ _ steadyLater fun other same => ?_
    cases same
    exact fine

theorem safe_defer (id : NodeId) (m : Memory) (steady : m.IsSteady)
    (tag : (m.nodes.getD id default).tag ∈ [Tag.set, .orderedMap, .pairs]) :
    SafeAt m (defer id) Value.IsPrintable := by
  have deferred : ({ m with deferred := m.deferred ++ [id] } : Memory).IsSteady := by
    refine { steady with deferred := fun other member => ?_ }
    rcases List.mem_append.mp member with member | member
    · exact steady.deferred other member
    · rw [List.mem_singleton.mp member]
      exact tag
  refine .bind m _ _ _ _ (.change m _ deferred ⟨fun _ => rfl, fun _ _ => rfl⟩) ?_
  exact fun _ later _ steadyLater _ => .pure later _ _ steadyLater nofun

theorem safe_valueOf (build : Bool → NodeBuilder) (builds : ∀ deep, SafeBuilder (build deep))
    (deep : Bool) (path : List String) (id : NodeId) :
    Safe (valueOf build deep path id) Value.IsPrintable := by
  intro m steady
  have here := steady.nodes id
  have fillOrDefer (tag : (m.nodes.getD id default).tag ∈ [Tag.set, .orderedMap, .pairs]) :
      SafeAt m (if deep then fill (build deep) path id else defer id) Value.IsPrintable := by
    split
    · exact safe_fill _ (builds deep) path id m steady tag
    · exact safe_defer id m steady tag
  -- A mapping with the tag of a scalar could have a default, so steadiness leaves it out.
  have scalar (tag : Tag) (same : (m.nodes.getD id default).tag = tag)
      (isScalar : tag ∈ [Tag.null, .bool, .int, .float, .binary, .timestamp, .str]) :
      SafeAt m (scalarValue id tag) Value.IsPrintable := by
    refine safe_scalarValue id m steady tag ?_ ?_
    · intro text content
      rw [Node.isSteady, content, same] at here
      simp only [List.mem_cons, List.not_mem_nil, or_false] at isScalar
      rcases isScalar with rfl | rfl | rfl | rfl | rfl | rfl | rfl <;> exact here
    · intro isMapping
      cases content : (m.nodes.getD id default).content with
      | scalar text =>
        rw [Node.kind, content] at isMapping
        cases isMapping
      | sequence items =>
        rw [Node.kind, content] at isMapping
        cases isMapping
      | mapping pairs =>
        rw [Node.isSteady, content, same] at here
        simp only [List.mem_cons, List.not_mem_nil, or_false] at isScalar
        rcases isScalar with rfl | rfl | rfl | rfl | rfl | rfl | rfl <;> cases here
  rw [valueOf]
  refine .after m _ _ _ _ (on_node id m) ?_
  cases current : (m.nodes.getD id default).tag
  case map =>
    refine .bind m _ _ _ _ (safe_mappingEntries _ (builds true) path id m steady ?_) ?_
    · rw [current]
      simp
    · exact fun _ later _ steadyLater _ => .pure later _ _ steadyLater nofun
  case seq =>
    refine .bind m _ _ _ _ (safe_sequenceItems _ (builds true) path id m steady current) ?_
    exact fun _ later _ steadyLater _ => .pure later _ _ steadyLater nofun
  case orderedMap => exact fillOrDefer (by rw [current]; simp)
  case pairs => exact fillOrDefer (by rw [current]; simp)
  case set => exact fillOrDefer (by rw [current]; simp)
  case merge => exact .halt m _ _ steady fun _ => nofun
  case value => exact .halt m _ _ steady fun _ => nofun
  case other name => exact .halt m _ _ steady fun _ => nofun
  all_goals exact scalar _ current (by simp)

theorem safe_enter (id : NodeId) : Safe (enter id) fun _ => True := by
  intro m steady
  rw [enter]
  refine .after m _ _ _ _ (on_get m) ?_
  split
  · refine .bind m _ _ _ _ (safe_node id m steady) fun current later _ steadyLater _ => ?_
    refine .halt later _ _ steadyLater fun _ same => ?_
    cases same
  · exact .change m _ { steady with } ⟨fun _ => rfl, fun _ _ => rfl⟩

theorem safe_leave (id : NodeId) (value : Value) (printable : value.IsPrintable) :
    Safe (leave id value) fun _ => True := by
  intro m steady
  refine .change m _ { steady with built := ?_ } ⟨fun _ => rfl, fun _ _ => rfl⟩
  intro other found built
  rw [getD_setIfInBounds] at built
  split at built
  · cases built
    exact printable
  · exact steady.built other found built

theorem safe_object (fuel : Nat) (deep : Bool) : SafeBuilder (object fuel deep) := by
  induction fuel generalizing deep with
  | zero =>
    refine fun path id => .pure _ _ fun name same => ?_
    cases same
    rfl
  | succ fuel ih =>
    intro path id m steady
    rw [object]
    refine .after m _ _ _ _ (on_remembered id m) ?_
    cases known : m.built.getD id none with
    | some value => exact .pure m _ _ steady (steady.built id value known)
    | none =>
      refine .bind m _ _ _ _ (safe_enter id m steady) fun _ entered _ steadyEntered _ => ?_
      refine .bind entered _ _ _ _ (safe_valueOf _ ih deep path id entered steadyEntered) ?_
      intro value later printable steadyLater _
      refine .bind later _ _ _ _ (safe_leave id value printable later steadyLater) ?_
      exact fun _ last _ steadyLast _ => .pure last _ _ steadyLast printable

theorem safe_fillDeferred (build : Bool → NodeBuilder) (builds : ∀ deep, SafeBuilder (build deep))
    (fuel : Nat) : Safe (fillDeferred build fuel) fun _ => True := by
  induction fuel with
  | zero => exact .pure _ _ trivial
  | succ fuel ih =>
    intro m steady
    rw [fillDeferred]
    refine .after m _ _ _ _ (on_get m) ?_
    cases waiting : m.deferred with
    | nil => exact .pure m _ _ steady trivial
    | cons id rest =>
      have filled := steady.deferred id (by rw [waiting]; exact List.mem_cons_self ..)
      have shorter : ({ m with deferred := rest } : Memory).IsSteady := by
        refine { steady with deferred := fun other member => steady.deferred other ?_ }
        rw [waiting]
        exact List.mem_cons_of_mem _ member
      refine .afterChange m _ _ _ ⟨fun _ => rfl, fun _ _ => rfl⟩ ?_
      refine .bind _ _ _ _ _ (safe_fill _ (builds false) [] id _ shorter filled) ?_
      intro value later _ steadyLater _
      refine .bind later _ _ _ _ (.change later _ { steadyLater with } ⟨?_, ?_⟩) ?_
      · exact fun _ => rfl
      · exact fun _ _ => rfl
      · exact fun _ last _ steadyLast _ => ih last steadyLast

end Build

namespace Graph

theorem isSteady_memory (g : Graph) (channel : Channel) (steady : g.IsSteady) :
    (g.memory channel).IsSteady where
  nodes := fun id => by
    by_cases inside : id < g.nodes.size
    next => exact steady id inside
    next =>
      have outside : (g.memory channel).nodes.getD id default = default := by
        rw [Array.getD_eq_getD_getElem?]
        change (g.nodes[id]?).getD default = default
        rw [Array.getElem?_eq_none (by omega)]
        rfl
      rw [outside]
      rfl
  built := fun id value built => by
    have none : (g.memory channel).built.getD id none = none := by
      change (Array.replicate g.nodes.size none).getD id none = none
      rw [Array.getD_eq_getD_getElem?, Array.getElem?_replicate]
      split <;> rfl
    rw [none] at built
    cases built
  deferred := fun _ member => by cases member
  duplicates := fun _ member => by cases member

theorem safe_build (g : Graph) : Build.Safe g.build fun _ => True := by
  refine .bind _ _ _ _ (Build.safe_object _ _ [] g.root) fun value _ => ?_
  refine .bind _ _ _ _ (Build.safe_fillDeferred _ (Build.safe_object _) _) fun _ _ => ?_
  intro m steady
  refine .after m _ _ _ _ (Build.on_get m) ?_
  dsimp only
  split
  · exact .pure m _ _ steady trivial
  · exact .pure m _ _ steady trivial

theorem read_of_steady (g : Graph) (channel : Channel) (steady : g.IsSteady) :
    (∀ b, (g.read channel).outcome ≠ .error (.stop (.breakdown b))) ∧
      ∀ found ∈ (g.read channel).duplicates, found.key.isHalved = false := by
  have safe := safe_build g (g.memory channel) (isSteady_memory g channel steady)
  unfold Build.SafeAt at safe
  have ends : g.read channel = ⟨(Build.on g.build (g.memory channel)).2.duplicates.reverse,
    (Build.on g.build (g.memory channel)).1⟩ := rfl
  rw [ends]
  cases ending : Build.on g.build (g.memory channel) with
  | mk outcome later =>
    rw [ending] at safe
    simp only [List.mem_reverse]
    cases outcome with
    | error halt =>
      obtain ⟨calm, whole⟩ := safe
      exact ⟨fun b same => calm b (Except.error.inj same), whole⟩
    | ok value =>
      obtain ⟨steadyLater, _, _⟩ := safe
      exact ⟨fun _ => nofun, steadyLater.duplicates⟩

end Graph

end LocaleLint.Yaml
