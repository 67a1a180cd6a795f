import LocaleLint.Proofs.Yaml.Flatten
import LocaleLint.Proofs.Yaml.Walk

set_option autoImplicit false

namespace LocaleLint.Yaml

def Progress.IsWritable (p : Progress) : Prop :=
  ∀ mention ∈ p.mentions, mention.name.isWritable = true

structure Tracks (g : Graph) (p : Progress) (m : Memory) : Prop where
  nodes : Shows g p.flat [] m.nodes
  pairCount : g.PairsWithin m.pairCount
  builtSize : m.built.size = g.nodes.size
  right : ∀ (t : Tree) (value : Value), t.Unfolds g → m.built.getD t.id none = some value →
    t.value = .ok value
  -- A mapping that was entered is either being built still or done.
  done : ∀ t : Tree, t.Unfolds g → t.kind = .mapping → t.id ∈ p.ids → t.id ∉ m.underway →
    (m.built.getD t.id none).isSome
  visited : ∀ t : Tree, t.Unfolds g → (m.built.getD t.id none).isSome → t.Visited p.ids
  channel : m.channel = Channel.outermost
  duplicates : m.duplicates = p.announced.reverse
  deferred : m.deferred = []
  filled : m.filled = []
  writable : p.IsWritable

namespace Build

variable {α β : Type}

structure Follows (g : Graph) (x : Build α) (m : Memory) (result : Except Stop α) (p : Progress) :
    Prop where
  writable : p.IsWritable →
    Ends x m result fun _ later => Tracks g p later ∧ later.underway = m.underway
  unwritable : ¬ p.IsWritable → ∃ stop later, on x m = (.error (.stop stop), later) ∧
    (stop = .breakdown .keyTooLong ∨ result = .error stop)

namespace Follows

theorem pure (g : Graph) (p : Progress) (m : Memory) (value : α) (tracks : Tracks g p m) :
    Follows g (pure value) m (.ok value) p where
  writable := fun _ => ⟨m, rfl, tracks, rfl⟩
  unwritable := fun not => absurd tracks.writable not

theorem fails (g : Graph) (p : Progress) (m later : Memory) (x : Build α) (stop : Stop)
    (run : on x m = (.error (.stop stop), later)) : Follows g x m (.error stop) p where
  writable := fun _ => ⟨later, run⟩
  unwritable := fun _ => ⟨stop, later, run, .inr rfl⟩

theorem tooLong (g : Graph) (p : Progress) (m later : Memory) (x : Build α)
    (result : Except Stop α) (mention : Mention) (member : mention ∈ p.mentions)
    (long : mention.name.isWritable = false)
    (run : on x m = (.error (.stop (.breakdown .keyTooLong)), later)) :
    Follows g x m result p where
  writable := fun writable => by
    have short := writable mention member
    rw [long] at short
    cases short
  unwritable := fun _ => ⟨_, later, run, .inl rfl⟩

theorem after (g : Graph) (p : Progress) (m later : Memory) (x : Build α) (f : α → Build β)
    (value : α) (result : Except Stop β) (run : on x m = (.ok value, later))
    (same : later.underway = m.underway) (rest : Follows g (f value) later result p) :
    Follows g (x >>= f) m result p where
  writable := fun writable => by
    have ends := rest.writable writable
    rw [same] at ends
    exact .after _ _ _ _ _ _ _ run ends
  unwritable := fun not => by
    obtain ⟨stop, last, ran, which⟩ := rest.unwritable not
    exact ⟨stop, last, by rw [on_bind_ok _ _ _ _ _ run, ran], which⟩

theorem bind (g : Graph) (p q : Progress) (m : Memory) (x : Build α) (f : α → Build β)
    (first : Except Stop α) (next : α → Except Stop β) (start : Follows g x m first p)
    (grows : p.mentions <+: q.mentions)
    (rest : ∀ value later, first = .ok value → Tracks g p later → later.underway = m.underway →
      Follows g (f value) later (next value) q) :
    Follows g (x >>= f) m (first >>= next) q where
  writable := fun writable => by
    have before : p.IsWritable := fun mention member => writable mention (grows.subset member)
    refine .bind _ _ _ _ _ _ _ (start.writable before) ?_
    rintro value later same ⟨tracks, underway⟩
    have ends := (rest value later same tracks underway).writable writable
    rw [underway] at ends
    exact ends
  unwritable := fun not => by
    -- Either the first part breaks down, or it ends and the second one does.
    by_cases before : p.IsWritable
    · have ends := start.writable before
      cases first with
      | error stop =>
        obtain ⟨later, run⟩ := ends
        exact ⟨stop, later, on_bind_error _ _ _ _ _ run, .inr rfl⟩
      | ok value =>
        obtain ⟨later, run, tracks, underway⟩ := ends
        obtain ⟨stop, last, ran, which⟩ := (rest value later rfl tracks underway).unwritable not
        exact ⟨stop, last, by rw [on_bind_ok _ _ _ _ _ run, ran], which⟩
    · obtain ⟨stop, later, run, which⟩ := start.unwritable before
      refine ⟨stop, later, on_bind_error _ _ _ _ _ run, ?_⟩
      rcases which with long | rfl
      · exact .inl long
      · exact .inr rfl

theorem map (g : Graph) (p : Progress) (m : Memory) (x : Build α) (result : Except Stop α)
    (f : α → β) (start : Follows g x m result p) :
    Follows g (x >>= fun value => Pure.pure (f value)) m
      (result >>= fun value => .ok (f value)) p :=
  .bind g p p m x _ result _ start List.prefix_rfl fun value later _ tracks _ =>
    .pure g p later (f value) tracks

end Follows

end Build

theorem Tree.node_of_tracks (g : Graph) (p : Progress) (m : Memory) (t : Tree)
    (tracks : Tracks g p m) (unfolds : t.Unfolds g) :
    m.nodes.getD t.id default = t.nodeIn p.flat :=
  tracks.nodes.node t unfolds (List.not_mem_nil)

namespace Build

theorem on_scalarText (fuel : Nat) (id : NodeId) (m : Memory) (text : List Text.CodePoint)
    (content : (m.nodes.getD id default).content = .scalar text) :
    on (scalarText (fuel + 1) id) m = (.ok text, m) := by
  rw [scalarText, on_bind_ok _ _ _ _ _ (on_node id m), content]
  rfl

theorem on_scalarValue (id : NodeId) (tag : Tag) (start : Position) (text : List Text.CodePoint)
    (m : Memory) (current : m.nodes.getD id default = ⟨.scalar text, tag, start⟩) :
    on (scalarValue id tag) m =
      match scalarOf id start tag text with
      | .ok name => (.ok (.scalar name), m)
      | .error stop => (.error (.stop stop), m) := by
  have content : (m.nodes.getD id default).content = .scalar text := by rw [current]
  have noCollection : (!(tag == .timestamp && (m.nodes.getD id default).isCollection)) = true := by
    rw [current]
    simp [Node.isCollection, Node.kind, Content.kind]
  rw [scalarValue, on_bind_ok _ _ _ _ _ (on_node id m), on_get_bind,
    on_bind_ok _ _ _ _ _ (on_scalarText _ id m text content), noCollection,
    on_bind_ok _ _ _ _ _ (on_demand_true _ m), current]
  cases scalarOf id start tag text with
  | ok name => rfl
  | error stop => rfl

theorem follows_scalar (g : Graph) (build : Bool → NodeBuilder) (deep : Bool) (path : List String)
    (id : NodeId) (tag : Tag) (start : Position) (text : List Text.CodePoint) (p : Progress)
    (m : Memory) (tracks : Tracks g p m) (unfolds : (Tree.scalar id tag start text).Unfolds g) :
    Follows g (valueOf build deep path id) m (scalarResult id tag start text) p := by
  have current : m.nodes.getD id default = ⟨.scalar text, tag, start⟩ :=
    Tree.node_of_tracks g p m _ tracks unfolds
  have fits : tag.isOfScalar = true := unfolds.fits
  have read (fits : scalarResult id tag start text = (scalarOf id start tag text).map .scalar) :
      Follows g (scalarValue id tag) m (scalarResult id tag start text) p := by
    have run := on_scalarValue id tag start text m current
    rw [fits]
    cases result : scalarOf id start tag text with
    | ok name =>
      rw [result] at run
      exact ⟨fun _ => ⟨m, run, tracks, rfl⟩, fun not => absurd tracks.writable not⟩
    | error stop =>
      rw [result] at run
      exact .fails g p m m _ stop run
  rw [valueOf]
  refine .after g p m m _ _ _ _ (on_node id m) rfl ?_
  rw [current]
  cases tag with
  | merge => exact .fails g p m m _ _ rfl
  | other name => exact .fails g p m m _ _ rfl
  | null => exact read rfl
  | bool => exact read rfl
  | int => exact read rfl
  | float => exact read rfl
  | binary => exact read rfl
  | timestamp => exact read rfl
  | str => exact read rfl
  | _ => cases fits

def BuildsBelow (g : Graph) (build : NodeBuilder) (underway : List NodeId) (t : Tree) : Prop :=
  ∀ (s : Tree) (path : List String) (p : Progress) (m : Memory), Tree.Below s t →
    Tracks g p m → m.underway = underway → Follows g (build path s.id) m s.value (s.walk path p)

theorem follows_itemsFrom (g : Graph) (build : NodeBuilder) (t : Tree) (path : List String)
    (items : List Tree) (index : Nat) (p : Progress) (m : Memory)
    (builds : BuildsBelow g build m.underway t) (below : ∀ item ∈ items, Tree.Below item t)
    (tracks : Tracks g p m) :
    Follows g (itemsFrom build path (items.map Tree.id) index) m (Tree.itemValues items)
      (Tree.walkEach ((items.zipIdx index).map fun item => (toString item.2 :: path, item.1))
        p) := by
  induction items generalizing index p m with
  | nil =>
    rw [Tree.itemValues, List.zipIdx_nil, List.map_nil, List.map_nil, Tree.walkEach_nil]
    exact .pure g p m [] tracks
  | cons item rest ih =>
    rw [Tree.itemValues, List.zipIdx_cons, List.map_cons, List.map_cons, Tree.walkEach_cons]
    have here := builds item (toString index :: path) p m (below item (List.mem_cons_self ..))
      tracks rfl
    refine .bind g _ _ m _ _ _ _ here (Progress.Extends.walkEach ..).mentions ?_
    intro value middle _ tracksMiddle underway
    have later := ih (index + 1) _ middle (by rw [underway]; exact builds)
      (fun item member => below item (List.mem_cons_of_mem _ member)) tracksMiddle
    exact .map g _ middle _ _ (fun values => value :: values) later

theorem pairUp_itemValues (key value : Tree) (rest : List Tree) :
    (Tree.itemValues (key :: value :: rest)).map Tree.pairUp =
      (key.value >>= fun name => value.value >>= fun meant => .ok (Value.pair name meant)) >>=
        fun first => ((Tree.itemValues rest).map Tree.pairUp) >>= fun others =>
          .ok (first :: others) := by
  rw [Tree.itemValues, Tree.itemValues]
  cases key.value with
  | error stop => rfl
  | ok name =>
    cases value.value with
    | error stop => rfl
    | ok meant => cases Tree.itemValues rest <;> rfl

theorem follows_pairFrom (g : Graph) (build : NodeBuilder) (t : Tree) (path : List String)
    (activity : Activity) (start : Position) (item : Tree) (p : Progress) (m : Memory)
    (builds : BuildsBelow g build m.underway t) (unfolds : t.Unfolds g) (below : Tree.Below item t)
    (single : item.isSingle = true) (tracks : Tracks g p m) :
    ∃ key value, item.children = [key, value] ∧
      Follows g (pairFrom build path activity start item.id) m
        (key.value >>= fun name => value.value >>= fun meant => .ok (Value.pair name meant))
        (value.walk path (key.walk path p)) := by
  have current := Tree.node_of_tracks g p m item tracks (unfolds.part g item t (below.part _ _))
  obtain ⟨id, tag, place, key, value, rfl, plain⟩ := Tree.eq_of_single item single
  refine ⟨key, value, rfl, ?_⟩
  obtain ⟨keyInside, valueInside⟩ :=
    Tree.mem_children_mapping id tag place _ (key, value) (List.mem_cons_self ..)
  have keyRun := builds key path p m (below.trans_child key _ t keyInside) tracks rfl
  rw [pairFrom]
  refine .after g _ m m _ _ _ _ (on_node _ m) rfl ?_
  rw [current, Tree.nodeIn_of_single p.flat id tag place key value plain]
  refine .bind g _ _ m _ _ _ _ keyRun (Progress.Extends.walk ..).mentions ?_
  intro name afterKey _ tracksKey underwayKey
  have valueBelow : Tree.Below value t := below.trans_child value _ t valueInside
  have valueRun := builds value path _ afterKey valueBelow tracksKey underwayKey
  exact .map g _ afterKey _ _ (Value.pair name) valueRun

theorem follows_pairsFrom (g : Graph) (build : NodeBuilder) (t : Tree) (path : List String)
    (activity : Activity) (start : Position) (items : List Tree) (p : Progress) (m : Memory)
    (builds : BuildsBelow g build m.underway t) (unfolds : t.Unfolds g)
    (below : ∀ item ∈ items, Tree.Below item t) (single : ∀ item ∈ items, item.isSingle = true)
    (tracks : Tracks g p m) :
    Follows g ((items.map Tree.id).mapM (pairFrom build path activity start)) m
      ((Tree.itemValues (items.flatMap Tree.children)).map Tree.pairUp)
      (Tree.walkEach ((items.flatMap Tree.children).map fun inner => (path, inner)) p) := by
  induction items generalizing p m with
  | nil =>
    simp only [List.flatMap_nil, List.map_nil, List.mapM_nil, Tree.itemValues, Tree.walkEach_nil]
    exact .pure g p m [] tracks
  | cons item rest ih =>
    -- The pair is built before the others, though its values come first in one list with theirs.
    obtain ⟨key, value, children, pairRun⟩ :=
      follows_pairFrom g build t path activity start item p m
      builds unfolds (below item (List.mem_cons_self ..))
        (single item (List.mem_cons_self ..)) tracks
    rw [List.map_cons, List.mapM_cons, List.flatMap_cons, children, List.cons_append,
      List.cons_append,
      List.nil_append, pairUp_itemValues, List.map_cons, List.map_cons, Tree.walkEach_cons,
      Tree.walkEach_cons]
    refine .bind g _ _ m _ _ _ _ pairRun (Progress.Extends.walkEach ..).mentions ?_
    intro first middle _ tracksMiddle underway
    have later := ih _ middle (by rw [underway]; exact builds)
      (fun item member => below item (List.mem_cons_of_mem _ member))
      (fun item member => single item (List.mem_cons_of_mem _ member)) tracksMiddle
    exact .map g _ middle _ _ (fun others => first :: others) later

theorem on_announce (path : List String) (name : Scalar) (place : Position) (m : Memory)
    (channel : m.channel = Channel.outermost) :
    on (announce path name place) m = (.ok (), { m with duplicates :=
      ⟨name, ".".intercalate (name.text :: path).reverse, some (place.line + 1),
        some (place.column + 1)⟩ :: m.duplicates }) := by
  have passes (found : DuplicateKey) : m.channel.deliver (.duplicateKey found) =
      .delivered (.duplicateKey found) := by
    rw [channel]
    rfl
  unfold announce
  rw [on_get_bind, passes]
  rfl

theorem follows_announceIf (g : Graph) (p : Progress) (m : Memory) (written : Bool)
    (mention : Mention) (tracks : Tracks g p m) (covers : mention.again = true → written = true)
    (short : written = true → mention.name.isWritable = true) :
    Follows g (announceIf mention.again mention.path mention.name mention.key.start) m (.ok ())
      (p.mentionIf written mention) := by
  cases written with
  | false =>
    have quiet : mention.again = false := by
      cases again : mention.again with
      | false => rfl
      | true => exact absurd (covers again) Bool.false_ne_true
    rw [quiet]
    exact .pure g p m () tracks
  | true =>
    have writable : (p.mentionIf true mention).IsWritable := by
      intro other member
      rcases List.mem_append.mp member with member | member
      · exact tracks.writable other member
      · rw [List.mem_singleton.mp member]
        exact short rfl
    refine ⟨fun _ => ?_, fun not => absurd writable not⟩
    cases again : mention.again with
    | false =>
      refine ⟨m, rfl, { tracks with duplicates := ?_, writable := writable }, rfl⟩
      simp [Progress.announced, Progress.mentionIf, again, tracks.duplicates]
    | true =>
      refine ⟨_, on_announce _ _ _ m tracks.channel,
        { tracks with duplicates := ?_, writable := writable }, rfl⟩
      simp [Progress.announced, Progress.mentionIf, again, tracks.duplicates, Mention.duplicateKey]

theorem scalar?_of_value (key : Tree) (value : Value) (read : key.value = .ok value) :
    key.scalar? = value.key? := by
  rw [Tree.scalar?, read]
  rfl

theorem follows_mention {β : Type} (g : Graph) (p q : Progress) (m : Memory) (written : Bool)
    (mention : Mention)
    (f : Unit → Build β) (result : Except Stop β) (tracks : Tracks g p m)
    (covers : mention.again = true → written = true)
    (grows : (p.mentionIf written mention).mentions <+: q.mentions)
    (rest : ∀ told, Tracks g (p.mentionIf written mention) told → told.underway = m.underway →
      Follows g (f ()) told result q) :
    Follows g (demand (!written || mention.name.isWritable) (.breakdown .keyTooLong) >>= fun _ =>
      announceIf mention.again mention.path mention.name mention.key.start >>= f) m result q := by
  by_cases short : (!written || mention.name.isWritable) = true
  next =>
    rw [short]
    refine .after g _ m m _ _ _ _ (on_demand_true _ m) rfl ?_
    have announcing := follows_announceIf g p m written mention tracks covers
      (fun needed => by simpa [needed] using short)
    exact .bind g _ _ m _ f (.ok ()) (fun _ => result) announcing grows
      fun _ told _ tracksTold underway => rest told tracksTold underway
  next =>
    have needed : written = true := by
      cases needed : written with
      | true => rfl
      | false => simp [needed] at short
    have long : mention.name.isWritable = false := by simpa [needed] using short
    have member : mention ∈ (p.mentionIf written mention).mentions := by
      simp [Progress.mentionIf, needed]
    have run : on (demand (!written || mention.name.isWritable) (.breakdown .keyTooLong)) m =
        (.error (.stop (.breakdown .keyTooLong)), m) := by
      rw [needed, long]
      rfl
    exact .tooLong g _ m m _ _ mention (grows.subset member) long (on_bind_error _ _ _ _ _ run)

theorem follows_hashable {β : Type} (g : Graph) (q : Progress) (m : Memory) (start place : Position)
    (value : Value) (f : Scalar → Build β) (next : Scalar → Except Stop β)
    (rest : ∀ name, value.key? = some name → Follows g (f name) m (next name) q) :
    Follows g (hashable start place value >>= f) m (hashed start place value >>= next) q := by
  cases named : value.key? with
  | none =>
    have run : on (hashable start place value) m =
        (.error (.stop (.fault ⟨some .mappingValue, some start, .unhashableKey, place⟩)), m) := by
      rw [hashable, named]
      rfl
    rw [hashed, named]
    exact .fails g q m m _ _ (on_bind_error _ _ _ _ _ run)
  | some name =>
    have run : on (hashable start place value) m = (.ok name, m) := by
      rw [hashable, named]
      rfl
    rw [hashed, named]
    exact .after g q m m _ _ _ _ run rfl (rest name named)

theorem follows_entriesFrom (g : Graph) (build : NodeBuilder) (t : Tree) (path : List String)
    (pairs : List (Tree × Tree)) (merged : Nat) (seen : List Scalar)
    (found : List (Scalar × Value)) (p : Progress) (m : Memory)
    (builds : BuildsBelow g build m.underway t) (unfolds : t.Unfolds g)
    (below : ∀ pair ∈ pairs, Tree.Below pair.1 t ∧ Tree.Below pair.2 t) (tracks : Tracks g p m) :
    Follows g (entriesFrom build path t.start (Tree.idsOf pairs) merged seen found) m
      (Tree.entryValues t.start pairs found) (Tree.walkEntries t.id path pairs merged seen p) := by
  -- One round goes through the memories `afterKey`, `told` and `afterValue`, each with the progress
  -- that the walk has made there.
  induction pairs generalizing merged seen found p m with
  | nil =>
    rw [Tree.entryValues, Tree.walkEntries]
    exact .pure g p m found tracks
  | cons pair rest ih =>
    obtain ⟨key, value⟩ := pair
    obtain ⟨keyBelow, valueBelow⟩ := below (key, value) (List.mem_cons_self ..)
    have keyNode := Tree.node_of_tracks g p m key tracks (unfolds.part g key t (keyBelow.part _ _))
    rw [Tree.entryValues]
    change Follows g (node key.id >>= _) m _ _
    refine .after g _ m m _ _ _ _ (on_node key.id m) rfl ?_
    rw [keyNode, key.nodeIn_start]
    have keyRun := builds key path p m keyBelow tracks rfl
    refine .bind g _ _ m _ _ _ _ keyRun (Progress.Extends.walkEntries_cons ..).mentions ?_
    intro keyValue afterKey read tracksKey underwayKey
    have scalar := scalar?_of_value key keyValue read
    refine follows_hashable g _ afterKey _ _ _ _ _ fun name named => ?_
    rw [named] at scalar
    rw [Tree.walkEntries_named t.id path key value rest merged seen p name scalar]
    have valueUnfolds := unfolds.part g value t (valueBelow.part _ _)
    have valueNode := Tree.node_of_tracks g _ afterKey value tracksKey valueUnfolds
    refine .after g _ afterKey afterKey _ _ _ _ (on_node value.id afterKey) rfl ?_
    have leads : (afterKey.nodes.getD value.id default).isCollection = value.isCollection := by
      rw [valueNode, Node.isCollection, Tree.nodeIn_kind]
      rfl
    simp only [leads]
    let mention : Mention := ⟨t.id, key, name, path, comesAgain merged seen name⟩
    have covers : mention.again = true → (mention.again || value.isCollection) = true := by
      intro again
      rw [again, Bool.true_or]
    refine follows_mention g (key.walk path p) _ afterKey (mention.again || value.isCollection)
      mention
      _ _ tracksKey covers ((Progress.Extends.walk ..).trans _ _ _ (.walkEntries ..)).mentions ?_
    intro told tracksTold underwayTold
    have valueRun := builds value (if value.isCollection then name.text :: path else path) _ told
      valueBelow tracksTold (by rw [underwayTold, underwayKey])
    refine .bind g _ _ told _ _ _ _ valueRun (Progress.Extends.walkEntries ..).mentions ?_
    intro meant afterValue _ tracksValue underwayValue
    exact ih _ _ _ _ afterValue (by rw [underwayValue, underwayTold, underwayKey]; exact builds)
      (fun pair member => below pair (List.mem_cons_of_mem _ member)) tracksValue

end Build

theorem Tracks.enter (g : Graph) (p : Progress) (m : Memory) (nodes : Array Node) (t : Tree)
    (tracks : Tracks g p m) (working : t.id ∈ m.underway)
    (shows : Shows g (t.flattens ++ p.flat) [] nodes) :
    Tracks g (p.enter t) { m with nodes := nodes } where
  nodes := by
    refine shows.congr g _ _ _ _ fun id => ?_
    simp only [Progress.flat, Progress.enter, List.flatMap_append, List.flatMap_cons,
      List.flatMap_nil, List.append_nil, List.mem_append]
    exact or_comm
  pairCount := tracks.pairCount
  builtSize := tracks.builtSize
  right := tracks.right
  done := fun s unfolds isMapping entered idle => by
    simp only [Progress.ids, Progress.enter, List.map_append, List.map_cons, List.map_nil,
      List.mem_append, List.mem_singleton] at entered
    rcases entered with entered | same
    · exact tracks.done s unfolds isMapping entered idle
    · rw [same] at idle
      exact absurd working idle
  visited := fun s unfolds built =>
    (tracks.visited s unfolds built).mono _ _ _ (Progress.Extends.enter p t).ids_subset
  channel := tracks.channel
  duplicates := tracks.duplicates
  deferred := tracks.deferred
  filled := tracks.filled
  writable := tracks.writable

namespace Build

theorem length_ownIds (g : Graph) (flat : List NodeId) (nodes : Array Node)
    (pairs : List (Tree × Tree)) (shows : Shows g flat [] nodes)
    (unfolds : ∀ pair ∈ pairs, pair.1.Unfolds g) :
    ((Tree.idsOf pairs).filter fun ids => !hasTag nodes .merge ids.1).length =
      (Tree.own pairs).length := by
  induction pairs with
  | nil => rfl
  | cons pair rest ih =>
    have key : hasTag nodes .merge pair.1.id = pair.1.isMerge := by
      rw [hasTag_tree g flat [] nodes .merge pair.1 shows (unfolds pair (List.mem_cons_self ..))
        List.not_mem_nil]
      rfl
    have later := ih fun pair member => unfolds pair (List.mem_cons_of_mem _ member)
    simp only [Tree.idsOf, Tree.own] at later ⊢
    cases merges : pair.1.isMerge with
    | true => simp [key, merges, later]
    | false => simp [key, merges, later]

theorem entries_of_flattened (t : Tree) (entries : List (Tree × Tree))
    (flattened : t.flattened = .ok entries) : t.entries = entries := by
  rw [Tree.entries, flattened]
  rfl

theorem inherited_in_memory (g : Graph) (flat : List NodeId) (nodes : Array Node) (id : NodeId)
    (tag : Tag) (start : Position) (pairs entries : List (Tree × Tree))
    (ids : List (NodeId × NodeId))
    (shows : Shows g flat [] nodes) (unfolds : (Tree.mapping id tag start pairs).Unfolds g)
    (flattened : (Tree.mapping id tag start pairs).flattened = .ok entries)
    (shape : (Tree.mapping id tag start pairs).nodeIn flat = ⟨.mapping ids, tag, start⟩) :
    (Tree.idsOf entries).length - (ids.filter fun pair => !hasTag nodes .merge pair.1).length =
      if id ∈ flat then 0 else (Tree.mapping id tag start pairs).inherited := by
  have below := Tree.below_of_flattened _ entries flattened
  by_cases member : id ∈ flat
  · have all : ids = Tree.idsOf entries := by
      simp only [Tree.nodeIn, member, if_true, flattened] at shape
      cases shape
      rfl
    obtain ⟨-, owns, -⟩ :=
      Tree.merged_of_plain start entries fun entry inside => (below entry inside).2.2
    have count := length_ownIds g flat nodes entries shows
      fun entry inside => unfolds.part g _ _ ((below entry inside).1.part _ _)
    rw [all, count, owns, if_pos member]
    simp [Tree.idsOf]
  · have all : ids = Tree.idsOf pairs := by
      simp only [Tree.nodeIn, member, if_false] at shape
      cases shape
      rfl
    have count := length_ownIds g flat nodes pairs shows fun pair inside =>
      unfolds.child g _ _ (Tree.mem_children_mapping id tag start pairs pair inside).1
    rw [all, count, if_neg member, Tree.inherited, entries_of_flattened _ entries flattened]
    simp [Tree.idsOf]

theorem follows_mappingEntries (g : Graph) (build : NodeBuilder) (path : List String)
    (id : NodeId) (tag : Tag) (start : Position) (pairs : List (Tree × Tree)) (p : Progress)
    (m : Memory) (builds : BuildsBelow g build m.underway (.mapping id tag start pairs))
    (unfolds : (Tree.mapping id tag start pairs).Unfolds g)
    (small : (Tree.mapping id tag start pairs).height ≤ g.nodes.size + 1) (new : id ∉ p.ids)
    (working : id ∈ m.underway) (tracks : Tracks g p m) :
    Follows g (mappingEntries build path id) m
      ((Tree.mapping id tag start pairs).flattened >>= fun _ =>
        Tree.entryValues start (Tree.mapping id tag start pairs).entries [])
      ((Tree.mapping id tag start pairs).walk path p) := by
  have current := Tree.node_of_tracks g p m _ tracks unfolds
  obtain ⟨ids, shape⟩ := Tree.nodeIn_mapping p.flat id tag start pairs
  rw [shape] at current
  rw [mappingEntries, Tree.walk_mapping path (.mapping id tag start pairs) p rfl new]
  refine .after g _ m m _ _ _ _ (on_node id m) rfl ?_
  rw [show m.nodes.getD id default = _ from current]
  refine .after g _ m m _ _ _ _ (on_get m) rfl ?_
  have run := (showing g).flattens m.pairCount tracks.pairCount (m.pairCount + m.nodes.size + 1)
    (m.nodes.size + 1) (by omega) _ p.flat [] m unfolds rfl
    (by rw [tracks.nodes.size]; exact small) (fun _ _ => List.not_mem_nil) tracks.nodes
  cases flattened : (Tree.mapping id tag start pairs).flattened with
  | error stop =>
    rw [flattened] at run
    obtain ⟨later, ran⟩ := run
    exact .fails g _ m later _ stop (on_bind_error _ _ _ _ _ ran)
  | ok entries =>
    rw [flattened] at run
    obtain ⟨later, ran, ⟨rest, shows, -⟩, held⟩ := run
    -- Whatever has been flattened before, now the mapping holds its entries.
    have pairsNow : (later.nodes.getD id default).pairs = Tree.idsOf entries := by
      rw [Node.pairs, show (later.nodes.getD id default).content = _ from held entries rfl]
    have tracksLater : Tracks g (p.enter (.mapping id tag start pairs)) later := by
      rw [rest]
      exact tracks.enter g p m later.nodes _ working shows
    have underway : later.underway = m.underway := by rw [rest]
    have below := Tree.below_of_flattened _ entries flattened
    refine .after g _ m later _ _ _ _ ran underway ?_
    refine .after g _ later later _ _ _ _ (on_pairsOf id later) rfl ?_
    rw [pairsNow,
      inherited_in_memory g p.flat m.nodes id tag start pairs entries ids tracks.nodes unfolds
        flattened
        shape, entries_of_flattened _ entries flattened]
    exact follows_entriesFrom g build (.mapping id tag start pairs) path entries _ [] [] _ later
      (by rw [underway]; exact builds) unfolds
      (fun entry inside => ⟨(below entry inside).1, (below entry inside).2.1⟩) tracksLater

theorem follows_sequenceItems (g : Graph) (build : NodeBuilder) (path : List String)
    (id : NodeId) (start : Position) (items : List Tree) (p : Progress) (m : Memory)
    (builds : BuildsBelow g build m.underway (.sequence id .seq start items))
    (unfolds : (Tree.sequence id .seq start items).Unfolds g) (tracks : Tracks g p m) :
    Follows g (sequenceItems build path id) m (Tree.itemValues items)
      ((Tree.sequence id .seq start items).walk path p) := by
  have current : m.nodes.getD id default = ⟨.sequence (items.map Tree.id), .seq, start⟩ :=
    Tree.node_of_tracks g p m _ tracks unfolds
  rw [sequenceItems, Tree.walk_sequence path (.sequence id .seq start items) p rfl]
  refine .after g _ m m _ _ _ _ (on_node id m) rfl ?_
  rw [current]
  exact follows_itemsFrom g build _ path items 0 p m builds
    (fun item member => .of_child item (.sequence id .seq start items) member) tracks

theorem follows_pairList (g : Graph) (build : NodeBuilder) (path : List String)
    (activity : Activity) (id : NodeId) (tag : Tag) (start : Position) (items : List Tree)
    (p : Progress) (m : Memory) (lists : tag.listsPairs = true)
    (single : ∀ item ∈ items, item.isSingle = true)
    (builds : BuildsBelow g build m.underway (.sequence id tag start items))
    (unfolds : (Tree.sequence id tag start items).Unfolds g) (tracks : Tracks g p m) :
    Follows g (pairList build path activity id) m
      ((Tree.itemValues (Tree.sequence id tag start items).held).map (Tree.arranged tag))
      ((Tree.sequence id tag start items).walk path p) := by
  have current : m.nodes.getD id default = ⟨.sequence (items.map Tree.id), tag, start⟩ :=
    Tree.node_of_tracks g p m _ tracks unfolds
  have arranges : Tree.arranged tag = Tree.pairUp := by
    funext values
    rw [Tree.arranged, if_pos lists]
  rw [pairList, Tree.walk_sequence path (.sequence id tag start items) p rfl, Tree.held,
    Tree.heldUnder, if_pos lists,
    if_pos lists, arranges]
  refine .after g _ m m _ _ _ _ (on_node id m) rfl ?_
  rw [current]
  exact follows_pairsFrom g build _ path activity start items p m builds unfolds
    (fun item member => .of_child item (.sequence id tag start items) member) single tracks

theorem follows_sequence (g : Graph) (build : Bool → NodeBuilder) (deep : Bool)
    (path : List String) (id : NodeId) (tag : Tag) (start : Position) (items : List Tree)
    (p : Progress) (m : Memory)
    (builds : BuildsBelow g (build true) m.underway (.sequence id tag start items))
    (unfolds : (Tree.sequence id tag start items).Unfolds g)
    (timely : tag.isLate = true → deep = true) (tracks : Tracks g p m) :
    Follows g (valueOf build deep path id) m (Tree.sequence id tag start items).value
      ((Tree.sequence id tag start items).walk path p) := by
  have current : m.nodes.getD id default = ⟨.sequence (items.map Tree.id), tag, start⟩ :=
    Tree.node_of_tracks g p m _ tracks unfolds
  rw [valueOf, Tree.value]
  refine .after g _ m m _ _ _ _ (on_node id m) rfl ?_
  rcases (unfolds.fits : _ ∨ _) with rfl | ⟨lists, single⟩
  · have run := follows_sequenceItems g (build true) path id start items p m builds unfolds tracks
    rw [current]
    exact .map g _ m _ _ Value.list run
  · have fills (activity : Activity) : Follows g
        (pairList (build true) path activity id >>= fun values => pure (Value.list values)) m
        (Tree.itemValues (Tree.sequence id tag start items).held >>= fun values =>
          .ok (Value.list (Tree.arranged tag values)))
        ((Tree.sequence id tag start items).walk path p) := by
      have run := follows_pairList g (build true) path activity id tag start items p m lists single
        builds unfolds tracks
      have whole := Follows.map g _ m _ _ Value.list run
      cases values : Tree.itemValues (Tree.sequence id tag start items).held with
      | error stop =>
        rw [values] at whole
        exact whole
      | ok found =>
        rw [values] at whole
        exact whole
    rw [current]
    cases tag with
    | orderedMap =>
      rw [show deep = true from timely rfl]
      refine .after g _ m m _ _ _ _ (on_tagOf id m) rfl ?_
      rw [current]
      exact fills .orderedMap
    | pairs =>
      rw [show deep = true from timely rfl]
      refine .after g _ m m _ _ _ _ (on_tagOf id m) rfl ?_
      rw [current]
      exact fills .pairs
    | _ => cases lists

theorem follows_mapping (g : Graph) (build : Bool → NodeBuilder) (deep : Bool)
    (path : List String) (id : NodeId) (tag : Tag) (start : Position) (pairs : List (Tree × Tree))
    (p : Progress) (m : Memory)
    (builds : BuildsBelow g (build true) m.underway (.mapping id tag start pairs))
    (unfolds : (Tree.mapping id tag start pairs).Unfolds g)
    (small : (Tree.mapping id tag start pairs).height ≤ g.nodes.size + 1) (new : id ∉ p.ids)
    (timely : tag.isLate = true → deep = true) (working : id ∈ m.underway) (tracks : Tracks g p m) :
    Follows g (valueOf build deep path id) m (Tree.mapping id tag start pairs).value
      ((Tree.mapping id tag start pairs).walk path p) := by
  obtain ⟨ids, shape⟩ := Tree.nodeIn_mapping p.flat id tag start pairs
  have current : m.nodes.getD id default = ⟨.mapping ids, tag, start⟩ :=
    (Tree.node_of_tracks g p m _ tracks unfolds).trans shape
  have run := follows_mappingEntries g (build true) path id tag start pairs p m builds unfolds small
    new working tracks
  have fills : Follows g (mappingEntries (build true) path id >>= fun entries =>
        pure (Tree.filled tag entries)) m
      ((Tree.mapping id tag start pairs).flattened >>= fun _ =>
        Tree.entryValues start (Tree.mapping id tag start pairs).entries [] >>= fun entries =>
          .ok (Tree.filled tag entries))
      ((Tree.mapping id tag start pairs).walk path p) := by
    have whole := Follows.map g _ m _ _ (Tree.filled tag) run
    cases flattened : (Tree.mapping id tag start pairs).flattened with
    | error stop =>
      rw [flattened] at whole
      exact whole
    | ok entries =>
      rw [flattened] at whole
      exact whole
  rw [valueOf, Tree.value]
  refine .after g _ m m _ _ _ _ (on_node id m) rfl ?_
  rw [current]
  rcases (unfolds.fits : _ ∨ _) with rfl | rfl
  · exact fills
  · rw [show deep = true from timely rfl]
    refine .after g _ m m _ _ _ _ (on_tagOf id m) rfl ?_
    rw [current]
    exact fills

theorem follows_valueOf (g : Graph) (build : Bool → NodeBuilder) (deep : Bool)
    (path : List String) (t : Tree) (p : Progress) (m : Memory)
    (builds : BuildsBelow g (build true) m.underway t) (unfolds : t.Unfolds g)
    (small : t.height ≤ g.nodes.size + 1) (new : t.kind = .mapping → t.id ∉ p.ids)
    (timely : t.tag.isLate = true → deep = true) (working : t.id ∈ m.underway)
    (tracks : Tracks g p m) :
    Follows g (valueOf build deep path t.id) m t.value (t.walk path p) := by
  cases t with
  | scalar id tag start text =>
    rw [Tree.value, Tree.walk]
    exact follows_scalar g build deep path id tag start text p m tracks unfolds
  | sequence id tag start items =>
    exact follows_sequence g build deep path id tag start items p m builds unfolds timely tracks
  | mapping id tag start pairs =>
    exact follows_mapping g build deep path id tag start pairs p m builds unfolds small (new rfl)
      timely working tracks

end Build

theorem Tracks.begin (g : Graph) (p : Progress) (m : Memory) (id : NodeId)
    (tracks : Tracks g p m) : Tracks g p { m with underway := id :: m.underway } :=
  have done (t : Tree) (unfolds : t.Unfolds g) (isMapping : t.kind = .mapping)
      (entered : t.id ∈ p.ids) (idle : t.id ∉ id :: m.underway) :
      (m.built.getD t.id none).isSome :=
    tracks.done t unfolds isMapping entered fun worked => idle (List.mem_cons_of_mem _ worked)
  { tracks with done := done }

theorem Tracks.leave (g : Graph) (p : Progress) (m : Memory) (t : Tree) (value : Value)
    (underway : List NodeId) (tracks : Tracks g p m) (unfolds : t.Unfolds g)
    (read : t.value = .ok value) (visited : t.Visited p.ids)
    (working : m.underway = t.id :: underway) :
    Tracks g p { m with built := m.built.setIfInBounds t.id (some value),
                        underway := m.underway.erase t.id } where
  nodes := tracks.nodes
  pairCount := tracks.pairCount
  builtSize := by rw [Array.size_setIfInBounds, tracks.builtSize]
  right := fun s other unfoldsS built => by
    rw [getD_setIfInBounds] at built
    split at built
    · next here =>
      cases built
      rw [unfoldsS.unique g s t unfolds here.1.symm, read]
    · exact tracks.right s other unfoldsS built
  done := fun s unfoldsS isMapping entered idle => by
    rw [working, List.erase_cons_head] at idle
    rw [getD_setIfInBounds]
    split
    · rfl
    · next elsewhere =>
      -- Another mapping is as idle as it was, since only this one left.
      apply tracks.done s unfoldsS isMapping entered
      rw [working, List.mem_cons, not_or]
      refine ⟨?_, idle⟩
      intro same
      refine elsewhere ⟨same.symm, ?_⟩
      rw [tracks.builtSize]
      refine g.lt_size_of_isCollection s.id ?_
      rw [Node.isCollection, unfoldsS.here, s.kind_node, isMapping]
      rfl
  visited := fun s unfoldsS built => by
    rw [getD_setIfInBounds] at built
    split at built
    · next here =>
      rw [unfoldsS.unique g s t unfolds here.1.symm]
      exact visited
    · exact tracks.visited s unfoldsS built
  channel := tracks.channel
  duplicates := tracks.duplicates
  deferred := tracks.deferred
  filled := tracks.filled
  writable := tracks.writable

namespace Build

theorem follows_visit (g : Graph) (build : Bool → NodeBuilder) (deep : Bool) (path : List String)
    (t : Tree) (p : Progress) (m : Memory)
    (builds : BuildsBelow g (build true) (t.id :: m.underway) t) (unfolds : t.Unfolds g)
    (small : t.height ≤ g.nodes.size + 1) (new : t.kind = .mapping → t.id ∉ p.ids)
    (timely : t.tag.isLate = true → deep = true) (idle : t.id ∉ m.underway)
    (tracks : Tracks g p m) :
    Follows g (visit build deep path t.id) m t.value (t.walk path p) := by
  have inner :=
    follows_valueOf g build deep path t p { m with underway := t.id :: m.underway } builds
    unfolds small new timely (List.mem_cons_self ..) (tracks.begin g p m t.id)
  have enters := on_enter t.id m idle
  rw [visit]
  constructor
  · intro writable
    refine .after _ _ _ _ _ _ _ enters ?_
    have ends := inner.writable writable
    cases read : t.value with
    | error stop =>
      rw [read] at ends
      exact .failed _ _ _ _ _ _ ends
    | ok value =>
      rw [read] at ends
      obtain ⟨later, run, tracksLater, underway⟩ := ends
      refine .after _ _ _ _ _ _ _ run ?_
      refine .after _ _ _ _ _ _ _ (on_leave t.id value later) ?_
      refine ⟨_, rfl, tracksLater.leave g _ later t value m.underway unfolds read
        (t.visited_walk path p) underway, ?_⟩
      change later.underway.erase t.id = m.underway
      rw [underway, List.erase_cons_head]
  · intro not
    obtain ⟨stop, later, run, which⟩ := inner.unwritable not
    refine ⟨stop, later, ?_, which⟩
    rw [on_bind_ok _ _ _ _ _ enters, on_bind_error _ _ _ _ _ run]

theorem follows_object (g : Graph) (fuel : Nat) (deep : Bool) (path : List String) (t : Tree)
    (p : Progress) (m : Memory) (unfolds : t.Unfolds g) (enough : t.height ≤ fuel)
    (small : t.height ≤ g.nodes.size + 1) (timely : t.tag.isLate = true → deep = true)
    (free : t.Free m.underway) (tracks : Tracks g p m) :
    Follows g (object fuel deep path t.id) m t.value (t.walk path p) := by
  induction fuel generalizing deep path t p m with
  | zero =>
    have positive := t.height_pos
    omega
  | succ fuel ih =>
    have idle : t.id ∉ m.underway := free t t.mem_parts_self
    rw [object]
    refine .after g _ m m _ _ _ _ (on_remembered t.id m) rfl ?_
    cases built : m.built.getD t.id none with
    | some value =>
      have visited := tracks.visited t unfolds (by rw [built]; rfl)
      rw [tracks.right t value unfolds built, t.walk_of_visited path p visited]
      exact .pure g p m value tracks
    | none =>
      have new : t.kind = .mapping → t.id ∉ p.ids := by
        -- A mapping that was entered and is not underway has been built.
        intro isMapping known
        have done := tracks.done t unfolds isMapping known idle
        rw [built] at done
        cases done
      refine follows_visit g (object fuel) deep path t p m ?_ unfolds small new timely idle tracks
      intro s path q n below tracksN same
      have smaller := below.height_lt s t
      refine ih true path s q n (unfolds.part g s t (below.part s t)) (by omega) (by omega)
        (fun _ => rfl) ?_ tracksN
      rw [same]
      exact free.below g _ s t (unfolds.stands g t) below

end Build

theorem Graph.shows_nodes (g : Graph) : Shows g [] [] g.nodes where
  size := rfl
  node := fun t unfolds _ => by
    rw [t.nodeIn_of_not_mem [] List.not_mem_nil]
    exact unfolds.here g t
  closed := fun _ _ _ inside => absurd inside List.not_mem_nil

theorem le_foldl_pairs (nodes : List Node) (count : Nat) :
    count ≤ nodes.foldl (fun count node => count + node.pairs.length) count ∧
      ∀ node ∈ nodes,
        node.pairs.length ≤ nodes.foldl (fun count node => count + node.pairs.length) count := by
  induction nodes generalizing count with
  | nil => simp
  | cons first rest ih =>
    obtain ⟨grows, each⟩ := ih (count + first.pairs.length)
    simp only [List.foldl_cons]
    refine ⟨by omega, ?_⟩
    intro node member
    rcases List.mem_cons.mp member with rfl | member
    · omega
    · exact each node member

theorem Graph.pairsWithin (g : Graph) (channel : Channel) :
    g.PairsWithin (g.memory channel).pairCount := by
  intro id
  change (g.node id).pairs.length ≤ g.nodes.foldl (fun count node => count + node.pairs.length) 0
  rw [← Array.foldl_toList]
  by_cases inside : id < g.nodes.size
  · apply (le_foldl_pairs g.nodes.toList 0).2 (g.node id)
    have found : g.node id = g.nodes[id] := by simp [Graph.node, Array.getD, inside]
    rw [found, Array.mem_toList_iff]
    exact Array.getElem_mem inside
  · have missing : g.node id = default := by simp [Graph.node, Array.getD, inside]
    rw [missing]
    exact Nat.zero_le _

theorem Graph.tracks_memory (g : Graph) :
    Tracks g Progress.none (g.memory Channel.outermost) where
  nodes := g.shows_nodes
  pairCount := g.pairsWithin Channel.outermost
  builtSize := Array.size_replicate
  right := fun t value _ built => by
    simp [Graph.memory, Array.getD] at built
  done := fun _ _ _ entered _ => absurd entered List.not_mem_nil
  visited := fun t _ built => by
    simp [Graph.memory, Array.getD] at built
  channel := rfl
  duplicates := rfl
  deferred := rfl
  filled := rfl
  writable := fun _ member => absurd member List.not_mem_nil

theorem Graph.read_ends (g : Graph) (t : Tree) (unfolds : t.Unfolds g) (root : t.id = g.root)
    (small : t.height ≤ g.nodes.size + 1) (timely : t.tag.isLate = false) :
    ((t.walk [] Progress.none).IsWritable → match t.value with
      | .ok value => g.read Channel.outermost = ⟨(t.walk [] Progress.none).announced, .ok value⟩
      | .error stop => (g.read Channel.outermost).outcome = .error (.stop stop)) ∧
      (¬ (t.walk [] Progress.none).IsWritable → ∃ stop,
        (g.read Channel.outermost).outcome = .error (.stop stop) ∧
          (stop = .breakdown .keyTooLong ∨ t.value = .error stop)) := by
  have run := Build.follows_object g (g.nodes.size + 1) false [] t Progress.none
    (g.memory Channel.outermost) unfolds small small
      (fun late => by rw [timely] at late; cases late)
    (fun _ _ => List.not_mem_nil) g.tracks_memory
  rw [root] at run
  have reading : g.read Channel.outermost =
      ⟨(Build.on g.build (g.memory Channel.outermost)).2.duplicates.reverse,
        (Build.on g.build (g.memory Channel.outermost)).1⟩ := rfl
  constructor
  · intro writable
    have ends := run.writable writable
    cases read : t.value with
    | error stop =>
      rw [read] at ends
      obtain ⟨later, ran⟩ := ends
      rw [reading, Graph.build]
      simp only [Build.on_bind_error _ _ _ _ _ ran]
    | ok value =>
      rw [read] at ends
      obtain ⟨later, ran, tracks, -⟩ := ends
      -- Nothing has been put off, so nothing is left to fill.
      have filling : Build.on (Build.fillDeferred (Build.object (g.nodes.size + 1))
          (g.nodes.size + 1)) later = (.ok (), later) := by
        rw [Build.fillDeferred, Build.on_get_bind, tracks.deferred]
        rfl
      have whole : Build.on g.build (g.memory Channel.outermost) = (.ok value, later) := by
        rw [Graph.build, Build.on_bind_ok _ _ _ _ _ ran, Build.on_bind_ok _ _ _ _ _ filling,
          Build.on_get_bind, tracks.filled]
        rfl
      simp only [reading, whole, tracks.duplicates, List.reverse_reverse]
  · intro not
    obtain ⟨stop, later, ran, which⟩ := run.unwritable not
    refine ⟨stop, ?_, which⟩
    rw [reading, Graph.build]
    simp only [Build.on_bind_error _ _ _ _ _ ran]

theorem Graph.read_tree (g : Graph) (t : Tree) (unfolds : t.Unfolds g) (root : t.id = g.root)
    (small : t.height ≤ g.nodes.size + 1) (timely : t.tag.isLate = false) :
    ((t.walk [] Progress.none).IsWritable → match t.value with
      | .ok value => g.read Channel.outermost = ⟨(t.walk [] Progress.none).announced, .ok value⟩
      | .error stop => (g.read Channel.outermost).outcome = .error (.stop stop)) ∧
      (¬ (t.walk [] Progress.none).IsWritable → ∃ halt,
        (g.read Channel.outermost).outcome = .error halt ∧
          ∀ value, t.value = .ok value → halt = .stop (.breakdown .keyTooLong)) := by
  obtain ⟨fine, long⟩ := g.read_ends t unfolds root small timely
  refine ⟨fine, fun not => ?_⟩
  obtain ⟨stop, ended, which⟩ := long not
  refine ⟨.stop stop, ended, fun value read => ?_⟩
  rcases which with rfl | failed
  · rfl
  · rw [read] at failed
    cases failed

end LocaleLint.Yaml
