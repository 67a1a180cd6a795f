import Mathlib.Data.List.Nodup
import LocaleLint.Proofs.Yaml.Tour
import LocaleLint.Proofs.Yaml.Relabel

set_option autoImplicit false

namespace LocaleLint.Yaml

namespace Tree

mutual

def numbered (next : NodeId) : Tree → Tree
  | .scalar _ tag start text => .scalar next tag start text
  | .sequence _ tag start items => .sequence next tag start (numberedItems (next + 1) items)
  | .mapping _ tag start pairs => .mapping next tag start (numberedPairs (next + 1) pairs)

def numberedItems (next : NodeId) : List Tree → List Tree
  | [] => []
  | item :: rest => item.numbered next :: numberedItems (next + item.parts.length) rest

def numberedPairs (next : NodeId) : List (Tree × Tree) → List (Tree × Tree)
  | [] => []
  | (key, value) :: rest =>
      (key.numbered next, value.numbered (next + key.parts.length)) ::
        numberedPairs (next + key.parts.length + value.parts.length) rest

end

def fresh (t : Tree) : Tree := t.numbered 0

theorem numberedItems_ids (items : List Tree)
    (each : ∀ item ∈ items, ∀ next,
      (item.numbered next).parts.map id = List.range' next item.parts.length) (next : NodeId) :
    (itemParts (numberedItems next items)).map id = List.range' next (itemParts items).length := by
  induction items generalizing next with
  | nil => rfl
  | cons item rest ih =>
    have later := ih (fun item member => each item (List.mem_cons_of_mem _ member))
      (next + item.parts.length)
    rw [numberedItems, itemParts, itemParts, List.map_append, List.length_append,
      each item (List.mem_cons_self ..), later, List.range'_append_1]

theorem numberedPairs_ids (pairs : List (Tree × Tree))
    (each : ∀ pair ∈ pairs, ∀ next,
      (pair.1.numbered next).parts.map id = List.range' next pair.1.parts.length ∧
        (pair.2.numbered next).parts.map id = List.range' next pair.2.parts.length)
    (next : NodeId) :
    (pairParts (numberedPairs next pairs)).map id = List.range' next (pairParts pairs).length := by
  induction pairs generalizing next with
  | nil => rfl
  | cons pair rest ih =>
    obtain ⟨key, value⟩ := pair
    have here := each (key, value) (List.mem_cons_self ..)
    have later := ih (fun pair member => each pair (List.mem_cons_of_mem _ member))
      (next + key.parts.length + value.parts.length)
    rw [numberedPairs, pairParts, pairParts, List.map_append, List.map_append, List.length_append,
      List.length_append, (here next).1, (here (next + key.parts.length)).2, later,
      List.range'_append_1, List.range'_append_1]

theorem numbered_ids (t : Tree) (next : NodeId) :
    (t.numbered next).parts.map id = List.range' next t.parts.length := by
  induction t using Tree.induction generalizing next with
  | step t ih =>
    cases t with
    | scalar number tag start text => rfl
    | sequence number tag start items =>
      have inner := numberedItems_ids items ih (next + 1)
      rw [numbered, parts, parts, List.map_cons, inner, List.length_cons, List.range'_succ]
      rfl
    | mapping number tag start pairs =>
      have inner := numberedPairs_ids pairs (fun pair member => fun next =>
        have below := mem_children_mapping number tag start pairs pair member
        ⟨ih pair.1 below.1 next, ih pair.2 below.2 next⟩) (next + 1)
      rw [numbered, parts, parts, List.map_cons, inner, List.length_cons, List.range'_succ]
      rfl

theorem nodup_fresh (t : Tree) : (t.fresh.parts.map id).Nodup := by
  rw [fresh, numbered_ids]
  exact List.nodup_range'

section Renumbering

variable (f : NodeId → NodeId)

theorem relabelItems_numbered (items : List Tree)
    (each : ∀ item ∈ items, ∀ next, (List.range' next item.parts.length).map f =
      item.parts.map id → (item.numbered next).relabel f = item) (next : NodeId)
    (labels : (List.range' next (itemParts items).length).map f = (itemParts items).map id) :
    relabelItems f (numberedItems next items) = items := by
  induction items generalizing next with
  | nil => rfl
  | cons item rest ih =>
    rw [itemParts, List.length_append, ← List.range'_append_1, List.map_append,
      List.map_append] at labels
    obtain ⟨first, others⟩ := List.append_inj labels (by simp)
    rw [numberedItems, relabelItems, each item (List.mem_cons_self ..) next first,
      ih (fun item member => each item (List.mem_cons_of_mem _ member)) _ others]

theorem relabelPairs_numbered (pairs : List (Tree × Tree))
    (each : ∀ pair ∈ pairs, ∀ next,
      ((List.range' next pair.1.parts.length).map f = pair.1.parts.map id →
        (pair.1.numbered next).relabel f = pair.1) ∧
      ((List.range' next pair.2.parts.length).map f = pair.2.parts.map id →
        (pair.2.numbered next).relabel f = pair.2)) (next : NodeId)
    (labels : (List.range' next (pairParts pairs).length).map f = (pairParts pairs).map id) :
    relabelPairs f (numberedPairs next pairs) = pairs := by
  induction pairs generalizing next with
  | nil => rfl
  | cons pair rest ih =>
    obtain ⟨key, value⟩ := pair
    have here := each (key, value) (List.mem_cons_self ..)
    rw [pairParts, List.length_append, List.length_append, ← List.range'_append_1,
      ← List.range'_append_1, List.map_append, List.map_append, List.map_append, List.map_append]
      at labels
    obtain ⟨first, others⟩ := List.append_inj labels (by simp)
    obtain ⟨second, others⟩ := List.append_inj others (by simp)
    rw [numberedPairs, relabelPairs, (here next).1 first, (here _).2 second,
      ih (fun pair member => each pair (List.mem_cons_of_mem _ member)) _ others]

theorem relabel_numbered (t : Tree) (next : NodeId)
    (labels : (List.range' next t.parts.length).map f = t.parts.map id) :
    (t.numbered next).relabel f = t := by
  induction t using Tree.induction generalizing next with
  | step t ih =>
    cases t with
    | scalar number tag start text =>
      obtain ⟨here, -⟩ := List.cons.inj labels
      exact congrArg (Tree.scalar · tag start text) here
    | sequence number tag start items =>
      rw [parts, List.length_cons, List.range'_succ, List.map_cons, List.map_cons] at labels
      obtain ⟨here, below⟩ := List.cons.inj labels
      have same := relabelItems_numbered f items ih (next + 1) below
      rw [numbered, relabel, same]
      exact congrArg (Tree.sequence · tag start items) here
    | mapping number tag start pairs =>
      rw [parts, List.length_cons, List.range'_succ, List.map_cons, List.map_cons] at labels
      obtain ⟨here, below⟩ := List.cons.inj labels
      have same := relabelPairs_numbered f pairs (fun pair member next =>
        have inside := mem_children_mapping number tag start pairs pair member
        ⟨ih pair.1 inside.1 next, ih pair.2 inside.2 next⟩) (next + 1) below
      rw [numbered, relabel, same]
      exact congrArg (Tree.mapping · tag start pairs) here

theorem exists_relabel_fresh (t : Tree) : ∃ f, t.fresh.relabel f = t := by
  -- A part has its place among the parts as its fresh number.
  refine ⟨fun place => (t.parts.map id).getD place 0, relabel_numbered _ t 0 ?_⟩
  apply List.ext_getElem
  · simp
  · intro place inside _
    have within : place < t.parts.length := by simpa using inside
    simp [within]

end Renumbering

section Counting

variable (number : NodeId)

theorem count_listed (start : Position) (items : List Tree) (lists : List (List (Tree × Tree)))
    (each : ∀ item ∈ items, ∀ place entries, item.given place = .ok entries →
      entries.countP (·.1.id == number) ≤ item.parts.countP (·.id == number))
    (gives : listed start items = .ok lists) :
    lists.flatten.countP (·.1.id == number) ≤ (itemParts items).countP (·.id == number) := by
  induction items generalizing lists with
  | nil =>
    cases gives
    exact Nat.le_refl 0
  | cons item rest ih =>
    obtain ⟨early, late, first, others, rfl⟩ := listed_eq_ok start item rest lists gives
    have here := each item (List.mem_cons_self ..) start early first
    have later := ih late (fun item member => each item (List.mem_cons_of_mem _ member)) others
    rw [List.flatten_cons, List.countP_append, itemParts, List.countP_append]
    omega

theorem countP_self_le (t : Tree) :
    (if (t.id == number) = true then 1 else 0) ≤ t.parts.countP (·.id == number) := by
  rw [parts_eq, List.countP_cons]
  omega

theorem count_merged (start : Position) (pairs more : List (Tree × Tree))
    (each : ∀ pair ∈ pairs, ∀ place entries, pair.2.given place = .ok entries →
      entries.countP (·.1.id == number) ≤ pair.2.parts.countP (·.id == number))
    (gives : merged start pairs = .ok more) :
    (more ++ own pairs).countP (·.1.id == number) ≤ (pairParts pairs).countP (·.id == number) := by
  induction pairs generalizing more with
  | nil =>
    cases gives
    exact Nat.le_refl 0
  | cons pair rest ih =>
    obtain ⟨key, value⟩ := pair
    have later := fun more => ih more fun pair member => each pair (List.mem_cons_of_mem _ member)
    rw [pairParts, List.countP_append, List.countP_append, List.countP_append]
    by_cases merges : key.isMerge = true
    · have owns : own ((key, value) :: rest) = own rest := by simp [own, merges]
      obtain ⟨early, late, first, others, rfl⟩ :=
        merged_eq_ok start key value rest more merges gives
      have here : early.countP (·.1.id == number) ≤ value.parts.countP (·.id == number) :=
        each (key, value) (List.mem_cons_self ..) start early first
      have rest := later late others
      rw [List.countP_append] at rest
      rw [owns, List.countP_append]
      omega
    · have owns : own ((key, value) :: rest) = (key, value) :: own rest := by simp [own, merges]
      rw [merged_of_not_merge start key value rest merges] at gives
      have rest := later more gives
      have here := countP_self_le number key
      rw [List.countP_append] at rest
      rw [owns, List.countP_cons]
      dsimp only
      omega

theorem count_given (start : Position) (t : Tree) (entries : List (Tree × Tree))
    (gives : t.given start = .ok entries) :
    entries.countP (·.1.id == number) ≤ t.parts.countP (·.id == number) := by
  induction t using Tree.induction generalizing start entries with
  | step t ih =>
    cases t with
    | scalar id tag place text => cases gives
    | sequence id tag place items =>
      obtain ⟨found, lists, rfl⟩ := given_sequence_eq_ok start id tag place items entries gives
      have bound := count_listed number start items found
        (fun item member place entries => ih item member place entries) lists
      rw [(List.reverse_perm found).flatten.countP_eq, parts, List.countP_cons]
      omega
    | mapping id tag place pairs =>
      obtain ⟨found, more, rfl⟩ := given_mapping_eq_ok start id tag place pairs entries gives
      have bound := count_merged number place pairs found (fun pair member place entries =>
        ih pair.2 (mem_children_mapping id tag _ pairs pair member).2 place entries) more
      rw [parts, List.countP_cons]
      exact Nat.le_add_right_of_le bound

theorem count_entries (t : Tree) :
    t.entries.countP (·.1.id == number) ≤ t.parts.countP (·.id == number) := by
  unfold entries
  cases flat : t.flattened with
  | error stop => exact Nat.zero_le _
  | ok entries =>
    cases t with
    | scalar id tag start text =>
      cases flat
      exact Nat.zero_le _
    | sequence id tag start items =>
      cases flat
      exact Nat.zero_le _
    | mapping id tag start pairs => exact count_given number start _ entries flat

end Counting

theorem parts_sublist (s t : Tree) (within : s ∈ t.parts) : s.parts.Sublist t.parts := by
  induction t using Tree.induction with
  | step t ih =>
    rcases (mem_parts_iff s t).mp within with rfl | ⟨child, below, inner⟩
    · exact .refl _
    · rw [t.parts_eq]
      refine .cons _ ((ih child below inner).trans ?_)
      exact List.sublist_flatten_of_mem (List.mem_map_of_mem below)

theorem keys_pairwise (s t : Tree) (distinct : (t.parts.map id).Nodup) (within : s ∈ t.parts) :
    s.entries.Pairwise fun a b => a.1.id ≠ b.1.id := by
  have parts : (s.parts.map id).Nodup := distinct.sublist ((parts_sublist s t within).map id)
  -- Merging repeats no node, so a number that is a key twice stands in the tree twice.
  have keys : (s.entries.map fun entry => entry.1.id).Nodup := by
    rw [List.nodup_iff_count_le_one] at parts ⊢
    intro number
    have bound := count_entries number s
    have once := parts number
    rw [List.count, List.countP_map] at once ⊢
    exact Nat.le_trans bound once
  exact List.pairwise_map.mp keys

def TellsKeys (t : Tree) : Prop :=
  ∀ s ∈ t.parts, s.entries.Pairwise fun a b =>
    ∀ name, a.1.scalar? = some name → name.isOwnNan = true → a.1.id ≠ b.1.id

theorem key?_filled (tag : Tag) (entries : List (Scalar × Value)) :
    (filled tag entries).key? = none := by
  unfold filled
  split <;> rfl

theorem kind_of_scalar? (t : Tree) (name : Scalar) (named : t.scalar? = some name) :
    t.kind = .scalar := by
  rw [scalar?] at named
  cases t with
  | scalar id tag start text => rfl
  | sequence id tag start items =>
    rw [value] at named
    cases values : itemValues (Tree.sequence id tag start items).held with
    | error stop =>
      rw [values] at named
      cases named
    | ok found =>
      rw [values] at named
      cases named
  | mapping id tag start pairs =>
    rw [value] at named
    cases flat : (Tree.mapping id tag start pairs).flattened with
    | error stop =>
      rw [flat] at named
      cases named
    | ok all =>
      cases values : entryValues start (Tree.mapping id tag start pairs).entries [] with
      | error stop =>
        rw [flat, values] at named
        cases named
      | ok found =>
        rw [flat, values] at named
        cases (key?_filled tag found).symm.trans named

theorem scalar?_relabel (f : NodeId → NodeId) (t : Tree) (isScalar : t.kind = .scalar) :
    (t.relabel f).scalar? = t.scalar?.map (Scalar.renamed f) := by
  cases t with
  | sequence id tag start items => cases isScalar
  | mapping id tag start pairs => cases isScalar
  | scalar id tag start text =>
    rw [relabel, scalar?, scalar?, value, value, scalarResult_renamed]
    cases scalarResult id tag start text with
    | error stop => rfl
    | ok found => exact Value.key?_renamed f found

theorem eq_of_isOwnNan (t : Tree) (name : Scalar) (named : t.scalar? = some name)
    (own : name.isOwnNan = true) : name = .float (.nan (t.id + 1)) := by
  have isScalar := t.kind_of_scalar? name named
  obtain ⟨origin, rfl⟩ := name.eq_of_isOwnNan own
  -- With the number of this node given to all nodes nothing changes.
  have same := scalar?_relabel (fun _ => t.id) t isScalar
  cases t with
  | sequence id tag start items => cases isScalar
  | mapping id tag start pairs => cases isScalar
  | scalar id tag start text =>
    rw [named] at same
    exact Option.some.inj (named.symm.trans same)

theorem value_fresh (t : Tree) (f : NodeId → NodeId) (same : t.fresh.relabel f = t)
    (tells : t.TellsKeys) : t.value = t.fresh.value.map (Value.renamed f) := by
  have keeps : t.fresh.KeepsKeys f := by
    intro s within
    have told := tells (s.relabel f) (by rw [← same]; exact mem_parts_relabel f s _ within)
    rw [entries_relabel, relabelPairs_eq, List.pairwise_map] at told
    refine (told.and (keys_pairwise s _ t.nodup_fresh within)).imp ?_
    intro a b ⟨renamed, apart⟩ x y first second
    refine Scalar.same_renamed f x y fun i j isFirst isSecond => ?_
    have own : x.isOwnNan = true := by
      rw [isFirst]
      rfl
    -- The origins of both keys are the numbers of their nodes, in the fresh tree and after `f`.
    have left := a.1.eq_of_isOwnNan x first own
    have right := b.1.eq_of_isOwnNan y second (by rw [isSecond]; rfl)
    rw [left] at isFirst
    rw [right] at isSecond
    cases isFirst
    cases isSecond
    have again := scalar?_relabel f a.1 (a.1.kind_of_scalar? x first)
    rw [first] at again
    have differ := renamed _ again (by rw [Scalar.isOwnNan_renamed]; exact own)
    rw [id_relabel, id_relabel] at differ
    exact ⟨apart, differ⟩
  rw [← value_relabel f t.fresh keeps, same]

end Tree

theorem Node.isLate_of_isDefault (node : Node) (default : node.isDefault = true) :
    node.tag.isLate = false := by
  unfold isDefault at default
  cases content : node.content with
  | scalar text =>
    rw [content] at default
    cases tag : node.tag <;> rw [tag] at default <;> first | rfl | cases default
  | sequence items =>
    rw [content] at default
    rw [beq_iff_eq.mp default]
    rfl
  | mapping pairs =>
    rw [content] at default
    rw [beq_iff_eq.mp default]
    rfl

theorem Graph.read_copies (g : Graph) (acyclic : g.Acyclic) (isDefault : g.IsDefault) :
    ∃ t : Tree, t.Unfolds g ∧ t.id = g.root ∧
      ((g.read Channel.outermost).outcome = t.value.mapError .stop ∨
        (g.read Channel.outermost).outcome = .error (.stop (.breakdown .keyTooLong)) ∧
          ∃ s ∈ t.parts, ∃ name, s.MayWrite name ∧ name.isWritable = false) ∧
      (t.fresh.parts.map Tree.id).Nodup ∧ ∃ f, t.fresh.relabel f = t ∧
        (t.TellsKeys → t.value = t.fresh.value.map (Value.renamed f)) := by
  obtain ⟨t, unfolds, root, small⟩ := Tree.exists_unfolding g acyclic isDefault.fits
  have timely : t.tag.isLate = false := by
    have late := Node.isLate_of_isDefault (g.node g.root) (isDefault g.root .refl)
    rw [← root, unfolds.here, Tree.tag_node] at late
    exact late
  obtain ⟨fine, long⟩ := g.read_ends t unfolds root small timely
  obtain ⟨f, same⟩ := t.exists_relabel_fresh
  refine ⟨t, unfolds, root, ?_, t.nodup_fresh, f, same, t.value_fresh f same⟩
  -- Nothing but a key that cannot be written ends the reading where the tree has a value.
  by_cases writable : (t.walk [] Progress.none).IsWritable
  · have ended := fine writable
    refine .inl ?_
    cases read : t.value with
    | ok value =>
      rw [read] at ended
      rw [ended]
      rfl
    | error stop =>
      rw [read] at ended
      exact ended
  · obtain ⟨stop, ended, rfl | failed⟩ := long writable
    · refine .inr ⟨ended, ?_⟩
      have explained := t.walk_explained t t.mem_parts_self [] Progress.none nofun
      obtain ⟨mention, member, unwritable⟩ : ∃ mention ∈ (t.walk [] Progress.none).mentions,
          mention.name.isWritable = false := by
        simpa [Progress.IsWritable] using writable
      obtain ⟨s, within, writes⟩ := explained mention member
      exact ⟨s, within, mention.name, writes, unwritable⟩
    · refine .inl ?_
      rw [ended, failed]
      rfl

theorem Graph.isDefault_of_nodes (g : Graph) (root : g.root < g.nodes.size)
    (inside : ∀ holder < g.nodes.size, ∀ held ∈ (g.node holder).content.children,
      held < g.nodes.size) (each : ∀ id < g.nodes.size, (g.node id).isDefault = true) :
    g.IsDefault :=
  fun id reachable => each id (g.lt_size_of_reachable root inside id reachable)

def aliased : Graph where
  root := 0
  nodes := #[
    ⟨.mapping [(1, 2), (7, 8), (12, 2)], .map, ⟨0, 0, 0⟩⟩,
    ⟨.scalar [.char 'a'], .str, ⟨0, 0, 0⟩⟩,
    ⟨.mapping [(3, 4), (5, 6)], .map, ⟨3, 0, 3⟩⟩,
    ⟨.scalar [.char 'k'], .str, ⟨7, 0, 7⟩⟩,
    ⟨.scalar [.char '1'], .int, ⟨10, 0, 10⟩⟩,
    ⟨.scalar [.char 'l'], .str, ⟨13, 0, 13⟩⟩,
    ⟨.scalar [.char 'n', .char 'a', .char 'n'], .float, ⟨16, 0, 16⟩⟩,
    ⟨.scalar [.char 'b'], .str, ⟨29, 1, 0⟩⟩,
    ⟨.mapping [(9, 2), (10, 11)], .map, ⟨32, 1, 3⟩⟩,
    ⟨.scalar [.char '<', .char '<'], .merge, ⟨33, 1, 4⟩⟩,
    ⟨.scalar [.char 'k'], .str, ⟨41, 1, 12⟩⟩,
    ⟨.scalar [.char '2'], .int, ⟨44, 1, 15⟩⟩,
    ⟨.scalar [.char 'c'], .str, ⟨47, 2, 0⟩⟩]

def aliasedTarget : Tree :=
  .mapping 2 .map ⟨3, 0, 3⟩ [
    (.scalar 3 .str ⟨7, 0, 7⟩ [.char 'k'], .scalar 4 .int ⟨10, 0, 10⟩ [.char '1']),
    (.scalar 5 .str ⟨13, 0, 13⟩ [.char 'l'],
      .scalar 6 .float ⟨16, 0, 16⟩ [.char 'n', .char 'a', .char 'n'])]

def aliasedTree : Tree :=
  .mapping 0 .map ⟨0, 0, 0⟩ [
    (.scalar 1 .str ⟨0, 0, 0⟩ [.char 'a'], aliasedTarget),
    (.scalar 7 .str ⟨29, 1, 0⟩ [.char 'b'],
      .mapping 8 .map ⟨32, 1, 3⟩ [
        (.scalar 9 .merge ⟨33, 1, 4⟩ [.char '<', .char '<'], aliasedTarget),
        (.scalar 10 .str ⟨41, 1, 12⟩ [.char 'k'], .scalar 11 .int ⟨44, 1, 15⟩ [.char '2'])]),
    (.scalar 12 .str ⟨47, 2, 0⟩ [.char 'c'], aliasedTarget)]

theorem aliased_read :
    aliased.Acyclic ∧ aliased.IsDefault ∧ aliasedTree.Unfolds aliased ∧ aliasedTree.TellsKeys ∧
      (aliased.read Channel.outermost).outcome = aliasedTree.value.mapError .stop ∧
        ∃ f, aliasedTree.fresh.relabel f = aliasedTree ∧
          (aliased.read Channel.outermost).outcome =
            (aliasedTree.fresh.value.map (Value.renamed f)).mapError .stop := by
  have acyclic := aliased.acyclic_of_rank
    (fun id => [3, 0, 1, 0, 0, 0, 0, 0, 2].getD id 0) (by decide)
  have plain : aliased.IsDefault := aliased.isDefault_of_nodes (by decide) (by decide) (by decide)
  have unfolds : aliasedTree.Unfolds aliased := by decide
  have apart : ∀ s ∈ aliasedTree.parts, s.entries.Pairwise fun a b => a.1.id ≠ b.1.id := by decide
  have tells : aliasedTree.TellsKeys := fun s within =>
    (apart s within).imp fun differ _ _ _ => differ
  have finished : (aliased.read Channel.outermost).outcome.isOk = true := by decide +kernel
  obtain ⟨t, found, root, same | ⟨failed, -⟩, -, f, labels, fresh⟩ :=
    aliased.read_copies acyclic plain
  · have tree : t = aliasedTree := found.unique aliased t aliasedTree unfolds root
    subst tree
    refine ⟨acyclic, plain, unfolds, tells, same, f, labels, ?_⟩
    rw [same, fresh tells]
  · rw [failed] at finished
    cases finished

def nanTwice : Graph where
  root := 0
  nodes := #[
    ⟨.mapping [(1, 2), (1, 3)], .map, ⟨0, 0, 0⟩⟩,
    ⟨.scalar [.char 'n', .char 'a', .char 'n'], .float, ⟨1, 0, 1⟩⟩,
    ⟨.scalar [.char '1'], .int, ⟨18, 0, 18⟩⟩,
    ⟨.scalar [.char '2'], .int, ⟨26, 0, 26⟩⟩]

def nanTree (first second : NodeId) (values : NodeId × NodeId) : Tree :=
  .mapping 0 .map ⟨0, 0, 0⟩ [
    (.scalar first .float ⟨1, 0, 1⟩ [.char 'n', .char 'a', .char 'n'],
      .scalar values.1 .int ⟨18, 0, 18⟩ [.char '1']),
    (.scalar second .float ⟨1, 0, 1⟩ [.char 'n', .char 'a', .char 'n'],
      .scalar values.2 .int ⟨26, 0, 26⟩ [.char '2'])]

theorem nanTwice_once :
    nanTwice.Acyclic ∧ nanTwice.IsDefault ∧ (nanTree 1 1 (2, 3)).Unfolds nanTwice ∧
      (nanTree 1 1 (2, 3)).id = nanTwice.root ∧
      (nanTwice.read Channel.outermost).outcome =
        .ok (.map [(.float (.nan 2), .scalar (.int 2))]) ∧
      (nanTree 1 1 (2, 3)).fresh.value =
        .ok (.map [(.float (.nan 2), .scalar (.int 1)), (.float (.nan 4), .scalar (.int 2))]) ∧
      ∀ f, (nanTwice.read Channel.outermost).outcome ≠
        ((nanTree 1 1 (2, 3)).fresh.value.map (Value.renamed f)).mapError .stop := by
  have acyclic := nanTwice.acyclic_of_rank (fun id => [1].getD id 0) (by decide)
  have plain : nanTwice.IsDefault := nanTwice.isDefault_of_nodes (by decide) (by decide) (by decide)
  have once : (nanTwice.read Channel.outermost).outcome =
      .ok (.map [(.float (.nan 2), .scalar (.int 2))]) := rfl
  have twice : (nanTree 1 1 (2, 3)).fresh.value =
      .ok (.map [(.float (.nan 2), .scalar (.int 1)), (.float (.nan 4), .scalar (.int 2))]) := by
    have renumbered : (nanTree 1 1 (2, 3)).fresh = nanTree 1 3 (2, 4) := rfl
    have entries : (nanTree 1 3 (2, 4)).entries = (nanTree 1 3 (2, 4)).pairs := rfl
    rw [renumbered, nanTree, Tree.value, ← nanTree, entries]
    simp only [nanTree, Tree.pairs, Tree.entryValues, Tree.value]
    rfl
  refine ⟨acyclic, plain, by decide, rfl, once, twice, fun f same => ?_⟩
  rw [once, twice] at same
  have lengths := congrArg List.length (Value.map.inj (Except.ok.inj same))
  cases lengths

end LocaleLint.Yaml
