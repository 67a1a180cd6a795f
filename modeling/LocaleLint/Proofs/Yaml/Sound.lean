import LocaleLint.Proofs.Yaml.Meaning
import LocaleLint.Proofs.Yaml.Walk

set_option autoImplicit false

namespace LocaleLint.Yaml

namespace Graph

/-- A collection, or a scalar that fits its tag. -/
def Reads (g : Graph) (id : NodeId) : Prop :=
  match (g.node id).content with
  | .scalar text => (scalarResult id (g.node id).tag (g.node id).start text).isOk
  | _ => True

def IsSource (g : Graph) (id : NodeId) : Prop :=
  match (g.node id).content with
  | .scalar _ => False
  | .sequence items => ∀ item ∈ items, (g.node item).kind = .mapping
  | .mapping _ => True

def IsSoundPair (g : Graph) (key value : NodeId) : Prop :=
  (g.node key).kind = .scalar ∧
    if (g.node key).tag == .merge then g.IsSource value else g.Reads key ∧ g.Reads value

def IsSoundAt (g : Graph) (id : NodeId) : Prop :=
  match (g.node id).content with
  | .scalar _ => True
  | .sequence items => ∀ item ∈ items, g.Reads item
  | .mapping pairs => ∀ pair ∈ pairs, g.IsSoundPair pair.1 pair.2

structure IsSound (g : Graph) : Prop where
  root : g.Reads g.root
  held : ∀ id, g.Reachable id → g.IsSoundAt id

instance (g : Graph) (id : NodeId) : Decidable (g.Reads id) :=
  match content : (g.node id).content with
  | .scalar text =>
      decidable_of_iff ((scalarResult id (g.node id).tag (g.node id).start text).isOk)
        (by rw [Reads, content])
  | .sequence _ => .isTrue (by rw [Reads, content]; trivial)
  | .mapping _ => .isTrue (by rw [Reads, content]; trivial)

instance (g : Graph) (id : NodeId) : Decidable (g.IsSource id) :=
  match content : (g.node id).content with
  | .scalar _ => .isFalse (by rw [IsSource, content]; exact not_false)
  | .sequence items =>
      decidable_of_iff (∀ item ∈ items, (g.node item).kind = .mapping) (by rw [IsSource, content])
  | .mapping _ => .isTrue (by rw [IsSource, content]; trivial)

instance (g : Graph) (key value : NodeId) : Decidable (g.IsSoundPair key value) :=
  inferInstanceAs (Decidable (_ ∧ ite _ _ _))

instance (g : Graph) (id : NodeId) : Decidable (g.IsSoundAt id) :=
  match content : (g.node id).content with
  | .scalar _ => .isTrue (by rw [IsSoundAt, content]; trivial)
  | .sequence items =>
      decidable_of_iff (∀ item ∈ items, g.Reads item) (by rw [IsSoundAt, content])
  | .mapping pairs =>
      decidable_of_iff (∀ pair ∈ pairs, g.IsSoundPair pair.1 pair.2) (by rw [IsSoundAt, content])

end Graph

namespace Tree

def Reads : Tree → Prop
  | .scalar id tag start text => (scalarResult id tag start text).isOk
  | _ => True

def IsSource : Tree → Prop
  | .scalar _ _ _ _ => False
  | .sequence _ _ _ items => ∀ item ∈ items, item.kind = .mapping
  | .mapping _ _ _ _ => True

def IsSoundPair (pair : Tree × Tree) : Prop :=
  pair.1.kind = .scalar ∧ if pair.1.isMerge then pair.2.IsSource else pair.1.Reads ∧ pair.2.Reads

def IsSoundAt : Tree → Prop
  | .scalar _ _ _ _ => True
  | .sequence _ _ _ items => ∀ item ∈ items, item.Reads
  | .mapping _ _ _ pairs => ∀ pair ∈ pairs, IsSoundPair pair

structure IsSound (t : Tree) : Prop where
  reads : t.Reads
  parts : ∀ s ∈ t.parts, s.IsSoundAt ∧ s.Fits

theorem IsSound.here (t : Tree) (sound : t.IsSound) : t.IsSoundAt :=
  (sound.parts t t.mem_parts_self).1

theorem IsSound.fits (t : Tree) (sound : t.IsSound) : t.Fits := (sound.parts t t.mem_parts_self).2

section Graph

variable (g : Graph) (t : Tree)

section Stands

variable (stands : t.Stands g)

include stands

theorem Stands.kind : (g.node t.id).kind = t.kind := by
  rw [stands.here, kind_node]

theorem Stands.isMerge : ((g.node t.id).tag == .merge) = t.isMerge := by
  rw [stands.here, tag_node]
  rfl

theorem Stands.reads : g.Reads t.id ↔ t.Reads := by
  rw [Graph.Reads, stands.here]
  cases t <;> exact Iff.rfl

theorem Stands.isSource : g.IsSource t.id ↔ t.IsSource := by
  rw [Graph.IsSource, stands.here]
  cases t with
  | scalar id tag start text => exact Iff.rfl
  | mapping id tag start pairs => exact Iff.rfl
  | sequence id tag start items =>
    simp only [node, IsSource, List.mem_map, forall_exists_index, and_imp, forall_apply_eq_imp_iff₂]
    refine forall₂_congr fun item member => ?_
    rw [(stands.child g item _ member).kind]

end Stands

variable (unfolds : t.Unfolds g)

include unfolds

theorem Unfolds.isSoundAt (sound : g.IsSoundAt t.id) : t.IsSoundAt := by
  have stands := unfolds.stands g t
  rw [Graph.IsSoundAt, stands.here] at sound
  cases t with
  | scalar id tag start text => trivial
  | sequence id tag start items =>
    intro item member
    rw [← (stands.child g item _ member).reads]
    exact sound item.id (List.mem_map_of_mem member)
  | mapping id tag start pairs =>
    intro pair member
    have children := mem_children_mapping id tag start pairs pair member
    have key := stands.child g pair.1 _ children.1
    have value := stands.child g pair.2 _ children.2
    have here := sound (pair.1.id, pair.2.id) (List.mem_map_of_mem member)
    rw [Graph.IsSoundPair, key.kind, key.isMerge, value.isSource, key.reads, value.reads] at here
    exact here

theorem Unfolds.isSound (root : t.id = g.root) (sound : g.IsSound) : t.IsSound where
  reads := by
    rw [← (unfolds.stands g t).reads, root]
    exact sound.root
  parts := fun s within => by
    refine ⟨(unfolds.part g s t within).isSoundAt g s (sound.held s.id ?_), (unfolds s within).2⟩
    rw [Graph.Reachable, ← root]
    exact (unfolds.stands g t).reaches g s t within

end Graph

theorem IsSound.of_collection (s t : Tree) (sound : t.IsSound) (within : s ∈ t.parts)
    (collection : s.kind ≠ .scalar) : s.IsSound where
  reads := by
    cases s with
    | scalar id tag start text => exact absurd rfl collection
    | sequence id tag start items => trivial
    | mapping id tag start pairs => trivial
  parts := fun r inner => sound.parts r (parts_trans r s t inner within)

theorem IsSound.of_child (child t : Tree) (sound : t.IsSound) (below : child ∈ t.children)
    (reads : child.Reads) : child.IsSound where
  reads := reads
  parts :=
    fun r inner => sound.parts r (parts_trans r child t inner (mem_parts_of_child child t below))

theorem IsSound.of_held (s t : Tree) (sound : t.IsSound) (member : s ∈ t.held) : s.IsSound := by
  cases t with
  | scalar id tag start text => cases member
  | mapping id tag start pairs => cases member
  | sequence id tag start items =>
    have item (one : Tree) (inside : one ∈ items) : one.IsSound :=
      sound.of_child one _ inside (sound.here _ one inside)
    rcases (sound.fits : _ ∨ _) with rfl | ⟨lists, single⟩
    · exact item s member
    · rw [held, if_pos lists] at member
      obtain ⟨one, inside, below⟩ := List.mem_flatMap.mp member
      apply (item one inside).of_child s one below
      obtain ⟨id, tag, start, key, value, rfl, plain⟩ := eq_of_single one (single one inside)
      have pair : IsSoundPair (key, value) :=
        (item _ inside).here _ (key, value) (List.mem_cons_self ..)
      rw [IsSoundPair, plain] at pair
      rcases List.mem_cons.mp below with rfl | below
      · exact pair.2.1
      · rw [List.mem_singleton.mp below]
        exact pair.2.2

/-- A key that has a name, and a value that is sound. -/
def IsSoundEntry (entry : Tree × Tree) : Prop :=
  entry.1.kind = .scalar ∧ entry.1.Reads ∧ entry.2.IsSound

theorem own_sound (id : NodeId) (tag : Tag) (start : Position) (pairs : List (Tree × Tree))
    (sound : (Tree.mapping id tag start pairs).IsSound) (pair : Tree × Tree)
    (member : pair ∈ own pairs) :
    IsSoundEntry pair := by
  obtain ⟨there, plain⟩ := List.mem_filter.mp member
  have here : IsSoundPair pair := sound.here _ pair there
  have noMerge : pair.1.isMerge = false := by simpa using plain
  rw [IsSoundPair, noMerge] at here
  obtain ⟨isScalar, key, value⟩ := here
  exact ⟨isScalar, key,
    sound.of_child pair.2 _ (mem_children_mapping id tag start pairs pair there).2 value⟩

theorem given_ok (start : Position) (t : Tree) (sound : t.IsSound) (source : t.IsSource) :
    ∃ entries, t.given start = .ok entries ∧ ∀ entry ∈ entries, IsSoundEntry entry := by
  induction t using Tree.induction generalizing start with
  | step t ih =>
    cases t with
    | scalar id tag place text => exact absurd source not_false
    | sequence id tag place items =>
      have each (item : Tree) (member : item ∈ items) : item.kind = .mapping ∧
          ∃ first, item.given start = .ok first ∧ ∀ entry ∈ first, IsSoundEntry entry := by
        have isMapping : item.kind = .mapping := source item member
        have inner : item.IsSound :=
          sound.of_child item _ member (sound.here _ item member)
        refine ⟨isMapping, ih item member start inner ?_⟩
        cases item with
        | mapping id tag place pairs => trivial
        | scalar id tag place text => cases isMapping
        | sequence id tag place items => cases isMapping
      obtain ⟨lists, found, fine⟩ := listed_ok _ start items each
      refine ⟨lists.reverse.flatten, ?_, ?_⟩
      · simp only [given, found]
        rfl
      · intro entry member
        obtain ⟨list, there, inside⟩ := List.mem_flatten.mp member
        exact fine list (List.mem_reverse.mp there) entry inside
    | mapping id tag place pairs =>
      have each (pair : Tree × Tree) (member : pair ∈ pairs) (merges : pair.1.isMerge = true) :
          ∃ first, pair.2.given place = .ok first ∧ ∀ entry ∈ first, IsSoundEntry entry := by
        have here : IsSoundPair pair := sound.here _ pair member
        rw [IsSoundPair, merges] at here
        have below := (mem_children_mapping id tag place pairs pair member).2
        have inner : pair.2.IsSound := by
          apply sound.of_child pair.2 _ below
          cases value : pair.2 with
          | scalar id tag place text =>
            rw [value] at here
            exact absurd here.2 not_false
          | sequence id tag place items => trivial
          | mapping id tag place pairs => trivial
        exact ih pair.2 below place inner here.2
      obtain ⟨more, found, fine⟩ := merged_ok _ place pairs each
      refine ⟨more ++ own pairs, ?_, ?_⟩
      · simp only [given, found]
        rfl
      · intro entry member
        rcases List.mem_append.mp member with member | member
        · exact fine entry member
        · exact own_sound id tag place pairs sound entry member

theorem IsSound.flattened (t : Tree) (sound : t.IsSound) (isMapping : t.kind = .mapping) :
    t.flattened = .ok t.entries ∧ ∀ entry ∈ t.entries, IsSoundEntry entry := by
  cases t with
  | scalar id tag start text => cases isMapping
  | sequence id tag start items => cases isMapping
  | mapping id tag start pairs =>
    obtain ⟨entries, given, fine⟩ := given_ok start (.mapping id tag start pairs) sound trivial
    have flat : (Tree.mapping id tag start pairs).flattened = .ok entries := given
    have same : (Tree.mapping id tag start pairs).entries = entries := by
      rw [Tree.entries, flat]
      rfl
    rw [same]
    exact ⟨flat, fine⟩

theorem scalar?_of_reads (key : Tree) (isScalar : key.kind = .scalar) (reads : key.Reads) :
    ∃ name, key.value = .ok (.scalar name) ∧ key.scalar? = some name := by
  cases key with
  | sequence id tag start items => cases isScalar
  | mapping id tag start pairs => cases isScalar
  | scalar id tag start text =>
    have value : ∃ name, (Tree.scalar id tag start text).value = .ok (.scalar name) := by
      rw [Tree.value]
      rw [Reads] at reads
      -- Tags that read no scalar are ruled out, all others read one by `scalarOf`.
      cases tag
      all_goals
        simp only [scalarResult] at reads ⊢
        first
        | exact absurd reads Bool.false_ne_true
        | (generalize Build.scalarOf _ _ _ _ = result at reads ⊢
           cases result with
           | error stop => exact absurd reads Bool.false_ne_true
           | ok name => exact ⟨name, rfl⟩)
    obtain ⟨name, value⟩ := value
    exact ⟨name, value, by rw [scalar?, value]; rfl⟩

def names (pairs : List (Tree × Tree)) : List Scalar := pairs.filterMap (·.1.scalar?)

theorem entryValues_ok (start : Position) (pairs : List (Tree × Tree))
    (found : List (Scalar × Value)) (distinct : (meanings found).Nodup)
    (each : ∀ pair ∈ pairs,
      (∃ name, pair.1.value = .ok (.scalar name) ∧ pair.1.scalar? = some name) ∧
        ∃ value, pair.2.value = .ok value) :
    ∃ entries, entryValues start pairs found = .ok entries ∧ (meanings entries).Nodup ∧
      (meanings entries).toFinset =
        ((names pairs).map Scalar.meaning).toFinset ∪ (meanings found).toFinset := by
  induction pairs generalizing found with
  | nil => exact ⟨found, by rw [entryValues], distinct, by simp [names]⟩
  | cons pair rest ih =>
    obtain ⟨key, value⟩ := pair
    obtain ⟨⟨name, read, named⟩, meant, ok⟩ := each (key, value) (List.mem_cons_self ..)
    have put := nodup_meanings_putEntry found name meant distinct
    obtain ⟨entries, built, once, all⟩ :=
      ih (putEntry found name meant) put fun pair member =>
        each pair (List.mem_cons_of_mem _ member)
    refine ⟨entries, ?_, once, ?_⟩
    · have first : key.value = .ok (.scalar name) := read
      have second : value.value = .ok meant := ok
      rw [entryValues, first, second]
      exact built
    · have listed : names ((key, value) :: rest) = name :: names rest :=
        List.filterMap_cons_some named
      rw [all, toFinset_meanings_putEntry, listed, List.map_cons, List.toFinset_cons,
        Finset.insert_union, Finset.union_insert]

theorem itemValues_ok (items : List Tree) (each : ∀ item ∈ items, ∃ value, item.value = .ok value) :
    ∃ values, itemValues items = .ok values := by
  induction items with
  | nil => exact ⟨[], by rw [itemValues]⟩
  | cons item rest ih =>
    obtain ⟨value, read⟩ := each item (List.mem_cons_self ..)
    obtain ⟨values, later⟩ := ih fun item member => each item (List.mem_cons_of_mem _ member)
    refine ⟨value :: values, ?_⟩
    rw [itemValues, read, later]
    rfl

theorem IsSound.value_of_entries (t : Tree) (sound : t.IsSound) (isMapping : t.kind = .mapping)
    (each : ∀ entry ∈ t.entries, ∃ value, entry.2.value = .ok value) :
    ∃ entries, t.value = .ok (filled t.tag entries) ∧
      entries.length = Scalar.variety (names t.entries) := by
  obtain ⟨flat, fine⟩ := sound.flattened t isMapping
  have named (entry : Tree × Tree) (member : entry ∈ t.entries) :
      (∃ name, entry.1.value = .ok (.scalar name) ∧ entry.1.scalar? = some name) ∧
        ∃ value, entry.2.value = .ok value := by
    obtain ⟨isScalar, key, -⟩ := fine entry member
    exact ⟨scalar?_of_reads entry.1 isScalar key, each entry member⟩
  obtain ⟨entries, built, once, all⟩ := entryValues_ok t.start t.entries [] List.nodup_nil named
  refine ⟨entries, ?_, ?_⟩
  · cases t with
    | scalar id tag start text => cases isMapping
    | sequence id tag start items => cases isMapping
    | mapping id tag start pairs =>
      have filledIn : entryValues start (Tree.mapping id tag start pairs).entries [] =
        .ok entries := built
      rw [Tree.value, flat, filledIn]
      rfl
  · have count := List.toFinset_card_of_nodup once
    rw [all] at count
    simpa [Scalar.variety, meanings] using count.symm

theorem IsSound.value_ok (t : Tree) (sound : t.IsSound) : ∃ value, t.value = .ok value := by
  induction t using below_induction with
  | step t ih =>
    cases kind : t.kind with
    | scalar =>
      obtain ⟨name, value, -⟩ := scalar?_of_reads t kind sound.reads
      exact ⟨_, value⟩
    | sequence =>
      obtain ⟨values, read⟩ := itemValues_ok t.held fun inner member =>
        ih inner (below_of_held inner t member) (sound.of_held inner t member)
      cases t with
      | sequence id tag start items =>
        refine ⟨.list (arranged tag values), ?_⟩
        rw [Tree.value, read]
        rfl
      | scalar id tag start text => cases kind
      | mapping id tag start pairs => cases kind
    | mapping =>
      obtain ⟨-, fine⟩ := sound.flattened t kind
      obtain ⟨entries, value, -⟩ := sound.value_of_entries t kind fun entry member =>
        ih entry.2 (below_of_entry t entry member).2.1 (fine entry member).2.2
      exact ⟨_, value⟩

theorem IsSound.mapping_value (t : Tree) (sound : t.IsSound) (isMapping : t.kind = .mapping) :
    ∃ entries, t.value = .ok (filled t.tag entries) ∧
      entries.length = Scalar.variety (names t.entries) := by
  obtain ⟨-, fine⟩ := sound.flattened t isMapping
  exact sound.value_of_entries t isMapping fun entry member => (fine entry member).2.2.value_ok

end Tree

end LocaleLint.Yaml
