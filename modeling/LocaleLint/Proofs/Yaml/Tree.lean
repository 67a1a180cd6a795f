import Mathlib.Logic.Relation
import Mathlib.Data.Finset.Card
import Mathlib.Data.Finset.Range
import Mathlib.Data.Finset.Filter
import LocaleLint.Yaml.Node.Basic

set_option autoImplicit false

namespace LocaleLint.Yaml

inductive Tree
  | scalar (id : NodeId) (tag : Tag) (start : Position) (text : List Text.CodePoint)
  | sequence (id : NodeId) (tag : Tag) (start : Position) (items : List Tree)
  | mapping (id : NodeId) (tag : Tag) (start : Position) (pairs : List (Tree × Tree))
deriving Inhabited

def Tag.isLate : Tag → Bool
  | .orderedMap | .pairs | .set => true
  | _ => false

def Tag.listsPairs : Tag → Bool
  | .orderedMap | .pairs => true
  | _ => false

def Tag.isOfScalar : Tag → Bool
  | .null | .bool | .int | .float | .binary | .timestamp | .str | .merge | .other _ => true
  | .orderedMap | .pairs | .set | .seq | .map | .value => false

namespace Tree

def id : Tree → NodeId
  | .scalar id _ _ _ | .sequence id _ _ _ | .mapping id _ _ _ => id

def tag : Tree → Tag
  | .scalar _ tag _ _ | .sequence _ tag _ _ | .mapping _ tag _ _ => tag

def start : Tree → Position
  | .scalar _ _ start _ | .sequence _ _ start _ | .mapping _ _ start _ => start

def kind : Tree → NodeKind
  | .scalar _ _ _ _ => .scalar
  | .sequence _ _ _ _ => .sequence
  | .mapping _ _ _ _ => .mapping

def isCollection (t : Tree) : Bool := t.kind != .scalar

def children : Tree → List Tree
  | .scalar _ _ _ _ => []
  | .sequence _ _ _ items => items
  | .mapping _ _ _ pairs => pairs.flatMap fun pair => [pair.1, pair.2]

def pairs : Tree → List (Tree × Tree)
  | .mapping _ _ _ pairs => pairs
  | _ => []

def isMerge (t : Tree) : Bool := t.tag == .merge

def isSingle : Tree → Bool
  | .mapping _ _ _ [(key, _)] => !key.isMerge
  | _ => false

def Fits : Tree → Prop
  | .scalar _ tag _ _ => tag.isOfScalar
  | .sequence _ tag _ items => tag = .seq ∨ tag.listsPairs ∧ ∀ item ∈ items, item.isSingle = true
  | .mapping _ tag _ _ => tag = .map ∨ tag = .set

instance : DecidablePred Fits
  | .scalar _ tag _ _ => inferInstanceAs (Decidable (tag.isOfScalar = true))
  | .sequence _ tag _ items => inferInstanceAs
      (Decidable (tag = .seq ∨ tag.listsPairs = true ∧ ∀ item ∈ items, item.isSingle = true))
  | .mapping _ tag _ _ => inferInstanceAs (Decidable (tag = .map ∨ tag = .set))

def idsOf (pairs : List (Tree × Tree)) : List (NodeId × NodeId) :=
  pairs.map fun pair => (pair.1.id, pair.2.id)

def node : Tree → Node
  | .scalar _ tag start text => ⟨.scalar text, tag, start⟩
  | .sequence _ tag start items => ⟨.sequence (items.map id), tag, start⟩
  | .mapping _ tag start pairs => ⟨.mapping (idsOf pairs), tag, start⟩

theorem tag_node (t : Tree) : t.node.tag = t.tag := by
  cases t <;> rfl

theorem kind_node (t : Tree) : t.node.kind = t.kind := by
  cases t <;> rfl

theorem start_node (t : Tree) : t.node.start = t.start := by
  cases t <;> rfl

theorem content_mapping (t : Tree) (isMapping : t.kind = .mapping) :
    t.node.content = .mapping (idsOf t.pairs) := by
  cases t with
  | scalar id tag start text => cases isMapping
  | sequence id tag start items => cases isMapping
  | mapping id tag start pairs => rfl

mutual

def height : Tree → Nat
  | .scalar _ _ _ _ => 1
  | .sequence _ _ _ items => itemHeight items + 1
  | .mapping _ _ _ pairs => pairHeight pairs + 1

def itemHeight : List Tree → Nat
  | [] => 0
  | item :: rest => max item.height (itemHeight rest)

def pairHeight : List (Tree × Tree) → Nat
  | [] => 0
  | (key, value) :: rest => max (max key.height value.height) (pairHeight rest)

end

mutual

def parts : Tree → List Tree
  | .scalar id tag start text => [.scalar id tag start text]
  | .sequence id tag start items => .sequence id tag start items :: itemParts items
  | .mapping id tag start pairs => .mapping id tag start pairs :: pairParts pairs

def itemParts : List Tree → List Tree
  | [] => []
  | item :: rest => item.parts ++ itemParts rest

def pairParts : List (Tree × Tree) → List Tree
  | [] => []
  | (key, value) :: rest => key.parts ++ (value.parts ++ pairParts rest)

end

theorem itemHeight_le_iff (items : List Tree) (n : Nat) :
    itemHeight items ≤ n ↔ ∀ item ∈ items, item.height ≤ n := by
  induction items with
  | nil => simp [itemHeight]
  | cons item rest ih => simp [itemHeight, ih]

theorem pairHeight_le_iff (pairs : List (Tree × Tree)) (n : Nat) :
    pairHeight pairs ≤ n ↔ ∀ pair ∈ pairs, pair.1.height ≤ n ∧ pair.2.height ≤ n := by
  induction pairs with
  | nil => simp [pairHeight]
  | cons pair rest ih => simp [pairHeight, ih, and_assoc]

theorem height_le_iff (t : Tree) (n : Nat) :
    t.height ≤ n + 1 ↔ ∀ child ∈ t.children, child.height ≤ n := by
  cases t with
  | scalar id tag start text => simp [height, children]
  | sequence id tag start items => simp [height, children, itemHeight_le_iff]
  | mapping id tag start pairs =>
    simp only [height, children, Nat.add_le_add_iff_right, pairHeight_le_iff, List.mem_flatMap]
    constructor
    · rintro bound child ⟨pair, member, which⟩
      have both := bound pair member
      rcases List.mem_cons.mp which with rfl | which
      · exact both.1
      · rw [List.mem_singleton.mp which]
        exact both.2
    · intro bound pair member
      exact ⟨bound pair.1 ⟨pair, member, by simp⟩, bound pair.2 ⟨pair, member, by simp⟩⟩

theorem height_pos (t : Tree) : 0 < t.height := by
  cases t <;> simp [height]

theorem height_lt_of_child (t child : Tree) (below : child ∈ t.children) :
    child.height < t.height := by
  have positive := t.height_pos
  obtain ⟨n, whole⟩ : ∃ n, t.height = n + 1 := ⟨t.height - 1, by omega⟩
  have bound := (height_le_iff t n).mp (by omega) child below
  omega

theorem itemParts_eq (items : List Tree) : itemParts items = items.flatMap parts := by
  induction items with
  | nil => rfl
  | cons item rest ih => rw [itemParts, ih, List.flatMap_cons]

theorem pairParts_eq (pairs : List (Tree × Tree)) :
    pairParts pairs = (pairs.flatMap fun pair => [pair.1, pair.2]).flatMap parts := by
  induction pairs with
  | nil => rfl
  | cons pair rest ih =>
    simp only [pairParts, ih, List.flatMap_cons, List.flatMap_append, List.flatMap_nil,
      List.append_nil, List.append_assoc]

theorem parts_eq (t : Tree) : t.parts = t :: t.children.flatMap parts := by
  cases t with
  | scalar id tag start text => rfl
  | sequence id tag start items => rw [parts, itemParts_eq, children]
  | mapping id tag start pairs => rw [parts, pairParts_eq, children]

theorem mem_parts_self (t : Tree) : t ∈ t.parts := by
  rw [parts_eq]
  exact List.mem_cons_self ..

theorem mem_parts_iff (s t : Tree) :
    s ∈ t.parts ↔ s = t ∨ ∃ child ∈ t.children, s ∈ child.parts := by
  rw [parts_eq, List.mem_cons, List.mem_flatMap]

theorem induction {motive : Tree → Prop}
    (step : ∀ t, (∀ child ∈ t.children, motive child) → motive t) (t : Tree) : motive t := by
  -- The lists of children have no induction of their own, so this goes by the height.
  induction bound : t.height using Nat.strong_induction_on generalizing t with
  | h n ih =>
    refine step t fun child below => ?_
    have smaller := t.height_lt_of_child child below
    exact ih child.height (by omega) child rfl

theorem parts_trans (r s t : Tree) (inner : r ∈ s.parts) (outer : s ∈ t.parts) : r ∈ t.parts := by
  induction t using Tree.induction with
  | step t ih =>
    rcases (mem_parts_iff s t).mp outer with rfl | ⟨child, below, within⟩
    · exact inner
    · exact (mem_parts_iff r t).mpr (.inr ⟨child, below, ih child below within⟩)

theorem mem_parts_of_child (child t : Tree) (below : child ∈ t.children) : child ∈ t.parts :=
  (mem_parts_iff child t).mpr (.inr ⟨child, below, child.mem_parts_self⟩)

theorem height_le_of_part (s t : Tree) (within : s ∈ t.parts) : s.height ≤ t.height := by
  induction t using Tree.induction with
  | step t ih =>
    rcases (mem_parts_iff s t).mp within with rfl | ⟨child, below, within⟩
    · exact Nat.le_refl _
    · exact Nat.le_trans (ih child below within) (Nat.le_of_lt (height_lt_of_child t child below))

end Tree

namespace Graph

def isSingle (g : Graph) (id : NodeId) : Bool :=
  match (g.node id).content with
  | .mapping [(key, _)] => !(g.node key).tag == .merge
  | _ => false

def FitsAt (g : Graph) (id : NodeId) : Prop :=
  match (g.node id).content with
  | .scalar _ => (g.node id).tag.isOfScalar
  | .sequence items =>
      (g.node id).tag = .seq ∨ (g.node id).tag.listsPairs ∧ ∀ item ∈ items, g.isSingle item = true
  | .mapping _ => (g.node id).tag = .map ∨ (g.node id).tag = .set

instance (g : Graph) (id : NodeId) : Decidable (g.FitsAt id) :=
  match content : (g.node id).content with
  | .scalar _ => decidable_of_iff ((g.node id).tag.isOfScalar = true) (by rw [FitsAt, content])
  | .sequence items =>
      decidable_of_iff ((g.node id).tag = .seq ∨ (g.node id).tag.listsPairs = true ∧
        ∀ item ∈ items, g.isSingle item = true) (by rw [FitsAt, content])
  | .mapping _ =>
      decidable_of_iff ((g.node id).tag = .map ∨ (g.node id).tag = .set) (by rw [FitsAt, content])

end Graph

namespace Tree

def Stands (g : Graph) (t : Tree) : Prop := ∀ s ∈ t.parts, g.node s.id = s.node

instance (g : Graph) (t : Tree) : Decidable (t.Stands g) :=
  inferInstanceAs (Decidable (∀ s ∈ t.parts, g.node s.id = s.node))

theorem Stands.here (g : Graph) (t : Tree) (stands : t.Stands g) : g.node t.id = t.node :=
  stands t t.mem_parts_self

theorem Stands.part (g : Graph) (s t : Tree) (stands : t.Stands g) (within : s ∈ t.parts) :
    s.Stands g :=
  fun r inner => stands r (parts_trans r s t inner within)

theorem Stands.child (g : Graph) (child t : Tree) (stands : t.Stands g)
    (below : child ∈ t.children) :
    child.Stands g :=
  stands.part g child t (mem_parts_of_child child t below)

theorem Stands.of_children (g : Graph) (t : Tree) (here : g.node t.id = t.node)
    (below : ∀ child ∈ t.children, child.Stands g) : t.Stands g := by
  intro s within
  rcases (mem_parts_iff s t).mp within with rfl | ⟨child, member, within⟩
  · exact here
  · exact below child member s within

def Unfolds (g : Graph) (t : Tree) : Prop := ∀ s ∈ t.parts, g.node s.id = s.node ∧ s.Fits

instance (g : Graph) (t : Tree) : Decidable (t.Unfolds g) :=
  inferInstanceAs (Decidable (∀ s ∈ t.parts, g.node s.id = s.node ∧ s.Fits))

theorem Unfolds.stands (g : Graph) (t : Tree) (unfolds : t.Unfolds g) : t.Stands g :=
  fun s within => (unfolds s within).1

theorem Unfolds.here (g : Graph) (t : Tree) (unfolds : t.Unfolds g) : g.node t.id = t.node :=
  (unfolds t t.mem_parts_self).1

theorem Unfolds.fits (g : Graph) (t : Tree) (unfolds : t.Unfolds g) : t.Fits :=
  (unfolds t t.mem_parts_self).2

theorem Unfolds.part (g : Graph) (s t : Tree) (unfolds : t.Unfolds g) (within : s ∈ t.parts) :
    s.Unfolds g :=
  fun r inner => unfolds r (parts_trans r s t inner within)

theorem Unfolds.child (g : Graph) (child t : Tree) (unfolds : t.Unfolds g)
    (below : child ∈ t.children) : child.Unfolds g :=
  unfolds.part g child t (mem_parts_of_child child t below)

theorem eq_of_ids (g : Graph) (xs ys : List Tree)
    (left : ∀ x ∈ xs, ∀ y, y.Stands g → x.id = y.id → x = y)
    (right : ∀ y ∈ ys, y.Stands g) (same : xs.map id = ys.map id) : xs = ys := by
  induction xs generalizing ys with
  | nil =>
    cases ys with
    | nil => rfl
    | cons y ys => cases same
  | cons x xs ih =>
    cases ys with
    | nil => cases same
    | cons y ys =>
      rw [List.map_cons, List.map_cons, List.cons.injEq] at same
      have head : x = y := left x (List.mem_cons_self ..) y (right y (List.mem_cons_self ..)) same.1
      have tail : xs = ys := ih ys (fun x member => left x (List.mem_cons_of_mem _ member))
        (fun y member => right y (List.mem_cons_of_mem _ member)) same.2
      rw [head, tail]

theorem eq_of_pairIds (g : Graph) (ps qs : List (Tree × Tree))
    (left : ∀ p ∈ ps, ∀ y, y.Stands g → (p.1.id = y.id → p.1 = y) ∧ (p.2.id = y.id → p.2 = y))
    (right : ∀ q ∈ qs, q.1.Stands g ∧ q.2.Stands g) (same : idsOf ps = idsOf qs) : ps = qs := by
  induction ps generalizing qs with
  | nil =>
    cases qs with
    | nil => rfl
    | cons q qs => cases same
  | cons p ps ih =>
    cases qs with
    | nil => cases same
    | cons q qs =>
      rw [idsOf, idsOf, List.map_cons, List.map_cons, List.cons.injEq, Prod.mk.injEq] at same
      obtain ⟨⟨keys, values⟩, rest⟩ := same
      have here := right q (List.mem_cons_self ..)
      have key : p.1 = q.1 := (left p (List.mem_cons_self ..) q.1 here.1).1 keys
      have value : p.2 = q.2 := (left p (List.mem_cons_self ..) q.2 here.2).2 values
      have tail : ps = qs := ih qs (fun p member => left p (List.mem_cons_of_mem _ member))
        (fun q member => right q (List.mem_cons_of_mem _ member)) rest
      rw [tail, Prod.ext key value]

theorem mem_children_mapping (id : NodeId) (tag : Tag) (start : Position)
    (pairs : List (Tree × Tree)) (pair : Tree × Tree) (member : pair ∈ pairs) :
    pair.1 ∈ (Tree.mapping id tag start pairs).children ∧
      pair.2 ∈ (Tree.mapping id tag start pairs).children := by
  constructor
  · exact List.mem_flatMap.mpr ⟨pair, member, by simp⟩
  · exact List.mem_flatMap.mpr ⟨pair, member, by simp⟩

theorem mem_children_of_pair (t : Tree) (pair : Tree × Tree) (member : pair ∈ t.pairs) :
    pair.1 ∈ t.children ∧ pair.2 ∈ t.children := by
  cases t with
  | scalar id tag start text => cases member
  | sequence id tag start items => cases member
  | mapping id tag start pairs => exact mem_children_mapping id tag start pairs pair member

theorem Stands.unique (g : Graph) (s t : Tree) (left : s.Stands g) (right : t.Stands g)
    (same : s.id = t.id) : s = t := by
  induction s using Tree.induction generalizing t with
  | step s ih =>
    -- One number means one node, and so the children have the same numbers too.
    have nodes : s.node = t.node := by
      rw [← left.here g s, ← right.here g t, same]
    cases s with
    | scalar id tag start text =>
      cases t <;> simp only [node, Node.mk.injEq, Content.scalar.injEq, reduceCtorEq,
        false_and] at nodes
      obtain ⟨rfl, rfl, rfl⟩ := nodes
      rw [show id = _ from same]
      rfl
    | sequence id tag start items =>
      cases t <;>
        simp only [node, Node.mk.injEq, Content.sequence.injEq, reduceCtorEq, false_and] at nodes
      next other kind place others =>
      obtain ⟨items', rfl, rfl⟩ := nodes
      have lists : items = others := by
        refine eq_of_ids g items others ?_ (fun y member => right.child g y _ member) items'
        intro x member y stands same
        exact ih x member y (left.child g x _ member) stands same
      rw [show id = other from same, lists]
    | mapping id tag start pairs =>
      cases t <;>
        simp only [node, Node.mk.injEq, Content.mapping.injEq, reduceCtorEq, false_and] at nodes
      next other kind place others =>
      obtain ⟨pairs', rfl, rfl⟩ := nodes
      have lists : pairs = others := by
        refine eq_of_pairIds g pairs others ?_ ?_ pairs'
        · intro p member y stands
          have below := mem_children_mapping id tag start pairs p member
          exact ⟨ih p.1 below.1 y (left.child g _ _ below.1) stands,
            ih p.2 below.2 y (left.child g _ _ below.2) stands⟩
        · intro q member
          have below := mem_children_mapping other tag start others q member
          exact ⟨right.child g _ _ below.1, right.child g _ _ below.2⟩
      rw [show id = other from same, lists]

theorem Stands.id_ne_of_below (g : Graph) (s child t : Tree) (stands : t.Stands g)
    (below : child ∈ t.children) (within : s ∈ child.parts) : s.id ≠ t.id := by
  intro same
  -- Then the tree would be a part of its own child, which is not as high.
  have part : s ∈ t.parts := parts_trans s child t within (mem_parts_of_child child t below)
  have equal : s = t := (stands.part g s t part).unique g s t stands same
  have bound := height_le_of_part s child within
  have smaller := height_lt_of_child t child below
  rw [equal] at bound
  omega

theorem Unfolds.unique (g : Graph) (s t : Tree) (left : s.Unfolds g) (right : t.Unfolds g)
    (same : s.id = t.id) : s = t :=
  (left.stands g s).unique g s t (right.stands g t) same

end Tree

namespace Graph

def Holds (g : Graph) (holder held : NodeId) : Prop := held ∈ (g.node holder).content.children

def Reachable (g : Graph) (id : NodeId) : Prop := Relation.ReflTransGen g.Holds g.root id

def Acyclic (g : Graph) : Prop := ∀ id, g.Reachable id → ¬ Relation.TransGen g.Holds id id

def Fits (g : Graph) : Prop := ∀ id, g.Reachable id → g.FitsAt id

theorem lt_size_of_isCollection (g : Graph) (id : NodeId)
    (collection : (g.node id).isCollection = true) : id < g.nodes.size := by
  by_contra outside
  have missing : g.node id = default := by simp [node, Array.getD, outside]
  rw [missing] at collection
  contradiction

theorem isCollection_of_holds (g : Graph) (holder held : NodeId) (holds : g.Holds holder held) :
    (g.node holder).isCollection = true := by
  rw [Holds] at holds
  rw [Node.isCollection, Node.kind]
  cases content : (g.node holder).content with
  | scalar text =>
    rw [content] at holds
    contradiction
  | sequence items => rfl
  | mapping pairs => rfl

theorem lt_size_of_holds (g : Graph) (holder held : NodeId) (holds : g.Holds holder held) :
    holder < g.nodes.size :=
  g.lt_size_of_isCollection holder (g.isCollection_of_holds holder held holds)

theorem no_cycle_of_rank (g : Graph) (rank : NodeId → Nat)
    (falls : ∀ holder < g.nodes.size, ∀ held ∈ (g.node holder).content.children,
      rank held < rank holder) (id : NodeId) : ¬ Relation.TransGen g.Holds id id := by
  have below (holder held : NodeId) (path : Relation.TransGen g.Holds holder held) :
      rank held < rank holder := by
    induction path with
    | single holds => exact falls _ (g.lt_size_of_holds _ _ holds) _ holds
    | tail _ holds smaller =>
      have step := falls _ (g.lt_size_of_holds _ _ holds) _ holds
      omega
  exact fun cycle => Nat.lt_irrefl _ (below id id cycle)

theorem acyclic_of_rank (g : Graph) (rank : NodeId → Nat)
    (falls : ∀ holder < g.nodes.size, ∀ held ∈ (g.node holder).content.children,
      rank held < rank holder) : g.Acyclic :=
  fun id _ => g.no_cycle_of_rank rank falls id

theorem lt_size_of_reachable (g : Graph) (root : g.root < g.nodes.size)
    (inside : ∀ holder < g.nodes.size, ∀ held ∈ (g.node holder).content.children,
      held < g.nodes.size) (id : NodeId) (reachable : g.Reachable id) : id < g.nodes.size := by
  induction reachable with
  | refl => exact root
  | tail _ holds _ => exact inside _ (g.lt_size_of_holds _ _ holds) _ holds

open Classical in
noncomputable def below (g : Graph) (id : NodeId) : Finset NodeId :=
  (Finset.range g.nodes.size).filter fun other => Relation.ReflTransGen g.Holds id other

theorem card_below_lt (g : Graph) (holder held : NodeId)
    (acyclic : ¬Relation.TransGen g.Holds holder holder) (holds : g.Holds holder held) :
    (g.below held).card < (g.below holder).card := by
  refine Finset.card_lt_card (Finset.ssubset_iff_of_subset ?_ |>.mpr ⟨holder, ?_, ?_⟩)
  · intro other member
    simp only [below, Finset.mem_filter] at member ⊢
    exact ⟨member.1, .head holds member.2⟩
  · simp only [below, Finset.mem_filter, Finset.mem_range]
    exact ⟨g.lt_size_of_holds holder held holds, .refl⟩
  · intro member
    simp only [below, Finset.mem_filter] at member
    exact acyclic (.head' holds member.2)

open Classical in
theorem card_below_le (g : Graph) (id : NodeId) : (g.below id).card ≤ g.nodes.size := by
  have bound : (g.below id).card ≤ (Finset.range g.nodes.size).card := Finset.card_filter_le _ _
  rw [Finset.card_range] at bound
  exact bound

end Graph

namespace Tree

theorem exists_list (P : NodeId → Tree → Prop) (ids : List NodeId)
    (each : ∀ id ∈ ids, ∃ t, P id t ∧ t.id = id) :
    ∃ trees : List Tree, trees.map id = ids ∧ ∀ t ∈ trees, P t.id t := by
  induction ids with
  | nil => exact ⟨[], rfl, by simp⟩
  | cons id rest ih =>
    obtain ⟨t, holds, rfl⟩ := each id (List.mem_cons_self ..)
    obtain ⟨trees, rfl, all⟩ := ih fun id member => each id (List.mem_cons_of_mem _ member)
    exact ⟨t :: trees, rfl, by simpa using ⟨holds, all⟩⟩

theorem exists_pairs (P : NodeId → Tree → Prop) (ids : List (NodeId × NodeId))
    (each : ∀ pair ∈ ids, (∃ t, P pair.1 t ∧ t.id = pair.1) ∧ ∃ t, P pair.2 t ∧ t.id = pair.2) :
    ∃ pairs, idsOf pairs = ids ∧ ∀ pair ∈ pairs, P pair.1.id pair.1 ∧ P pair.2.id pair.2 := by
  induction ids with
  | nil => exact ⟨[], rfl, by simp⟩
  | cons pair rest ih =>
    obtain ⟨⟨k, key, keyId⟩, ⟨v, value, valueId⟩⟩ := each pair (List.mem_cons_self ..)
    obtain ⟨pairs, same, all⟩ := ih fun pair member => each pair (List.mem_cons_of_mem _ member)
    refine ⟨(k, v) :: pairs, ?_, ?_⟩
    · rw [idsOf, List.map_cons, keyId, valueId, ← same]
      rfl
    · intro other member
      rcases List.mem_cons.mp member with rfl | member
      · rw [keyId, valueId]
        exact ⟨key, value⟩
      · exact all other member

theorem exists_standing_of (g : Graph) (n : Nat) (id : NodeId)
    (acyclic : ∀ other, Relation.ReflTransGen g.Holds id other →
      ¬Relation.TransGen g.Holds other other)
    (bound : (g.below id).card ≤ n) : ∃ t : Tree, (t.Stands g ∧ t.height ≤ n + 1) ∧ t.id = id := by
  induction n using Nat.strong_induction_on generalizing id with
  | h n ih =>
    -- What a node holds leads to fewer nodes, since there is no way back from it.
    have held (child : NodeId) (holds : g.Holds id child) :
        ∃ t : Tree, (t.Stands g ∧ t.height ≤ n) ∧ t.id = child := by
      have smaller := g.card_below_lt id child (acyclic id .refl) holds
      obtain ⟨t, ⟨stands, small⟩, same⟩ :=
        ih (n - 1) (by omega) child (fun other path => acyclic other (.head holds path)) (by omega)
      exact ⟨t, ⟨stands, by omega⟩, same⟩
    cases node : g.node id with
    | mk content tag start =>
      simp only [Graph.Holds, node] at held
      cases content with
      | scalar text =>
        refine ⟨.scalar id tag start text, ⟨?_, ?_⟩, rfl⟩
        · exact .of_children g _ node (by simp [children])
        · exact (height_le_iff _ n).mpr (by simp [children])
      | sequence items =>
        obtain ⟨trees, rfl, all⟩ := exists_list (fun _ t => t.Stands g ∧ t.height ≤ n) items held
        refine ⟨.sequence id tag start trees, ⟨?_, ?_⟩, rfl⟩
        · exact .of_children g _ node fun child member => (all child member).1
        · exact (height_le_iff _ n).mpr fun child member => (all child member).2
      | mapping pairs =>
        have each (pair : NodeId × NodeId) (member : pair ∈ pairs) :
            (∃ t : Tree, (t.Stands g ∧ t.height ≤ n) ∧ t.id = pair.1) ∧
              ∃ t : Tree, (t.Stands g ∧ t.height ≤ n) ∧ t.id = pair.2 :=
          ⟨held _ (List.mem_flatMap.mpr ⟨pair, member, by simp⟩),
            held _ (List.mem_flatMap.mpr ⟨pair, member, by simp⟩)⟩
        obtain ⟨trees, rfl, all⟩ :=
          exists_pairs (fun _ t => t.Stands g ∧ t.height ≤ n) pairs each
        have below (child : Tree) (member : child ∈ (Tree.mapping id tag start trees).children) :
            child.Stands g ∧ child.height ≤ n := by
          obtain ⟨pair, there, which⟩ := List.mem_flatMap.mp member
          rcases List.mem_cons.mp which with rfl | which
          · exact (all pair there).1
          · rw [List.mem_singleton.mp which]
            exact (all pair there).2
        refine ⟨.mapping id tag start trees, ⟨?_, ?_⟩, rfl⟩
        · exact .of_children g _ node fun child member => (below child member).1
        · exact (height_le_iff _ n).mpr fun child member => (below child member).2

theorem Stands.holds (g : Graph) (child t : Tree) (stands : t.Stands g)
    (below : child ∈ t.children) :
    g.Holds t.id child.id := by
  rw [Graph.Holds, stands.here]
  cases t with
  | scalar id tag start text => cases below
  | sequence id tag start items => exact List.mem_map_of_mem below
  | mapping id tag start pairs =>
    obtain ⟨pair, member, which⟩ := List.mem_flatMap.mp below
    refine List.mem_flatMap.mpr ⟨_, List.mem_map_of_mem member, ?_⟩
    simpa using (List.mem_map_of_mem (f := Tree.id) which)

theorem Stands.reaches (g : Graph) (s t : Tree) (stands : t.Stands g) (within : s ∈ t.parts) :
    Relation.ReflTransGen g.Holds t.id s.id := by
  induction t using Tree.induction with
  | step t ih =>
    rcases (mem_parts_iff s t).mp within with rfl | ⟨child, below, within⟩
    · exact .refl
    · exact .head (stands.holds g child t below)
        (ih child below (stands.child g child t below) within)

theorem Stands.isSingle (g : Graph) (t : Tree) (stands : t.Stands g) :
    g.isSingle t.id = t.isSingle := by
  rw [Graph.isSingle, stands.here]
  cases t with
  | scalar id tag start text => rfl
  | sequence id tag start items => rfl
  | mapping id tag start pairs =>
    cases pairs with
    | nil => rfl
    | cons pair rest =>
      cases rest with
      | cons other rest => rfl
      | nil =>
        have key : pair.1.Stands g := stands.child g pair.1 _ (List.mem_cons_self ..)
        change (!(g.node pair.1.id).tag == .merge) = !pair.1.isMerge
        rw [key.here, tag_node, isMerge]

theorem Stands.fits (g : Graph) (t : Tree) (stands : t.Stands g) (fits : g.FitsAt t.id) :
    t.Fits := by
  rw [Graph.FitsAt, stands.here] at fits
  cases t with
  | scalar id tag start text => exact fits
  | mapping id tag start pairs => exact fits
  | sequence id tag start items =>
    rcases fits with plain | ⟨lists, single⟩
    · exact .inl plain
    · refine .inr ⟨lists, fun item member => ?_⟩
      rw [← (stands.child g item _ member).isSingle]
      exact single item.id (List.mem_map_of_mem member)

theorem exists_unfolding_of (g : Graph) (acyclic : g.Acyclic) (fits : g.Fits)
    (n : Nat) (id : NodeId) (reachable : g.Reachable id) (bound : (g.below id).card ≤ n) :
    ∃ t : Tree, (t.Unfolds g ∧ t.height ≤ n + 1) ∧ t.id = id := by
  obtain ⟨t, ⟨stands, small⟩, rfl⟩ :=
    exists_standing_of g n id (fun other path => acyclic other (reachable.trans path)) bound
  refine ⟨t, ⟨fun s within => ⟨stands s within, ?_⟩, small⟩, rfl⟩
  exact (stands.part g s t within).fits g s
    (fits s.id (reachable.trans (stands.reaches g s t within)))

theorem exists_unfolding (g : Graph) (acyclic : g.Acyclic) (fits : g.Fits) :
    ∃ t : Tree, t.Unfolds g ∧ t.id = g.root ∧ t.height ≤ g.nodes.size + 1 := by
  obtain ⟨t, ⟨unfolds, small⟩, root⟩ := exists_unfolding_of g acyclic fits g.nodes.size g.root
    .refl (g.card_below_le g.root)
  exact ⟨t, unfolds, root, small⟩

end Tree

end LocaleLint.Yaml
