import LocaleLint.Proofs.Yaml.Tree
import LocaleLint.Yaml.Value.Build

set_option autoImplicit false

namespace LocaleLint.Yaml

namespace Tree

def own (pairs : List (Tree × Tree)) : List (Tree × Tree) :=
  pairs.filter fun pair => !pair.1.isMerge

mutual

-- What a tree gives to a mapping that starts at `start` and merges it.
def given (start : Position) : Tree → Except Stop (List (Tree × Tree))
  | .scalar _ _ place _ =>
      .error (.fault ⟨some .mappingValue, some start, .mergeSourcesExpected .scalar, place⟩)
  | .sequence _ _ _ items => do return (← listed start items).reverse.flatten
  | .mapping _ _ place pairs => do return (← merged place pairs) ++ own pairs

def listed (start : Position) : List Tree → Except Stop (List (List (Tree × Tree)))
  | [] => .ok []
  | item :: rest =>
      if item.kind == .mapping then do
        let first ← item.given start
        return first :: (← listed start rest)
      else .error (Build.noMergeSource start item.node)

def merged (start : Position) : List (Tree × Tree) → Except Stop (List (Tree × Tree))
  | [] => .ok []
  | (key, value) :: rest =>
      if key.isMerge then do
        let first ← value.given start
        return first ++ (← merged start rest)
      else merged start rest

end

def flattened : Tree → Except Stop (List (Tree × Tree))
  | .mapping _ _ start pairs => do return (← merged start pairs) ++ own pairs
  | _ => .ok []

mutual

-- The mappings that lose their merge keys when a tree is merged.
def flattens : Tree → List NodeId
  | .scalar _ _ _ _ => []
  | .sequence _ _ _ items => itemFlattens items
  | .mapping id _ _ pairs => id :: pairFlattens pairs

def itemFlattens : List Tree → List NodeId
  | [] => []
  | item :: rest => item.flattens ++ itemFlattens rest

def pairFlattens : List (Tree × Tree) → List NodeId
  | [] => []
  | (key, value) :: rest =>
      if key.isMerge then value.flattens ++ pairFlattens rest else pairFlattens rest

end

theorem given_mapping (start : Position) (t : Tree) (isMapping : t.kind = .mapping) :
    t.given start = t.flattened := by
  cases t with
  | mapping id tag place pairs => rfl
  | scalar id tag place text => cases isMapping
  | sequence id tag place items => cases isMapping

theorem flattened_eq (t : Tree) (isMapping : t.kind = .mapping) :
    t.flattened = (merged t.start t.pairs).map (· ++ own t.pairs) := by
  cases t with
  | mapping id tag start pairs =>
    rw [flattened, Tree.start, Tree.pairs]
    cases merged start pairs <;> rfl
  | scalar id tag start text => cases isMapping
  | sequence id tag start items => cases isMapping

theorem flattens_eq (t : Tree) (isMapping : t.kind = .mapping) :
    t.flattens = t.id :: pairFlattens t.pairs := by
  cases t with
  | mapping id tag start pairs => rfl
  | scalar id tag start text => cases isMapping
  | sequence id tag start items => cases isMapping

theorem flattened_of_merged (t : Tree) (isMapping : t.kind = .mapping)
    (inherited : List (Tree × Tree))
    (gives : merged t.start t.pairs = .ok inherited) :
    t.flattened = .ok (inherited ++ own t.pairs) := by
  cases t with
  | mapping id tag start pairs =>
    rw [flattened, show merged start pairs = _ from gives]
    rfl
  | scalar id tag start text => cases isMapping
  | sequence id tag start items => cases isMapping

theorem merged_of_taken (start : Position) (pairs others : List (Tree × Tree)) (source : Tree)
    (taken : Build.takeMerge? isMerge pairs = some (source, others)) :
    merged start pairs =
      source.given start >>= fun first => merged start others >>=
        fun more => .ok (first ++ more) := by
  induction pairs generalizing others with
  | nil => cases taken
  | cons pair rest ih =>
    obtain ⟨key, value⟩ := pair
    by_cases merges : key.isMerge = true
    next =>
      simp only [Build.takeMerge?, merges, if_true, Option.some.injEq, Prod.mk.injEq] at taken
      obtain ⟨rfl, rfl⟩ := taken
      simp only [merged, merges, if_true]
      rfl
    next =>
      simp only [Build.takeMerge?, merges, Bool.false_eq_true, if_false, Option.map_eq_some_iff]
        at taken
      obtain ⟨⟨found, left⟩, taken, same⟩ := taken
      cases same
      simp only [merged, merges, Bool.false_eq_true, if_false]
      exact ih left taken

theorem merged_of_plain (start : Position) (pairs : List (Tree × Tree))
    (plain : ∀ pair ∈ pairs, pair.1.isMerge = false) :
    merged start pairs = .ok [] ∧ own pairs = pairs ∧ pairFlattens pairs = [] := by
  induction pairs with
  | nil => exact ⟨rfl, rfl, rfl⟩
  | cons pair rest ih =>
    obtain ⟨key, value⟩ := pair
    have here : key.isMerge = false := plain (key, value) (List.mem_cons_self ..)
    obtain ⟨nothing, owns, none⟩ := ih fun pair member => plain pair (List.mem_cons_of_mem _ member)
    refine ⟨?_, ?_, ?_⟩
    · simp only [merged, here, Bool.false_eq_true, if_false, nothing]
    · rw [own] at owns
      simp only [own, List.filter_cons, here, Bool.not_false, if_true, owns]
    · simp only [pairFlattens, here, Bool.false_eq_true, if_false, none]

theorem takeMerge?_eq_none (pairs : List (Tree × Tree))
    (taken : Build.takeMerge? isMerge pairs = none) : ∀ pair ∈ pairs, pair.1.isMerge = false := by
  induction pairs with
  | nil => simp
  | cons pair rest ih =>
    obtain ⟨key, value⟩ := pair
    by_cases merges : key.isMerge = true
    · simp only [Build.takeMerge?, merges, if_true, reduceCtorEq] at taken
    · simp only [Build.takeMerge?, merges, Bool.false_eq_true, if_false, Option.map_eq_none_iff]
        at taken
      intro other member
      rcases List.mem_cons.mp member with rfl | member
      · simpa using merges
      · exact ih taken other member

theorem takeMerge?_eq_some (pairs others : List (Tree × Tree)) (source : Tree)
    (taken : Build.takeMerge? isMerge pairs = some (source, others)) :
    (∃ key, (key, source) ∈ pairs) ∧ (∀ pair ∈ others, pair ∈ pairs) ∧
      others.countP (·.1.isMerge) < pairs.countP (·.1.isMerge) ∧ own others = own pairs ∧
        ∀ id, id ∈ pairFlattens pairs ↔ id ∈ source.flattens ∨ id ∈ pairFlattens others := by
  induction pairs generalizing others with
  | nil => cases taken
  | cons pair rest ih =>
    obtain ⟨key, value⟩ := pair
    by_cases merges : key.isMerge = true
    · simp only [Build.takeMerge?, merges, if_true, Option.some.injEq, Prod.mk.injEq] at taken
      obtain ⟨rfl, rfl⟩ := taken
      refine ⟨⟨key, List.mem_cons_self ..⟩, fun pair member => List.mem_cons_of_mem _ member,
        by simp [merges], ?_, ?_⟩
      · simp [own, merges]
      · intro id
        simp only [pairFlattens, merges, if_true, List.mem_append]
    · simp only [Build.takeMerge?, merges, Bool.false_eq_true, if_false, Option.map_eq_some_iff]
        at taken
      obtain ⟨⟨found, left⟩, taken, same⟩ := taken
      cases same
      obtain ⟨⟨other, there⟩, subset, shorter, owns, flattened⟩ := ih left taken
      refine ⟨⟨other, List.mem_cons_of_mem _ there⟩, ?_, by simpa [merges] using shorter, ?_, ?_⟩
      · intro pair member
        rcases List.mem_cons.mp member with rfl | member
        · exact List.mem_cons_self ..
        · exact List.mem_cons_of_mem _ (subset pair member)
      · simpa [own, merges] using owns
      · intro id
        simp only [pairFlattens, merges, Bool.false_eq_true, if_false]
        exact flattened id

theorem takeMerge?_idsOf (isMergeId : NodeId → Bool) (pairs : List (Tree × Tree))
    (agree : ∀ pair ∈ pairs, isMergeId pair.1.id = pair.1.isMerge) :
    Build.takeMerge? isMergeId (idsOf pairs) =
      (Build.takeMerge? isMerge pairs).map fun taken => (taken.1.id, idsOf taken.2) := by
  induction pairs with
  | nil => rfl
  | cons pair rest ih =>
    obtain ⟨key, value⟩ := pair
    have here : isMergeId key.id = key.isMerge := agree _ (List.mem_cons_self ..)
    have later := ih fun pair member => agree pair (List.mem_cons_of_mem _ member)
    by_cases merges : key.isMerge = true
    · simp [idsOf, Build.takeMerge?, here, merges]
    · simp only [idsOf, List.map_cons, Build.takeMerge?, here, merges, Bool.false_eq_true, if_false,
        Option.map_map]
      rw [show rest.map _ = idsOf rest from rfl, later, Option.map_map]
      rfl

theorem eq_of_single (t : Tree) (single : t.isSingle = true) :
    ∃ id tag start key value, t = .mapping id tag start [(key, value)] ∧ key.isMerge = false := by
  cases t with
  | scalar id tag start text => cases single
  | sequence id tag start items => cases single
  | mapping id tag start pairs =>
    cases pairs with
    | nil => cases single
    | cons pair rest =>
      cases rest with
      | cons other rest => cases single
      | nil => exact ⟨id, tag, start, pair.1, pair.2, rfl, by simpa [isSingle] using single⟩

def Below (s t : Tree) : Prop := ∃ child ∈ t.children, s ∈ child.parts

theorem Below.part (s t : Tree) (below : Below s t) : s ∈ t.parts :=
  (mem_parts_iff s t).mpr (.inr below)

theorem Below.height_lt (s t : Tree) (below : Below s t) : s.height < t.height := by
  obtain ⟨child, member, within⟩ := below
  have inner := height_le_of_part s child within
  have outer := height_lt_of_child t child member
  omega

theorem Below.trans_child (child s t : Tree) (below : Below s t) (inner : child ∈ s.children) :
    Below child t := by
  obtain ⟨outer, member, within⟩ := below
  exact ⟨outer, member, parts_trans child s outer (mem_parts_of_child child s inner) within⟩

theorem Below.of_child (child t : Tree) (below : child ∈ t.children) : Below child t :=
  ⟨child, below, child.mem_parts_self⟩

theorem below_induction {motive : Tree → Prop}
    (step : ∀ t, (∀ s, Below s t → motive s) → motive t) (t : Tree) : motive t := by
  induction bound : t.height using Nat.strong_induction_on generalizing t with
  | h n ih =>
    refine step t fun s below => ?_
    have smaller := below.height_lt s t
    exact ih s.height (by omega) s rfl

theorem merged_of_not_merge (start : Position) (key value : Tree) (rest : List (Tree × Tree))
    (plain : ¬ key.isMerge = true) : merged start ((key, value) :: rest) = merged start rest := by
  simp only [merged, plain, Bool.false_eq_true, if_false]

theorem merged_eq_ok (start : Position) (key value : Tree) (rest more : List (Tree × Tree))
    (merges : key.isMerge = true) (gives : merged start ((key, value) :: rest) = .ok more) :
    ∃ early late, value.given start = .ok early ∧ merged start rest = .ok late ∧
      more = early ++ late := by
  simp only [merged, merges, if_true] at gives
  cases first : value.given start with
  | error stop =>
    rw [first] at gives
    cases gives
  | ok early =>
    cases others : merged start rest with
    | error stop =>
      rw [first, others] at gives
      cases gives
    | ok late =>
      rw [first, others] at gives
      cases gives
      exact ⟨early, late, rfl, rfl, rfl⟩

theorem listed_eq_ok (start : Position) (item : Tree) (rest : List Tree)
    (lists : List (List (Tree × Tree))) (gives : listed start (item :: rest) = .ok lists) :
    ∃ early late, item.given start = .ok early ∧ listed start rest = .ok late ∧
      lists = early :: late := by
  simp only [listed] at gives
  split at gives
  · cases first : item.given start with
    | error stop =>
      rw [first] at gives
      cases gives
    | ok early =>
      cases others : listed start rest with
      | error stop =>
        rw [first, others] at gives
        cases gives
      | ok late =>
        rw [first, others] at gives
        cases gives
        exact ⟨early, late, rfl, rfl, rfl⟩
  · cases gives

theorem given_sequence_eq_ok (start : Position) (id : NodeId) (tag : Tag) (place : Position)
    (items : List Tree) (entries : List (Tree × Tree))
    (gives : (Tree.sequence id tag place items).given start = .ok entries) :
    ∃ lists, listed start items = .ok lists ∧ entries = lists.reverse.flatten := by
  simp only [given] at gives
  cases lists : listed start items with
  | error stop =>
    rw [lists] at gives
    cases gives
  | ok found =>
    rw [lists] at gives
    cases gives
    exact ⟨found, rfl, rfl⟩

theorem given_mapping_eq_ok (start : Position) (id : NodeId) (tag : Tag) (place : Position)
    (pairs entries : List (Tree × Tree))
    (gives : (Tree.mapping id tag place pairs).given start = .ok entries) :
    ∃ more, merged place pairs = .ok more ∧ entries = more ++ own pairs := by
  simp only [given] at gives
  cases more : merged place pairs with
  | error stop =>
    rw [more] at gives
    cases gives
  | ok found =>
    rw [more] at gives
    cases gives
    exact ⟨found, rfl, rfl⟩

theorem flattened_eq_ok (t : Tree) (isMapping : t.kind = .mapping) (entries : List (Tree × Tree))
    (gives : t.flattened = .ok entries) :
    ∃ more, merged t.start t.pairs = .ok more ∧ entries = more ++ own t.pairs := by
  cases t with
  | mapping id tag start pairs => exact given_mapping_eq_ok start id tag start pairs entries gives
  | scalar id tag start text => cases isMapping
  | sequence id tag start items => cases isMapping

theorem mem_merged (start : Position) (pairs more : List (Tree × Tree))
    (gives : merged start pairs = .ok more) (entry : Tree × Tree) (member : entry ∈ more) :
    ∃ pair ∈ pairs, ∃ first, pair.2.given start = .ok first ∧ entry ∈ first := by
  induction pairs generalizing more with
  | nil =>
    cases gives
    cases member
  | cons pair rest ih =>
    obtain ⟨key, value⟩ := pair
    by_cases merges : key.isMerge = true
    · obtain ⟨early, late, first, others, rfl⟩ :=
        merged_eq_ok start key value rest more merges gives
      rcases List.mem_append.mp member with member | member
      · exact ⟨(key, value), List.mem_cons_self .., early, first, member⟩
      · obtain ⟨other, there, found⟩ := ih late others member
        exact ⟨other, List.mem_cons_of_mem _ there, found⟩
    · rw [merged_of_not_merge start key value rest merges] at gives
      obtain ⟨other, there, found⟩ := ih more gives member
      exact ⟨other, List.mem_cons_of_mem _ there, found⟩

theorem mem_listed (start : Position) (items : List Tree) (lists : List (List (Tree × Tree)))
    (gives : listed start items = .ok lists) (list : List (Tree × Tree)) (member : list ∈ lists) :
    ∃ item ∈ items, item.given start = .ok list := by
  induction items generalizing lists with
  | nil =>
    cases gives
    cases member
  | cons item rest ih =>
    obtain ⟨early, late, first, others, rfl⟩ := listed_eq_ok start item rest lists gives
    rcases List.mem_cons.mp member with rfl | member
    · exact ⟨item, List.mem_cons_self .., first⟩
    · obtain ⟨other, there, found⟩ := ih late others member
      exact ⟨other, List.mem_cons_of_mem _ there, found⟩

theorem below_of_given (start : Position) (t : Tree) (entries : List (Tree × Tree))
    (gives : t.given start = .ok entries) (entry : Tree × Tree) (member : entry ∈ entries) :
    Below entry.1 t ∧ Below entry.2 t ∧ entry.1.isMerge = false := by
  induction t using Tree.induction generalizing start entries entry with
  | step t ih =>
    -- What a child gives stands below the child, and so below the tree.
    have inward (child : Tree) (below : child ∈ t.children) (place : Position)
        (first : List (Tree × Tree)) (gives : child.given place = .ok first)
        (member : entry ∈ first) :
        Below entry.1 t ∧ Below entry.2 t ∧ entry.1.isMerge = false := by
      obtain ⟨key, value, plain⟩ := ih child below place first gives entry member
      exact ⟨⟨child, below, key.part _ _⟩, ⟨child, below, value.part _ _⟩, plain⟩
    cases t with
    | scalar id tag place text => cases gives
    | sequence id tag place items =>
      obtain ⟨found, lists, rfl⟩ := given_sequence_eq_ok start id tag place items entries gives
      obtain ⟨list, there, member⟩ := List.mem_flatten.mp member
      obtain ⟨item, below, first⟩ :=
        mem_listed start items found lists list (List.mem_reverse.mp there)
      exact inward item below start list first member
    | mapping id tag place pairs =>
      obtain ⟨found, more, rfl⟩ := given_mapping_eq_ok start id tag place pairs entries gives
      rcases List.mem_append.mp member with member | member
      · obtain ⟨pair, there, first, given, member⟩ := mem_merged place pairs found more entry member
        exact inward pair.2 (mem_children_mapping id tag place pairs pair there).2 place first given
          member
      · have both := List.mem_filter.mp member
        have children := mem_children_mapping id tag place pairs entry both.1
        exact ⟨⟨_, children.1, mem_parts_self _⟩, ⟨_, children.2, mem_parts_self _⟩,
          by simpa using both.2⟩

theorem below_of_flattened (t : Tree) (entries : List (Tree × Tree))
    (flat : t.flattened = .ok entries) (entry : Tree × Tree) (member : entry ∈ entries) :
    Below entry.1 t ∧ Below entry.2 t ∧ entry.1.isMerge = false := by
  cases t with
  | mapping id tag start pairs =>
    exact below_of_given start (.mapping id tag start pairs) entries flat entry member
  | scalar id tag start text =>
    cases flat
    cases member
  | sequence id tag start items =>
    cases flat
    cases member

theorem merged_ok (P : Tree × Tree → Prop) (start : Position) (pairs : List (Tree × Tree))
    (each : ∀ pair ∈ pairs, pair.1.isMerge = true →
      ∃ first, pair.2.given start = .ok first ∧ ∀ entry ∈ first, P entry) :
    ∃ more, merged start pairs = .ok more ∧ ∀ entry ∈ more, P entry := by
  induction pairs with
  | nil => exact ⟨[], rfl, by simp⟩
  | cons pair rest ih =>
    obtain ⟨key, value⟩ := pair
    obtain ⟨later, others, fine⟩ := ih fun pair member => each pair (List.mem_cons_of_mem _ member)
    by_cases merges : key.isMerge = true
    next =>
      obtain ⟨first, given, sound⟩ := each (key, value) (List.mem_cons_self ..) merges
      refine ⟨first ++ later, ?_, ?_⟩
      · simp only [merged, merges, if_true, given, others]
        rfl
      · intro entry member
        rcases List.mem_append.mp member with member | member
        · exact sound entry member
        · exact fine entry member
    next =>
      refine ⟨later, ?_, fine⟩
      simp only [merged, merges, Bool.false_eq_true, if_false, others]

theorem listed_ok (P : Tree × Tree → Prop) (start : Position) (items : List Tree)
    (each : ∀ item ∈ items, item.kind = .mapping ∧
      ∃ first, item.given start = .ok first ∧ ∀ entry ∈ first, P entry) :
    ∃ lists, listed start items = .ok lists ∧ ∀ list ∈ lists, ∀ entry ∈ list, P entry := by
  induction items with
  | nil => exact ⟨[], rfl, by simp⟩
  | cons item rest ih =>
    obtain ⟨later, others, fine⟩ := ih fun item member => each item (List.mem_cons_of_mem _ member)
    obtain ⟨isMapping, first, given, sound⟩ := each item (List.mem_cons_self ..)
    refine ⟨first :: later, ?_, ?_⟩
    · simp only [listed, isMapping, beq_self_eq_true, if_true, given, others]
      rfl
    · intro list member
      rcases List.mem_cons.mp member with rfl | member
      · exact sound
      · exact fine list member

end Tree

end LocaleLint.Yaml
