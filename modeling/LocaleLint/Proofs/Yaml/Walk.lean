import LocaleLint.Proofs.Yaml.Merge

set_option autoImplicit false

namespace LocaleLint.Yaml

namespace Tree

def entries (t : Tree) : List (Tree × Tree) := t.flattened.toOption.getD []

def inherited (t : Tree) : Nat :=
  match t with
  | .mapping _ _ _ pairs => t.entries.length - (own pairs).length
  | _ => 0

def held : Tree → List Tree
  | .sequence _ tag _ items => if tag.listsPairs then items.flatMap children else items
  | _ => []

def heldUnder (path : List String) : Tree → List (List String × Tree)
  | .sequence _ tag _ items =>
      if tag.listsPairs then (items.flatMap children).map fun inner => (path, inner)
      else items.zipIdx.map fun item => (toString item.2 :: path, item.1)
  | _ => []

theorem heldUnder_trees (path : List String) (t : Tree) :
    (t.heldUnder path).map Prod.snd = t.held := by
  cases t with
  | scalar id tag start text => rfl
  | mapping id tag start pairs => rfl
  | sequence id tag start items =>
    simp only [heldUnder, held]
    split
    · rw [List.map_map, show Prod.snd ∘ _ = fun inner : Tree => inner from rfl, List.map_id']
    · rw [List.map_map]
      exact List.zipIdx_map_fst 0 items

theorem below_of_held (s t : Tree) (member : s ∈ t.held) : Below s t := by
  cases t with
  | scalar id tag start text => cases member
  | mapping id tag start pairs => cases member
  | sequence id tag start items =>
    simp only [held] at member
    split at member
    · obtain ⟨item, below, inner⟩ := List.mem_flatMap.mp member
      exact ⟨item, below, mem_parts_of_child s item inner⟩
    · exact .of_child s _ member

theorem below_of_heldUnder (path : List String) (t : Tree) (inner : List String × Tree)
    (member : inner ∈ t.heldUnder path) : Below inner.2 t := by
  apply below_of_held inner.2 t
  rw [← t.heldUnder_trees path]
  exact List.mem_map_of_mem member

theorem itemHeight_held_lt (t : Tree) : itemHeight t.held < t.height := by
  have positive := t.height_pos
  have bound : itemHeight t.held ≤ t.height - 1 := by
    rw [itemHeight_le_iff]
    intro inner member
    have smaller := (below_of_held inner t member).height_lt
    omega
  omega

theorem below_of_entry (t : Tree) (entry : Tree × Tree) (member : entry ∈ t.entries) :
    Below entry.1 t ∧ Below entry.2 t ∧ entry.1.isMerge = false := by
  unfold entries at member
  cases flat : t.flattened with
  | error stop =>
    rw [flat] at member
    cases member
  | ok all =>
    rw [flat] at member
    exact below_of_flattened t all flat entry member

theorem pairHeight_entries_lt (t : Tree) : pairHeight t.entries < t.height := by
  have positive := t.height_pos
  have bound : pairHeight t.entries ≤ t.height - 1 := by
    rw [pairHeight_le_iff]
    intro entry member
    obtain ⟨key, value, -⟩ := below_of_entry t entry member
    have keySmaller := key.height_lt _ _
    have valueSmaller := value.height_lt _ _
    omega
  omega

end Tree

def scalarResult (id : NodeId) (tag : Tag) (start : Position) (text : List Text.CodePoint) :
    Except Stop Value :=
  match tag with
  | .merge | .value | .other _ => .error (.fault ⟨none, none, .unknownTag tag.name, start⟩)
  | tag => (Build.scalarOf id start tag text).map .scalar

def hashed (start place : Position) (value : Value) : Except Stop Scalar :=
  match value.key? with
  | some key => .ok key
  | none => .error (.fault ⟨some .mappingValue, some start, .unhashableKey, place⟩)

namespace Tree

theorem height_le_itemHeight (item : Tree) (rest : List Tree) :
    item.height ≤ itemHeight (item :: rest) ∧ itemHeight rest ≤ itemHeight (item :: rest) := by
  rw [itemHeight]
  omega

theorem height_le_pairHeight (key value : Tree) (rest : List (Tree × Tree)) :
    key.height ≤ pairHeight ((key, value) :: rest) ∧
      value.height ≤ pairHeight ((key, value) :: rest) ∧
        pairHeight rest ≤ pairHeight ((key, value) :: rest) := by
  rw [pairHeight]
  omega

def pairUp : List Value → List Value
  | key :: value :: rest => .pair key value :: pairUp rest
  | _ => []

def arranged (tag : Tag) (values : List Value) : List Value :=
  if tag.listsPairs then pairUp values else values

def filled (tag : Tag) (entries : List (Scalar × Value)) : Value :=
  if tag == .set then .set (entries.map (·.1)) else .map entries

mutual

def value (t : Tree) : Except Stop Value :=
  match t with
  | .scalar id tag start text => scalarResult id tag start text
  | .sequence id tag start items => do
      return .list (arranged tag (← itemValues (held (.sequence id tag start items))))
  | .mapping id tag start pairs => do
      let _ ← flattened (.mapping id tag start pairs)
      return filled tag (← entryValues start (entries (.mapping id tag start pairs)) [])
termination_by (t.height, 0)
decreasing_by
  · exact .left _ _ (itemHeight_held_lt _)
  · exact .left _ _ (pairHeight_entries_lt _)

def itemValues (items : List Tree) : Except Stop (List Value) :=
  match items with
  | [] => .ok []
  | item :: rest => do
      let value ← item.value
      return value :: (← itemValues rest)
termination_by (itemHeight items, items.length)
decreasing_by
  · exact .right' _ (height_le_itemHeight item rest).1 (Nat.succ_pos _)
  · exact .right' _ (height_le_itemHeight item rest).2 (Nat.lt_succ_self _)

def entryValues (start : Position) (pairs : List (Tree × Tree)) (found : List (Scalar × Value)) :
    Except Stop (List (Scalar × Value)) :=
  match pairs with
  | [] => .ok found
  | (key, value) :: rest => do
      let name ← hashed start key.start (← key.value)
      let meant ← value.value
      entryValues start rest (putEntry found name meant)
termination_by (pairHeight pairs, pairs.length)
decreasing_by
  · exact .right' _ (height_le_pairHeight key value rest).1 (Nat.succ_pos _)
  · exact .right' _ (height_le_pairHeight key value rest).2.1 (Nat.succ_pos _)
  · exact .right' _ (height_le_pairHeight key value rest).2.2 (Nat.lt_succ_self _)

end

def scalar? (t : Tree) : Option Scalar := t.value.toOption.bind Value.key?

end Tree

structure Mention where
  owner : NodeId
  key : Tree
  name : Scalar
  -- The innermost part comes first.
  path : List String
  again : Bool

def Mention.duplicateKey (mention : Mention) : DuplicateKey :=
  ⟨mention.name, ".".intercalate (mention.name.text :: mention.path).reverse,
    some (mention.key.start.line + 1), some (mention.key.start.column + 1)⟩

structure Progress where
  -- The mappings that were entered, in order.
  entered : List Tree
  mentions : List Mention

namespace Progress

def none : Progress := ⟨[], []⟩

def ids (p : Progress) : List NodeId := p.entered.map Tree.id

def flat (p : Progress) : List NodeId := p.entered.flatMap Tree.flattens

def enter (p : Progress) (t : Tree) : Progress := { p with entered := p.entered ++ [t] }

def mentionIf (p : Progress) (written : Bool) (mention : Mention) : Progress :=
  if written then { p with mentions := p.mentions ++ [mention] } else p

theorem entered_mentionIf (p : Progress) (written : Bool) (mention : Mention) :
    (p.mentionIf written mention).entered = p.entered := by
  cases written <;> rfl

def announced (p : Progress) : List DuplicateKey :=
  (p.mentions.filter (·.again)).map (·.duplicateKey)

end Progress

def comesAgain (merged : Nat) (seen : List Scalar) (name : Scalar) : Bool :=
  merged == 0 && seen.any (·.same name)

namespace Tree

mutual

-- Reading a tree under a path. Pairs that a mapping inherits may repeat; a mapping that has lost
-- its merge keys before it is entered passes for one that inherits nothing.
def walk (path : List String) (t : Tree) (p : Progress) : Progress :=
  match t with
  | .scalar _ _ _ _ => p
  | .sequence id tag start items => walkEach (heldUnder path (.sequence id tag start items)) p
  | .mapping id tag start pairs =>
      if id ∈ p.ids then p
      else
        walkEntries id path (entries (.mapping id tag start pairs))
          (if id ∈ p.flat then 0 else inherited (.mapping id tag start pairs)) []
          (p.enter (.mapping id tag start pairs))
termination_by (t.height, 0)
decreasing_by
  · rw [heldUnder_trees]
    exact .left _ _ (itemHeight_held_lt _)
  · exact .left _ _ (pairHeight_entries_lt _)

def walkEach (inner : List (List String × Tree)) (p : Progress) : Progress :=
  match inner with
  | [] => p
  | (path, t) :: rest => walkEach rest (t.walk path p)
termination_by (itemHeight (inner.map Prod.snd), inner.length)
decreasing_by
  · exact .right' _ (height_le_itemHeight t (rest.map Prod.snd)).1 (Nat.succ_pos _)
  · exact .right' _ (height_le_itemHeight t (rest.map Prod.snd)).2 (Nat.lt_succ_self _)

def walkEntries (owner : NodeId) (path : List String) (pairs : List (Tree × Tree)) (merged : Nat)
    (seen : List Scalar) (p : Progress) : Progress :=
  match pairs with
  | [] => p
  | (key, value) :: rest =>
      let p := key.walk path p
      match key.scalar? with
      | none => p
      | some name =>
          let again := comesAgain merged seen name
          let p := p.mentionIf (again || value.isCollection) ⟨owner, key, name, path, again⟩
          let p := value.walk (if value.isCollection then name.text :: path else path) p
          walkEntries owner path rest (merged - 1) (if merged == 0 then name :: seen else seen) p
termination_by (pairHeight pairs, pairs.length)
decreasing_by
  · exact .right' _ (height_le_pairHeight key value rest).1 (Nat.succ_pos _)
  · exact .right' _ (height_le_pairHeight key value rest).2.1 (Nat.succ_pos _)
  · exact .right' _ (height_le_pairHeight key value rest).2.2 (Nat.lt_succ_self _)

end

theorem walk_scalar (path : List String) (t : Tree) (p : Progress) (isScalar : t.kind = .scalar) :
    t.walk path p = p := by
  cases t with
  | scalar id tag start text => rw [walk]
  | sequence id tag start items => cases isScalar
  | mapping id tag start pairs => cases isScalar

theorem walk_sequence (path : List String) (t : Tree) (p : Progress)
    (isSequence : t.kind = .sequence) :
    t.walk path p = walkEach (t.heldUnder path) p := by
  cases t with
  | sequence id tag start items => rw [walk]
  | scalar id tag start text => cases isSequence
  | mapping id tag start pairs => cases isSequence

theorem walk_entered (path : List String) (t : Tree) (p : Progress) (isMapping : t.kind = .mapping)
    (known : t.id ∈ p.ids) : t.walk path p = p := by
  cases t with
  | mapping id tag start pairs => exact (walk.eq_def ..).trans (if_pos known)
  | scalar id tag start text => cases isMapping
  | sequence id tag start items => cases isMapping

theorem walk_mapping (path : List String) (t : Tree) (p : Progress) (isMapping : t.kind = .mapping)
    (new : t.id ∉ p.ids) :
    t.walk path p = walkEntries t.id path t.entries (if t.id ∈ p.flat then 0 else t.inherited) []
      (p.enter t) := by
  cases t with
  | mapping id tag start pairs => exact (walk.eq_def ..).trans (if_neg new)
  | scalar id tag start text => cases isMapping
  | sequence id tag start items => cases isMapping

theorem walkEach_nil (p : Progress) : walkEach [] p = p := by
  rw [walkEach]

theorem walkEach_cons (path : List String) (t : Tree) (rest : List (List String × Tree))
    (p : Progress) : walkEach ((path, t) :: rest) p = walkEach rest (t.walk path p) := by
  rw [walkEach]

theorem walkEntries_nameless (owner : NodeId) (path : List String) (key value : Tree)
    (rest : List (Tree × Tree)) (merged : Nat) (seen : List Scalar) (p : Progress)
    (nameless : key.scalar? = none) :
    walkEntries owner path ((key, value) :: rest) merged seen p = key.walk path p := by
  rw [walkEntries, nameless]

theorem walkEntries_named (owner : NodeId) (path : List String) (key value : Tree)
    (rest : List (Tree × Tree)) (merged : Nat) (seen : List Scalar) (p : Progress) (name : Scalar)
    (named : key.scalar? = some name) :
    walkEntries owner path ((key, value) :: rest) merged seen p =
      walkEntries owner path rest (merged - 1) (if merged == 0 then name :: seen else seen)
        (value.walk (if value.isCollection then name.text :: path else path)
          ((key.walk path p).mentionIf (comesAgain merged seen name || value.isCollection)
            ⟨owner, key, name, path, comesAgain merged seen name⟩)) := by
  rw [walkEntries, named]

section Preorder

variable (R : Progress → Progress → Prop) (refl : ∀ p, R p p)
  (trans : ∀ p q r, R p q → R q r → R p r)

include refl trans

theorem walkEach_preorder (inner : List (List String × Tree))
    (each : ∀ one ∈ inner, ∀ path p, R p (one.2.walk path p)) (p : Progress) :
    R p (walkEach inner p) := by
  induction inner generalizing p with
  | nil =>
    rw [walkEach_nil]
    exact refl p
  | cons one rest ih =>
    rw [walkEach_cons]
    have here := each one (List.mem_cons_self ..) one.1 p
    exact trans _ _ _ here (ih (fun one member => each one (List.mem_cons_of_mem _ member)) _)

theorem walkEntries_preorder (mention : ∀ p written m, R p (p.mentionIf written m))
    (owner : NodeId) (path : List String) (pairs : List (Tree × Tree))
    (each : ∀ pair ∈ pairs, ∀ path p, R p (pair.1.walk path p) ∧ R p (pair.2.walk path p))
    (merged : Nat) (seen : List Scalar) (p : Progress) :
    R p (walkEntries owner path pairs merged seen p) := by
  induction pairs generalizing merged seen p with
  | nil =>
    rw [walkEntries]
    exact refl p
  | cons pair rest ih =>
    obtain ⟨key, value⟩ := pair
    have keyWalk := (each (key, value) (List.mem_cons_self ..) path p).1
    have valueWalk := fun path p => (each (key, value) (List.mem_cons_self ..) path p).2
    have later := ih fun pair member => each pair (List.mem_cons_of_mem _ member)
    cases named : key.scalar? with
    | none =>
      rw [walkEntries_nameless owner path key value rest merged seen p named]
      exact keyWalk
    | some name =>
      rw [walkEntries_named owner path key value rest merged seen p name named]
      have toValue :=
        trans _ _ _ keyWalk (mention _ (comesAgain merged seen name || value.isCollection)
        ⟨owner, key, name, path, comesAgain merged seen name⟩)
      exact trans _ _ _ toValue (trans _ _ _ (valueWalk _ _) (later _ _ _))

theorem walk_preorder (mention : ∀ p written m, R p (p.mentionIf written m))
    (enter : ∀ p t, R p (p.enter t)) (t : Tree) (path : List String) (p : Progress) :
    R p (t.walk path p) := by
  induction t using below_induction generalizing path p with
  | step t ih =>
    cases kind : t.kind with
    | scalar =>
      rw [walk_scalar path t p kind]
      exact refl p
    | sequence =>
      rw [walk_sequence path t p kind]
      refine walkEach_preorder R refl trans _ ?_ p
      exact fun one member => ih one.2 (below_of_heldUnder path t one member)
    | mapping =>
      by_cases known : t.id ∈ p.ids
      · rw [walk_entered path t p kind known]
        exact refl p
      · rw [walk_mapping path t p kind known]
        apply trans _ _ _ (enter p t)
        refine walkEntries_preorder R refl trans mention t.id path _ ?_ _ _ _
        -- The entries stand below the mapping, but those it inherits are not its children.
        intro pair member path p
        obtain ⟨key, value, -⟩ := below_of_entry _ pair member
        exact ⟨ih pair.1 key path p, ih pair.2 value path p⟩

end Preorder

end Tree

structure Progress.Extends (p later : Progress) : Prop where
  entered : p.entered <+: later.entered
  mentions : p.mentions <+: later.mentions

namespace Progress.Extends

theorem refl (p : Progress) : p.Extends p := ⟨List.prefix_rfl, List.prefix_rfl⟩

theorem trans (p middle later : Progress) (first : p.Extends middle)
    (next : middle.Extends later) : p.Extends later :=
  ⟨first.entered.trans next.entered, first.mentions.trans next.mentions⟩

theorem enter (p : Progress) (t : Tree) : p.Extends (p.enter t) :=
  ⟨List.prefix_append .., List.prefix_rfl⟩

theorem mentionIf (p : Progress) (written : Bool) (mention : Mention) :
    p.Extends (p.mentionIf written mention) := by
  cases written with
  | false => exact refl p
  | true => exact ⟨List.prefix_rfl, List.prefix_append ..⟩

theorem walk (t : Tree) (path : List String) (p : Progress) : p.Extends (t.walk path p) :=
  Tree.walk_preorder Extends refl trans mentionIf enter t path p

theorem walkEach (inner : List (List String × Tree)) (p : Progress) :
    p.Extends (Tree.walkEach inner p) :=
  Tree.walkEach_preorder Extends refl trans inner (fun one _ => walk one.2) p

theorem walkEntries (owner : NodeId) (path : List String) (pairs : List (Tree × Tree))
    (merged : Nat) (seen : List Scalar) (p : Progress) :
    p.Extends (Tree.walkEntries owner path pairs merged seen p) :=
  Tree.walkEntries_preorder Extends refl trans mentionIf owner path pairs
    (fun pair _ path p => ⟨walk pair.1 path p, walk pair.2 path p⟩) merged seen p

theorem walkEntries_cons (owner : NodeId) (path : List String) (key value : Tree)
    (rest : List (Tree × Tree)) (merged : Nat) (seen : List Scalar) (p : Progress) :
    (key.walk path p).Extends
      (Tree.walkEntries owner path ((key, value) :: rest) merged seen p) := by
  cases named : key.scalar? with
  | none =>
    rw [Tree.walkEntries_nameless owner path key value rest merged seen p named]
    exact refl _
  | some name =>
    rw [Tree.walkEntries_named owner path key value rest merged seen p name named]
    have mentioned :=
      mentionIf (key.walk path p) (comesAgain merged seen name || value.isCollection)
      ⟨owner, key, name, path, comesAgain merged seen name⟩
    exact (mentioned.trans _ _ _ (.walk ..)).trans _ _ _ (.walkEntries ..)

theorem ids_subset (p later : Progress) (ext : p.Extends later) : p.ids ⊆ later.ids :=
  List.map_subset _ ext.entered.subset

end Progress.Extends

namespace Tree

def Visited (ids : List NodeId) (t : Tree) : Prop :=
  match t with
  | .scalar _ _ _ _ => True
  | .sequence id tag start items =>
    ∀ inner, inner ∈ held (.sequence id tag start items) → inner.Visited ids
  | .mapping id _ _ _ => id ∈ ids
termination_by t.height
decreasing_by exact (below_of_held inner _ ‹_›).height_lt

theorem visited_sequence (ids : List NodeId) (t : Tree) (isSequence : t.kind = .sequence) :
    t.Visited ids ↔ ∀ inner ∈ t.held, inner.Visited ids := by
  cases t with
  | sequence id tag start items => rw [Visited]
  | scalar id tag start text => cases isSequence
  | mapping id tag start pairs => cases isSequence

theorem visited_mapping (ids : List NodeId) (t : Tree) (isMapping : t.kind = .mapping) :
    t.Visited ids ↔ t.id ∈ ids := by
  cases t with
  | mapping id tag start pairs =>
    rw [Visited]
    exact Iff.rfl
  | scalar id tag start text => cases isMapping
  | sequence id tag start items => cases isMapping

theorem visited_scalar (ids : List NodeId) (t : Tree) (isScalar : t.kind = .scalar) :
    t.Visited ids := by
  cases t with
  | scalar id tag start text =>
    rw [Visited]
    trivial
  | sequence id tag start items => cases isScalar
  | mapping id tag start pairs => cases isScalar

theorem Visited.mono (ids more : List NodeId) (t : Tree) (subset : ids ⊆ more)
    (visited : t.Visited ids) : t.Visited more := by
  induction t using below_induction with
  | step t ih =>
    cases kind : t.kind with
    | scalar => exact visited_scalar more t kind
    | sequence =>
      rw [visited_sequence _ t kind] at visited ⊢
      exact fun inner member => ih inner (below_of_held inner t member) (visited inner member)
    | mapping =>
      rw [visited_mapping _ t kind] at visited ⊢
      exact subset visited

theorem walkEach_of_visited (inner : List (List String × Tree)) (p : Progress)
    (each : ∀ one ∈ inner, one.2.walk one.1 p = p) : walkEach inner p = p := by
  induction inner with
  | nil => exact walkEach_nil p
  | cons one rest ih =>
    rw [walkEach_cons, each one (List.mem_cons_self ..)]
    exact ih fun one member => each one (List.mem_cons_of_mem _ member)

theorem walk_of_visited (t : Tree) (path : List String) (p : Progress) (visited : t.Visited p.ids) :
    t.walk path p = p := by
  induction t using below_induction generalizing path with
  | step t ih =>
    cases kind : t.kind with
    | scalar => exact walk_scalar path t p kind
    | mapping => exact walk_entered path t p kind ((visited_mapping _ t kind).mp visited)
    | sequence =>
      rw [visited_sequence _ t kind] at visited
      rw [walk_sequence path t p kind]
      refine walkEach_of_visited _ p fun one member => ?_
      refine ih one.2 (below_of_heldUnder path t one member) one.1 (visited one.2 ?_)
      rw [← t.heldUnder_trees path]
      exact List.mem_map_of_mem member

theorem walkEach_visited (inner : List (List String × Tree)) (p : Progress)
    (each : ∀ one ∈ inner, ∀ path p, one.2.Visited (one.2.walk path p).ids) :
    ∀ one ∈ inner, one.2.Visited (walkEach inner p).ids := by
  induction inner generalizing p with
  | nil => nofun
  | cons first rest ih =>
    intro one member
    rw [walkEach_cons]
    rcases List.mem_cons.mp member with rfl | member
    · have here := each one (List.mem_cons_self ..) one.1 p
      exact here.mono _ _ _ ((Progress.Extends.walkEach ..).ids_subset _ _)
    · exact ih _ (fun one member => each one (List.mem_cons_of_mem _ member)) one member

theorem visited_walk (t : Tree) (path : List String) (p : Progress) :
    t.Visited (t.walk path p).ids := by
  induction t using below_induction generalizing path p with
  | step t ih =>
    cases kind : t.kind with
    | scalar => exact visited_scalar _ t kind
    | sequence =>
      rw [walk_sequence path t p kind, visited_sequence _ t kind, ← t.heldUnder_trees path]
      intro inner member
      obtain ⟨one, there, rfl⟩ := List.mem_map.mp member
      exact walkEach_visited _ p (fun one member => ih one.2 (below_of_heldUnder path t one member))
        one there
    | mapping =>
      rw [visited_mapping _ t kind]
      by_cases known : t.id ∈ p.ids
      · rw [walk_entered path t p kind known]
        exact known
      · rw [walk_mapping path t p kind known]
        have entered : t.id ∈ (p.enter t).ids := by
          simp [Progress.enter, Progress.ids]
        exact (Progress.Extends.walkEntries ..).ids_subset _ _ entered

end Tree

end LocaleLint.Yaml
