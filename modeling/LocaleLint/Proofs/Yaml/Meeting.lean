import LocaleLint.Proofs.Yaml.Flatten
import LocaleLint.Proofs.Yaml.Mentions

set_option autoImplicit false

namespace LocaleLint.Yaml

namespace Tree

mutual

def met (t : Tree) : List Tree :=
  match t with
  | .scalar _ _ _ _ => []
  | .sequence id tag start items => metItems (held (.sequence id tag start items))
  | .mapping id tag start pairs =>
      .mapping id tag start pairs :: metEntries (entries (.mapping id tag start pairs))
termination_by (t.height, 0)
decreasing_by
  · exact .left _ _ (itemHeight_held_lt _)
  · exact .left _ _ (pairHeight_entries_lt _)

def metItems (items : List Tree) : List Tree :=
  match items with
  | [] => []
  | item :: rest => item.met ++ metItems rest
termination_by (itemHeight items, items.length)
decreasing_by
  · exact .right' _ (height_le_itemHeight item rest).1 (Nat.succ_pos _)
  · exact .right' _ (height_le_itemHeight item rest).2 (Nat.lt_succ_self _)

def metEntries (pairs : List (Tree × Tree)) : List Tree :=
  match pairs with
  | [] => []
  | (key, value) :: rest => key.met ++ (value.met ++ metEntries rest)
termination_by (pairHeight pairs, pairs.length)
decreasing_by
  · exact .right' _ (height_le_pairHeight key value rest).1 (Nat.succ_pos _)
  · exact .right' _ (height_le_pairHeight key value rest).2.1 (Nat.succ_pos _)
  · exact .right' _ (height_le_pairHeight key value rest).2.2 (Nat.lt_succ_self _)

end

theorem met_scalar (t : Tree) (isScalar : t.kind = .scalar) : t.met = [] := by
  cases t with
  | scalar id tag start text => rw [met]
  | sequence id tag start items => cases isScalar
  | mapping id tag start pairs => cases isScalar

theorem met_sequence (t : Tree) (isSequence : t.kind = .sequence) : t.met = metItems t.held := by
  cases t with
  | sequence id tag start items => rw [met]
  | scalar id tag start text => cases isSequence
  | mapping id tag start pairs => cases isSequence

theorem met_mapping (t : Tree) (isMapping : t.kind = .mapping) :
    t.met = t :: metEntries t.entries := by
  cases t with
  | mapping id tag start pairs => rw [met]
  | scalar id tag start text => cases isMapping
  | sequence id tag start items => cases isMapping

theorem mem_metItems (items : List Tree) (s : Tree) :
    s ∈ metItems items ↔ ∃ item ∈ items, s ∈ item.met := by
  induction items with
  | nil => simp [metItems]
  | cons item rest ih => simp [metItems, ih]

theorem mem_metEntries (pairs : List (Tree × Tree)) (s : Tree) :
    s ∈ metEntries pairs ↔ ∃ pair ∈ pairs, s ∈ pair.1.met ∨ s ∈ pair.2.met := by
  induction pairs with
  | nil => simp [metEntries]
  | cons pair rest ih =>
    obtain ⟨key, value⟩ := pair
    rw [metEntries, List.mem_append, List.mem_append, ih, List.exists_mem_cons_iff, or_assoc]

theorem mem_met (s t : Tree) (member : s ∈ t.met) : s ∈ t.parts ∧ s.kind = .mapping := by
  induction t using below_induction with
  | step t ih =>
    have inward (inner : Tree) (below : Below inner t) (member : s ∈ inner.met) :
        s ∈ t.parts ∧ s.kind = .mapping := by
      obtain ⟨within, isMapping⟩ := ih inner below member
      exact ⟨parts_trans s inner t within (below.part _ _), isMapping⟩
    cases kind : t.kind with
    | scalar =>
      rw [met_scalar t kind] at member
      cases member
    | sequence =>
      rw [met_sequence t kind, mem_metItems] at member
      obtain ⟨inner, there, member⟩ := member
      exact inward inner (below_of_held inner t there) member
    | mapping =>
      rw [met_mapping t kind, List.mem_cons, mem_metEntries] at member
      rcases member with rfl | ⟨entry, there, member⟩
      · exact ⟨mem_parts_self _, kind⟩
      · obtain ⟨key, value, -⟩ := below_of_entry t entry there
        rcases member with member | member
        · exact inward entry.1 key member
        · exact inward entry.2 value member

end Tree

def enterOnce (entered : List Tree) (t : Tree) : List Tree :=
  if t.id ∈ entered.map Tree.id then entered else entered ++ [t]

theorem enterOnce_known (entered more : List Tree)
    (known : ∀ t ∈ more, t.id ∈ entered.map Tree.id) : more.foldl enterOnce entered = entered := by
  induction more with
  | nil => rfl
  | cons t rest ih =>
    have here : enterOnce entered t = entered := by
      rw [enterOnce, if_pos (known t (List.mem_cons_self ..))]
    rw [List.foldl_cons, here]
    exact ih fun t member => known t (List.mem_cons_of_mem _ member)

theorem mem_ids_enterOnce (entered more : List Tree) (id : NodeId) :
    id ∈ (more.foldl enterOnce entered).map Tree.id ↔
      id ∈ entered.map Tree.id ∨ id ∈ more.map Tree.id := by
  induction more generalizing entered with
  | nil => simp
  | cons t rest ih =>
    rw [List.foldl_cons, ih, enterOnce, List.map_cons, List.mem_cons]
    by_cases known : t.id ∈ entered.map Tree.id
    next =>
      rw [if_pos known]
      constructor
      · rintro (old | new)
        · exact .inl old
        · exact .inr (.inr new)
      · rintro (old | rfl | new)
        · exact .inl old
        · exact .inl known
        · exact .inr new
    next =>
      rw [if_neg known, List.map_append, List.mem_append, List.map_cons, List.map_nil,
        List.mem_singleton, or_assoc]

theorem mem_enterOnce (entered more : List Tree) (t : Tree)
    (member : t ∈ more.foldl enterOnce entered) : t ∈ entered ∨ t ∈ more := by
  induction more generalizing entered with
  | nil => exact .inl member
  | cons first rest ih =>
    rcases ih _ member with old | new
    · rw [enterOnce] at old
      split at old
      · exact .inl old
      · rcases List.mem_append.mp old with old | here
        · exact .inl old
        · rw [List.mem_singleton.mp here]
          exact .inr (List.mem_cons_self ..)
    · exact .inr (List.mem_cons_of_mem _ new)

theorem prefix_enterOnce (entered more : List Tree) : entered <+: more.foldl enterOnce entered := by
  induction more generalizing entered with
  | nil => exact List.prefix_rfl
  | cons t rest ih =>
    refine .trans ?_ (ih (enterOnce entered t))
    rw [enterOnce]
    split
    · exact List.prefix_rfl
    · exact List.prefix_append ..

/-- What was entered belongs to a graph, and unless it is busy all that is met in it was entered. -/
structure Closed (g : Graph) (busy : List NodeId) (entered : List Tree) : Prop where
  unfolds : ∀ t ∈ entered, t.Unfolds g
  closed : ∀ t ∈ entered, t.id ∉ busy → ∀ s ∈ t.met, s.id ∈ entered.map Tree.id

theorem Closed.begin (g : Graph) (t : Tree) (busy : List NodeId) (p : Progress)
    (unfolds : t.Unfolds g) (closed : Closed g busy p.entered) :
    Closed g (t.id :: busy) (p.enter t).entered where
  unfolds := fun s member => by
    rcases List.mem_append.mp member with member | member
    · exact closed.unfolds s member
    · rw [List.mem_singleton.mp member]
      exact unfolds
  closed := fun s member idle r inner => by
    rcases List.mem_append.mp member with member | member
    · have old :=
        closed.closed s member (fun worked => idle (List.mem_cons_of_mem _ worked)) r inner
      exact List.map_subset _ (List.subset_append_left ..) old
    · rw [List.mem_singleton.mp member] at idle
      exact absurd (List.mem_cons_self ..) idle

theorem Closed.finish (g : Graph) (t : Tree) (busy : List NodeId) (entered : List Tree)
    (unfolds : t.Unfolds g) (closed : Closed g (t.id :: busy) entered)
    (all : ∀ s ∈ t.met, s.id ∈ entered.map Tree.id) : Closed g busy entered where
  unfolds := closed.unfolds
  closed := fun s member idle r inner => by
    by_cases same : s.id = t.id
    next =>
      rw [(closed.unfolds s member).unique g s t unfolds same] at inner
      exact all r inner
    next =>
      have away : s.id ∉ t.id :: busy := by
        rw [List.mem_cons, not_or]
        exact ⟨same, idle⟩
      exact closed.closed s member away r inner

namespace Tree

/-- How reading the trees inside a busy tree goes. -/
def MeetsBelow (g : Graph) (busy : List NodeId) (t : Tree) : Prop :=
  ∀ (s : Tree) (path : List String) (p : Progress), Below s t → s.IsSound →
    Closed g busy p.entered →
    (s.walk path p).entered = s.met.foldl enterOnce p.entered ∧
      Closed g busy (s.walk path p).entered

theorem walkEach_meets (g : Graph) (busy : List NodeId) (t : Tree)
    (inner : List (List String × Tree)) (meets : MeetsBelow g busy t)
    (each : ∀ one ∈ inner, Below one.2 t ∧ one.2.IsSound) (p : Progress)
    (closed : Closed g busy p.entered) :
    (walkEach inner p).entered = (metItems (inner.map Prod.snd)).foldl enterOnce p.entered ∧
      Closed g busy (walkEach inner p).entered := by
  induction inner generalizing p with
  | nil =>
    rw [walkEach_nil, List.map_nil, metItems]
    exact ⟨rfl, closed⟩
  | cons one rest ih =>
    obtain ⟨below, sound⟩ := each one (List.mem_cons_self ..)
    obtain ⟨here, closedHere⟩ := meets one.2 one.1 p below sound closed
    have later := ih (fun one member => each one (List.mem_cons_of_mem _ member)) _ closedHere
    rw [here, ← List.foldl_append] at later
    rw [walkEach_cons, List.map_cons, metItems]
    exact later

theorem walkEntries_meets (g : Graph) (busy : List NodeId) (t : Tree) (owner : NodeId)
    (path : List String) (pairs : List (Tree × Tree)) (meets : MeetsBelow g busy t)
    (each : ∀ pair ∈ pairs, Below pair.2 t ∧ IsSoundEntry pair) (merged : Nat) (seen : List Scalar)
    (p : Progress) (closed : Closed g busy p.entered) :
    (walkEntries owner path pairs merged seen p).entered =
        (metEntries pairs).foldl enterOnce p.entered ∧
      Closed g busy (walkEntries owner path pairs merged seen p).entered := by
  induction pairs generalizing merged seen p with
  | nil =>
    rw [walkEntries, metEntries]
    exact ⟨rfl, closed⟩
  | cons pair rest ih =>
    obtain ⟨key, value⟩ := pair
    obtain ⟨below, isScalar, reads, sound⟩ := each (key, value) (List.mem_cons_self ..)
    obtain ⟨name, -, named⟩ := scalar?_of_reads key isScalar reads
    rw [walkEntries_named owner path key value rest merged seen p name named,
      walk_scalar path key p isScalar, metEntries, met_scalar key isScalar, List.nil_append]
    let mention : Mention := ⟨owner, key, name, path, comesAgain merged seen name⟩
    let told := p.mentionIf (comesAgain merged seen name || value.isCollection) mention
    have toldEntered : told.entered = p.entered := p.entered_mentionIf _ mention
    obtain ⟨here, closedHere⟩ :=
      meets value (if value.isCollection then name.text :: path else path)
      told below sound (by rw [toldEntered]; exact closed)
    have later := ih (fun pair member => each pair (List.mem_cons_of_mem _ member)) (merged - 1)
      (if merged == 0 then name :: seen else seen) _ closedHere
    rw [here, toldEntered, ← List.foldl_append] at later
    exact later

theorem walk_meets_entered (g : Graph) (t : Tree) (busy : List NodeId) (path : List String)
    (p : Progress) (unfolds : t.Unfolds g) (isMapping : t.kind = .mapping) (idle : t.id ∉ busy)
    (known : t.id ∈ p.ids) (closed : Closed g busy p.entered) :
    (t.walk path p).entered = t.met.foldl enterOnce p.entered ∧
      Closed g busy (t.walk path p).entered := by
  rw [walk_entered path t p isMapping known]
  obtain ⟨s, member, same⟩ := List.mem_map.mp known
  have equal : s = t := (closed.unfolds s member).unique g s t unfolds same
  have all := closed.closed s member (by rw [equal]; exact idle)
  rw [equal] at all
  exact ⟨(enterOnce_known p.entered _ all).symm, closed⟩

theorem walk_meets (g : Graph) (t : Tree) (busy : List NodeId) (path : List String) (p : Progress)
    (unfolds : t.Unfolds g) (sound : t.IsSound) (free : t.Free busy)
    (closed : Closed g busy p.entered) :
    (t.walk path p).entered = t.met.foldl enterOnce p.entered ∧
      Closed g busy (t.walk path p).entered := by
  induction t using below_induction generalizing busy path p with
  | step t ih =>
    cases kind : t.kind with
    | scalar =>
      rw [walk_scalar path t p kind, met_scalar t kind]
      exact ⟨rfl, closed⟩
    | sequence =>
      have meets : MeetsBelow g busy t := fun s path p below sound closed =>
        ih s below busy path p (unfolds.part g s _ (below.part _ _)) sound
          (fun r inner => free r (parts_trans r s _ inner (below.part _ _))) closed
      have each (one : List String × Tree) (member : one ∈ t.heldUnder path) :
          Below one.2 t ∧ one.2.IsSound := by
        have inside : one.2 ∈ t.held := by
          rw [← t.heldUnder_trees path]
          exact List.mem_map_of_mem member
        exact ⟨below_of_held one.2 t inside, sound.of_held one.2 t inside⟩
      rw [walk_sequence path t p kind, met_sequence t kind, ← t.heldUnder_trees path]
      exact walkEach_meets g busy t _ meets each p closed
    | mapping =>
      have idle : t.id ∉ busy := free t t.mem_parts_self
      by_cases known : t.id ∈ p.ids
      next => exact walk_meets_entered g t busy path p unfolds kind idle known closed
      next =>
        -- The mapping is busy while its entries are read, and nothing is claimed of it meanwhile.
        have begun : enterOnce p.entered t = (p.enter t).entered := if_neg known
        have meets : MeetsBelow g (t.id :: busy) t := fun s path p below sound closed =>
          ih s below (t.id :: busy) path p (unfolds.part g s _ (below.part _ _)) sound
            (free.below g busy s _ (unfolds.stands g t) below) closed
        have each (entry : Tree × Tree) (member : entry ∈ t.entries) :
            Below entry.2 t ∧ IsSoundEntry entry :=
          ⟨(below_of_entry t entry member).2.1, (sound.flattened t kind).2 entry member⟩
        obtain ⟨entered, closedInner⟩ := walkEntries_meets g (t.id :: busy) t t.id path _ meets each
          (if t.id ∈ p.flat then 0 else t.inherited) [] _ (.begin g t busy p unfolds closed)
        rw [walk_mapping path t p kind known, met_mapping t kind, List.foldl_cons, begun]
        refine ⟨entered, .finish g t busy _ unfolds closedInner fun s inner => ?_⟩
        rw [met_mapping t kind] at inner
        rw [entered, mem_ids_enterOnce]
        rcases List.mem_cons.mp inner with rfl | inner
        · exact .inl (List.mem_map_of_mem (List.mem_append_right _ (List.mem_singleton.mpr rfl)))
        · exact .inr (List.mem_map_of_mem inner)

theorem entered_walk (g : Graph) (t : Tree) (path : List String) (unfolds : t.Unfolds g)
    (sound : t.IsSound) : (t.walk path Progress.none).entered = t.met.foldl enterOnce [] := by
  have nothing : Closed g [] Progress.none.entered := ⟨nofun, nofun⟩
  exact (walk_meets g t [] path .none unfolds sound (fun _ _ => List.not_mem_nil) nothing).1

end Tree

end LocaleLint.Yaml
