import LocaleLint.Proofs.Yaml.Walk
import LocaleLint.Proofs.Yaml.Origin

set_option autoImplicit false

namespace LocaleLint.Yaml

namespace Tree

variable (f : NodeId → NodeId)

mutual

def relabel : Tree → Tree
  | .scalar id tag start text => .scalar (f id) tag start text
  | .sequence id tag start items => .sequence (f id) tag start (relabelItems items)
  | .mapping id tag start pairs => .mapping (f id) tag start (relabelPairs pairs)

def relabelItems : List Tree → List Tree
  | [] => []
  | item :: rest => item.relabel :: relabelItems rest

def relabelPairs : List (Tree × Tree) → List (Tree × Tree)
  | [] => []
  | (key, value) :: rest => (key.relabel, value.relabel) :: relabelPairs rest

end

theorem relabelItems_eq (items : List Tree) : relabelItems f items = items.map (relabel f) := by
  induction items with
  | nil => rfl
  | cons item rest ih => rw [relabelItems, ih, List.map_cons]

theorem relabelPairs_eq (pairs : List (Tree × Tree)) :
    relabelPairs f pairs = pairs.map fun pair => (pair.1.relabel f, pair.2.relabel f) := by
  induction pairs with
  | nil => rfl
  | cons pair rest ih => rw [relabelPairs, ih, List.map_cons]

theorem id_relabel (t : Tree) : (t.relabel f).id = f t.id := by
  cases t <;> rfl

theorem start_relabel (t : Tree) : (t.relabel f).start = t.start := by
  cases t <;> rfl

theorem kind_relabel (t : Tree) : (t.relabel f).kind = t.kind := by
  cases t <;> rfl

theorem isMerge_relabel (t : Tree) : (t.relabel f).isMerge = t.isMerge := by
  cases t <;> rfl

theorem noMergeSource_relabel (start : Position) (t : Tree) :
    Build.noMergeSource start (t.relabel f).node = Build.noMergeSource start t.node := by
  cases t <;> rfl

theorem children_relabel (t : Tree) : (t.relabel f).children = t.children.map (relabel f) := by
  cases t with
  | scalar id tag start text => rfl
  | sequence id tag start items => exact relabelItems_eq f items
  | mapping id tag start pairs =>
    simp only [relabel, children, relabelPairs_eq, List.flatMap_map, List.map_flatMap,
      List.map_cons,
      List.map_nil]

theorem mem_parts_relabel (s t : Tree) (within : s ∈ t.parts) :
    s.relabel f ∈ (t.relabel f).parts := by
  induction t using Tree.induction with
  | step t ih =>
    rcases (mem_parts_iff s t).mp within with rfl | ⟨child, below, inner⟩
    · exact mem_parts_self _
    · refine (mem_parts_iff _ _).mpr (.inr ⟨child.relabel f, ?_, ih child below inner⟩)
      rw [children_relabel]
      exact List.mem_map_of_mem below

theorem own_relabel (pairs : List (Tree × Tree)) :
    own (relabelPairs f pairs) = relabelPairs f (own pairs) := by
  rw [own, own, relabelPairs_eq, relabelPairs_eq, List.filter_map]
  congr 2
  funext pair
  simp only [Function.comp_apply, isMerge_relabel]

theorem listed_relabel (start : Position) (items : List Tree)
    (each : ∀ item ∈ items, ∀ place,
      (item.relabel f).given place = (item.given place).map (relabelPairs f)) :
    listed start (relabelItems f items) = (listed start items).map (List.map (relabelPairs f)) := by
  induction items with
  | nil => rfl
  | cons item rest ih =>
    have here := each item (List.mem_cons_self ..) start
    have later := ih fun item member => each item (List.mem_cons_of_mem _ member)
    rw [relabelItems, listed, listed, kind_relabel]
    split
    · rw [here, later]
      cases item.given start with
      | error stop => rfl
      | ok first => cases listed start rest <;> rfl
    · rw [noMergeSource_relabel]
      rfl

theorem merged_relabel (start : Position) (pairs : List (Tree × Tree))
    (each : ∀ pair ∈ pairs, ∀ place,
      (pair.2.relabel f).given place = (pair.2.given place).map (relabelPairs f)) :
    merged start (relabelPairs f pairs) = (merged start pairs).map (relabelPairs f) := by
  induction pairs with
  | nil => rfl
  | cons pair rest ih =>
    obtain ⟨key, value⟩ := pair
    have here := each (key, value) (List.mem_cons_self ..) start
    have later := ih fun pair member => each pair (List.mem_cons_of_mem _ member)
    rw [relabelPairs, merged, merged, isMerge_relabel]
    split
    · rw [here, later]
      cases value.given start with
      | error stop => rfl
      | ok first =>
        cases merged start rest with
        | error stop => rfl
        | ok more =>
          refine congrArg Except.ok ?_
          simp only [relabelPairs_eq, List.map_append]
    · exact later

theorem given_relabel (start : Position) (t : Tree) :
    (t.relabel f).given start = (t.given start).map (relabelPairs f) := by
  induction t using Tree.induction generalizing start with
  | step t ih =>
    cases t with
    | scalar id tag place text => rfl
    | sequence id tag place items =>
      have lists := listed_relabel f start items fun item member place => ih item member place
      rw [relabel, given, given, lists]
      cases listed start items with
      | error stop => rfl
      | ok lists =>
        refine congrArg Except.ok ?_
        simp only [funext (relabelPairs_eq f), List.map_flatten, List.map_reverse]
    | mapping id tag place pairs =>
      have more := merged_relabel f place pairs fun pair member place =>
        ih pair.2 (mem_children_mapping id tag _ pairs pair member).2 place
      rw [relabel, given, given, more, own_relabel]
      cases merged place pairs with
      | error stop => rfl
      | ok first =>
        refine congrArg Except.ok ?_
        simp only [relabelPairs_eq, List.map_append]

theorem flattened_relabel (t : Tree) :
    (t.relabel f).flattened = t.flattened.map (relabelPairs f) := by
  cases t with
  | scalar id tag start text => rfl
  | sequence id tag start items => rfl
  | mapping id tag start pairs => exact given_relabel f start (.mapping id tag start pairs)

theorem entries_relabel (t : Tree) : (t.relabel f).entries = relabelPairs f t.entries := by
  rw [entries, entries, flattened_relabel]
  cases t.flattened <;> rfl

theorem held_relabel (t : Tree) : (t.relabel f).held = relabelItems f t.held := by
  cases t with
  | scalar id tag start text => rfl
  | mapping id tag start pairs => rfl
  | sequence id tag start items =>
    simp only [relabel, held]
    split
    · simp only [relabelItems_eq, List.flatMap_map, List.map_flatMap, children_relabel]
    · rfl

end Tree

section Renaming

variable (f : NodeId → NodeId)

mutual

-- A value when the nodes that it was read from get other numbers.
def Value.renamed : Value → Value
  | .scalar key => .scalar (key.renamed f)
  | .list items => .list (renamedItems items)
  | .map entries => .map (renamedEntries entries)
  | .set elements => .set (elements.map (Scalar.renamed f))
  | .pair key value => .pair key.renamed value.renamed
  | .unfilled node => .unfilled (f node)

def Value.renamedItems : List Value → List Value
  | [] => []
  | item :: rest => item.renamed :: renamedItems rest

def Value.renamedEntries : List (Scalar × Value) → List (Scalar × Value)
  | [] => []
  | (key, value) :: rest => (key.renamed f, value.renamed) :: renamedEntries rest

end

theorem Value.key?_renamed (value : Value) :
    (value.renamed f).key? = value.key?.map (Scalar.renamed f) := by
  cases value <;> rfl

theorem keys_renamedEntries (entries : List (Scalar × Value)) :
    (Value.renamedEntries f entries).map (·.1) = (entries.map (·.1)).map (Scalar.renamed f) := by
  induction entries with
  | nil => rfl
  | cons entry rest ih => rw [Value.renamedEntries, List.map_cons, List.map_cons, List.map_cons, ih]

theorem putEntry_renamed (entries : List (Scalar × Value)) (key : Scalar) (value : Value)
    (kept : ∀ entry ∈ entries, (entry.1.renamed f).same (key.renamed f) = entry.1.same key) :
    putEntry (Value.renamedEntries f entries) (key.renamed f) (value.renamed f) =
      Value.renamedEntries f (putEntry entries key value) := by
  induction entries with
  | nil => rfl
  | cons entry rest ih =>
    have here := kept entry (List.mem_cons_self ..)
    have later := ih fun entry member => kept entry (List.mem_cons_of_mem _ member)
    rw [Value.renamedEntries, putEntry, putEntry, here]
    split
    · rfl
    · rw [later]
      rfl

theorem mem_putEntry (entries : List (Scalar × Value)) (key : Scalar) (value : Value)
    (entry : Scalar × Value) (member : entry ∈ putEntry entries key value) :
    entry.1 = key ∨ ∃ old ∈ entries, old.1 = entry.1 := by
  induction entries with
  | nil => exact .inl (by rw [List.mem_singleton.mp member])
  | cons first rest ih =>
    rw [putEntry] at member
    split at member
    · rcases List.mem_cons.mp member with rfl | member
      · exact .inr ⟨first, List.mem_cons_self .., rfl⟩
      · exact .inr ⟨entry, List.mem_cons_of_mem _ member, rfl⟩
    · rcases List.mem_cons.mp member with rfl | member
      · exact .inr ⟨_, List.mem_cons_self .., rfl⟩
      · rcases ih member with same | ⟨old, there, same⟩
        · exact .inl same
        · exact .inr ⟨old, List.mem_cons_of_mem _ there, same⟩

theorem scalarResult_renamed (node : NodeId) (tag : Tag) (start : Position)
    (text : List Text.CodePoint) :
    scalarResult (f node) tag start text =
      (scalarResult node tag start text).map (Value.renamed f) := by
  have read : (Build.scalarOf (f node) start tag text).map Value.scalar =
      ((Build.scalarOf node start tag text).map Value.scalar).map (Value.renamed f) := by
    rw [scalarOf_renamed]
    cases Build.scalarOf node start tag text <;> rfl
  cases tag with
  | merge => rfl
  | value => rfl
  | other name => rfl
  | _ => exact read

namespace Tree

def KeepsApart (first second : Tree × Tree) : Prop :=
  ∀ x y, first.1.scalar? = some x → second.1.scalar? = some y →
    (x.renamed f).same (y.renamed f) = x.same y

def KeepsKeys (t : Tree) : Prop := ∀ s ∈ t.parts, s.entries.Pairwise (KeepsApart f)

theorem pairUp_renamed (values : List Value) :
    pairUp (Value.renamedItems f values) = Value.renamedItems f (pairUp values) := by
  induction values using pairUp.induct with
  | case1 key value rest ih =>
    rw [Value.renamedItems, Value.renamedItems, pairUp, pairUp, Value.renamedItems, ih]
    rfl
  | case2 values single =>
    cases values with
    | nil => rfl
    | cons key rest =>
      cases rest with
      | nil => rfl
      | cons value rest => exact absurd rfl (single key value rest)

theorem arranged_renamed (tag : Tag) (values : List Value) :
    arranged tag (Value.renamedItems f values) = Value.renamedItems f (arranged tag values) := by
  unfold arranged
  split
  · exact pairUp_renamed f values
  · rfl

theorem filled_renamed (tag : Tag) (entries : List (Scalar × Value)) :
    filled tag (Value.renamedEntries f entries) = (filled tag entries).renamed f := by
  unfold filled
  split
  · exact congrArg Value.set (keys_renamedEntries f entries)
  · rfl

theorem itemValues_relabel (items : List Tree)
    (each : ∀ item ∈ items, (item.relabel f).value = item.value.map (Value.renamed f)) :
    itemValues (relabelItems f items) = (itemValues items).map (Value.renamedItems f) := by
  induction items with
  | nil =>
    rw [relabelItems, itemValues]
    rfl
  | cons item rest ih =>
    have here := each item (List.mem_cons_self ..)
    have later := ih fun item member => each item (List.mem_cons_of_mem _ member)
    rw [relabelItems, itemValues, itemValues, here, later]
    cases item.value with
    | error stop => rfl
    | ok value => cases itemValues rest <;> rfl

theorem hashed_renamed (start place : Position) (value : Value) :
    hashed start place (value.renamed f) = (hashed start place value).map (Scalar.renamed f) := by
  rw [hashed, hashed, Value.key?_renamed]
  cases value.key? <;> rfl

theorem scalar?_of_hashed (key : Tree) (start place : Position) (value : Value) (name : Scalar)
    (read : key.value = .ok value) (named : hashed start place value = .ok name) :
    key.scalar? = some name := by
  rw [hashed] at named
  rw [scalar?, read]
  cases found : value.key? with
  | none =>
    rw [found] at named
    cases named
  | some key =>
    rw [found] at named
    cases named
    exact found

theorem entryValues_relabel (start : Position) (pairs : List (Tree × Tree))
    (found : List (Scalar × Value))
    (each : ∀ pair ∈ pairs, (pair.1.relabel f).value = pair.1.value.map (Value.renamed f) ∧
      (pair.2.relabel f).value = pair.2.value.map (Value.renamed f))
    (apart : pairs.Pairwise (KeepsApart f))
    (old : ∀ pair ∈ pairs, ∀ name, pair.1.scalar? = some name → ∀ entry ∈ found,
      (entry.1.renamed f).same (name.renamed f) = entry.1.same name) :
    entryValues start (relabelPairs f pairs) (Value.renamedEntries f found) =
      (entryValues start pairs found).map (Value.renamedEntries f) := by
  induction pairs generalizing found with
  | nil =>
    rw [relabelPairs, entryValues, entryValues]
    rfl
  | cons pair rest ih =>
    obtain ⟨key, value⟩ := pair
    obtain ⟨keyRead, valueRead⟩ := each (key, value) (List.mem_cons_self ..)
    obtain ⟨others, restApart⟩ := List.pairwise_cons.mp apart
    rw [relabelPairs, entryValues, entryValues, keyRead, valueRead, start_relabel]
    cases read : key.value with
    | error stop => rfl
    | ok known =>
      have hashes := hashed_renamed f start key.start known
      -- Both sides as steps that are bound, so that each step can be split on its own.
      change (hashed start key.start (known.renamed f) >>= fun name =>
          value.value.map (Value.renamed f) >>= fun meant =>
            entryValues start (relabelPairs f rest)
              (putEntry (Value.renamedEntries f found) name meant)) =
        (hashed start key.start known >>= fun name => value.value >>= fun meant =>
          entryValues start rest (putEntry found name meant)).map (Value.renamedEntries f)
      rw [hashes]
      cases named : hashed start key.start known with
      | error stop => rfl
      | ok name =>
        have scalar := scalar?_of_hashed key start key.start known name read named
        cases value.value with
        | error stop => rfl
        | ok meant =>
          have put :=
            putEntry_renamed f found name meant
            (old (key, value) (List.mem_cons_self ..) name scalar)
          change entryValues start (relabelPairs f rest)
              (putEntry (Value.renamedEntries f found) (name.renamed f) (meant.renamed f)) =
            (entryValues start rest (putEntry found name meant)).map (Value.renamedEntries f)
          rw [put]
          -- The key put here is told from the later ones by `others`, those before it by `old`.
          refine ih (putEntry found name meant)
            (fun pair member => each pair (List.mem_cons_of_mem _ member)) restApart ?_
          intro pair member other named entry there
          rcases mem_putEntry found name meant entry there with same | ⟨earlier, known, same⟩
          · rw [same]
            exact others pair member name other scalar named
          · rw [← same]
            exact old pair (List.mem_cons_of_mem _ member) other named earlier known

theorem value_relabel (t : Tree) (keeps : t.KeepsKeys f) :
    (t.relabel f).value = t.value.map (Value.renamed f) := by
  induction t using below_induction with
  | step t ih =>
    have inside (s : Tree) (below : Below s t) :
        (s.relabel f).value = s.value.map (Value.renamed f) :=
      ih s below fun r inner => keeps r (parts_trans r s t inner (below.part s t))
    cases t with
    | scalar id tag start text =>
      rw [relabel, value, value]
      exact scalarResult_renamed f id tag start text
    | sequence id tag start items =>
      have items' := itemValues_relabel f _ fun item member =>
        inside item (below_of_held item _ member)
      have held' := held_relabel f (.sequence id tag start items)
      rw [relabel] at held' ⊢
      rw [value, value, held', items']
      cases itemValues (Tree.sequence id tag start items).held with
      | error stop => rfl
      | ok values => exact congrArg (Except.ok ∘ Value.list) (arranged_renamed f tag values)
    | mapping id tag start pairs =>
      have flattened' := flattened_relabel f (.mapping id tag start pairs)
      have entries' := entries_relabel f (.mapping id tag start pairs)
      have values := entryValues_relabel f start (Tree.mapping id tag start pairs).entries []
        (fun pair member => by
          obtain ⟨key, value, -⟩ := below_of_entry _ pair member
          exact ⟨inside pair.1 key, inside pair.2 value⟩)
        (keeps _ (mem_parts_self _)) (fun _ _ _ _ _ member => absurd member List.not_mem_nil)
      rw [Value.renamedEntries] at values
      rw [relabel] at flattened' entries' ⊢
      rw [value, value, flattened', entries', values]
      cases (Tree.mapping id tag start pairs).flattened with
      | error stop => rfl
      | ok flat =>
        cases entryValues start (Tree.mapping id tag start pairs).entries [] with
        | error stop => rfl
        | ok entries => exact congrArg Except.ok (filled_renamed f tag entries)

end Tree

end Renaming

end LocaleLint.Yaml
