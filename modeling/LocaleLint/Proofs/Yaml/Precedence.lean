import LocaleLint.Proofs.Yaml.Merge
import LocaleLint.Proofs.Yaml.Meaning
import LocaleLint.Proofs.Yaml.Upkeep

set_option autoImplicit false

namespace LocaleLint.Yaml

def lookupKey (entries : List (Scalar × Value)) (key : Scalar) : Option Value :=
  (entries.find? fun entry => entry.1.same key).map Prod.snd

theorem lookupKey_putEntry (entries : List (Scalar × Value)) (name key : Scalar) (value : Value) :
    lookupKey (putEntry entries name value) key =
      if name.same key then some value else lookupKey entries key := by
  induction entries with
  | nil =>
    rw [putEntry, lookupKey, List.find?_cons]
    cases name.same key <;> rfl
  | cons entry rest ih =>
    obtain ⟨first, old⟩ := entry
    rw [putEntry]
    by_cases again : first.same name = true
    · -- The first key stays, and it is the same as the new one.
      have alike : first.same key = name.same key := by
        rw [Bool.eq_iff_iff, Scalar.same_iff, Scalar.same_iff,
          (Scalar.same_iff first name).mp again]
      rw [if_pos again, lookupKey, lookupKey, List.find?_cons, List.find?_cons, alike]
      cases name.same key <;> rfl
    · rw [if_neg again]
      unfold lookupKey at ih ⊢
      rw [List.find?_cons, List.find?_cons]
      cases here : first.same key with
      | false => exact ih
      | true =>
        have other : name.same key = false := by
          rw [Bool.eq_false_iff]
          intro same
          rw [Scalar.same_iff] at here same
          exact again ((Scalar.same_iff first name).mpr (here.trans same.symm))
        rw [other]
        rfl

/-- Entries that were made of pairs, one after another. -/
inductive Entered (built : Array (Option Value)) :
    List (NodeId × NodeId) → List (Scalar × Value) → Prop
  | nil : Entered built [] []
  | next (pairs : List (NodeId × NodeId)) (entries : List (Scalar × Value)) (pair : NodeId × NodeId)
      (key : Scalar) (value : Value) (before : Entered built pairs entries)
      (named : keyIn built pair.1 = some key) (made : built.getD pair.2 none = some value) :
      Entered built (pairs ++ [pair]) (putEntry entries key value)

theorem Entered.mono (m later : Memory) (pairs : List (NodeId × NodeId))
    (entries : List (Scalar × Value))
    (entered : Entered m.built pairs entries) (grown : m.Extends later) :
    Entered later.built pairs entries := by
  induction entered with
  | nil => exact .nil
  | next pairs entries pair key value _ named made ih =>
    exact .next pairs entries pair key value ih (keyIn_extends m later pair.1 key grown named)
      (grown.built pair.2 value made)

def isKeyIn (built : Array (Option Value)) (key : Scalar) (id : NodeId) : Bool :=
  (keyIn built id).any (·.same key)

theorem Entered.lookupKey_eq (built : Array (Option Value)) (pairs : List (NodeId × NodeId))
    (entries : List (Scalar × Value)) (key : Scalar) (entered : Entered built pairs entries) :
    lookupKey entries key =
      (pairs.reverse.find? fun pair => isKeyIn built key pair.1).bind fun pair =>
        built.getD pair.2 none := by
  induction entered with
  | nil => rfl
  | next pairs entries pair name value _ named made ih =>
    rw [lookupKey_putEntry, List.reverse_append, List.reverse_singleton, List.singleton_append,
      List.find?_cons, isKeyIn, named, Option.any_some, ih]
    cases name.same key with
    | false => rfl
    | true => exact made.symm

namespace Tree

variable (isKey : NodeId → Bool)

def lastOf (pairs : List (Tree × Tree)) : Option Tree :=
  (pairs.reverse.find? fun pair => isKey pair.1.id).map Prod.snd

theorem lastOf_append (pairs others : List (Tree × Tree)) :
    lastOf isKey (pairs ++ others) = (lastOf isKey others).or (lastOf isKey pairs) := by
  rw [lastOf, List.reverse_append, List.find?_append, Option.map_or]
  rfl

mutual

-- The value that a source of merging provides under the key.
def provided : Tree → Option Tree
  | .scalar _ _ _ _ => none
  | .sequence _ _ _ items => providedFirst items
  | .mapping _ _ _ pairs => (lastOf isKey (own pairs)).or (providedLast pairs)

def providedFirst : List Tree → Option Tree
  | [] => none
  | item :: rest => item.provided.or (providedFirst rest)

def providedLast : List (Tree × Tree) → Option Tree
  | [] => none
  | (key, value) :: rest => (providedLast rest).or (if key.isMerge then value.provided else none)

end

theorem lastOf_listed (start : Position) (items : List Tree) (lists : List (List (Tree × Tree)))
    (gives : listed start items = .ok lists)
    (each : ∀ item ∈ items, ∀ first, item.given start = .ok first →
      lastOf isKey first = item.provided isKey) :
    lastOf isKey lists.reverse.flatten = providedFirst isKey items := by
  induction items generalizing lists with
  | nil =>
    cases gives
    rfl
  | cons item rest ih =>
    obtain ⟨early, late, first, others, rfl⟩ := listed_eq_ok start item rest lists gives
    have later := ih late others fun item member => each item (List.mem_cons_of_mem _ member)
    rw [List.reverse_cons, List.flatten_append, List.flatten_singleton, lastOf_append,
      each item (List.mem_cons_self ..) early first, later, providedFirst]

theorem lastOf_merged (start : Position) (pairs more : List (Tree × Tree))
    (gives : merged start pairs = .ok more)
    (each : ∀ pair ∈ pairs, ∀ first, pair.2.given start = .ok first →
      lastOf isKey first = pair.2.provided isKey) :
    lastOf isKey more = providedLast isKey pairs := by
  induction pairs generalizing more with
  | nil =>
    cases gives
    rfl
  | cons pair rest ih =>
    obtain ⟨key, value⟩ := pair
    have inner := fun pair member => each pair (List.mem_cons_of_mem _ member)
    rw [providedLast]
    by_cases merges : key.isMerge = true
    · obtain ⟨early, late, first, others, rfl⟩ :=
        merged_eq_ok start key value rest more merges gives
      rw [lastOf_append, ih late others inner,
        each (key, value) (List.mem_cons_self ..) early first,
        if_pos merges]
    · rw [merged_of_not_merge start key value rest merges] at gives
      rw [ih more gives inner, if_neg merges, Option.or_none]

theorem lastOf_given (start : Position) (t : Tree) (entries : List (Tree × Tree))
    (gives : t.given start = .ok entries) : lastOf isKey entries = t.provided isKey := by
  induction t using Tree.induction generalizing start entries with
  | step t ih =>
    cases t with
    | scalar id tag place text => cases gives
    | sequence id tag place items =>
      obtain ⟨lists, listed, rfl⟩ := given_sequence_eq_ok start id tag place items entries gives
      exact lastOf_listed isKey start items lists listed fun item member => ih item member start
    | mapping id tag place pairs =>
      obtain ⟨more, merged, rfl⟩ := given_mapping_eq_ok start id tag place pairs entries gives
      have inherited := lastOf_merged isKey place pairs more merged fun pair member =>
        ih pair.2 (mem_children_mapping id tag place pairs pair member).2 place
      rw [lastOf_append, inherited, provided]

theorem find?_idsOf (pairs : List (Tree × Tree)) (built : Array (Option Value)) :
    ((idsOf pairs).reverse.find? fun pair => isKey pair.1).bind
      (fun pair => built.getD pair.2 none) =
      (lastOf isKey pairs).bind fun value => built.getD value.id none := by
  rw [lastOf, idsOf, ← List.map_reverse, List.find?_map, Option.bind_map, Option.bind_map]
  rfl

end Tree

end LocaleLint.Yaml
