import LocaleLint.File.Access
import Mathlib.Data.List.Nodup

set_option autoImplicit false

namespace LocaleLint

structure IsEntryName (name : String) : Prop where
  isPart : Path.isPart name = true
  notUp : name ≠ ".."
  noNul : '\x00' ∉ name.toList
  short : name.utf8ByteSize ≤ FileSystem.maxPartOctets

instance (name : String) : Decidable (IsEntryName name) :=
  decidable_of_iff
    (Path.isPart name = true ∧ name ≠ ".." ∧ '\x00' ∉ name.toList ∧
      name.utf8ByteSize ≤ FileSystem.maxPartOctets)
    ⟨fun ⟨isPart, notUp, noNul, short⟩ => ⟨isPart, notUp, noNul, short⟩,
      fun ⟨isPart, notUp, noNul, short⟩ => ⟨isPart, notUp, noNul, short⟩⟩

namespace Tree

/-- In every directory each entry has a name of its own. -/
def IsNamed (tree : Tree) : Prop :=
  ∀ place entries, tree.find? place = some (.directory entries) →
    (entries.map Prod.fst).Nodup ∧ ∀ entry ∈ entries, IsEntryName entry.1

/-- Entries that show the same, apart from the entries within. -/
inductive Alike : Option Tree → Option Tree → Prop
  | nothing : Alike none none
  | file (octets : List UInt8) : Alike (some (.file octets)) (some (.file octets))
  | link (target : String) : Alike (some (.link target)) (some (.link target))
  | directory (entries others : List (String × Tree)) :
      Alike (some (.directory entries)) (some (.directory others))

def Looks (tree other : Tree) : Prop := ∀ place, Alike (tree.find? place) (other.find? place)

theorem find?_cons (entries : List (String × Tree)) (name : String) (rest : List String) :
    (directory entries).find? (name :: rest) = (entries.lookup name).bind (·.find? rest) := by
  simp only [find?]
  cases entries.lookup name <;> rfl

theorem find?_append (tree : Tree) (place rest : List String) :
    tree.find? (place ++ rest) = (tree.find? place).bind (·.find? rest) := by
  induction place generalizing tree with
  | nil => simp [find?_nil]
  | cons name place ih =>
    cases tree with
    | file octets => rfl
    | link target => rfl
    | directory entries =>
      rw [List.cons_append, find?_cons, find?_cons, Option.bind_assoc]
      exact Option.bind_congr fun entry _ => ih entry

theorem find?_singleton (entries : List (String × Tree)) (name : String) :
    (directory entries).find? [name] = entries.lookup name := by
  rw [find?_cons]
  cases entries.lookup name <;> simp [find?_nil]

theorem find?_child {tree : Tree} {place : List String} {entries : List (String × Tree)}
    (found : tree.find? place = some (.directory entries)) (name : String) :
    tree.find? (place ++ [name]) = entries.lookup name := by
  rw [find?_append, found, Option.bind_some, find?_singleton]

theorem IsNamed.below {tree entry : Tree} {place : List String} (named : tree.IsNamed)
    (found : tree.find? place = some entry) : entry.IsNamed := by
  intro rest entries shows
  exact named (place ++ rest) entries (by rw [find?_append, found, Option.bind_some, shows])

theorem IsNamed.entry {entries : List (String × Tree)} {name : String} {entry : Tree}
    (named : (directory entries).IsNamed) (listed : entries.lookup name = some entry) :
    entry.IsNamed :=
  named.below ((find?_singleton entries name).trans listed)

theorem mem_iff_lookup {entries : List (String × Tree)} (distinct : (entries.map Prod.fst).Nodup)
    (name : String) (entry : Tree) :
    (name, entry) ∈ entries ↔ entries.lookup name = some entry := by
  induction entries with
  | nil => simp
  | cons first rest ih =>
    obtain ⟨other, tree⟩ := first
    simp only [List.map_cons, List.nodup_cons] at distinct
    by_cases same : name = other
    next =>
      subst same
      have absent : (name, entry) ∉ rest := fun among => distinct.1 (List.mem_map_of_mem among)
      simp [absent, eq_comm]
    next =>
      have differs : (name == other) = false := beq_eq_false_iff_ne.mpr same
      simp [List.lookup_cons, differs, same, ih distinct.2]

theorem IsNamed.names {tree entry : Tree} {place : List String} (named : tree.IsNamed)
    (found : tree.find? place = some entry) : ∀ name ∈ place, IsEntryName name := by
  induction place generalizing tree with
  | nil => simp
  | cons first rest ih =>
    cases tree with
    | file octets => simp [find?] at found
    | link target => simp [find?] at found
    | directory entries =>
      obtain ⟨distinct, names⟩ := named [] entries (find?_nil _)
      obtain ⟨child, listed, inside⟩ : ∃ child, entries.lookup first = some child ∧
          child.find? rest = some entry := by
        simpa [find?_cons, Option.bind_eq_some_iff] using found
      have below := named.entry listed
      intro name among
      rcases List.mem_cons.mp among with rfl | among
      · exact names _ ((mem_iff_lookup distinct name child).mpr listed)
      · exact ih below inside name among

theorem placesOfEntries_eq (entries : List (String × Tree)) :
    placesOfEntries entries =
      entries.flatMap fun entry => [entry.1] :: entry.2.places.map (entry.1 :: ·) := by
  induction entries with
  | nil => rfl
  | cons first rest ih => simp [placesOfEntries, ih]

theorem mem_placesOfEntries (entries : List (String × Tree)) (name : String) (rest : List String) :
    name :: rest ∈ placesOfEntries entries ↔
      ∃ entry, (name, entry) ∈ entries ∧ (rest = [] ∨ rest ∈ entry.places) := by
  simp only [placesOfEntries_eq, List.mem_flatMap, List.mem_cons, List.cons.injEq, List.mem_map,
    Prod.exists]
  grind

theorem mem_places (tree : Tree) (named : tree.IsNamed) (parts : List String) :
    parts ∈ tree.places ↔ parts ≠ [] ∧ (tree.find? parts).isSome := by
  induction parts generalizing tree with
  | nil =>
    cases tree with
    | file octets => simp [places]
    | link target => simp [places]
    | directory entries => simp [places, placesOfEntries_eq]
  | cons name rest ih =>
    cases tree with
    | file octets => simp [places, find?]
    | link target => simp [places, find?]
    | directory entries =>
      have distinct := (named [] entries (find?_nil _)).1
      rw [places, mem_placesOfEntries, find?_cons]
      simp only [mem_iff_lookup distinct]
      cases found : entries.lookup name with
      | none => simp
      | some entry =>
        have below := named.entry found
        by_cases last : rest = []
        · simp [last, find?_nil]
        · simp [last, ih entry below]

mutual

theorem places_nodup (tree : Tree) (named : tree.IsNamed) : tree.places.Nodup := by
  cases tree with
  | file octets => simp [places]
  | link target => simp [places]
  | directory entries =>
    have distinct := (named [] entries (find?_nil _)).1
    refine placesOfEntries_nodup entries distinct fun name entry among => ?_
    exact named.entry ((mem_iff_lookup distinct name entry).mp among)

theorem placesOfEntries_nodup (entries : List (String × Tree))
    (distinct : (entries.map Prod.fst).Nodup)
    (named : ∀ name entry, (name, entry) ∈ entries → entry.IsNamed) :
    (placesOfEntries entries).Nodup := by
  cases entries with
  | nil => simp [placesOfEntries]
  | cons first rest =>
    obtain ⟨name, entry⟩ := first
    obtain ⟨fresh, distinct⟩ := List.nodup_cons.mp distinct
    have entryNamed : entry.IsNamed := named name entry List.mem_cons_self
    have own : entry.places.Nodup := places_nodup entry entryNamed
    have others : (placesOfEntries rest).Nodup :=
      placesOfEntries_nodup rest distinct fun name entry among =>
        named name entry (List.mem_cons_of_mem _ among)
    have proper : [] ∉ entry.places :=
      fun among => ((mem_places entry entryNamed []).mp among).1 rfl
    have apart (parts : List String) : name :: parts ∉ placesOfEntries rest := by
      intro among
      obtain ⟨other, listed, -⟩ := (mem_placesOfEntries rest name parts).mp among
      exact fresh (List.mem_map.mpr ⟨(name, other), listed, rfl⟩)
    rw [placesOfEntries, List.cons_append, List.nodup_cons, List.nodup_append]
    refine ⟨?_, own.map List.cons_injective, others, ?_⟩
    · simp [proper, apart]
    · intro parts among parts' among' same
      obtain ⟨below, -, rfl⟩ := List.mem_map.mp among
      exact apart below (same ▸ among')

end

theorem Alike.eq_file {octets : List UInt8} {entry : Option Tree}
    (alike : Alike (some (.file octets)) entry) : entry = some (.file octets) := by
  cases alike
  rfl

theorem Alike.eq_link {target : String} {entry : Option Tree}
    (alike : Alike (some (.link target)) entry) : entry = some (.link target) := by
  cases alike
  rfl

theorem Alike.eq_none {entry : Option Tree} (alike : Alike none entry) : entry = none := by
  cases alike
  rfl

theorem Alike.eq_some {entry : Tree} {other : Option Tree} (alike : Alike (some entry) other) :
    ∃ entry', other = some entry' := by
  cases alike <;> exact ⟨_, rfl⟩

theorem Alike.eq_directory {entries : List (String × Tree)} {entry : Option Tree}
    (alike : Alike (some (.directory entries)) entry) :
    ∃ others, entry = some (.directory others) := by
  cases alike with
  | directory entries others => exact ⟨others, rfl⟩

theorem Alike.symm {entry other : Option Tree} (alike : Alike entry other) : Alike other entry := by
  cases alike <;> constructor

theorem Looks.symm {tree other : Tree} (looks : tree.Looks other) : other.Looks tree :=
  fun place => (looks place).symm

theorem Looks.below {tree other entry entry' : Tree} {place : List String}
    (looks : tree.Looks other)
    (found : tree.find? place = some entry) (found' : other.find? place = some entry') :
    entry.Looks entry' := by
  intro rest
  have same := looks (place ++ rest)
  rwa [find?_append, find?_append, found, found', Option.bind_some, Option.bind_some] at same

theorem Looks.child {tree other : Tree} (looks : tree.Looks other) {place : List String}
    {entries others : List (String × Tree)} (found : tree.find? place = some (.directory entries))
    (found' : other.find? place = some (.directory others)) (name : String) :
    Alike (entries.lookup name) (others.lookup name) := by
  rw [← find?_child found, ← find?_child found']
  exact looks (place ++ [name])

end Tree

end LocaleLint
