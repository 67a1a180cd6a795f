import LocaleLint.Proofs.File.Tree

set_option autoImplicit false

namespace LocaleLint.Tree

def entriesOf : Tree → List (String × Tree)
  | .directory entries => entries
  | .file _ | .link _ => []

theorem insert_cons (name : String) (rest : List String) (entry tree : Tree) :
    insert (name :: rest) entry tree =
      .directory (putEntry tree.entriesOf name
        (insert rest entry ((tree.entriesOf.lookup name).getD empty))) := by
  cases tree <;> rfl

theorem lookup_putEntry_ne (entries : List (String × Tree)) {name other : String} (entry : Tree)
    (differs : other ≠ name) :
    (putEntry entries name entry).lookup other = entries.lookup other := by
  have apart : (other == name) = false := beq_eq_false_iff_ne.mpr differs
  induction entries with
  | nil => simp [putEntry, List.lookup_cons, apart]
  | cons first rest ih =>
    obtain ⟨n, e⟩ := first
    simp only [putEntry]
    split
    · next same => simp [List.lookup_cons, same, apart]
    · simp only [List.lookup_cons, ih]

theorem map_fst_putEntry (entries : List (String × Tree)) (name : String) (entry : Tree) :
    (putEntry entries name entry).map Prod.fst =
      if name ∈ entries.map Prod.fst then entries.map Prod.fst
        else entries.map Prod.fst ++ [name] := by
  induction entries with
  | nil => simp [putEntry]
  | cons first rest ih =>
    obtain ⟨n, e⟩ := first
    simp only [putEntry]
    split
    · next same => simp [same]
    · next differs =>
      simp only [List.map_cons, ih, List.mem_cons, Ne.symm differs, false_or]
      split <;> simp

theorem isNamed_directory {entries : List (String × Tree)}
    (distinct : (entries.map Prod.fst).Nodup)
    (names : ∀ name ∈ entries.map Prod.fst, IsEntryName name)
    (below : ∀ name entry, entries.lookup name = some entry → entry.IsNamed) :
    (directory entries).IsNamed := by
  intro place others found
  cases place with
  | nil =>
    cases (find?_nil (directory entries)).symm.trans found
    exact ⟨distinct, fun entry among => names _ (List.mem_map_of_mem among)⟩
  | cons name rest =>
    obtain ⟨entry, listed, inside⟩ : ∃ entry, entries.lookup name = some entry ∧
        entry.find? rest = some (.directory others) := by
      simpa [find?_cons, Option.bind_eq_some_iff] using found
    exact below name entry listed rest others inside

theorem isNamed_empty : empty.IsNamed := isNamed_directory (by simp) (by simp) (by simp)

theorem isNamed_file (octets : List UInt8) : (file octets).IsNamed := by
  intro place entries found
  cases place <;> simp [find?] at found

theorem isNamed_link (target : String) : (link target).IsNamed := by
  intro place entries found
  cases place <;> simp [find?] at found

theorem IsNamed.insert {tree entry : Tree} {place : List String} (named : tree.IsNamed)
    (inner : entry.IsNamed) (names : ∀ name ∈ place, IsEntryName name) :
    (insert place entry tree).IsNamed := by
  induction place generalizing tree with
  | nil =>
    unfold Tree.insert
    split <;> first | assumption | contradiction
  | cons name rest ih =>
    rw [List.forall_mem_cons] at names
    have within : (directory tree.entriesOf).IsNamed := by
      cases tree with
      | directory entries => exact named
      | file octets => exact isNamed_empty
      | link target => exact isNamed_empty
    obtain ⟨distinct, known⟩ := within [] _ (find?_nil _)
    have inserted : (Tree.insert rest entry ((tree.entriesOf.lookup name).getD empty)).IsNamed := by
      refine ih ?_ names.2
      cases listed : tree.entriesOf.lookup name with
      | none => exact isNamed_empty
      | some other => exact within.entry listed
    rw [insert_cons]
    refine isNamed_directory ?_ ?_ ?_
    · rw [map_fst_putEntry]
      split
      · exact distinct
      · next fresh => simpa [List.nodup_append] using ⟨distinct, fun a among => by grind⟩
    · rw [map_fst_putEntry]
      have known' : ∀ name ∈ tree.entriesOf.map Prod.fst, IsEntryName name := by
        simpa using fun name entry among => known (name, entry) among
      split
      · exact known'
      · simpa [or_imp, forall_and] using ⟨by simpa using known', names.1⟩
    · intro other entry' listed
      by_cases same : other = name
      · subst same
        rw [lookup_putEntry, Option.some.injEq] at listed
        exact listed ▸ inserted
      · rw [lookup_putEntry_ne _ _ same] at listed
        exact within.entry listed

-- The tree that is made by putting entries at places one after another.
def made (entries : List (List String × Tree)) (tree : Tree) : Tree :=
  entries.foldl (fun tree entry => insert entry.1 entry.2 tree) tree

theorem isNamed_made {entries : List (List String × Tree)}
    (named : ∀ entry ∈ entries, entry.2.IsNamed ∧ ∀ name ∈ entry.1, IsEntryName name) {tree : Tree}
    (before : tree.IsNamed) : (made entries tree).IsNamed := by
  induction entries generalizing tree with
  | nil => exact before
  | cons entry rest ih =>
    rw [List.forall_mem_cons] at named
    exact ih named.2 (before.insert named.1.1 named.1.2)

end LocaleLint.Tree
