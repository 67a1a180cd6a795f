set_option autoImplicit false

namespace LocaleLint

inductive Tree
  | file (octets : List UInt8)
  | link (target : String)
  | directory (entries : List (String × Tree))
deriving Repr, Inhabited

namespace Tree

def empty : Tree := .directory []

def find? : Tree → List String → Option Tree
  | tree, [] => some tree
  | .directory entries, name :: rest =>
      match entries.lookup name with
      | some entry => find? entry rest
      | none => none
  | .file _, _ :: _ | .link _, _ :: _ => none

theorem find?_nil (tree : Tree) : tree.find? [] = some tree := by
  cases tree <;> rfl

def putEntry (entries : List (String × Tree)) (name : String) (entry : Tree) :
    List (String × Tree) :=
  match entries with
  | [] => [(name, entry)]
  | (n, e) :: rest => if n = name then (n, entry) :: rest else (n, e) :: putEntry rest name entry

theorem lookup_putEntry (entries : List (String × Tree)) (name : String) (entry : Tree) :
    (putEntry entries name entry).lookup name = some entry := by
  induction entries with
  | nil => simp [putEntry]
  | cons first rest ih =>
      obtain ⟨n, e⟩ := first
      simp only [putEntry]
      split
      · next same => simp [same]
      · next differs =>
        have : (name == n) = false := beq_eq_false_iff_ne.mpr fun same => differs same.symm
        simp [List.lookup_cons, this, ih]

-- Puts an entry at a place and makes the directories that lead there. An empty directory does not
-- take the place of one that is already there.
def insert : List String → Tree → Tree → Tree
  | [], .directory [], .directory entries => .directory entries
  | [], entry, _ => entry
  | name :: rest, entry, .directory entries =>
      .directory (putEntry entries name (insert rest entry ((entries.lookup name).getD empty)))
  | name :: rest, entry, _ => .directory [(name, insert rest entry empty)]

mutual

def places : Tree → List (List String)
  | .directory entries => placesOfEntries entries
  | .file _ | .link _ => []

def placesOfEntries : List (String × Tree) → List (List String)
  | [] => []
  | (name, entry) :: rest => [name] :: (places entry).map (name :: ·) ++ placesOfEntries rest

end

mutual

def linkCount : Tree → Nat
  | .directory entries => linkCountEntries entries
  | .file _ => 0
  | .link _ => 1

def linkCountEntries : List (String × Tree) → Nat
  | [] => 0
  | (_, entry) :: rest => linkCount entry + linkCountEntries rest

end

end Tree

end LocaleLint
