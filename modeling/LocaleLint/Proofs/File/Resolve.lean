import Mathlib.Data.List.Perm.Subperm
import Mathlib.Data.Nat.Find
import LocaleLint.File.Resolve
import LocaleLint.Proofs.File.Access

set_option autoImplicit false

namespace LocaleLint

namespace Tree

def IsLinkFree (tree : Tree) (place : List String) : Prop :=
  ∀ upper, upper <+: place → ∀ target, tree.find? upper ≠ some (.link target)

theorem IsLinkFree.upper {tree : Tree} {place upper : List String} (free : tree.IsLinkFree place)
    (above : upper <+: place) : tree.IsLinkFree upper :=
  fun other within => free other (within.trans above)

theorem isLinkFree_of_directory {tree : Tree} {place : List String} {entries : List (String × Tree)}
    (stands : tree.find? place = some (.directory entries)) : tree.IsLinkFree place := by
  rintro upper ⟨rest, rfl⟩ target found
  rw [find?_append, found, Option.bind_some] at stands
  cases rest <;> simp [find?] at stands

theorem IsLinkFree.concat {tree : Tree} {place : List String} {name : String}
    (free : tree.IsLinkFree place)
    (notLink : ∀ target, tree.find? (place ++ [name]) ≠ some (.link target)) :
    tree.IsLinkFree (place ++ [name]) := by
  intro upper above
  rcases List.prefix_concat_iff.mp above with rfl | within
  · exact notLink
  · exact free upper within

mutual

def linkPlaces : Tree → List (List String)
  | .directory entries => linkPlacesOfEntries entries
  | .file _ => []
  | .link _ => [[]]

def linkPlacesOfEntries : List (String × Tree) → List (List String)
  | [] => []
  | (name, entry) :: rest => (linkPlaces entry).map (name :: ·) ++ linkPlacesOfEntries rest

end

mutual

theorem length_linkPlaces (tree : Tree) : tree.linkPlaces.length = tree.linkCount := by
  cases tree with
  | file octets => rfl
  | link target => rfl
  | directory entries =>
    rw [linkPlaces, linkCount]
    exact length_linkPlacesOfEntries entries

theorem length_linkPlacesOfEntries (entries : List (String × Tree)) :
    (linkPlacesOfEntries entries).length = linkCountEntries entries := by
  cases entries with
  | nil => rfl
  | cons first rest =>
    have own := length_linkPlaces first.2
    have others := length_linkPlacesOfEntries rest
    simp [linkPlacesOfEntries, linkCountEntries, own, others]

end

theorem mem_linkPlacesOfEntries {entries : List (String × Tree)} {name : String} {entry : Tree}
    {place : List String} (listed : entries.lookup name = some entry)
    (inside : place ∈ entry.linkPlaces) : name :: place ∈ linkPlacesOfEntries entries := by
  induction entries with
  | nil => cases listed
  | cons first rest ih =>
    obtain ⟨other, tree⟩ := first
    rw [linkPlacesOfEntries, List.mem_append]
    rw [List.lookup_cons] at listed
    split at listed
    · next same =>
      cases listed
      rw [beq_iff_eq] at same
      exact .inl (List.mem_map.mpr ⟨place, inside, by rw [same]⟩)
    · exact .inr (ih listed)

theorem mem_linkPlaces {tree : Tree} {place : List String} {target : String}
    (found : tree.find? place = some (.link target)) : place ∈ tree.linkPlaces := by
  induction place generalizing tree with
  | nil =>
    rw [find?_nil] at found
    cases found
    exact List.mem_singleton.mpr rfl
  | cons name rest ih =>
    cases tree with
    | file octets => cases found
    | link target => cases found
    | directory entries =>
      rw [find?_cons, Option.bind_eq_some_iff] at found
      obtain ⟨entry, listed, inside⟩ := found
      exact mem_linkPlacesOfEntries listed (ih inside)

theorem length_le_linkCount (tree : Tree) (links : List (List String)) (distinct : links.Nodup)
    (found : ∀ link ∈ links, ∃ target, tree.find? link = some (.link target)) :
    links.length ≤ tree.linkCount := by
  have listed : links ⊆ tree.linkPlaces := by
    intro link member
    obtain ⟨target, isLink⟩ := found link member
    exact mem_linkPlaces isLink
  rw [← length_linkPlaces]
  exact (List.subperm_of_subset distinct listed).length_le

end Tree

namespace FileSystem

def IsProper (name : String) : Prop := Path.isPart name = true ∧ name ≠ ".."

inductive Leads (tree : Tree) : Nat → List String → List String → List String → Prop
  | arrived (depth : Nat) (place : List String) : Leads tree depth place [] place
  | skip {depth : Nat} {here rest place : List String} {name : String}
      (idle : Path.isPart name = false) (onwards : Leads tree depth here rest place) :
      Leads tree depth here (name :: rest) place
  | up {depth : Nat} {here rest place : List String}
      (onwards : Leads tree depth here.dropLast rest place) :
      Leads tree depth here (".." :: rest) place
  | link {depth : Nat} {here rest middle place : List String} {name target : String}
      (proper : IsProper name) (found : tree.find? (here ++ [name]) = some (.link target))
      (inside : Leads tree depth (startOf target here) (Path.components target) middle)
      (onwards : Leads tree (depth + 1) middle rest place) :
      Leads tree (depth + 1) here (name :: rest) place
  | enter {depth : Nat} {here rest place : List String} {name : String} (proper : IsProper name)
      (notLink : ∀ target, tree.find? (here ++ [name]) ≠ some (.link target))
      (onwards : Leads tree depth (here ++ [name]) rest place) :
      Leads tree depth here (name :: rest) place

def LeadsTo (fs : FileSystem) (path : Path) (place : List String) : Prop :=
  ∃ depth, Leads fs.tree depth (fs.start path) path.parts place

section Leads

variable {tree : Tree} {depth deeper : Nat} {here parts place other : List String}

theorem isPart_up : Path.isPart ".." = true := by decide

theorem Leads.mono (leads : Leads tree depth here parts place) (le : depth ≤ deeper) :
    Leads tree deeper here parts place := by
  induction leads generalizing deeper with
  | arrived => exact .arrived _ _
  | skip idle _ ih => exact .skip idle (ih le)
  | up _ ih => exact .up (ih le)
  | link proper found _ _ inside ih =>
    obtain ⟨least, rfl⟩ : ∃ least, deeper = least + 1 := ⟨deeper - 1, by omega⟩
    exact .link proper found (inside (by omega)) (ih le)
  | enter proper notLink _ ih => exact .enter proper notLink (ih le)

theorem Leads.unique (leads : Leads tree depth here parts place)
    (leads' : Leads tree deeper here parts other) : place = other := by
  -- The first part alone tells which step a chain takes.
  induction leads generalizing deeper other with
  | arrived =>
    cases leads'
    rfl
  | skip idle _ ih =>
    cases leads' with
    | skip _ onwards => exact ih onwards
    | up => rw [isPart_up] at idle; contradiction
    | link proper => rw [proper.1] at idle; contradiction
    | enter proper => rw [proper.1] at idle; contradiction
  | up _ ih =>
    cases leads' with
    | skip idle => rw [isPart_up] at idle; contradiction
    | up onwards => exact ih onwards
    | link proper => exact absurd rfl proper.2
    | enter proper => exact absurd rfl proper.2
  | link proper found _ _ inside ih =>
    cases leads' with
    | skip idle => rw [proper.1] at idle; contradiction
    | up => exact absurd rfl proper.2
    | link _ found' inside' onwards =>
      cases found.symm.trans found'
      cases inside inside'
      exact ih onwards
    | enter _ notLink => exact absurd found (notLink _)
  | enter proper notLink _ ih =>
    cases leads' with
    | skip idle => rw [proper.1] at idle; contradiction
    | up => exact absurd rfl proper.2
    | link _ found => exact absurd found (notLink _)
    | enter _ _ onwards => exact ih onwards

def Settles (tree : Tree) (depth : Nat) (link : List String) : Prop :=
  ∃ target middle, tree.find? link = some (.link target) ∧
    Leads tree depth (startOf target link.dropLast) (Path.components target) middle

variable {follow : List (List String) → List String → List String → Resolution}
  {pending : List (List String)}

theorem resolveWith_enter {name : String} (proper : IsProper name)
    (notLink : ∀ target, tree.find? (here ++ [name]) ≠ some (.link target)) (rest : List String) :
    resolveWith tree follow pending here (name :: rest) =
      resolveWith tree follow pending (here ++ [name]) rest := by
  simp only [resolveWith, proper.1, proper.2, Bool.not_true, Bool.false_eq_true, if_false]

theorem resolveWith_link {name target : String} (proper : IsProper name)
    (found : tree.find? (here ++ [name]) = some (.link target)) (rest : List String) :
    resolveWith tree follow pending here (name :: rest) =
      if here ++ [name] ∈ pending then ⟨append (here ++ [name]) rest, false⟩
      else
        let inner :=
          follow ((here ++ [name]) :: pending) (startOf target here) (Path.components target)
        if inner.complete then resolveWith tree follow pending inner.place rest
        else ⟨append inner.place rest, false⟩ := by
  simp only [resolveWith, proper.1, proper.2, found, Bool.not_true, Bool.false_eq_true, if_false,
    List.contains_iff_mem]

theorem resolveWith_eq (leads : Leads tree depth here parts place)
    (apart : ∀ link nested, nested < depth → Settles tree nested link → link ∉ pending)
    (followed : ∀ link target middle nested, nested < depth → link ∉ pending →
      tree.find? link = some (.link target) →
      Leads tree nested (startOf target link.dropLast) (Path.components target) middle →
      follow (link :: pending) (startOf target link.dropLast) (Path.components target) =
        ⟨middle, true⟩) :
    resolveWith tree follow pending here parts = ⟨place, true⟩ := by
  induction leads with
  | arrived => rfl
  | skip idle _ ih =>
    rw [resolveWith, idle]
    exact ih apart followed
  | up _ ih =>
    rw [resolveWith, isPart_up]
    exact ih apart followed
  | @link depth here rest middle place name target proper found inside onwards _ ih =>
    have nested : Leads tree depth (startOf target (here ++ [name]).dropLast)
        (Path.components target) middle := by
      rw [List.dropLast_concat]
      exact inside
    have fresh := apart _ depth (Nat.lt_succ_self depth) ⟨target, middle, found, nested⟩
    have led := followed _ target middle depth (Nat.lt_succ_self depth) fresh found nested
    rw [List.dropLast_concat] at led
    rw [resolveWith_link proper found, if_neg fresh, led]
    exact ih apart followed
  | enter proper notLink _ ih =>
    rw [resolveWith_enter proper notLink]
    exact ih apart followed

/-- No pending link settles with fewer nested links than the path that is being resolved within its
target, so none of them turns up there. -/
structure IsPending (tree : Tree) (depth : Nat) (pending : List (List String)) : Prop where
  distinct : pending.Nodup
  found : ∀ link ∈ pending, ∃ target, tree.find? link = some (.link target)
  unsettled : ∀ link ∈ pending, ∀ nested < depth, ¬ Settles tree nested link

theorem IsPending.push (isPending : IsPending tree depth pending) {link : List String}
    {target : String} (fresh : link ∉ pending) (found : tree.find? link = some (.link target))
    {least : Nat} (le : least ≤ depth) (minimal : ∀ nested < least, ¬ Settles tree nested link) :
    IsPending tree least (link :: pending) where
  distinct := List.nodup_cons.mpr ⟨fresh, isPending.distinct⟩
  found := by
    rw [List.forall_mem_cons]
    exact ⟨⟨target, found⟩, isPending.found⟩
  unsettled := by
    rw [List.forall_mem_cons]
    exact ⟨minimal, fun other member nested lt =>
      isPending.unsettled other member nested (Nat.lt_of_lt_of_le lt le)⟩

theorem resolveFrom_leads (leads : Leads tree depth here parts place)
    (isPending : IsPending tree depth pending) (fuel : Nat)
    (enough : tree.linkCount ≤ pending.length + fuel) :
    resolveFrom tree fuel pending here parts = ⟨place, true⟩ := by
  induction depth using Nat.strongRecOn generalizing fuel pending here parts place with
  | ind depth ih =>
  have apart : ∀ link nested, nested < depth → Settles tree nested link → link ∉ pending :=
    fun link nested lt settled member => isPending.unsettled link member nested lt settled
  -- A link whose target comes next is one more that is pending, and it settles with fewer links.
  have further : ∀ link target middle nested, nested < depth → link ∉ pending →
      tree.find? link = some (.link target) →
      Leads tree nested (startOf target link.dropLast) (Path.components target) middle →
      ∃ least < depth, IsPending tree least (link :: pending) ∧
        Leads tree least (startOf target link.dropLast) (Path.components target) middle := by
    intro link target middle nested lt fresh found inside
    classical
    have settles : ∃ nested, Settles tree nested link := ⟨nested, target, middle, found, inside⟩
    obtain ⟨target', middle', found', inside'⟩ := Nat.find_spec settles
    cases found.symm.trans found'
    cases inside.unique inside'
    have least_le : Nat.find settles ≤ nested :=
      Nat.find_min' settles ⟨target, middle, found, inside⟩
    refine ⟨Nat.find settles, by omega, ?_, inside'⟩
    exact isPending.push fresh found (by omega) fun nested lt => Nat.find_min settles lt
  cases fuel with
  | zero =>
    refine resolveWith_eq leads apart fun link target middle nested lt fresh found inside => ?_
    obtain ⟨least, -, more, -⟩ := further link target middle nested lt fresh found inside
    have few := tree.length_le_linkCount (link :: pending) more.distinct more.found
    rw [List.length_cons] at few
    omega
  | succ fuel =>
    refine resolveWith_eq leads apart fun link target middle nested lt fresh found inside => ?_
    obtain ⟨least, lt, more, inside⟩ := further link target middle nested lt fresh found inside
    refine ih least lt inside more fuel ?_
    rw [List.length_cons]
    omega

theorem resolveFrom_eq (leads : Leads tree depth here parts place) :
    resolveFrom tree tree.linkCount [] here parts = ⟨place, true⟩ := by
  have none : IsPending tree depth [] := ⟨List.nodup_nil, by simp, by simp⟩
  exact resolveFrom_leads leads none tree.linkCount (by simp)

theorem Leads.split {first rest : List String}
    (leads : Leads tree depth here (first ++ rest) place) :
    ∃ middle, Leads tree depth here first middle ∧ Leads tree depth middle rest place := by
  induction first generalizing here with
  | nil => exact ⟨here, .arrived _ _, leads⟩
  | cons name first ih =>
    cases leads with
    | skip idle onwards =>
      obtain ⟨middle, before, after⟩ := ih onwards
      exact ⟨middle, .skip idle before, after⟩
    | up onwards =>
      obtain ⟨middle, before, after⟩ := ih onwards
      exact ⟨middle, .up before, after⟩
    | link proper found inside onwards =>
      obtain ⟨middle, before, after⟩ := ih onwards
      exact ⟨middle, .link proper found inside before, after⟩
    | enter proper notLink onwards =>
      obtain ⟨middle, before, after⟩ := ih onwards
      exact ⟨middle, .enter proper notLink before, after⟩

section Walk

variable {onto : List String → List String → Except AccessFailure (List String)}

theorem leads_of_walkWith
    (followed : ∀ here parts place, onto here parts = .ok place → Leads tree depth here parts place)
    (walked : walkWith tree onto here parts = .ok place) :
    Leads tree (depth + 1) here parts place := by
  induction parts generalizing here with
  | nil =>
    cases walked
    exact .arrived _ _
  | cons name rest ih =>
    simp only [walkWith] at walked
    split at walked <;> try contradiction
    next entries atHere =>
    split at walked
    · next idle => exact .skip (by simpa using idle) (ih walked)
    next isPart =>
    split at walked
    · next isUp =>
      subst isUp
      exact .up (ih walked)
    next notUp =>
    have proper : IsProper name := ⟨by simpa using isPart, notUp⟩
    split at walked <;> try contradiction
    have child := Tree.find?_child atHere name
    split at walked <;> try contradiction
    · next target listed =>
      obtain ⟨middle, inside, onwards⟩ := (followed _ _ _ walked).split
      exact .link proper (child.trans listed) inside (onwards.mono (Nat.le_succ _))
    · next entry notLink listed =>
      refine .enter proper (fun target found => ?_) (ih walked)
      rw [child, listed, Option.some.injEq] at found
      exact notLink target found

theorem Leads.of_walk (links : Nat) (walked : walk tree links here parts = .ok place) :
    Leads tree (links + 1) here parts place := by
  induction links generalizing here parts place with
  | zero => exact leads_of_walkWith (fun _ _ _ followed => by contradiction) walked
  | succ links ih => exact leads_of_walkWith (fun _ _ _ followed => ih followed) walked

end Walk

end Leads

section LinkFree

variable {tree : Tree} {depth : Nat} {here parts place : List String}

theorem Leads.isLinkFree (leads : Leads tree depth here parts place) (free : tree.IsLinkFree here) :
    tree.IsLinkFree place := by
  induction leads with
  | arrived => exact free
  | skip _ _ ih => exact ih free
  | up _ ih => exact ih (free.upper (List.dropLast_prefix _))
  | @link _ here _ _ _ _ target _ _ _ _ inside ih =>
    have start : tree.IsLinkFree (startOf target here) := by
      unfold startOf
      split
      · exact free.upper List.nil_prefix
      · exact free
    exact ih (inside start)
  | enter _ notLink _ ih => exact ih (free.concat notLink)

theorem Leads.proper (leads : Leads tree depth here parts place)
    (names : ∀ name ∈ here, IsProper name) : ∀ name ∈ place, IsProper name := by
  induction leads with
  | arrived => exact names
  | skip _ _ ih => exact ih names
  | up _ ih => exact ih fun name member => names name (List.dropLast_subset _ member)
  | @link _ here _ _ _ _ target _ _ _ _ inside ih =>
    apply ih
    apply inside
    unfold startOf
    split
    · simp
    · exact names
  | enter proper _ _ ih =>
    apply ih
    simpa [or_imp, forall_and] using ⟨names, proper⟩

theorem walkWith_linkFree {onto : List String → List String → Except AccessFailure (List String)}
    (here rest : List String) (free : tree.IsLinkFree (here ++ rest))
    (names : ∀ name ∈ rest, IsProper name) :
    walkWith tree onto here rest = .ok (here ++ rest) ∨
      ∃ failure, walkWith tree onto here rest = .error failure ∧ failure ≠ .tooManyLinks := by
  induction rest generalizing here with
  | nil => exact .inl (by simp [walkWith])
  | cons name rest ih =>
    rw [List.forall_mem_cons] at names
    obtain ⟨proper, names⟩ := names
    have whole : here ++ name :: rest = here ++ [name] ++ rest := by simp
    simp only [walkWith, proper.1, proper.2, Bool.not_true, Bool.false_eq_true, if_false]
    split
    · next entries atHere =>
      split
      · exact .inr ⟨_, rfl, by decide⟩
      split
      · exact .inr ⟨_, rfl, by decide⟩
      · next target listed =>
        have found := (Tree.find?_child atHere name).trans listed
        exact absurd found (free _ (whole ▸ List.prefix_append _ _) target)
      · rw [whole] at free ⊢
        exact ih (here ++ [name]) free names
    · exact .inr ⟨_, rfl, by decide⟩
    · exact .inr ⟨_, rfl, by decide⟩

theorem walk_linkFree (links : Nat) (free : tree.IsLinkFree place)
    (names : ∀ name ∈ place, IsProper name) :
    walk tree links [] place = .ok place ∨
      ∃ failure, walk tree links [] place = .error failure ∧ failure ≠ .tooManyLinks := by
  cases links <;> exact walkWith_linkFree [] place free names

end LinkFree

/-- What the files of a machine are like: names are distinct, and the working directory stands in
the tree at its own place. -/
structure IsSound (fs : FileSystem) : Prop where
  named : fs.tree.IsNamed
  stands : ∃ entries, fs.tree.find? fs.workingDirectory = some (.directory entries)

section Sound

variable {fs : FileSystem} {path : Path} {place other : List String}

theorem IsSound.start (sound : fs.IsSound) (path : Path) :
    fs.tree.IsLinkFree (fs.start path) ∧ ∀ name ∈ fs.start path, IsProper name := by
  obtain ⟨entries, stands⟩ := sound.stands
  have free := Tree.isLinkFree_of_directory stands
  unfold FileSystem.start
  split
  · exact ⟨free.upper List.nil_prefix, by simp⟩
  · have names := sound.named.names stands
    exact ⟨free, fun name member => ⟨(names name member).isPart, (names name member).notUp⟩⟩

theorem LeadsTo.unique (leads : fs.LeadsTo path place) (leads' : fs.LeadsTo path other) :
    place = other := by
  obtain ⟨depth, leads⟩ := leads
  obtain ⟨depth', leads'⟩ := leads'
  exact leads.unique leads'

theorem LeadsTo.isLinkFree (sound : fs.IsSound) (leads : fs.LeadsTo path place) :
    fs.tree.IsLinkFree place := by
  obtain ⟨depth, leads⟩ := leads
  exact leads.isLinkFree (sound.start path).1

theorem LeadsTo.proper (sound : fs.IsSound) (leads : fs.LeadsTo path place) :
    ∀ name ∈ place, IsProper name := by
  obtain ⟨depth, leads⟩ := leads
  exact leads.proper (sound.start path).2

theorem LeadsTo.of_locate (located : fs.locate path = .ok place) : fs.LeadsTo path place :=
  ⟨_, Leads.of_walk maxLinks (locate_eq_ok located).2⟩

theorem locate_linkFree (free : fs.tree.IsLinkFree place) (names : ∀ name ∈ place, IsProper name) :
    fs.locate (.absolute place) = .ok place ∨
      ∃ failure, fs.locate (.absolute place) = .error failure ∧ failure ≠ .tooManyLinks := by
  unfold locate
  split
  · exact .inr ⟨_, rfl, by decide⟩
  split
  · exact .inr ⟨_, rfl, by decide⟩
  · exact walk_linkFree maxLinks free names

theorem find?_of_open? {entry : Tree} (free : fs.tree.IsLinkFree place)
    (names : ∀ name ∈ place, IsProper name) (opened : fs.open? (.absolute place) = .ok entry) :
    fs.tree.find? place = some entry := by
  obtain ⟨reached, located, found⟩ := open?_eq_ok.mp opened
  rcases locate_linkFree free names with here | ⟨failure, fails, -⟩
  · rw [located, Except.ok.injEq] at here
    exact here ▸ found
  · rw [located] at fails
    cases fails

theorem resolve_eq (sound : fs.IsSound) (noNul : path.hasNul = false)
    (leads : fs.LeadsTo path place) : fs.resolve path = .ok place := by
  have told := locate_linkFree (leads.isLinkFree sound) (leads.proper sound)
  obtain ⟨depth, leads⟩ := leads
  simp only [resolve, noNul, Bool.false_eq_true, if_false, resolveFrom_eq leads]
  rcases told with here | ⟨failure, fails, other⟩
  · rw [here]
  · rw [fails]
    cases failure <;> first | contradiction | rfl

end Sound

end FileSystem

end LocaleLint
