import LocaleLint.Proofs.File.Tree

set_option autoImplicit false

namespace LocaleLint.FileSystem

section Walk

variable {tree : Tree}
  {follow : List String → List String → Except AccessFailure (List String)}

theorem walkWith_append (links : Nat) {place : List String}
    (followed : ∀ here first, follow here first = .ok place →
      ∃ left, ∀ rest, follow here (first ++ rest) = walk tree left place rest)
    (arrived : ∀ rest, walkWith tree follow place rest = walk tree links place rest)
    (here first : List String) (walked : walkWith tree follow here first = .ok place) :
    ∃ left, ∀ rest, walkWith tree follow here (first ++ rest) = walk tree left place rest := by
  induction first generalizing here with
  | nil =>
    simp only [walkWith, Except.ok.injEq] at walked
    exact ⟨links, by simpa [walked] using arrived⟩
  | cons name first ih =>
    simp only [List.cons_append, walkWith] at walked ⊢
    split at walked <;> try contradiction
    split at walked
    · next skipped => simpa only [if_pos skipped] using ih _ walked
    next proper =>
    simp only [if_neg proper]
    split at walked
    · next up => simpa only [if_pos up] using ih _ walked
    next below =>
    simp only [if_neg below]
    split at walked <;> try contradiction
    next short =>
    simp only [if_neg short]
    split at walked <;> try contradiction
    · simpa only [List.append_assoc] using followed _ _ walked
    · exact ih _ walked

theorem walk_append (links : Nat) (here first place : List String)
    (walked : walk tree links here first = .ok place) :
    ∃ left, ∀ rest, walk tree links here (first ++ rest) = walk tree left place rest := by
  induction links generalizing here first with
  | zero =>
    exact walkWith_append 0 (fun _ _ followed => by contradiction) (fun _ => rfl) here
      first walked
  | succ links ih =>
    exact walkWith_append (links + 1) ih (fun _ => rfl) here first walked

theorem walkWith_below (named : tree.IsNamed) (place rest : List String) (entry : Tree)
    (found : tree.find? (place ++ rest) = some entry) (notLink : ∀ target, entry ≠ .link target) :
    walkWith tree follow place rest = .ok (place ++ rest) := by
  induction rest generalizing place with
  | nil => simp [walkWith]
  | cons name rest ih =>
    obtain ⟨top, atPlace, inside⟩ : ∃ top, tree.find? place = some top ∧
        top.find? (name :: rest) = some entry := by
      simpa [Tree.find?_append, Option.bind_eq_some_iff] using found
    cases top with
    | file octets => simp [Tree.find?] at inside
    | link target => simp [Tree.find?] at inside
    | directory entries =>
      obtain ⟨child, listed, further⟩ : ∃ child, entries.lookup name = some child ∧
          child.find? rest = some entry := by
        simpa [Tree.find?_cons, Option.bind_eq_some_iff] using inside
      obtain ⟨distinct, names⟩ := named place entries atPlace
      have name_ok := names _ ((Tree.mem_iff_lookup distinct name child).mpr listed)
      have onwards := ih (place ++ [name]) (by simpa using found)
      simp only [walkWith, atPlace, name_ok.isPart, name_ok.notUp, Nat.not_lt.mpr name_ok.short,
        listed, Bool.not_true, Bool.false_eq_true, if_false]
      split
      · contradiction
      · next target same =>
        injection same with same
        subst same
        cases rest with
        | nil =>
          rw [Tree.find?_nil, Option.some.injEq] at further
          exact absurd further.symm (notLink target)
        | cons next rest => simp [Tree.find?] at further
      · simpa using onwards

theorem walk_below (named : tree.IsNamed) (links : Nat) (place rest : List String) (entry : Tree)
    (found : tree.find? (place ++ rest) = some entry) (notLink : ∀ target, entry ≠ .link target) :
    walk tree links place rest = .ok (place ++ rest) := by
  cases links <;> exact walkWith_below named place rest entry found notLink

theorem walkWith_ne_isDirectory (here parts : List String)
    (followed : ∀ here parts, follow here parts ≠ .error .isDirectory) :
    walkWith tree follow here parts ≠ .error .isDirectory := by
  induction parts generalizing here with
  | nil => simp [walkWith]
  | cons name rest ih =>
    simp only [walkWith]
    repeat' split
    all_goals first | exact ih _ | exact followed _ _ | simp

theorem walk_ne_isDirectory (links : Nat) (here parts : List String) :
    walk tree links here parts ≠ .error .isDirectory := by
  induction links generalizing here parts with
  | zero => exact walkWith_ne_isDirectory here parts fun _ _ => by simp
  | succ links ih => exact walkWith_ne_isDirectory here parts ih

theorem walkWith_looks {other : Tree} (looks : tree.Looks other) (here parts : List String) :
    walkWith tree follow here parts = walkWith other follow here parts := by
  induction parts generalizing here with
  | nil => rfl
  | cons name rest ih =>
    simp only [walkWith, ih]
    match found : tree.find? here, found' : other.find? here, looks here with
    | _, _, .nothing => rfl
    | _, _, .file octets => rfl
    | _, _, .link target => rfl
    | _, _, .directory entries others =>
      simp only
      match entries.lookup name, others.lookup name, looks.child found found' name with
      | _, _, .nothing => rfl
      | _, _, .file octets => rfl
      | _, _, .link target => rfl
      | _, _, .directory entries others => rfl

theorem walk_looks {other : Tree} (looks : tree.Looks other) (links : Nat) :
    walk tree links = walk other links := by
  induction links with
  | zero => exact funext fun here => funext fun parts => walkWith_looks looks here parts
  | succ links ih =>
    funext here parts
    simp only [walk, ih]
    exact walkWith_looks looks here parts

end Walk

variable {fs other : FileSystem}

theorem locate_eq_ok {path : Path} {place : List String} (located : fs.locate path = .ok place) :
    path.hasNul = false ∧ walk fs.tree maxLinks (fs.start path) path.parts = .ok place := by
  unfold locate at located
  split at located <;> try contradiction
  next noNul =>
  split at located <;> try contradiction
  exact ⟨by simpa using noNul, located⟩

theorem locate_ne_isDirectory (path : Path) : fs.locate path ≠ .error .isDirectory := by
  unfold locate
  split
  · simp
  split
  · simp
  · exact walk_ne_isDirectory _ _ _

theorem open?_eq_ok {path : Path} {entry : Tree} :
    fs.open? path = .ok entry ↔
      ∃ place, fs.locate path = .ok place ∧ fs.tree.find? place = some entry := by
  unfold open?
  cases located : fs.locate path with
  | error failure => simp
  | ok place =>
    cases found : fs.tree.find? place <;> simp [found]

theorem open?_ne_isDirectory (path : Path) : fs.open? path ≠ .error .isDirectory := by
  unfold open?
  cases located : fs.locate path with
  | error failure =>
    have : failure ≠ .isDirectory := fun same => locate_ne_isDirectory path (same ▸ located)
    simp [this]
  | ok place => cases found : fs.tree.find? place <;> simp [found]

theorem holds_eq_error {path : Path} {kind : Tree → Bool} {failure : AccessFailure} :
    fs.holds path kind = .error failure ↔
      fs.open? path = .error .nameTooLong ∧ failure = .nameTooLong := by
  have notDirectory : fs.open? path ≠ .error .isDirectory := open?_ne_isDirectory path
  unfold holds
  generalize fs.open? path = opened at notDirectory ⊢
  cases opened with
  | ok entry => simp
  | error cause => cases cause <;> simp_all [AccessFailure.meansAbsent, eq_comm]

theorem holds_eq_true {path : Path} {kind : Tree → Bool} :
    fs.holds path kind = .ok true ↔ ∃ entry, fs.open? path = .ok entry ∧ kind entry = true := by
  unfold holds
  cases fs.open? path with
  | ok entry => simp
  | error cause => cases absent : AccessFailure.meansAbsent cause <;> simp [absent]

section Below

variable {root : Path} {below : Tree} {rest : List String} {entry : Tree}

theorem hasNul_under (root : Path) (rest : List String) (noNul : root.hasNul = false)
    (names : ∀ name ∈ rest, IsEntryName name) : (root.under rest).hasNul = false := by
  simp only [Path.hasNul, Path.under, List.any_append, Bool.or_eq_false_iff] at noNul ⊢
  refine ⟨noNul, ?_⟩
  simp only [List.any_eq_false, List.contains_iff_mem]
  exact fun name among => (names name among).noNul

theorem hasNul_below (named : fs.tree.IsNamed) (opened : fs.open? root = .ok below)
    (found : below.find? rest = some entry) : (root.under rest).hasNul = false := by
  obtain ⟨place, located, atPlace⟩ := open?_eq_ok.mp opened
  exact hasNul_under root rest (locate_eq_ok located).1 ((named.below atPlace).names found)

theorem open?_long (named : fs.tree.IsNamed) (opened : fs.open? root = .ok below)
    (found : below.find? rest = some entry)
    (long : maxPathOctets < (root.under rest).toString.utf8ByteSize) :
    fs.open? (root.under rest) = .error .nameTooLong := by
  simp [open?, locate, hasNul_below named opened found, long]

theorem open?_below (named : fs.tree.IsNamed) (opened : fs.open? root = .ok below)
    (found : below.find? rest = some entry) (notLink : ∀ target, entry ≠ .link target)
    (short : ¬maxPathOctets < (root.under rest).toString.utf8ByteSize) :
    fs.open? (root.under rest) = .ok entry := by
  obtain ⟨place, located, atPlace⟩ := open?_eq_ok.mp opened
  obtain ⟨left, goesOn⟩ :=
    walk_append maxLinks (fs.start root) root.parts place (locate_eq_ok located).2
  have there : fs.tree.find? (place ++ rest) = some entry := by
    rw [Tree.find?_append, atPlace, Option.bind_some, found]
  have arrives : walk fs.tree maxLinks (fs.start (root.under rest)) (root.under rest).parts =
      .ok (place ++ rest) :=
    (goesOn rest).trans (walk_below named left place rest entry there notLink)
  refine open?_eq_ok.mpr ⟨place ++ rest, ?_, there⟩
  simp [locate, hasNul_below named opened found, short, arrives]

end Below

theorem open?_looks (looks : fs.tree.Looks other.tree)
    (start : fs.workingDirectory = other.workingDirectory) (path : Path) :
    (∃ failure, fs.open? path = .error failure ∧ other.open? path = .error failure) ∨
      ∃ entry entry', fs.open? path = .ok entry ∧ other.open? path = .ok entry' ∧
        entry.Looks entry' := by
  have located : fs.locate path = other.locate path := by
    simp only [locate, FileSystem.start, start, walk_looks looks]
  unfold open?
  rw [located]
  cases other.locate path with
  | error failure => exact .inl ⟨failure, rfl, rfl⟩
  | ok place =>
    have alike := looks place
    cases found : fs.tree.find? place with
    | none =>
      rw [found] at alike
      exact .inl ⟨.noSuchFile, by simp [found], by simp [alike.eq_none]⟩
    | some entry =>
      rw [found] at alike
      obtain ⟨entry', found'⟩ := alike.eq_some
      exact .inr ⟨entry, entry', by simp [found], by simp [found'], looks.below found found'⟩

end LocaleLint.FileSystem
