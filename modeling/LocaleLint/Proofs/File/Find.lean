import LocaleLint.File.Find
import LocaleLint.Proofs.File.Access
import LocaleLint.Proofs.File.Made

set_option autoImplicit false

namespace LocaleLint.FileSystem

/-- A file below a root, or a link there that leads to a file. No link is passed on the way. -/
inductive IsFileBelow (fs : FileSystem) (root : Path) (below : Tree) (parts : List String) : Prop
  | file (octets : List UInt8) (found : below.find? parts = some (.file octets))
  | link (target : String) (octets : List UInt8) (found : below.find? parts = some (.link target))
      (leads : fs.open? (root.under parts) = .ok (.file octets))

/-- Something below a root whose path is too long, or a link there that leads over a name that
is. -/
inductive IsTooLong (fs : FileSystem) (root : Path) (below : Tree) (parts : List String) : Prop
  | path (entry : Tree) (proper : parts ≠ []) (found : below.find? parts = some entry)
      (long : maxPathOctets < (root.under parts).toString.utf8ByteSize)
  | link (target : String) (found : below.find? parts = some (.link target))
      (long : fs.open? (root.under parts) = .error .nameTooLong)

def HasExtension (extensions : List String) (parts : List String) : Prop :=
  ∃ extension ∈ extensions,
    Path.suffix (parts.getLast?.getD "") = "." ++ Extension.bare extension

/-- The paths of all files below a root that have one of the extensions, in the order of their
parts. -/
structure IsListing (fs : FileSystem) (root : Path) (below : Tree) (extensions : List String)
    (found : List Path) : Prop where
  increasing : found.Pairwise fun path next => path.parts < next.parts
  complete (path : Path) : path ∈ found ↔
    ∃ parts, IsFileBelow fs root below parts ∧ HasExtension extensions parts ∧
      path = root.under parts

theorem IsListing.unique {fs : FileSystem} {root : Path} {below : Tree} {extensions : List String}
    {found others : List Path} (listing : IsListing fs root below extensions found)
    (listing' : IsListing fs root below extensions others) : found = others := by
  have nodup {paths : List Path}
    (increasing : paths.Pairwise fun path next => path.parts < next.parts) :
      paths.Nodup := by
    rw [List.nodup_iff_pairwise_ne]
    refine increasing.imp ?_
    rintro path next before rfl
    exact List.lt_irrefl _ before
  have perm : found.Perm others :=
    (List.perm_ext_iff_of_nodup (nodup listing.increasing) (nodup listing'.increasing)).mpr
      fun path => (listing.complete path).trans (listing'.complete path).symm
  refine perm.eq_of_pairwise (fun path next _ _ before after => ?_) listing.increasing
    listing'.increasing
  exact absurd (List.lt_trans before after) (List.lt_irrefl _)

theorem precedes_iff (parts others : List String) :
    precedes parts others = true ↔ ¬others < parts := by
  induction parts generalizing others with
  | nil => exact iff_of_true rfl (List.not_lt_nil others)
  | cons name rest ih =>
    cases others with
    | nil =>
      exact iff_of_false (by simp [precedes]) fun not_lt => not_lt (List.nil_lt_cons name rest)
    | cons other others =>
      rw [precedes, Bool.or_eq_true, Bool.and_eq_true, decide_eq_true_iff, beq_iff_eq, ih,
        List.cons_lt_cons_iff]
      obtain before | rfl | after : name < other ∨ name = other ∨ other < name :=
        Std.Trichotomous.rel_or_eq_or_rel_swap
      · have := Std.Asymm.asymm name other before
        grind
      · have := String.lt_irrefl name
        grind
      · have := Std.Asymm.asymm other name after
        grind

theorem lt_of_precedes {parts others : List String} (precede : precedes parts others = true)
    (differ : parts ≠ others) : parts < others := by
  obtain before | same | after : parts < others ∨ parts = others ∨ others < parts :=
    Std.Trichotomous.rel_or_eq_or_rel_swap
  · exact before
  · exact absurd same differ
  · exact absurd after ((precedes_iff parts others).mp precede)

theorem precedes_total (parts others : List String) :
    (precedes parts others || precedes others parts) = true := by
  rw [Bool.or_eq_true, precedes_iff, precedes_iff, ← not_and_or]
  exact fun both => List.lt_asymm both.1 both.2

theorem precedes_trans (a b c : List String) (first : precedes a b = true)
    (second : precedes b c = true) : precedes a c = true := by
  by_cases same : a = b
  · exact same ▸ second
  by_cases same' : b = c
  · exact same' ▸ first
  rw [precedes_iff]
  exact List.lt_asymm (List.lt_trans (lt_of_precedes first same) (lt_of_precedes second same'))

theorem isWanted_iff (extensions : List String) (parts : List String) :
    isWanted (extensions.map Extension.suffix) parts = true ↔ HasExtension extensions parts := by
  simp [isWanted, HasExtension, Extension.suffix, eq_comm]

theorem hasExtension_congr {extensions others : List String}
    (same : ∀ bare, bare ∈ extensions.map Extension.bare ↔ bare ∈ others.map Extension.bare)
    (parts : List String) : HasExtension extensions parts ↔ HasExtension others parts := by
  have written : ∀ extensions, HasExtension extensions parts ↔
      ∃ bare ∈ extensions.map Extension.bare,
        Path.suffix (parts.getLast?.getD "") = "." ++ bare := by
    simp [HasExtension]
  rw [written, written]
  exact exists_congr fun bare => and_congr_left fun _ => same bare

section

variable {fs : FileSystem} {root : Path}

theorem keepFiles_ok (listed : List (List String))
    (told : ∀ parts ∈ listed, fs.open? (root.under parts) ≠ .error .nameTooLong) :
    fs.keepFiles root listed =
      .ok (listed.filter fun parts => fs.holds (root.under parts) isFile = .ok true) := by
  induction listed with
  | nil => rfl
  | cons parts rest ih =>
    rw [List.forall_mem_cons] at told
    rw [keepFiles, ih told.2]
    cases held : fs.holds (root.under parts) isFile with
    | error failure => exact absurd (holds_eq_error.mp held).1 told.1
    | ok isOne => cases isOne <;> simp [held]

theorem keepFiles_error (listed : List (List String)) (parts : List String) (among : parts ∈ listed)
    (long : fs.open? (root.under parts) = .error .nameTooLong) :
    fs.keepFiles root listed = .error .nameTooLong := by
  induction listed with
  | nil => simp at among
  | cons first rest ih =>
    rw [keepFiles]
    cases held : fs.holds (root.under first) isFile with
    | error failure => simp [(holds_eq_error.mp held).2]
    | ok isOne =>
      rcases List.mem_cons.mp among with rfl | among
      · rw [holds_eq_error.mpr ⟨long, rfl⟩] at held
        contradiction
      · simp [ih among]

variable {below : Tree} {entries : List (String × Tree)}

theorem isTooLong_iff (named : fs.tree.IsNamed) (opened : fs.open? root = .ok below)
    (top : below = .directory entries) (parts : List String) :
    IsTooLong fs root below parts ↔
      parts ∈ below.places ∧ fs.open? (root.under parts) = .error .nameTooLong := by
  obtain ⟨place, -, atPlace⟩ := open?_eq_ok.mp opened
  rw [Tree.mem_places below (named.below atPlace)]
  constructor
  · rintro (⟨entry, proper, found, long⟩ | ⟨target, found, long⟩)
    · exact ⟨⟨proper, by simp [found]⟩, open?_long named opened found long⟩
    · exact ⟨⟨fun nothing => by simp [nothing, top, Tree.find?_nil] at found, by simp [found]⟩,
        long⟩
  · rintro ⟨⟨proper, some⟩, long⟩
    obtain ⟨entry, found⟩ := Option.isSome_iff_exists.mp some
    by_cases link : ∃ target, entry = .link target
    · obtain ⟨target, rfl⟩ := link
      exact .link target found long
    · refine .path entry proper found (by_contra fun short => ?_)
      rw [open?_below named opened found (fun target same => link ⟨target, same⟩) short] at long
      contradiction

theorem isFileBelow_iff (named : fs.tree.IsNamed) (opened : fs.open? root = .ok below)
    (top : below = .directory entries) (parts : List String)
    (told : ¬IsTooLong fs root below parts) :
    IsFileBelow fs root below parts ↔
      parts ∈ below.places ∧ fs.holds (root.under parts) isFile = .ok true := by
  obtain ⟨place, -, atPlace⟩ := open?_eq_ok.mp opened
  rw [Tree.mem_places below (named.below atPlace)]
  constructor
  · rintro (⟨octets, found⟩ | ⟨target, octets, found, leads⟩)
    · have proper : parts ≠ [] := fun nothing => by simp [nothing, top, Tree.find?_nil] at found
      have leads := open?_below named opened found (by simp)
        fun long => told (.path _ proper found long)
      exact ⟨⟨proper, by simp [found]⟩, holds_eq_true.mpr ⟨_, leads, rfl⟩⟩
    · have proper : parts ≠ [] := fun nothing => by simp [nothing, top, Tree.find?_nil] at found
      exact ⟨⟨proper, by simp [found]⟩, holds_eq_true.mpr ⟨_, leads, rfl⟩⟩
  · rintro ⟨⟨proper, some⟩, held⟩
    obtain ⟨entry, found⟩ := Option.isSome_iff_exists.mp some
    obtain ⟨seen, leads, kind⟩ := holds_eq_true.mp held
    have seen_of_notLink (notLink : ∀ target, entry ≠ .link target) : seen = entry := by
      rw [open?_below named opened found notLink fun long =>
        told (.path _ proper found long)] at leads
      exact (Except.ok.inj leads).symm
    cases entry with
    | file octets => exact .file octets found
    | link target =>
      cases seen <;> first | contradiction | exact .link target _ found leads
    | directory entries =>
      cases seen_of_notLink (by simp)
      contradiction

theorem findFiles_ok (named : fs.tree.IsNamed) (opened : fs.open? root = .ok below)
    (top : below = .directory entries) (extensions : List String)
    (told : ∀ parts, ¬IsTooLong fs root below parts) :
    ∃ found, fs.findFiles root extensions = .ok found ∧
      IsListing fs root below extensions found := by
  obtain ⟨place, -, atPlace⟩ := open?_eq_ok.mp opened
  have kept := keepFiles_ok below.places fun parts among long =>
    told parts ((isTooLong_iff named opened top parts).mpr ⟨among, long⟩)
  have isDir : isDirectory below = true := by rw [top]; rfl
  let files := below.places.filter fun parts => fs.holds (root.under parts) isFile = .ok true
  let wanted := files.filter (isWanted (extensions.map Extension.suffix))
  have distinct : wanted.Nodup :=
    ((Tree.places_nodup below (named.below atPlace)).filter _).filter _
  refine ⟨(wanted.mergeSort precedes).map root.under, ?_, ?_, fun path => ?_⟩
  · simp only [findFiles, opened, isDir, kept]
    rfl
  · rw [List.pairwise_map]
    have ordered : (wanted.mergeSort precedes).Pairwise fun parts next =>
      precedes parts next = true :=
      List.pairwise_mergeSort precedes_trans precedes_total wanted
    have apart : (wanted.mergeSort precedes).Pairwise (· ≠ ·) :=
      (List.mergeSort_perm wanted precedes).nodup_iff.mpr distinct
    refine (ordered.and apart).imp fun {parts next} both => ?_
    exact List.append_left_lt (lt_of_precedes both.1 both.2)
  · have listed (parts : List String) : parts ∈ wanted.mergeSort precedes ↔
        IsFileBelow fs root below parts ∧ HasExtension extensions parts := by
      rw [(List.mergeSort_perm wanted precedes).mem_iff, List.mem_filter, List.mem_filter,
        decide_eq_true_iff, isWanted_iff, isFileBelow_iff named opened top parts (told parts)]
    rw [List.mem_map]
    exact exists_congr fun parts => by rw [listed, and_assoc, eq_comm (a := root.under parts)]

theorem findFiles_error (named : fs.tree.IsNamed) (opened : fs.open? root = .ok below)
    (top : below = .directory entries) (extensions : List String) (parts : List String)
    (long : IsTooLong fs root below parts) :
    fs.findFiles root extensions = .error (.aborted (.inaccessible .nameTooLong)) := by
  obtain ⟨among, fails⟩ := (isTooLong_iff named opened top parts).mp long
  have isDir : isDirectory below = true := by rw [top]; rfl
  simp [findFiles, opened, isDir, keepFiles_error below.places parts among fails]

end

section Looks

variable {fs other : FileSystem} {root : Path} {below below' : Tree}

theorem IsFileBelow.looks (looks : fs.tree.Looks other.tree)
    (start : fs.workingDirectory = other.workingDirectory) (same : below.Looks below')
    {parts : List String} (file : IsFileBelow fs root below parts) :
    IsFileBelow other root below' parts := by
  have alike := same parts
  cases file with
  | file octets found =>
    rw [found] at alike
    exact .file octets alike.eq_file
  | link target octets found leads =>
    rw [found] at alike
    refine .link target octets alike.eq_link ?_
    rcases open?_looks looks start (root.under parts) with ⟨_, fails, -⟩
      | ⟨entry, entry', seen, seen', within⟩
    · rw [leads] at fails
      contradiction
    · cases leads.symm.trans seen
      have top := within []
      rw [Tree.find?_nil, Tree.find?_nil] at top
      rw [seen', Option.some.inj top.eq_file]

theorem IsTooLong.looks (looks : fs.tree.Looks other.tree)
    (start : fs.workingDirectory = other.workingDirectory) (same : below.Looks below')
    {parts : List String} (tooLong : IsTooLong fs root below parts) :
    IsTooLong other root below' parts := by
  have alike := same parts
  cases tooLong with
  | path entry proper found long =>
    rw [found] at alike
    obtain ⟨entry', found'⟩ := alike.eq_some
    exact .path entry' proper found' long
  | link target found long =>
    rw [found] at alike
    refine .link target alike.eq_link ?_
    rcases open?_looks looks start (root.under parts) with ⟨_, fails, fails'⟩ | ⟨_, _, seen, -⟩
    · rw [fails', ← fails, long]
    · rw [long] at seen
      contradiction

theorem IsListing.looks (looks : fs.tree.Looks other.tree)
    (start : fs.workingDirectory = other.workingDirectory) (same : below.Looks below')
    {extensions others : List String}
    (written : ∀ bare, bare ∈ extensions.map Extension.bare ↔ bare ∈ others.map Extension.bare)
    {found : List Path} (listing : IsListing fs root below extensions found) :
    IsListing other root below' others found where
  increasing := listing.increasing
  complete path := by
    rw [listing.complete]
    refine exists_congr fun parts => and_congr ⟨.looks looks start same, ?_⟩
      (and_congr_left fun _ => hasExtension_congr written parts)
    exact .looks looks.symm start.symm same.symm

theorem findFiles_looks {entries : List (String × Tree)} (named : fs.tree.IsNamed)
    (opened : fs.open? root = .ok (.directory entries)) (named' : other.tree.IsNamed)
    (looks : fs.tree.Looks other.tree) (start : fs.workingDirectory = other.workingDirectory)
    {extensions others : List String}
    (written : ∀ bare, bare ∈ extensions.map Extension.bare ↔ bare ∈ others.map Extension.bare) :
    other.findFiles root others = fs.findFiles root extensions := by
  obtain ⟨_, fails, -⟩ | ⟨entry, entry', seen, seen', same⟩ := open?_looks looks start root
  · rw [opened] at fails
    contradiction
  cases opened.symm.trans seen
  obtain ⟨entries', top⟩ : ∃ entries', entry' = .directory entries' := by
    have alike := same []
    rw [Tree.find?_nil, Tree.find?_nil] at alike
    obtain ⟨entries', there⟩ := alike.eq_directory
    exact ⟨entries', Option.some.inj there⟩
  by_cases long : ∃ parts, IsTooLong fs root (.directory entries) parts
  · obtain ⟨parts, long⟩ := long
    rw [findFiles_error named opened rfl extensions parts long,
      findFiles_error named' seen' top others parts (long.looks looks start same)]
  · have told := not_exists.mp long
    have told' (parts : List String) : ¬IsTooLong other root entry' parts := fun long =>
      told parts (long.looks looks.symm start.symm same.symm)
    obtain ⟨found, finds, listing⟩ := findFiles_ok named opened rfl extensions told
    obtain ⟨found', finds', listing'⟩ := findFiles_ok named' seen' top others told'
    rw [finds, finds', (listing.looks looks start same written).unique listing']

end Looks

theorem findFiles_below {fs : FileSystem} {root : Path} {entries : List (String × Tree)}
    (named : fs.tree.IsNamed) (opened : fs.open? root = .ok (.directory entries))
    (extensions : List String) :
    ((∃ parts, IsTooLong fs root (.directory entries) parts) →
        fs.findFiles root extensions = .error (.aborted (.inaccessible .nameTooLong))) ∧
      ((¬∃ parts, IsTooLong fs root (.directory entries) parts) →
        ∃ found, fs.findFiles root extensions = .ok found ∧
          IsListing fs root (.directory entries) extensions found) ∧
      ∀ (other : FileSystem) (others : List String), other.tree.IsNamed →
        fs.tree.Looks other.tree → fs.workingDirectory = other.workingDirectory →
        (∀ bare, bare ∈ extensions.map Extension.bare ↔ bare ∈ others.map Extension.bare) →
        other.findFiles root others = fs.findFiles root extensions :=
  ⟨fun ⟨parts, long⟩ => findFiles_error named opened rfl extensions parts long,
    fun told => findFiles_ok named opened rfl extensions (not_exists.mp told),
    fun _ _ named' looks start written => findFiles_looks named opened named' looks start written⟩

def shelf : FileSystem where
  tree := .made [(["r", "a.yml"], .file [97]), (["r", "b.yml"], .link "a.yml"),
    (["r", "c.yml", "d.yaml"], .file []), (["r", "e"], .link "c.yml")] .empty
  workingDirectory := []

theorem findFiles_shelf :
    ∃ found, shelf.findFiles ⟨.relative, ["r"]⟩ ["..yml"] = .ok found ∧
      IsListing shelf ⟨.relative, ["r"]⟩
        (.directory [("a.yml", .file [97]), ("b.yml", .link "a.yml"),
          ("c.yml", .directory [("d.yaml", .file [])]), ("e", .link "c.yml")]) ["..yml"] found := by
  have named : shelf.tree.IsNamed := by
    refine Tree.isNamed_made ?_ Tree.isNamed_empty
    simp [Tree.isNamed_file, Tree.isNamed_link]
    decide
  have held : ∀ parts ∈ [["a.yml"], ["b.yml"], ["c.yml"], ["c.yml", "d.yaml"], ["e"]],
      shelf.holds (Path.under ⟨.relative, ["r"]⟩ parts) isFile ≠ .error .nameTooLong := by
    decide
  refine (findFiles_below named rfl ["..yml"]).2.1 fun ⟨parts, long⟩ => ?_
  obtain ⟨among, fails⟩ := (isTooLong_iff named rfl rfl parts).mp long
  exact held parts among (holds_eq_error.mpr ⟨fails, rfl⟩)

end LocaleLint.FileSystem
