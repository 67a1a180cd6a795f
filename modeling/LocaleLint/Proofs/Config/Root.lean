import Mathlib.Data.List.Induction
import LocaleLint.Config.Project
import LocaleLint.Proofs.File.Made
import LocaleLint.Proofs.File.Resolve

set_option autoImplicit false

namespace LocaleLint.FileSystem

inductive HoldsConfig (fs : FileSystem) (directory : List String) : Prop
  | entry (entry : Tree) (notLink : ∀ target, entry ≠ .link target)
      (found : fs.tree.find? (directory ++ [configName]) = some entry)
  | link (target : String) (entry : Tree)
      (found : fs.tree.find? (directory ++ [configName]) = some (.link target))
      (leads : fs.open? (.absolute (directory ++ [configName])) = .ok entry)

def directoryOf (tree : Tree) (place : List String) : List String :=
  match tree.find? place with
  | some (.file _) => place.dropLast
  | _ => place

structure IsCandidate (directory candidate : List String) : Prop where
  above : candidate <+: directory
  proper : candidate ≠ []

structure IsNearestRoot (fs : FileSystem) (directory root : List String) : Prop where
  candidate : IsCandidate directory root
  holds : fs.HoldsConfig root
  nearest : ∀ nearer, IsCandidate directory nearer → root.length < nearer.length →
    ¬ fs.HoldsConfig nearer

def Answers (fs : FileSystem) (path : Path) : Prop := ∃ answer, fs.holds path isAny = .ok answer

structure IsAnswered (fs : FileSystem) (place : List String) : Prop where
  start : fs.Answers (.absolute place)
  configs : ∀ candidate, IsCandidate (directoryOf fs.tree place) candidate →
    (∀ nearer, IsCandidate (directoryOf fs.tree place) nearer →
      candidate.length < nearer.length → ¬ fs.HoldsConfig nearer) →
    fs.Answers (.absolute (candidate ++ [configName]))

theorem isProper_configName : IsProper configName := ⟨by decide, by decide⟩

section Answers

variable {fs : FileSystem} {place : List String}

theorem answers_iff (path : Path) : fs.Answers path ↔ fs.open? path ≠ .error .nameTooLong := by
  unfold Answers
  cases held : fs.holds path isAny with
  | error failure => simp [(holds_eq_error.mp held).1]
  | ok answer =>
    have told : fs.open? path ≠ .error .nameTooLong := by
      intro long
      rw [holds_eq_error.mpr ⟨long, rfl⟩] at held
      cases held
    simp [told]

theorem holds_of_answers {path : Path} (answers : fs.Answers path) (kind : Tree → Bool) :
    ∃ answer, fs.holds path kind = .ok answer := by
  cases held : fs.holds path kind with
  | error failure => exact absurd (holds_eq_error.mp held).1 ((answers_iff path).mp answers)
  | ok answer => exact ⟨answer, rfl⟩

theorem open?_top (fs : FileSystem) : fs.open? (.absolute []) = .ok fs.tree := by
  have short : ¬ maxPathOctets < (Path.absolute []).toString.utf8ByteSize := by decide
  have located : fs.locate (.absolute []) = .ok [] := by
    rw [locate, if_neg (by decide), if_neg short]
    rfl
  exact open?_eq_ok.mpr ⟨[], located, Tree.find?_nil _⟩

theorem open?_eq_find? (named : fs.tree.IsNamed) (free : fs.tree.IsLinkFree place)
    (names : ∀ name ∈ place, IsProper name) (answers : fs.Answers (.absolute place))
    (entry : Tree) :
    fs.open? (.absolute place) = .ok entry ↔ fs.tree.find? place = some entry := by
  constructor
  · exact find?_of_open? free names
  · intro found
    have notLink : ∀ target, entry ≠ .link target := by
      rintro target rfl
      exact free place (List.prefix_refl _) target found
    have told := (answers_iff _).mp answers
    exact open?_below named (open?_top fs) found notLink fun long =>
      told (open?_long named (open?_top fs) found long)

theorem holdsConfig_iff (named : fs.tree.IsNamed) (free : fs.tree.IsLinkFree place)
    (names : ∀ name ∈ place, IsProper name)
    (answers : fs.Answers (.absolute (place ++ [configName]))) :
    fs.HoldsConfig place ↔ fs.hasConfig place = .ok true := by
  have names' : ∀ name ∈ place ++ [configName], IsProper name := by
    simpa [or_imp, forall_and] using ⟨names, isProper_configName⟩
  rw [hasConfig, holds_eq_true]
  by_cases isLink : ∃ target, fs.tree.find? (place ++ [configName]) = some (.link target)
  next =>
    obtain ⟨target, found⟩ := isLink
    constructor
    · rintro (⟨entry, notLink, found'⟩ | ⟨_, entry, -, leads⟩)
      · cases found.symm.trans found'
        exact absurd rfl (notLink target)
      · exact ⟨entry, leads, rfl⟩
    · rintro ⟨entry, leads, -⟩
      exact .link target entry found leads
  next =>
    -- Without a link at the end the entry has a place of its own, where the system looks.
    have notLink : ∀ target, fs.tree.find? (place ++ [configName]) ≠ some (.link target) :=
      fun target found => isLink ⟨target, found⟩
    have shown := open?_eq_find? named (free.concat notLink) names' answers
    constructor
    · rintro (⟨entry, -, found⟩ | ⟨target, _, found, -⟩)
      · exact ⟨entry, (shown entry).mpr found, rfl⟩
      · exact absurd found (notLink target)
    · rintro ⟨entry, opened, -⟩
      have found := (shown entry).mp opened
      refine .entry entry (fun target same => notLink target ?_) found
      rw [found, same]

theorem parentIfFile_eq (named : fs.tree.IsNamed) (free : fs.tree.IsLinkFree place)
    (names : ∀ name ∈ place, IsProper name) (answers : fs.Answers (.absolute place)) :
    fs.parentIfFile place = .ok (directoryOf fs.tree place) := by
  have shown := open?_eq_find? named free names answers
  obtain ⟨answer, held⟩ := holds_of_answers answers isFile
  have asked : answer = true ↔ ∃ octets, fs.tree.find? place = some (.file octets) := by
    have said : answer = true ↔ ∃ entry, fs.open? (.absolute place) = .ok entry ∧ isFile entry := by
      rw [← holds_eq_true, held, Except.ok.injEq]
    rw [said]
    constructor
    · rintro ⟨entry, opened, kind⟩
      cases entry with
      | file octets => exact ⟨octets, (shown _).mp opened⟩
      | link target => contradiction
      | directory entries => contradiction
    · rintro ⟨octets, found⟩
      exact ⟨_, (shown _).mpr found, rfl⟩
  rw [parentIfFile, held]
  cases answer with
  | true =>
    obtain ⟨octets, found⟩ := asked.mp rfl
    simp [directoryOf, found, Except.map]
  | false =>
    have other : directoryOf fs.tree place = place := by
      unfold directoryOf
      split
      · next octets found => exact absurd (asked.mpr ⟨octets, found⟩) (by decide)
      · rfl
    simp [other, Except.map]

theorem IsCandidate.deepen {directory candidate : List String} {name : String}
    (isCandidate : IsCandidate directory candidate) : IsCandidate (directory ++ [name]) candidate :=
  ⟨isCandidate.above.trans (List.prefix_append _ _), isCandidate.proper⟩

theorem isCandidate_self {directory : List String} (proper : directory ≠ []) :
    IsCandidate directory directory :=
  ⟨List.prefix_refl _, proper⟩

theorem isCandidate_concat {directory candidate : List String} {name : String} :
    IsCandidate (directory ++ [name]) candidate ↔
      candidate = directory ++ [name] ∨ IsCandidate directory candidate := by
  constructor
  · rintro ⟨above, proper⟩
    rcases List.prefix_concat_iff.mp above with same | within
    · exact .inl same
    · exact .inr ⟨within, proper⟩
  · rintro (rfl | isCandidate)
    · exact isCandidate_self (by simp)
    · exact isCandidate.deepen

theorem nearestRoot_eq (named : fs.tree.IsNamed) (directory : List String)
    (free : fs.tree.IsLinkFree directory) (names : ∀ name ∈ directory, IsProper name)
    (answered : ∀ candidate, IsCandidate directory candidate →
      (∀ nearer, IsCandidate directory nearer → candidate.length < nearer.length →
        ¬ fs.HoldsConfig nearer) → fs.Answers (.absolute (candidate ++ [configName]))) :
    (∃ root, fs.nearestRoot directory.reverse = .ok (some root) ∧
        fs.IsNearestRoot directory root) ∨
      fs.nearestRoot directory.reverse = .ok none ∧
        ∀ candidate, IsCandidate directory candidate → ¬ fs.HoldsConfig candidate := by
  -- Upwards is from the last name on. What lies nearer than an upper directory lies nearer than the
  -- directory above the last name, or is the directory itself, and that was found to hold none.
  induction directory using List.reverseRecOn with
  | nil =>
    refine .inr ⟨rfl, ?_⟩
    rintro candidate ⟨above, proper⟩
    exact absurd (List.prefix_nil.mp above) proper
  | append_singleton upper name ih =>
    have self : IsCandidate (upper ++ [name]) (upper ++ [name]) := isCandidate_self (by simp)
    have nearest : ∀ nearer, IsCandidate (upper ++ [name]) nearer →
        (upper ++ [name]).length < nearer.length → ¬ fs.HoldsConfig nearer := by
      intro nearer isCandidate longer
      have bound := isCandidate.above.length_le
      omega
    have answers := answered _ self nearest
    have asked := holdsConfig_iff named free names answers
    obtain ⟨answer, held⟩ := holds_of_answers answers isAny
    rw [hasConfig, held, Except.ok.injEq] at asked
    rw [List.reverse_concat, nearestRoot, List.reverse_cons, List.reverse_reverse, hasConfig, held]
    cases answer with
    | true => exact .inl ⟨_, rfl, self, asked.mpr rfl, nearest⟩
    | false =>
      have without : ¬ fs.HoldsConfig (upper ++ [name]) :=
        fun holds => absurd (asked.mp holds) (by decide)
      have onwards := ih (free.upper (List.prefix_append _ _))
        (fun other member => names other (List.mem_append_left _ member))
        fun candidate isCandidate nearest => by
          refine answered candidate isCandidate.deepen fun nearer among longer => ?_
          rcases isCandidate_concat.mp among with rfl | above
          · exact without
          · exact nearest nearer above longer
      rcases onwards with ⟨root, found, isRoot⟩ | ⟨found, none⟩
      · refine .inl ⟨root, found, isRoot.candidate.deepen, isRoot.holds, ?_⟩
        intro nearer among longer
        rcases isCandidate_concat.mp among with rfl | above
        · exact without
        · exact isRoot.nearest nearer above longer
      · refine .inr ⟨found, fun candidate among => ?_⟩
        rcases isCandidate_concat.mp among with rfl | above
        · exact without
        · exact none candidate above

end Answers

theorem directoryOf_prefix (tree : Tree) (place : List String) :
    directoryOf tree place <+: place := by
  unfold directoryOf
  split
  · exact List.dropLast_prefix _
  · exact List.prefix_refl _

theorem projectRoot_nearest (fs : FileSystem) (sound : fs.IsSound) (start : Path)
    (noNul : start.hasNul = false) (place : List String) (leads : fs.LeadsTo start place)
    (answered : fs.IsAnswered place) :
    (∀ reached, fs.locate start = .ok reached → reached = place) ∧
      ∃ root, fs.projectRoot start = .ok root ∧ fs.tree.IsLinkFree root ∧
        (fs.IsNearestRoot (directoryOf fs.tree place) root ∨
          (∀ candidate, IsCandidate (directoryOf fs.tree place) candidate →
            ¬ fs.HoldsConfig candidate) ∧ root = fs.workingDirectory) := by
  refine ⟨fun reached located => (LeadsTo.of_locate located).unique leads, ?_⟩
  have above := directoryOf_prefix fs.tree place
  have free := leads.isLinkFree sound
  have names := leads.proper sound
  have searched := nearestRoot_eq sound.named (directoryOf fs.tree place) (free.upper above)
    (fun name member => names name (above.subset member)) answered.configs
  rw [projectRoot, resolve_eq sound noNul leads]
  simp only [projectRootFrom, parentIfFile_eq sound.named free names answered.start]
  rcases searched with ⟨root, found, isRoot⟩ | ⟨found, none⟩
  · rw [found]
    exact ⟨root, rfl, (free.upper above).upper isRoot.candidate.above, .inl isRoot⟩
  · rw [found]
    obtain ⟨entries, stands⟩ := sound.stands
    exact ⟨_, rfl, Tree.isLinkFree_of_directory stands, .inr ⟨none, rfl⟩⟩

def branch : FileSystem where
  tree := .made [(["p", "transval.yaml"], .file []), (["p", "q", "a.yml"], .file []),
    (["p", "q", "transval.yaml"], .link "gone"), (["w", "a"], .link "../p/q/a.yml")] .empty
  workingDirectory := ["w"]

theorem projectRoot_branch :
    branch.projectRoot ⟨.relative, ["a"]⟩ = .ok ["p"] ∧ branch.IsNearestRoot ["p", "q"] ["p"] := by
  have sound : branch.IsSound := by
    refine ⟨Tree.isNamed_made ?_ Tree.isNamed_empty, _, rfl⟩
    simp [Tree.isNamed_file, Tree.isNamed_link]
    decide
  have leads : branch.LeadsTo ⟨.relative, ["a"]⟩ ["p", "q", "a.yml"] :=
    .of_locate (by decide)
  have answered : branch.IsAnswered ["p", "q", "a.yml"] := by
    refine ⟨⟨true, by decide⟩, fun candidate among _ => ?_⟩
    rcases isCandidate_concat.mp (show IsCandidate (["p"] ++ ["q"]) candidate from among) with
      rfl | among
    · exact ⟨false, by decide⟩
    rcases isCandidate_concat.mp (show IsCandidate ([] ++ ["p"]) candidate from among) with
      rfl | among
    · exact ⟨true, by decide⟩
    · exact absurd (List.prefix_nil.mp among.above) among.proper
  obtain ⟨-, root, found, -, isRoot⟩ :=
    projectRoot_nearest branch sound _ (by decide) _ leads answered
  have same : branch.projectRoot ⟨.relative, ["a"]⟩ = .ok ["p"] := by decide
  cases same.symm.trans found
  rcases isRoot with isRoot | ⟨-, elsewhere⟩
  · exact ⟨same, isRoot⟩
  · exact absurd elsewhere (by decide)

end LocaleLint.FileSystem
