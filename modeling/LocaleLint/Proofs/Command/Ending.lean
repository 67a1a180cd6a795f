import LocaleLint.Command.Run
import LocaleLint.Proofs.Batch.Alone
import LocaleLint.Proofs.Command.Arguments

set_option autoImplicit false

namespace LocaleLint

theorem length_flatMap_of_single {α β : Type} (f : α → List β) (items : List α)
    (single : ∀ a ∈ items, (f a).length ≤ 1) :
    (items.flatMap f).length = items.countP fun a => !(f a).isEmpty := by
  induction items with
  | nil => rfl
  | cons a rest ih =>
    have later := ih fun b member => single b (List.mem_cons_of_mem _ member)
    have here := single a (List.mem_cons_self ..)
    rw [List.flatMap_cons, List.length_append, later, List.countP_cons]
    cases found : f a with
    | nil => simp
    | cons b more =>
      rw [found, List.length_cons] at here
      simp only [List.length_cons, List.isEmpty_cons, Bool.not_false, if_true]
      omega

/-- The configuration is that of a project without a file for it, or what the file says. -/
def FileSystem.Loads (fs : FileSystem) (order : Field.SetOrder) (project : List String)
    (config : Config) : Prop :=
  (fs.hasConfig project = .ok false ∧ config = .default) ∨
    ∃ octets text, fs.hasConfig project = .ok true ∧
      fs.read (.absolute (project ++ [configName])) = .ok octets ∧ decodeConfig octets = .ok text ∧
        Config.ofText order text (Path.absolute (project ++ [configName])).toString = .ok config

theorem FileSystem.loadConfig_eq_ok_iff (fs : FileSystem) (order : Field.SetOrder)
    (project : List String) (config : Config) :
    fs.loadConfig order (.absolute project) = .ok config ↔ fs.Loads order project config := by
  have path : (Path.absolute project).under [configName] = .absolute (project ++ [configName]) :=
    rfl
  unfold loadConfig Loads hasConfig
  simp only [path]
  cases present : fs.holds (.absolute (project ++ [configName])) isAny with
  | error failure => simp
  | ok isThere =>
    cases isThere with
    | false => simp [eq_comm]
    | true =>
      cases fs.read (.absolute (project ++ [configName])) with
      | error failure => simp
      | ok octets =>
        cases decoded : decodeConfig octets with
        | error abort => simp [decoded]
        | ok text => simp [decoded]

theorem FileSystem.directory_of_findFiles (fs : FileSystem) (root : Path) (extensions : List String)
    (files : List Path) (found : fs.findFiles root extensions = .ok files) :
    ∃ entries, fs.open? root = .ok (.directory entries) := by
  unfold findFiles at found
  cases opened : fs.open? root with
  | error failure =>
    rw [opened] at found
    simp only at found
    split at found <;> cases found
  | ok tree =>
    cases tree with
    | directory entries => exact ⟨entries, rfl⟩
    | file octets =>
      rw [opened] at found
      cases found
    | link target =>
      rw [opened] at found
      cases found

def Plan.failing (plan : Plan) (s : Surroundings) (files : List Path) : Nat :=
  files.countP fun file => !((plan.setting s).failuresAlone (.ofFile file)).isEmpty

def Plan.ending (plan : Plan) (s : Surroundings) (throwing : Bool) : Ending :=
  match plan.check s with
  | .error failure => failure.run.ending
  | .ok (_, batch) =>
      match batch.outcome with
      | .error abort => .aborted abort
      | .ok report => report.ending (throwing || plan.config.throwParseException)

theorem Run.ending_after (errors : String) (run : Run) : (run.after errors).ending = run.ending :=
  rfl

theorem Report.ending_run (report : Report) (json throwing : Bool) (style : Style) :
    (report.run json throwing style).ending = report.ending throwing := by
  unfold Report.run
  cases json <;> cases report.ok <;> rfl

theorem Plan.ending_run (plan : Plan) (options : Options) (s : Surroundings) :
    (plan.run options s).ending = plan.ending s options.throwing := by
  unfold Plan.run Plan.ending
  cases plan.check s with
  | error failure => rfl
  | ok found =>
    obtain ⟨count, batch⟩ := found
    cases ended : batch.outcome with
    | error abort => simp [ended, Run.ending_after, Run.aborted]
    | ok report => simp [ended, Run.ending_after, Report.ending_run]

theorem FindFailure.exitCode_run (failure : FindFailure) : failure.run.ending.exitCode = 1 := by
  cases failure <;> rfl

theorem ConfigFailure.exitCode_run (failure : ConfigFailure) : failure.run.ending.exitCode = 1 := by
  cases failure with
  | rejected r =>
    rw [run]
    split <;> rfl
  | invalid issues => rfl
  | aborted abort => rfl

theorem Report.exitCode_ending (report : Report) (throwing : Bool) :
    (report.ending throwing).exitCode = 0 ↔ report.failureCount = 0 := by
  unfold Report.ending
  by_cases none : report.ok = true
  next => simp [none, Ending.exitCode, report.ok_iff.mp none]
  next =>
    have failed : report.failureCount ≠ 0 := fun zero => none (report.ok_iff.mpr zero)
    rw [if_neg none]
    cases throwing with
    | true => simp [Ending.exitCode, failed]
    | false =>
      simp only [Bool.false_eq_true, if_false, Ending.exitCode, Run.maxExitCode]
      omega

theorem Report.ending_of_failures (report : Report) (throwing : Bool)
    (failed : 0 < report.failureCount) :
    report.ending throwing =
      if throwing then .invalid report.failureCount else .exit (min report.failureCount 255) := by
  have notOk : ¬ report.ok = true := by
    rw [report.ok_iff]
    omega
  rw [Report.ending, if_neg notOk]
  rfl

namespace Options

/-- All that comes before the verdict went well: what the plan is, which files were found, and what
was reported of them. -/
structure Checks (options : Options) (s : Surroundings) (plan : Plan) (files : List Path)
    (report : Report) : Prop where
  loads : ∃ project,
    s.fileSystem.projectRoot (.absolute s.fileSystem.workingDirectory) = .ok project ∧
    s.fileSystem.Loads s.setOrder project plan.config ∧
      plan.root = options.rootIn project plan.config
  -- A directory without a name is not there.
  directory :
    (options.chosenDirectory = none →
      ∃ name, Text.CodePoint.text? plan.config.langDir = some name) ∧
    ∃ entries, s.fileSystem.open? plan.root = .ok (.directory entries)
  found : s.fileSystem.findFiles plan.root plan.extensions = .ok files
  completed : ((plan.setting s).check (files.map Document.ofFile)).outcome = .ok report

theorem namesRoot_iff (options : Options) (config : Config) :
    options.namesRoot config = true ↔
      (options.chosenDirectory = none →
        ∃ name, Text.CodePoint.text? config.langDir = some name) := by
  rw [namesRoot, Bool.or_eq_true, Option.isSome_iff_exists, Option.isSome_iff_exists]
  cases options.chosenDirectory <;> simp

theorem plan_eq_ok_iff (options : Options) (order : Field.SetOrder) (fs : FileSystem)
    (plan : Plan) :
    options.plan order fs = .ok plan ↔
      (∃ project, fs.projectRoot (.absolute fs.workingDirectory) = .ok project ∧
        fs.Loads order project plan.config ∧ plan.root = options.rootIn project plan.config) ∧
      plan.isNamed = options.namesRoot plan.config := by
  unfold Options.plan
  cases fs.projectRoot (.absolute fs.workingDirectory) with
  | error abort => simp
  | ok project =>
    simp only [Except.ok.injEq, exists_eq_left', ← FileSystem.loadConfig_eq_ok_iff]
    cases fs.loadConfig order (.absolute project) with
    | error failure => simp [Except.map]
    | ok config =>
      obtain ⟨own, root, named⟩ := plan
      simp only [Except.map, Except.ok.injEq, Plan.mk.injEq]
      constructor
      · rintro ⟨rfl, rfl, rfl⟩
        exact ⟨⟨rfl, rfl⟩, rfl⟩
      · rintro ⟨⟨rfl, rfl⟩, rfl⟩
        exact ⟨rfl, rfl, rfl⟩

def ending (options : Options) (s : Surroundings) : Ending :=
  match options.plan s.setOrder s.fileSystem with
  | .error failure => failure.run.ending
  | .ok plan => plan.ending s options.throwing

theorem ending_run (options : Options) (s : Surroundings) :
    (options.run s).ending = options.ending s := by
  unfold Options.run ending
  cases options.plan s.setOrder s.fileSystem with
  | error failure => rfl
  | ok plan => exact plan.ending_run options s

theorem ending_quiet (options : Options) (s : Surroundings) :
    options.quiet.ending s = options.ending s := rfl

variable {options : Options} {s : Surroundings} {plan : Plan} {files : List Path} {report : Report}

theorem Checks.ending (checks : options.Checks s plan files report) :
    options.ending s = report.ending (options.throwing || plan.config.throwParseException) := by
  obtain ⟨own, root, named⟩ := plan
  have isNamed := (options.namesRoot_iff own).mpr checks.directory.1
  have planned := (options.plan_eq_ok_iff s.setOrder s.fileSystem ⟨own, root, true⟩).mpr
    ⟨checks.loads, isNamed.symm⟩
  have found : (Plan.setting ⟨own, root, true⟩ s).fileSystem.findFiles root
      (Plan.extensions ⟨own, root, true⟩) = .ok files := checks.found
  have completed : ((Plan.setting ⟨own, root, true⟩ s).check (files.map Document.ofFile)).outcome =
    .ok report := checks.completed
  simp only [Options.ending, planned, Plan.ending, Plan.check, if_true, Setting.checkDirectory]
  rw [found]
  simp only [Except.map, completed]

theorem exists_checks (ended : (options.ending s).exitCode = 0) :
    ∃ plan files report, options.Checks s plan files report := by
  unfold Options.ending at ended
  cases planned : options.plan s.setOrder s.fileSystem with
  | error failure =>
    rw [planned] at ended
    simp [failure.exitCode_run] at ended
  | ok plan =>
    simp only [planned, Plan.ending, Plan.check] at ended
    obtain ⟨loads, isNamed⟩ := (options.plan_eq_ok_iff s.setOrder s.fileSystem plan).mp planned
    cases named : plan.isNamed with
    | false => simp [named, FindFailure.exitCode_run] at ended
    | true =>
      simp only [named, if_true, Setting.checkDirectory] at ended
      cases found : s.fileSystem.findFiles plan.root plan.extensions with
      | error failure =>
        have missing : (plan.setting s).fileSystem.findFiles plan.root plan.extensions =
          .error failure := found
        simp [missing, Except.map, failure.exitCode_run] at ended
      | ok files =>
        have present : (plan.setting s).fileSystem.findFiles plan.root plan.extensions =
          .ok files := found
        simp only [present, Except.map] at ended
        cases completed : ((plan.setting s).check (files.map Document.ofFile)).outcome with
        | error abort =>
          rw [completed] at ended
          cases ended
        | ok report =>
          have names := (options.namesRoot_iff plan.config).mp (isNamed.symm.trans named)
          have directory :=
            s.fileSystem.directory_of_findFiles plan.root plan.extensions files found
          exact ⟨plan, files, report, loads, ⟨names, directory⟩, found, completed⟩

theorem Checks.failureCount (checks : options.Checks s plan files report) :
    report.failureCount = plan.failing s files := by
  obtain ⟨alone, single⟩ := (plan.setting s).failures_of_check _ report checks.completed
  rw [Report.failureCount, alone, length_flatMap_of_single _ _ single, Plan.failing,
    List.countP_map]
  rfl

theorem failing_eq_zero_iff (plan : Plan) (s : Surroundings) (files : List Path) :
    plan.failing s files = 0 ↔
      ∀ file ∈ files, (plan.setting s).failuresAlone (.ofFile file) = [] := by
  simp [Plan.failing, List.countP_eq_zero]

theorem exitCode_ending (options : Options) (s : Surroundings) :
    (options.ending s).exitCode = 0 ↔ ∃ plan files report, options.Checks s plan files report ∧
      ∀ file ∈ files, (plan.setting s).failuresAlone (.ofFile file) = [] := by
  constructor
  · intro ended
    obtain ⟨plan, files, report, checks⟩ := exists_checks ended
    rw [checks.ending, report.exitCode_ending, checks.failureCount, failing_eq_zero_iff] at ended
    exact ⟨plan, files, report, checks, ended⟩
  · rintro ⟨plan, files, report, checks, none⟩
    rw [checks.ending, report.exitCode_ending, checks.failureCount, failing_eq_zero_iff]
    exact none

end Options

theorem Command.run_validate (arguments : List String) (options : Options) (s : Surroundings)
    (asked : ofArguments ("validate" :: arguments) = some (.validate options)) :
    (((Command.validate options).run s).ending.exitCode = 0 ↔
      ∃ plan files report, options.Checks s plan files report ∧
        ∀ file ∈ files, (plan.setting s).failuresAlone (.ofFile file) = []) ∧
    (∀ plan files report, options.Checks s plan files report → 0 < plan.failing s files →
      ((Command.validate options).run s).ending =
        (if Options.asksToThrow arguments || plan.config.throwParseException then
          .invalid (plan.failing s files)
        else .exit (min (plan.failing s files) 255)) ∧
      ((Command.validate options).run s).ending.exitCode ≠ 0) ∧
    ∀ others other continuousIntegration,
      ofArguments ("validate" :: others) = some (.validate other) →
        Options.withoutTelling others = Options.withoutTelling arguments →
          ((Command.validate other).run { s with continuousIntegration }).ending =
            ((Command.validate options).run s).ending := by
  have ends (options : Options) (s : Surroundings) :
      ((Command.validate options).run s).ending = options.ending s := options.ending_run s
  refine ⟨?_, fun plan files report checks failed => ?_, ?_⟩
  · rw [ends, Options.exitCode_ending]
  · rw [← checks.failureCount] at failed ⊢
    rw [ends, checks.ending, throwing_of_validate arguments options asked]
    refine ⟨report.ending_of_failures _ failed, ?_⟩
    rw [ne_eq, report.exitCode_ending]
    omega
  · intro others other continuousIntegration alsoAsked same
    have quiet := quiet_of_validate arguments others options other asked alsoAsked same
    rw [ends, ends, ← other.ending_quiet, quiet, options.ending_quiet]
    rfl

namespace Command

def langEntries : List (String × Tree) :=
  [("first.yml", .file [97, 58, 32, 49, 10, 97, 58, 32, 50, 10]),
    ("second.yml", .file [107, 58, 118, 10]), ("third.yml", .file [107, 58, 32, 118, 10])]

def langProject : FileSystem :=
  ⟨.directory [("home", .directory [("lang", .directory langEntries)])], ["home"]⟩

def langFiles : List Path := langEntries.map fun entry => ⟨.relative, ["lang", entry.1]⟩

def langSurroundings : Surroundings :=
  ⟨langProject, none, fun name _ => .error (.unknownEncoding name), .asWritten⟩

def langPlan : Plan := ⟨.default, ⟨.relative, ["lang"]⟩, true⟩

def loud : List String := ["--ci", "lang", "--throw-parse-exception", "-V"]

def loudOptions : Options := ⟨some "lang", true, true, false, true⟩

def still : List String := ["lang", "--throw-parse-exception"]

def stillOptions : Options := ⟨some "lang", true, false, false, false⟩

theorem findFiles_lang :
    langProject.findFiles langPlan.root langPlan.extensions = .ok langFiles := by
  have opened : langProject.open? langPlan.root = .ok (.directory langEntries) := rfl
  have kept : langProject.keepFiles langPlan.root (Tree.directory langEntries).places =
      .ok (langEntries.map fun entry => [entry.1]) := by decide +kernel
  have wanted : (langEntries.map fun entry => [entry.1]).filter
      (FileSystem.isWanted (langPlan.extensions.map Extension.suffix)) =
        langEntries.map fun entry => [entry.1] := by decide +kernel
  have sorted : (langEntries.map fun entry => [entry.1]).mergeSort FileSystem.precedes =
      langEntries.map fun entry => [entry.1] :=
    List.mergeSort_of_pairwise (by decide +kernel)
  rw [FileSystem.findFiles, opened]
  simp only [FileSystem.isDirectory, Bool.not_true, Bool.false_eq_true, if_false, kept,
    wanted, sorted]
  rfl

theorem checks_lang : ∃ report, loudOptions.Checks langSurroundings langPlan langFiles report := by
  have reported : ∃ report,
      ((langPlan.setting langSurroundings).check (langFiles.map Document.ofFile)).outcome =
        .ok report := by
    have isOk :
      ((langPlan.setting langSurroundings).check (langFiles.map Document.ofFile)).outcome.isOk =
        true := by
      decide +kernel
    cases ended :
      ((langPlan.setting langSurroundings).check (langFiles.map Document.ofFile)).outcome with
    | error abort =>
      rw [ended] at isOk
      cases isOk
    | ok report => exact ⟨report, rfl⟩
  obtain ⟨report, completed⟩ := reported
  refine ⟨report, ?_, ⟨nofun, langEntries, rfl⟩, findFiles_lang, completed⟩
  exact ⟨["home"], by decide +kernel, .inl ⟨by decide +kernel, rfl⟩, by decide +kernel⟩

theorem run_validate_lang :
    ofArguments ("validate" :: loud) = some (.validate loudOptions) ∧
      ofArguments ("validate" :: still) = some (.validate stillOptions) ∧
      Options.withoutTelling still = Options.withoutTelling loud ∧
      ((Command.validate loudOptions).run langSurroundings).ending = .invalid 2 ∧
      ((Command.validate stillOptions).run
        { langSurroundings with continuousIntegration := some "true" }).ending = .invalid 2 := by
  have asked : ofArguments ("validate" :: loud) = some (.validate loudOptions) := by decide +kernel
  have alsoAsked : ofArguments ("validate" :: still) = some (.validate stillOptions) := by
    decide +kernel
  have same : Options.withoutTelling still = Options.withoutTelling loud := by decide +kernel
  have failing : langPlan.failing langSurroundings langFiles = 2 := by decide +kernel
  have throws : Options.asksToThrow loud = true := by decide +kernel
  obtain ⟨report, checks⟩ := checks_lang
  obtain ⟨-, counted, alike⟩ := run_validate loud loudOptions langSurroundings asked
  have ended := (counted langPlan langFiles report checks (by rw [failing]; omega)).1
  rw [throws, Bool.true_or, if_pos rfl, failing] at ended
  exact ⟨asked, alsoAsked, same, ended,
    (alike still stillOptions (some "true") alsoAsked same).trans ended⟩

end Command

end LocaleLint
