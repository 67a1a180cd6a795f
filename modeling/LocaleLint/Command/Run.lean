import LocaleLint.Command.Arguments
import LocaleLint.Config.Project
import LocaleLint.Batch
import LocaleLint.Report.Summary

set_option autoImplicit false

namespace LocaleLint

structure Surroundings where
  fileSystem : FileSystem
  -- The value of the variable that tells a build from a terminal.
  continuousIntegration : Option String
  -- The encodings that are installed beside those that are read here.
  foreign : Encoding.Foreign (List Text.CodePoint)
  setOrder : Field.SetOrder

inductive Ending
  | exit (code : Nat)
  -- The error that was asked for, with the number of failing files.
  | invalid (failures : Nat)
  | aborted (abort : Abort)
deriving DecidableEq

def Ending.exitCode : Ending → Nat
  | .exit code => code
  | .invalid _ | .aborted _ => 1

structure Run where
  output : String
  errors : String
  ending : Ending
deriving DecidableEq

namespace Run

def maxExitCode : Nat := 255

def success (output : String) : Run := ⟨output, "", .exit 0⟩

def failed (message : String) : Run := ⟨"", "Error: " ++ message ++ "\n", .exit 1⟩

def aborted (abort : Abort) : Run := ⟨"", "", .aborted abort⟩

def after (errors : String) (run : Run) : Run := { run with errors := errors ++ run.errors }

end Run

def versionText : String := "transval 0.1.0\n"

def successHeadline : String := "✓ No errors in translation files. You are good to go :)"

def failureHeadline : String := "There are some errors in translation files. You shall not pass!!!"

namespace Log

def debug (logger text : String) : String := "DEBUG [" ++ logger ++ "] " ++ text ++ "\n"

def info (logger text : String) : String := "INFO [" ++ logger ++ "] " ++ text ++ "\n"

def commandLogger : String := "transval.cli.validate_cmd"

def batchLogger : String := "transval.loader.validator"

def started (root : Path) : String :=
  debug commandLogger ("Validating translations under " ++ root.toString)

def found (count : Nat) (root : Path) : String :=
  debug batchLogger ("Found " ++ toString count ++ " translation file(s) under " ++ root.toString)

def event : Event → String
  | .checking path => debug batchLogger ("Checking " ++ path)
  | .recorded message => debug batchLogger ("Recorded failure: " ++ message)
  | .finished report =>
      info batchLogger ("Checked " ++ toString report.filesChecked ++ " file(s), " ++
        toString report.failureCount ++ " with errors")

end Log

def issueCount (count : Nat) : String :=
  toString count ++ (if count = 1 then " validation error" else " validation errors")

namespace ConfigFailure

def run : ConfigFailure → Run
  | .rejected r =>
      if r.hasWritableLine then .failed ("invalid " ++ configName ++ ": " ++ r.escapedDescription)
      else .aborted (.unwritten .numberTooLong)
  | .invalid issues =>
      .failed ("invalid " ++ configName ++ ": " ++ issueCount issues.length ++ " for " ++
        Config.recordName)
  | .aborted abort => .aborted abort

end ConfigFailure

namespace FindFailure

def run : FindFailure → Run
  | .directoryMissing root => .failed (directoryMissingMessage root)
  | .aborted abort => .aborted abort

end FindFailure

/-- What a run is to do: the settings of the project and the directory to check. -/
structure Plan where
  config : Config
  root : Path
  -- A directory that is spelled with halves of surrogate pairs has no name.
  isNamed : Bool
deriving Repr, DecidableEq, Inhabited

namespace Options

def rootIn (options : Options) (project : List String) (config : Config) : Path :=
  match options.chosenDirectory with
  | some directory => .ofString directory
  | none =>
      (Path.absolute project).join
        (.ofString (String.ofList (Text.CodePoint.escaped config.langDir)))

def namesRoot (options : Options) (config : Config) : Bool :=
  options.chosenDirectory.isSome || (Text.CodePoint.text? config.langDir).isSome

def plan (options : Options) (order : Field.SetOrder) (fs : FileSystem) :
    Except ConfigFailure Plan :=
  match fs.projectRoot (.absolute fs.workingDirectory) with
  | .error abort => .error (.aborted abort)
  | .ok project =>
      (fs.loadConfig order (.absolute project)).map fun config =>
        ⟨config, options.rootIn project config, options.namesRoot config⟩

def style (options : Options) (config : Config) (continuousIntegration : Option String) : Style :=
  if options.ciMode || config.ciMode then .concise else .ofEnvironment continuousIntegration

end Options

namespace Report

def ending (report : Report) (throwing : Bool) : Ending :=
  if report.ok then .exit 0
  else if throwing then .invalid report.failureCount
  else .exit (min report.failureCount Run.maxExitCode)

def success (report : Report) : String :=
  successHeadline ++ "\n" ++ toString report.filesChecked ++ " file(s) checked\n"

def failureText (report : Report) (style : Style) (throwing : Bool) : String :=
  let told := Console.printed (style.render report.failures) ++ "\n"
  if throwing then told
  else
    let table :=
      if style = .annotated then report.summary.render ++ "\n" ++ report.tally ++ "\n" else ""
    failureHeadline ++ "\n\n" ++ told ++ table

def run (report : Report) (json throwing : Bool) (style : Style) : Run :=
  let ending := report.ending throwing
  if json then ⟨report.toJson.write ++ "\n", "", ending⟩
  else if report.ok then ⟨report.success, "", ending⟩
  else ⟨"", report.failureText style throwing, ending⟩

end Report

def Plan.setting (plan : Plan) (s : Surroundings) : Setting :=
  ⟨s.fileSystem, Lenient.parser, plan.config.encodings, s.foreign, Strict.parseHalved⟩

def Plan.extensions (plan : Plan) : List String :=
  plan.config.extensions.filterMap Text.CodePoint.text?

def Plan.check (plan : Plan) (s : Surroundings) : Except FindFailure (Nat × Batch) :=
  if plan.isNamed then (plan.setting s).checkDirectory plan.root plan.extensions
  else .error (.directoryMissing plan.root)

def Plan.run (plan : Plan) (options : Options) (s : Surroundings) : Run :=
  let log (text : String) : String := if options.verbose then text else ""
  let started := log (Log.started plan.root)
  match plan.check s with
  | .error failure => failure.run.after started
  | .ok (count, batch) =>
      let events := String.join (batch.events.map fun event => log (Log.event event))
      let logged := started ++ log (Log.found count plan.root) ++ events
      match batch.outcome with
      | .error abort => (Run.aborted abort).after logged
      | .ok report =>
          let throwing := options.throwing || plan.config.throwParseException
          let style := options.style plan.config s.continuousIntegration
          (report.run options.json throwing style).after logged

def Options.run (options : Options) (s : Surroundings) : Run :=
  match options.plan s.setOrder s.fileSystem with
  | .error failure => failure.run
  | .ok plan => plan.run options s

def Command.run (command : Command) (s : Surroundings) : Run :=
  match command with
  | .version => .success versionText
  | .validate options => options.run s

end LocaleLint
