import LocaleLint.Yaml.Read
import LocaleLint.Interception
import LocaleLint.ColonScan
import LocaleLint.Abort

set_option autoImplicit false

namespace LocaleLint

open LocaleLint.Yaml (Value Problem)

inductive ParserFailure
  | problem (problem : Problem)
  | rejected (rejection : Rejection)
  | aborted (abort : Abort)
deriving DecidableEq

structure ParserRun where
  -- Diagnostics that the channel delivered.
  delivered : List Diagnostic
  outcome : Except ParserFailure Value

abbrev Parser := Channel → String → ParserRun

structure Script where
  diagnostics : List Diagnostic
  outcome : Except ParserFailure Value

def Script.run (script : Script) (channel : Channel) : ParserRun :=
  let (delivered, raised) := channel.deliverAll script.diagnostics
  ⟨delivered,
    match raised with
    | some rejection => .error (.rejected rejection)
    | none => script.outcome⟩

def Parser.ofScript (script : String → Script) : Parser := fun channel source =>
  (script source).run channel

inductive Failure
  | rejected (rejection : Rejection)
  | aborted (abort : Abort)
deriving DecidableEq

def Failure.toParser : Failure → ParserFailure
  | .rejected rejection => .rejected rejection
  | .aborted abort => .aborted abort

namespace Lenient

def failureOf (halt : Yaml.Halt) (source : String) (filename : Option String) : Failure :=
  match halt with
  | .raised rejection => .rejected rejection
  | .stop (.breakdown breakdown) => .aborted (.unreadableValue breakdown)
  | .stop (.unacceptable c index) =>
      .rejected (.ofProblem (.plain (Yaml.unacceptableText c.toNat index)) source filename)
  | .stop (.fault fault) =>
      .rejected (.ofProblem (.marked (fault.marked source.toList)) source filename)

structure Run where
  -- Diagnostics that the channel delivered.
  diagnostics : List Yaml.DuplicateKey
  outcome : Except Failure Value

def parse (channel : Channel) (source : String) (filename : Option String) : Run :=
  let reading := Yaml.read channel source.toList
  ⟨reading.duplicates, reading.outcome.mapError (failureOf · source filename)⟩

def parser : Parser := fun channel source =>
  let run := parse channel source (some anonymous)
  ⟨run.diagnostics.map .duplicateKey, run.outcome.mapError Failure.toParser⟩

end Lenient

namespace Strict

structure Run where
  -- Diagnostics that reached the handler outside.
  forwarded : List Diagnostic
  outcome : Except Failure Value

def failureOf (failure : ParserFailure) (source : String) (filename : Option String) : Failure :=
  match failure with
  | .problem problem =>
      match problem.obstacle? with
      | some cause => .aborted (.unwritten cause)
      | none => .rejected (.ofProblem problem source filename)
  | .rejected rejection =>
      if rejection.filename = filename then .rejected rejection
      else
        match rejection.attributedTo? filename with
        | some attributed => .rejected attributed
        | none => .aborted .uncopiable
  | .aborted abort => .aborted abort

def parse (parser : Parser) (source : String) (filename : Option String) : Run :=
  let run := parser (Channel.outermost.enter filename) source
  ⟨run.delivered,
    match run.outcome with
    | .error failure => .error (failureOf failure source filename)
    | .ok value =>
        match ColonScan.check source filename with
        | some rejection => .error (.rejected rejection)
        | none => .ok value⟩

-- A text with halves of surrogate pairs is refused before the lenient parser reads a token.
def parseHalved (points : List Text.CodePoint) (filename : Option String) : Run :=
  let (code, index) := Yaml.unacceptablePoint points
  ⟨[], .error (.rejected (.ofProblem (.plain (Yaml.unacceptableText code index)) "" filename))⟩

end Strict

end LocaleLint
