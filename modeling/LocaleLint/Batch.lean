import LocaleLint.Strict
import LocaleLint.Encoding.Decode
import LocaleLint.Report.Basic
import LocaleLint.File.Find

set_option autoImplicit false

namespace LocaleLint

inductive Document.Content
  | text (text : String)
  | octets (octets : List UInt8)
  | file (path : Path)
deriving Repr, DecidableEq, Inhabited

structure Document where
  path : String
  content : Document.Content
deriving Repr, DecidableEq, Inhabited

/-- What the check of one document gives: a rejection, or none when it is in order. -/
structure Inspection where
  forwarded : List Diagnostic
  outcome : Except Abort (Option Rejection)

namespace Inspection

def rejected (r : Rejection) : Inspection := ⟨[], .ok (some r)⟩

def aborted (abort : Abort) : Inspection := ⟨[], .error abort⟩

-- A rejection counts when it can be recorded.
def ofRun (run : Strict.Run) : Inspection :=
  ⟨run.forwarded,
    match run.outcome with
    | .ok _ => .ok none
    | .error (.rejected r) =>
        match r.refusal? with
        | some abort => .error abort
        | none => .ok (some r)
    | .error (.aborted abort) => .error abort⟩

end Inspection

/-- What a document is checked with. The answers of encodings that are not read here are given, and
so is what strict parsing makes of a text that they give and no `String` holds. -/
structure Setting where
  fileSystem : FileSystem
  parser : Parser
  encodings : List String
  foreign : Encoding.Foreign (List Text.CodePoint)
  parseHalved : List Text.CodePoint → Option String → Strict.Run

def unreadable (failure : AccessFailure) : Rejection :=
  { category := .unreadable
    message := "Unable to read file: " ++ failure.message
    line := none
    column := none
    filename := some anonymous
    snippet := none
    message_ne := by
      intro h
      have := congrArg String.length h
      simp [String.length_append] at this }

namespace Setting

def decode (s : Setting) (octets : List UInt8) : Encoding.Decoded (List Text.CodePoint) :=
  Encoding.decodeBy (Encoding.answer (·.map .char) s.foreign) s.encodings octets

def parse (s : Setting) (path text : String) : Strict.Run := Strict.parse s.parser text (some path)

def parsePoints (s : Setting) (path : String) (points : List Text.CodePoint) : Strict.Run :=
  match Text.CodePoint.whole? points with
  | some chars => s.parse path (String.ofList chars)
  | none => s.parseHalved points (some path)

def inspectOctets (s : Setting) (path : String) (octets : List UInt8) : Inspection :=
  match s.decode octets with
  | .text points => .ofRun (s.parsePoints path points)
  | .rejected r => .rejected r
  | .aborted abort => .aborted abort

def inspect (s : Setting) (d : Document) : Inspection :=
  match d.content with
  | .text text => .ofRun (s.parse d.path text)
  | .octets octets => s.inspectOctets d.path octets
  | .file path =>
      match s.fileSystem.read path with
      | .ok octets => s.inspectOctets d.path octets
      | .error .nulInPath => .aborted (.inaccessible .nulInPath)
      | .error failure => .rejected (unreadable failure)

end Setting

inductive Event
  | checking (path : String)
  | recorded (message : String)
  | finished (report : Report)
deriving DecidableEq

structure Batch where
  events : List Event
  forwarded : List Diagnostic
  outcome : Except Abort Report

namespace Report

def afterInspection (report : Report) (path : String) (found : Option Rejection) : Report :=
  let counted := report.withChecked (report.filesChecked + 1)
  match found with
  | none => counted
  | some r => counted.addFailure path r

end Report

def Event.ofInspection (path : String) : Option Rejection → List Event
  | none => []
  | some r => [.recorded (FileFailure.ofRejection path r).message]

namespace Setting

def checkFrom (s : Setting) (report : Report) : List Document → Batch
  | [] => ⟨[.finished report], [], .ok report⟩
  | d :: rest =>
      let found := s.inspect d
      match found.outcome with
      | .error abort => ⟨[.checking d.path], found.forwarded, .error abort⟩
      | .ok rejection =>
          let later := s.checkFrom (report.afterInspection d.path rejection) rest
          ⟨.checking d.path :: Event.ofInspection d.path rejection ++ later.events,
            found.forwarded ++ later.forwarded, later.outcome⟩

def check (s : Setting) (documents : List Document) : Batch := s.checkFrom .empty documents

end Setting

def Document.ofFile (path : Path) : Document := ⟨path.toString, .file path⟩

def Setting.checkDirectory (s : Setting) (root : Path) (extensions : List String) :
    Except FindFailure (Nat × Batch) :=
  (s.fileSystem.findFiles root extensions).map fun paths =>
    (paths.length, s.check (paths.map Document.ofFile))

end LocaleLint
