import LocaleLint.Batch
import LocaleLint.Proofs.Lines
import LocaleLint.Proofs.Yaml.Steadiness
import LocaleLint.Proofs.Encoding.Decode

set_option autoImplicit false

namespace LocaleLint

def Document.given? (d : Document) : Option String :=
  match d.content with
  | .text text => some text
  | .octets octets => some (String.ofList (Encoding.defaultText octets))
  | .file _ => none

theorem Document.given?_eq_none_iff (d : Document) :
    d.given? = none ↔ ∃ path, d.content = .file path := by
  cases content : d.content <;> simp [given?, content]

-- A text whose check no failure can stand for. Its lenient reading announces nothing and breaks
-- down, or the part of its first announcement that is reported holds a half of a surrogate pair, or
-- the number of the line that it is rejected at is too long to be written.
def isUnreportable (text : String) : Bool :=
  let run := Lenient.parse Channel.outermost text (some anonymous)
  match run.diagnostics, run.outcome with
  | first :: _, _ =>
      !first.line.all Number.isWritable ||
        decide (Diagnostic.duplicateIn? (first.textFor first.key.escapedText) ≠
          Diagnostic.duplicateIn? first.wording)
  | [], .error (.aborted _) => true
  | [], .error (.rejected rejection) => !rejection.hasWritableLine
  | [], .ok _ => (ColonScan.check text none).any (!·.hasWritableLine)

/-- A text shorter than the numbers that cannot be written that is no YAML or whose nodes are all
steady. Reading its values is not needed to tell. -/
def IsReadable (text : String) : Prop :=
  text.length + 1 < Nat.pow 10 Number.maxWrittenDigits ∧
    match Yaml.graphOfSource text.toList with
    | .error stop => ∀ breakdown, stop ≠ .breakdown breakdown
    | .ok none => True
    | .ok (some graph) => graph.IsSteady

theorem read_of_readable (channel : Channel) (text : String) (readable : IsReadable text) :
    (∀ breakdown, (Yaml.read channel text.toList).outcome ≠ .error (.stop (.breakdown breakdown))) ∧
      ∀ found ∈ (Yaml.read channel text.toList).duplicates, found.key.isHalved = false := by
  obtain ⟨-, readable⟩ := readable
  unfold Yaml.read
  cases composed : Yaml.graphOfSource text.toList with
  | error stop =>
    rw [composed] at readable
    refine ⟨fun breakdown same => ?_, fun found member => by cases member⟩
    exact readable breakdown (Yaml.Halt.stop.inj (Except.error.inj same))
  | ok root =>
    rw [composed] at readable
    cases root with
    | none => exact ⟨fun _ => nofun, fun found member => by cases member⟩
    | some graph => exact graph.read_of_steady channel readable

theorem hasWritableLine_of_readable (text : String) (filename : Option String) (r : Rejection)
    (readable : IsReadable text)
    (ended : (Strict.parse Lenient.parser text filename).outcome = .error (.rejected r)) :
    r.hasWritableLine = true := by
  rw [Rejection.hasWritableLine, Option.all_eq_true]
  intro line named
  obtain ⟨positive, within⟩ := Strict.isLineOf_of_rejected text filename r line ended named
  have counted : line.natAbs ≤ text.length + 1 := by omega
  exact (Number.isWritable_iff line).mpr (Nat.lt_of_le_of_lt counted readable.1)

theorem isUnreportable_of_readable (text : String) (readable : IsReadable text) :
    isUnreportable text = false := by
  obtain ⟨calm, whole⟩ := read_of_readable Channel.outermost text readable
  have writable := hasWritableLine_of_readable text none
  cases announced : (Lenient.parse Channel.outermost text (some anonymous)).diagnostics with
  | cons first rest =>
    have member : first ∈ (Lenient.parse Channel.outermost text (some anonymous)).diagnostics := by
      rw [announced]
      exact List.mem_cons_self ..
    have plain := Diagnostic.escapedText_of_whole first.key (whole first member)
    obtain ⟨r, escalated, ended⟩ := Strict.outcome_of_announced text none first rest announced
    obtain ⟨-, -, line, -⟩ := Diagnostic.of_escalated _ _ _ escalated
    have short := writable r readable ended
    rw [Rejection.hasWritableLine, line] at short
    have shortLine : first.line.all Number.isWritable = true := short
    have agrees : first.textFor first.key.escapedText = first.wording := by
      rw [plain]
      rfl
    simp [isUnreportable, announced, shortLine, agrees]
  | nil =>
    have ended := Strict.outcome_of_silent text none announced
    cases ending : (Lenient.parse Channel.outermost text (some anonymous)).outcome with
    | ok value =>
      rw [ending] at ended
      rw [isUnreportable, announced, ending]
      cases scanned : ColonScan.check text none with
      | none => rfl
      | some r =>
        rw [scanned] at ended
        simp [writable r readable ended]
    | error failure =>
      rw [ending] at ended
      cases failure with
      | rejected r =>
        have short := writable _ readable ended
        rw [isUnreportable, announced, ending]
        simpa [Rejection.named, Rejection.hasWritableLine] using short
      | aborted abort =>
        obtain ⟨breakdown, broken⟩ := Lenient.breakdown_of_aborted _ _ _ _ ending
        exact absurd broken (calm breakdown)

def Document.rejection? (d : Document) : Option Rejection :=
  d.given?.bind fun text =>
    match (Strict.parse Lenient.parser text (some d.path)).outcome with
    | .error (.rejected rejection) => some rejection
    | _ => none

def Document.failure? (d : Document) : Option FileFailure :=
  d.rejection?.map (FileFailure.ofRejection d.path)

namespace Setting

theorem checkFrom_of_ok (s : Setting) (found : Document → Option Rejection) (report : Report)
    (documents : List Document)
    (each : ∀ d ∈ documents, (s.inspect d).outcome = .ok (found d)) :
    (s.checkFrom report documents).outcome =
      .ok ⟨report.filesChecked + documents.length,
        report.failures ++
          documents.filterMap fun d => (found d).map (FileFailure.ofRejection d.path)⟩ := by
  induction documents generalizing report with
  | nil => simp [checkFrom]
  | cons d rest ih =>
    have here : (s.inspect d).outcome = .ok (found d) := each d (List.mem_cons_self ..)
    have later := ih (report.afterInspection d.path (found d))
      fun e member => each e (List.mem_cons_of_mem _ member)
    simp only [checkFrom, here]
    rw [later]
    cases rejection : found d with
    | none =>
      simp [Report.afterInspection, Report.withChecked, rejection]
      omega
    | some r =>
      simp [Report.afterInspection, Report.withChecked, Report.addFailure, rejection]
      omega

theorem checkFrom_of_error (s : Setting) (report : Report) (documents : List Document)
    (d : Document) (member : d ∈ documents) (abort : Abort)
    (aborts : (s.inspect d).outcome = .error abort) :
    ∃ first, (s.checkFrom report documents).outcome = .error first := by
  induction documents generalizing report with
  | nil => cases member
  | cons e rest ih =>
    cases here : (s.inspect e).outcome with
    | error first => exact ⟨first, by simp only [checkFrom, here]⟩
    | ok rejection =>
      have later : d ∈ rest := by
        rcases List.mem_cons.mp member with same | later
        · rw [← same, aborts] at here
          cases here
        · exact later
      obtain ⟨first, ended⟩ := ih (report.afterInspection e.path rejection) later
      exact ⟨first, by simp only [checkFrom, here, ended]⟩

section Standard
variable (fileSystem : FileSystem) (foreign : Encoding.Foreign (List Text.CodePoint))

def standard : Setting :=
  ⟨fileSystem, Lenient.parser, Encoding.defaults, foreign, Strict.parseHalved⟩

theorem decode_standard (octets : List UInt8) :
    (standard fileSystem foreign).decode octets =
      .text ((Encoding.defaultText octets).map .char) :=
  Encoding.decodeBy_defaults_eq _ foreign octets

theorem parsePoints_map_char (s : Setting) (path : String) (text : List Char) :
    s.parsePoints path (text.map .char) = s.parse path (String.ofList text) := by
  rw [parsePoints, Text.CodePoint.whole?_map_char]

theorem inspect_given (d : Document) (text : String) (given : d.given? = some text) :
    (standard fileSystem foreign).inspect d =
      .ofRun (Strict.parse Lenient.parser text (some d.path)) := by
  unfold Document.given? at given
  unfold inspect
  cases source : d.content with
  | text content =>
    rw [source] at given
    cases given
    rfl
  | octets octets =>
    rw [source] at given
    cases given
    simp only [inspectOctets, decode_standard, parsePoints_map_char]
    rfl
  | file path =>
    rw [source] at given
    cases given

theorem ofRun_rejected (d : Document) (text : String) (given : d.given? = some text) (r : Rejection)
    (ended : (Strict.parse Lenient.parser text (some d.path)).outcome = .error (.rejected r))
    (copies : r.category.copies = true)
    (reported : isUnreportable text = (!r.hasWritableLine || r.escaped.isSome)) :
    (isUnreportable text = true → ∃ abort,
      (Inspection.ofRun (Strict.parse Lenient.parser text (some d.path))).outcome = .error abort) ∧
      (isUnreportable text = false →
        (Inspection.ofRun (Strict.parse Lenient.parser text (some d.path))).outcome =
          .ok d.rejection?) := by
  have refused : isUnreportable text = r.refusal?.isSome := by
    rw [reported, Rejection.refusal?, copies]
    cases r.hasWritableLine <;> cases r.escaped <;> rfl
  have found : d.rejection? = some r := by
    simp only [Document.rejection?, given, Option.bind_some, ended]
  rw [refused, found]
  simp only [Inspection.ofRun, ended]
  cases r.refusal? <;> simp

theorem ofRun_given (d : Document) (text : String) (given : d.given? = some text) :
    (isUnreportable text = true → ∃ abort,
      (Inspection.ofRun (Strict.parse Lenient.parser text (some d.path))).outcome = .error abort) ∧
      (isUnreportable text = false →
        (Inspection.ofRun (Strict.parse Lenient.parser text (some d.path))).outcome =
          .ok d.rejection?) := by
  -- The first announcement decides, whatever the lenient reading ends with.
  cases announced : (Lenient.parse Channel.outermost text (some anonymous)).diagnostics with
  | cons first rest =>
    obtain ⟨r, escalated, ended⟩ :=
      Strict.outcome_of_announced text (some d.path) first rest announced
    obtain ⟨category, -, line, -⟩ := Diagnostic.of_escalated _ _ _ escalated
    refine ofRun_rejected d text given r ended (by rw [category]; rfl) ?_
    have halves := Diagnostic.escaped_of_duplicateKey first _ r escalated
    rw [isUnreportable, announced, Rejection.hasWritableLine, line]
    exact congrArg (!first.line.all Number.isWritable || ·)
      (Bool.eq_iff_iff.mpr (decide_eq_true_iff.trans halves.symm))
  | nil =>
    have ended := Strict.outcome_of_silent text (some d.path) announced
    cases ending : (Lenient.parse Channel.outermost text (some anonymous)).outcome with
    | ok value =>
      rw [ending] at ended
      have anywhere := ColonScan.check_named text (some d.path) none
      cases scanned : ColonScan.check text (some d.path) with
      | none =>
        rw [scanned] at ended anywhere
        have reportable : isUnreportable text = false := by
          rw [isUnreportable, announced, ending, anywhere]
          rfl
        simp [reportable, Inspection.ofRun, ended, Document.rejection?, given]
      | some r =>
        rw [scanned] at ended anywhere
        have category := ColonScan.category_of_check _ _ _ scanned
        refine ofRun_rejected d text given r ended (by rw [category]; rfl) ?_
        rw [isUnreportable, announced, ending, anywhere, ColonScan.escaped_of_check _ _ _ scanned]
        exact (Bool.or_false _).symm
    | error failure =>
      rw [ending] at ended
      cases failure with
      | rejected r =>
        have whole : r.escaped = none := Lenient.escaped_of_rejected _ _ _ ending
        refine ofRun_rejected d text given _ ended ?_ ?_
        · obtain ⟨problem, -, rfl⟩ := Lenient.problem_of_rejected _ _ _ ending
          rfl
        · rw [isUnreportable, announced, ending]
          simp [Rejection.named, Rejection.hasWritableLine, whole]
      | aborted abort =>
        have unreportable : isUnreportable text = true := by
          rw [isUnreportable, announced, ending]
        simp [unreportable, Inspection.ofRun, ended]

end Standard

theorem check_given (fileSystem : FileSystem) (foreign : Encoding.Foreign (List Text.CodePoint))
    (documents : List Document) (given : ∀ d ∈ documents, ∀ path, d.content ≠ .file path) :
    ((∀ d ∈ documents, ∀ text, d.given? = some text → IsReadable text) →
      ∀ d ∈ documents, ∀ text, d.given? = some text → isUnreportable text = false) ∧
    ((∀ d ∈ documents, ∀ text, d.given? = some text → isUnreportable text = false) →
      ((standard fileSystem foreign).check documents).outcome =
        .ok ⟨documents.length, documents.filterMap fun d => d.failure?⟩) ∧
    ((∃ d ∈ documents, ∃ text, d.given? = some text ∧ isUnreportable text = true) →
      ∃ abort, ((standard fileSystem foreign).check documents).outcome = .error abort) := by
  refine ⟨fun readable d member text source => ?_, ?_, ?_⟩
  · exact isUnreportable_of_readable text (readable d member text source)
  · intro reportable
    have each : ∀ d ∈ documents,
        ((standard fileSystem foreign).inspect d).outcome = .ok d.rejection? := by
      intro d member
      cases source : d.given? with
      | none =>
        obtain ⟨path, file⟩ := d.given?_eq_none_iff.mp source
        exact absurd file (given d member path)
      | some text =>
        rw [inspect_given fileSystem foreign d text source]
        exact (ofRun_given d text source).2 (reportable d member text source)
    have checked := checkFrom_of_ok _ _ .empty documents each
    simpa [check, Report.empty, Document.failure?] using checked
  · rintro ⟨d, member, text, source, unreportable⟩
    obtain ⟨abort, aborts⟩ := (ofRun_given d text source).1 unreportable
    rw [← inspect_given fileSystem foreign d text source] at aborts
    exact checkFrom_of_error _ _ _ d member abort aborts

def bare : Setting := standard ⟨.directory [], []⟩ fun name _ => .error (.unknownEncoding name)

def impossibleDate : Document := ⟨"first.yml", .text "day: 2001-02-30\n"⟩

theorem check_impossibleDate :
    (∀ d ∈ [impossibleDate], ∀ path, d.content ≠ .file path) ∧
      ∃ abort, (bare.check [impossibleDate]).outcome = .error abort := by
  have given : ∀ d ∈ [impossibleDate], ∀ path, d.content ≠ .file path := by
    simp [impossibleDate]
  have unreportable : isUnreportable "day: 2001-02-30\n" = true := by decide +kernel
  exact ⟨given, (check_given _ _ [impossibleDate] given).2.2
    ⟨impossibleDate, List.mem_cons_self .., _, rfl, unreportable⟩⟩

end Setting

end LocaleLint
