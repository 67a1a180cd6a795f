import Mathlib.Data.List.Basic
import LocaleLint.Proofs.Batch

set_option autoImplicit false

namespace LocaleLint

theorem Encoding.refusal_of_decode {Text : Type} (answer : String → List UInt8 → Answer Text)
    (encodings : List String) (octets : List UInt8) (r : Rejection)
    (refused : decodeBy answer encodings octets = .rejected r) : r.refusal? = none := by
  obtain ⟨rfl, -⟩ := (decodeBy_eq_rejected_iff _ _ _ _).mp refused
  rfl

namespace Setting

def parseDecoded (s : Setting) (path : String) (octets : List UInt8) : Except Failure Yaml.Value :=
  match s.decode octets with
  | .text points => (s.parsePoints path points).outcome
  | .rejected r => .error (.rejected r)
  | .aborted abort => .error (.aborted abort)

def result (s : Setting) (d : Document) : Except Failure Yaml.Value :=
  match d.content with
  | .text text => (s.parse d.path text).outcome
  | .octets octets => s.parseDecoded d.path octets
  | .file path =>
      match s.fileSystem.read path with
      | .ok octets => s.parseDecoded d.path octets
      | .error .nulInPath => .error (.aborted (.inaccessible .nulInPath))
      | .error failure => .error (.rejected (unreadable failure))

-- No phase ends with more than a rejection.
def isCalm (s : Setting) (d : Document) : Bool :=
  match s.result d with
  | .error (.aborted _) => false
  | _ => true

def rejection? (s : Setting) (d : Document) : Option Rejection :=
  match s.result d with
  | .error (.rejected r) => some r
  | _ => none

-- A rejection is recorded unless its class makes no copies, the number of its line is too long to
-- be written, or its message holds halves of surrogate pairs.
def isRecordable (s : Setting) (d : Document) : Bool :=
  (s.rejection? d).all (·.refusal?.isNone)

def failuresAlone (s : Setting) (d : Document) : List FileFailure :=
  match (s.check [d]).outcome with
  | .ok report => report.failures
  | .error _ => []

def recorded (result : Except Failure Yaml.Value) : Except Abort (Option Rejection) :=
  match result with
  | .ok _ => .ok none
  | .error (.rejected r) =>
      match r.refusal? with
      | some abort => .error abort
      | none => .ok (some r)
  | .error (.aborted abort) => .error abort

theorem inspectOctets_recorded (s : Setting) (path : String) (octets : List UInt8) :
    (s.inspectOctets path octets).outcome = recorded (s.parseDecoded path octets) := by
  unfold inspectOctets parseDecoded
  cases decoding : s.decode octets with
  | text points => rfl
  | rejected r =>
    have accepted := Encoding.refusal_of_decode _ s.encodings octets r decoding
    simp only [Inspection.rejected, recorded, accepted]
  | aborted abort => rfl

theorem inspect_recorded (s : Setting) (d : Document) :
    (s.inspect d).outcome = recorded (s.result d) := by
  unfold inspect result
  cases d.content with
  | text text => rfl
  | octets octets => exact s.inspectOctets_recorded d.path octets
  | file path =>
    simp only
    cases s.fileSystem.read path with
    | ok octets => exact s.inspectOctets_recorded d.path octets
    | error failure => cases failure <;> rfl

theorem inspect_recordable (s : Setting) (d : Document) (calm : s.isCalm d = true)
    (recordable : s.isRecordable d = true) : (s.inspect d).outcome = .ok (s.rejection? d) := by
  rw [inspect_recorded]
  unfold isCalm at calm
  unfold isRecordable rejection? at recordable
  unfold rejection?
  cases ended : s.result d with
  | ok value => rfl
  | error failure =>
    rw [ended] at calm recordable
    cases failure with
    | rejected r =>
      have accepted : r.refusal? = none := by simpa using recordable
      simp only [recorded, accepted]
    | aborted abort => cases calm

theorem inspect_unrecordable (s : Setting) (d : Document) (refused : s.isRecordable d = false) :
    ∃ abort, (s.inspect d).outcome = .error abort := by
  rw [inspect_recorded]
  unfold isRecordable rejection? at refused
  cases ended : s.result d with
  | ok value => simp [ended] at refused
  | error failure =>
    rw [ended] at refused
    cases failure with
    | rejected r =>
      cases why : r.refusal? with
      | none => simp [why] at refused
      | some abort => exact ⟨abort, by simp only [recorded, why]⟩
    | aborted abort => exact ⟨abort, rfl⟩

theorem check_recordable (s : Setting) (documents : List Document)
    (calm : ∀ d ∈ documents, s.isCalm d = true)
    (recordable : ∀ d ∈ documents, s.isRecordable d = true) :
    (s.check documents).outcome =
      .ok ⟨documents.length, documents.filterMap fun d =>
        (s.rejection? d).map (FileFailure.ofRejection d.path)⟩ := by
  have each : ∀ d ∈ documents, (s.inspect d).outcome = .ok (s.rejection? d) := by
    intro d member
    exact s.inspect_recordable d (calm d member) (recordable d member)
  have checked := s.checkFrom_of_ok s.rejection? .empty documents each
  simpa [check, Report.empty] using checked

theorem recordable_of_check (s : Setting) (documents : List Document) (report : Report)
    (checked : (s.check documents).outcome = .ok report) :
    ∀ d ∈ documents, s.isRecordable d = true := by
  intro d member
  cases recordable : s.isRecordable d with
  | true => rfl
  | false =>
    -- The batch ends at this document or before it.
    obtain ⟨abort, aborts⟩ := s.inspect_unrecordable d recordable
    obtain ⟨first, ended⟩ := s.checkFrom_of_error .empty documents d member abort aborts
    rw [check, ended] at checked
    cases checked

theorem failuresAlone_eq (s : Setting) (d : Document) (calm : s.isCalm d = true)
    (recordable : s.isRecordable d = true) :
    s.failuresAlone d = ((s.rejection? d).map (FileFailure.ofRejection d.path)).toList := by
  have checked := s.check_recordable [d] (by simpa using calm) (by simpa using recordable)
  rw [failuresAlone, checked, List.filterMap_cons]
  cases s.rejection? d <;> rfl

theorem flatMap_failuresAlone (s : Setting) (documents : List Document)
    (calm : ∀ d ∈ documents, s.isCalm d = true)
    (recordable : ∀ d ∈ documents, s.isRecordable d = true) :
    documents.flatMap s.failuresAlone = documents.filterMap fun d =>
      (s.rejection? d).map (FileFailure.ofRejection d.path) := by
  rw [List.filterMap_eq_flatMap_toList]
  exact List.flatMap_congr fun d member =>
    s.failuresAlone_eq d (calm d member) (recordable d member)

theorem check_alone (s : Setting) (documents : List Document)
    (calm : ∀ d ∈ documents, s.isCalm d = true)
    (recordable : ∀ d ∈ documents, s.isRecordable d = true) :
    (s.check documents).outcome = .ok ⟨documents.length, documents.flatMap s.failuresAlone⟩ := by
  rw [s.flatMap_failuresAlone documents calm recordable]
  exact s.check_recordable documents calm recordable

theorem length_failuresAlone (s : Setting) (d : Document) (calm : s.isCalm d = true)
    (recordable : s.isRecordable d = true) : (s.failuresAlone d).length ≤ 1 := by
  rw [s.failuresAlone_eq d calm recordable]
  cases s.rejection? d with
  | none => exact Nat.zero_le 1
  | some r => exact Nat.le_refl 1

theorem calm_of_check (s : Setting) (documents : List Document) (report : Report)
    (checked : (s.check documents).outcome = .ok report) :
    ∀ d ∈ documents, s.isCalm d = true := by
  intro d member
  by_contra loud
  obtain ⟨abort, ended⟩ : ∃ abort, s.result d = .error (.aborted abort) := by
    unfold isCalm at loud
    split at loud
    · next abort ended => exact ⟨abort, ended⟩
    · exact absurd rfl loud
  have aborts : (s.inspect d).outcome = .error abort := by
    rw [inspect_recorded, ended]
    rfl
  obtain ⟨first, stopped⟩ := s.checkFrom_of_error .empty documents d member abort aborts
  rw [check, stopped] at checked
  cases checked

theorem failures_of_check (s : Setting) (documents : List Document) (report : Report)
    (checked : (s.check documents).outcome = .ok report) :
    report.failures = documents.flatMap s.failuresAlone ∧
      ∀ d ∈ documents, (s.failuresAlone d).length ≤ 1 := by
  have calm := s.calm_of_check documents report checked
  have recordable := s.recordable_of_check documents report checked
  rw [s.check_alone documents calm recordable] at checked
  cases checked
  exact ⟨rfl, fun d member => s.length_failuresAlone d (calm d member) (recordable d member)⟩

structure IsComposed (s : Setting) (documents : List Document) (report : Report) : Prop where
  counted : report.filesChecked = documents.length
  failures : report.failures = documents.flatMap s.failuresAlone
  single : ∀ d ∈ documents, (s.failuresAlone d).length ≤ 1
  messages : report.failureCount = report.messages.length
  bounded : (report.failureCount : Int) ≤ report.filesChecked
  ok_iff : report.ok = true ↔ ∀ d ∈ documents, s.failuresAlone d = []
  own : ∀ before d after, documents = before ++ d :: after → report.failures =
    before.flatMap s.failuresAlone ++ (s.failuresAlone d ++ after.flatMap s.failuresAlone)
  split : ∀ first second, documents = first ++ second → ∃ early late,
    (s.check first).outcome = .ok early ∧ (s.check second).outcome = .ok late ∧
      report.filesChecked = early.filesChecked + late.filesChecked ∧
        report.failures = early.failures ++ late.failures
  permuted : ∀ others, others.Perm documents → ∃ other, (s.check others).outcome = .ok other ∧
    other.filesChecked = report.filesChecked ∧ other.failures.Perm report.failures

theorem isComposed (s : Setting) (documents : List Document)
    (calm : ∀ d ∈ documents, s.isCalm d = true)
    (recordable : ∀ d ∈ documents, s.isRecordable d = true) :
    s.IsComposed documents ⟨documents.length, documents.flatMap s.failuresAlone⟩ := by
  have single : ∀ d ∈ documents, (s.failuresAlone d).length ≤ 1 := fun d member =>
    s.length_failuresAlone d (calm d member) (recordable d member)
  constructor
  case counted => rfl
  case failures => rfl
  case single => exact single
  case messages => exact (Report.length_messages _).symm
  case bounded =>
    rw [s.flatMap_failuresAlone documents calm recordable]
    exact Int.ofNat_le.mpr (List.length_filterMap_le _ documents)
  case ok_iff => simp [Report.ok, List.flatMap_eq_nil_iff]
  case own =>
    intro before d after whole
    simp only [whole, List.flatMap_append, List.flatMap_cons]
  case split =>
    intro first second whole
    have early := s.check_alone first (fun d member => calm d (by simp [whole, member]))
      fun d member => recordable d (by simp [whole, member])
    have late := s.check_alone second (fun d member => calm d (by simp [whole, member]))
      fun d member => recordable d (by simp [whole, member])
    refine ⟨_, _, early, late, ?_, ?_⟩
    · simp only [whole, List.length_append, Int.natCast_add]
    · simp only [whole, List.flatMap_append]
  case permuted =>
    intro others same
    have checked := s.check_alone others (fun d member => calm d (same.mem_iff.mp member))
      fun d member => recordable d (same.mem_iff.mp member)
    refine ⟨_, checked, ?_, same.flatMap_right _⟩
    simp only [same.length_eq]

theorem check_calm (s : Setting) (documents : List Document)
    (calm : ∀ d ∈ documents, s.isCalm d = true) :
    ((∀ d ∈ documents, s.isRecordable d = true) ↔
      ∃ report, (s.check documents).outcome = .ok report) ∧
    ∀ report, (s.check documents).outcome = .ok report → s.IsComposed documents report := by
  refine ⟨⟨fun recordable => ?_, ?_⟩, fun report checked => ?_⟩
  · exact ⟨_, s.check_alone documents calm recordable⟩
  · rintro ⟨report, checked⟩
    exact s.recordable_of_check documents report checked
  · have recordable := s.recordable_of_check documents report checked
    rw [s.check_alone documents calm recordable] at checked
    cases checked
    exact s.isComposed documents calm recordable

def mixed : List Document :=
  [⟨"first.yml", .text "a: 1\n"⟩, ⟨"second.yml", .octets [97, 58, 32, 49, 10, 97, 58, 32, 50, 10]⟩,
    ⟨"third.yml", .file ⟨.relative, ["third.yml"]⟩⟩]

-- The key is half of a surrogate pair, and the message of its rejection holds it.
def halvedTwice : Document := ⟨"halved.yml", .text "\"\\uD83D\": 1\n\"\\uD83D\": 2\n"⟩

theorem check_mixed :
    (∃ report, (bare.check mixed).outcome = .ok report ∧ bare.IsComposed mixed report ∧
      report.failures.map (·.path) = ["second.yml", "third.yml"]) ∧
    bare.isCalm halvedTwice = true ∧
      ¬ ∃ report, (bare.check [halvedTwice]).outcome = .ok report := by
  have ended : (∀ d ∈ mixed, bare.isCalm d = true ∧ bare.isRecordable d = true) ∧
      (mixed.filterMap fun d => (bare.rejection? d).map
        (FileFailure.ofRejection d.path)).map (·.path) = ["second.yml", "third.yml"] := by
    decide +kernel
  have calm : ∀ d ∈ mixed, bare.isCalm d = true := fun d member => (ended.1 d member).1
  have recordable : ∀ d ∈ mixed, bare.isRecordable d = true := fun d member => (ended.1 d member).2
  have halved : bare.isCalm halvedTwice = true ∧ bare.isRecordable halvedTwice = false := by
    decide +kernel
  obtain ⟨report, checked⟩ := (check_calm _ mixed calm).1.mp recordable
  have composed := (check_calm _ mixed calm).2 report checked
  refine ⟨⟨report, checked, composed, ?_⟩, halved.1, fun reported => ?_⟩
  · rw [composed.failures, flatMap_failuresAlone _ mixed calm recordable]
    exact ended.2
  · have all := (check_calm _ [halvedTwice] (by simpa using halved.1)).1.mpr reported
    have refused := halved.2
    rw [all halvedTwice (List.mem_cons_self ..)] at refused
    cases refused

end Setting

end LocaleLint
