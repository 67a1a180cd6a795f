import Mathlib.Data.List.Infix
import LocaleLint.Proofs.Record.Checked
import LocaleLint.Proofs.Report.Count

set_option autoImplicit false

namespace LocaleLint

open LocaleLint.Yaml

namespace Rejection

theorem placeOf_ends (filename line snippet : Option String)
    (closed : ∀ number, line = some number → ¬ EndsWithPeriod number) :
    ¬ EndsWithPeriod (placeOf filename line snippet) := by
  have inFile (name : String) : ¬ EndsWithPeriod (" in \"" ++ name ++ "\"") :=
    not_endsWithPeriod_behind _ "\"" (by decide) (by decide)
  have near (snippet : String) : ¬ EndsWithPeriod (" (near \"" ++ snippet ++ "\")") :=
    not_endsWithPeriod_behind _ "\")" (by decide) (by decide)
  have nothing : ¬ EndsWithPeriod "" := by decide
  unfold placeOf
  refine not_endsWithPeriod_append _ _ (not_endsWithPeriod_append _ _ ?_ ?_) ?_
  · split
    · exact nothing
    · split
      · exact nothing
      · exact inFile _
  · split
    · exact nothing
    · next number => exact not_endsWithPeriod_append _ _ (by decide) (closed number rfl)
  · split
    · exact nothing
    · split
      · exact nothing
      · exact near _

theorem endsWithPeriod_describeWith (message place : String) (closed : ¬ EndsWithPeriod place) :
    EndsWithPeriod (describeWith message place) ↔ EndsWithPeriod message := by
  simp only [describeWith, splitPeriod]
  split
  -- A period that was taken off comes back last; otherwise
  -- nothing that is put behind ends with one.
  · next ends =>
    have period : EndsWithPeriod (String.ofList ['.']) := by decide
    exact iff_of_true ((endsWithPeriod_append _ _).mpr (.inl period)) ends
  · next open_ =>
    refine iff_of_false ?_ open_
    have nothing : ¬ EndsWithPeriod (String.ofList []) := by decide
    rw [String.ofList_toList]
    exact not_endsWithPeriod_append _ _ (not_endsWithPeriod_append _ _ open_ closed) nothing

theorem fst_splitPeriod (text : List Char) :
    (splitPeriod text).1 = if text.getLast? = some '.' then text.dropLast else text := by
  unfold splitPeriod
  split <;> rfl

theorem body_describeWith (message place : String) :
    (splitPeriod message.toList).1 <+: (describeWith message place).toList := by
  simp only [describeWith, String.toList_append, String.toList_ofList, List.append_assoc]
  exact List.prefix_append _ _

/-- Its class makes copies, its line can be written, and the record reads its line and its
column. -/
structure Draft.IsRecordable (draft : Draft) : Prop where
  copies : draft.category.copies = true
  written : draft.line.scalar.isWritable = true
  line : ∃ value, draft.line.read = .ok value
  column : ∃ value, draft.column.read = .ok value

theorem read_ofOption (given : Option Int) : (Count.ofOption given).read = .ok given := by
  cases given <;> rfl

theorem isRecordable_draft (r : Rejection) :
    r.draft.IsRecordable ↔ r.category.copies = true ∧ r.hasWritableLine = true := by
  have written : r.draft.line.scalar.isWritable = r.hasWritableLine := by
    cases line : r.line <;>
      simp [draft, hasWritableLine, line, Count.ofOption, Count.scalar, Scalar.isWritable]
  constructor
  · intro recordable
    exact ⟨recordable.copies, written ▸ recordable.written⟩
  · rintro ⟨copies, writable⟩
    exact ⟨copies, written ▸ writable, ⟨_, read_ofOption r.line⟩, ⟨_, read_ofOption r.column⟩⟩

end Rejection

namespace FileFailure

/-- A failure that says what a rejection says, made of the given parts, for the file at a path. -/
structure Records (failure : FileFailure) (path : String) (draft : Rejection.Draft) : Prop where
  path : failure.path = path
  kind : failure.kind = draft.category.kind
  line : draft.line.read = .ok failure.line
  column : draft.column.read = .ok failure.column
  snippet : failure.snippet = draft.snippet
  begins : (if EndsWithPeriod draft.message then draft.message.toList.dropLast
    else draft.message.toList) <+: failure.message.toList
  ends : EndsWithPeriod failure.message ↔ EndsWithPeriod draft.message

section
variable (path : String) (draft : Rejection.Draft)

theorem describe_eq (message : String) (described : draft.describe path = .ok message) :
    draft.line.scalar.isWritable = true ∧ ∃ line : Option String,
      (∀ number, line = some number → number = draft.line.scalar.text) ∧
        message = Rejection.describeWith draft.message
          (Rejection.placeOf (some path) line draft.snippet) := by
  unfold Rejection.Draft.describe Count.written at described
  split at described
  next absent =>
    cases described
    exact ⟨by rw [absent]; rfl, none, nofun, rfl⟩
  next =>
    split at described
    next writable =>
      cases described
      exact ⟨writable, _, by simp, rfl⟩
    next => cases described

theorem exists_describe (writable : draft.line.scalar.isWritable = true) :
    ∃ message, draft.describe path = .ok message := by
  unfold Rejection.Draft.describe Count.written
  split
  next => exact ⟨_, rfl⟩
  next => exact ⟨_, by rw [if_pos writable]; rfl⟩

theorem optional_snippet (snippet : Option String) :
    Field.optional Field.text (.scalar ((snippet.map Scalar.string).getD .null)) = .ok snippet := by
  cases snippet with
  | none => rfl
  | some text => simp [Field.optional, Except.map]

theorem ofEntries_entriesOf (message : String) (given : message ≠ "") :
    ofEntries (entriesOf path draft message) =
      (Checked.both (Checked.inside "line" (Checked.ofDefect draft.line.read))
        (Checked.inside "column" (Checked.ofDefect draft.column.read))).map fun (line, column) =>
          ⟨path, draft.category.kind, message, line, column, draft.snippet, given⟩ := by
  have kind : Field.kind (.scalar (.string draft.category.kind.name)) =
    .ok draft.category.kind := by
    simp [Field.kind, Kind.ofName?_name]
  have checked : Field.message (.scalar (.string message)) = .ok ⟨message, given⟩ := by
    simp [Field.message, given]
  have snippet := optional_snippet draft.snippet
  have line : Field.optional Field.integer (.scalar draft.line.scalar) = draft.line.read := rfl
  have column : Field.optional Field.integer (.scalar draft.column.scalar) = draft.column.read :=
    rfl
  simp [ofEntries, entriesOf, Field.required, Field.withDefault, Field.find?, kind, checked, line,
    column, snippet]
  generalize draft.line.read = number
  generalize draft.column.read = place
  cases number <;> cases place <;> rfl

theorem recorded_of_recordable (given : draft.message ≠ "") (recordable : draft.IsRecordable) :
    ∃ failure, recorded path draft = .ok failure ∧ failure.Records path draft := by
  obtain ⟨message, described⟩ := exists_describe path draft recordable.written
  obtain ⟨-, shown, spelled, whole⟩ := describe_eq path draft message described
  obtain ⟨line, readLine⟩ := recordable.line
  obtain ⟨column, readColumn⟩ := recordable.column
  have message_ne : message ≠ "" := by
    rw [whole]
    exact Rejection.describeWith_ne _ _ given
  have entries := ofEntries_entriesOf path draft message message_ne
  rw [readLine, readColumn] at entries
  refine ⟨⟨path, draft.category.kind, message, line, column, draft.snippet, message_ne⟩, ?_, ?_⟩
  · simp only [recorded, recordable.copies, described, entries]
    rfl
  · constructor
    case path => rfl
    case kind => rfl
    case line => exact readLine
    case column => exact readColumn
    case snippet => rfl
    case begins =>
      have body := Rejection.body_describeWith draft.message
        (Rejection.placeOf (some path) shown draft.snippet)
      rw [Rejection.fst_splitPeriod, ← whole] at body
      exact body
    case ends =>
      have closed := Rejection.placeOf_ends (some path) shown draft.snippet fun number same =>
        spelled number same ▸ draft.line.not_endsWithPeriod_text line readLine
      exact whole ▸ Rejection.endsWithPeriod_describeWith draft.message _ closed

theorem recordable_of_recorded (failure : FileFailure) (given : draft.message ≠ "")
    (made : recorded path draft = .ok failure) : draft.IsRecordable := by
  unfold recorded at made
  split at made
  next => cases made
  next copies =>
    split at made
    next => cases made
    next message described =>
      obtain ⟨writable, shown, -, whole⟩ := describe_eq path draft message described
      have message_ne : message ≠ "" := by
        rw [whole]
        exact Rejection.describeWith_ne _ _ given
      rw [ofEntries_entriesOf path draft message message_ne] at made
      refine ⟨by simpa using copies, writable, ?_, ?_⟩
      next =>
        cases line : draft.line.read with
        | ok value => exact ⟨value, rfl⟩
        | error defect =>
          rw [line] at made
          generalize draft.column.read = other at made
          cases other <;> cases made
      next =>
        cases column : draft.column.read with
        | ok value => exact ⟨value, rfl⟩
        | error defect =>
          rw [column] at made
          generalize draft.line.read = other at made
          cases other <;> cases made

end

theorem describe_draft (path : String) (r : Rejection) (writable : r.hasWritableLine = true) :
    r.draft.describe path = .ok (r.named (some path)).description := by
  unfold Rejection.hasWritableLine at writable
  cases line : r.line with
  | none => simp [Rejection.Draft.describe, Rejection.draft, line, Count.ofOption, Count.written,
      Rejection.description, Rejection.place, Rejection.named, Except.map]
  | some number =>
    rw [line] at writable
    have shown : Scalar.isWritable (.int number) = true := by
      simpa [Scalar.isWritable] using writable
    simp [Rejection.Draft.describe, Rejection.draft, line, Count.ofOption, Count.written,
      Count.scalar, shown, Rejection.description, Rejection.place, Rejection.named, Except.map,
      Scalar.text]

theorem recorded_draft (path : String) (r : Rejection) (accepted : r.refusal? = none) :
    recorded path r.draft = .ok (ofRejection path r) := by
  obtain ⟨copies, writable, -⟩ := r.refusal?_eq_none_iff.mp accepted
  have entries := ofEntries_entriesOf path r.draft _
    (Rejection.describeWith_ne r.message (r.named (some path)).place r.message_ne)
  have line : r.draft.line.read = .ok r.line := Rejection.read_ofOption r.line
  have column : r.draft.column.read = .ok r.column := Rejection.read_ofOption r.column
  have described := describe_draft path r writable
  rw [line, column] at entries
  have copiesDraft : r.draft.category.copies = true := copies
  simp only [recorded, copiesDraft, described]
  exact congrArg (Except.mapError Abort.unrecordable) entries

end FileFailure

namespace Report

/-- What a report shows of itself follows from its failures. -/
structure IsConsistent (report : Report) : Prop where
  counted : report.failureCount = report.failures.length
  listed : report.messages.length = report.failures.length
  spoken : ∀ i : Nat, report.messages[i]? = report.failures[i]?.map (·.message)
  audible : ∀ message ∈ report.messages, message ≠ ""
  ok : report.ok = true ↔ report.failures = []

theorem isConsistent (report : Report) : report.IsConsistent where
  counted := rfl
  listed := List.length_map _
  spoken i := List.getElem?_map
  audible := by
    intro message member
    obtain ⟨failure, -, rfl⟩ := List.mem_map.mp member
    exact failure.message_ne
  ok := List.isEmpty_iff

section Step
variable (report : Report)

theorem outcome_emptyMessage (path : String) (draft : Rejection.Draft)
    (empty : draft.message = "") :
    report.outcome (.addFailure path draft) = (.error .emptyMessage, report) := by
  simp only [outcome, take, if_pos empty]
  rfl

theorem outcome_addFailure (path : String) (draft : Rejection.Draft) (given : draft.message ≠ "") :
    report.outcome (.addFailure path draft) =
      match FileFailure.recorded path draft with
      | .ok failure => (.ok (some failure), report.withFailure failure)
      | .error abort => (.error abort, report) := by
  simp only [outcome, take, if_neg given]
  cases FileFailure.recorded path draft <;> rfl

theorem outcome_draft (path : String) (r : Rejection) (accepted : r.refusal? = none) :
    report.outcome (.addFailure path r.draft) =
      (.ok (some (.ofRejection path r)), report.addFailure path r) := by
  rw [outcome_addFailure report path r.draft r.message_ne,
    FileFailure.recorded_draft path r accepted]
  rfl

theorem outcome_cases (step : Step) :
    (∃ count, step = .setChecked count ∧
      report.outcome step = (.ok none, report.withChecked count)) ∨
    (∃ failure, report.outcome step = (.ok (some failure), report.withFailure failure)) ∨
    ∃ abort, report.outcome step = (.error abort, report) := by
  cases step with
  | setChecked count => exact .inl ⟨count, rfl, rfl⟩
  | addFailure path draft =>
    by_cases empty : draft.message = ""
    next => exact .inr (.inr ⟨_, outcome_emptyMessage report path draft empty⟩)
    next =>
      rw [outcome_addFailure report path draft empty]
      cases FileFailure.recorded path draft with
      | ok failure => exact .inr (.inl ⟨failure, rfl⟩)
      | error abort => exact .inr (.inr ⟨abort, rfl⟩)

theorem unchanged_of_error (step : Step) (abort : Abort)
    (fails : (report.outcome step).1 = .error abort) : (report.outcome step).2 = report := by
  rcases outcome_cases report step with ⟨count, -, taken⟩ | ⟨failure, taken⟩ | ⟨other, taken⟩
  · rw [taken] at fails
    cases fails
  · rw [taken] at fails
    cases fails
  · rw [taken]

theorem failures_outcome (step : Step) : report.failures <+: (report.outcome step).2.failures := by
  rcases outcome_cases report step with ⟨count, -, taken⟩ | ⟨failure, taken⟩ | ⟨abort, taken⟩
  · rw [taken]
    exact List.prefix_refl _
  · rw [taken]
    exact List.prefix_append _ _
  · rw [taken]

end Step

theorem runSteps_append (report : Report) (first second : List Step) :
    report.runSteps (first ++ second) = (report.runSteps first).runSteps second :=
  List.foldl_append

theorem failures_runSteps (report : Report) (steps : List Step) :
    report.failures <+: (report.runSteps steps).failures := by
  induction steps generalizing report with
  | nil => exact List.prefix_refl _
  | cons step rest ih =>
    exact (failures_outcome report step).trans (ih (report.outcome step).2)

/-- What holds after the last of any steps. -/
theorem runSteps_grows (report : Report) (steps : List Step) (step : Step) :
    let before := report.runSteps steps
    let after := report.runSteps (steps ++ [step])
    let given := (before.outcome step).1
    report.IsConsistent ∧ after.IsConsistent ∧
      report.failures <+: before.failures ∧ before.failures <+: after.failures ∧
      (∀ abort, given = .error abort → after = before) ∧
      (∀ r : Rejection, r.draft.IsRecordable ↔ r.category.copies = true ∧
        r.hasWritableLine = true) ∧
      (∀ path (r : Rejection), r.refusal? = none → before.outcome (.addFailure path r.draft) =
        (.ok (some (.ofRejection path r)), before.addFailure path r)) ∧
      match step with
      | .setChecked count => given = .ok none ∧ after = before.withChecked count
      | .addFailure path draft =>
          (draft.message = "" → given = .error .emptyMessage) ∧
          (draft.message ≠ "" → draft.IsRecordable → ∃ failure, failure.Records path draft ∧
            given = .ok (some failure) ∧ after = before.withFailure failure) ∧
          (draft.message ≠ "" → ¬ draft.IsRecordable → ∃ abort, given = .error abort) := by
  intro before after given
  have stepped : after = (before.outcome step).2 := runSteps_append report steps [step]
  refine ⟨report.isConsistent, after.isConsistent, failures_runSteps report steps, ?_, ?_,
    Rejection.isRecordable_draft, outcome_draft before, ?_⟩
  · rw [stepped]
    exact failures_outcome before step
  · intro abort fails
    rw [stepped]
    exact unchanged_of_error before step abort fails
  · cases step with
    | setChecked count => exact ⟨rfl, stepped⟩
    | addFailure path draft =>
      refine ⟨fun empty => ?_, fun spoken recordable => ?_, fun spoken unrecordable => ?_⟩
      · exact congrArg Prod.fst (outcome_emptyMessage before path draft empty)
      · obtain ⟨failure, made, records⟩ :=
          FileFailure.recorded_of_recordable path draft spoken recordable
        have adds := outcome_addFailure before path draft spoken
        rw [made] at adds
        exact ⟨failure, records, congrArg Prod.fst adds, stepped.trans (congrArg Prod.snd adds)⟩
      · have adds := outcome_addFailure before path draft spoken
        cases made : FileFailure.recorded path draft with
        | ok failure =>
          exact absurd (FileFailure.recordable_of_recorded path draft failure spoken made)
            unrecordable
        | error abort =>
          rw [made] at adds
          exact ⟨abort, congrArg Prod.fst adds⟩

/-- A line that is no whole number, one with too many digits to be written, and a class of its
own. -/
theorem addFailure_refused :
    let halfway : Count := .float (.finite false 3 (-1))
    let long : Count := .int (Nat.pow 10 Number.maxWrittenDigits : Nat)
    let add (category : Category) (line : Count) : Except Abort (Option FileFailure) :=
      (Report.empty.outcome (.addFailure "a.yml" ⟨category, "m", line, .absent, none, none⟩)).1
    add .malformed halfway = .error (.unrecordable [⟨["line"], .fractional⟩]) ∧
      add .malformed long = .error (.unwritten .numberTooLong) ∧
      add (.foreign "Lost" .malformed false) .absent = .error .uncopiable := by
  decide +kernel

example : ((Report.empty.runSteps [.setChecked 2,
    .addFailure "" ⟨.undecodable, ".", .absent, .absent, none, none⟩,
    .addFailure "a.yml" ⟨.malformed, "", .int 3, .absent, none, none⟩]).messages) = ["."] := by
  cbv

end Report

end LocaleLint
