import LocaleLint.Proofs.Strict
import LocaleLint.Proofs.Interception

set_option autoImplicit false

namespace LocaleLint

-- A diagnostic that no scope stops.
def Diagnostic.isOther (d : Diagnostic) : Bool := (duplicateIn? d.text).isNone

theorem Diagnostic.isOther_eq_true_iff (d : Diagnostic) :
    d.isOther = true ↔ duplicateIn? d.text = none :=
  Option.isNone_iff_eq_none

theorem Diagnostic.isOther_eq_false_iff (d : Diagnostic) :
    d.isOther = false ↔ ∃ found, duplicateIn? d.text = some found := by
  rw [isOther, Option.isNone_eq_false_iff, Option.isSome_iff_exists]

theorem Channel.deliverAll_enter (channel : Channel) (filename : Option String)
    (diagnostics : List Diagnostic) :
    (channel.enter filename).deliverAll diagnostics =
      (diagnostics.takeWhile Diagnostic.isOther,
        (diagnostics.dropWhile Diagnostic.isOther).head?.bind (·.escalated? filename)) := by
  induction diagnostics with
  | nil => rfl
  | cons d rest ih =>
    cases other : d.isOther with
    | true =>
      have unmatched := d.isOther_eq_true_iff.mp other
      rw [deliverAll, deliver_of_unmatched channel filename d unmatched, ih,
        List.takeWhile_cons_of_pos other, List.dropWhile_cons_of_pos other]
    | false =>
      obtain ⟨found, matched⟩ := d.isOther_eq_false_iff.mp other
      obtain ⟨r, escalated, -⟩ := d.escalated?_eq_some filename found matched
      have stops : ¬ d.isOther = true := by simp [other]
      rw [deliverAll, deliver_enter, escalated, List.takeWhile_cons_of_neg stops,
        List.dropWhile_cons_of_neg stops]
      simp only [List.head?_cons, Option.bind_some, escalated]

namespace Strict

/-- What strict reading makes of the end of a run that announces no duplicate key. -/
def Concludes (source : String) (filename : Option String) (ended : Except ParserFailure Yaml.Value)
    (outcome : Except Failure Yaml.Value) : Prop :=
  match ended with
  | .error (.problem problem) =>
      match problem.obstacle? with
      | some cause => outcome = .error (.aborted (.unwritten cause))
      | none => ∃ r, outcome = .error (.rejected r) ∧
          r.category = .malformed ∧ r.message = problem.message ∧ r.message ≠ ""
  | .error (.rejected own) =>
      if own.filename = filename ∨ own.category.copies = true then
        ∃ r, outcome = .error (.rejected r) ∧
          r.category = own.category ∧ r.kind = own.kind ∧ r.message = own.message ∧
            r.escaped = own.escaped ∧ r.line = own.line ∧ r.column = own.column ∧
              r.snippet = own.snippet
      else outcome = .error (.aborted .uncopiable)
  | .error (.aborted abort) => outcome = .error (.aborted abort)
  | .ok value =>
      match ColonScan.check source filename with
      | some r => outcome = .error (.rejected r) ∧ r.category = .colonSpacing
      | none => outcome = .ok value

/-- A run that announced no duplicate key is judged by its end alone. -/
theorem parse_concludes (parser : Parser) (source : String) (filename : Option String)
    (ended : Except ParserFailure Yaml.Value)
    (same : (parser (Channel.outermost.enter filename) source).outcome = ended) :
    Concludes source filename ended (parse parser source filename).outcome := by
  simp only [parse, same]
  cases ended with
  | error failure =>
    cases failure with
    | problem problem =>
      simp only [Concludes, failureOf]
      cases problem.obstacle? with
      | some cause => rfl
      | none => exact ⟨_, rfl, rfl, rfl, problem.message_ne⟩
    | rejected own =>
      simp only [Concludes]
      rw [failureOf_rejected]
      split
      next => exact ⟨_, rfl, rfl, rfl, rfl, rfl, rfl, rfl, rfl⟩
      next => rfl
    | aborted abort => rfl
  | ok value =>
    unfold Concludes
    cases scanned : ColonScan.check source filename with
    | some r => exact ⟨rfl, ColonScan.category_of_check source filename r scanned⟩
    | none => rfl

theorem parse_script (script : String → Script) (source : String) (filename : Option String) :
    (parse (.ofScript script) source filename).forwarded =
      (script source).diagnostics.takeWhile Diagnostic.isOther ∧
    (match (script source).diagnostics.dropWhile Diagnostic.isOther with
      | d :: _ => ∃ r, (parse (.ofScript script) source filename).outcome = .error (.rejected r) ∧
          r.category = .duplicateKey ∧ Diagnostic.duplicateIn? d.text = some r.message ∧
            r.line = d.line ∧ r.column = d.column ∧ r.snippet = none
      | [] => Concludes source filename (script source).outcome
          (parse (.ofScript script) source filename).outcome) ∧
    ∀ r, (parse (.ofScript script) source filename).outcome = .error (.rejected r) →
      r.filename = filename := by
  have runs := Channel.deliverAll_enter Channel.outermost filename (script source).diagnostics
  refine ⟨?_, ?_, fun r ended => filename_of_rejected _ _ _ r ended⟩
  · simp only [parse, Parser.ofScript, Script.run, runs]
  · cases remaining : (script source).diagnostics.dropWhile Diagnostic.isOther with
    | nil =>
      have ended : (Parser.ofScript script (Channel.outermost.enter filename) source).outcome =
          (script source).outcome := by
        simp only [Parser.ofScript, Script.run, runs, remaining]
        rfl
      exact parse_concludes _ source filename _ ended
    | cons d rest =>
      -- What is left begins with the diagnostic that stopped the run.
      have stops : d.isOther = false := by
        have head := List.head?_dropWhile_not Diagnostic.isOther (script source).diagnostics
        rw [remaining] at head
        simpa using head
      obtain ⟨found, matched⟩ := d.isOther_eq_false_iff.mp stops
      obtain ⟨r, escalated, category, message, line, column, filed, snippet⟩ :=
        d.escalated?_eq_some filename found matched
      refine ⟨r, ?_, category, ?_, line, column, snippet⟩
      · simp only [parse, Parser.ofScript, Script.run, runs, remaining, List.head?_cons,
          Option.bind_some, escalated, failureOf, filed, if_true]
      · rw [matched, message]

end Strict

end LocaleLint
