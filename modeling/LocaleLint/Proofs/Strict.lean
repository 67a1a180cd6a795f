import LocaleLint.Strict
import LocaleLint.Proofs.Yaml.Interruption

set_option autoImplicit false

namespace LocaleLint

/-- The problems that a text can have: a character that is not allowed, and a fault at a place. -/
inductive Lenient.IsProblemOf (source : String) : Yaml.Problem → Prop
  | unacceptable (c : Char) (index : Nat) :
    IsProblemOf source (.plain (Yaml.unacceptableText c.toNat index))
  | fault (fault : Yaml.Fault) : IsProblemOf source (.marked (fault.marked source.toList))

theorem Lenient.problem_of_rejected (source : String) (filename : Option String)
    (rejection : Rejection)
    (ended : (parse Channel.outermost source filename).outcome = .error (.rejected rejection)) :
    ∃ problem, IsProblemOf source problem ∧ rejection = .ofProblem problem source filename := by
  have unraised := Yaml.read_unraised source.toList
  simp only [parse] at ended
  cases outcome : (Yaml.read Channel.outermost source.toList).outcome with
  | ok value =>
    rw [outcome] at ended
    cases ended
  | error halt =>
    rw [outcome] at ended unraised
    cases halt with
    | raised other => exact absurd rfl (unraised other)
    | stop stop =>
      cases stop with
      | unacceptable c index =>
        cases ended
        exact ⟨_, .unacceptable c index, rfl⟩
      | fault fault =>
        cases ended
        exact ⟨_, .fault fault, rfl⟩
      | breakdown breakdown => cases ended

theorem Lenient.escaped_of_rejected (source : String) (filename : Option String)
    (rejection : Rejection)
    (ended : (parse Channel.outermost source filename).outcome = .error (.rejected rejection)) :
    rejection.escaped = none := by
  obtain ⟨problem, -, rfl⟩ := problem_of_rejected source filename rejection ended
  rfl

theorem Lenient.outcome_of_halt (channel : Channel) (source : String) (filename : Option String)
    (halt : Yaml.Halt) (ended : (Yaml.read channel source.toList).outcome = .error halt) :
    (parse channel source filename).outcome = .error (failureOf halt source filename) := by
  simp only [parse]
  rw [ended]
  rfl

theorem Lenient.breakdown_of_aborted (channel : Channel) (source : String)
    (filename : Option String) (abort : Abort)
    (ended : (parse channel source filename).outcome = .error (.aborted abort)) :
    ∃ breakdown, (Yaml.read channel source.toList).outcome =
      .error (.stop (.breakdown breakdown)) := by
  cases ending : (Yaml.read channel source.toList).outcome with
  | ok value =>
    simp only [parse] at ended
    rw [ending] at ended
    cases ended
  | error halt =>
    rw [outcome_of_halt _ _ _ _ ending] at ended
    cases halt with
    | raised rejection => cases ended
    | stop stop =>
      cases stop with
      | unacceptable c index => cases ended
      | fault fault => cases ended
      | breakdown breakdown => exact ⟨breakdown, rfl⟩

theorem ColonScan.category_of_check (source : String) (filename : Option String)
    (rejection : Rejection) (found : ColonScan.check source filename = some rejection) :
    rejection.category = .colonSpacing := by
  obtain ⟨place, -, rfl⟩ := Option.map_eq_some_iff.mp found
  rfl

theorem ColonScan.escaped_of_check (source : String) (filename : Option String)
    (rejection : Rejection) (found : ColonScan.check source filename = some rejection) :
    rejection.escaped = none := by
  obtain ⟨place, -, rfl⟩ := Option.map_eq_some_iff.mp found
  rfl

theorem ColonScan.filename_of_check (source : String) (filename : Option String)
    (rejection : Rejection) (found : ColonScan.check source filename = some rejection) :
    rejection.filename = filename := by
  obtain ⟨place, -, rfl⟩ := Option.map_eq_some_iff.mp found
  rfl

theorem ColonScan.check_named (source : String) (filename other : Option String) :
    ColonScan.check source other = (ColonScan.check source filename).map (·.named other) := by
  rw [check, check, Option.map_map]
  rfl

namespace Strict

theorem failureOf_rejected (own : Rejection) (source : String) (filename : Option String) :
    failureOf (.rejected own) source filename =
      if own.filename = filename ∨ own.category.copies = true then .rejected (own.named filename)
      else .aborted .uncopiable := by
  by_cases same : own.filename = filename
  next =>
    rw [if_pos (.inl same), Rejection.named, ← same]
    simp [failureOf]
  next =>
    by_cases copies : own.category.copies = true <;>
      simp [failureOf, same, Rejection.attributedTo?, copies]

theorem filename_of_failureOf (failure : ParserFailure) (source : String)
    (filename : Option String) (rejection : Rejection)
    (ended : failureOf failure source filename = .rejected rejection) :
    rejection.filename = filename := by
  cases failure with
  | problem problem =>
    simp only [failureOf] at ended
    split at ended
    next => cases ended
    next =>
      cases ended
      rfl
  | rejected other =>
    rw [failureOf_rejected] at ended
    split at ended
    next =>
      cases ended
      rfl
    next => cases ended
  | aborted abort => cases ended

theorem filename_of_rejected (parser : Parser) (source : String) (filename : Option String)
    (rejection : Rejection)
    (ended : (parse parser source filename).outcome = .error (.rejected rejection)) :
    rejection.filename = filename := by
  simp only [parse] at ended
  split at ended
  · next failure _ =>
    exact filename_of_failureOf failure source filename rejection (Except.error.inj ended)
  · split at ended
    · next found =>
      cases ended
      exact ColonScan.filename_of_check _ _ _ found
    · cases ended

theorem outcome_of_halt (source : String) (filename : Option String) (halt : Yaml.Halt)
    (ended : (Yaml.read (Channel.outermost.enter filename) source.toList).outcome = .error halt) :
    (parse Lenient.parser source filename).outcome =
      .error (failureOf ((Lenient.failureOf halt source (some anonymous)).toParser)
        source filename) := by
  simp only [parse, Lenient.parser]
  rw [Lenient.outcome_of_halt _ _ _ _ ended]
  rfl

theorem outcome_of_silent (source : String) (filename : Option String)
    (silent : (Lenient.parse Channel.outermost source (some anonymous)).diagnostics = []) :
    (parse Lenient.parser source filename).outcome =
      match (Lenient.parse Channel.outermost source (some anonymous)).outcome with
      | .error (.rejected rejection) => .error (.rejected (rejection.named filename))
      | .error (.aborted abort) => .error (.aborted abort)
      | .ok value =>
          match ColonScan.check source filename with
          | some rejection => .error (.rejected rejection)
          | none => .ok value := by
  have raises := Yaml.read_raisesFirst source.toList filename
  have same : Yaml.read (Channel.outermost.enter filename) source.toList =
      Yaml.read Channel.outermost source.toList := by
    rw [Yaml.RaisesFirst, show (Yaml.read Channel.outermost source.toList).duplicates =
      [] from silent]
      at raises
    exact raises
  cases ended : (Yaml.read Channel.outermost source.toList).outcome with
  | ok value =>
    simp only [parse, Lenient.parser, Lenient.parse, same]
    rw [ended]
    rfl
  | error halt =>
    rw [Lenient.outcome_of_halt _ _ _ _ ended,
      outcome_of_halt source filename halt (by rw [same, ended])]
    cases failed : Lenient.failureOf halt source (some anonymous) with
    | aborted abort => rfl
    | rejected rejection =>
      have copies : rejection.category.copies = true := by
        obtain ⟨problem, -, rfl⟩ := Lenient.problem_of_rejected source (some anonymous) rejection
          (by rw [Lenient.outcome_of_halt _ _ _ _ ended, failed])
        rfl
      rw [Failure.toParser, failureOf_rejected, if_pos (.inr copies)]

theorem outcome_of_announced (source : String) (filename : Option String)
    (first : Yaml.DuplicateKey) (rest : List Yaml.DuplicateKey)
    (announced : (Lenient.parse Channel.outermost source (some anonymous)).diagnostics =
      first :: rest) :
    ∃ rejection, (Diagnostic.duplicateKey first).escalated? filename = some rejection ∧
      (parse Lenient.parser source filename).outcome = .error (.rejected rejection) := by
  have raises := Yaml.read_raisesFirst source.toList filename
  rw [Yaml.RaisesFirst, show (Yaml.read Channel.outermost source.toList).duplicates = first :: rest
    from announced] at raises
  obtain ⟨rejection, escalated, raised⟩ := raises
  obtain ⟨-, -, -, -, filed, -⟩ := Diagnostic.of_escalated _ _ _ escalated
  refine ⟨rejection, escalated, ?_⟩
  rw [outcome_of_halt source filename (.raised rejection) (by rw [raised])]
  simp only [Lenient.failureOf, Failure.toParser, failureOf, filed, if_true]

/-- What strict reading makes of a lenient one. -/
def Escalates (source : String) (filename : Option String) (lenient : Lenient.Run)
    (outcome : Except Failure Yaml.Value) : Prop :=
  match lenient.diagnostics, lenient.outcome with
  | first :: _, _ => ∃ rejection, outcome = .error (.rejected rejection) ∧
      rejection.category = .duplicateKey ∧ rejection.line = first.line ∧
        rejection.column = first.column ∧
          Diagnostic.duplicateIn? first.wording = some rejection.message
  | [], .error (.rejected rejection) => outcome = .error (.rejected (rejection.named filename))
  | [], .error (.aborted abort) => outcome = .error (.aborted abort)
  | [], .ok value =>
      match ColonScan.check source filename with
      | some rejection => outcome = .error (.rejected rejection)
      | none => outcome = .ok value

theorem parse_lenient (source : String) (filename : Option String) :
    Escalates source filename (Lenient.parse Channel.outermost source (some anonymous))
        (parse Lenient.parser source filename).outcome ∧
      ∀ rejection, (parse Lenient.parser source filename).outcome = .error (.rejected rejection) →
        rejection.filename = filename := by
  refine ⟨?_, fun rejection ended => filename_of_rejected _ _ _ _ ended⟩
  unfold Escalates
  cases announced : (Lenient.parse Channel.outermost source (some anonymous)).diagnostics with
  | nil =>
    have agrees := outcome_of_silent source filename announced
    cases ending : (Lenient.parse Channel.outermost source (some anonymous)).outcome with
    | error failure =>
      rw [ending] at agrees
      cases failure with
      | rejected rejection => exact agrees
      | aborted abort => exact agrees
    | ok value =>
      rw [ending] at agrees
      cases scanned : ColonScan.check source filename with
      | some rejection =>
        rw [scanned] at agrees
        exact agrees
      | none =>
        rw [scanned] at agrees
        exact agrees
  | cons first rest =>
    obtain ⟨rejection, escalated, ended⟩ :=
      outcome_of_announced source filename first rest announced
    obtain ⟨category, message, line, column, -⟩ := Diagnostic.of_escalated _ _ _ escalated
    exact ⟨rejection, ended, category, line, column, message⟩

end Strict

end LocaleLint
