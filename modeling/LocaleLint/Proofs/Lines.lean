import LocaleLint.Proofs.Strict
import LocaleLint.Proofs.ColonScan.Place
import LocaleLint.Proofs.Yaml.ReportedPlace
import LocaleLint.Proofs.Yaml.Order.Graph

set_option autoImplicit false

namespace LocaleLint

/-- A line, numbered from one, that a text has. -/
def IsLineOf (text : String) (line : Int) : Prop := 0 < line ∧ line ≤ text.length + 1

theorem Yaml.Position.IsIn.isLineOf {text : String} {place : Position}
    (isIn : place.IsIn text.toList) : IsLineOf text (place.line + 1) := by
  have within := isIn.line_le
  rw [String.length_toList] at within
  exact ⟨by omega, by omega⟩

theorem ColonScan.isLineOf_of_check (source : String) (filename : Option String) (r : Rejection)
    (line : Int) (found : check source filename = some r) (named : r.line = some line) :
    IsLineOf source line := by
  obtain ⟨i, snippet, first⟩ := exists_first_of_check source filename r found
  obtain ⟨same, rejected, -, place, -⟩ := check_of_first source filename i snippet first
  rw [found] at rejected
  cases rejected
  obtain ⟨layout, isOf, normalized⟩ := exists_layout source.toList
  rw [normalized] at first place
  obtain ⟨whole, points⟩ := isOf.points i snippet first
  obtain ⟨inside, -⟩ := List.getElem?_eq_some_iff.mp points.numbered.2
  have short := Text.length_sourceLines_le source.toList
  rw [String.length_toList] at short
  rw [named] at place
  cases place
  refine ⟨by omega, ?_⟩
  change ((layout.taken.length + i + 1 : Nat) : Int) ≤ source.length + 1
  omega

theorem Yaml.exists_place_of_told (channel : Channel) (source : List Char) (found : DuplicateKey)
    (told : found ∈ (read channel source).duplicates) :
    ∃ place : Position, found.IsAt place ∧ place.IsIn source := by
  obtain ⟨g, composed, told⟩ := exists_graph channel source found told
  have starts := graphOfSource_isIn source
  rw [composed] at starts
  obtain ⟨closed, -⟩ := keysWritten_writes source g composed
  obtain ⟨id, pairs, first, again, repetition⟩ := g.read_reports channel closed found told
  obtain ⟨pair, -, -, place⟩ := repetition.place
  exact ⟨_, place, starts g rfl pair.1⟩

theorem Lenient.isLineOf_of_rejected (source : String) (filename : Option String) (r : Rejection)
    (line : Int)
    (ended : (parse Channel.outermost source filename).outcome = .error (.rejected r))
    (named : r.line = some line) : IsLineOf source line := by
  have unraised := Yaml.read_unraised source.toList
  cases outcome : (Yaml.read Channel.outermost source.toList).outcome with
  | ok value =>
    simp only [parse, outcome] at ended
    cases ended
  | error halt =>
    have isIn := Yaml.read_halt_isIn _ _ _ outcome
    rw [outcome_of_halt _ _ _ _ outcome] at ended
    rw [outcome] at unraised
    cases halt with
    | raised other => exact absurd rfl (unraised other)
    | stop stop =>
      cases stop with
      | breakdown b => cases ended
      | unacceptable c index =>
        cases ended
        cases named
      | fault fault =>
        cases ended
        cases named
        exact Yaml.Position.IsIn.isLineOf isIn

/-- No line is reported that the text does not have. -/
theorem Strict.isLineOf_of_rejected (text : String) (filename : Option String) (r : Rejection)
    (line : Int) (ended : (parse Lenient.parser text filename).outcome = .error (.rejected r))
    (named : r.line = some line) : IsLineOf text line := by
  cases announced : (Lenient.parse Channel.outermost text (some anonymous)).diagnostics with
  | cons first rest =>
    obtain ⟨other, escalated, same⟩ := outcome_of_announced text filename first rest announced
    rw [ended] at same
    cases same
    obtain ⟨-, -, place, -⟩ := Diagnostic.of_escalated _ _ _ escalated
    have told : first ∈ (Yaml.read Channel.outermost text.toList).duplicates := by
      change first ∈ (Lenient.parse Channel.outermost text (some anonymous)).diagnostics
      rw [announced]
      exact List.mem_cons_self ..
    obtain ⟨start, isAt, isIn⟩ := Yaml.exists_place_of_told _ _ _ told
    have same : some line = first.line := named ▸ place
    rw [isAt.1] at same
    cases same
    exact isIn.isLineOf
  | nil =>
    have same := outcome_of_silent text filename announced
    cases ending : (Lenient.parse Channel.outermost text (some anonymous)).outcome with
    | ok value =>
      rw [ending, ended] at same
      cases scanned : ColonScan.check text filename with
      | none =>
        rw [scanned] at same
        cases same
      | some found =>
        rw [scanned] at same
        cases same
        exact ColonScan.isLineOf_of_check text filename r line scanned named
    | error failure =>
      rw [ending, ended] at same
      cases failure with
      | aborted abort => cases same
      | rejected own =>
        cases same
        exact Lenient.isLineOf_of_rejected text _ own line ending named

end LocaleLint
