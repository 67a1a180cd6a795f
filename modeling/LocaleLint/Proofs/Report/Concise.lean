import LocaleLint.Report.Style
import LocaleLint.Proofs.Batch.Alone
import LocaleLint.Proofs.ColonScan.Place
import LocaleLint.Proofs.Text.Unbroken
import LocaleLint.Proofs.Text.Breaks

set_option autoImplicit false

namespace LocaleLint

open LocaleLint.Text

namespace Yaml

theorem unacceptableText_broken (code index : Nat) :
    ¬ IsUnbroken (unacceptableText code index) := by
  obtain ⟨front, back, written⟩ : ∃ front back, unacceptableText code index =
      front ++ ": special characters are not allowed\n  in \"" ++ sourceName ++ "\", position " ++
        back := ⟨_, _, rfl⟩
  rw [written]
  simp only [isUnbroken_append]
  rintro ⟨⟨⟨⟨-, broken⟩, -⟩, -⟩, -⟩
  exact absurd broken (by decide +kernel)

theorem Position.mark_broken (source : List Char) (p : Position) :
    ¬ IsUnbroken (p.mark source).text := by
  simp only [Position.mark, Mark.text, isUnbroken_append]
  rintro ⟨-, broken, -⟩
  exact absurd broken (by decide +kernel)

theorem Fault.marked_broken (source : List Char) (fault : Fault) :
    ¬ IsUnbroken (fault.marked source).text := by
  intro whole
  exact fault.place.mark_broken source
    (isUnbroken_of_mem _ _ whole _ (by simp [Fault.marked]))

theorem Problem.message_broken (p : Problem) (broken : ¬ IsUnbroken p.text) :
    ¬ IsUnbroken p.message := by
  rw [message, if_neg]
  · exact broken
  · intro empty
    exact broken (by rw [empty]; decide)

end Yaml

namespace Rejection

/-- Whatever is near the place of a rejection stands in one line. -/
def IsNearLine (r : Rejection) : Prop :=
  ∀ snippet, r.snippet = some snippet → IsUnbroken snippet

theorem isUnbroken_place (r : Rejection) (filename : String) (plain : IsUnbroken filename)
    (near : r.IsNearLine) : IsUnbroken (r.named (some filename)).place := by
  simp only [place, placeOf, named, isUnbroken_append]
  refine ⟨⟨?_, ?_⟩, ?_⟩
  · split
    · decide
    · simpa [plain] using by decide
  · cases r.line with
    | none => decide
    | some line => simpa using by decide
  · cases found : r.snippet with
    | none => decide
    | some snippet =>
      simp only
      split
      · decide
      · simpa [near snippet found] using by decide

theorem isUnbroken_description (r : Rejection) (plain : IsUnbroken r.place) :
    IsUnbroken r.description ↔ IsUnbroken r.message := by
  have parts : '\n' ∉ (splitPeriod r.message.toList).1 ++ (splitPeriod r.message.toList).2 ↔
      IsUnbroken r.message := by
    rw [splitPeriod_append]
    rfl
  simpa only [description, describeWith, isUnbroken_append, isUnbroken_ofList, plain, and_true,
    List.mem_append, not_or] using parts

theorem isNearLine_ofProblem (problem : Yaml.Problem) (source : String) (filename : Option String) :
    (ofProblem problem source filename).IsNearLine := by
  intro snippet near
  obtain ⟨line, found, rfl⟩ := Option.map_eq_some_iff.mp near
  obtain ⟨number, -, at_⟩ := Option.bind_eq_some_iff.mp found
  rw [isUnbroken_ofList]
  intro feed
  unfold lineAt at at_
  split at at_
  · rw [segments_eq] at at_
    have inside := mem_linesBy _ line (List.mem_of_getElem? at_) '\n' feed
    exact absurd inside (by decide)
  · cases at_

end Rejection

/-- Kinds of failures that are told in one line. The message of an undecodable file lists the
encodings. -/
def Kind.KeepsToLine (encodings : List String) (kind : Kind) : Prop :=
  kind ≠ .malformed ∧ (kind = .undecodable → ∀ name ∈ encodings, IsUnbroken name)

theorem Kind.keepsToLine (encodings : List String) (kind : Kind) (told : kind ≠ .malformed)
    (decoded : kind ≠ .undecodable) : kind.KeepsToLine encodings :=
  ⟨told, fun same => absurd same decoded⟩

/-- A rejection as it is told: near one line, and with a message of one line if its kind has one. -/
structure Rejection.IsTold (encodings : List String) (r : Rejection) : Prop where
  near : r.IsNearLine
  single : IsUnbroken r.message ↔ r.kind.KeepsToLine encodings

section
variable (encodings : List String)

theorem isTold_unreadable (failure : AccessFailure) : (unreadable failure).IsTold encodings := by
  constructor
  case near =>
    intro snippet near
    cases near
  case single =>
    have plain : IsUnbroken (unreadable failure).message := by
      cases failure <;> decide +kernel
    exact iff_of_true plain (Kind.keepsToLine encodings .unreadable (by decide) (by decide))

theorem isTold_undecodable : (Encoding.undecodable encodings).IsTold encodings := by
  constructor
  case near =>
    intro snippet near
    cases near
  case single =>
    have literal : IsUnbroken "Unable to decode file using any of: " := by decide +kernel
    simp only [Encoding.undecodable, isUnbroken_append,
      isUnbroken_intercalate ", " (by decide), literal, true_and]
    simp [Kind.KeepsToLine, Rejection.kind, Category.kind]

theorem Rejection.isTold_ofProblem (problem : Yaml.Problem) (source : String)
    (filename : Option String) (broken : ¬ IsUnbroken problem.text) :
    (ofProblem problem source filename).IsTold encodings := by
  constructor
  case near => exact isNearLine_ofProblem problem source filename
  case single =>
    have message : ¬ IsUnbroken (ofProblem problem source filename).message :=
      problem.message_broken broken
    exact iff_of_false message fun kept => kept.1 rfl

theorem Lenient.isTold_of_rejected (source : String) (filename : Option String) (r : Rejection)
    (ended : (parse Channel.outermost source filename).outcome = .error (.rejected r)) :
    r.IsTold encodings := by
  obtain ⟨problem, has, rfl⟩ := problem_of_rejected source filename r ended
  refine Rejection.isTold_ofProblem encodings problem source filename ?_
  cases has with
  | unacceptable c index => exact Yaml.unacceptableText_broken c.toNat index
  | fault fault => exact fault.marked_broken source.toList

theorem ColonScan.isTold_of_check (source : String) (filename : Option String) (r : Rejection)
    (found : check source filename = some r) : r.IsTold encodings := by
  obtain ⟨i, line, first⟩ := exists_first_of_check source filename r found
  have placed := firstBadLine_of_first _ 0 i line first
  obtain ⟨before, after, lines, -⟩ := first
  have member : line ∈ linesOf (normalize source.toList).text := by simp [lines]
  rw [check, placed] at found
  cases found
  constructor
  case near =>
    intro snippet near
    cases near
    rw [isUnbroken_ofList]
    exact fun feed => (mem_linesOf _ line member '\n' feed).2 rfl
  case single =>
    have plain : IsUnbroken message := by decide +kernel
    exact iff_of_true plain (Kind.keepsToLine encodings .colonSpacing (by decide) (by decide))

theorem Diagnostic.isTold_of_escalated (found : Yaml.DuplicateKey) (filename : Option String)
    (r : Rejection) (escalated : (Diagnostic.duplicateKey found).escalated? filename = some r) :
    r.IsTold encodings := by
  obtain ⟨part, matched, recognised⟩ := recognised_textFor found found.key.text
  obtain ⟨category, message, -, -, -, snippet⟩ := of_escalated _ _ _ escalated
  have whole : part = r.message := Option.some.inj (matched.symm.trans message)
  constructor
  case near =>
    intro near isNear
    rw [snippet] at isNear
    cases isNear
  case single =>
    have plain : IsUnbroken r.message := by
      rw [← whole]
      exact fun feed => absurd (recognised.unbroken '\n' feed) (by decide)
    have kind : r.kind = .duplicateKey := by
      rw [Rejection.kind, category]
      rfl
    rw [kind]
    exact iff_of_true plain (Kind.keepsToLine encodings .duplicateKey (by decide) (by decide))

theorem Strict.isTold_of_rejected (source : String) (filename : Option String) (r : Rejection)
    (ended : (parse Lenient.parser source filename).outcome = .error (.rejected r)) :
    r.IsTold encodings := by
  cases announced : (Lenient.parse Channel.outermost source (some anonymous)).diagnostics with
  | cons first rest =>
    obtain ⟨raised, escalated, rejected⟩ :=
      outcome_of_announced source filename first rest announced
    rw [rejected] at ended
    cases ended
    exact Diagnostic.isTold_of_escalated encodings first filename r escalated
  | nil =>
    rw [outcome_of_silent source filename announced] at ended
    cases ending : (Lenient.parse Channel.outermost source (some anonymous)).outcome with
    | ok value =>
      rw [ending] at ended
      cases scanned : ColonScan.check source filename with
      | none =>
        simp only [scanned] at ended
        cases ended
      | some rejection =>
        simp only [scanned] at ended
        cases ended
        exact ColonScan.isTold_of_check encodings source filename r scanned
    | error failure =>
      rw [ending] at ended
      cases failure with
      | rejected rejection =>
        cases ended
        have told := Lenient.isTold_of_rejected encodings source _ rejection ending
        exact ⟨told.near, told.single⟩
      | aborted abort => cases ended

end

namespace Setting

theorem isTold (s : Setting) (lenient : s.parser = Lenient.parser)
    (halves : s.parseHalved = Strict.parseHalved) (d : Document) (r : Rejection)
    (rejected : s.rejection? d = some r) : r.IsTold s.encodings := by
  have parsed : ∀ text, (s.parse d.path text).outcome = .error (.rejected r) →
      r.IsTold s.encodings := by
    intro text ended
    rw [parse, lenient] at ended
    exact Strict.isTold_of_rejected s.encodings text (some d.path) r ended
  have decoded : ∀ octets, s.parseDecoded d.path octets = .error (.rejected r) →
      r.IsTold s.encodings := by
    intro octets ended
    unfold parseDecoded at ended
    split at ended
    · next points decoding =>
      unfold parsePoints at ended
      split at ended
      · exact parsed _ ended
      · rw [halves] at ended
        cases ended
        exact Rejection.isTold_ofProblem s.encodings _ "" _ (Yaml.unacceptableText_broken _ _)
    · next other decoding =>
      cases ended
      rw [((Encoding.decodeBy_eq_rejected_iff _ _ _ _).mp decoding).1]
      exact isTold_undecodable s.encodings
    · cases ended
  have ended : s.result d = .error (.rejected r) := by
    unfold rejection? at rejected
    split at rejected
    · next other ended =>
      cases rejected
      exact ended
    · cases rejected
  unfold result at ended
  split at ended
  · exact parsed _ ended
  · exact decoded _ ended
  · split at ended
    · exact decoded _ ended
    · cases ended
    · cases ended
      exact isTold_unreadable s.encodings _

end Setting

namespace FileFailure

def place (failure : FileFailure) : String :=
  failure.path ++ ":" ++ toString (failure.line.getD 0) ++ ":" ++
    toString (failure.column.getD 0) ++
    " -- "

theorem concise_eq (failure : FileFailure) :
    failure.concise = failure.place ++ failure.message := by
  rfl

theorem isUnbroken_place (failure : FileFailure) (plain : IsUnbroken failure.path) :
    IsUnbroken failure.place := by
  simpa [place, plain] using by decide

theorem lines_concise (failure : FileFailure) (plain : IsUnbroken failure.path) :
    ∃ first more, linesOf failure.concise.toList = first :: more ∧
      failure.place.toList <+: first ∧ (more = [] ↔ IsUnbroken failure.message) := by
  obtain ⟨first, more, lines⟩ := exists_linesOf failure.concise.toList
  have placed := failure.isUnbroken_place plain
  refine ⟨first, more, lines, ?_, ?_⟩
  · have starts := head_linesOf failure.concise.toList
    rw [lines, List.head?_cons, Option.some.injEq] at starts
    rw [starts, concise_eq, String.toList_append, List.takeWhile_append_of_pos]
    · exact List.prefix_append _ _
    · intro c member
      simpa using fun feed : c = '\n' => placed (feed ▸ member)
  · rw [linesOf_eq_singleton_iff _ first more lines, concise_eq, isUnbroken_append]
    exact and_iff_right placed

theorem isUnbroken_message_ofRejection (encodings : List String) (path : String) (r : Rejection)
    (plain : IsUnbroken path) (told : r.IsTold encodings) :
    IsUnbroken (ofRejection path r).message ↔
      (ofRejection path r).kind.KeepsToLine encodings := by
  have described := (r.named (some path)).isUnbroken_description
    (r.isUnbroken_place path plain told.near)
  exact described.trans told.single

end FileFailure

theorem length_le_flatMap {α β : Type} (f : α → List β) (items : List α)
    (some : ∀ a ∈ items, f a ≠ []) : items.length ≤ (items.flatMap f).length := by
  induction items with
  | nil => exact Nat.zero_le _
  | cons a rest ih =>
    have here := List.length_pos_iff.mpr (some a (List.mem_cons_self ..))
    have later := ih fun b member => some b (List.mem_cons_of_mem _ member)
    rw [List.flatMap_cons, List.length_append, List.length_cons]
    omega

theorem length_flatMap_eq_iff {α β : Type} (f : α → List β) (items : List α)
    (some : ∀ a ∈ items, f a ≠ []) :
    (items.flatMap f).length = items.length ↔ ∀ a ∈ items, (f a).length = 1 := by
  induction items with
  | nil => simp
  | cons a rest ih =>
    have here := List.length_pos_iff.mpr (some a (List.mem_cons_self ..))
    have rest_some : ∀ b ∈ rest, f b ≠ [] := fun b member => some b (List.mem_cons_of_mem _ member)
    have later := length_le_flatMap f rest rest_some
    have same := ih rest_some
    rw [List.flatMap_cons, List.length_append, List.length_cons, List.forall_mem_cons, ← same]
    omega

namespace Setting

theorem failure_of_check (s : Setting) (documents : List Document) (report : Report)
    (checked : (s.check documents).outcome = .ok report) (f : FileFailure)
    (member : f ∈ report.failures) :
    ∃ d ∈ documents, ∃ r, s.rejection? d = some r ∧ f = .ofRejection d.path r := by
  have calm := s.calm_of_check documents report checked
  have recordable := s.recordable_of_check documents report checked
  rw [s.check_recordable documents calm recordable] at checked
  cases checked
  obtain ⟨d, inside, rejected⟩ := List.mem_filterMap.mp member
  obtain ⟨r, found, rfl⟩ := Option.map_eq_some_iff.mp rejected
  exact ⟨d, inside, r, found, rfl⟩

theorem render_concise (s : Setting) (lenient : s.parser = Lenient.parser)
    (halves : s.parseHalved = Strict.parseHalved)
    (documents : List Document) (paths : ∀ d ∈ documents, IsUnbroken d.path) (report : Report)
    (checked : (s.check documents).outcome = .ok report) :
    (∀ f ∈ report.failures, ∃ first more, linesOf f.concise.toList = first :: more ∧
      (f.path ++ ":" ++ toString (f.line.getD 0) ++ ":" ++ toString (f.column.getD 0) ++
        " -- ").toList <+: first ∧
      (more = [] ↔ f.kind.KeepsToLine s.encodings)) ∧
    (report.failures ≠ [] →
      let lines := linesOf (Style.concise.render report.failures).toList
      lines = report.failures.flatMap (fun f => linesOf f.concise.toList) ∧
      (lines.length = report.failureCount ↔
        ∀ f ∈ report.failures, f.kind.KeepsToLine s.encodings) ∧
      ((∀ f ∈ report.failures, f.kind.KeepsToLine s.encodings) →
        lines = report.failures.map (·.concise.toList))) := by
  have each : ∀ f ∈ report.failures, ∃ first more, linesOf f.concise.toList = first :: more ∧
      f.place.toList <+: first ∧ (more = [] ↔ f.kind.KeepsToLine s.encodings) := by
    intro f member
    obtain ⟨d, inside, r, rejected, rfl⟩ := s.failure_of_check documents report checked f member
    have plain := paths d inside
    have told := s.isTold lenient halves d r rejected
    obtain ⟨first, more, lines, starts, alone⟩ :=
      (FileFailure.ofRejection d.path r).lines_concise plain
    exact ⟨first, more, lines, starts, alone.trans
      (FileFailure.isUnbroken_message_ofRejection s.encodings d.path r plain told)⟩
  refine ⟨each, fun failing => ?_⟩
  have joined : linesOf (Style.concise.render report.failures).toList =
      report.failures.flatMap fun f => linesOf f.concise.toList := by
    rw [Style.render, Style.separator, linesOf_intercalate _ (by simpa using failing),
      List.flatMap_map]
    rfl
  have single : ∀ f ∈ report.failures,
      ((linesOf f.concise.toList).length = 1 ↔ f.kind.KeepsToLine s.encodings) := by
    intro f member
    obtain ⟨first, more, lines, -, alone⟩ := each f member
    rw [lines, ← alone]
    simp
  refine ⟨joined, ?_, fun kept => ?_⟩
  · rw [joined, Report.failureCount,
      length_flatMap_eq_iff _ _ fun f _ => splitOn_ne_nil '\n' f.concise.toList]
    exact forall₂_congr single
  · rw [joined, ← List.flatMap_singleton' (report.failures.map _), List.flatMap_map]
    refine List.flatMap_congr fun f member => ?_
    obtain ⟨first, more, lines, -, alone⟩ := each f member
    have whole :=
      (linesOf_eq_singleton_iff f.concise first more lines).mp (alone.mpr (kept f member))
    exact linesOf_line _ whole

def unclosed : List Document :=
  [⟨"first.yml", .text "a: [1\n"⟩, ⟨"second.yml", .text "a: 1\na: 2\n"⟩]

theorem render_unclosed :
    (∀ d ∈ unclosed, IsUnbroken d.path) ∧
      ∃ report, (bare.check unclosed).outcome = .ok report ∧
        report.failures.map (·.kind) = [.malformed, .duplicateKey] ∧
        (linesOf (Style.concise.render report.failures).toList).length ≠ report.failureCount := by
  have paths : ∀ d ∈ unclosed, IsUnbroken d.path := by decide +kernel
  have ended : (∀ d ∈ unclosed, bare.isCalm d = true ∧
      bare.isRecordable d = true) ∧
        (unclosed.filterMap fun d => (bare.rejection? d).map
          (FileFailure.ofRejection d.path)).map (·.kind) = [.malformed, .duplicateKey] := by
    decide +kernel
  have whole := check_recordable _ unclosed (fun d member => (ended.1 d member).1)
    fun d member => (ended.1 d member).2
  generalize (unclosed.filterMap fun d => (bare.rejection? d).map
    (FileFailure.ofRejection d.path)) = failures at ended whole
  refine ⟨paths, _, whole, ended.2, fun same => ?_⟩
  obtain ⟨f, member, malformed⟩ : ∃ f ∈ failures, f.kind = .malformed := by
    rw [← List.mem_map, ended.2]
    exact List.mem_cons_self ..
  have kept := ((render_concise _ rfl rfl unclosed paths _ whole).2
    (List.ne_nil_of_mem member)).2.1.mp same f member
  exact kept.1 malformed

end Setting

end LocaleLint
