import LocaleLint.Config.Project
import LocaleLint.Proofs.Strict
import LocaleLint.Proofs.ColonScan.Mark
import LocaleLint.Proofs.Batch.Alone
import LocaleLint.Proofs.Yaml.LineEnds.Value

set_option autoImplicit false

namespace LocaleLint

open LocaleLint.Text
open LocaleLint.Yaml (EndAlike)

def Failure.told (marked : Bool) : Failure → Abort ⊕ (Kind × Option Int × Option Int)
  | .rejected r => .inr (r.told marked)
  | .aborted abort => .inl abort

theorem Failure.cases_of_told {marked : Bool} {failure other : Failure}
    (told : failure.told marked = other.told marked) :
    (∃ r q, failure = .rejected r ∧ other = .rejected q ∧ r.told marked = q.told marked) ∨
      ∃ abort, failure = .aborted abort ∧ other = .aborted abort := by
  cases failure with
  | rejected r =>
    cases other with
    | rejected q => exact .inl ⟨r, q, rfl, rfl, Sum.inr.inj told⟩
    | aborted abort => cases told
  | aborted abort =>
    cases other with
    | rejected q => cases told
    | aborted again => exact .inr ⟨abort, rfl, congrArg Failure.aborted (Sum.inl.inj told).symm⟩

def Yaml.Told.failure : Yaml.Told → Abort ⊕ (Kind × Option Int × Option Int)
  | .unplaced => .inr (.malformed, none, none)
  | .placed line column => .inr (.malformed, some (line + 1), some (column + 1))
  | .broken breakdown => .inl (.unreadableValue breakdown)

theorem Lenient.told_failureOf (marked : Bool) (halt : Yaml.Halt) (source : String)
    (filename : Option String) :
    (failureOf halt source filename).told marked =
      match halt.told with
      | .inl told => told.failure
      | .inr r => .inr (r.told marked) := by
  cases halt with
  | raised r => rfl
  | stop stop => cases marked <;> cases stop <;> rfl

theorem ColonScan.check_unifyLineEnds (text : List Char) (filename : Option String) :
    check (String.ofList (unifyLineEnds text)) filename = check (String.ofList text) filename := by
  have once : unifyLineEnds (unifyLineEnds text) = unifyLineEnds text :=
    unifyLineEnds_of_not_mem _ (return_not_mem_unifyLineEnds text)
  have normal : normalize (unifyLineEnds text) = normalize text := by
    rw [normalize, normalize, once]
  simp only [check, String.toList_ofList, normal]

theorem ColonScan.told_of_check (marked : Bool) (source : String) (filename other : Option String) :
    (check source filename).map (·.told marked) = (check source other).map (·.told marked) := by
  rw [check_named source filename other, Option.map_map]
  rfl

namespace Strict

variable (marked : Bool)

theorem told_of_announced (source : String) (filename : Option String) (first : Yaml.DuplicateKey)
    (rest : List Yaml.DuplicateKey)
    (announced :
      (Lenient.parse Channel.outermost source (some anonymous)).diagnostics = first :: rest) :
    ∃ r, (parse Lenient.parser source filename).outcome = .error (.rejected r) ∧
      r.told marked = (.duplicateKey, first.line, first.column) := by
  obtain ⟨r, escalated, ended⟩ := outcome_of_announced source filename first rest announced
  obtain ⟨category, -, line, column, -⟩ := Diagnostic.of_escalated _ _ _ escalated
  refine ⟨r, ended, ?_⟩
  rw [Rejection.told, Rejection.kind, category, line, column]
  cases marked <;> rfl

theorem scanned_alike (value : Yaml.Value) (rejected other : Option Rejection) :
    rejected.map (·.told marked) = other.map (·.told marked) →
      EndAlike (Failure.told marked) Eq
        (match rejected with
          | some rejection => .error (.rejected rejection)
          | none => .ok value)
        (match other with
          | some rejection => .error (.rejected rejection)
          | none => .ok value) := by
  intro told
  cases rejected with
  | none =>
    cases other with
    | none => exact .ok rfl
    | some q => cases told
  | some r =>
    cases other with
    | none => cases told
    | some q => exact .error (congrArg Sum.inr (Option.some.inj told))

/-- The scan of a text counts only where its reading announces nothing and gives a value. -/
def ReachesScan (text : List Char) : Prop :=
  ∃ value, Yaml.read Channel.outermost text = ⟨[], .ok value⟩

theorem parse_alike (text others : List Char) (filename other : Option String)
    (alike : (Yaml.read Channel.outermost text).Alike (Yaml.read Channel.outermost others))
    (scans : ReachesScan text →
      (ColonScan.check (String.ofList text) filename).map (·.told marked) =
        (ColonScan.check (String.ofList others) other).map (·.told marked)) :
    EndAlike (Failure.told marked) Eq (parse Lenient.parser (String.ofList text) filename).outcome
      (parse Lenient.parser (String.ofList others) other).outcome := by
  obtain ⟨announcements, ends⟩ := alike
  have announcedAlike :
      (Lenient.parse Channel.outermost (String.ofList others) (some anonymous)).diagnostics =
        (Lenient.parse Channel.outermost (String.ofList text) (some anonymous)).diagnostics := by
    simp only [Lenient.parse, String.toList_ofList, announcements]
  cases announced :
    (Lenient.parse Channel.outermost (String.ofList text) (some anonymous)).diagnostics with
  | cons first rest =>
    obtain ⟨r, ended, told⟩ := told_of_announced marked _ filename first rest announced
    rw [announced] at announcedAlike
    obtain ⟨q, endedAlike, toldAlike⟩ := told_of_announced marked _ other first rest announcedAlike
    rw [ended, endedAlike]
    exact .error (congrArg Sum.inr (told.trans toldAlike.symm))
  | nil =>
    rw [announced] at announcedAlike
    rw [outcome_of_silent _ filename announced, outcome_of_silent _ other announcedAlike]
    simp only [Lenient.parse, String.toList_ofList] at announced ⊢
    unfold ReachesScan at scans
    generalize Yaml.read Channel.outermost text = x, Yaml.read Channel.outermost others = y at *
    obtain ⟨silent, ending⟩ := x
    obtain ⟨otherSilent, otherEnding⟩ := y
    obtain rfl : silent = [] := announced
    cases ends with
    | @ok value _ same =>
      rw [same]
      exact scanned_alike marked _ _ _ (scans ⟨value, rfl⟩)
    | @error halt halts alike =>
      have told : (Lenient.failureOf halt (String.ofList text) (some anonymous)).told marked =
          (Lenient.failureOf halts (String.ofList others) (some anonymous)).told marked := by
        rw [Lenient.told_failureOf, Lenient.told_failureOf, alike]
      simp only [Except.mapError]
      generalize Lenient.failureOf halt _ _ = failure,
        Lenient.failureOf halts _ _ = failures at told
      obtain ⟨r, q, rfl, rfl, sameTold⟩ | ⟨abort, rfl, rfl⟩ := Failure.cases_of_told told
      · exact .error (congrArg Sum.inr sameTold)
      · exact .error rfl

theorem parse_unifyLineEnds (text : List Char) (filename other : Option String) :
    EndAlike (Failure.told false) Eq (parse Lenient.parser (String.ofList text) filename).outcome
      (parse Lenient.parser (String.ofList (unifyLineEnds text)) other).outcome := by
  refine parse_alike false _ _ _ _ (Yaml.read_unifyLineEnds Channel.outermost text) fun _ => ?_
  rw [ColonScan.check_unifyLineEnds]
  exact ColonScan.told_of_check false _ _ _

theorem parse_marked (text : List Char) (filename other : Option String)
    (unmarked : text.head? ≠ some '\ufeff')
    (open_ : ReachesScan text → ∃ layout : ColonScan.Layout, layout.IsOf (unifyLineEnds text) ∧
      ColonScan.normalize text = ⟨layout.text, layout.taken.length⟩ ∧ layout.KeepsNothingBack) :
    EndAlike (Failure.told true) Eq (parse Lenient.parser (String.ofList text) filename).outcome
      (parse Lenient.parser (String.ofList ('\ufeff' :: unifyLineEnds text)) other).outcome := by
  have unmarkedLines : (unifyLineEnds text).head? ≠ some '\ufeff' := by
    fun_cases unifyLineEnds text with
    | case1 => exact unmarked
    | case2 rest => simp
    | case3 c rest lone =>
      by_cases isReturn : c = '\r'
      next => simp [isReturn]
      next => simpa [isReturn] using unmarked
  have once : unifyLineEnds (unifyLineEnds text) = unifyLineEnds text :=
    unifyLineEnds_of_not_mem _ (return_not_mem_unifyLineEnds text)
  have behind := Yaml.read_marked Channel.outermost (unifyLineEnds text) unmarkedLines
  rw [once] at behind
  refine parse_alike true _ _ _ _ ?_ fun reaches => ?_
  · exact (Yaml.read_unifyLineEnds Channel.outermost text).trans behind.symm
  · obtain ⟨layout, isOf, normalized, kept⟩ := open_ reaches
    exact ColonScan.told_marked text layout isOf normalized kept filename other

end Strict

def isParsed : Except ConfigFailure Config → Bool
  | .ok _ | .error (.invalid _) => true
  | .error (.rejected _) | .error (.aborted _) => false

structure AgreeOn (marked : Bool) (loaded : Except ConfigFailure Config)
    (checked : Except Abort Report) : Prop where
  passed : isParsed loaded = true ↔ ∃ report, checked = .ok report ∧ report.failures = []
  rejected : ∀ report, checked = .ok report → ∀ failure ∈ report.failures, ∃ r,
    loaded = .error (.rejected r) ∧ r.kind = failure.kind ∧ r.line = failure.line ∧
      (marked = false ∨ failure.kind ≠ .colonSpacing ∨ failure.line ≠ some 1 →
        r.column = failure.column)

theorem AgreeOn.of_told {marked : Bool} {loaded : Except ConfigFailure Config}
    {checked : Except Abort Report} {kind : Kind} {line column : Option Int}
    (agree : AgreeOn marked loaded checked) (below : line ≠ some 1)
    (told : checked.map (fun report => report.failures.map fun failure =>
      (failure.kind, failure.line, failure.column)) = .ok [(kind, line, column)]) :
    ∃ r, loaded = .error (.rejected r) ∧ r.kind = kind ∧ r.line = line ∧ r.column = column := by
  cases checked with
  | error abort => cases told
  | ok report =>
    obtain ⟨failure, failures, same⟩ := List.map_eq_singleton_iff.mp (Except.ok.inj told)
    obtain ⟨r, rejected, kind, line, column⟩ :=
      agree.rejected report rfl failure (by simp [failures])
    simp only [Prod.mk.injEq] at same
    refine ⟨r, rejected, kind.trans same.1, line.trans same.2.1, ?_⟩
    rw [column (.inr (.inr (by rw [same.2.1]; exact below))), same.2.2]

namespace Setting

theorem check_single (s : Setting) (d : Document) :
    (s.check [d]).outcome =
      (recorded (s.result d)).map fun found =>
        ⟨1, (found.map (FileFailure.ofRejection d.path)).toList⟩ := by
  rw [← inspect_recorded]
  simp only [check, checkFrom]
  cases (s.inspect d).outcome with
  | error abort => rfl
  | ok found => cases found <;> rfl

theorem result_standard (fs : FileSystem) (foreign : Encoding.Foreign (List CodePoint))
    (path : String) (octets : List UInt8) :
    (standard fs foreign).result ⟨path, .octets octets⟩ =
      (Strict.parse Lenient.parser (String.ofList (Encoding.defaultText octets))
        (some path)).outcome := by
  simp only [result, parseDecoded, decode_standard, parsePoints_map_char]
  rfl

end Setting

namespace FileSystem

theorem told_eq_iff (marked : Bool) (r q : Rejection) :
    r.told marked = q.told marked ↔ r.kind = q.kind ∧ r.line = q.line ∧
      (marked = false ∨ r.kind ≠ .colonSpacing ∨ r.line ≠ some 1 → r.column = q.column) := by
  simp only [Rejection.told, Prod.mk.injEq]
  refine and_congr_right fun kind => and_congr_right fun line => ?_
  rw [← kind, ← line]
  cases marked <;> by_cases isColon : r.kind = .colonSpacing <;> by_cases top : r.line = some 1 <;>
    simp [isColon, top]

theorem agreeOn_rejected (marked : Bool) (path : String) (r q : Rejection)
    (told : r.told marked = q.told marked) :
    AgreeOn marked (.error (.rejected q))
      ((Setting.recorded (.error (.rejected r))).map fun found =>
        ⟨1, (found.map (FileFailure.ofRejection path)).toList⟩) := by
  obtain ⟨kind, line, column⟩ := (told_eq_iff marked r q).mp told
  rw [Setting.recorded]
  cases r.refusal? with
  | some abort =>
    refine ⟨iff_of_false Bool.false_ne_true ?_, fun report checked => ?_⟩
    · rintro ⟨report, checked, -⟩
      cases checked
    · cases checked
  | none =>
    refine ⟨iff_of_false Bool.false_ne_true ?_, fun report checked failure recorded => ?_⟩
    · rintro ⟨report, checked, none⟩
      cases checked
      cases none
    · cases checked
      obtain rfl := List.mem_singleton.mp recorded
      exact ⟨q, rfl, kind.symm, line.symm, fun unmoved => (column unmoved).symm⟩

theorem agreeOn_aborted (marked : Bool) (path : String) (abort : Abort) :
    AgreeOn marked (.error (.aborted abort))
      ((Setting.recorded (.error (.aborted abort))).map fun found =>
        ⟨1, (found.map (FileFailure.ofRejection path)).toList⟩) := by
  refine ⟨iff_of_false Bool.false_ne_true ?_, fun report checked => ?_⟩
  · rintro ⟨report, checked, -⟩
    cases checked
  · cases checked

variable (order : Field.SetOrder)

theorem isParsed_ofText {text loaded : String} {value : Yaml.Value}
    (parsed : (Strict.parse Lenient.parser text (some loaded)).outcome = .ok value) :
    isParsed (Config.ofText order text loaded) = true := by
  rw [Config.ofText, parsed]
  split
  next halted => cases halted
  next halted => cases halted
  next => rfl
  next value _ _ => cases Config.ofValue order value <;> rfl

theorem agreeOn_of_alike (marked : Bool) (loaded text : String) (path : String)
    (outcome : Except Failure Yaml.Value)
    (alike : EndAlike (Failure.told marked) Eq outcome
      (Strict.parse Lenient.parser text (some loaded)).outcome) :
    AgreeOn marked (Config.ofText order text loaded)
      ((Setting.recorded outcome).map fun found =>
        ⟨1, (found.map (FileFailure.ofRejection path)).toList⟩) := by
  cases ended : (Strict.parse Lenient.parser text (some loaded)).outcome with
  | ok value =>
    rw [ended] at alike
    cases alike with
    | ok same =>
      have parsed := isParsed_ofText order ended
      refine ⟨iff_of_true parsed ⟨⟨1, []⟩, rfl, rfl⟩, fun report checked => ?_⟩
      cases checked
      exact fun failure recorded => absurd recorded List.not_mem_nil
  | error other =>
    rw [ended] at alike
    cases alike with
    | @error failure _ told =>
      rw [Config.ofText, ended]
      obtain ⟨r, q, rfl, rfl, sameTold⟩ | ⟨abort, rfl, rfl⟩ := Failure.cases_of_told told
      · exact agreeOn_rejected marked path r q sameTold
      · exact agreeOn_aborted marked path abort

theorem decodeConfig_utf8 (text : List Char) :
    decodeConfig (Encoding.utf8 text) = .ok (String.ofList (unifyLineEnds text)) := by
  rw [decodeConfig, (Encoding.Utf8.decode_eq_ok_iff (Encoding.utf8 text) text).mpr rfl]

theorem loadConfig_document (fs others : FileSystem) (foreign : Encoding.Foreign (List CodePoint))
    (root : Path) (path : String) (octets : List UInt8)
    (present : fs.holds (root.under [configName]) isAny = .ok true)
    (content : fs.read (root.under [configName]) = .ok octets) :
    ((∀ text, octets ≠ Encoding.utf8 text) →
      fs.loadConfig order root = .error (.aborted .notUtf8)) ∧
    (∀ text, octets = Encoding.utf8 text → text.head? ≠ some '\ufeff' →
      AgreeOn false (fs.loadConfig order root)
        ((Setting.standard others foreign).check [⟨path, .octets octets⟩]).outcome) ∧
    ∀ text, octets = Encoding.utf8 ('\ufeff' :: text) → text.head? ≠ some '\ufeff' →
      (Strict.ReachesScan text → ∃ layout : ColonScan.Layout, layout.IsOf (unifyLineEnds text) ∧
        ColonScan.normalize text = ⟨layout.text, layout.taken.length⟩ ∧ layout.KeepsNothingBack) →
      AgreeOn true (fs.loadConfig order root)
        ((Setting.standard others foreign).check [⟨path, .octets octets⟩]).outcome := by
  have opened : ∀ text, octets = Encoding.utf8 text → fs.loadConfig order root =
      Config.ofText order (String.ofList (unifyLineEnds text))
        (root.under [configName]).toString := by
    rintro text rfl
    simp only [loadConfig, present, content, decodeConfig_utf8]
  refine ⟨fun ill => ?_, fun text written unmarked => ?_, fun text written unmarked open_ => ?_⟩
  · have refused : decodeConfig octets = .error .notUtf8 := by
      rw [decodeConfig]
      cases decoded : Encoding.Utf8.decode octets with
      | ok text => exact absurd ((Encoding.Utf8.decode_eq_ok_iff octets text).mp decoded) (ill text)
      | error bad => rfl
    simp only [loadConfig, present, content, refused]
  · have whole : Encoding.dropMark octets = Encoding.utf8 text := by
      rw [written]
      exact Encoding.dropMark_of_unmarked _ (mt (Encoding.head?_of_mark text) unmarked)
    rw [opened text written, Setting.check_single, Setting.result_standard,
      Encoding.defaultText_of_utf8 octets text whole]
    exact agreeOn_of_alike order false _ _ _ _ (Strict.parse_unifyLineEnds text _ _)
  · have behind : Encoding.dropMark octets = Encoding.utf8 text := by
      rw [written, Encoding.utf8_mark, Encoding.dropMark_mark]
    have lines : unifyLineEnds ('\ufeff' :: text) = '\ufeff' :: unifyLineEnds text := by
      rw [unifyLineEnds]
      · rw [if_neg (by decide)]
      · intro _ same
        cases same
    rw [opened _ written, Setting.check_single, Setting.result_standard,
      Encoding.defaultText_of_utf8 octets text behind, lines]
    exact agreeOn_of_alike order true _ _ _ _ (Strict.parse_marked text _ _ unmarked open_)

def configured (octets : List UInt8) : FileSystem := ⟨.directory [(configName, .file octets)], []⟩

def here : Path := ⟨.relative, []⟩

def loadHere (octets : List UInt8) : Except ConfigFailure Config :=
  (configured octets).loadConfig .asWritten here

def checkHere (octets : List UInt8) : Except Abort Report :=
  (Setting.bare.check [⟨"a.yml", .octets octets⟩]).outcome

def twiceNamed : List Char := "lang_dir: a\r\nlang_dir: b\r\n".toList

-- A comment, and in the next line a colon without a space.
def markedBelow : List Char := "# c\nlang_dir:a\n".toList

theorem exists_layout_markedBelow : ∃ layout : ColonScan.Layout,
    layout.IsOf (unifyLineEnds markedBelow) ∧
      ColonScan.normalize markedBelow = ⟨layout.text, layout.taken.length⟩ ∧
        layout.KeepsNothingBack := by
  obtain ⟨layout, isOf, normalized⟩ := ColonScan.exists_layout markedBelow
  have shown : ColonScan.normalize markedBelow = ⟨"lang_dir:a\n".toList, 1⟩ := by decide +kernel
  rw [shown, ColonScan.Normalized.mk.injEq] at normalized
  have lines : linesOf (unifyLineEnds markedBelow) = ["# c".toList, "lang_dir:a".toList, []] := by
    decide +kernel
  obtain ⟨line, taken⟩ := List.length_eq_one_iff.mp normalized.2.symm
  have first : line = "# c".toList := by
    have split := isOf.lines
    rw [lines, taken] at split
    exact (List.cons.inj split).1.symm
  refine ⟨layout, isOf, by rw [shown, normalized.1, normalized.2], ?_, ?_, ?_⟩
  · rw [taken, first]
    exact fun other member bad => absurd (ColonScan.colon_mem_of_isBad other bad)
      (by rw [List.mem_singleton.mp member]; decide)
  · intro _ key _ last
    rw [← normalized.1] at last
    have none : (linesOf "lang_dir:a\n".toList).getLast? = some [] := by decide +kernel
    rw [none] at last
    simp at last
  · intro blanks c after _ begins
    rw [← isOf.split, lines, List.head?_cons, Option.some.injEq] at begins
    have colon : ':' ∈ "# c".toList := by simp [begins]
    exact absurd colon (by decide)

theorem loadConfig_twiceNamed :
    (∃ r, loadHere (Encoding.utf8 twiceNamed) = .error (.rejected r) ∧
      r.kind = .duplicateKey ∧ r.line = some 2 ∧ r.column = some 1) ∧
    ∃ r, loadHere (Encoding.utf8 ('\ufeff' :: markedBelow)) = .error (.rejected r) ∧
      r.kind = .colonSpacing ∧ r.line = some 2 ∧ r.column = some 10 := by
  have present : ∀ octets, (configured octets).holds (here.under [configName]) isAny = .ok true :=
    fun octets => rfl
  have content : ∀ octets, (configured octets).read (here.under [configName]) = .ok octets :=
    fun octets => rfl
  have unmarked : twiceNamed.head? ≠ some '\ufeff' ∧ markedBelow.head? ≠ some '\ufeff' := by
    decide +kernel
  have told : (checkHere (Encoding.utf8 twiceNamed)).map (fun report =>
        report.failures.map fun failure => (failure.kind, failure.line, failure.column)) =
          .ok [(.duplicateKey, some 2, some 1)] ∧
      (checkHere (Encoding.utf8 ('\ufeff' :: markedBelow))).map (fun report =>
        report.failures.map fun failure => (failure.kind, failure.line, failure.column)) =
          .ok [(.colonSpacing, some 2, some 10)] := by
    decide +kernel
  have agree : AgreeOn false (loadHere (Encoding.utf8 twiceNamed))
      (checkHere (Encoding.utf8 twiceNamed)) :=
    (loadConfig_document .asWritten _ _ _ here "a.yml" _ (present _) (content _)).2.1
      twiceNamed rfl unmarked.1
  have agreeMarked : AgreeOn true (loadHere (Encoding.utf8 ('\ufeff' :: markedBelow)))
      (checkHere (Encoding.utf8 ('\ufeff' :: markedBelow))) :=
    (loadConfig_document .asWritten _ _ _ here "a.yml" _ (present _) (content _)).2.2
      markedBelow rfl unmarked.2 fun _ => exists_layout_markedBelow
  exact ⟨agree.of_told (by decide) told.1, agreeMarked.of_told (by decide) told.2⟩

-- A comment in Latin-1.
def foreignComment : List UInt8 := [0x23, 0x20, 0x63, 0x61, 0x66, 0xe9, 0x0a]

def markedText (text : String) : List UInt8 := Encoding.utf8 ('\ufeff' :: text.toList)

def rejectedAt? : Except ConfigFailure Config → Option (Option Int × Option Int)
  | .error (.rejected r) => some (r.line, r.column)
  | _ => none

theorem exists_of_rejectedAt {loaded : Except ConfigFailure Config} {line column : Option Int}
    (found : rejectedAt? loaded = some (line, column)) :
    ∃ r, loaded = .error (.rejected r) ∧ r.line = line ∧ r.column = column := by
  unfold rejectedAt? at found
  split at found
  next r =>
    cases found
    exact ⟨r, rfl, rfl, rfl⟩
  next => cases found

/-- What a mark in front changes: a comment, a line that begins with a colon, a line with the
document end, a second mark, and the column in the first line. -/
theorem loadConfig_stricter :
    (∀ octets ∈ [foreignComment, markedText "#a:b\n", markedText ":a\n", markedText "---\na:...\n"],
      isParsed (loadHere octets) = false ∧ checkHere octets = .ok ⟨1, []⟩) ∧
    (isParsed (loadHere (markedText "\ufeffa: 1\na: 2\n")) = true ∧
      (checkHere (markedText "\ufeffa: 1\na: 2\n")).map (·.failures.map (·.kind)) =
        .ok [.duplicateKey]) ∧
    (∃ r, loadHere (markedText "k:v\n") = .error (.rejected r) ∧ r.line = some 1 ∧
      r.column = some 4) ∧
      (checkHere (markedText "k:v\n")).map (·.failures.map fun f => (f.line, f.column)) =
        .ok [(some 1, some 3)] := by
  refine ⟨by decide +kernel, by decide +kernel, ?_, by decide +kernel⟩
  exact exists_of_rejectedAt (by decide +kernel)

end FileSystem

end LocaleLint
