import Mathlib.Data.List.Forall2
import LocaleLint.Command.Run
import LocaleLint.Proofs.Json.Unambiguous

set_option autoImplicit false

namespace LocaleLint

namespace Json

def names : Json → List String
  | .object fields => fields.map (·.1)
  | _ => []

def field? (value : Json) (name : String) : Option Json :=
  match value with
  | .object fields => fields.lookup name
  | _ => none

structure TellsFailure (told : Json) (failure : FileFailure) : Prop where
  names : told.names = ["path", "kind", "message", "line", "column", "snippet"]
  path : told.field? "path" = some (.string failure.path)
  kind : told.field? "kind" = some (.string failure.kind.name)
  message : told.field? "message" = some (.string failure.message)
  line : told.field? "line" = some (ofOption .int failure.line)
  column : told.field? "column" = some (ofOption .int failure.column)
  snippet : told.field? "snippet" = some (ofOption .string failure.snippet)

structure TellsReport (told : Json) (report : Report) : Prop where
  names : told.names = ["files_checked", "failures", "messages", "failure_count"]
  filesChecked : told.field? "files_checked" = some (.int report.filesChecked)
  failures : ∃ items, told.field? "failures" = some (.list items) ∧
    List.Forall₂ TellsFailure items report.failures
  messages : told.field? "messages" =
    some (.list (report.failures.map fun failure => .string failure.message))
  failureCount : told.field? "failure_count" = some (.int report.failures.length)

theorem tellsFailure_toJson (failure : FileFailure) : failure.toJson.TellsFailure failure :=
  ⟨rfl, rfl, rfl, rfl, rfl, rfl, rfl⟩

theorem tellsReport_toJson (report : Report) : report.toJson.TellsReport report where
  names := rfl
  filesChecked := rfl
  failures := by
    refine ⟨report.failures.map (·.toJson), rfl, ?_⟩
    rw [List.forall₂_map_left_iff]
    exact List.forall₂_same.mpr fun failure _ => tellsFailure_toJson failure
  messages := by
    change some (Json.list (report.messages.map .string)) = _
    rw [Report.messages, List.map_map]
    rfl
  failureCount := rfl

theorem ofOption_injective {α : Type} (write : α → Json) (injective : Function.Injective write)
    (proper : ∀ a, write a ≠ .null) : Function.Injective (ofOption write) := by
  intro first second same
  cases first with
  | none =>
    cases second with
    | none => rfl
    | some b => exact absurd same.symm (proper b)
  | some a =>
    cases second with
    | none => exact absurd same (proper a)
    | some b => exact congrArg some (injective same)

theorem TellsFailure.unique {told : Json} {first second : FileFailure}
    (one : told.TellsFailure first) (other : told.TellsFailure second) : first = second := by
  have same {name : String} {a b : Json} (here : told.field? name = some a)
      (there : told.field? name = some b) : a = b := Option.some.inj (here.symm.trans there)
  have optionalInt : Function.Injective (ofOption Json.int) :=
    ofOption_injective _ (fun _ _ => Json.int.inj) fun _ => nofun
  have optionalText : Function.Injective (ofOption Json.string) :=
    ofOption_injective _ (fun _ _ => Json.string.inj) fun _ => nofun
  have kind : first.kind = second.kind := by
    have named := congrArg Kind.ofName? (Json.string.inj (same one.kind other.kind))
    rw [Kind.ofName?_name, Kind.ofName?_name] at named
    exact Option.some.inj named
  rw [FileFailure.eq_iff]
  exact ⟨Json.string.inj (same one.path other.path), kind,
    Json.string.inj (same one.message other.message), optionalInt (same one.line other.line),
    optionalInt (same one.column other.column), optionalText (same one.snippet other.snippet)⟩

theorem TellsReport.unique {told : Json} {first second : Report} (one : told.TellsReport first)
    (other : told.TellsReport second) : first = second := by
  have checked := Json.int.inj (Option.some.inj (one.filesChecked.symm.trans other.filesChecked))
  obtain ⟨items, listed, each⟩ := one.failures
  obtain ⟨items', listed', each'⟩ := other.failures
  rw [listed] at listed'
  cases listed'
  have unique : Relator.RightUnique TellsFailure := fun _ _ _ => TellsFailure.unique
  have failures : first.failures = second.failures := List.right_unique_forall₂' unique each each'
  cases first
  cases second
  rw [Report.mk.injEq]
  exact ⟨checked, failures⟩

end Json

namespace Report

theorem output_json (report : Report) (throwing : Bool) (style : Style) :
    (report.run true throwing style).output.toList = report.toJson.writeFrom 0 ++ ['\n'] := by
  change (report.toJson.write ++ "\n").toList = _
  rw [Json.write, String.toList_append, String.toList_ofList]
  rfl

theorem output_tells (report : Report) (throwing : Bool) (style : Style) :
    let text := (report.run true throwing style).output.toList
    ∃ told, Json.read? text = some told ∧
      (∀ value, Json.Padded Json.Denotes text value ↔ value = told) ∧ told.TellsReport report ∧
      ∀ (other : Report) (otherThrowing : Bool) (otherStyle : Style),
        (other.run true otherThrowing otherStyle).output.toList = text ↔ other = report := by
  intro text
  have denotes (report : Report) :
      Json.Padded Json.Denotes (report.toJson.writeFrom 0 ++ ['\n']) report.toJson := by
    have feed : Json.IsBlank ['\n'] := by simp [Json.IsBlank, Json.isBlank]
    exact .around [] _ ['\n'] _ Json.isBlank_nil (Json.denotes_writeFrom 0 report.toJson) feed
  have written : text = report.toJson.writeFrom 0 ++ ['\n'] := report.output_json throwing style
  have own : Json.Padded Json.Denotes text report.toJson := written ▸ denotes report
  refine ⟨report.toJson, (Json.read?_eq_some_iff text _).mpr own, ?_,
    Json.tellsReport_toJson report, ?_⟩
  next =>
    intro value
    constructor
    next => exact fun given => given.unique own
    next =>
      rintro rfl
      exact own
  next =>
    intro other otherThrowing otherStyle
    rw [other.output_json]
    constructor
    next =>
      -- The value that both reports write tells of one report only.
      intro same
      have told := (denotes other).unique (same ▸ own)
      exact (told ▸ Json.tellsReport_toJson other).unique (Json.tellsReport_toJson report)
    next =>
      rintro rfl
      exact written.symm

end Report

end LocaleLint
