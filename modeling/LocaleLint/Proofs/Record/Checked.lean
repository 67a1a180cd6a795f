import LocaleLint.Record.Field
import LocaleLint.Record.Key

set_option autoImplicit false

namespace LocaleLint

open LocaleLint.Yaml

open LocaleLint.Text (CodePoint)

theorem Checked.eq_ok_of_inside {α : Type} (step : String) (checked : Checked α) (value : α)
    (inner : Checked.inside step checked = .ok value) : checked = .ok value := by
  cases checked <;> cases inner
  rfl

theorem Checked.of_map_eq_ok {α β : Type} (f : α → β) (checked : Checked α) (value : β)
    (mapped : checked.map f = .ok value) : ∃ inner, checked = .ok inner ∧ f inner = value := by
  cases checked with
  | error issues => cases mapped
  | ok inner =>
    cases mapped
    exact ⟨inner, rfl, rfl⟩

theorem Checked.items_map {α β : Type} (check : β → Checked α) (write : α → β) (index : Nat)
    (items : List α) (reads : ∀ item ∈ items, check (write item) = .ok item) :
    Checked.items check index (items.map write) = .ok items := by
  induction items generalizing index with
  | nil => rfl
  | cons item rest ih =>
    have here := reads item (List.mem_cons_self ..)
    have later := ih (index + 1) fun other member => reads other (List.mem_cons_of_mem _ member)
    rw [List.map_cons, Checked.items, here, later]
    rfl

theorem Key.unknown_eq_nil_iff (fields : List String) (entries : List (Scalar × Value)) :
    Key.unknown fields entries = [] ↔
      ∀ entry ∈ entries, ∃ name ∈ fields, entry.1 = .string name := by
  rw [Key.unknown, List.filterMap_eq_nil_iff]
  refine forall₂_congr fun entry member => ?_
  obtain ⟨key, value⟩ := entry
  cases key <;> simp

namespace Field

@[simp] theorem text_string (given : String) : text (.scalar (.string given)) = .ok given := by
  simp [text, points, CodePoint.ofString, CodePoint.whole?_map_char]

theorem points_ofPoints (name : List CodePoint) : points (.scalar (.ofPoints name)) = .ok name := by
  cases whole : CodePoint.whole? name with
  | none => simp [Scalar.ofPoints, whole, points]
  | some text =>
    have spelled := (CodePoint.whole?_eq_some_iff name text).mp whole
    simp [spelled, Scalar.ofPoints_map_char, points, CodePoint.ofString]

def textList (names : List (List CodePoint)) : Value :=
  .list (names.map fun name => .scalar (.ofPoints name))

theorem texts_textList (order : SetOrder) (names : List (List CodePoint)) :
    texts order (textList names) = .ok names := by
  refine Checked.items_map _ _ 0 names fun name _ => ?_
  rw [points_ofPoints]
  rfl

section WithDefault
variable {α : Type} (entries : List (Scalar × Value)) (name : String) (standard : α)
  (read : Value → Checked α)

theorem of_withDefault (P : α → Prop) (usual : P standard)
    (kept : ∀ value a, read value = .ok a → P a) (a : α)
    (given : withDefault entries name standard read = .ok a) : P a := by
  unfold withDefault at given
  split at given
  next value found => exact kept value a (Checked.eq_ok_of_inside _ _ _ given)
  next =>
    cases given
    exact usual

theorem find?_of_mem (value : Value) (distinct : (entries.map (·.1)).Nodup)
    (member : (.string name, value) ∈ entries) : find? entries name = some value := by
  induction entries with
  | nil => cases member
  | cons entry rest ih =>
    rw [List.map_cons, List.nodup_cons] at distinct
    rcases List.mem_cons.mp member with rfl | member
    next => simp [find?]
    next =>
      -- The key comes later, so by distinctness the first entry has another one.
      have other : entry.1 ≠ .string name := by
        intro same
        exact distinct.1 (same ▸ List.mem_map_of_mem member)
      have later := ih distinct.2 member
      simpa [find?, other] using later

theorem withDefault_of_mem (value : Value) (a : α) (distinct : (entries.map (·.1)).Nodup)
    (member : (.string name, value) ∈ entries) (reads : read value = .ok a) :
    withDefault entries name standard read = .ok a := by
  rw [withDefault, find?_of_mem entries name value distinct member]
  change Checked.inside name (read value) = _
  rw [reads]
  rfl

end WithDefault

end Field

end LocaleLint
