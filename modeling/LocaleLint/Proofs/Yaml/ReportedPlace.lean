import LocaleLint.Proofs.Yaml.Announcement
import LocaleLint.Proofs.Yaml.Occurrence
import LocaleLint.Proofs.Yaml.Order.Events

set_option autoImplicit false

namespace LocaleLint.Yaml

def eventsIn (source : List Char) : List Event := (eventsOf (tokensOf source)).items

def keysWritten (source : List Char) (id : NodeId) : List Nat :=
  Composition.keyEvents id 0 (eventsIn source) .empty

def DuplicateKey.IsAt (found : DuplicateKey) (place : Position) : Prop :=
  found.line = some (place.line + 1) ∧ found.column = some (place.column + 1)

/-- The event that a number stands for is where a repeated key is reported, or an alias of what
began there. -/
def DuplicateKey.PointsTo (found : DuplicateKey) (events : List Event) (number : Nat) : Prop :=
  ∃ event, events[number]? = some event ∧
    match event.occurrence with
    | .alias name => ∃ earlier < number, ∃ anchored, events[earlier]? = some anchored ∧
        anchored.anchor? = some name ∧ found.IsAt anchored.start
    | _ => found.IsAt event.start

/-- The event of a number comes behind that of another and starts no earlier in the source. -/
def Follows (events : List Event) (early late : Nat) : Prop :=
  early < late ∧ ∃ before behind, events[early]? = some before ∧ events[late]? = some behind ∧
    before.start.index ≤ behind.start.index

theorem eventsIn_ascend (source : List Char) :
    (eventsIn source).Pairwise fun earlier later => earlier.start.index ≤ later.start.index :=
  (eventsOf_ascends source).1.ascend

theorem eventsIn_follows (source : List Char) (early late : Nat) (before behind : Event)
    (later : early < late) (there : (eventsIn source)[early]? = some before)
    (here : (eventsIn source)[late]? = some behind) : Follows (eventsIn source) early late := by
  refine ⟨later, before, behind, there, here, ?_⟩
  obtain ⟨earlyInside, rfl⟩ := List.getElem?_eq_some_iff.mp there
  obtain ⟨lateInside, rfl⟩ := List.getElem?_eq_some_iff.mp here
  exact List.pairwise_iff_getElem.mp (eventsIn_ascend source) early late earlyInside
    lateInside later

theorem Writes.event {events : List Event} {nodes : Array Node} {number : Nat} {id : NodeId}
    (writes : Writes events nodes number id) : ∃ event, events[number]? = some event := by
  cases writes with
  | inPlace event here own start => exact ⟨event, here⟩
  | shared event anchored name earlier here occurrence before there anchor start =>
    exact ⟨event, here⟩

theorem Writes.pointsTo (events : List Event) (nodes : Array Node) (number : Nat) (id : NodeId)
    (found : DuplicateKey) (writes : Writes events nodes number id)
    (place : found.IsAt (nodes.getD id default).start) : found.PointsTo events number := by
  cases writes with
  | inPlace event here own start =>
    rw [start] at place
    refine ⟨event, here, ?_⟩
    split
    · next name occurrence => exact absurd occurrence (own name)
    · exact place
  | shared event anchored name earlier here occurrence before there anchor start =>
    rw [start] at place
    refine ⟨event, here, ?_⟩
    rw [occurrence]
    exact ⟨earlier, before, anchored, there, anchor, place⟩

theorem keysWritten_writes (source : List Char) (g : Graph)
    (composed : graphOfSource source = .ok (some g)) :
    g.IsClosed ∧ ∀ id, ∃ numbers, numbers <+: keysWritten source id ∧
      List.Forall₂ (Writes (eventsIn source) g.nodes) numbers ((g.node id).pairs.map Prod.fst) := by
  rw [graphOfSource] at composed
  split at composed
  · contradiction
  · exact Composition.run_writes (eventsIn source) _ 0 _ .empty (fun _ => []) g
      (Composition.traced_empty _) rfl composed

theorem exists_graph (channel : Channel) (source : List Char) (found : DuplicateKey)
    (told : found ∈ (read channel source).duplicates) :
    ∃ g, graphOfSource source = .ok (some g) ∧ found ∈ (g.read channel).duplicates := by
  rw [read] at told
  split at told
  · contradiction
  · contradiction
  · next g composed => exact ⟨g, composed, told⟩

theorem read_reportedPlace (channel : Channel) (source : List Char) (found : DuplicateKey)
    (told : found ∈ (read channel source).duplicates) :
    ∃ g id pairs first again, graphOfSource source = .ok (some g) ∧
      Repetition g (g.builtBy channel) id found pairs first again ∧
        (g.IsMergeFreeAt id → ∃ early late, (keysWritten source id)[first]? = some early ∧
          (keysWritten source id)[again]? = some late ∧ Follows (eventsIn source) early late ∧
            found.PointsTo (eventsIn source) late) := by
  obtain ⟨g, composed, told⟩ := exists_graph channel source found told
  obtain ⟨closed, writes⟩ := keysWritten_writes source g composed
  obtain ⟨id, pairs, first, again, repetition⟩ := g.read_reports channel closed found told
  refine ⟨g, id, pairs, first, again, composed, repetition, fun free => ?_⟩
  obtain ⟨numbers, ⟨others, whole⟩, wrote⟩ := writes id
  have own := repetition.written free
  have event (index : Nat) (pair : NodeId × NodeId) (here : pairs[index]? = some pair) :
      ∃ number, (keysWritten source id)[index]? = some number ∧
        Writes (eventsIn source) g.nodes number pair.1 := by
    rw [own] at here
    have key : ((g.node id).pairs.map Prod.fst)[index]? = some pair.1 := by
      rw [List.getElem?_map, here]
      rfl
    obtain ⟨inside, same⟩ := List.getElem?_eq_some_iff.mp key
    have within : index < numbers.length := by
      rw [wrote.length_eq]
      exact inside
    refine ⟨numbers[index], ?_, ?_⟩
    · rw [← whole, List.getElem?_append_left within, List.getElem?_eq_getElem within]
    · rw [← same]
      exact wrote.get within inside
  obtain ⟨firstPair, name, here, -, -⟩ := repetition.equal
  obtain ⟨againPair, there, -, place⟩ := repetition.place
  obtain ⟨early, earlyKey, writesEarly⟩ := event first firstPair here
  obtain ⟨late, lateKey, writesLate⟩ := event again againPair there
  have ascend := (Composition.keyEvents_ascend id (eventsIn source) 0 .empty).1
  refine ⟨early, late, earlyKey, lateKey, ?_, writesLate.pointsTo _ _ _ _ found place⟩
  obtain ⟨before, there⟩ := writesEarly.event
  obtain ⟨behind, here⟩ := writesLate.event
  refine eventsIn_follows source early late before behind ?_ there here
  obtain ⟨firstInside, rfl⟩ := List.getElem?_eq_some_iff.mp earlyKey
  obtain ⟨againInside, rfl⟩ := List.getElem?_eq_some_iff.mp lateKey
  exact List.pairwise_iff_getElem.mp ascend first again firstInside againInside repetition.later

def sharedKey : List Char := "{&a x: 1, *a : 2}\n".toList

def sharedKeyFound : DuplicateKey where
  key := .string "x"
  path := "x"
  line := some 1
  column := some 2

theorem sharedKey_reportedPlace :
    (read .outermost sharedKey).duplicates = [sharedKeyFound] ∧
      ∃ g id pairs first again, graphOfSource sharedKey = .ok (some g) ∧
        Repetition g (g.builtBy .outermost) id sharedKeyFound pairs first again ∧
          (g.IsMergeFreeAt id → ∃ early late, (keysWritten sharedKey id)[first]? = some early ∧
            (keysWritten sharedKey id)[again]? = some late ∧
              Follows (eventsIn sharedKey) early late ∧
              sharedKeyFound.PointsTo (eventsIn sharedKey) late) := by
  have told : (read .outermost sharedKey).duplicates = [sharedKeyFound] := by decide +kernel
  refine ⟨told, read_reportedPlace .outermost sharedKey sharedKeyFound ?_⟩
  rw [told]
  exact List.mem_singleton_self sharedKeyFound

end LocaleLint.Yaml
