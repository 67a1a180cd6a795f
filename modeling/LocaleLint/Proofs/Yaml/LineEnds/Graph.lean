import Mathlib.Data.List.TakeWhile
import LocaleLint.Yaml.Read
import LocaleLint.Proofs.Yaml.LineEnds.Events

set_option autoImplicit false

namespace LocaleLint.Yaml

open LocaleLint.Text

variable (shift : Nat → Nat)

def Node.moved (node : Node) : Node := { node with start := node.start.moved shift }

def Graph.moved (graph : Graph) : Graph :=
  { graph with nodes := graph.nodes.map (Node.moved shift) }

theorem modify_map {α β : Type} (nodes : Array α) (id : Nat) (move : α → β) (change : α → α)
    (other : β → β) (commutes : ∀ node, other (move node) = move (change node)) :
    (nodes.map move).modify id other = (nodes.modify id change).map move := by
  refine Array.ext (by simp) fun i inside insideOther => ?_
  rw [Array.getElem_modify, Array.getElem_map, Array.getElem_map, Array.getElem_modify]
  split
  next => exact commutes _
  next => rfl

namespace Composition

def moved (c : Composition) : Composition := { c with nodes := c.nodes.map (Node.moved shift) }

variable {shift}

theorem attach_moved (c : Composition) (id : NodeId) :
    (c.moved shift).attach id = (c.attach id).moved shift := by
  obtain ⟨nodes, anchors, frames, root⟩ := c
  cases frames with
  | nil => rfl
  | cons frame frames =>
    cases frame with
    | sequence owner items => rfl
    | mapping owner pairs key => cases key <;> rfl

theorem finish_moved (c : Composition) (id : NodeId) (content : Content) (frames : List Frame) :
    (c.moved shift).finish id content frames = (c.finish id content frames).moved shift := by
  rw [finish, finish, ← attach_moved]
  have nodes :
    (c.nodes.map (Node.moved shift)).modify id (fun node => { node with content := content }) =
      (c.nodes.modify id fun node => { node with content := content }).map (Node.moved shift) :=
    modify_map _ _ _ _ _ fun _ => rfl
  simp only [moved, nodes]

theorem close_moved (c : Composition) : (c.moved shift).close = c.close.moved shift := by
  have frames : (c.moved shift).frames = c.frames := rfl
  rw [close, close, frames]
  cases c.frames with
  | nil => rfl
  | cons frame later =>
    cases frame with
    | sequence id items => exact c.finish_moved _ _ _
    | mapping id pairs key => exact c.finish_moved _ _ _

theorem add_moved (c : Composition) (anchor : Option String) (node : Node) :
    EndAlike Stop.told (fun a b => a = b.moved shift)
      ((c.moved shift).add anchor (node.moved shift))
      (c.add anchor node) := by
  cases anchor with
  | none => exact .ok (by simp [moved])
  | some name =>
    have anchors : (c.moved shift).anchors = c.anchors := rfl
    simp only [add, anchors]
    cases c.anchors.lookup name with
    | some first => exact .error rfl
    | none => exact .ok (by simp [moved])

theorem addEvent_moved (c : Composition) (event : Event) :
    EndAlike Stop.told (fun a b => a = b.moved shift) ((c.moved shift).addEvent (event.moved shift))
      (c.addEvent event) := by
  have size : (c.moved shift).nodes.size = c.nodes.size := Array.size_map
  obtain ⟨occurrence, start⟩ := event
  cases occurrence with
  | streamEnd | documentStart | documentEnd => exact .ok rfl
  | sequenceEnd | mappingEnd => exact .ok c.close_moved
  | «alias» name =>
    have anchors : (c.moved shift).anchors = c.anchors := rfl
    simp only [addEvent, Event.moved, anchors]
    cases c.anchors.lookup name with
    | some id => exact .ok (c.attach_moved id)
    | none => exact .error rfl
  | scalar anchor tag plain text =>
    refine .bind (c.add_moved anchor ⟨.scalar text, _, start⟩) fun a b same => .ok ?_
    rw [same, size]
    exact b.attach_moved _
  | sequenceStart anchor tag =>
    refine .bind (c.add_moved anchor ⟨.sequence [], _, start⟩) fun a b same => .ok ?_
    rw [same, size]
    rfl
  | mappingStart anchor tag =>
    refine .bind (c.add_moved anchor ⟨.mapping [], _, start⟩) fun a b same => .ok ?_
    rw [same, size]
    rfl

theorem graph?_moved (c : Composition) :
    (c.moved shift).graph? = c.graph?.map (Graph.moved shift) := by
  obtain ⟨nodes, anchors, frames, root⟩ := c
  cases root <;> rfl

theorem run_cons (starved : Option Stop) (event : Event) (rest : List Event) (c : Composition)
    (single : event.occurrence = .documentStart → c.frames = [] → c.root = none) :
    c.run starved (event :: rest) = c.addEvent event >>= fun later => later.run starved rest := by
  conv_lhs => unfold run
  split
  next root starts empty rooted =>
    rw [single starts empty] at rooted
    cases rooted
  next => cases c.addEvent event <;> rfl

theorem run_moved (starved other : Option Stop)
    (alike : starved.map Stop.told = other.map Stop.told)
    (events : List Event) (c : Composition) :
    EndAlike Stop.told (fun a b => a = b.map (Graph.moved shift))
      ((c.moved shift).run starved (events.map (Event.moved shift))) (c.run other events) := by
  induction events generalizing c with
  | nil =>
    cases starved with
    | none =>
      cases other with
      | none => exact .ok c.graph?_moved
      | some halt => cases alike
    | some stop =>
      cases other with
      | none => cases alike
      | some halt => exact .error (Option.some.inj alike)
  | cons event rest ih =>
    by_cases single : event.occurrence = .documentStart → c.frames = [] → c.root = none
    next =>
      rw [List.map_cons, run_cons other event rest c single,
        run_cons starved (event.moved shift) _ (c.moved shift) single]
      refine .bind (c.addEvent_moved event) fun a b same => ?_
      rw [same]
      exact ih b
    next =>
      obtain ⟨occurrence, start⟩ := event
      obtain ⟨nodes, anchors, frames, root⟩ := c
      simp only [Classical.not_imp] at single
      obtain ⟨rfl, rfl, rooted⟩ := single
      obtain ⟨id, rfl⟩ := Option.ne_none_iff_exists'.mp rooted
      exact .error rfl

end Composition

theorem graphOf_moved (events other : Delivery Event Stop)
    (moved : events.Moved (Event.moved shift) other) :
    EndAlike Stop.told (fun a b => a = b.map (Graph.moved shift)) (graphOf events)
      (graphOf other) := by
  have nothing : Composition.empty.moved shift = .empty := by
    simp [Composition.moved, Composition.empty]
  have ends : EndAlike Stop.told (fun a b => a = b.map (Graph.moved shift))
      ((Composition.empty.moved shift).run events.stop (other.items.map (Event.moved shift)))
      (Composition.empty.run other.stop other.items) :=
    Composition.run_moved _ _ moved.2 other.items .empty
  rw [nothing] at ends
  rw [graphOf, graphOf, moved.1]
  exact ends

theorem firstUnacceptable_eq_none_iff (source : List Char) :
    firstUnacceptable source = none ↔ source.all isAcceptable = true := by
  rw [firstUnacceptable, Option.map_eq_none_iff, List.head?_eq_none_iff, List.drop_eq_nil_iff,
    List.all_eq_true, ← List.takeWhile_eq_self_iff]
  constructor
  · intro long
    exact (List.takeWhile_prefix isAcceptable).eq_of_length_le long
  · intro same
    rw [same]

theorem all_unifyLineEnds (keep : Char → Bool) (takesReturn : keep '\r' = true)
    (takesFeed : keep '\n' = true) (text : List Char) :
    (unifyLineEnds text).all keep = text.all keep := by
  fun_induction unifyLineEnds text with
  | case1 => rfl
  | case2 rest ih => simp [takesReturn, takesFeed, ih]
  | case3 c rest lone ih =>
    by_cases isReturn : c = '\r'
    next => simp [isReturn, takesReturn, takesFeed, ih]
    next => simp [isReturn, ih]

theorem graphOfSource_moved (source other : List Char)
    (acceptable : source.all isAcceptable = other.all isAcceptable)
    (tokens : (tokensOf source).Moved (Token.moved shift) (tokensOf other)) :
    EndAlike Stop.told (fun a b => a = b.map (Graph.moved shift)) (graphOfSource source)
      (graphOfSource other) := by
  have alike : firstUnacceptable source = none ↔ firstUnacceptable other = none := by
    rw [firstUnacceptable_eq_none_iff, firstUnacceptable_eq_none_iff, acceptable]
  rw [graphOfSource, graphOfSource]
  cases found : firstUnacceptable source with
  | none =>
    rw [alike.mp found]
    exact graphOf_moved shift _ _ (eventsOf_moved shift _ _ tokens)
  | some first =>
    cases again : firstUnacceptable other with
    | none =>
      rw [alike.mpr again] at found
      cases found
    | some second => exact .error rfl

theorem graphOfSource_unifyLineEnds (source : List Char) :
    ∃ shift, EndAlike Stop.told (fun a b => a = b.map (Graph.moved shift)) (graphOfSource source)
      (graphOfSource (unifyLineEnds source)) := by
  obtain ⟨shift, tokens⟩ := tokensOf_unifyLineEnds source
  refine ⟨shift, graphOfSource_moved shift _ _ ?_ tokens⟩
  rw [all_unifyLineEnds _ rfl rfl]

theorem graphOfSource_marked (source : List Char) (unmarked : source.head? ≠ some '\ufeff') :
    ∃ shift, EndAlike Stop.told (fun a b => a = b.map (Graph.moved shift))
      (graphOfSource ('\ufeff' :: source)) (graphOfSource (unifyLineEnds source)) := by
  obtain ⟨shift, tokens⟩ := tokensOf_marked source unmarked
  refine ⟨shift, graphOfSource_moved shift _ _ ?_ tokens⟩
  have mark : isAcceptable '\ufeff' = true := rfl
  rw [all_unifyLineEnds _ rfl rfl, List.all_cons, mark, Bool.true_and]

end LocaleLint.Yaml
