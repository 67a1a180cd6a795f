import Mathlib.Data.List.Forall2
import LocaleLint.Proofs.Yaml.Upkeep

set_option autoImplicit false

namespace LocaleLint.Yaml

namespace Event

def beginsNode (event : Event) : Bool :=
  match event.occurrence with
  | .alias _ | .scalar _ _ _ _ | .sequenceStart _ _ | .mappingStart _ _ => true
  | .streamEnd | .documentStart | .documentEnd | .sequenceEnd | .mappingEnd => false

def anchor? (event : Event) : Option String :=
  match event.occurrence with
  | .scalar anchor _ _ _ | .sequenceStart anchor _ | .mappingStart anchor _ => anchor
  | _ => none

end Event

namespace Frame

def owner : Frame → NodeId
  | .sequence id _ | .mapping id _ _ => id

def held : Frame → List NodeId
  | .sequence _ items => items
  | .mapping _ pairs key => key.toList ++ pairs.flatMap fun pair => [pair.1, pair.2]

end Frame

theorem bind_eq_ok {ε α β : Type} (x : Except ε α) (f : α → Except ε β) (value : β)
    (ends : (x >>= f) = .ok value) : ∃ first, x = .ok first ∧ f first = .ok value := by
  cases x with
  | error stop => contradiction
  | ok first => exact ⟨first, rfl, ends⟩

theorem Node.pairs_eq_nil (node : Node) (empty : node.content.children = []) : node.pairs = [] := by
  rw [Node.pairs]
  cases content : node.content with
  | scalar text => rfl
  | sequence items => rfl
  | mapping pairs =>
    rw [content, Content.children, List.flatMap_eq_nil_iff] at empty
    refine List.eq_nil_iff_forall_not_mem.mpr fun pair member => ?_
    exact absurd (empty pair member) (List.cons_ne_nil _ _)

namespace Composition

def awaitsKeyOf (c : Composition) (id : NodeId) : Bool :=
  match c.frames with
  | .mapping owner _ none :: _ => owner == id
  | _ => false

def keyEvents (id : NodeId) : Nat → List Event → Composition → List Nat
  | _, [], _ => []
  | number, event :: rest, c =>
      let here := if event.beginsNode && c.awaitsKeyOf id then [number] else []
      match c.addEvent event with
      | .ok c => here ++ keyEvents id (number + 1) rest c
      | .error _ => here

structure Encloses (c : Composition) : Prop where
  nodes : ∀ id, ∀ child ∈ (c.nodes.getD id default).content.children, child < c.nodes.size
  frames : ∀ frame ∈ c.frames, frame.owner < c.nodes.size ∧ ∀ child ∈ frame.held,
    child < c.nodes.size
  anchors : ∀ name id, c.anchors.lookup name = some id → id < c.nodes.size
  root : ∀ id, c.root = some id → id < c.nodes.size

theorem anchors_attach (c : Composition) (id : NodeId) : (c.attach id).anchors = c.anchors := by
  unfold attach
  split <;> rfl

theorem owners_attach (c : Composition) (id : NodeId) :
    (c.attach id).frames.map Frame.owner = c.frames.map Frame.owner := by
  unfold attach
  split <;> simp_all [Frame.owner]

namespace Encloses

variable (c : Composition) (encloses : c.Encloses)

include encloses

theorem attach (id : NodeId) (inside : id < c.nodes.size) : (c.attach id).Encloses := by
  have frames := encloses.frames
  unfold Composition.attach
  split
  · exact { encloses with root := fun other same => by cases same; exact inside }
  · next owner items rest here =>
    rw [here, List.forall_mem_cons] at frames
    refine { encloses with frames := List.forall_mem_cons.mpr ⟨⟨frames.1.1, ?_⟩, frames.2⟩ }
    exact List.forall_mem_cons.mpr ⟨inside, frames.1.2⟩
  · next owner pairs rest here =>
    rw [here, List.forall_mem_cons] at frames
    refine { encloses with frames := List.forall_mem_cons.mpr ⟨⟨frames.1.1, ?_⟩, frames.2⟩ }
    exact List.forall_mem_cons.mpr ⟨inside, frames.1.2⟩
  · next owner pairs key rest here =>
    rw [here, List.forall_mem_cons] at frames
    refine { encloses with frames := List.forall_mem_cons.mpr ⟨⟨frames.1.1, ?_⟩, frames.2⟩ }
    have held := List.forall_mem_cons.mp frames.1.2
    exact List.forall_mem_cons.mpr ⟨held.1, List.forall_mem_cons.mpr ⟨inside, held.2⟩⟩

theorem fill (id : NodeId) (content : Content) (rest : List Frame)
    (held : ∀ child ∈ content.children, child < c.nodes.size)
    (subset : ∀ frame ∈ rest, frame ∈ c.frames) :
    ({ c with
      nodes := c.nodes.modify id fun node => { node with content := content }
      frames := rest } : Composition).Encloses := by
  refine ⟨?_, ?_, ?_, ?_⟩
  · simp only [getD_modify, Array.size_modify]
    intro other child member
    split at member
    · exact held child member
    · exact encloses.nodes other child member
  · simp only [Array.size_modify]
    exact fun frame member => encloses.frames frame (subset frame member)
  · simp only [Array.size_modify]
    exact encloses.anchors
  · simp only [Array.size_modify]
    exact encloses.root

end Encloses

theorem getD_push (nodes : Array Node) (node : Node) (id : NodeId) :
    (nodes.push node).getD id default = if id = nodes.size then node
    else nodes.getD id default := by
  simp only [Array.getD_eq_getD_getElem?, Array.getElem?_push]
  split <;> rfl

def push (c : Composition) (anchor : Option String) (node : Node) : Composition :=
  { c with
    nodes := c.nodes.push node
    anchors := (anchor.map fun name => (name, c.nodes.size)).toList ++ c.anchors }

inductive Added (c : Composition) (event : Event) : Composition → Prop
  | shared (name : String) (id : NodeId) (occurrence : event.occurrence = .alias name)
      (known : c.anchors.lookup name = some id) : Added c event (c.attach id)
  | scalar (node : Node) (begins : event.beginsNode = true)
    (inPlace : ∀ name, event.occurrence ≠ .alias name)
      (start : node.start = event.start) (empty : node.content.children = []) :
      Added c event ((c.push event.anchor? node).attach c.nodes.size)
  | opened (node : Node) (frame : Frame) (begins : event.beginsNode = true)
      (inPlace : ∀ name, event.occurrence ≠ .alias name) (start : node.start = event.start)
      (empty : node.content.children = [])
      (new : frame = .sequence c.nodes.size [] ∨ frame = .mapping c.nodes.size [] none) :
      Added c event { c.push event.anchor? node with frames := frame :: c.frames }
  | closed (begins : event.beginsNode = false) : Added c event c.close
  | passed (begins : event.beginsNode = false) : Added c event c

theorem add_eq_ok (c later : Composition) (anchor : Option String) (node : Node)
    (added : c.add anchor node = .ok later) : later = c.push anchor node := by
  unfold add at added
  cases anchor with
  | none =>
    cases added
    rfl
  | some name =>
    dsimp only at added
    split at added
    · contradiction
    · cases added
      rfl

theorem Added.of_addEvent (c later : Composition) (event : Event)
    (added : c.addEvent event = .ok later) :
    c.Added event later := by
  obtain ⟨occurrence, start⟩ := event
  cases occurrence with
  | «alias» name =>
    rw [addEvent] at added
    dsimp only at added
    split at added
    · next id known =>
      cases added
      exact .shared name id rfl known
    · contradiction
  | scalar anchor tag plain text =>
    obtain ⟨middle, pushed, rest⟩ := bind_eq_ok _ _ _ added
    cases rest
    rw [c.add_eq_ok _ _ _ pushed]
    exact .scalar _ rfl nofun rfl rfl
  | sequenceStart anchor tag =>
    obtain ⟨middle, pushed, rest⟩ := bind_eq_ok _ _ _ added
    cases rest
    rw [c.add_eq_ok _ _ _ pushed]
    exact .opened _ _ rfl nofun rfl rfl (.inl rfl)
  | mappingStart anchor tag =>
    obtain ⟨middle, pushed, rest⟩ := bind_eq_ok _ _ _ added
    cases rest
    rw [c.add_eq_ok _ _ _ pushed]
    exact .opened _ _ rfl nofun rfl rfl (.inr rfl)
  | sequenceEnd =>
    cases added
    exact .closed rfl
  | mappingEnd =>
    cases added
    exact .closed rfl
  | streamEnd =>
    cases added
    exact .passed rfl
  | documentStart =>
    cases added
    exact .passed rfl
  | documentEnd =>
    cases added
    exact .passed rfl

theorem Encloses.push (c : Composition) (anchor : Option String) (node : Node)
    (encloses : c.Encloses)
    (empty : node.content.children = []) : (c.push anchor node).Encloses where
  nodes := fun id child member => by
    rw [Composition.push, getD_push] at member
    rw [Composition.push, Array.size_push]
    split at member
    · rw [empty] at member
      contradiction
    · exact Nat.lt_succ_of_lt (encloses.nodes id child member)
  frames := fun frame member => by
    obtain ⟨owner, held⟩ := encloses.frames frame member
    rw [Composition.push, Array.size_push]
    exact ⟨Nat.lt_succ_of_lt owner, fun child among => Nat.lt_succ_of_lt (held child among)⟩
  anchors := fun name id known => by
    rw [Composition.push, Array.size_push]
    cases anchor with
    | none => exact Nat.lt_succ_of_lt (encloses.anchors name id known)
    | some other =>
      simp only [Composition.push, Option.map_some, Option.toList_some, List.cons_append,
        List.nil_append,
        List.lookup_cons] at known
      split at known
      · cases known
        exact Nat.lt_succ_self _
      · exact Nat.lt_succ_of_lt (encloses.anchors name id known)
  root := fun id same => by
    rw [Composition.push, Array.size_push]
    exact Nat.lt_succ_of_lt (encloses.root id same)

end Composition

/-- The event with a number begins the use of a node: it stands at the start of the node, or it is
an alias of a node that began before. -/
inductive Writes (events : List Event) (nodes : Array Node) (number : Nat) (id : NodeId) : Prop
  | inPlace (event : Event) (here : events[number]? = some event)
      (own : ∀ name, event.occurrence ≠ .alias name)
        (start : (nodes.getD id default).start = event.start)
  | shared (event anchored : Event) (name : String) (earlier : Nat)
    (here : events[number]? = some event)
      (occurrence : event.occurrence = .alias name) (before : earlier < number)
      (there : events[earlier]? = some anchored) (anchor : anchored.anchor? = some name)
      (start : (nodes.getD id default).start = anchored.start)

structure Continues (nodes later : Array Node) : Prop where
  size : nodes.size ≤ later.size
  start : ∀ id < nodes.size, (later.getD id default).start = (nodes.getD id default).start

theorem Writes.continues (events : List Event) (nodes later : Array Node) (number : Nat)
    (id : NodeId)
    (writes : Writes events nodes number id) (inside : id < nodes.size)
    (continues : Continues nodes later) :
    Writes events later number id := by
  have same := continues.start id inside
  cases writes with
  | inPlace event here own start => exact .inPlace event here own (same.trans start)
  | shared event anchored name earlier here occurrence before there anchor start =>
    exact .shared event anchored name earlier here occurrence before there anchor (same.trans start)

def Wrote (events : List Event) (nodes : Array Node) (number : Nat) (id : NodeId) : Prop :=
  id < nodes.size ∧ Writes events nodes number id

theorem Wrote.continues (events : List Event) (nodes later : Array Node) (number : Nat)
    (id : NodeId)
    (wrote : Wrote events nodes number id) (continues : Continues nodes later) :
    Wrote events later number id :=
  ⟨Nat.lt_of_lt_of_le wrote.1 continues.size,
    wrote.2.continues events nodes later number id wrote.1 continues⟩

def keysOf (pairs : List (NodeId × NodeId)) (key inner : Option NodeId) : List NodeId :=
  pairs.reverse.map Prod.fst ++ (key.or inner).toList

def Counted (P : Nat → NodeId → Prop) (seen : NodeId → List Nat) : Option NodeId → List Frame → Prop
  | _, [] => True
  | _, .sequence id _ :: rest => Counted P seen (some id) rest
  | inner, .mapping id pairs key :: rest =>
      List.Forall₂ P (seen id) (keysOf pairs key inner) ∧ Counted P seen (some id) rest

theorem Counted.congr (P Q : Nat → NodeId → Prop) (seen other : NodeId → List Nat)
    (inner : Option NodeId)
    (frames : List Frame) (counted : Counted P seen inner frames)
    (implies : ∀ number id, P number id → Q number id)
    (same : ∀ frame ∈ frames, seen frame.owner = other frame.owner) :
    Counted Q other inner frames := by
  induction frames generalizing inner with
  | nil => trivial
  | cons frame rest ih =>
    rw [List.forall_mem_cons] at same
    cases frame with
    | sequence id items => exact ih _ counted same.2
    | mapping id pairs key =>
      have here : seen id = other id := same.1
      rw [Counted, ← here]
      exact ⟨counted.1.imp implies, ih _ counted.2 same.2⟩

namespace Composition

/-- The events up to a number made this composition, and these are those at which keys begin. -/
structure Traced (events : List Event) (number : Nat) (inner : Option NodeId) (c : Composition)
    (seen : NodeId → List Nat) : Prop where
  encloses : c.Encloses
  counted : Counted (Wrote events c.nodes) seen inner c.frames
  distinct : (c.frames.map Frame.owner).Nodup
  done : ∀ id, ∃ numbers, numbers <+: seen id ∧
    List.Forall₂ (Wrote events c.nodes) numbers ((c.nodes.getD id default).pairs.map Prod.fst)
  fresh : ∀ id, c.nodes.size ≤ id → seen id = []
  anchors : ∀ name id, c.anchors.lookup name = some id → ∃ earlier < number, ∃ event,
    events[earlier]? = some event ∧ event.anchor? = some name ∧
      (c.nodes.getD id default).start = event.start

def count (c : Composition) (number : Nat) (seen : NodeId → List Nat) (id : NodeId) : List Nat :=
  if c.awaitsKeyOf id then seen id ++ [number] else seen id

theorem count_outside (c : Composition) (number : Nat) (seen : NodeId → List Nat) (id : NodeId)
    (encloses : c.Encloses) (outside : c.nodes.size ≤ id) : c.count number seen id = seen id := by
  have idle : c.awaitsKeyOf id = false := by
    rw [awaitsKeyOf]
    split
    · next owner pairs rest here =>
      have among := (encloses.frames _ (by rw [here]; exact List.mem_cons_self ..)).1
      exact beq_eq_false_iff_ne.mpr (Nat.ne_of_lt (Nat.lt_of_lt_of_le among outside))
    · rfl
  rw [count, idle]
  rfl

theorem prefix_count (c : Composition) (number : Nat) (seen : NodeId → List Nat) (id : NodeId) :
    seen id <+: c.count number seen id := by
  unfold count
  split
  · exact List.prefix_append _ _
  · exact List.prefix_rfl

theorem continues_modify (nodes : Array Node) (id : NodeId) (content : Content) :
    Continues nodes (nodes.modify id fun node => { node with content := content }) where
  size := by
    apply Nat.le_of_eq
    rw [Array.size_modify]
  start := fun other _ => by
    rw [getD_modify]
    split <;> rfl

theorem continues_push (nodes : Array Node) (node : Node) : Continues nodes (nodes.push node) where
  size := by
    rw [Array.size_push]
    exact Nat.le_succ _
  start := fun id inside => by rw [getD_push, if_neg (Nat.ne_of_lt inside)]

namespace Traced

variable (events : List Event) (number bound : Nat) (c : Composition) (seen : NodeId → List Nat)

theorem begins (traced : Traced events bound none c seen) (id : NodeId) (inside : id < c.nodes.size)
    (writes : Writes events c.nodes number id) :
    Traced events bound (some id) c (c.count number seen) := by
  have counted := traced.counted
  have distinct := traced.distinct
  refine { traced with counted := ?_, done := fun other => ?_, fresh := fun other outside => ?_ }
  · cases frames : c.frames with
    | nil => trivial
    | cons frame rest =>
      rw [frames] at counted distinct
      have same (plain : ∀ owner, c.awaitsKeyOf owner = false) : c.count number seen = seen := by
        funext owner
        rw [count, plain owner]
        rfl
      cases frame with
      | sequence owner items =>
        rw [same fun _ => by rw [awaitsKeyOf, frames]]
        exact counted
      | mapping owner pairs key =>
        cases key with
        | some key =>
          rw [same fun _ => by rw [awaitsKeyOf, frames]]
          exact counted
        | none =>
          have here : c.count number seen owner = seen owner ++ [number] := by
            rw [count, awaitsKeyOf, frames]
            simp
          have keys : keysOf pairs none (some id) = keysOf pairs none none ++ [id] := by
            simp [keysOf]
          refine ⟨?_, counted.2.congr _ _ _ _ _ _ (fun _ _ holds => holds) fun frame member => ?_⟩
          · rw [here, keys]
            exact List.rel_append counted.1 (.cons ⟨inside, writes⟩ .nil)
          · rw [count, awaitsKeyOf, frames]
            have other : owner ≠ frame.owner := fun same =>
              (List.nodup_cons.mp distinct).1 (List.mem_map.mpr ⟨frame, member, same.symm⟩)
            simp [other]
  · obtain ⟨numbers, initial, wrote⟩ := traced.done other
    exact ⟨numbers, initial.trans (c.prefix_count number seen other), wrote⟩
  · rw [c.count_outside number seen other traced.encloses outside]
    exact traced.fresh other outside

theorem attach (id : NodeId) (traced : Traced events bound (some id) c seen)
    (inside : id < c.nodes.size) :
    Traced events bound none (c.attach id) seen := by
  have counted := traced.counted
  refine ⟨traced.encloses.attach c id inside, ?_, ?_, ?_, ?_, ?_⟩
  · rw [nodes_attach]
    unfold Composition.attach
    split
    · next frames =>
      rw [frames]
      trivial
    · next owner items rest frames =>
      rw [frames] at counted
      exact counted
    · next owner pairs rest frames =>
      rw [frames] at counted
      exact counted
    · next owner pairs key rest frames =>
      rw [frames] at counted
      have keys : keysOf ((key, id) :: pairs) none none = keysOf pairs (some key) (some id) := by
        simp [keysOf]
      rw [Counted, keys]
      exact counted
  · rw [owners_attach]
    exact traced.distinct
  · rw [nodes_attach]
    exact traced.done
  · rw [nodes_attach]
    exact traced.fresh
  · rw [anchors_attach, nodes_attach]
    exact traced.anchors

theorem push (event : Event) (node : Node) (traced : Traced events number none c seen)
    (here : events[number]? = some event) (start : node.start = event.start)
    (empty : node.content.children = []) :
    Traced events (number + 1) none (c.push event.anchor? node) seen := by
  have continues : Continues c.nodes (c.nodes.push node) := continues_push c.nodes node
  refine ⟨traced.encloses.push c _ node empty, ?_, traced.distinct, fun id => ?_,
    fun id outside => ?_,
    fun name id known => ?_⟩
  · refine traced.counted.congr _ _ _ _ _ _ (fun number id holds => ?_) fun _ _ => rfl
    exact holds.continues events c.nodes _ number id continues
  · obtain ⟨numbers, initial, wrote⟩ := traced.done id
    rw [Composition.push, getD_push]
    split
    · rw [node.pairs_eq_nil empty]
      exact ⟨[], List.nil_prefix, .nil⟩
    · exact ⟨numbers, initial, wrote.imp fun _ _ holds => holds.continues events c.nodes _ _ _
        continues⟩
  · rw [Composition.push, Array.size_push] at outside
    exact traced.fresh id (by omega)
  · have older (id : NodeId) (known : c.anchors.lookup name = some id) :
        ∃ earlier < number + 1, ∃ event, events[earlier]? = some event ∧ event.anchor? = some name ∧
          ((c.nodes.push node).getD id default).start = event.start := by
      obtain ⟨earlier, before, anchored, there, anchor, same⟩ := traced.anchors name id known
      exact ⟨earlier, Nat.lt_succ_of_lt before, anchored, there, anchor,
        (continues.start id (traced.encloses.anchors name id known)).trans same⟩
    -- An anchor is the one of this event or was there before.
    cases anchor : event.anchor? with
    | none =>
      rw [anchor] at known
      exact older id known
    | some other =>
      rw [anchor] at known
      simp only [Composition.push, Option.map_some, Option.toList_some, List.cons_append,
        List.nil_append,
        List.lookup_cons] at known
      split at known
      · next same =>
        cases known
        refine ⟨number, Nat.lt_succ_self _, event, here, ?_, ?_⟩
        · rw [anchor, beq_iff_eq.mp same]
        · rw [Composition.push, getD_push, if_pos rfl, start]
      · exact older id known

theorem opened (id : NodeId) (frame : Frame) (traced : Traced events bound (some id) c seen)
    (inside : id < c.nodes.size) (new : id ∉ c.frames.map Frame.owner) (unseen : seen id = [])
    (opens : frame = .sequence id [] ∨ frame = .mapping id [] none) :
    Traced events bound none { c with frames := frame :: c.frames } seen := by
  have owner : frame.owner = id := by rcases opens with rfl | rfl <;> rfl
  have held : frame.held = [] := by rcases opens with rfl | rfl <;> rfl
  refine ⟨{ traced.encloses with frames := List.forall_mem_cons.mpr ⟨?_, traced.encloses.frames⟩ },
    ?_, ?_,
    traced.done, traced.fresh, traced.anchors⟩
  · rw [owner, held]
    exact ⟨inside, nofun⟩
  · rcases opens with rfl | rfl
    · exact traced.counted
    · refine ⟨?_, traced.counted⟩
      rw [unseen]
      exact .nil
  · rw [List.map_cons, owner]
    exact List.nodup_cons.mpr ⟨new, traced.distinct⟩

theorem finish (id : NodeId) (content : Content) (frame : Frame) (rest : List Frame)
    (traced : Traced events bound none c seen) (here : c.frames = frame :: rest)
    (owner : frame.owner = id)
    (held : ∀ child ∈ content.children, child < c.nodes.size)
    (counted : Counted (Wrote events c.nodes) seen (some id) rest)
    (wrote : ∃ numbers, numbers <+: seen id ∧ List.Forall₂ (Wrote events c.nodes) numbers
      ((Node.pairs { (default : Node) with content := content }).map Prod.fst)) :
    Traced events bound none (c.finish id content rest) seen := by
  have distinct := traced.distinct
  have frames := traced.encloses.frames
  rw [here] at distinct frames
  have inside : id < c.nodes.size := owner ▸ (frames frame (List.mem_cons_self ..)).1
  have continues := continues_modify c.nodes id content
  refine attach events bound _ seen id ⟨?_, ?_, ?_, fun other => ?_, ?_, ?_⟩ ?_
  · refine traced.encloses.fill c id content rest held fun frame member => ?_
    rw [here]
    exact List.mem_cons_of_mem _ member
  · refine counted.congr _ _ _ _ _ _ (fun number id holds => ?_) fun _ _ => rfl
    exact holds.continues events c.nodes _ number id continues
  · exact (List.nodup_cons.mp distinct).2
  · by_cases same : id = other
    · subst same
      obtain ⟨numbers, initial, wrote⟩ := wrote
      refine ⟨numbers, initial, ?_⟩
      rw [getD_modify, if_pos ⟨rfl, inside⟩]
      exact wrote.imp fun _ _ holds => holds.continues events c.nodes _ _ _ continues
    · obtain ⟨numbers, initial, wrote⟩ := traced.done other
      refine ⟨numbers, initial, ?_⟩
      rw [getD_modify, if_neg fun both => same both.1]
      exact wrote.imp fun _ _ holds => holds.continues events c.nodes _ _ _ continues
  · rw [Array.size_modify]
    exact traced.fresh
  · intro name other known
    obtain ⟨earlier, before, anchored, there, anchor, start⟩ := traced.anchors name other known
    refine ⟨earlier, before, anchored, there, anchor, ?_⟩
    rw [← start]
    exact continues.start other (traced.encloses.anchors name other known)
  · rw [Array.size_modify]
    exact inside

theorem close (traced : Traced events bound none c seen) :
    Traced events bound none c.close seen := by
  have counted := traced.counted
  have frames := traced.encloses.frames
  unfold Composition.close
  split
  · exact traced
  · next id items rest here =>
    rw [here] at counted frames
    refine finish events bound c seen id _ _ rest traced here rfl ?_ counted
      ⟨[], List.nil_prefix, .nil⟩
    exact fun child member =>
      (frames _ (List.mem_cons_self ..)).2 child (List.mem_reverse.mp member)
  · next id pairs key rest here =>
    rw [here] at counted frames
    refine finish events bound c seen id _ _ rest traced here rfl ?_ counted.2 ?_
    · intro child member
      obtain ⟨pair, there, which⟩ := List.mem_flatMap.mp member
      refine (frames _ (List.mem_cons_self ..)).2 child (List.mem_append_right _ ?_)
      exact List.mem_flatMap.mpr ⟨pair, List.mem_reverse.mp there, which⟩
    · -- A key that still waits for its value is not among the pairs.
      refine ⟨(seen id).take pairs.length, List.take_prefix _ _, ?_⟩
      have wrote := List.forall₂_take pairs.length counted.1
      have taken : (keysOf pairs key none).take pairs.length = pairs.reverse.map Prod.fst := by
        rw [keysOf, List.take_left' (by simp)]
      rw [taken] at wrote
      exact wrote

theorem begins_in_place (event : Event) (node : Node) (traced : Traced events number none c seen)
    (here : events[number]? = some event) (own : ∀ name, event.occurrence ≠ .alias name)
    (start : node.start = event.start) (empty : node.content.children = []) :
    c.nodes.size < (c.push event.anchor? node).nodes.size ∧
      Traced events (number + 1) (some c.nodes.size) (c.push event.anchor? node)
        (c.count number seen) := by
  have inside : c.nodes.size < (c.push event.anchor? node).nodes.size := by
    rw [Composition.push, Array.size_push]
    exact Nat.lt_succ_self _
  refine ⟨inside, Traced.begins events number (number + 1) _ seen
    (push events number c seen event node traced here start empty) c.nodes.size inside ?_⟩
  refine .inPlace event here own ?_
  rw [Composition.push, getD_push, if_pos rfl, start]

theorem added (later : Composition) (event : Event) (traced : Traced events number none c seen)
    (here : events[number]? = some event) (step : c.Added event later) :
    Traced events (number + 1) none later
      (if event.beginsNode then c.count number seen else seen) := by
  -- An anchor that was set before this event was set before the next one too.
  have kept : Traced events (number + 1) none c seen :=
    { traced with
      anchors := fun name id known => by
        obtain ⟨earlier, before, rest⟩ := traced.anchors name id known
        exact ⟨earlier, Nat.lt_succ_of_lt before, rest⟩ }
  cases step with
  | shared name id occurrence known =>
    have begins : event.beginsNode = true := by rw [Event.beginsNode, occurrence]
    have inside := traced.encloses.anchors name id known
    obtain ⟨earlier, before, anchored, there, anchor, start⟩ := traced.anchors name id known
    rw [if_pos begins]
    exact attach events _ _ _ id (Traced.begins events number _ _ _ kept id inside
      (.shared event anchored name earlier here occurrence before there anchor start)) inside
  | scalar node begins own start empty =>
    rw [if_pos begins]
    obtain ⟨inside, pending⟩ :=
      begins_in_place events number c seen event node traced here own start empty
    exact attach events _ _ _ _ pending inside
  | opened node frame begins own start empty new =>
    rw [if_pos begins]
    obtain ⟨inside, pending⟩ :=
      begins_in_place events number c seen event node traced here own start empty
    have away : c.nodes.size ∉ c.frames.map Frame.owner := by
      intro member
      obtain ⟨frame, there, same⟩ := List.mem_map.mp member
      exact absurd same (Nat.ne_of_lt (traced.encloses.frames frame there).1)
    have unseen : c.count number seen c.nodes.size = [] := by
      rw [c.count_outside number seen _ traced.encloses (Nat.le_refl _)]
      exact traced.fresh _ (Nat.le_refl _)
    exact opened events _ _ _ c.nodes.size frame pending inside away unseen new
  | closed begins =>
    rw [if_neg (by rw [begins]; exact Bool.false_ne_true)]
    exact close events _ _ _ kept
  | passed begins =>
    rw [if_neg (by rw [begins]; exact Bool.false_ne_true)]
    exact kept

end Traced

theorem traced_empty (events : List Event) : Traced events 0 none empty fun _ => [] where
  encloses := ⟨nofun, nofun, nofun, nofun⟩
  counted := trivial
  distinct := .nil
  done := fun _ => ⟨[], List.nil_prefix, .nil⟩
  fresh := fun _ _ => rfl
  anchors := nofun

theorem keyEvents_added (id : NodeId) (number : Nat) (event : Event) (rest : List Event)
    (c later : Composition) (seen : NodeId → List Nat) (added : c.addEvent event = .ok later) :
    seen id ++ keyEvents id number (event :: rest) c =
      (if event.beginsNode then c.count number seen else seen) id ++ keyEvents id (number + 1)
        rest later := by
  rw [keyEvents, added]
  cases event.beginsNode with
  | false => rfl
  | true =>
    cases waits : c.awaitsKeyOf id with
    | false => simp [count, waits]
    | true => simp [count, waits]

theorem run_writes (events rest : List Event) (number : Nat) (starved : Option Stop)
    (c : Composition)
    (seen : NodeId → List Nat) (g : Graph) (traced : Traced events number none c seen)
    (left : events.drop number = rest) (ends : c.run starved rest = .ok (some g)) :
    g.IsClosed ∧ ∀ id, ∃ numbers, numbers <+: seen id ++ keyEvents id number rest c ∧
      List.Forall₂ (Writes events g.nodes) numbers ((g.node id).pairs.map Prod.fst) := by
  induction rest generalizing number c seen with
  | nil =>
    unfold run at ends
    cases starved with
    | some stop => contradiction
    | none =>
      obtain ⟨root, rooted, same⟩ := Option.map_eq_some_iff.mp (Except.ok.inj ends)
      cases same
      refine ⟨⟨traced.encloses.root root rooted, fun id _ => traced.encloses.nodes id⟩,
        fun id => ?_⟩
      obtain ⟨numbers, initial, wrote⟩ := traced.done id
      exact ⟨numbers, initial.trans (List.prefix_append _ _), wrote.imp fun _ _ holds => holds.2⟩
  | cons event rest ih =>
    have here : events[number]? = some event := by
      rw [← List.head?_drop, left]
      rfl
    have next : events.drop (number + 1) = rest := by
      rw [← List.drop_drop, left]
      rfl
    unfold run at ends
    split at ends
    · contradiction
    · cases added : c.addEvent event with
      | error stop =>
        rw [added] at ends
        contradiction
      | ok later =>
        rw [added] at ends
        obtain ⟨closed, wrote⟩ := ih (number + 1) later _
          (traced.added events number c seen later event here (.of_addEvent c later event added))
            next ends
        refine ⟨closed, fun id => ?_⟩
        rw [keyEvents_added id number event rest c later seen added]
        exact wrote id

theorem keyEvents_ascend (id : NodeId) (events : List Event) (number : Nat) (c : Composition) :
    (keyEvents id number events c).Pairwise (· < ·) ∧ ∀ other ∈ keyEvents id number events c,
    number ≤ other := by
  induction events generalizing number c with
  | nil => exact ⟨.nil, nofun⟩
  | cons event rest ih =>
    have from_here (here : List Nat) (later : List Nat) (some : here = [number] ∨ here = [])
        (ascend : later.Pairwise (· < ·) ∧ ∀ other ∈ later, number + 1 ≤ other) :
        (here ++ later).Pairwise (· < ·) ∧ ∀ other ∈ here ++ later, number ≤ other := by
      rcases some with rfl | rfl
      · refine ⟨List.pairwise_cons.mpr ⟨ascend.2, ascend.1⟩,
          List.forall_mem_cons.mpr ⟨Nat.le_refl _, ?_⟩⟩
        exact fun other member => Nat.le_of_succ_le (ascend.2 other member)
      · exact ⟨ascend.1, fun other member => Nat.le_of_succ_le (ascend.2 other member)⟩
    have some : (if (event.beginsNode && c.awaitsKeyOf id) = true then [number] else []) =
      [number] ∨
        (if (event.beginsNode && c.awaitsKeyOf id) = true then [number] else []) = [] := by
      split
      · exact .inl rfl
      · exact .inr rfl
    rw [keyEvents]
    split
    · exact from_here _ _ some (ih (number + 1) _)
    · have alone := from_here _ [] some ⟨.nil, nofun⟩
      rwa [List.append_nil] at alone

end Composition

end LocaleLint.Yaml
