import LocaleLint.Yaml.Event.Stream
import LocaleLint.Proofs.Yaml.Order.Lexer

set_option autoImplicit false

namespace LocaleLint.Yaml

variable (source : List Char)

def FaultIsIn : Option Fault → Prop
  | some fault => fault.place.IsIn source
  | none => True

/-- The tokens that are left, and those of which the first is known. -/
def Left (n : Nat) (g : Grammar) : Prop := InOrder source n g.tokens

def LeftAt (token : Token) (g : Grammar) : Prop :=
  ∃ later, g.tokens = token :: later ∧ InOrder source token.start.index (token :: later)

def Reached (n : Nat) : Option Event → Grammar → Prop
  | some event, g =>
    event.start.IsIn source ∧ n ≤ event.start.index ∧ Left source event.start.index g
  | none, g => Left source n g

variable {source} {n m : Nat}

theorem LeftAt.left {token : Token} {g : Grammar} (leftAt : LeftAt source token g) :
    Left source token.start.index g := by
  obtain ⟨later, tokens, ordered⟩ := leftAt
  rwa [Left, tokens]

theorem Reached.le {found : Option Event} {g : Grammar} (reached : Reached source m found g)
    (below : n ≤ m) : Reached source n found g := by
  cases found with
  | none => exact InOrder.le reached below
  | some event => exact ⟨reached.1, Nat.le_trans below reached.2.1, reached.2.2⟩

namespace Parse

variable {α β : Type} {before : Grammar → Prop} {token : Token} {start place : Position}

theorem attains_get {f : Grammar → Parse β} {after : β → Grammar → Prop}
    (next : ∀ g, Attains (FaultIsIn source) before (f g) after) :
    Attains (FaultIsIn source) before (get >>= f) after :=
  .get_bind fun _ begins => (next _).weaken (fun _ same => same ▸ begins) fun _ _ ends => ends

theorem attains_peek {f : Token → Parse β} {after : β → Grammar → Prop}
    (next : ∀ token, token.IsFrom source n →
      Attains (FaultIsIn source) (LeftAt source token) (f token) after) :
    Attains (FaultIsIn source) (Left source n) (peekToken >>= f) after := by
  rintro ⟨goals, tokens, handles⟩ left
  cases tokens with
  | nil => trivial
  | cons token later =>
    exact next token left.1 ⟨goals, token :: later, handles⟩
      ⟨later, rfl, left.1.le (Nat.le_refl _), left.2⟩

theorem attains_takeAt {f : Token → Parse β} {after : β → Grammar → Prop}
    (next : Attains (FaultIsIn source) (Left source token.stop.index) (f token) after) :
    Attains (FaultIsIn source) (LeftAt source token) (takeToken >>= f) after := by
  rintro ⟨goals, _, handles⟩ ⟨later, rfl, ordered⟩
  exact next ⟨goals, later, handles⟩ ordered.2

theorem attains_take {f : Token → Parse β} {after : β → Grammar → Prop}
    (next : ∀ token, token.IsFrom source n →
      Attains (FaultIsIn source) (Left source token.stop.index) (f token) after) :
    Attains (FaultIsIn source) (Left source n) (takeToken >>= f) after := by
  rintro ⟨goals, tokens, handles⟩ left
  cases tokens with
  | nil => trivial
  | cons token later => exact next token left.1 ⟨goals, later, handles⟩ left.2

theorem attains_lexeme {f : Lexeme → Parse β} {after : β → Grammar → Prop}
    (next : ∀ lexeme, Attains (FaultIsIn source) (Left source n) (f lexeme) after) :
    Attains (FaultIsIn source) (Left source n) (peekLexeme >>= f) after := by
  rintro ⟨goals, tokens, handles⟩ left
  cases tokens with
  | nil => trivial
  | cons token later => exact next token.lexeme ⟨goals, token :: later, handles⟩ left

theorem attains_left {x : Parse β} {after : β → Grammar → Prop} (below : n ≤ m)
    (next : Attains (FaultIsIn source) (Left source n) x after) :
    Attains (FaultIsIn source) (Left source m) x after :=
  next.weaken (fun _ left => InOrder.le left below) fun _ _ ends => ends

theorem attains_leftAt {x : Parse β} {after : β → Grammar → Prop}
    (next : Attains (FaultIsIn source) (Left source token.start.index) x after) :
    Attains (FaultIsIn source) (LeftAt source token) x after :=
  next.weaken (fun _ leftAt => leftAt.left) fun _ _ ends => ends

theorem attains_expect {f : Unit → Parse β} {after : β → Grammar → Prop} (goals : List Goal)
    (next : Attains (FaultIsIn source) (Left source n) (f ()) after) :
    Attains (FaultIsIn source) (Left source n) (expect goals >>= f) after :=
  fun g left => next { g with goals := goals ++ g.goals } left

theorem attains_handles {f : Unit → Parse β} {after : β → Grammar → Prop}
    (handles : List (String × String))
    (next : Attains (FaultIsIn source) (Left source n) (f ()) after) :
    Attains (FaultIsIn source) (Left source n)
      (modify (fun g : Grammar => { g with handles := handles }) >>= f) after :=
  fun g left => next { g with handles := handles } left

theorem attains_passIf (passed : Bool) (isFrom : token.IsFrom source n) :
    Attains (FaultIsIn source) (LeftAt source token) (passIf passed)
      fun _ => Left source token.start.index := by
  cases passed with
  | false => exact .pure () fun _ leftAt => leftAt.left
  | true => exact attains_takeAt (.pure () fun _ left => InOrder.le left isFrom.length)

theorem attains_demand {f : Unit → Parse β} {after : β → Grammar → Prop} (holds : Bool)
    (cause : Cause) (isIn : place.IsIn source)
    (next : Attains (FaultIsIn source) before (f ()) after) :
    Attains (FaultIsIn source) before (demand holds cause place >>= f) after := by
  cases holds with
  | true => exact next
  | false => exact fun _ _ => isIn

theorem attains_fail {after : α → Grammar → Prop} (activity : Activity) (since : Position)
    (cause : Cause) (isIn : place.IsIn source) :
    Attains (FaultIsIn source) before (fail activity since cause place) after :=
  .throw _ isIn

theorem attains_none (below : n ≤ m) :
    Attains (FaultIsIn source) (Left source m) (pure none) (Reached source n) :=
  .pure none fun _ left => InOrder.le left below

theorem attains_event (occurrence : Occurrence) (isIn : start.IsIn source) (least : n ≤ start.index)
    (within : start.index ≤ m) :
    Attains (FaultIsIn source) (Left source m) (event occurrence start) (Reached source n) :=
  .pure _ fun _ left => ⟨isIn, least, InOrder.le left within⟩

/-- An event at a token that is read again, and one at a token that was read. -/
theorem attains_eventAt (occurrence : Occurrence) (isFrom : token.IsFrom source n) :
    Attains (FaultIsIn source) (LeftAt source token) (event occurrence token.start)
      (Reached source n) :=
  attains_leftAt (attains_event occurrence isFrom.start isFrom.least (Nat.le_refl _))

theorem attains_eventBehind (occurrence : Occurrence) (isFrom : token.IsFrom source n) :
    Attains (FaultIsIn source) (Left source token.stop.index) (event occurrence token.start)
      (Reached source n) :=
  attains_event occurrence isFrom.start isFrom.least isFrom.length

theorem attains_eventStop (occurrence : Occurrence) (isFrom : token.IsFrom source n) :
    Attains (FaultIsIn source) (Left source token.stop.index) (event occurrence token.stop)
      (Reached source n) :=
  attains_event occurrence isFrom.stop (Nat.le_trans isFrom.least isFrom.length) (Nat.le_refl _)

theorem attains_firstDocument :
    Attains (FaultIsIn source) (Left source n) firstDocument (Reached source n) := by
  refine attains_peek fun token isFrom => attains_leftAt (.ite (fun _ => ?_) fun _ => ?_)
  · exact attains_expect _ (attains_none isFrom.least)
  · refine attains_handles _ (attains_expect _ ?_)
    exact attains_event _ isFrom.start isFrom.least (Nat.le_refl _)

theorem attains_directives (handles : List (String × String)) (versionSeen : Bool) (fuel : Nat) :
    Attains (FaultIsIn source) (Left source n) (directives handles versionSeen fuel)
      fun _ => Left source n := by
  induction fuel generalizing handles versionSeen with
  | zero => exact .pure _ fun _ left => left
  | succ fuel ih =>
    refine attains_peek fun token isFrom => ?_
    have further : n ≤ token.stop.index := Nat.le_trans isFrom.least isFrom.length
    split
    · refine attains_takeAt (attains_left further ?_)
      exact attains_demand _ _ isFrom.start (attains_demand _ _ isFrom.start (ih _ _))
    · refine attains_takeAt (attains_left further ?_)
      exact attains_demand _ _ isFrom.start (ih _ _)
    · exact attains_takeAt (attains_left further (ih _ _))
    · exact .pure _ fun _ leftAt => leftAt.left.le isFrom.least

theorem attains_skipDocumentEnds (fuel : Nat) :
    Attains (FaultIsIn source) (Left source n) (skipDocumentEnds fuel) fun _ => Left source n := by
  induction fuel with
  | zero => exact .pure _ fun _ left => left
  | succ fuel ih =>
    refine attains_lexeme fun lexeme => .ite (fun _ => ?_) fun _ => .pure _ fun _ left => left
    refine attains_take fun token isFrom => ?_
    exact attains_left (Nat.le_trans isFrom.least isFrom.length) ih

theorem attains_document :
    Attains (FaultIsIn source) (Left source n) document (Reached source n) := by
  refine attains_get fun _ => .bind (attains_skipDocumentEnds _) fun _ => ?_
  refine attains_peek fun token isFrom => .ite (fun _ => ?_) fun _ => ?_
  · exact attains_takeAt (attains_eventBehind _ isFrom)
  · refine attains_leftAt (attains_get fun _ => .bind (attains_directives _ _ _) fun _ => ?_)
    refine attains_handles _ (attains_peek fun next nextFrom => ?_)
    refine attains_demand _ _ nextFrom.start (attains_takeAt (attains_expect _ ?_))
    refine attains_event _ isFrom.start isFrom.least ?_
    exact Nat.le_trans nextFrom.least nextFrom.length

theorem attains_documentContent :
    Attains (FaultIsIn source) (Left source n) documentContent (Reached source n) := by
  refine attains_peek fun token isFrom => .ite (fun _ => attains_eventAt _ isFrom) fun _ => ?_
  exact attains_leftAt (attains_expect _ (attains_none isFrom.least))

theorem attains_documentEnd :
    Attains (FaultIsIn source) (Left source n) documentEnd (Reached source n) := by
  refine attains_peek fun token isFrom => .bind (attains_passIf _ isFrom) fun _ => ?_
  exact attains_event _ isFrom.start isFrom.least (Nat.le_refl _)

variable (source)

/-- Where an anchor or a tag was read, the tokens that are left follow it. -/
structure Properties.Stands (n : Nat) (p : Properties) (g : Grammar) : Prop where
  left : Left source (p.start.elim n (·.index)) g
  start : ∀ start, p.start = some start → start.IsIn source ∧ n ≤ start.index
  tag : ∀ place, p.tagPlace = some place → place.IsIn source

variable {source}

theorem attains_properties :
    Attains (FaultIsIn source) (Left source n) properties (Properties.Stands source n) := by
  refine attains_peek fun first isFrom => ?_
  have here {name : Option String} {tag : Option (Option String × String)}
      {tagPlace : Option Position} (tagIn : ∀ place, tagPlace = some place → place.IsIn source)
      {m : Nat} (further : first.start.index ≤ m) :
      Attains (FaultIsIn source) (Left source m)
        (Pure.pure ⟨name, tag, some first.start, tagPlace⟩ : Parse Properties)
        (Properties.Stands source n) := by
    refine .pure _ fun _ left => ⟨InOrder.le left further, fun _ same => ?_, tagIn⟩
    cases same
    exact ⟨isFrom.start, isFrom.least⟩
  have firstIn : ∀ place, some first.start = some place → place.IsIn source := by
    intro _ same
    cases same
    exact isFrom.start
  split
  · refine attains_takeAt (attains_peek fun second secondFrom => ?_)
    have further := Nat.le_trans isFrom.length secondFrom.least
    split
    · refine attains_takeAt (here (fun _ same => ?_) (Nat.le_trans further secondFrom.length))
      cases same
      exact secondFrom.start
    · exact attains_leftAt (here (by simp) further)
  · refine attains_takeAt (attains_peek fun second secondFrom => ?_)
    have further := Nat.le_trans isFrom.length secondFrom.least
    split
    · exact attains_takeAt (here firstIn (Nat.le_trans further secondFrom.length))
    · exact attains_leftAt (here firstIn further)
  · exact .pure _ fun _ leftAt => ⟨leftAt.left.le isFrom.least, nofun, nofun⟩

theorem attains_expandTag (p : Properties) (isIn : start.IsIn source)
    (tag : ∀ place, p.tagPlace = some place → place.IsIn source) :
    Attains (FaultIsIn source) before (expandTag p start) fun _ => before := by
  unfold expandTag
  split
  · exact .pure _ fun _ begins => begins
  · exact .pure _ fun _ begins => begins
  · refine attains_get fun g => ?_
    split
    · exact .pure _ fun _ begins => begins
    · refine attains_fail _ _ _ ?_
      cases named : p.tagPlace with
      | none => exact isIn
      | some place => exact tag place named

theorem attains_collection (block indentless : Bool) (p : Properties) (tag : Option String)
    (isFrom : token.IsFrom source m) (isIn : start.IsIn source) (least : n ≤ start.index)
    (within : start.index ≤ token.start.index) :
    Attains (FaultIsIn source) (LeftAt source token) (collection block indentless p tag start token)
      (Reached source n) := by
  unfold collection
  split
  · refine .bind (attains_passIf _ isFrom) fun _ => attains_expect _ ?_
    exact attains_event _ isIn least within
  · refine attains_leftAt (.ite (fun _ => attains_event _ isIn least within) fun _ => ?_)
    exact attains_fail _ _ _ isFrom.start

theorem attains_ownNode (block indentless : Bool) :
    Attains (FaultIsIn source) (Left source n) (ownNode block indentless) (Reached source n) := by
  refine attains_peek fun first firstFrom => ?_
  refine .bind (attains_leftAt (attains_left firstFrom.least attains_properties)) fun p => ?_
  intro g stands
  have begins : (p.start.getD first.start).IsIn source := by
    cases own : p.start with
    | none => exact firstFrom.start
    | some start => exact (stands.start start own).1
  have least : n ≤ p.start.elim n (·.index) := by
    cases own : p.start with
    | none => exact Nat.le_refl _
    | some start => exact (stands.start start own).2
  refine Attains.bind (attains_expandTag p begins stands.tag) (fun tag => ?_) g stands.left
  refine attains_peek fun token isFrom => ?_
  have isIn : (p.start.getD token.start).IsIn source := by
    cases own : p.start with
    | none => exact isFrom.start
    | some start => exact (stands.start start own).1
  have bounds : n ≤ (p.start.getD token.start).index ∧
      (p.start.getD token.start).index ≤ token.start.index := by
    have behind := isFrom.least
    cases own : p.start with
    | none =>
      rw [own] at behind
      exact ⟨behind, Nat.le_refl _⟩
    | some start =>
      rw [own] at behind
      exact ⟨(stands.start start own).2, behind⟩
  split
  · refine attains_takeAt (attains_event _ isIn bounds.1 ?_)
    exact Nat.le_trans bounds.2 isFrom.length
  · exact attains_collection block indentless p tag isFrom isIn bounds.1 bounds.2

theorem attains_node (block indentless : Bool) :
    Attains (FaultIsIn source) (Left source n) (node block indentless) (Reached source n) := by
  refine attains_peek fun first isFrom => ?_
  split
  · exact attains_takeAt (attains_eventBehind _ isFrom)
  · refine attains_leftAt ((attains_ownNode block indentless).weaken (fun _ left => left) ?_)
    exact fun _ _ reached => reached.le isFrom.least

theorem attains_nodeUnless (closing : List Lexeme) (child next : Goal)
    (isFrom : token.IsFrom source n) :
    Attains (FaultIsIn source) (Left source token.stop.index) (nodeUnless closing child next token)
      (Reached source n) := by
  refine attains_lexeme fun _ => .ite (fun _ => ?_) fun _ => ?_
  · exact attains_expect _ (attains_eventStop _ isFrom)
  · exact attains_expect _ (attains_none (Nat.le_trans isFrom.least isFrom.length))

theorem attains_blockSequence (since : Position) :
    Attains (FaultIsIn source) (Left source n) (blockSequence since) (Reached source n) := by
  refine attains_take fun token isFrom => .ite (fun _ => attains_nodeUnless _ _ _ isFrom)
    fun _ => ?_
  exact .ite (fun _ => attains_eventBehind _ isFrom) fun _ => attains_fail _ _ _ isFrom.start

theorem attains_indentlessSequence :
    Attains (FaultIsIn source) (Left source n) indentlessSequence (Reached source n) := by
  refine attains_peek fun token isFrom => .ite (fun _ => ?_) fun _ => attains_eventAt _ isFrom
  exact attains_takeAt (attains_nodeUnless _ _ _ isFrom)

theorem attains_blockKey (since : Position) :
    Attains (FaultIsIn source) (Left source n) (blockKey since) (Reached source n) := by
  refine attains_take fun token isFrom => .ite (fun _ => ?_) fun _ => .ite (fun _ => ?_) fun _ => ?_
  · exact attains_expect _ (attains_nodeUnless _ _ _ isFrom)
  · exact attains_eventBehind _ isFrom
  · exact attains_fail _ _ _ isFrom.start

theorem attains_valueOr (closing : List Lexeme) (child : Goal) :
    Attains (FaultIsIn source) (Left source n) (valueOr closing child) (Reached source n) := by
  refine attains_peek fun token isFrom => .ite (fun _ => ?_) fun _ => attains_eventAt _ isFrom
  refine attains_takeAt (attains_lexeme fun _ => .ite (fun _ => attains_eventStop _ isFrom) ?_)
  exact fun _ => attains_expect _ (attains_none (Nat.le_trans isFrom.least isFrom.length))

theorem attains_separator (first : Bool) (activity : Activity) (since : Position)
    (expected : Lexeme → Cause) :
    Attains (FaultIsIn source) (Left source n) (separator first activity since expected)
      fun _ => Left source n := by
  refine .ite (fun _ => .pure _ fun _ left => left) fun _ => attains_take fun token isFrom => ?_
  refine .ite (fun _ => .pure _ fun _ left => ?_) fun _ => attains_fail _ _ _ isFrom.start
  exact InOrder.le left (Nat.le_trans isFrom.least isFrom.length)

theorem attains_flowSequence (since : Position) (first : Bool) :
    Attains (FaultIsIn source) (Left source n) (flowSequence since first) (Reached source n) := by
  refine attains_peek fun token isFrom => .ite (fun _ => ?_) fun _ => ?_
  · exact attains_takeAt (attains_eventBehind _ isFrom)
  · refine attains_leftAt (attains_left isFrom.least ?_)
    refine .bind (attains_separator _ _ _ _) fun _ => attains_peek fun next nextFrom => ?_
    refine .ite (fun _ => ?_) fun _ => .ite (fun _ => ?_) fun _ => ?_
    · refine attains_leftAt (attains_expect _ ?_)
      exact attains_event _ nextFrom.start nextFrom.least (Nat.le_refl _)
    · exact attains_takeAt (attains_eventBehind _ nextFrom)
    · exact attains_leftAt (attains_expect _ (attains_none nextFrom.least))

theorem attains_flowPairKey :
    Attains (FaultIsIn source) (Left source n) flowPairKey (Reached source n) := by
  refine attains_take fun token isFrom => attains_lexeme fun _ => .ite (fun _ => ?_) fun _ => ?_
  · exact attains_eventStop _ isFrom
  · exact attains_expect _ (attains_none (Nat.le_trans isFrom.least isFrom.length))

theorem attains_flowKey (since : Position) (first : Bool) :
    Attains (FaultIsIn source) (Left source n) (flowKey since first) (Reached source n) := by
  refine attains_peek fun token isFrom => .ite (fun _ => ?_) fun _ => ?_
  · exact attains_takeAt (attains_eventBehind _ isFrom)
  · refine attains_leftAt (attains_left isFrom.least ?_)
    refine .bind (attains_separator _ _ _ _) fun _ => attains_peek fun next nextFrom => ?_
    refine .ite (fun _ => ?_) fun _ => .ite (fun _ => ?_) fun _ => ?_
    · exact attains_takeAt (attains_expect _ (attains_nodeUnless _ _ _ nextFrom))
    · exact attains_takeAt (attains_eventBehind _ nextFrom)
    · exact attains_leftAt (attains_expect _ (attains_none nextFrom.least))

theorem attains_pursue (goal : Goal) :
    Attains (FaultIsIn source) (Left source n) (pursue goal) (Reached source n) := by
  have here (occurrence : Occurrence) : Attains (FaultIsIn source) (Left source n)
      (peekToken >>= fun token => event occurrence token.start) (Reached source n) :=
    attains_peek fun token isFrom => attains_eventAt occurrence isFrom
  cases goal with
  | streamStart =>
    refine attains_take fun token isFrom => attains_expect _ (attains_none ?_)
    exact Nat.le_trans isFrom.least isFrom.length
  | firstDocument => exact attains_firstDocument
  | document => exact attains_document
  | documentContent => exact attains_documentContent
  | documentEnd => exact attains_documentEnd
  | node block indentless => exact attains_node block indentless
  | blockSequence since => exact attains_blockSequence since
  | indentlessSequence => exact attains_indentlessSequence
  | blockKey since => exact attains_blockKey since
  | blockValue => exact attains_valueOr _ _
  | flowSequence since first => exact attains_flowSequence since first
  | flowPairKey => exact attains_flowPairKey
  | flowPairValue => exact attains_valueOr _ _
  | flowPairEnd => exact here _
  | flowKey since first => exact attains_flowKey since first
  | flowValue => exact attains_valueOr _ _
  | flowEmptyValue => exact here _

end Parse

variable (source)

/-- Events start in the source, each no earlier than the one before. -/
structure Ascends (n : Nat) (events : List Event) : Prop where
  ascend : events.Pairwise fun earlier later => earlier.start.index ≤ later.start.index
  isIn : ∀ event ∈ events, event.start.IsIn source ∧ n ≤ event.start.index

variable {source}

theorem Ascends.nil : Ascends source n [] := ⟨.nil, by simp⟩

theorem Ascends.cons {event : Event} {later : List Event} (isIn : event.start.IsIn source)
    (least : n ≤ event.start.index) (ascends : Ascends source event.start.index later) :
    Ascends source n (event :: later) where
  ascend := .cons (fun other member => (ascends.isIn other member).2) ascends.ascend
  isIn := by
    rw [List.forall_mem_cons]
    refine ⟨⟨isIn, least⟩, fun other member => ?_⟩
    exact ⟨(ascends.isIn other member).1, Nat.le_trans least (ascends.isIn other member).2⟩

theorem Grammar.run_ascends (starved : Option Stop)
    (starvedIn : ∀ stop, starved = some stop → stop.IsIn source) (fuel : Nat) (g : Grammar)
    (left : Left source n g) :
    Ascends source n (g.run starved fuel).items ∧
      ∀ stop, (g.run starved fuel).stop = some stop → stop.IsIn source := by
  induction fuel generalizing n g with
  | zero => exact ⟨.nil, starvedIn⟩
  | succ fuel ih =>
    rw [Grammar.run]
    split
    · exact ⟨.nil, by simp⟩
    · next goal goals _ =>
      have pursued := Parse.attains_pursue goal { g with goals := goals } left
      split
      · exact ⟨.nil, starvedIn⟩
      · next fault ran =>
        rw [ran] at pursued
        refine ⟨.nil, fun stop same => ?_⟩
        cases same
        exact pursued
      · next later ran =>
        rw [ran] at pursued
        exact ih later pursued
      · next event later ran =>
        rw [ran] at pursued
        obtain ⟨isIn, least, rest⟩ := pursued
        obtain ⟨ascends, stopIn⟩ := ih later rest
        exact ⟨.cons isIn least ascends, stopIn⟩

theorem eventsOf_ascends (source : List Char) :
    Ascends source 0 (eventsOf (tokensOf source)).items ∧
      ∀ stop, (eventsOf (tokensOf source)).stop = some stop → stop.IsIn source := by
  obtain ⟨ordered, stopIn⟩ := tokensOf_inOrder source
  exact Grammar.run_ascends _ stopIn _ _ ordered

end LocaleLint.Yaml
