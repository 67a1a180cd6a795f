import LocaleLint.Yaml.Event.Stream
import LocaleLint.Proofs.Yaml.LineEnds.Lexer

set_option autoImplicit false

namespace LocaleLint.Yaml

variable (shift : Nat → Nat)

def Event.moved (event : Event) : Event := ⟨event.occurrence, event.start.moved shift⟩

def Goal.moved : Goal → Goal
  | .blockSequence since => .blockSequence (since.moved shift)
  | .blockKey since => .blockKey (since.moved shift)
  | .flowSequence since first => .flowSequence (since.moved shift) first
  | .flowKey since first => .flowKey (since.moved shift) first
  | goal => goal

def Grammar.moved (g : Grammar) : Grammar :=
  { g with goals := g.goals.map (Goal.moved shift), tokens := g.tokens.map (Token.moved shift) }

namespace Parse

variable {α β : Type}

/-- The two steps are in step where the first one sees moved places. -/
def Alike (x y : Parse α) (same : α → α → Prop) : Prop :=
  InStep (Option.map Fault.told) (fun g h => g = h.moved shift) x y fun a b g h =>
    same a b ∧ g = h.moved shift

def Properties.moved (p : Properties) : Properties :=
  { p with
    start := p.start.map (Position.moved shift)
    tagPlace := p.tagPlace.map (Position.moved shift) }

def Opening.moved (opening : Opening) : Opening :=
  { opening with inside := opening.inside.moved shift }

namespace Alike

variable {shift} {x y x' y' : Parse α} {f g : α → Parse β} {same : α → α → Prop}
  {same' : β → β → Prop}

theorem pure (a b : α) (holds : same a b) : Alike shift (pure a) (pure b) same :=
  InStep.pure _ _ fun _ _ begins => ⟨holds, begins⟩

theorem bind (first : Alike shift x y same)
    (next : ∀ a b, same a b → Alike shift (f a) (g b) same') :
    Alike shift (x >>= f) (y >>= g) same' :=
  InStep.bind first fun a b g h reached => next a b reached.1 g h reached.2

theorem bind_eq (first : Alike shift x y Eq) (next : ∀ a, Alike shift (f a) (g a) same') :
    Alike shift (x >>= f) (y >>= g) same' := by
  refine .bind first fun a b equal => ?_
  rw [equal]
  exact next b

theorem ite {p : Prop} [Decidable p] (holds : p → Alike shift x y same)
    (fails : ¬ p → Alike shift x' y' same) :
    Alike shift (if p then x else x') (if p then y else y') same :=
  rel_ite (Alike shift · · same) holds fails

theorem get_bind {f f' : Grammar → Parse β}
    (next : ∀ g : Grammar, Alike shift (f (g.moved shift)) (f' g) same') :
    Alike shift (get >>= f) (get >>= f') same' := by
  rintro g h rfl
  exact next h _ h rfl

theorem modify (change other : Grammar → Grammar)
    (keeps : ∀ g : Grammar, change (g.moved shift) = (other g).moved shift) :
    Alike shift (modify change) (modify other) Eq := by
  rintro g h rfl
  exact .ok ⟨rfl, keeps h⟩

theorem fail (activity : Activity) (since : Position) (cause : Cause) (place : Position) :
    Alike shift (Parse.fail activity (since.moved shift) cause (place.moved shift))
      (Parse.fail activity since cause place) same :=
  InStep.throw _ _ rfl

theorem failAlone (cause : Cause) (place : Position) :
    Alike shift (Parse.failAlone cause (place.moved shift)) (Parse.failAlone cause place) same :=
  InStep.throw _ _ rfl

theorem demand (holds : Bool) (cause : Cause) (place : Position) :
    Alike shift (Parse.demand holds cause (place.moved shift))
      (Parse.demand holds cause place) Eq :=
  .ite (fun _ => .pure _ _ rfl) fun _ => .failAlone _ _

theorem event (occurrence : Occurrence) (start : Position) :
    Alike shift (Parse.event occurrence (start.moved shift)) (Parse.event occurrence start)
      fun a b =>
      a = b.map (Event.moved shift) :=
  .pure _ _ rfl

theorem emptyScalar (start : Position) :
    Alike shift (Parse.emptyScalar (start.moved shift)) (Parse.emptyScalar start) fun a b =>
      a = b.map (Event.moved shift) :=
  .event _ _

theorem peekToken_bind {f g : Token → Parse β}
    (next : ∀ token : Token, Alike shift (f (token.moved shift)) (g token) same') :
    Alike shift (peekToken >>= f) (peekToken >>= g) same' := by
  rintro g h rfl
  obtain ⟨goals, tokens, handles⟩ := h
  cases tokens with
  | nil => exact .error rfl
  | cons token rest => exact next token _ ⟨goals, token :: rest, handles⟩ rfl

theorem takeToken_bind {f g : Token → Parse β}
    (next : ∀ token : Token, Alike shift (f (token.moved shift)) (g token) same') :
    Alike shift (takeToken >>= f) (takeToken >>= g) same' := by
  rintro g h rfl
  obtain ⟨goals, tokens, handles⟩ := h
  cases tokens with
  | nil => exact .error rfl
  | cons token rest => exact next token _ ⟨goals, rest, handles⟩ rfl

theorem peekLexeme : Alike shift Parse.peekLexeme Parse.peekLexeme Eq :=
  .peekToken_bind fun _ => .pure _ _ rfl

theorem passIf (passed : Bool) : Alike shift (Parse.passIf passed) (Parse.passIf passed) Eq :=
  .ite (fun _ => .takeToken_bind fun _ => .pure _ _ rfl) fun _ => .pure _ _ rfl

theorem expect (goals : List Goal) :
    Alike shift (Parse.expect (goals.map (Goal.moved shift))) (Parse.expect goals) Eq := by
  refine .modify _ _ fun g => ?_
  simp [Grammar.moved]

end Alike

variable {shift}

theorem alike_firstDocument : Alike shift firstDocument firstDocument fun a b =>
    a = b.map (Event.moved shift) := by
  refine .peekToken_bind fun token => ?_
  refine .ite (fun _ => ?_) fun _ => ?_
  · exact .bind_eq (.expect [.document]) fun _ => .pure _ _ rfl
  · refine .bind_eq (.modify _ _ fun _ => rfl) fun _ => ?_
    refine .bind_eq (.expect [.node true false, .documentEnd, .document]) fun _ => ?_
    exact .event _ _

theorem alike_directives (handles : List (String × String)) (versionSeen : Bool) (fuel : Nat) :
    Alike shift (directives handles versionSeen fuel) (directives handles versionSeen fuel) Eq := by
  induction fuel generalizing handles versionSeen with
  | zero => exact .pure _ _ rfl
  | succ fuel ih =>
    refine .peekToken_bind fun token => ?_
    obtain ⟨lexeme, start, stop⟩ := token
    cases lexeme with
    | version major minor =>
      refine .takeToken_bind fun _ => ?_
      refine .bind_eq (.demand _ _ start) fun _ => ?_
      exact .bind_eq (.demand _ _ start) fun _ => ih _ _
    | tagHandle handle expansion =>
      refine .takeToken_bind fun _ => ?_
      exact .bind_eq (.demand _ _ start) fun _ => ih _ _
    | otherDirective => exact .takeToken_bind fun _ => ih _ _
    | _ => exact .pure _ _ rfl

theorem alike_skipDocumentEnds (fuel : Nat) :
    Alike shift (skipDocumentEnds fuel) (skipDocumentEnds fuel) Eq := by
  induction fuel with
  | zero => exact .pure _ _ rfl
  | succ fuel ih =>
    refine .bind_eq .peekLexeme fun lexeme => ?_
    exact .ite (fun _ => .takeToken_bind fun _ => ih) fun _ => .pure _ _ rfl

theorem alike_document :
    Alike shift document document fun a b => a = b.map (Event.moved shift) := by
  refine .get_bind fun g => ?_
  have count : (g.moved shift).tokens.length = g.tokens.length := List.length_map ..
  rw [count]
  refine .bind_eq (alike_skipDocumentEnds _) fun _ => ?_
  refine .peekToken_bind fun token => ?_
  refine .ite (fun _ => .takeToken_bind fun _ => .event _ _) fun _ => ?_
  refine .get_bind fun g => ?_
  have count : (g.moved shift).tokens.length = g.tokens.length := List.length_map ..
  rw [count]
  refine .bind_eq (alike_directives _ _ _) fun named => ?_
  refine .bind_eq (.modify _ _ fun _ => rfl) fun _ => ?_
  refine .peekToken_bind fun next => ?_
  refine .bind_eq (.demand _ _ _) fun _ => ?_
  refine .takeToken_bind fun _ => ?_
  refine .bind_eq (.expect [.documentContent, .documentEnd, .document]) fun _ => ?_
  exact .event _ _

theorem alike_documentContent : Alike shift documentContent documentContent fun a b =>
    a = b.map (Event.moved shift) := by
  refine .peekToken_bind fun token => ?_
  refine .ite (fun _ => .emptyScalar _) fun _ => ?_
  exact .bind_eq (.expect [.node true false]) fun _ => .pure _ _ rfl

theorem alike_documentEnd : Alike shift documentEnd documentEnd fun a b =>
    a = b.map (Event.moved shift) := by
  refine .peekToken_bind fun token => ?_
  exact .bind_eq (.passIf _) fun _ => .event _ _

theorem alike_properties : Alike shift properties properties fun p q => p = q.moved shift := by
  refine .peekToken_bind fun first => ?_
  obtain ⟨lexeme, start, stop⟩ := first
  cases lexeme with
  | anchor name =>
    refine .takeToken_bind fun _ => ?_
    refine .peekToken_bind fun second => ?_
    obtain ⟨lexeme, secondStart, secondStop⟩ := second
    cases lexeme with
    | tag handle suffix => exact .takeToken_bind fun _ => .pure _ _ rfl
    | _ => exact .pure _ _ rfl
  | tag handle suffix =>
    refine .takeToken_bind fun _ => ?_
    refine .peekToken_bind fun second => ?_
    obtain ⟨lexeme, secondStart, secondStop⟩ := second
    cases lexeme with
    | anchor name => exact .takeToken_bind fun _ => .pure _ _ rfl
    | _ => exact .pure _ _ rfl
  | _ => exact .pure _ _ rfl

theorem getD_moved (place : Option Position) (other : Position) :
    (place.map (Position.moved shift)).getD (other.moved shift) =
    (place.getD other).moved shift := by
  cases place <;> rfl

theorem alike_expandTag (p : Properties) (start : Position) :
    Alike shift (expandTag (p.moved shift) (start.moved shift)) (expandTag p start) Eq := by
  obtain ⟨anchor, tag, first, tagPlace⟩ := p
  match tag with
  | none => exact .pure _ _ rfl
  | some (none, suffix) => exact .pure _ _ rfl
  | some (some handle, suffix) =>
    refine .get_bind fun g => ?_
    have handles : (g.moved shift).handles = g.handles := rfl
    rw [handles]
    cases g.handles.find? (·.1 == handle) with
    | some entry => exact .pure _ _ rfl
    | none =>
      simp only [Properties.moved, getD_moved]
      exact .fail _ _ _ _

theorem opening?_moved (lexeme : Lexeme) (block indentless : Bool) (since : Position) :
    opening? lexeme block indentless (since.moved shift) =
      (opening? lexeme block indentless since).map (Opening.moved shift) := by
  cases lexeme <;> cases block <;> cases indentless <;> rfl

theorem alike_collection (block indentless : Bool) (p : Properties) (tag : Option String)
    (start : Position) (token : Token) :
    Alike shift
      (collection block indentless (p.moved shift) tag (start.moved shift) (token.moved shift))
      (collection block indentless p tag start token) fun a b => a = b.map (Event.moved shift) := by
  have opens : opening? (token.moved shift).lexeme block indentless (token.moved shift).start =
      (opening? token.lexeme block indentless token.start).map (Opening.moved shift) :=
    opening?_moved _ _ _ _
  rw [collection, collection, opens]
  cases opening? token.lexeme block indentless token.start with
  | some opening =>
    refine .bind_eq (.passIf _) fun _ => ?_
    exact .bind_eq (.expect [opening.inside]) fun _ => .event _ _
  | none => exact .ite (fun _ => .event _ _) fun _ => .fail _ _ _ _

theorem alike_ownNode (block indentless : Bool) :
    Alike shift (ownNode block indentless) (ownNode block indentless) fun a b =>
      a = b.map (Event.moved shift) := by
  refine .peekToken_bind fun first => ?_
  refine .bind alike_properties fun p q same => ?_
  have since (r : Token) :
    p.start.getD (r.moved shift).start = (q.start.getD r.start).moved shift := by
    rw [same]
    exact getD_moved q.start r.start
  rw [since first, same]
  refine .bind_eq (alike_expandTag q _) fun tag => ?_
  refine .peekToken_bind fun token => ?_
  rw [← same, since token, same]
  obtain ⟨lexeme, start, stop⟩ := token
  cases lexeme with
  | scalar text plain => exact .takeToken_bind fun _ => .event _ _
  | _ => exact alike_collection block indentless q tag _ _

theorem alike_node (block indentless : Bool) :
    Alike shift (node block indentless) (node block indentless) fun a b =>
      a = b.map (Event.moved shift) := by
  refine .peekToken_bind fun first => ?_
  obtain ⟨lexeme, start, stop⟩ := first
  cases lexeme with
  | «alias» name => exact .takeToken_bind fun _ => .event _ _
  | _ => exact alike_ownNode block indentless

theorem alike_nodeUnless (closing : List Lexeme) (child next : Goal) (indicator : Token) :
    Alike shift (nodeUnless closing (child.moved shift) (next.moved shift) (indicator.moved shift))
      (nodeUnless closing child next indicator) fun a b => a = b.map (Event.moved shift) := by
  refine .bind_eq .peekLexeme fun lexeme => ?_
  refine .ite (fun _ => ?_) fun _ => ?_
  · exact .bind_eq (.expect [next]) fun _ => .emptyScalar _
  · exact .bind_eq (.expect [child, next]) fun _ => .pure _ _ rfl

theorem alike_blockSequence (since : Position) :
    Alike shift (blockSequence (since.moved shift)) (blockSequence since) fun a b =>
      a = b.map (Event.moved shift) := by
  refine .takeToken_bind fun token => ?_
  refine .ite (fun _ => ?_) fun _ => ?_
  · exact alike_nodeUnless _ (.node true false) (.blockSequence since) token
  · exact .ite (fun _ => .event _ _) fun _ => .fail _ _ _ _

theorem alike_indentlessSequence : Alike shift indentlessSequence indentlessSequence fun a b =>
    a = b.map (Event.moved shift) := by
  refine .peekToken_bind fun token => ?_
  refine .ite (fun _ => .takeToken_bind fun _ => ?_) fun _ => .event _ _
  exact alike_nodeUnless _ (.node true false) .indentlessSequence token

theorem alike_blockKey (since : Position) :
    Alike shift (blockKey (since.moved shift)) (blockKey since) fun a b =>
      a = b.map (Event.moved shift) := by
  refine .takeToken_bind fun token => ?_
  refine .ite (fun _ => ?_) fun _ => ?_
  · refine .bind_eq (.expect [.blockKey since]) fun _ => ?_
    exact alike_nodeUnless _ (.node true true) .blockValue token
  · exact .ite (fun _ => .event _ _) fun _ => .fail _ _ _ _

theorem alike_valueOr (closing : List Lexeme) (child : Goal) :
    Alike shift (valueOr closing (child.moved shift)) (valueOr closing child) fun a b =>
      a = b.map (Event.moved shift) := by
  refine .peekToken_bind fun token => ?_
  refine .ite (fun _ => .takeToken_bind fun _ => ?_) fun _ => .emptyScalar _
  refine .bind_eq .peekLexeme fun lexeme => ?_
  refine .ite (fun _ => .emptyScalar _) fun _ => ?_
  exact .bind_eq (.expect [child]) fun _ => .pure _ _ rfl

theorem alike_separator (first : Bool) (activity : Activity) (since : Position)
    (expected : Lexeme → Cause) :
    Alike shift (separator first activity (since.moved shift) expected)
      (separator first activity since expected) Eq := by
  refine .ite (fun _ => .pure _ _ rfl) fun _ => ?_
  refine .takeToken_bind fun token => ?_
  exact .ite (fun _ => .pure _ _ rfl) fun _ => .fail _ _ _ _

theorem alike_flowSequence (since : Position) (first : Bool) :
    Alike shift (flowSequence (since.moved shift) first) (flowSequence since first) fun a b =>
      a = b.map (Event.moved shift) := by
  refine .peekToken_bind fun token => ?_
  refine .ite (fun _ => .takeToken_bind fun _ => .event _ _) fun _ => ?_
  refine .bind_eq (alike_separator _ _ _ _) fun _ => ?_
  refine .peekToken_bind fun next => ?_
  refine .ite (fun _ => ?_) fun _ => ?_
  · refine .bind_eq
      (.expect [.flowPairKey, .flowPairValue, .flowPairEnd, .flowSequence since false])
      fun _ => .event _ _
  refine .ite (fun _ => .takeToken_bind fun _ => .event _ _) fun _ => ?_
  exact .bind_eq (.expect [.node false false, .flowSequence since false]) fun _ => .pure _ _ rfl

theorem alike_flowPairKey : Alike shift flowPairKey flowPairKey fun a b =>
    a = b.map (Event.moved shift) := by
  refine .takeToken_bind fun token => ?_
  refine .bind_eq .peekLexeme fun lexeme => ?_
  refine .ite (fun _ => .emptyScalar _) fun _ => ?_
  exact .bind_eq (.expect [.node false false]) fun _ => .pure _ _ rfl

theorem alike_flowKey (since : Position) (first : Bool) :
    Alike shift (flowKey (since.moved shift) first) (flowKey since first) fun a b =>
      a = b.map (Event.moved shift) := by
  refine .peekToken_bind fun token => ?_
  refine .ite (fun _ => .takeToken_bind fun _ => .event _ _) fun _ => ?_
  refine .bind_eq (alike_separator _ _ _ _) fun _ => ?_
  refine .peekToken_bind fun next => ?_
  refine .ite (fun _ => .takeToken_bind fun _ => ?_) fun _ => ?_
  · refine .bind_eq (.expect [.flowKey since false]) fun _ => ?_
    exact alike_nodeUnless _ (.node false false) .flowValue next
  refine .ite (fun _ => .takeToken_bind fun _ => .event _ _) fun _ => ?_
  exact .bind_eq (.expect [.node false false, .flowEmptyValue, .flowKey since false]) fun _ =>
    .pure _ _ rfl

theorem alike_pursue (goal : Goal) :
    Alike shift (pursue (goal.moved shift)) (pursue goal) fun a b =>
      a = b.map (Event.moved shift) := by
  cases goal with
  | streamStart =>
    refine .takeToken_bind fun _ => ?_
    exact .bind_eq (.expect [.firstDocument]) fun _ => .pure _ _ rfl
  | firstDocument => exact alike_firstDocument
  | document => exact alike_document
  | documentContent => exact alike_documentContent
  | documentEnd => exact alike_documentEnd
  | node block indentless => exact alike_node block indentless
  | blockSequence since => exact alike_blockSequence since
  | indentlessSequence => exact alike_indentlessSequence
  | blockKey since => exact alike_blockKey since
  | blockValue => exact alike_valueOr _ (.node true true)
  | flowSequence since first => exact alike_flowSequence since first
  | flowPairKey => exact alike_flowPairKey
  | flowPairValue => exact alike_valueOr _ (.node false false)
  | flowPairEnd => exact .peekToken_bind fun _ => .event _ _
  | flowKey since first => exact alike_flowKey since first
  | flowValue => exact alike_valueOr _ (.node false false)
  | flowEmptyValue => exact .peekToken_bind fun _ => .emptyScalar _

end Parse

namespace Grammar

-- What is delivered from a pursuit on, by how it ended.
def resumed (starved : Option Stop) (resume : Grammar → Delivery Event Stop) :
    Except (Option Fault) (Option Event × Grammar) → Delivery Event Stop
  | .error none => ⟨[], starved⟩
  | .error (some fault) => ⟨[], some (.fault fault)⟩
  | .ok (none, g) => resume g
  | .ok (some event, g) => ⟨event :: (resume g).items, (resume g).stop⟩

theorem run_goal (starved : Option Stop) (fuel : Nat) (goal : Goal) (goals : List Goal)
    (tokens : List Token) (handles : List (String × String)) :
    run starved (fuel + 1) ⟨goal :: goals, tokens, handles⟩ =
      resumed starved (run starved fuel) ((Parse.pursue goal).run ⟨goals, tokens, handles⟩) := by
  rw [run]
  dsimp only
  generalize (Parse.pursue goal).run ⟨goals, tokens, handles⟩ = ended
  cases ended with
  | error halt => cases halt <;> rfl
  | ok found =>
    obtain ⟨event, later⟩ := found
    cases event <;> rfl

theorem resumed_moved {starved other : Option Stop} {resume again : Grammar → Delivery Event Stop}
    {ran went : Except (Option Fault) (Option Event × Grammar)}
    (alike : starved.map Stop.told = other.map Stop.told)
    (resumes : ∀ g, (resume (g.moved shift)).Moved (Event.moved shift) (again g))
    (steps : EndAlike (Option.map Fault.told)
      (fun a b => a.1 = b.1.map (Event.moved shift) ∧ a.2 = b.2.moved shift) ran went) :
    (resumed starved resume ran).Moved (Event.moved shift) (resumed other again went) := by
  cases steps with
  | @ok found later reached =>
    obtain ⟨found, after⟩ := found
    obtain ⟨event, later⟩ := later
    obtain ⟨rfl, rfl⟩ : found = event.map (Event.moved shift) ∧ after = later.moved shift := reached
    cases event with
    | none => exact resumes later
    | some event =>
      exact ⟨congrArg (event.moved shift :: ·) (resumes later).1, (resumes later).2⟩
  | @error stop halt told =>
    cases stop with
    | none =>
      cases halt with
      | none => exact ⟨rfl, alike⟩
      | some fault => cases told
    | some fault =>
      cases halt with
      | none => cases told
      | some halt => exact ⟨rfl, told⟩

theorem run_moved (starved other : Option Stop)
    (alike : starved.map Stop.told = other.map Stop.told) (fuel : Nat) (g : Grammar) :
    ((g.moved shift).run starved fuel).Moved (Event.moved shift) (g.run other fuel) := by
  -- By induction on the fuel: both sides pursue one goal after another in step.
  induction fuel generalizing g with
  | zero => exact ⟨rfl, alike⟩
  | succ fuel ih =>
    obtain ⟨goals, tokens, handles⟩ := g
    cases goals with
    | nil => exact ⟨rfl, rfl⟩
    | cons goal goals =>
      have movedRun : run starved (fuel + 1) (moved shift ⟨goal :: goals, tokens, handles⟩) =
          resumed starved (run starved fuel)
            ((Parse.pursue (goal.moved shift)).run (moved shift ⟨goals, tokens, handles⟩)) :=
        run_goal starved fuel (goal.moved shift) _ _ _
      rw [movedRun, run_goal]
      exact resumed_moved shift alike ih (Parse.alike_pursue goal _ _ rfl)

end Grammar

theorem eventsOf_moved (tokens other : Delivery Token Stop)
    (moved : tokens.Moved (Token.moved shift) other) :
    (eventsOf tokens).Moved (Event.moved shift) (eventsOf other) := by
  rw [eventsOf, eventsOf, moved.1, List.length_map]
  exact Grammar.run_moved shift _ _ moved.2 _ ⟨[.streamStart], other.items, []⟩

end LocaleLint.Yaml
