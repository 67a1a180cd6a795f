import LocaleLint.Yaml.Event.Basic
import LocaleLint.Yaml.Token.Stream

set_option autoImplicit false

namespace LocaleLint.Yaml

inductive Goal
  | streamStart
  | firstDocument
  | document
  | documentContent
  | documentEnd
  | node (block indentless : Bool)
  | blockSequence (since : Position)
  | indentlessSequence
  | blockKey (since : Position)
  | blockValue
  | flowSequence (since : Position) (first : Bool)
  | flowPairKey
  | flowPairValue
  | flowPairEnd
  | flowKey (since : Position) (first : Bool)
  | flowValue
  | flowEmptyValue
deriving Repr, DecidableEq, Inhabited

def standardHandles : List (String × String) := [("!", "!"), ("!!", "tag:yaml.org,2002:")]

structure Grammar where
  goals : List Goal
  tokens : List Token
  handles : List (String × String)
deriving Inhabited

abbrev Parse := StateT Grammar (Except (Option Fault))

namespace Parse

def peekToken : Parse Token := do
  match (← get).tokens with
  | token :: _ => return token
  | [] => throw none

def peekLexeme : Parse Lexeme := return (← peekToken).lexeme

def takeToken : Parse Token := do
  let token ← peekToken
  modify fun g => { g with tokens := g.tokens.tail }
  return token

def expect (goals : List Goal) : Parse Unit := modify fun g => { g with goals := goals ++ g.goals }

def fail {α : Type} (activity : Activity) (since : Position) (cause : Cause) (place : Position) :
    Parse α :=
  throw (some ⟨some activity, some since, cause, place⟩)

def failAlone {α : Type} (cause : Cause) (place : Position) : Parse α :=
  throw (some ⟨none, none, cause, place⟩)

def demand (holds : Bool) (cause : Cause) (place : Position) : Parse Unit :=
  if holds then return () else failAlone cause place

def passIf (passed : Bool) : Parse Unit := do
  if passed then
    let _ ← takeToken

def event (occurrence : Occurrence) (start : Position) : Parse (Option Event) :=
  return some ⟨occurrence, start⟩

def emptyScalar (start : Position) : Parse (Option Event) :=
  event (.scalar none none true []) start

def isDirective : Lexeme → Bool
  | .version _ _ | .tagHandle _ _ | .otherDirective => true
  | _ => false

def firstDocument : Parse (Option Event) := do
  let token ← peekToken
  if isDirective token.lexeme || token.lexeme == .documentStart || token.lexeme == .streamEnd then
    expect [.document]
    return none
  else
    modify fun g => { g with handles := standardHandles }
    expect [.node true false, .documentEnd, .document]
    event .documentStart token.start

-- The handles that directives name; at most one version and one use of each handle.
def directives (handles : List (String × String)) (versionSeen : Bool) :
    Nat → Parse (List (String × String))
  | 0 => return handles
  | fuel + 1 => do
      let token ← peekToken
      match token.lexeme with
      | .version major _ =>
          let _ ← takeToken
          demand (!versionSeen) .secondVersion token.start
          demand (major == 1) .incompatibleVersion token.start
          directives handles true fuel
      | .tagHandle handle expansion =>
          let _ ← takeToken
          demand (!handles.any (·.1 == handle)) (.secondHandle handle) token.start
          directives ((handle, expansion) :: handles) versionSeen fuel
      | .otherDirective =>
          let _ ← takeToken
          directives handles versionSeen fuel
      | _ => return handles

def skipDocumentEnds : Nat → Parse Unit
  | 0 => return ()
  | fuel + 1 => do
      if (← peekLexeme) == .documentEnd then
        let _ ← takeToken
        skipDocumentEnds fuel

def document : Parse (Option Event) := do
  skipDocumentEnds ((← get).tokens.length + 1)
  let token ← peekToken
  if token.lexeme == .streamEnd then
    let _ ← takeToken
    event .streamEnd token.start
  else
    let named ← directives [] false ((← get).tokens.length + 1)
    modify fun g => { g with handles := named ++ standardHandles }
    let next ← peekToken
    demand (next.lexeme == .documentStart) (.documentStartExpected next.lexeme) next.start
    let _ ← takeToken
    expect [.documentContent, .documentEnd, .document]
    event .documentStart token.start

def documentContent : Parse (Option Event) := do
  let token ← peekToken
  let lexeme := token.lexeme
  if isDirective lexeme || lexeme == .documentStart || lexeme == .documentEnd ||
      lexeme == .streamEnd then
    emptyScalar token.start
  else
    expect [.node true false]
    return none

def documentEnd : Parse (Option Event) := do
  let token ← peekToken
  passIf (token.lexeme == .documentEnd)
  event .documentEnd token.start

structure Properties where
  anchor : Option String
  tag : Option (Option String × String)
  start : Option Position
  tagPlace : Option Position

def properties : Parse Properties := do
  let first ← peekToken
  match first.lexeme with
  | .anchor name =>
      let _ ← takeToken
      let second ← peekToken
      match second.lexeme with
      | .tag handle suffix =>
          let _ ← takeToken
          return ⟨some name, some (handle, suffix), some first.start, some second.start⟩
      | _ => return ⟨some name, none, some first.start, none⟩
  | .tag handle suffix =>
      let _ ← takeToken
      match (← peekToken).lexeme with
      | .anchor name =>
          let _ ← takeToken
          return ⟨some name, some (handle, suffix), some first.start, some first.start⟩
      | _ => return ⟨none, some (handle, suffix), some first.start, some first.start⟩
  | _ => return ⟨none, none, none, none⟩

def expandTag (p : Properties) (start : Position) : Parse (Option String) := do
  match p.tag with
  | none => return none
  | some (none, suffix) => return some suffix
  | some (some handle, suffix) =>
      match (← get).handles.find? (·.1 == handle) with
      | some (_, expansion) => return some (expansion ++ suffix)
      | none => fail .node start (.undefinedHandle handle) (p.tagPlace.getD start)

def namedTag (tag : Option String) : Option String := tag.filter (· != "!")

/-- A collection that a token opens: what is to be read inside, how it starts, and whether the token
belongs to it. -/
structure Opening where
  inside : Goal
  starts : Option String → Option String → Occurrence
  holdsToken : Bool

def opening? (lexeme : Lexeme) (block indentless : Bool) (since : Position) : Option Opening :=
  match lexeme, block, indentless with
  | .blockEntry, _, true => some ⟨.indentlessSequence, .sequenceStart, false⟩
  | .flowSequenceStart, _, _ => some ⟨.flowSequence since true, .sequenceStart, true⟩
  | .flowMappingStart, _, _ => some ⟨.flowKey since true, .mappingStart, true⟩
  | .blockSequenceStart, true, _ => some ⟨.blockSequence since, .sequenceStart, true⟩
  | .blockMappingStart, true, _ => some ⟨.blockKey since, .mappingStart, true⟩
  | _, _, _ => none

def collection (block indentless : Bool) (p : Properties) (tag : Option String) (start : Position)
    (token : Token) : Parse (Option Event) :=
  match opening? token.lexeme block indentless token.start with
  | some opening => do
      passIf opening.holdsToken
      expect [opening.inside]
      event (opening.starts p.anchor (namedTag tag)) start
  | none =>
      if p.anchor.isSome || tag.isSome then event (.scalar p.anchor (namedTag tag) true []) start
      else
        fail (if block then .blockNode else .flowNode) start (.nodeExpected token.lexeme)
          token.start

def ownNode (block indentless : Bool) : Parse (Option Event) := do
  let first ← peekToken
  let p ← properties
  let tag ← expandTag p (p.start.getD first.start)
  let token ← peekToken
  let start := p.start.getD token.start
  match token.lexeme with
  | .scalar text plain =>
      let _ ← takeToken
      event (.scalar p.anchor (namedTag tag) (plain || tag == some "!") text) start
  | _ => collection block indentless p tag start token

def node (block indentless : Bool) : Parse (Option Event) := do
  let first ← peekToken
  match first.lexeme with
  | .alias name =>
      let _ ← takeToken
      event (.alias name) first.start
  | _ => ownNode block indentless

def nodeUnless (closing : List Lexeme) (child next : Goal) (indicator : Token) :
    Parse (Option Event) := do
  if closing.contains (← peekLexeme) then
    expect [next]
    emptyScalar indicator.stop
  else
    expect [child, next]
    return none

def blockSequence (since : Position) : Parse (Option Event) := do
  let token ← takeToken
  if token.lexeme == .blockEntry then
    nodeUnless [.blockEntry, .blockEnd] (.node true false) (.blockSequence since) token
  else if token.lexeme == .blockEnd then event .sequenceEnd token.start
  else fail .blockCollection since (.blockEndExpected token.lexeme) token.start

def indentlessSequence : Parse (Option Event) := do
  let token ← peekToken
  if token.lexeme == .blockEntry then
    let _ ← takeToken
    nodeUnless [.blockEntry, .key, .value, .blockEnd] (.node true false) .indentlessSequence token
  else event .sequenceEnd token.start

def blockKey (since : Position) : Parse (Option Event) := do
  let token ← takeToken
  if token.lexeme == .key then
    expect [.blockKey since]
    nodeUnless [.key, .value, .blockEnd] (.node true true) .blockValue token
  else if token.lexeme == .blockEnd then event .mappingEnd token.start
  else fail .blockMapping since (.blockEndExpected token.lexeme) token.start

def valueOr (closing : List Lexeme) (child : Goal) : Parse (Option Event) := do
  let token ← peekToken
  if token.lexeme == .value then
    let _ ← takeToken
    if closing.contains (← peekLexeme) then emptyScalar token.stop
    else
      expect [child]
      return none
  else emptyScalar token.start

def separator (first : Bool) (activity : Activity) (since : Position) (expected : Lexeme → Cause) :
    Parse Unit := do
  if first then return ()
  else
    let token ← takeToken
    if token.lexeme == .flowEntry then return ()
    else fail activity since (expected token.lexeme) token.start

def flowSequence (since : Position) (first : Bool) : Parse (Option Event) := do
  let token ← peekToken
  if token.lexeme == .flowSequenceEnd then
    let _ ← takeToken
    event .sequenceEnd token.start
  else
    separator first .flowSequence since .sequenceNextExpected
    let next ← peekToken
    if next.lexeme == .key then
      expect [.flowPairKey, .flowPairValue, .flowPairEnd, .flowSequence since false]
      event (.mappingStart none none) next.start
    else if next.lexeme == .flowSequenceEnd then
      let _ ← takeToken
      event .sequenceEnd next.start
    else
      expect [.node false false, .flowSequence since false]
      return none

def flowPairKey : Parse (Option Event) := do
  let token ← takeToken
  if [Lexeme.value, .flowEntry, .flowSequenceEnd].contains (← peekLexeme) then
    emptyScalar token.stop
  else
    expect [.node false false]
    return none

def flowKey (since : Position) (first : Bool) : Parse (Option Event) := do
  let token ← peekToken
  if token.lexeme == .flowMappingEnd then
    let _ ← takeToken
    event .mappingEnd token.start
  else
    separator first .flowMapping since .mappingNextExpected
    let next ← peekToken
    if next.lexeme == .key then
      let _ ← takeToken
      expect [.flowKey since false]
      nodeUnless [.value, .flowEntry, .flowMappingEnd] (.node false false) .flowValue next
    else if next.lexeme == .flowMappingEnd then
      let _ ← takeToken
      event .mappingEnd next.start
    else
      expect [.node false false, .flowEmptyValue, .flowKey since false]
      return none

def pursue : Goal → Parse (Option Event)
  | .streamStart => do
      let _ ← takeToken
      expect [.firstDocument]
      return none
  | .firstDocument => firstDocument
  | .document => document
  | .documentContent => documentContent
  | .documentEnd => documentEnd
  | .node block indentless => node block indentless
  | .blockSequence since => blockSequence since
  | .indentlessSequence => indentlessSequence
  | .blockKey since => blockKey since
  | .blockValue => valueOr [.key, .value, .blockEnd] (.node true true)
  | .flowSequence since first => flowSequence since first
  | .flowPairKey => flowPairKey
  | .flowPairValue => valueOr [.flowEntry, .flowSequenceEnd] (.node false false)
  | .flowPairEnd => do event .mappingEnd (← peekToken).start
  | .flowKey since first => flowKey since first
  | .flowValue => valueOr [.flowEntry, .flowMappingEnd] (.node false false)
  | .flowEmptyValue => do emptyScalar (← peekToken).start

end Parse

def Grammar.run (starved : Option Stop) : Nat → Grammar → Delivery Event Stop
  | 0, _ => ⟨[], starved⟩
  | fuel + 1, g =>
      match g.goals with
      | [] => ⟨[], none⟩
      | goal :: goals =>
          match (Parse.pursue goal).run { g with goals := goals } with
          | .error none => ⟨[], starved⟩
          | .error (some fault) => ⟨[], some (.fault fault)⟩
          | .ok (none, g) => g.run starved fuel
          | .ok (some event, g) =>
              let later := g.run starved fuel
              ⟨event :: later.items, later.stop⟩

-- Between two tokens taken there are at most a handful of steps that take none.
def eventsOf (tokens : Delivery Token Stop) : Delivery Event Stop :=
  Grammar.run tokens.stop (8 * tokens.items.length + 8) ⟨[.streamStart], tokens.items, []⟩

end LocaleLint.Yaml
