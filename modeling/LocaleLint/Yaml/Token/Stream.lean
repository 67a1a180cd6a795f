import LocaleLint.Yaml.Token.Plain
import LocaleLint.Yaml.Token.Block

set_option autoImplicit false

namespace LocaleLint.Yaml

open LocaleLint.Text

structure KeyCandidate where
  number : Nat
  required : Bool
  place : Position
deriving Repr, DecidableEq, Inhabited

structure Lexer where
  cursor : Cursor
  -- Tokens so far, the last one first.
  tokens : List Token
  count : Nat
  -- The candidate of the innermost bracket, and those of the brackets around it.
  candidate : Option KeyCandidate
  outerCandidates : List (Option KeyCandidate)
  -- The column of the innermost block collection, -1 outside all, and those around it.
  indent : Int
  outerIndents : List Int
  keyAllowed : Bool
  ended : Bool
deriving Inhabited

abbrev Lex := StateT Lexer (Except Stop)

namespace Lexer

def start (source : List Char) : Lexer :=
  let cursor := (Cursor.ofText source).passMark
  ⟨cursor, [⟨.streamStart, cursor.place, cursor.place⟩], 1, none, [], -1, [], true, false⟩

def inFlow (lexer : Lexer) : Bool := !lexer.outerCandidates.isEmpty

def push (lexer : Lexer) (token : Token) : Lexer :=
  { lexer with tokens := token :: lexer.tokens, count := lexer.count + 1 }

def pushHere (lexer : Lexer) (lexeme : Lexeme) : Lexer :=
  lexer.push ⟨lexeme, lexer.cursor.place, lexer.cursor.place⟩

def insert (lexer : Lexer) (number : Nat) (token : Token) : Lexer :=
  let later := lexer.count - number
  { lexer with
    tokens := lexer.tokens.take later ++ token :: lexer.tokens.drop later
    count := lexer.count + 1 }

def candidates (lexer : Lexer) : List KeyCandidate :=
  lexer.candidate.toList ++ lexer.outerCandidates.filterMap id

def deliverable (lexer : Lexer) : Nat :=
  lexer.candidates.foldl (fun least candidate => min least candidate.number) lexer.count

def isStale (lexer : Lexer) (candidate : KeyCandidate) : Bool :=
  candidate.place.line != lexer.cursor.place.line ||
    decide (1024 < lexer.cursor.place.index - candidate.place.index)

def addIndent (lexer : Lexer) (column : Nat) : Option Lexer :=
  if lexer.indent < column then
    some { lexer with indent := column, outerIndents := lexer.indent :: lexer.outerIndents }
  else none

def insertKey (lexer : Lexer) (candidate : KeyCandidate) : Lexer :=
  let keyed := lexer.insert candidate.number ⟨.key, candidate.place, candidate.place⟩
  if keyed.inFlow then keyed
  else
    match keyed.addIndent candidate.place.column with
    | some indented =>
        indented.insert candidate.number ⟨.blockMappingStart, candidate.place, candidate.place⟩
    | none => keyed

end Lexer

namespace Lex

def scan {α : Type} (read : Scan α) : Lex α := do
  let lexer ← get
  let (result, cursor) ← read.run lexer.cursor
  set { lexer with cursor := cursor }
  return result

def failAlone {α : Type} (cause : Cause) : Lex α := do
  throw (.fault ⟨none, none, cause, (← get).cursor.place⟩)

def demand (holds : Bool) (cause : Cause) : Lex Unit :=
  if holds then return () else failAlone cause

def failKey {α : Type} (candidate : KeyCandidate) : Lex α := do
  throw (.fault ⟨some .simpleKey, some candidate.place, .colonExpected, (← get).cursor.place⟩)

def dropStale (candidate : Option KeyCandidate) : Lex (Option KeyCandidate) := do
  match candidate with
  | none => return none
  | some candidate =>
      if (← get).isStale candidate then
        if candidate.required then failKey candidate else return none
      else return some candidate

def dropStaleCandidates : Lex Unit := do
  let outer ← (← get).outerCandidates.mapM dropStale
  let candidate ← dropStale (← get).candidate
  modify fun lexer => { lexer with candidate := candidate, outerCandidates := outer }

def dropCandidate : Lex Unit := do
  match (← get).candidate with
  | some candidate =>
      if candidate.required then failKey candidate
      else modify fun lexer => { lexer with candidate := none }
  | none => return ()

def saveCandidate : Lex Unit := do
  let lexer ← get
  if lexer.keyAllowed then
    let required := !lexer.inFlow && lexer.indent == lexer.cursor.place.column
    dropCandidate
    modify fun lexer =>
      { lexer with candidate := some ⟨lexer.count, required, lexer.cursor.place⟩ }

def allowKey (allowed : Bool) : Lex Unit := modify fun lexer => { lexer with keyAllowed := allowed }

def unwindLoop (column : Int) : List Int → Lexer → Lexer
  | outer, lexer =>
    if column < lexer.indent then
      match outer with
      | [] => { lexer with indent := -1, outerIndents := [] }
      | indent :: outer =>
          unwindLoop column outer
            { (lexer.pushHere .blockEnd) with indent := indent, outerIndents := outer }
    else lexer

def unwindIndent (column : Int) : Lex Unit :=
  modify fun lexer =>
    if lexer.inFlow then lexer else unwindLoop column lexer.outerIndents lexer

def allowKeyInBlock : Lex Unit :=
  modify fun lexer => { lexer with keyAllowed := lexer.keyAllowed || !lexer.inFlow }

def betweenTokens : Nat → Lex Unit
  | 0 => return ()
  | fuel + 1 => do
      scan (Scan.skipWhile (· == ' '))
      scan Scan.skipComment
      if (← scan Scan.lineBreak).isSome then
        allowKeyInBlock
        betweenTokens fuel

def toNextToken : Lex Unit := do
  betweenTokens (← get).cursor.remaining

def pushRead (width : Nat) (lexeme : Lexeme) : Lex Unit := do
  let start := (← get).cursor.place
  scan (Scan.skip width)
  modify fun lexer => lexer.push ⟨lexeme, start, lexer.cursor.place⟩

def pushScanned (read : Scan Token) : Lex Unit := do
  let token ← scan read
  modify fun lexer => lexer.push token

def readStreamEnd : Lex Unit := do
  unwindIndent (-1)
  dropCandidate
  modify fun lexer =>
    { (lexer.pushHere .streamEnd) with
      keyAllowed := false, candidate := none, outerCandidates := [], ended := true }

def readDirective : Lex Unit := do
  unwindIndent (-1)
  dropCandidate
  allowKey false
  pushScanned Scan.directiveToken

def readDocumentMarker (lexeme : Lexeme) : Lex Unit := do
  unwindIndent (-1)
  dropCandidate
  allowKey false
  pushRead 3 lexeme

def readFlowStart (lexeme : Lexeme) : Lex Unit := do
  saveCandidate
  modify fun lexer =>
    { lexer with
      candidate := none, outerCandidates := lexer.candidate :: lexer.outerCandidates }
  allowKey true
  pushRead 1 lexeme

def readFlowEnd (lexeme : Lexeme) : Lex Unit := do
  dropCandidate
  modify fun lexer =>
    match lexer.outerCandidates with
    | [] => lexer
    | candidate :: outer => { lexer with candidate := candidate, outerCandidates := outer }
  allowKey false
  pushRead 1 lexeme

def readFlowEntry : Lex Unit := do
  allowKey true
  dropCandidate
  pushRead 1 .flowEntry

def openBlock (lexeme : Lexeme) : Lex Unit :=
  modify fun lexer =>
    match lexer.addIndent lexer.cursor.place.column with
    | some indented => indented.pushHere lexeme
    | none => lexer

def openUnlessInFlow (lexeme : Lexeme) (cause : Cause) : Lex Unit := do
  let lexer ← get
  if lexer.inFlow then return ()
  else
    demand lexer.keyAllowed cause
    openBlock lexeme

def readBlockEntry : Lex Unit := do
  openUnlessInFlow .blockSequenceStart .entryNotAllowed
  allowKey true
  dropCandidate
  pushRead 1 .blockEntry

def readKey : Lex Unit := do
  openUnlessInFlow .blockMappingStart .keyNotAllowed
  allowKey !(← get).inFlow
  dropCandidate
  pushRead 1 .key

def takeCandidate (candidate : KeyCandidate) : Lex Unit := do
  modify fun lexer => { lexer with candidate := none }.insertKey candidate
  allowKey false

def openValue : Lex Unit := do
  match (← get).candidate with
  | some candidate => takeCandidate candidate
  | none =>
      openUnlessInFlow .blockMappingStart .valueNotAllowed
      allowKey !(← get).inFlow

def readValue : Lex Unit := do
  openValue
  pushRead 1 .value

def readKeyStart (read : Scan Token) : Lex Unit := do
  saveCandidate
  allowKey false
  pushScanned read

def readBlockScalar (foldLines : Bool) : Lex Unit := do
  allowKey true
  dropCandidate
  pushScanned (Scan.blockToken foldLines (← get).indent)

def readPlain : Lex Unit := do
  saveCandidate
  let lexer ← get
  let (token, crossedLine) ← scan (Scan.plainToken lexer.inFlow lexer.indent)
  modify fun lexer => lexer.push token
  allowKey crossedLine

def isIndicator (c : Char) : Bool := "-?:,[]\x7b\x7d#&*!|>'\"%@`".toList.contains c

def startsPlain (inFlow : Bool) (cursor : Cursor) : Bool :=
  let c := cursor.peek
  !(isBlankOrBreak c || isIndicator c) ||
    (!isBlankOrBreak (cursor.peekAt 1) && (c == '-' || (!inFlow && (c == '?' || c == ':'))))

def readToken : Lex Unit := do
  let lexer ← get
  let cursor := lexer.cursor
  let c := cursor.peek
  let separated := isBlankOrBreak (cursor.peekAt 1)
  let atLineStart := cursor.place.column == 0
  if c == '\x00' then readStreamEnd
  else if c == '%' && atLineStart then readDirective
  else if atLineStart && Scan.atMarker '-' cursor then readDocumentMarker .documentStart
  else if atLineStart && Scan.atMarker '.' cursor then readDocumentMarker .documentEnd
  else if c == '[' then readFlowStart .flowSequenceStart
  else if c == '\x7b' then readFlowStart .flowMappingStart
  else if c == ']' then readFlowEnd .flowSequenceEnd
  else if c == '\x7d' then readFlowEnd .flowMappingEnd
  else if c == ',' then readFlowEntry
  else if c == '-' && separated then readBlockEntry
  else if c == '?' && (lexer.inFlow || separated) then readKey
  else if c == ':' && (lexer.inFlow || separated) then readValue
  else if c == '*' then readKeyStart (Scan.nameToken .alias .alias)
  else if c == '&' then readKeyStart (Scan.nameToken .anchor .anchor)
  else if c == '!' then readKeyStart Scan.tagToken
  else if c == '|' && !lexer.inFlow then readBlockScalar false
  else if c == '>' && !lexer.inFlow then readBlockScalar true
  else if c == '\'' then readKeyStart (Scan.quotedToken false)
  else if c == '"' then readKeyStart (Scan.quotedToken true)
  else if startsPlain lexer.inFlow cursor then readPlain
  else throw (.fault ⟨some .token, none, .noTokenStart c, cursor.place⟩)

def step : Lex Unit := do
  toNextToken
  dropStaleCandidates
  unwindIndent (← get).cursor.place.column
  readToken
  if !(← get).ended then dropStaleCandidates

end Lex

def Lexer.run : Nat → Lexer → Delivery Token Stop
  | 0, lexer => ⟨lexer.tokens.reverse, none⟩
  | fuel + 1, lexer =>
      if lexer.ended then ⟨lexer.tokens.reverse, none⟩
      else
        match Lex.step.run lexer with
        | .ok (_, lexer) => lexer.run fuel
        | .error stop => ⟨lexer.tokens.reverse.take lexer.deliverable, some stop⟩

def tokensOf (source : List Char) : Delivery Token Stop :=
  (Lexer.start source).run ((Lexer.start source).cursor.remaining + 1)

end LocaleLint.Yaml
