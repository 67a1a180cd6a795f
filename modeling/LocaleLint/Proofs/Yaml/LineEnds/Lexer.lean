import LocaleLint.Proofs.Yaml.Order.Lexer
import LocaleLint.Proofs.Yaml.LineEnds.Scan

set_option autoImplicit false

namespace LocaleLint.Yaml

open LocaleLint.Text

variable (shift : Nat → Nat)

def KeyCandidate.moved (candidate : KeyCandidate) : KeyCandidate :=
  { candidate with place := candidate.place.moved shift }

namespace Lexer

def movedTo (lexer : Lexer) (cursor : Cursor) : Lexer :=
  { lexer with
    cursor := cursor
    tokens := lexer.tokens.map (Token.moved shift)
    candidate := lexer.candidate.map (KeyCandidate.moved shift)
    outerCandidates := lexer.outerCandidates.map (Option.map (KeyCandidate.moved shift)) }

def Beside (lexer other : Lexer) : Prop :=
  lexer.cursor.Beside shift other.cursor ∧ lexer = other.movedTo shift lexer.cursor

variable {shift} (lexer : Lexer) (cursor : Cursor)

@[simp] theorem movedTo_cursor : (lexer.movedTo shift cursor).cursor = cursor := rfl

theorem movedTo_candidate :
    (lexer.movedTo shift cursor).candidate = lexer.candidate.map (KeyCandidate.moved shift) := rfl

@[simp] theorem movedTo_inFlow : (lexer.movedTo shift cursor).inFlow = lexer.inFlow := by
  simp [inFlow, movedTo]

@[simp] theorem movedTo_candidates :
    (lexer.movedTo shift cursor).candidates = lexer.candidates.map (KeyCandidate.moved shift) := by
  simp only [candidates, movedTo, List.map_append, Option.toList_map, List.filterMap_map,
    List.map_filterMap]
  rfl

theorem movedTo_deliverable : (lexer.movedTo shift cursor).deliverable = lexer.deliverable := by
  rw [deliverable, movedTo_candidates, List.foldl_map]
  rfl

theorem movedTo_push (token : Token) :
    (lexer.movedTo shift cursor).push (token.moved shift) =
    (lexer.push token).movedTo shift cursor :=
  rfl

theorem movedTo_insert (number : Nat) (token : Token) :
    (lexer.movedTo shift cursor).insert number (token.moved shift) =
      (lexer.insert number token).movedTo shift cursor := by
  simp [insert, movedTo]

theorem movedTo_pushHere (beside : cursor.Beside shift lexer.cursor) (lexeme : Lexeme) :
    (lexer.movedTo shift cursor).pushHere lexeme = (lexer.pushHere lexeme).movedTo
    shift cursor := by
  rw [pushHere, pushHere, ← movedTo_push]
  change push _ ⟨lexeme, cursor.place, cursor.place⟩ = _
  rw [beside.place]
  rfl

theorem movedTo_isStale (beside : cursor.Beside shift lexer.cursor) (candidate : KeyCandidate) :
    (lexer.movedTo shift cursor).isStale (candidate.moved shift) = lexer.isStale candidate := by
  change (candidate.place.line != cursor.place.line ||
    decide (1024 < cursor.place.index - (candidate.place.index + shift candidate.place.line))) = _
  rw [beside.place, isStale]
  -- On its own line a candidate moved as far as the cursor; on any other it is stale anyway.
  change (candidate.place.line != lexer.cursor.place.line || _) = _
  by_cases sameLine : candidate.place.line = lexer.cursor.place.line
  next =>
    rw [sameLine]
    simp only [Position.moved, Nat.add_sub_add_right]
  next =>
    have other : (candidate.place.line != lexer.cursor.place.line) = true := bne_iff_ne.mpr sameLine
    rw [other, Bool.true_or, Bool.true_or]

theorem movedTo_addIndent (column : Nat) :
    (lexer.movedTo shift cursor).addIndent column =
      (lexer.addIndent column).map (movedTo shift · cursor) := by
  simp only [addIndent]
  change (if lexer.indent < column then _ else _) = _
  split
  next => rfl
  next => rfl

theorem cursor_addIndent (column : Nat) (indented : Lexer)
    (deeper : lexer.addIndent column = some indented) : indented.cursor = lexer.cursor := by
  unfold addIndent at deeper
  split at deeper
  next =>
    cases deeper
    rfl
  next => cases deeper

theorem movedTo_insertKey (candidate : KeyCandidate) :
    (lexer.movedTo shift cursor).insertKey (candidate.moved shift) =
        (lexer.insertKey candidate).movedTo shift cursor ∧
      (lexer.insertKey candidate).cursor = lexer.cursor := by
  obtain ⟨keyed, inserted⟩ : ∃ keyed, keyed =
      lexer.insert candidate.number ⟨.key, candidate.place, candidate.place⟩ := ⟨_, rfl⟩
  have insertedMoved : (lexer.movedTo shift cursor).insert (candidate.moved shift).number
      ⟨.key, (candidate.moved shift).place, (candidate.moved shift).place⟩ =
        keyed.movedTo shift cursor := by
    rw [inserted]
    exact lexer.movedTo_insert cursor candidate.number ⟨.key, candidate.place, candidate.place⟩
  have stays : keyed.cursor = lexer.cursor := by
    rw [inserted]
    rfl
  have column : (candidate.moved shift).place.column = candidate.place.column := rfl
  simp only [insertKey, insertedMoved, ← inserted, movedTo_inFlow, movedTo_addIndent, column]
  split
  next => exact ⟨rfl, stays⟩
  next =>
    cases deeper : keyed.addIndent candidate.place.column with
    | none => exact ⟨rfl, stays⟩
    | some indented =>
      refine ⟨indented.movedTo_insert cursor candidate.number
        ⟨.blockMappingStart, candidate.place, candidate.place⟩, ?_⟩
      exact (keyed.cursor_addIndent _ indented deeper).trans stays

theorem movedTo_unwindLoop (beside : cursor.Beside shift lexer.cursor) (column : Int)
    (outer : List Int) :
    Lex.unwindLoop column outer (lexer.movedTo shift cursor) =
        (Lex.unwindLoop column outer lexer).movedTo shift cursor ∧
      (Lex.unwindLoop column outer lexer).cursor = lexer.cursor := by
  induction outer generalizing lexer with
  | nil =>
    rw [Lex.unwindLoop, Lex.unwindLoop]
    change (if column < lexer.indent then _ else _) = _ ∧ _
    split
    next => exact ⟨rfl, rfl⟩
    next => exact ⟨rfl, rfl⟩
  | cons indent outer ih =>
    rw [Lex.unwindLoop, Lex.unwindLoop]
    change (if column < lexer.indent then _ else _) = _ ∧ _
    split
    next =>
      rw [movedTo_pushHere lexer cursor beside]
      exact ih { lexer.pushHere .blockEnd with indent := indent, outerIndents := outer } beside
    next => exact ⟨rfl, rfl⟩

end Lexer

namespace Lex

variable {α β : Type}

-- The lexers are beside each other at the start and at the end, and of the cursor of the first
-- `before` holds at the start and `after` at the end.
def Alike (before : Cursor → Prop) (x y : Lex α) (same : α → α → Prop) (after : Cursor → Prop) :
    Prop :=
  InStep Stop.told (fun l m => l.Beside shift m ∧ before l.cursor) x y fun a b l m =>
    same a b ∧ l.Beside shift m ∧ after l.cursor

namespace Alike

variable {shift} {before middle after : Cursor → Prop} {x y x' y' : Lex α} {f g : α → Lex β}
  {same : α → α → Prop} {same' : β → β → Prop}

theorem pure (a b : α) (holds : same a b) : Alike shift before (pure a) (pure b) same before :=
  InStep.pure _ _ fun _ _ begins => ⟨holds, begins⟩

theorem bind (first : Alike shift before x y same middle)
    (next : ∀ a b, same a b → Alike shift middle (f a) (g b) same' after) :
    Alike shift before (x >>= f) (y >>= g) same' after :=
  InStep.bind first fun a b l m reached => next a b reached.1 l m reached.2

theorem bind_eq (first : Alike shift before x y Eq middle)
    (next : ∀ a, Alike shift middle (f a) (g a) same' after) :
    Alike shift before (x >>= f) (y >>= g) same' after := by
  refine .bind first fun a b equal => ?_
  rw [equal]
  exact next b

theorem to_anywhere (steps : Alike shift before x y same after) :
    Alike shift before x y same Anywhere :=
  InStep.weaken steps (fun _ _ begins => begins) fun _ _ _ _ reached =>
    ⟨reached.1, reached.2.1, trivial⟩

theorem ite {p : Prop} [Decidable p] (holds : p → Alike shift before x y same after)
    (fails : ¬ p → Alike shift before x' y' same after) :
    Alike shift before (if p then x else x') (if p then y else y') same after :=
  rel_ite (Alike shift before · · same after) holds fails

theorem get_bind {f g : Lexer → Lex β}
    (next : ∀ m c, c.Beside shift m.cursor →
      Alike shift before (f (m.movedTo shift c)) (g m) same' after) :
    Alike shift before (get >>= f) (get >>= g) same' after := by
  rintro l m ⟨⟨beside, moved⟩, here⟩
  have ends := next m l.cursor beside l m ⟨⟨beside, moved⟩, here⟩
  rw [← moved] at ends
  exact ends

theorem get_cursor_bind {f g : Lexer → Lex β}
    (next : ∀ m c, c.Beside shift m.cursor → before c →
      Alike shift (· = c) (f (m.movedTo shift c)) (g m) same' after) :
    Alike shift before (get >>= f) (get >>= g) same' after := by
  rintro l m ⟨⟨beside, moved⟩, here⟩
  have ends := next m l.cursor beside here l m ⟨⟨beside, moved⟩, rfl⟩
  rw [← moved] at ends
  exact ends

theorem modify (change other : Lexer → Lexer)
    (keeps : ∀ m c, c.Beside shift m.cursor →
      change (m.movedTo shift c) = (other m).movedTo shift c ∧ (other m).cursor = m.cursor) :
    Alike shift before (modify change) (modify other) Eq before := by
  rintro l m ⟨⟨beside, moved⟩, here⟩
  obtain ⟨changed, stays⟩ := keeps m l.cursor beside
  rw [← moved] at changed
  have cursor : (change l).cursor = l.cursor := by
    rw [changed]
    rfl
  refine .ok ⟨rfl, ⟨?_, ?_⟩, ?_⟩
  · rw [cursor, stays]
    exact beside
  · rw [cursor]
    exact changed
  · rwa [cursor]

theorem scan {read others : Scan α} (alike : Yaml.Alike shift before read others same) :
    Alike shift before (scan read) (scan others) same Anywhere := by
  rintro l m ⟨⟨beside, moved⟩, here⟩
  have reached := alike l.cursor m.cursor ⟨beside, here⟩
  rw [scan_run, scan_run]
  generalize read.run l.cursor = ran, others.run m.cursor = went at reached
  cases reached with
  | ok reached =>
    refine .ok ⟨reached.1, ⟨reached.2, ?_⟩, trivial⟩
    rw [moved]
    rfl
  | error alike => exact .error alike

theorem fail_here (activity : Option Activity) (since start : Option Position) (cause : Cause) :
    Alike shift before (get >>= fun l => throw (.fault ⟨activity, since, cause, l.cursor.place⟩))
      (get >>= fun m => throw (.fault ⟨activity, start, cause, m.cursor.place⟩)) same after :=
  .get_bind fun _ _ beside => InStep.throw _ _ (beside.told shift _ _ _ _ _ _)

theorem demand (holds : Bool) (cause : Cause) :
    Alike shift before (Lex.demand holds cause) (Lex.demand holds cause) Eq before :=
  .ite (fun _ => .pure _ _ rfl) fun _ => .fail_here _ _ _ _

end Alike

variable {shift} {before : Cursor → Prop}

theorem alike_dropStale (candidate : Option KeyCandidate) :
    Alike shift before (dropStale (candidate.map (KeyCandidate.moved shift))) (dropStale candidate)
      (fun a b => a = b.map (KeyCandidate.moved shift)) before := by
  cases candidate with
  | none => exact .pure _ _ rfl
  | some candidate =>
    refine .get_bind fun m c beside => ?_
    rw [m.movedTo_isStale c beside]
    refine .ite (fun _ => ?_) fun _ => .pure _ _ rfl
    exact .ite (fun _ => .fail_here _ _ _ _) fun _ => .pure _ _ rfl

theorem alike_dropStale_all (candidates : List (Option KeyCandidate)) :
    Alike shift before ((candidates.map (Option.map (KeyCandidate.moved shift))).mapM dropStale)
      (candidates.mapM dropStale)
      (fun as bs => as = bs.map (Option.map (KeyCandidate.moved shift))) before := by
  induction candidates with
  | nil => exact .pure _ _ rfl
  | cons candidate rest ih =>
    rw [List.map_cons, List.mapM_cons, List.mapM_cons]
    refine .bind (alike_dropStale candidate) fun first other same => ?_
    refine .bind ih fun later others alike => .pure _ _ ?_
    rw [same, alike, List.map_cons]

theorem alike_dropStaleCandidates :
    Alike shift before dropStaleCandidates dropStaleCandidates Eq before := by
  refine .get_bind fun m c beside => ?_
  refine .bind (alike_dropStale_all m.outerCandidates) fun outer others same => ?_
  refine .get_bind fun m c beside => ?_
  refine .bind (alike_dropStale m.candidate) fun candidate other alike => ?_
  refine .modify _ _ fun m c beside => ⟨?_, rfl⟩
  rw [same, alike]
  rfl

theorem alike_dropCandidate : Alike shift before dropCandidate dropCandidate Eq before := by
  refine .get_bind fun m c beside => ?_
  rw [m.movedTo_candidate c]
  cases m.candidate with
  | none => exact .pure _ _ rfl
  | some candidate =>
    refine .ite (fun _ => .fail_here _ _ _ _) fun _ => ?_
    exact .modify _ _ fun m c beside => ⟨rfl, rfl⟩

theorem alike_saveCandidate : Alike shift before saveCandidate saveCandidate Eq before := by
  refine .get_bind fun m c beside => ?_
  refine .ite (fun _ => ?_) fun _ => .pure _ _ rfl
  refine .bind_eq alike_dropCandidate fun _ => ?_
  refine .modify _ _ fun n d besideNow => ⟨?_, rfl⟩
  rw [m.movedTo_inFlow c]
  simp only [Lexer.movedTo, Option.map_some, KeyCandidate.moved, beside.column, besideNow.place]

theorem alike_allowKey (allowed : Bool) :
    Alike shift before (allowKey allowed) (allowKey allowed) Eq before :=
  .modify _ _ fun _ _ _ => ⟨rfl, rfl⟩

theorem alike_unwindIndent (column : Int) :
    Alike shift before (unwindIndent column) (unwindIndent column) Eq before := by
  refine .modify _ _ fun m c beside => ?_
  rw [m.movedTo_inFlow c]
  split
  next => exact ⟨rfl, rfl⟩
  next => exact m.movedTo_unwindLoop c beside column m.outerIndents

theorem alike_allowKeyInBlock :
    Alike shift before allowKeyInBlock allowKeyInBlock Eq before := by
  refine .modify _ _ fun m c beside => ⟨?_, rfl⟩
  rw [m.movedTo_inFlow c]
  rfl

theorem alike_betweenTokens (fuel : Nat) :
    Alike shift before (betweenTokens fuel) (betweenTokens fuel) Eq Anywhere := by
  induction fuel generalizing before with
  | zero => exact (Alike.pure _ _ rfl).to_anywhere
  | succ fuel ih =>
    refine .bind_eq (.scan (.skipWhile _ rfl rfl)) fun _ => ?_
    refine .bind_eq (.scan Scan.alike_skipComment) fun _ => ?_
    refine .bind_eq (.scan .lineBreak) fun found => ?_
    refine .ite (fun _ => ?_) fun _ => .pure _ _ rfl
    exact .bind_eq alike_allowKeyInBlock fun _ => ih

theorem alike_toNextToken : Alike shift before toNextToken toNextToken Eq Anywhere := by
  refine .get_bind fun m c beside => ?_
  change Alike shift before (betweenTokens c.remaining) _ _ _
  rw [beside.remaining]
  exact alike_betweenTokens _

theorem alike_pushRead (width : Nat) (lexeme : Lexeme)
    (alone : ∀ cursor, before cursor → ∀ i < width, cursor.peekAt i ≠ '\r') :
    Alike shift before (pushRead width lexeme) (pushRead width lexeme) Eq Anywhere := by
  refine .get_bind fun m c beside => ?_
  refine .bind_eq (.scan (.skip width alone)) fun _ => ?_
  refine .modify _ _ fun n d besideNow => ⟨?_, rfl⟩
  rw [← Lexer.movedTo_push]
  change (n.movedTo shift d).push ⟨lexeme, c.place, d.place⟩ = _
  rw [beside.place, besideNow.place]
  rfl

theorem alike_pushScanned (read : Scan Token)
    (alike : Yaml.Alike shift before read read fun t u => t = u.moved shift) :
    Alike shift before (pushScanned read) (pushScanned read) Eq Anywhere := by
  refine .bind (.scan alike) fun token other same => ?_
  refine .modify _ _ fun m c beside => ⟨?_, rfl⟩
  rw [same]
  rfl

theorem alike_readStreamEnd : Alike shift before readStreamEnd readStreamEnd Eq Anywhere := by
  refine .bind_eq (alike_unwindIndent _) fun _ => ?_
  refine .bind_eq alike_dropCandidate fun _ => ?_
  refine Alike.to_anywhere (.modify _ _ fun m c beside => ⟨?_, rfl⟩)
  rw [m.movedTo_pushHere c beside]
  rfl

theorem alike_readDirective (stands : ∀ cursor, before cursor → cursor.peek ≠ '\r') :
    Alike shift before readDirective readDirective Eq Anywhere := by
  refine .bind_eq (alike_unwindIndent _) fun _ => ?_
  refine .bind_eq alike_dropCandidate fun _ => ?_
  refine .bind_eq (alike_allowKey _) fun _ => ?_
  exact alike_pushScanned _ (Scan.alike_directiveToken stands)

theorem alike_readDocumentMarker (lexeme : Lexeme)
    (alone : ∀ cursor, before cursor → ∀ i < 3, cursor.peekAt i ≠ '\r') :
    Alike shift before (readDocumentMarker lexeme) (readDocumentMarker lexeme) Eq Anywhere := by
  refine .bind_eq (alike_unwindIndent _) fun _ => ?_
  refine .bind_eq alike_dropCandidate fun _ => ?_
  refine .bind_eq (alike_allowKey _) fun _ => ?_
  exact alike_pushRead 3 lexeme alone

section
variable (stands : ∀ cursor, before cursor → cursor.peek ≠ '\r')

include stands

theorem alike_pushRead_one (lexeme : Lexeme) :
    Alike shift before (pushRead 1 lexeme) (pushRead 1 lexeme) Eq Anywhere := by
  refine alike_pushRead 1 lexeme fun cursor here i within => ?_
  rw [Nat.lt_one_iff.mp within, Cursor.peekAt_zero]
  exact stands cursor here

theorem alike_readFlowStart (lexeme : Lexeme) :
    Alike shift before (readFlowStart lexeme) (readFlowStart lexeme) Eq Anywhere := by
  refine .bind_eq alike_saveCandidate fun _ => ?_
  refine .bind_eq (.modify _ _ fun m c beside => ⟨rfl, rfl⟩) fun _ => ?_
  refine .bind_eq (alike_allowKey _) fun _ => ?_
  exact alike_pushRead_one stands lexeme

theorem alike_readFlowEnd (lexeme : Lexeme) :
    Alike shift before (readFlowEnd lexeme) (readFlowEnd lexeme) Eq Anywhere := by
  refine .bind_eq alike_dropCandidate fun _ => ?_
  refine .bind_eq (.modify _ _ fun m c beside => ?_) fun _ => ?_
  · obtain ⟨cursor, tokens, count, candidate, outerCandidates, indent, outerIndents, keyAllowed,
      ended⟩ := m
    cases outerCandidates with
    | nil => exact ⟨rfl, rfl⟩
    | cons candidate outer => exact ⟨rfl, rfl⟩
  refine .bind_eq (alike_allowKey _) fun _ => ?_
  exact alike_pushRead_one stands lexeme

theorem alike_readFlowEntry : Alike shift before readFlowEntry readFlowEntry Eq Anywhere := by
  refine .bind_eq (alike_allowKey _) fun _ => ?_
  refine .bind_eq alike_dropCandidate fun _ => ?_
  exact alike_pushRead_one stands _

end

theorem alike_openBlock (lexeme : Lexeme) :
    Alike shift before (openBlock lexeme) (openBlock lexeme) Eq before := by
  refine .modify _ _ fun m c beside => ?_
  have column : (m.movedTo shift c).cursor.place.column = m.cursor.place.column := beside.column
  rw [column, m.movedTo_addIndent c]
  cases deeper : m.addIndent m.cursor.place.column with
  | none => exact ⟨rfl, rfl⟩
  | some indented =>
    have same := m.cursor_addIndent _ indented deeper
    rw [← same] at beside
    exact ⟨indented.movedTo_pushHere c beside lexeme, same⟩

theorem alike_openUnlessInFlow (lexeme : Lexeme) (cause : Cause) :
    Alike shift before (openUnlessInFlow lexeme cause) (openUnlessInFlow lexeme cause)
      Eq before := by
  refine .get_bind fun m c beside => ?_
  rw [m.movedTo_inFlow c]
  refine .ite (fun _ => .pure _ _ rfl) fun _ => ?_
  exact .bind_eq (.demand _ _) fun _ => alike_openBlock lexeme

theorem alike_takeCandidate (candidate : KeyCandidate) :
    Alike shift before (takeCandidate (candidate.moved shift)) (takeCandidate candidate)
      Eq before := by
  refine .bind_eq (.modify _ _ fun m c beside => ?_) fun _ => alike_allowKey _
  exact Lexer.movedTo_insertKey { m with candidate := none } c candidate

theorem alike_openValue : Alike shift before openValue openValue Eq before := by
  refine .get_bind fun m c beside => ?_
  rw [m.movedTo_candidate c]
  cases m.candidate with
  | some candidate => exact alike_takeCandidate candidate
  | none =>
    refine .bind_eq (alike_openUnlessInFlow _ _) fun _ => ?_
    refine .get_bind fun m c beside => ?_
    rw [m.movedTo_inFlow c]
    exact alike_allowKey _

section
variable (stands : ∀ cursor, before cursor → cursor.peek ≠ '\r')

include stands

theorem alike_readBlockEntry : Alike shift before readBlockEntry readBlockEntry Eq Anywhere := by
  refine .bind_eq (alike_openUnlessInFlow _ _) fun _ => ?_
  refine .bind_eq (alike_allowKey _) fun _ => ?_
  refine .bind_eq alike_dropCandidate fun _ => ?_
  exact alike_pushRead_one stands _

theorem alike_readKey : Alike shift before readKey readKey Eq Anywhere := by
  refine .bind_eq (alike_openUnlessInFlow _ _) fun _ => ?_
  refine .get_bind fun m c beside => ?_
  rw [m.movedTo_inFlow c]
  refine .bind_eq (alike_allowKey _) fun _ => ?_
  refine .bind_eq alike_dropCandidate fun _ => ?_
  exact alike_pushRead_one stands _

theorem alike_readValue : Alike shift before readValue readValue Eq Anywhere :=
  .bind_eq alike_openValue fun _ => alike_pushRead_one stands _

theorem alike_readBlockScalar (foldLines : Bool) :
    Alike shift before (readBlockScalar foldLines) (readBlockScalar foldLines) Eq Anywhere := by
  refine .bind_eq (alike_allowKey _) fun _ => ?_
  refine .bind_eq alike_dropCandidate fun _ => ?_
  refine .get_bind fun m c beside => ?_
  exact alike_pushScanned _ (Scan.alike_blockToken stands foldLines m.indent)

end

theorem alike_readKeyStart (read : Scan Token)
    (alike : Yaml.Alike shift before read read fun t u => t = u.moved shift) :
    Alike shift before (readKeyStart read) (readKeyStart read) Eq Anywhere := by
  refine .bind_eq alike_saveCandidate fun _ => ?_
  refine .bind_eq (alike_allowKey _) fun _ => ?_
  exact alike_pushScanned read alike

theorem alike_readPlain : Alike shift before readPlain readPlain Eq Anywhere := by
  refine .bind_eq alike_saveCandidate fun _ => ?_
  refine .get_bind fun m c beside => ?_
  rw [m.movedTo_inFlow c]
  refine .bind (.scan (Scan.alike_plainToken m.inFlow m.indent)) fun read other same => ?_
  rw [same]
  refine .bind_eq (.modify _ _ fun m c beside => ⟨rfl, rfl⟩) fun _ => ?_
  exact alike_allowKey _

theorem peek_of_atMarker (mark : Char) (cursor : Cursor)
    (marked : Scan.atMarker mark cursor = true) :
    cursor.peek = mark := by
  obtain ⟨text, p⟩ := cursor
  cases text with
  | nil => cases marked
  | cons c rest =>
    simp only [Scan.atMarker, Cursor.startsWith, List.isPrefixOf, Bool.and_eq_true,
      beq_iff_eq] at marked
    exact marked.1.1.symm

theorem alone_of_atMarker (mark : Char) (noReturn : mark ≠ '\r') (cursor : Cursor)
    (marked : Scan.atMarker mark cursor = true) : ∀ i < 3, cursor.peekAt i ≠ '\r' := by
  rw [Scan.atMarker, Bool.and_eq_true] at marked
  exact cursor.alone_of_prefix [mark, mark, mark] (List.isPrefixOf_iff_prefix.mp marked.1)
    (by simp [Ne.symm noReturn])

theorem startsPlain_beside (inFlow : Bool) (c d : Cursor) (beside : c.Beside shift d)
    (alone : c.peek ≠ '\r') (next : isBlankOrBreak (d.peekAt 1) = isBlankOrBreak (c.peekAt 1)) :
    startsPlain inFlow d = startsPlain inFlow c := by
  rw [startsPlain, startsPlain, next, beside.peek, asFeed_of_ne _ alone]

theorem alike_readToken_of (stands : ∀ cursor, before cursor → cursor.peek ≠ '\r') :
    Alike shift before readToken readToken Eq Anywhere := by
  refine .get_cursor_bind fun m c beside here => ?_
  have alone := stands c here
  have only : ∀ cursor, cursor = c → cursor.peek ≠ '\r' := by
    rintro cursor rfl
    exact alone
  have first : m.cursor.peek = c.peek := by rw [beside.peek, asFeed_of_ne _ alone]
  have second : isBlankOrBreak (m.cursor.peekAt 1) = isBlankOrBreak (c.peekAt 1) := by
    rw [beside.peekAt 1, asFeed_class isBlankOrBreak rfl]
    intro i within
    rw [Nat.lt_one_iff.mp within, Cursor.peekAt_zero]
    exact alone
  -- All tests read the same on both sides, so both take the same branch.
  simp only [Lexer.movedTo_cursor, Lexer.movedTo_inFlow, first, second, ← beside.column,
    Scan.atMarker_beside '-' (by decide) (by decide) c _ beside,
    Scan.atMarker_beside '.' (by decide) (by decide) c _ beside,
    startsPlain_beside m.inFlow c _ beside alone second]
  refine .ite (fun _ => alike_readStreamEnd) fun _ => ?_
  refine .ite (fun _ => alike_readDirective only) fun _ => ?_
  refine .ite (fun marked => ?_) fun _ => ?_
  · refine alike_readDocumentMarker _ ?_
    rintro cursor rfl
    exact alone_of_atMarker '-' (by decide) cursor (Bool.and_eq_true_iff.mp marked).2
  refine .ite (fun marked => ?_) fun _ => ?_
  · refine alike_readDocumentMarker _ ?_
    rintro cursor rfl
    exact alone_of_atMarker '.' (by decide) cursor (Bool.and_eq_true_iff.mp marked).2
  refine .ite (fun _ => alike_readFlowStart only _) fun _ => ?_
  refine .ite (fun _ => alike_readFlowStart only _) fun _ => ?_
  refine .ite (fun _ => alike_readFlowEnd only _) fun _ => ?_
  refine .ite (fun _ => alike_readFlowEnd only _) fun _ => ?_
  refine .ite (fun _ => alike_readFlowEntry only) fun _ => ?_
  refine .ite (fun _ => alike_readBlockEntry only) fun _ => ?_
  refine .ite (fun _ => alike_readKey only) fun _ => ?_
  refine .ite (fun _ => alike_readValue only) fun _ => ?_
  refine .ite (fun _ => alike_readKeyStart _ (Scan.alike_nameToken only _ _)) fun _ => ?_
  refine .ite (fun _ => alike_readKeyStart _ (Scan.alike_nameToken only _ _)) fun _ => ?_
  refine .ite (fun isTag => alike_readKeyStart _ (Scan.alike_tagToken ?_)) fun _ => ?_
  · rintro cursor rfl
    exact beq_iff_eq.mp isTag
  refine .ite (fun _ => alike_readBlockScalar only _) fun _ => ?_
  refine .ite (fun _ => alike_readBlockScalar only _) fun _ => ?_
  refine .ite (fun _ => alike_readKeyStart _ (Scan.alike_quotedToken only _)) fun _ => ?_
  refine .ite (fun _ => alike_readKeyStart _ (Scan.alike_quotedToken only _)) fun _ => ?_
  exact .ite (fun _ => alike_readPlain) fun _ => InStep.throw _ _ (beside.told shift _ _ _ _ _ _)

theorem readToken_of_break (lexer : Lexer) (isEnd : isBreak lexer.cursor.peek = true) :
    readToken.run lexer =
      .error (.fault ⟨some .token, none, .noTokenStart lexer.cursor.peek, lexer.cursor.place⟩) := by
  have other (c : Char) (inside : isBreak c = false) : lexer.cursor.peek ≠ c := by
    intro same
    rw [same, inside] at isEnd
    cases isEnd
  have unmarked (mark : Char) (inside : isBreak mark = false) :
      Scan.atMarker mark lexer.cursor = false :=
    eq_false_of_ne_true fun marked => other mark inside (peek_of_atMarker mark _ marked)
  have unplain : startsPlain lexer.inFlow lexer.cursor = false := by
    simp [startsPlain, isBlankOrBreak, isEnd, other '-' rfl, other '?' rfl, other ':' rfl]
  simp [readToken, unplain, other, unmarked, isBreak]
  rfl

theorem alike_readToken : Alike shift before readToken readToken Eq Anywhere := by
  rintro l m ⟨⟨beside, moved⟩, here⟩
  -- A return where a token should start is a feed on the other side, which starts none either.
  by_cases isReturn : l.cursor.peek = '\r'
  next =>
    have isEnd : isBreak l.cursor.peek = true := by
      rw [isReturn]
      rfl
    have isEndBeside : isBreak m.cursor.peek = true := by
      rw [beside.peek, asFeed_class isBreak rfl, isEnd]
    rw [readToken_of_break l isEnd, readToken_of_break m isEndBeside]
    exact .error (beside.told shift _ _ _ _ _ _)
  next =>
    have alike : Alike shift (fun cursor => cursor.peek ≠ '\r') readToken readToken Eq Anywhere :=
      alike_readToken_of fun _ stands => stands
    exact alike l m ⟨⟨beside, moved⟩, isReturn⟩

theorem alike_step : Alike shift before step step Eq Anywhere := by
  refine .bind_eq alike_toNextToken fun _ => ?_
  refine .bind_eq alike_dropStaleCandidates fun _ => ?_
  refine .get_bind fun m c beside => ?_
  change Alike shift Anywhere (unwindIndent c.place.column >>= _) _ _ _
  rw [beside.column]
  refine .bind_eq (alike_unwindIndent _) fun _ => ?_
  refine .bind_eq alike_readToken fun _ => ?_
  refine .get_bind fun m c beside => ?_
  exact .ite (fun _ => alike_dropStaleCandidates) fun _ => .pure _ _ rfl

end Lex

def Delivery.Moved {Item : Type} (move : Item → Item) (delivery other : Delivery Item Stop) :
    Prop :=
  delivery.items = other.items.map move ∧ delivery.stop.map Stop.told = other.stop.map Stop.told

theorem Lexer.run_beside (fuel : Nat) (lexer other : Lexer) (beside : lexer.Beside shift other) :
    (lexer.run fuel).Moved (Token.moved shift) (other.run fuel) := by
  induction fuel generalizing lexer other with
  | zero =>
    rw [beside.2]
    exact ⟨(List.map_reverse ..).symm, rfl⟩
  | succ fuel ih =>
    have ended : lexer.ended = other.ended := by
      rw [beside.2]
      rfl
    have alike : Lex.Alike shift Anywhere Lex.step Lex.step Eq Anywhere := Lex.alike_step
    have steps := alike lexer other ⟨beside, trivial⟩
    rw [Lexer.run, Lexer.run, ended]
    split
    next =>
      rw [beside.2]
      exact ⟨(List.map_reverse ..).symm, rfl⟩
    next =>
      generalize Lex.step.run lexer = ran, Lex.step.run other = went at steps
      cases steps with
      | ok reached => exact ih _ _ reached.2.1
      | error told =>
        refine ⟨?_, congrArg some told⟩
        rw [beside.2, Lexer.movedTo_deliverable]
        change (other.tokens.map (Token.moved shift)).reverse.take other.deliverable = _
        rw [← List.map_reverse, List.map_take]

theorem tokensOf_beside (source other : List Char)
    (beside : (Lexer.start source).cursor.Beside shift (Lexer.start other).cursor) :
    (tokensOf source).Moved (Token.moved shift) (tokensOf other) := by
  have starts : (Lexer.start source).Beside shift (Lexer.start other) := by
    refine ⟨beside, ?_⟩
    have place : (Cursor.ofText source).passMark.place =
        (Cursor.ofText other).passMark.place.moved shift := beside.place
    simp only [Lexer.start, Lexer.movedTo, List.map_cons, List.map_nil, Token.moved, place,
      Option.map_none]
  rw [tokensOf, tokensOf, beside.remaining]
  exact Lexer.run_beside shift _ _ _ starts

theorem tokensOf_unifyLineEnds (source : List Char) :
    ∃ shift, (tokensOf source).Moved (Token.moved shift) (tokensOf (unifyLineEnds source)) := by
  obtain ⟨shift, beside⟩ := Cursor.beside_ofText source
  exact ⟨shift, tokensOf_beside shift _ _ beside.passMark⟩

theorem tokensOf_marked (source : List Char) (unmarked : source.head? ≠ some '\ufeff') :
    ∃ shift, (tokensOf ('\ufeff' :: source)).Moved (Token.moved shift)
      (tokensOf (unifyLineEnds source)) := by
  obtain ⟨shift, beside⟩ := Cursor.beside_ofMarked source unmarked
  exact ⟨shift, tokensOf_beside shift _ _ beside⟩

end LocaleLint.Yaml
