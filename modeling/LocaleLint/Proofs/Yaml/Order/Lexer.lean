import LocaleLint.Yaml.Token.Stream
import LocaleLint.Proofs.Yaml.Order.Scan

set_option autoImplicit false

namespace LocaleLint.Yaml

variable (source : List Char)

-- Tokens, the last one first: each ends before the one after it begins.
def Stacked : Nat → List Token → Prop
  | _, [] => True
  | upper, token :: older =>
      token.IsFrom source 0 ∧ token.stop.index ≤ upper ∧ Stacked token.start.index older

-- Tokens in order, the first one no earlier than an index.
def InOrder : Nat → List Token → Prop
  | _, [] => True
  | lower, token :: later => token.IsFrom source lower ∧ InOrder token.stop.index later

variable {source}

theorem Stacked.le {upper higher : Nat} {tokens : List Token}
    (stacked : Stacked source upper tokens)
    (above : upper ≤ higher) : Stacked source higher tokens := by
  cases tokens with
  | nil => trivial
  | cons token older => exact ⟨stacked.1, Nat.le_trans stacked.2.1 above, stacked.2.2⟩

theorem Stacked.stop_le {upper : Nat} {tokens : List Token}
    (stacked : Stacked source upper tokens) :
    ∀ token ∈ tokens, token.stop.index ≤ upper := by
  induction tokens generalizing upper with
  | nil => simp
  | cons token older ih =>
    rw [List.forall_mem_cons]
    refine ⟨stacked.2.1, ih (stacked.2.2.le ?_)⟩
    exact Nat.le_trans stacked.1.length stacked.2.1

theorem Stacked.insert {upper : Nat} {newer older : List Token} (token : Token)
    (stacked : Stacked source upper (newer ++ older)) (isFrom : token.IsFrom source 0)
    (least : token.stop.index ≤ upper)
    (behind : ∀ other ∈ newer, token.stop.index ≤ other.start.index)
    (before : ∀ other ∈ older, other.stop.index ≤ token.start.index) :
    Stacked source upper (newer ++ token :: older) := by
  induction newer generalizing upper with
  | nil =>
    refine ⟨isFrom, least, ?_⟩
    cases older with
    | nil => trivial
    | cons other older => exact ⟨stacked.1, before other (List.mem_cons_self ..), stacked.2.2⟩
  | cons other newer ih =>
    rw [List.forall_mem_cons] at behind
    exact ⟨stacked.1, stacked.2.1, ih stacked.2.2 behind.1 behind.2⟩

theorem Token.IsFrom.le {token : Token} {lower least : Nat} (isFrom : token.IsFrom source lower)
    (below : least ≤ token.start.index) : token.IsFrom source least :=
  ⟨isFrom.start, isFrom.stop, below, isFrom.length⟩

theorem InOrder.le {lower least : Nat} {tokens : List Token} (ordered : InOrder source lower tokens)
    (below : least ≤ lower) : InOrder source least tokens := by
  cases tokens with
  | nil => trivial
  | cons token later => exact ⟨ordered.1.le (Nat.le_trans below ordered.1.least), ordered.2⟩

theorem InOrder.take {lower : Nat} {tokens : List Token} (ordered : InOrder source lower tokens)
    (count : Nat) : InOrder source lower (tokens.take count) := by
  induction tokens generalizing lower count with
  | nil => simpa using ordered
  | cons token later ih =>
    cases count with
    | zero => trivial
    | succ count => exact ⟨ordered.1, ih ordered.2 count⟩

theorem InOrder.of_stacked {upper : Nat} {tokens later : List Token}
    (stacked : Stacked source upper tokens) (ordered : InOrder source upper later) :
    InOrder source 0 (tokens.reverse ++ later) := by
  induction tokens generalizing upper later with
  | nil => exact ordered.le (Nat.zero_le _)
  | cons token older ih =>
    rw [List.reverse_cons, List.append_assoc]
    refine ih stacked.2.2 ⟨stacked.1.le (Nat.le_refl _), ordered.le stacked.2.1⟩

variable (source)

namespace Lexer

/-- The candidate stands between the tokens with lower numbers and the others. -/
structure Fits (lexer : Lexer) (candidate : KeyCandidate) : Prop where
  place : candidate.place.IsIn source
  least : candidate.place.index ≤ lexer.cursor.place.index
  within : candidate.number ≤ lexer.count
  behind : ∀ token ∈ lexer.tokens.take (lexer.count - candidate.number),
    candidate.place.index ≤ token.start.index
  before : ∀ token ∈ lexer.tokens.drop (lexer.count - candidate.number),
    token.stop.index ≤ candidate.place.index

structure IsOrdered (lexer : Lexer) : Prop where
  cursor : lexer.cursor.IsIn source
  count : lexer.count = lexer.tokens.length
  tokens : Stacked source lexer.cursor.place.index lexer.tokens
  fits : ∀ candidate ∈ lexer.candidates, lexer.Fits source candidate
  -- A candidate lies behind those of the brackets around it.
  nested : lexer.candidates.Pairwise fun inner outer =>
    outer.number ≤ inner.number ∧ outer.place.index ≤ inner.place.index

variable {source} {lexer other : Lexer}

theorem Fits.congr {candidate : KeyCandidate} (fits : lexer.Fits source candidate)
    (cursor : other.cursor = lexer.cursor) (tokens : other.tokens = lexer.tokens)
    (count : other.count = lexer.count) : other.Fits source candidate := by
  obtain ⟨place, least, within, behind, before⟩ := fits
  constructor
  · exact place
  · rwa [cursor]
  · rwa [count]
  · rwa [tokens, count]
  · rwa [tokens, count]

theorem IsOrdered.of_fewer (ordered : lexer.IsOrdered source) (cursor : other.cursor = lexer.cursor)
    (tokens : other.tokens = lexer.tokens) (count : other.count = lexer.count)
    (fewer : other.candidates.Sublist lexer.candidates) : other.IsOrdered source where
  cursor := by rw [cursor]; exact ordered.cursor
  count := by rw [count, tokens]; exact ordered.count
  tokens := by rw [cursor, tokens]; exact ordered.tokens
  fits :=
    fun candidate member => (ordered.fits candidate (fewer.subset member)).congr cursor tokens count
  nested := ordered.nested.sublist fewer

theorem IsOrdered.push {c : Cursor} {token : Token} (ordered : lexer.IsOrdered source)
    (isFrom : token.IsFrom source lexer.cursor.place.index)
    (behind : c.Behind source token.stop.index) :
    ({ lexer with cursor := c }.push token).IsOrdered source := by
  have further : lexer.cursor.place.index ≤ c.place.index :=
    Nat.le_trans isFrom.least (Nat.le_trans isFrom.length behind.least)
  constructor
  case cursor => exact behind.isIn
  case count => exact congrArg (· + 1) ordered.count
  case tokens =>
    refine ⟨isFrom.le (Nat.zero_le _), behind.least, ordered.tokens.le isFrom.least⟩
  case nested => exact ordered.nested
  case fits =>
    intro candidate member
    obtain ⟨place, least, within, later, sooner⟩ := ordered.fits candidate member
    have shifted : lexer.count + 1 - candidate.number = lexer.count - candidate.number + 1 := by
      omega
    refine ⟨place, Nat.le_trans least further, Nat.le_succ_of_le within, ?_, ?_⟩
    · change ∀ t ∈ (token :: lexer.tokens).take (lexer.count + 1 - candidate.number), _
      rw [shifted, List.take_succ_cons, List.forall_mem_cons]
      exact ⟨Nat.le_trans least isFrom.least, later⟩
    · change ∀ t ∈ (token :: lexer.tokens).drop (lexer.count + 1 - candidate.number), _
      rw [shifted, List.drop_succ_cons]
      exact sooner

theorem IsOrdered.advance {c : Cursor} (ordered : lexer.IsOrdered source)
    (behind : c.Behind source lexer.cursor.place.index) :
    ({ lexer with cursor := c } : Lexer).IsOrdered source where
  cursor := behind.isIn
  count := ordered.count
  tokens := ordered.tokens.le behind.least
  nested := ordered.nested
  fits := fun candidate member =>
    { ordered.fits candidate member with
      least := Nat.le_trans (ordered.fits candidate member).least behind.least }

theorem IsOrdered.pushHere (ordered : lexer.IsOrdered source) (lexeme : Lexeme) :
    (lexer.pushHere lexeme).IsOrdered source := by
  have here := ordered.cursor.place
  exact ordered.push ⟨here, here, Nat.le_refl _, Nat.le_refl _⟩ ⟨ordered.cursor, Nat.le_refl _⟩

theorem candidates_none (lexer : Lexer) :
    ({ lexer with candidate := none } : Lexer).candidates.Sublist lexer.candidates :=
  List.sublist_append_right _ _

theorem IsOrdered.forget (ordered : lexer.IsOrdered source) :
    ({ lexer with candidate := none } : Lexer).IsOrdered source :=
  ordered.of_fewer rfl rfl rfl lexer.candidates_none

theorem IsOrdered.save (ordered : lexer.IsOrdered source) (required : Bool) :
    ({ lexer with candidate := some ⟨lexer.count, required, lexer.cursor.place⟩ } : Lexer).IsOrdered
      source := by
  have outer := ordered.forget
  refine { ordered with fits := ?_, nested := ?_ }
  · intro candidate member
    rcases List.mem_cons.mp member with rfl | inside
    · refine ⟨ordered.cursor.place, Nat.le_refl _, Nat.le_refl _, ?_, ?_⟩
      · simp
      · simpa using ordered.tokens.stop_le
    · exact (outer.fits candidate inside).congr rfl rfl rfl
  · refine List.Pairwise.cons (fun candidate member => ?_) outer.nested
    exact ⟨(outer.fits candidate member).within, (outer.fits candidate member).least⟩

theorem addIndent_same {column : Nat} (added : lexer.addIndent column = some other) :
    other.cursor = lexer.cursor ∧ other.tokens = lexer.tokens ∧ other.count = lexer.count ∧
      other.candidates = lexer.candidates := by
  unfold addIndent at added
  split at added
  · cases added
    exact ⟨rfl, rfl, rfl, rfl⟩
  · cases added

theorem IsOrdered.addIndent {column : Nat} (ordered : lexer.IsOrdered source)
    (added : lexer.addIndent column = some other) : other.IsOrdered source := by
  obtain ⟨cursor, tokens, count, candidates⟩ := addIndent_same added
  exact ordered.of_fewer cursor tokens count (candidates ▸ List.Sublist.refl _)

/-- A token in front of a candidate: those around it stay where they were, and so does it. -/
theorem IsOrdered.fits_insert (ordered : lexer.IsOrdered source) {candidate outer : KeyCandidate}
    (token : Token) (within : candidate.number ≤ lexer.count) (fits : lexer.Fits source outer)
    (number : outer.number ≤ candidate.number) (place : outer.place.index ≤ token.start.index) :
    (lexer.insert candidate.number token).Fits source outer := by
  obtain ⟨isIn, least, outerWithin, behind, before⟩ := fits
  have front : (lexer.tokens.take (lexer.count - candidate.number)).length =
      lexer.count - candidate.number := by
    rw [List.length_take, ← ordered.count]
    omega
  have reach : lexer.count - outer.number =
      lexer.count - candidate.number + (candidate.number - outer.number) := by omega
  have shifted : lexer.count + 1 - outer.number =
      (lexer.tokens.take (lexer.count - candidate.number)).length +
        (candidate.number - outer.number + 1) := by omega
  rw [reach, List.take_add] at behind
  rw [reach, ← List.drop_drop] at before
  refine ⟨isIn, least, Nat.le_succ_of_le outerWithin, ?_, ?_⟩
  · change ∀ t ∈ (lexer.tokens.take _ ++ token :: lexer.tokens.drop _).take
      (lexer.count + 1 - outer.number), _
    rw [shifted, List.take_length_add_append, List.take_succ_cons]
    intro t member
    rcases List.mem_append.mp member with newer | rest
    · exact behind t (List.mem_append_left _ newer)
    · rcases List.mem_cons.mp rest with rfl | older
      · exact place
      · exact behind t (List.mem_append_right _ older)
  · change ∀ t ∈ (lexer.tokens.take _ ++ token :: lexer.tokens.drop _).drop
      (lexer.count + 1 - outer.number), _
    rw [shifted, List.drop_length_add_append, List.drop_succ_cons]
    exact before

theorem IsOrdered.insert (ordered : lexer.IsOrdered source) {candidate : KeyCandidate}
    (fits : lexer.Fits source candidate)
    (outer : ∀ other ∈ lexer.candidates, other.number ≤ candidate.number ∧
      other.place.index ≤ candidate.place.index) (lexeme : Lexeme) :
    (lexer.insert candidate.number ⟨lexeme, candidate.place, candidate.place⟩).IsOrdered
      source := by
  constructor
  case cursor => exact ordered.cursor
  case nested => exact ordered.nested
  case count =>
    have whole := congrArg List.length
      (List.take_append_drop (lexer.count - candidate.number) lexer.tokens)
    have count := ordered.count
    simp only [Lexer.insert, List.length_append, List.length_cons] at whole ⊢
    omega
  case tokens =>
    have stacked := ordered.tokens
    rw [← List.take_append_drop (lexer.count - candidate.number) lexer.tokens] at stacked
    refine stacked.insert _ ⟨fits.place, fits.place, Nat.zero_le _, Nat.le_refl _⟩ fits.least ?_ ?_
    · exact fits.behind
    · exact fits.before
  case fits =>
    intro other member
    obtain ⟨number, place⟩ := outer other member
    exact ordered.fits_insert _ fits.within (ordered.fits other member) number place

theorem IsOrdered.insertKey (ordered : lexer.IsOrdered source) {candidate : KeyCandidate}
    (fits : lexer.Fits source candidate)
    (outer : ∀ other ∈ lexer.candidates, other.number ≤ candidate.number ∧
      other.place.index ≤ candidate.place.index) :
    (lexer.insertKey candidate).IsOrdered source := by
  have keyed := ordered.insert fits outer .key
  have stays := ordered.fits_insert ⟨.key, candidate.place, candidate.place⟩ fits.within fits
    (Nat.le_refl _) (Nat.le_refl _)
  unfold Lexer.insertKey
  simp only
  split
  · exact keyed
  · split
    · next indented added =>
      obtain ⟨cursor, tokens, count, candidates⟩ := addIndent_same added
      refine (keyed.addIndent added).insert (stays.congr cursor tokens count) ?_ _
      rw [candidates]
      exact outer
    · exact keyed

end Lexer

variable {source}

namespace Lex

theorem scan_run {α : Type} (read : Scan α) (lexer : Lexer) :
    (scan read).run lexer =
      (read.run lexer.cursor).map fun reached =>
        (reached.1, { lexer with cursor := reached.2 }) := by
  simp only [scan, bind_pure_comp, StateT.run_bind, StateT.run_get, StateT.run_monadLift,
    monadLift_self, StateT.run_map, StateT.run_set, map_pure, Functor.map_map, pure_bind]
  cases read.run lexer.cursor with
  | error stop => rfl
  | ok reached => rfl

/-- Each state of the lexer is in order when the one before is. -/
def Orderly (source : List Char) {α : Type} (x : Lex α) : Prop :=
  Attains (Stop.IsIn source) (Lexer.IsOrdered source) x fun _ => Lexer.IsOrdered source

variable {α β : Type} {x y : Lex α}

namespace Orderly

theorem pure (a : α) : Orderly source (pure a) := Attains.pure a fun _ ordered => ordered

theorem bind {f : α → Lex β} (first : Orderly source x) (next : ∀ a, Orderly source (f a)) :
    Orderly source (x >>= f) :=
  Attains.bind first next

theorem ite {p : Prop} [Decidable p] (holds : Orderly source x) (fails : Orderly source y) :
    Orderly source (if p then x else y) :=
  Attains.ite (fun _ => holds) fun _ => fails

theorem get_bind {f : Lexer → Lex β}
    (next : ∀ lexer : Lexer, lexer.IsOrdered source → Orderly source (f lexer)) :
    Orderly source (get >>= f) :=
  fun lexer ordered => next lexer ordered lexer ordered

theorem modify {change : Lexer → Lexer}
    (keeps : ∀ lexer : Lexer, lexer.IsOrdered source → (change lexer).IsOrdered source) :
    Orderly source (modify change : Lex Unit) :=
  keeps

theorem scan {read : Scan α} (onward : Onward source read) : Orderly source (scan read) := by
  intro lexer ordered
  have reached := onward lexer.cursor.place.index lexer.cursor ⟨ordered.cursor, Nat.le_refl _⟩
  rw [scan_run]
  cases ran : read.run lexer.cursor with
  | error stop =>
    rw [ran] at reached
    exact reached
  | ok pair =>
    rw [ran] at reached
    exact ordered.advance reached

theorem fail_here (activity : Option Activity) (since : Option Position) (cause : Cause) :
    Orderly source
      (get >>= fun lexer => throw (.fault ⟨activity, since, cause, lexer.cursor.place⟩) : Lex α) :=
  fun _ ordered => ordered.cursor.place

theorem failKey (candidate : KeyCandidate) : Orderly source (failKey candidate : Lex α) :=
  fail_here _ _ _

theorem demand (holds : Bool) (cause : Cause) : Orderly source (demand holds cause) :=
  ite (pure ()) (fail_here _ _ _)

theorem allowKey (allowed : Bool) : Orderly source (allowKey allowed) :=
  modify fun _ ordered => ordered.of_fewer rfl rfl rfl (List.Sublist.refl _)

end Orderly

theorem orderly_dropCandidate : Orderly source dropCandidate := by
  refine .get_bind fun lexer _ => ?_
  split
  · refine .ite (.failKey _) (.modify fun later ordered => ?_)
    exact ordered.of_fewer rfl rfl rfl later.candidates_none
  · exact .pure _

theorem orderly_saveCandidate : Orderly source saveCandidate := by
  refine .get_bind fun lexer _ => .ite ?_ (.pure _)
  exact .bind orderly_dropCandidate fun _ => .modify fun _ ordered => ordered.save _

theorem orderly_unwindLoop (column : Int) (outer : List Int) (lexer : Lexer)
    (ordered : lexer.IsOrdered source) : (unwindLoop column outer lexer).IsOrdered source := by
  induction outer generalizing lexer with
  | nil =>
    rw [unwindLoop]
    split
    · exact ordered.of_fewer rfl rfl rfl (List.Sublist.refl _)
    · exact ordered
  | cons indent outer ih =>
    rw [unwindLoop]
    split
    · exact ih _ ((ordered.pushHere .blockEnd).of_fewer rfl rfl rfl (List.Sublist.refl _))
    · exact ordered

theorem orderly_unwindIndent (column : Int) : Orderly source (unwindIndent column) := by
  refine .modify fun lexer ordered => ?_
  split
  · exact ordered
  · exact orderly_unwindLoop column _ lexer ordered

theorem orderly_betweenTokens (fuel : Nat) : Orderly source (betweenTokens fuel) := by
  induction fuel with
  | zero => exact .pure _
  | succ fuel ih =>
    refine .bind (.scan (.skipWhile _)) fun _ => .bind (.scan .skipComment) fun _ => ?_
    refine .bind (.scan .lineBreak) fun _ => .ite ?_ (.pure _)
    refine .bind (.modify fun lexer ordered => ?_) fun _ => ih
    exact ordered.of_fewer rfl rfl rfl (List.Sublist.refl _)

theorem orderly_toNextToken : Orderly source toNextToken :=
  .get_bind fun _ _ => orderly_betweenTokens _

theorem orderly_pushScanned {read : Scan Token} (gives : ∀ n, Gives source n read) :
    Orderly source (pushScanned read) := by
  intro lexer ordered
  have reached := gives lexer.cursor.place.index lexer.cursor ⟨ordered.cursor, Nat.le_refl _⟩
  unfold pushScanned
  rw [StateT.run_bind, scan_run]
  cases ran : read.run lexer.cursor with
  | error stop =>
    rw [ran] at reached
    exact reached
  | ok pair =>
    rw [ran] at reached
    exact ordered.push reached.1 reached.2

theorem orderly_pushRead (width : Nat) (lexeme : Lexeme) :
    Orderly source (pushRead width lexeme) := by
  intro lexer ordered
  have here : Cursor.Behind source lexer.cursor.place.index lexer.cursor :=
    ⟨ordered.cursor, Nat.le_refl _⟩
  have there := here.skip width
  exact ordered.push ⟨here.isIn.place, there.isIn.place, Nat.le_refl _, there.least⟩
    ⟨there.isIn, Nat.le_refl _⟩

theorem orderly_readStreamEnd : Orderly source readStreamEnd := by
  refine .bind (orderly_unwindIndent _) fun _ => .bind orderly_dropCandidate fun _ => ?_
  exact .modify fun lexer ordered =>
    (ordered.pushHere .streamEnd).of_fewer rfl rfl rfl (List.nil_sublist _)

theorem orderly_readDirective : Orderly source readDirective := by
  refine .bind (orderly_unwindIndent _) fun _ => .bind orderly_dropCandidate fun _ => ?_
  exact .bind (.allowKey _) fun _ => orderly_pushScanned fun _ => Scan.gives_directiveToken

theorem orderly_readDocumentMarker (lexeme : Lexeme) :
    Orderly source (readDocumentMarker lexeme) := by
  refine .bind (orderly_unwindIndent _) fun _ => .bind orderly_dropCandidate fun _ => ?_
  exact .bind (.allowKey _) fun _ => orderly_pushRead _ _

theorem orderly_readFlowStart (lexeme : Lexeme) : Orderly source (readFlowStart lexeme) := by
  refine .bind orderly_saveCandidate fun _ => .bind (.modify fun lexer ordered => ?_) fun _ => ?_
  · refine ordered.of_fewer rfl rfl rfl ?_
    cases found : lexer.candidate <;> simp [Lexer.candidates, found]
  · exact .bind (.allowKey _) fun _ => orderly_pushRead _ _

theorem orderly_readFlowEnd (lexeme : Lexeme) : Orderly source (readFlowEnd lexeme) := by
  refine .bind orderly_dropCandidate fun _ => .bind (.modify fun lexer ordered => ?_) fun _ => ?_
  · split
    · exact ordered
    · next candidate outer brackets =>
      refine ordered.of_fewer rfl rfl rfl ?_
      cases candidate <;> simp [Lexer.candidates, brackets]
  · exact .bind (.allowKey _) fun _ => orderly_pushRead _ _

theorem orderly_readFlowEntry : Orderly source readFlowEntry :=
  .bind (.allowKey _) fun _ => .bind orderly_dropCandidate fun _ => orderly_pushRead _ _

theorem orderly_openUnlessInFlow (lexeme : Lexeme) (cause : Cause) :
    Orderly source (openUnlessInFlow lexeme cause) := by
  refine .get_bind fun _ _ => .ite (.pure _) (.bind (.demand _ _) fun _ => ?_)
  refine .modify fun lexer ordered => ?_
  split
  · next indented added => exact (ordered.addIndent added).pushHere lexeme
  · exact ordered

theorem orderly_readBlockEntry : Orderly source readBlockEntry := by
  refine .bind (orderly_openUnlessInFlow _ _) fun _ => .bind (.allowKey _) fun _ => ?_
  exact .bind orderly_dropCandidate fun _ => orderly_pushRead _ _

theorem orderly_readKey : Orderly source readKey := by
  refine .bind (orderly_openUnlessInFlow _ _) fun _ => .get_bind fun _ _ => ?_
  exact .bind (.allowKey _) fun _ => .bind orderly_dropCandidate fun _ => orderly_pushRead _ _

theorem orderly_openValue : Orderly source openValue := by
  refine Attains.get_bind fun lexer ordered => ?_
  cases found : lexer.candidate with
  | none =>
    have opens : Orderly source (openUnlessInFlow .blockMappingStart .valueNotAllowed >>= fun _ =>
        get >>= fun lexer => allowKey !lexer.inFlow) :=
      .bind (orderly_openUnlessInFlow _ _) fun _ => .get_bind fun _ _ => .allowKey _
    exact opens.weaken (fun _ same => same ▸ ordered) fun _ _ reached => reached
  | some candidate =>
    have all : lexer.candidates =
        candidate :: ({ lexer with candidate := none } : Lexer).candidates := by
      rw [Lexer.candidates, found]
      rfl
    have fits := ordered.fits candidate (all ▸ List.mem_cons_self ..)
    have nested := ordered.nested
    rw [all, List.pairwise_cons] at nested
    have alone := ordered.forget
    refine Attains.bind (Attains.modify _ ?_) fun _ => Orderly.allowKey false
    rintro _ rfl
    exact alone.insertKey (fits.congr rfl rfl rfl) nested.1

theorem orderly_readValue : Orderly source readValue :=
  .bind orderly_openValue fun _ => orderly_pushRead _ _

theorem orderly_readKeyStart {read : Scan Token} (gives : ∀ n, Gives source n read) :
    Orderly source (readKeyStart read) :=
  .bind orderly_saveCandidate fun _ => .bind (.allowKey _) fun _ => orderly_pushScanned gives

theorem orderly_readBlockScalar (foldLines : Bool) :
    Orderly source (readBlockScalar foldLines) := by
  refine .bind (.allowKey _) fun _ => .bind orderly_dropCandidate fun _ => .get_bind fun _ _ => ?_
  exact orderly_pushScanned fun _ => Scan.gives_blockToken _ _

theorem orderly_readPlain : Orderly source readPlain := by
  refine .bind orderly_saveCandidate fun _ => .get_bind fun here _ => ?_
  intro lexer ordered
  have reached := Scan.gives_plainToken here.inFlow here.indent lexer.cursor
    ⟨ordered.cursor, Nat.le_refl _⟩
  rw [StateT.run_bind, scan_run]
  cases ran : (Scan.plainToken here.inFlow here.indent).run lexer.cursor with
  | error stop =>
    rw [ran] at reached
    exact reached
  | ok pair =>
    rw [ran] at reached
    exact (ordered.push reached.1 reached.2).of_fewer rfl rfl rfl (List.Sublist.refl _)

theorem orderly_readToken : Orderly source readToken := by
  refine .get_bind fun lexer ordered => ?_
  refine .ite orderly_readStreamEnd (.ite orderly_readDirective ?_)
  refine .ite (orderly_readDocumentMarker _) (.ite (orderly_readDocumentMarker _) ?_)
  refine .ite (orderly_readFlowStart _) (.ite (orderly_readFlowStart _) ?_)
  refine .ite (orderly_readFlowEnd _) (.ite (orderly_readFlowEnd _) ?_)
  refine .ite orderly_readFlowEntry (.ite orderly_readBlockEntry ?_)
  refine .ite orderly_readKey (.ite orderly_readValue ?_)
  refine .ite (orderly_readKeyStart fun _ => Scan.gives_nameToken _ _) ?_
  refine .ite (orderly_readKeyStart fun _ => Scan.gives_nameToken _ _) ?_
  refine .ite (orderly_readKeyStart fun _ => Scan.gives_tagToken) ?_
  refine .ite (orderly_readBlockScalar _) (.ite (orderly_readBlockScalar _) ?_)
  refine .ite (orderly_readKeyStart fun _ => Scan.gives_quotedToken _) ?_
  refine .ite (orderly_readKeyStart fun _ => Scan.gives_quotedToken _) ?_
  exact .ite orderly_readPlain (.throw _ ordered.cursor.place)

theorem attains_dropStale {lexer : Lexer} (ordered : lexer.IsOrdered source)
    (candidate : Option KeyCandidate) :
    Attains (Stop.IsIn source) (· = lexer) (dropStale candidate) fun kept later =>
      later = lexer ∧ kept.toList.Sublist candidate.toList := by
  cases candidate with
  | none => exact .pure none fun _ same => ⟨same, .refl _⟩
  | some candidate =>
    refine Attains.get_bind fun _ same => .ite (fun _ => .ite (fun _ => ?_) fun _ => ?_) fun _ => ?_
    · rintro _ rfl
      exact same ▸ ordered.cursor.place
    · exact .pure none fun _ here => ⟨here.trans same, List.nil_sublist _⟩
    · exact .pure (some candidate) fun _ here => ⟨here.trans same, .refl _⟩

theorem attains_dropStale_mapM {lexer : Lexer} (ordered : lexer.IsOrdered source)
    (candidates : List (Option KeyCandidate)) :
    Attains (Stop.IsIn source) (· = lexer) (candidates.mapM dropStale) fun kept later =>
      later = lexer ∧ (kept.filterMap id).Sublist (candidates.filterMap id) := by
  induction candidates with
  | nil => exact .pure [] fun _ same => ⟨same, .refl _⟩
  | cons candidate rest ih =>
    rw [List.mapM_cons]
    refine .bind_same (attains_dropStale ordered candidate) fun first firstFewer => ?_
    refine .bind_same ih fun others fewer => .pure (first :: others) fun _ same => ⟨same, ?_⟩
    have whole := firstFewer.append fewer
    cases first <;> cases candidate <;> simpa using whole

theorem orderly_dropStaleCandidates : Orderly source dropStaleCandidates := by
  refine Attains.get_bind fun lexer ordered => ?_
  refine .bind_same (attains_dropStale_mapM ordered _) fun outer outerFewer => ?_
  refine Attains.get_bind fun _ here => ?_
  rw [here]
  refine .bind_same (attains_dropStale ordered _) fun candidate fewer => .modify _ fun _ here => ?_
  rw [here]
  exact ordered.of_fewer rfl rfl rfl (fewer.append outerFewer)

theorem orderly_step : Orderly source step := by
  refine .bind orderly_toNextToken fun _ => .bind orderly_dropStaleCandidates fun _ => ?_
  refine .get_bind fun _ _ => .bind (orderly_unwindIndent _) fun _ => ?_
  refine .bind orderly_readToken fun _ => .get_bind fun _ _ => .ite ?_ (.pure _)
  exact orderly_dropStaleCandidates

end Lex

variable {lexer : Lexer}

theorem Lexer.IsOrdered.delivered (ordered : lexer.IsOrdered source) :
    InOrder source 0 lexer.tokens.reverse := by
  have whole : InOrder source 0 (lexer.tokens.reverse ++ []) := .of_stacked ordered.tokens trivial
  rwa [List.append_nil] at whole

theorem Lexer.run_inOrder (fuel : Nat) (ordered : lexer.IsOrdered source) :
    InOrder source 0 (lexer.run fuel).items ∧
      ∀ stop, (lexer.run fuel).stop = some stop → stop.IsIn source := by
  induction fuel generalizing lexer with
  | zero =>
    rw [Lexer.run]
    exact ⟨ordered.delivered, by simp⟩
  | succ fuel ih =>
    have stepped := Lex.orderly_step lexer ordered
    rw [Lexer.run]
    split
    · exact ⟨ordered.delivered, by simp⟩
    · cases ran : Lex.step.run lexer with
      | ok pair =>
        rw [ran] at stepped
        exact ih stepped
      | error stop =>
        rw [ran] at stepped
        refine ⟨ordered.delivered.take _, fun other same => ?_⟩
        cases same
        exact stepped

theorem Lexer.start_isOrdered (source : List Char) : (Lexer.start source).IsOrdered source := by
  have begins : Cursor.Behind source 0 (Cursor.ofText source) :=
    ⟨⟨Position.start_isIn source, rfl⟩, Nat.zero_le _⟩
  have here : Cursor.Behind source 0 (Cursor.ofText source).passMark := by
    unfold Cursor.passMark
    split
    · exact begins.next
    · exact begins
  constructor
  case cursor => exact here.isIn
  case count => rfl
  case tokens =>
    exact ⟨⟨here.isIn.place, here.isIn.place, Nat.zero_le _, Nat.le_refl _⟩, Nat.le_refl _, trivial⟩
  case fits => nofun
  case nested => exact .nil

theorem tokensOf_inOrder (source : List Char) :
    InOrder source 0 (tokensOf source).items ∧
      ∀ stop, (tokensOf source).stop = some stop → stop.IsIn source :=
  Lexer.run_inOrder _ (Lexer.start_isOrdered source)

end LocaleLint.Yaml
