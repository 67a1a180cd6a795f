import LocaleLint.Yaml.Token.Plain
import LocaleLint.Yaml.Token.Block
import LocaleLint.Proofs.Yaml.LineEnds.Alike

set_option autoImplicit false

namespace LocaleLint.Yaml.Scan

open LocaleLint.Text

variable {shift : Nat → Nat} {before : Cursor → Prop}

theorem atMarker_beside (mark : Char) (noReturn : mark ≠ '\r') (noFeed : mark ≠ '\n') (c d : Cursor)
    (beside : c.Beside shift d) : atMarker mark d = atMarker mark c := by
  have noReturns : '\r' ∉ [mark, mark, mark] := by simp [Ne.symm noReturn]
  rw [atMarker, beside.startsWith _ noReturns (by simp [Ne.symm noFeed]), atMarker]
  cases starts : c.startsWith [mark, mark, mark] with
  | false => rfl
  | true =>
    have alone := c.alone_of_prefix _ (List.isPrefixOf_iff_prefix.mp starts) noReturns
    rw [beside.peekAt 3 alone, asFeed_class isBlankOrBreak rfl]

theorem alike_atDocumentMarker : Alike shift before atDocumentMarker atDocumentMarker Eq := by
  refine .get_bind fun c d beside _ => ?_
  rw [atMarker_beside '-' (by decide) (by decide) c d beside,
    atMarker_beside '.' (by decide) (by decide) c d beside]
  exact .pure _ _ rfl

theorem alike_skipComment : Alike shift before skipComment skipComment Eq := by
  refine .peek_bind fun c => ?_
  refine .cond (asFeed_class (· == '#') rfl c) (fun _ => ?_) fun _ => ?_
  · exact .skipWhile _ rfl rfl
  · exact .pure _ _ rfl

theorem alike_escapedOctets (setting : TagSetting) (since start : Position) (fuel : Nat) :
    Alike shift before (escapedOctets setting since fuel)
      (escapedOctets setting start fuel) Eq := by
  induction fuel generalizing before with
  | zero => exact .pure _ _ rfl
  | succ fuel ih =>
    refine .peek_bind fun c => ?_
    refine .cond (asFeed_class (· == '%') rfl c) (fun isPercent => ?_) fun _ => .pure _ _ rfl
    have alone := ne_return_of_class (· == '%') c isPercent rfl
    refine .bind_eq (.skip_peeked c alone fun _ here => here.2) fun _ => ?_
    refine .peek_bind fun high => ?_
    refine .demand_bind _ _ _ _ _ _ _ _ (asFeed_class isHexDigit rfl high) fun isHigh => ?_
    have highAlone := ne_return_of_class isHexDigit high isHigh rfl
    refine .peekAt_one_bind high (fun _ here => here.2) fun low other alike => ?_
    rw [alike highAlone]
    refine .demand_bind _ _ _ _ _ _ _ _ (asFeed_class isHexDigit rfl low) fun isLow => ?_
    have lowAlone := ne_return_of_class isHexDigit low isLow rfl
    refine .bind_eq (.skip_two high low highAlone lowAlone fun _ here => ⟨here.1.2, here.2⟩)
      fun _ => ?_
    refine .bind_eq ih fun octets => ?_
    rw [asFeed_of_ne high highAlone, asFeed_of_ne low lowAlone]
    exact .pure _ _ rfl

theorem alike_uriEscapes (setting : TagSetting) (since start : Position) :
    Alike shift before (uriEscapes setting since) (uriEscapes setting start) Eq := by
  refine .place_bind fun p => ?_
  refine .bind_eq .remaining fun fuel => ?_
  refine .bind_eq (alike_escapedOctets setting since start fuel) fun octets => ?_
  cases Encoding.Utf8.decode octets with
  | ok text => exact .pure _ _ rfl
  | error bad => exact InStep.throw _ _ rfl

theorem alike_uriChunks (setting : TagSetting) (since start : Position) (fuel : Nat) :
    Alike shift before (uriChunks setting since fuel) (uriChunks setting start fuel) Eq := by
  induction fuel generalizing before with
  | zero => exact .pure _ _ rfl
  | succ fuel ih =>
    refine .peek_bind fun c => ?_
    refine .cond (asFeed_class (· == '%') rfl c) (fun _ => ?_) fun _ => ?_
    · refine .bind_eq (alike_uriEscapes setting since start) fun text => ?_
      exact .bind_eq ih fun _ => .pure _ _ rfl
    refine .cond (asFeed_class isUriChar rfl c) (fun isUri => ?_) fun _ => .pure _ _ rfl
    have alone := ne_return_of_class isUriChar c isUri rfl
    refine .bind_eq (.skip_peeked c alone fun _ here => here.2) fun _ => ?_
    refine .bind_eq ih fun _ => ?_
    rw [asFeed_of_ne c alone]
    exact .pure _ _ rfl

theorem alike_tagUri (setting : TagSetting) (since start : Position) :
    Alike shift before (tagUri setting since) (tagUri setting start) Eq := by
  refine .peek_bind fun first => ?_
  refine .demand_bind _ _ _ _ _ _ _ _ (asFeed_class isUriChar rfl first) fun _ => ?_
  refine .bind_eq .remaining fun fuel => ?_
  exact .bind_eq (alike_uriChunks setting since start fuel) fun _ => .pure _ _ rfl

theorem alike_tagHandle (setting : TagSetting) (since start : Position) :
    Alike shift before (tagHandle setting since) (tagHandle setting start) Eq := by
  refine .peek_bind fun first => ?_
  refine .demand_bind _ _ _ _ _ _ _ _ (asFeed_class (· == '!') rfl first) fun isFirst => ?_
  have firstAlone := ne_return_of_class (· == '!') first isFirst rfl
  refine .bind_eq (.skip_peeked first firstAlone fun _ here => here.2) fun _ => ?_
  refine .peek_bind fun second => ?_
  refine .cond (asFeed_class (· == ' ') rfl second) (fun _ => .pure _ _ rfl) fun _ => ?_
  refine .bind_eq (.takeWhile _ rfl rfl) fun name => ?_
  refine .peek_bind fun closing => ?_
  refine .demand_bind _ _ _ _ _ _ _ _ (asFeed_class (· == '!') rfl closing) fun isClosing => ?_
  have closingAlone := ne_return_of_class (· == '!') closing isClosing rfl
  exact .bind_eq (.skip_peeked closing closingAlone fun _ here => here.2) fun _ => .pure _ _ rfl

theorem hasNamedHandle_beside (c d : Cursor) (beside : c.Beside shift d) (stands : c.peek = '!') :
    hasNamedHandle (d.rest.drop 1) = hasNamedHandle (c.rest.drop 1) := by
  obtain ⟨rest, whole⟩ := c.rest_of_peek '!' stands (by decide)
  rw [beside.rest, whole, unifyLineEnds_cons '!' rest (by decide), hasNamedHandle, hasNamedHandle]
  rw [List.drop_one, List.drop_one, List.tail_cons, List.tail_cons,
    takeWhile_unifyLineEnds _ rfl rfl]

theorem alike_tagParts (stands : ∀ cursor, before cursor → cursor.peek = '!')
    (since start : Position) :
    Alike shift before (tagParts since) (tagParts start) Eq := by
  refine .peekAt_one_bind '!' stands fun second other alike => ?_
  rw [alike (by decide)]
  refine .cond (asFeed_class (· == '<') rfl second) (fun isAngle => ?_) fun _ => ?_
  · have secondAlone := ne_return_of_class (· == '<') second isAngle rfl
    refine .bind_eq (.skip_two '!' second (by decide) secondAlone fun cursor here => ?_) fun _ => ?_
    · exact ⟨stands cursor here.1, here.2⟩
    refine .bind_eq (alike_tagUri .ofTag since start) fun suffix => ?_
    refine .peek_bind fun closing => ?_
    refine .demand_bind _ _ _ _ _ _ _ _ (asFeed_class (· == '>') rfl closing) fun isClosing => ?_
    have closingAlone := ne_return_of_class (· == '>') closing isClosing rfl
    exact .bind_eq (.skip_peeked closing closingAlone fun _ here => here.2) fun _ => .pure _ _ rfl
  refine .cond (asFeed_class isBlankOrBreak rfl second) (fun _ => ?_) fun _ => ?_
  · refine .bind_eq (.skip_peeked '!' (by decide) fun cursor here => stands cursor here.1)
      fun _ => ?_
    exact .pure _ _ rfl
  refine .get_bind fun c d beside here => ?_
  refine .cond (hasNamedHandle_beside c d beside (stands c here.1)) (fun _ => ?_) fun _ => ?_
  · refine .bind_eq (alike_tagHandle .ofTag since start) fun handle => ?_
    exact .bind_eq (alike_tagUri .ofTag since start) fun _ => .pure _ _ rfl
  · have first : ∀ cursor, cursor = c → cursor.peek = '!' := by
      rintro cursor rfl
      exact stands cursor here.1
    refine .bind_eq (.skip_peeked '!' (by decide) first) fun _ => ?_
    exact .bind_eq (alike_tagUri .ofTag since start) fun _ => .pure _ _ rfl

theorem alike_tagToken (stands : ∀ cursor, before cursor → cursor.peek = '!') :
    Alike shift before tagToken tagToken fun t u => t = u.moved shift := by
  refine .place_bind fun start => ?_
  refine .bind_eq (alike_tagParts stands _ start) fun parts => ?_
  refine .peek_bind fun next => ?_
  refine .demand_bind _ _ _ _ _ _ _ _ (asFeed_class isSpaceOrBreakOrEnd rfl next) fun _ => ?_
  exact .place_bind fun stop => .pure _ _ rfl

theorem alike_nameToken (stands : ∀ cursor, before cursor → cursor.peek ≠ '\r')
    (activity : Activity)
    (lexeme : String → Lexeme) :
    Alike shift before (nameToken activity lexeme) (nameToken activity lexeme) fun t u =>
      t = u.moved shift := by
  refine .place_bind fun start => ?_
  refine .bind_eq (.skip_one stands) fun _ => ?_
  refine .bind_eq (.takeWhile _ rfl rfl) fun name => ?_
  refine .peek_bind fun next => ?_
  refine .demand_bind _ _ _ _ _ _ _ _ ?_ fun _ => ?_
  · rw [asFeed_class endsName rfl]
  exact .place_bind fun stop => .pure _ _ rfl

theorem alike_directiveNumber (since start : Position) :
    Alike shift before (directiveNumber since) (directiveNumber start) Eq := by
  refine .bind_eq (.takeWhile _ rfl rfl) fun digits => ?_
  refine .peek_bind fun next => ?_
  refine .demand_bind _ _ _ _ _ _ _ _ rfl fun _ => ?_
  refine .ite (fun _ => ?_) fun _ => ?_
  · exact .breakdown _
  · exact .pure _ _ rfl

theorem alike_versionValue (since start : Position) :
    Alike shift before (versionValue since) (versionValue start) Eq := by
  refine .bind_eq (.skipWhile _ rfl rfl) fun _ => ?_
  refine .bind_eq (alike_directiveNumber since start) fun major => ?_
  refine .peek_bind fun point => ?_
  refine .demand_bind _ _ _ _ _ _ _ _ (asFeed_class (· == '.') rfl point) fun isPoint => ?_
  have alone := ne_return_of_class (· == '.') point isPoint rfl
  refine .bind_eq (.skip_peeked point alone fun _ here => here.2) fun _ => ?_
  refine .bind_eq (alike_directiveNumber since start) fun minor => ?_
  refine .peek_bind fun next => ?_
  refine .demand_bind _ _ _ _ _ _ _ _ (asFeed_class isSpaceOrBreakOrEnd rfl next) fun _ => ?_
  exact .pure _ _ rfl

theorem alike_handleValue (since start : Position) :
    Alike shift before (handleValue since) (handleValue start) Eq := by
  refine .bind_eq (.skipWhile _ rfl rfl) fun _ => ?_
  refine .bind_eq (alike_tagHandle .ofDirective since start) fun handle => ?_
  refine .peek_bind fun next => ?_
  refine .demand_bind _ _ _ _ _ _ _ _ (asFeed_class (· == ' ') rfl next) fun _ => ?_
  refine .bind_eq (.skipWhile _ rfl rfl) fun _ => ?_
  refine .bind_eq (alike_tagUri .ofDirective since start) fun expansion => ?_
  refine .peek_bind fun next => ?_
  refine .demand_bind _ _ _ _ _ _ _ _ (asFeed_class isSpaceOrBreakOrEnd rfl next) fun _ => ?_
  exact .pure _ _ rfl

theorem alike_restOfLine (activity : Activity) (since start : Position) :
    Alike shift before (restOfLine activity since) (restOfLine activity start) Eq := by
  refine .bind_eq (.skipWhile _ rfl rfl) fun _ => ?_
  refine .bind_eq alike_skipComment fun _ => ?_
  refine .peek_bind fun next => ?_
  refine .demand_bind _ _ _ _ _ _ _ _ (asFeed_class isBreakOrEnd rfl next) fun _ => ?_
  exact .bind_eq .lineBreak fun _ => .pure _ _ rfl

theorem alike_directiveValue (name : List Char) (since start : Position) :
    Alike shift before (directiveValue name since) (directiveValue name start) Eq := by
  refine .ite (fun _ => alike_versionValue since start) fun _ => ?_
  refine .ite (fun _ => alike_handleValue since start) fun _ => ?_
  exact .bind_eq (.skipWhile _ rfl rfl) fun _ => .pure _ _ rfl

theorem alike_directiveToken (stands : ∀ cursor, before cursor → cursor.peek ≠ '\r') :
    Alike shift before directiveToken directiveToken fun t u => t = u.moved shift := by
  refine .place_bind fun start => ?_
  refine .bind_eq (.skip_one stands) fun _ => ?_
  refine .bind_eq (.takeWhile _ rfl rfl) fun name => ?_
  refine .peek_bind fun next => ?_
  refine .demand_bind _ _ _ _ _ _ _ _ ?_ fun _ => ?_
  · rw [asFeed_class isSpaceOrBreakOrEnd rfl]
  refine .bind_eq (alike_directiveValue name _ start) fun lexeme => ?_
  refine .place_bind fun stop => ?_
  exact .bind_eq (alike_restOfLine .directive _ start) fun _ => .pure _ _ rfl

theorem alike_quotedBreaks (since start : Position) (fuel : Nat) :
    Alike shift before (quotedBreaks since fuel) (quotedBreaks start fuel) Eq := by
  induction fuel generalizing before with
  | zero => exact .pure _ _ rfl
  | succ fuel ih =>
    refine .bind_eq alike_atDocumentMarker fun marked => ?_
    refine .demand_bind _ _ _ _ _ _ _ _ rfl fun _ => ?_
    refine .bind_eq (.skipWhile _ rfl rfl) fun _ => ?_
    refine .bind_eq .lineBreak fun found => ?_
    cases found with
    | none => exact .pure _ _ rfl
    | some c => exact .bind_eq ih fun _ => .pure _ _ rfl

theorem hexDigits_beside (c d : Cursor) (beside : c.Beside shift d) (width : Nat) :
    (∀ i < width, isHexDigit (c.peekAt i) = true ∧ d.peekAt i = c.peekAt i) ∨
      ∃ i < width, isHexDigit (c.peekAt i) = false ∧ isHexDigit (d.peekAt i) = false := by
  induction width with
  | zero => exact .inl fun i within => absurd within (Nat.not_lt_zero i)
  | succ width ih =>
    rcases ih with digits | ⟨i, within, none⟩
    next =>
      have here := beside.peekAt width fun i within =>
        ne_return_of_class isHexDigit _ (digits i within).1 rfl
      cases isDigit : isHexDigit (c.peekAt width) with
      | true =>
        rw [asFeed_of_ne _ (ne_return_of_class isHexDigit _ isDigit rfl)] at here
        refine .inl fun i within => ?_
        rcases Nat.lt_succ_iff_lt_or_eq.mp within with before | last
        · exact digits i before
        · rw [last]
          exact ⟨isDigit, here⟩
      | false =>
        refine .inr ⟨width, Nat.lt_succ_self width, isDigit, ?_⟩
        rw [here, asFeed_class isHexDigit rfl, isDigit]
    next => exact .inr ⟨i, Nat.lt_succ_of_lt within, none⟩

theorem find_nonDigit (cursor : Cursor) (width i : Nat) (within : i < width)
    (none : isHexDigit (cursor.peekAt i) = false) :
    ∃ found, ((List.range width).map cursor.peekAt).find? (fun c => !isHexDigit c) =
      some found := by
  refine Option.isSome_iff_exists.mp (List.find?_isSome.mpr ⟨cursor.peekAt i, ?_, ?_⟩)
  · exact List.mem_map_of_mem (List.mem_range.mpr within)
  · rw [none]
    rfl

theorem alike_codeEscape (since start : Position) (width : Nat) :
    Alike shift before (codeEscape since width) (codeEscape start width) Eq := by
  refine .get_bind fun c d beside _ => ?_
  rcases hexDigits_beside c d beside width with digits | ⟨i, within, noDigit, noDigitBeside⟩
  next =>
    have same : (List.range width).map d.peekAt = (List.range width).map c.peekAt :=
      List.map_congr_left fun i member => (digits i (List.mem_range.mp member)).2
    have all : ((List.range width).map c.peekAt).find? (fun ch => !isHexDigit ch) = none := by
      refine List.find?_eq_none.mpr fun ch member => ?_
      obtain ⟨i, inRange, rfl⟩ := List.mem_map.mp member
      rw [(digits i (List.mem_range.mp inRange)).1]
      decide
    simp only [same, all]
    refine .ite (fun _ => .breakdown _) fun _ => ?_
    refine .ite (fun _ => .breakdown _) fun _ => ?_
    refine .bind_eq (.skip width ?_) fun _ => .pure _ _ rfl
    rintro cursor rfl i within
    exact ne_return_of_class isHexDigit _ (digits i within).1 rfl
  next =>
    obtain ⟨found, finds⟩ := find_nonDigit c width i within noDigit
    obtain ⟨other, findsBeside⟩ := find_nonDigit d width i within noDigitBeside
    simp only [finds, findsBeside]
    exact .fail _ _ _ _ _ _

theorem alike_escape (since start : Position) :
    Alike shift before (escape since) (escape start) Eq := by
  refine .peek_bind fun c => ?_
  rw [asFeed_class simpleEscape rfl, asFeed_class escapeWidth rfl]
  cases simple : simpleEscape c with
  | some meant =>
    have alone := ne_return_of_some simpleEscape c meant simple rfl
    exact .bind_eq (.skip_peeked c alone fun _ here => here.2) fun _ => .pure _ _ rfl
  | none =>
    cases wide : escapeWidth c with
    | some width =>
      have alone := ne_return_of_some escapeWidth c width wide rfl
      refine .bind_eq (.skip_peeked c alone fun _ here => here.2) fun _ => ?_
      exact .bind_eq (alike_codeEscape since start width) fun _ => .pure _ _ rfl
    | none =>
      refine .bind_eq .lineBreak fun found => ?_
      refine .ite (fun _ => ?_) fun _ => .fail _ _ _ _ _ _
      refine .bind_eq .remaining fun fuel => ?_
      exact .bind_eq (alike_quotedBreaks since start fuel) fun _ => .pure _ _ rfl

-- The characters that only the other kind of quotes gives a meaning.
def isQuotedPlain (double : Bool) (c : Char) : Bool :=
  (double && c == '\'') || (!double && (c == '"' || c == '\\'))

theorem alike_quotedWord (double : Bool) (since start : Position) (fuel : Nat) :
    Alike shift before (quotedWord double since fuel) (quotedWord double start fuel) Eq := by
  induction fuel generalizing before with
  | zero => exact .pure _ _ rfl
  | succ fuel ih =>
    refine .bind_eq (.takeWhile _ rfl rfl) fun run => ?_
    refine .peek_bind fun c => ?_
    refine .peekAt_one_bind c (fun _ here => here.2) fun second other alike => ?_
    refine .cond ?_ (fun isPair => ?_) fun _ => ?_
    -- What follows is the same on both sides behind a quote; elsewhere it does not matter.
    · by_cases isQuote : c = '\''
      · rw [isQuote, alike (by rw [isQuote]; decide), asFeed_class (· == '\'') rfl second]
        rfl
      · rw [asFeed_class (· == '\'') rfl c, beq_false_of_ne isQuote, Bool.and_false, Bool.false_and,
          Bool.false_and]
    · simp only [Bool.and_eq_true, beq_iff_eq] at isPair
      refine .bind_eq (.skip_two '\'' '\'' (by decide) (by decide) fun cursor here => ?_)
        fun _ => ?_
      · exact ⟨here.1.2.trans isPair.1.2, here.2.trans isPair.2⟩
      exact .bind_eq ih fun _ => .pure _ _ rfl
    refine .cond (asFeed_class (isQuotedPlain double) rfl c) (fun isPlain => ?_) fun _ => ?_
    · have alone := ne_return_of_class (isQuotedPlain double) c isPlain (by cases double <;> rfl)
      refine .bind_eq (.skip_peeked c alone fun _ here => here.1.2) fun _ => ?_
      rw [asFeed_of_ne c alone]
      exact .bind_eq ih fun _ => .pure _ _ rfl
    refine .cond (asFeed_class (fun c => double && c == '\\') rfl c) (fun isEscape => ?_) fun _ =>
      .pure _ _ rfl
    have alone :=
      ne_return_of_class (fun c => double && c == '\\') c isEscape (Bool.and_false double)
    refine .bind_eq (.skip_peeked c alone fun _ here => here.1.2) fun _ => ?_
    refine .bind_eq (alike_escape since start) fun meant => ?_
    exact .bind_eq ih fun _ => .pure _ _ rfl

theorem alike_quotedGap (since start : Position) :
    Alike shift before (quotedGap since) (quotedGap start) Eq := by
  refine .bind_eq (.takeWhile _ rfl rfl) fun blanks => ?_
  refine .peek_bind fun c => ?_
  refine .demand_bind _ _ _ _ _ _ _ _ (asFeed_class (· != '\x00') rfl c) fun _ => ?_
  refine .bind_eq .lineBreak fun found => ?_
  cases found with
  | none => exact .pure _ _ rfl
  | some first =>
    refine .bind_eq .remaining fun fuel => ?_
    exact .bind_eq (alike_quotedBreaks since start fuel) fun _ => .pure _ _ rfl

theorem alike_quotedRest (double : Bool) (since start : Position) (fuel : Nat) :
    Alike shift before (quotedRest double since fuel) (quotedRest double start fuel) Eq := by
  induction fuel generalizing before with
  | zero => exact .pure _ _ rfl
  | succ fuel ih =>
    refine .peek_bind fun c => ?_
    refine .cond (asFeed_class (· == quote double) (by cases double <;> rfl) c) (fun isQuote => ?_)
      fun _ => ?_
    · have alone := ne_return_of_class (· == quote double) c isQuote (by cases double <;> rfl)
      exact .bind_eq (.skip_peeked c alone fun _ here => here.2) fun _ => .pure _ _ rfl
    refine .bind_eq (alike_quotedGap since start) fun gap => ?_
    refine .bind_eq .remaining fun left => ?_
    refine .bind_eq (alike_quotedWord double since start left) fun word => ?_
    exact .bind_eq ih fun _ => .pure _ _ rfl

theorem alike_quotedToken (stands : ∀ cursor, before cursor → cursor.peek ≠ '\r') (double : Bool) :
    Alike shift before (quotedToken double) (quotedToken double) fun t u => t = u.moved shift := by
  refine .place_bind fun start => ?_
  refine .bind_eq (.skip_one stands) fun _ => ?_
  refine .bind_eq .remaining fun left => ?_
  refine .bind_eq (alike_quotedWord double _ start left) fun word => ?_
  refine .bind_eq .remaining fun left => ?_
  refine .bind_eq (alike_quotedRest double _ start left) fun rest => ?_
  exact .place_bind fun stop => .pure _ _ rfl

theorem endsPlainWord_break (inFlow : Bool) (c next : Char) (isEnd : isBreak c = true) :
    endsPlainWord inFlow c next = true := by
  simp [endsPlainWord, isBlankOrBreak, isEnd]

theorem plainWordOf_unifyLineEnds (inFlow : Bool) (text : List Char) :
    plainWordOf inFlow (unifyLineEnds text) = plainWordOf inFlow text := by
  fun_induction unifyLineEnds text with
  | case1 => rfl
  | case2 rest ih =>
    rw [plainWordOf, plainWordOf, if_pos (endsPlainWord_break inFlow '\n' _ rfl),
      if_pos (endsPlainWord_break inFlow '\r' _ rfl)]
  | case3 c rest lone ih =>
    by_cases isReturn : c = '\r'
    next =>
      rw [if_pos isReturn, isReturn, plainWordOf, plainWordOf,
        if_pos (endsPlainWord_break inFlow '\n' _ rfl),
          if_pos (endsPlainWord_break inFlow '\r' _ rfl)]
    next =>
      rw [if_neg isReturn, plainWordOf, plainWordOf, headD_unifyLineEnds,
        asFeed_class (endsPlainWord inFlow c) rfl, ih]

theorem plainWordOf_prefix (inFlow : Bool) (text : List Char) :
    plainWordOf inFlow text <+: text := by
  fun_induction plainWordOf inFlow text with
  | case1 => exact List.prefix_rfl
  | case2 c rest ends => exact List.nil_prefix
  | case3 c rest goesOn ih => exact List.cons_prefix_cons.mpr ⟨rfl, ih⟩

theorem return_not_mem_plainWordOf (inFlow : Bool) (text : List Char) :
    '\r' ∉ plainWordOf inFlow text := by
  fun_induction plainWordOf inFlow text with
  | case1 | case2 => exact List.not_mem_nil
  | case3 c rest goesOn ih =>
    rw [List.mem_cons, not_or]
    refine ⟨?_, ih⟩
    rintro rfl
    exact goesOn (endsPlainWord_break inFlow '\r' _ rfl)

theorem alike_plainWord (inFlow : Bool) :
    Alike shift before (plainWord inFlow) (plainWord inFlow) Eq := by
  rintro c d ⟨beside, -⟩
  have whole := plainWordOf_prefix inFlow c.rest
  have wholeBeside := plainWordOf_prefix inFlow d.rest
  have same : plainWordOf inFlow d.rest = plainWordOf inFlow c.rest := by
    rw [beside.rest, plainWordOf_unifyLineEnds]
  refine .ok ⟨?_, ?_⟩
  · rw [← List.prefix_iff_eq_take.mp whole, ← List.prefix_iff_eq_take.mp wholeBeside, same]
  · rw [same]
    exact beside.skip _ (c.alone_of_prefix _ whole (return_not_mem_plainWordOf inFlow c.rest))

theorem alike_plainBreaks (fuel : Nat) :
    Alike shift before (plainBreaks fuel) (plainBreaks fuel) Eq := by
  induction fuel generalizing before with
  | zero => exact .pure _ _ rfl
  | succ fuel ih =>
    refine .bind_eq (.skipWhile _ rfl rfl) fun _ => ?_
    refine .bind_eq .lineBreak fun found => ?_
    cases found with
    | none => exact .pure _ _ rfl
    | some c =>
      refine .bind_eq alike_atDocumentMarker fun marked => ?_
      refine .ite (fun _ => .pure _ _ rfl) fun _ => ?_
      exact .bind_eq ih fun _ => .pure _ _ rfl

theorem alike_plainGap : Alike shift before plainGap plainGap Eq := by
  refine .bind_eq (.takeWhile _ rfl rfl) fun blanks => ?_
  refine .bind_eq .lineBreak fun found => ?_
  cases found with
  | none => exact .pure _ _ rfl
  | some first =>
    refine .bind_eq alike_atDocumentMarker fun marked => ?_
    refine .ite (fun _ => .pure _ _ rfl) fun _ => ?_
    refine .bind_eq .remaining fun left => ?_
    refine .bind_eq (alike_plainBreaks left) fun breaks => ?_
    cases breaks with
    | none => exact .pure _ _ rfl
    | some breaks => exact .pure _ _ rfl

def PlainText.moved (shift : Nat → Nat) (plain : PlainText) : PlainText :=
  ⟨plain.text, plain.stop.moved shift, plain.crossedLine⟩

theorem alike_plainRest (inFlow : Bool) (outer : Int) (fuel : Nat) :
    Alike shift before (plainRest inFlow outer fuel) (plainRest inFlow outer fuel) fun a b =>
      a = b.moved shift := by
  induction fuel generalizing before with
  | zero => exact .place_bind fun stop => .pure _ _ rfl
  | succ fuel ih =>
    refine .place_bind fun stop => ?_
    refine .bind_eq alike_plainGap fun gap => ?_
    refine .peek_bind fun next => ?_
    refine .place_bind fun here => ?_
    refine .cond ?_ (fun _ => .pure _ _ rfl) fun _ => ?_
    · rw [asFeed_class (· == '#') rfl next]
      rfl
    refine .bind_eq (alike_plainWord inFlow) fun word => ?_
    refine .ite (fun _ => .pure _ _ rfl) fun _ => ?_
    refine .bind ih fun rest others same => ?_
    rw [same]
    exact .pure _ _ rfl

theorem alike_plainToken (inFlow : Bool) (outer : Int) :
    Alike shift before (plainToken inFlow outer) (plainToken inFlow outer) fun a b =>
      a = (b.1.moved shift, b.2) := by
  refine .place_bind fun start => ?_
  refine .bind_eq (alike_plainWord inFlow) fun word => ?_
  refine .bind_eq .remaining fun left => ?_
  refine .bind (alike_plainRest inFlow outer left) fun rest others same => ?_
  rw [same]
  exact .pure _ _ rfl

theorem alike_chompingIndicator : Alike shift before chompingIndicator chompingIndicator Eq := by
  refine .peek_bind fun c => ?_
  rw [asFeed_class chompingOf rfl]
  cases chomps : chompingOf c with
  | none => exact .pure _ _ rfl
  | some chomping =>
    have alone := ne_return_of_some chompingOf c chomping chomps rfl
    exact .bind_eq (.skip_peeked c alone fun _ here => here.2) fun _ => .pure _ _ rfl

theorem alike_indentationIndicator (since start : Position) :
    Alike shift before (indentationIndicator since) (indentationIndicator start) Eq := by
  refine .peek_bind fun c => ?_
  refine .cond (asFeed_class isAsciiDigit rfl c) (fun isDigit => ?_) fun _ => .pure _ _ rfl
  have alone := ne_return_of_class isAsciiDigit c isDigit rfl
  refine .demand_bind _ _ _ _ _ _ _ _ (asFeed_class (· != '0') rfl c) fun _ => ?_
  refine .bind_eq (.skip_peeked c alone fun _ here => here.2) fun _ => ?_
  rw [asFeed_of_ne c alone]
  exact .pure _ _ rfl

theorem alike_lateChomping (early : Option Chomping) (increment : Option Nat) :
    Alike shift before (lateChomping early increment) (lateChomping early increment) Eq :=
  .ite (fun _ => alike_chompingIndicator) fun _ => .pure _ _ rfl

theorem alike_blockHeader (since start : Position) :
    Alike shift before (blockHeader since) (blockHeader start) Eq := by
  refine .bind_eq alike_chompingIndicator fun early => ?_
  refine .bind_eq (alike_indentationIndicator since start) fun increment => ?_
  refine .bind_eq (alike_lateChomping early increment) fun late => ?_
  refine .peek_bind fun next => ?_
  refine .demand_bind _ _ _ _ _ _ _ _ (asFeed_class isSpaceOrBreakOrEnd rfl next) fun _ => ?_
  exact .pure _ _ rfl

theorem alike_leadingBlanks (deepest fuel : Nat) :
    Alike shift before (leadingBlanks deepest fuel) (leadingBlanks deepest fuel) Eq := by
  induction fuel generalizing before deepest with
  | zero => exact .pure _ _ rfl
  | succ fuel ih =>
    refine .peek_bind fun c => ?_
    refine .cond (asFeed_class (· == ' ') rfl c) (fun isSpace => ?_) fun _ => ?_
    · have alone := ne_return_of_class (· == ' ') c isSpace rfl
      refine .bind_eq (.skip_peeked c alone fun _ here => here.2) fun _ => ?_
      exact .place_bind fun here => ih _
    · refine .bind_eq .lineBreak fun found => ?_
      cases found with
      | none => exact .pure _ _ rfl
      | some c => exact .bind_eq (ih _) fun _ => .pure _ _ rfl

theorem alike_skipIndentation (indent fuel : Nat) :
    Alike shift before (skipIndentation indent fuel) (skipIndentation indent fuel) Eq := by
  induction fuel generalizing before with
  | zero => exact .pure _ _ rfl
  | succ fuel ih =>
    refine .place_bind fun here => ?_
    refine .peek_bind fun c => ?_
    refine .cond (asFeed_class (fun c => decide (here.column < indent) && c == ' ') rfl c)
      (fun isSpace => ?_) fun _ => .pure _ _ rfl
    have alone := ne_return_of_class (fun c => decide (here.column < indent) && c == ' ') c isSpace
      (Bool.and_false _)
    exact .bind_eq (.skip_peeked c alone fun _ here => here.2) fun _ => ih

theorem alike_blockBreaks (indent fuel : Nat) :
    Alike shift before (blockBreaks indent fuel) (blockBreaks indent fuel) Eq := by
  induction fuel generalizing before with
  | zero => exact .pure _ _ rfl
  | succ fuel ih =>
    refine .bind_eq (alike_skipIndentation indent indent) fun _ => ?_
    refine .bind_eq .lineBreak fun found => ?_
    cases found with
    | none => exact .pure _ _ rfl
    | some c => exact .bind_eq ih fun _ => .pure _ _ rfl

theorem alike_atBlockLine (indent : Nat) :
    Alike shift before (atBlockLine indent) (atBlockLine indent) Eq := by
  refine .place_bind fun here => ?_
  refine .peek_bind fun c => .pure _ _ ?_
  rw [asFeed_class (· != '\x00') rfl c]
  rfl

theorem alike_blockLines (foldLines : Bool) (chomping : Chomping) (indent fuel : Nat) :
    Alike shift before (blockLines foldLines chomping indent fuel)
      (blockLines foldLines chomping indent fuel) Eq := by
  induction fuel generalizing before with
  | zero => exact .pure _ _ rfl
  | succ fuel ih =>
    refine .peek_bind fun first => ?_
    rw [asFeed_class isBlank rfl]
    refine .bind_eq (.takeWhile _ rfl rfl) fun line => ?_
    refine .bind_eq .lineBreak fun lineEnd => ?_
    refine .bind_eq .remaining fun left => ?_
    refine .bind_eq (alike_blockBreaks indent left) fun breaks => ?_
    refine .bind_eq (alike_atBlockLine indent) fun goesOn => ?_
    refine .ite (fun _ => ?_) fun _ => .pure _ _ rfl
    refine .peek_bind fun second => ?_
    rw [asFeed_class isBlank rfl]
    exact .bind_eq ih fun _ => .pure _ _ rfl

theorem alike_blockLeading (least : Nat) (increment : Option Nat) :
    Alike shift before (blockLeading least increment) (blockLeading least increment) Eq := by
  cases increment with
  | none =>
    refine .bind_eq .remaining fun left => ?_
    exact .bind_eq (alike_leadingBlanks 0 left) fun _ => .pure _ _ rfl
  | some increment =>
    refine .bind_eq .remaining fun left => ?_
    exact .bind_eq (alike_blockBreaks _ left) fun _ => .pure _ _ rfl

theorem alike_blockText (foldLines : Bool) (chomping : Chomping) (leading : List Char)
    (indent : Nat) :
    Alike shift before (blockText foldLines chomping leading indent)
      (blockText foldLines chomping leading indent) Eq := by
  refine .bind_eq (alike_atBlockLine indent) fun goesOn => ?_
  refine .ite (fun _ => ?_) fun _ => .pure _ _ rfl
  refine .bind_eq .remaining fun left => ?_
  exact .bind_eq (alike_blockLines foldLines chomping indent left) fun _ => .pure _ _ rfl

theorem alike_blockToken (stands : ∀ cursor, before cursor → cursor.peek ≠ '\r') (foldLines : Bool)
    (outer : Int) :
    Alike shift before (blockToken foldLines outer) (blockToken foldLines outer) fun t u =>
      t = u.moved shift := by
  refine .place_bind fun start => ?_
  refine .bind_eq (.skip_one stands) fun _ => ?_
  refine .bind_eq (alike_blockHeader _ start) fun header => ?_
  refine .bind_eq (alike_restOfLine .blockScalar _ start) fun _ => ?_
  refine .bind_eq (alike_blockLeading _ header.2) fun leading => ?_
  refine .bind_eq (alike_blockText foldLines header.1 leading.1 leading.2) fun text => ?_
  exact .place_bind fun stop => .pure _ _ rfl

end LocaleLint.Yaml.Scan
