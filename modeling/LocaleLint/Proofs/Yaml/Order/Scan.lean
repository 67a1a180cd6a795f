import LocaleLint.Yaml.Token.Plain
import LocaleLint.Yaml.Token.Block

set_option autoImplicit false

namespace LocaleLint.Yaml

/-- What a run leads to from each state of a kind, and what it may stop with. -/
def Attains {σ ε α : Type} (halts : ε → Prop) (before : σ → Prop) (x : StateT σ (Except ε) α)
    (after : α → σ → Prop) : Prop :=
  ∀ s, before s →
    match x.run s with
    | .ok (a, s) => after a s
    | .error stop => halts stop

namespace Attains

variable {σ ε α β : Type} {halts : ε → Prop} {before : σ → Prop} {x : StateT σ (Except ε) α}
  {after : α → σ → Prop}

theorem pure (a : α) (holds : ∀ s, before s → after a s) :
    Attains halts before (pure a : StateT σ (Except ε) α) after :=
  holds

theorem throw (stop : ε) (halted : halts stop) :
    Attains halts before (throw stop : StateT σ (Except ε) α) after :=
  fun _ _ => halted

theorem bind {f : α → StateT σ (Except ε) β} {last : β → σ → Prop}
    (first : Attains halts before x after) (next : ∀ a, Attains halts (after a) (f a) last) :
    Attains halts before (x >>= f) last := by
  intro s begins
  have reached := first s begins
  rw [StateT.run_bind]
  cases ran : x.run s with
  | error stop =>
    rw [ran] at reached
    exact reached
  | ok pair =>
    rw [ran] at reached
    exact next pair.1 pair.2 reached

theorem bind_same {f : α → StateT σ (Except ε) β} {last : β → σ → Prop} {s : σ} {good : α → Prop}
    (first : Attains halts before x fun a reached => reached = s ∧ good a)
    (next : ∀ a, good a → Attains halts (· = s) (f a) last) : Attains halts before (x >>= f) last :=
  .bind first fun a reached here => next a here.2 reached here.1

theorem weaken {sooner : σ → Prop} {last : α → σ → Prop} (reached : Attains halts before x after)
    (earlier : ∀ s, sooner s → before s) (later : ∀ a s, after a s → last a s) :
    Attains halts sooner x last := by
  intro s begins
  have ends := reached s (earlier s begins)
  cases ran : x.run s with
  | ok pair =>
    rw [ran] at ends
    exact later pair.1 pair.2 ends
  | error stop =>
    rw [ran] at ends
    exact ends

theorem get_bind {f : σ → StateT σ (Except ε) α}
    (next : ∀ s, before s → Attains halts (· = s) (f s) after) :
    Attains halts before (get >>= f) after :=
  fun s begins => next s begins s rfl

theorem modify (change : σ → σ) {after : Unit → σ → Prop}
    (ends : ∀ s, before s → after () (change s)) :
    Attains halts before (modify change : StateT σ (Except ε) Unit) after :=
  ends

theorem ite {p : Prop} [Decidable p] {x y : StateT σ (Except ε) α}
    (holds : p → Attains halts before x after) (fails : ¬ p → Attains halts before y after) :
    Attains halts before (if p then x else y) after := by
  split
  · next here => exact holds here
  · next here => exact fails here

end Attains

variable (source : List Char)

structure Position.IsIn (p : Position) : Prop where
  within : p.index ≤ source.length
  place : p = positionAt source p.index

structure Cursor.IsIn (c : Cursor) : Prop where
  place : c.place.IsIn source
  rest : c.rest = source.drop c.place.index

def Stop.IsIn : Stop → Prop
  | .fault met => met.place.IsIn source
  | .unacceptable _ _ | .breakdown _ => True

theorem Position.line_after_le (p : Position) (text : List Char) (count : Nat) :
    (p.after text count).line ≤ p.line + count := by
  induction count generalizing p text with
  | zero => cases text <;> exact Nat.le_refl _
  | succ count ih =>
    cases text with
    | nil => exact Nat.le_add_right _ _
    | cons c rest =>
      have step : (p.step c rest).line ≤ p.line + 1 := by
        unfold step
        split
        · exact Nat.le_refl _
        · split <;> exact Nat.le_succ _
      have later := ih (p.step c rest) rest
      rw [after]
      omega

theorem Position.IsIn.line_le {p : Position} (isIn : p.IsIn source) : p.line ≤ source.length := by
  have line := Position.start.line_after_le source p.index
  rw [← positionAt, ← isIn.place] at line
  have zero : Position.start.line = 0 := rfl
  have within := isIn.within
  omega

theorem Position.after_drop (p : Position) (text : List Char) (m : Nat) (c : Char)
    (rest : List Char)
    (here : text.drop m = c :: rest) :
    p.after text (m + 1) = (p.after text m).step c rest := by
  induction m generalizing p text with
  | zero =>
    rw [List.drop_zero] at here
    rw [here]
    cases rest <;> rfl
  | succ m ih =>
    cases text with
    | nil => cases here
    | cons d text => exact ih (p.step d text) text here

theorem Position.start_isIn : Position.start.IsIn source :=
  ⟨Nat.zero_le _, by cases source <;> rfl⟩

/-- A cursor in the source, no earlier than an index. -/
structure Cursor.Behind (n : Nat) (c : Cursor) : Prop where
  isIn : c.IsIn source
  least : n ≤ c.place.index

variable {source} {n : Nat}

theorem Cursor.Behind.next {c : Cursor} (behind : c.Behind source n) : c.next.Behind source n := by
  obtain ⟨⟨isIn, rest⟩, least⟩ := behind
  unfold Cursor.next
  cases whole : c.rest with
  | nil => exact ⟨⟨isIn, rest⟩, least⟩
  | cons ch more =>
    rw [whole] at rest
    have index : (c.place.step ch more).index = c.place.index + 1 := Position.step_index _ _ _
    have inside : c.place.index < source.length := by
      rw [← Nat.not_le]
      intro beyond
      rw [List.drop_eq_nil_of_le beyond] at rest
      cases rest
    have stepped := Position.start.after_drop source c.place.index ch more rest.symm
    rw [← positionAt, ← positionAt, ← isIn.place] at stepped
    refine ⟨⟨⟨?_, ?_⟩, ?_⟩, ?_⟩
    · exact index.symm ▸ inside
    · rw [index, stepped]
    · rw [index, ← List.drop_drop, ← rest]
      rfl
    · exact index.symm ▸ Nat.le_succ_of_le least

theorem Cursor.Behind.skip {c : Cursor} (behind : c.Behind source n) (count : Nat) :
    (c.skip count).Behind source n := by
  induction count generalizing c with
  | zero => exact behind
  | succ count ih => exact ih behind.next

theorem Cursor.Behind.skipWhile {c : Cursor} (behind : c.Behind source n) (keep : Char → Bool) :
    (c.skipWhile keep).Behind source n := by
  obtain ⟨rest, place⟩ := c
  induction rest generalizing place with
  | nil => exact behind
  | cons ch rest ih =>
    rw [Cursor.skipWhile, Cursor.skipWhileFrom]
    split
    · exact ih (place.step ch rest) behind.next
    · exact behind

variable (source)

/-- Reading goes on in the source, and stops at no place outside. -/
def Onward {α : Type} (x : Scan α) : Prop :=
  ∀ n, Attains (Stop.IsIn source) (Cursor.Behind source n) x fun _ => Cursor.Behind source n

variable {source}

namespace Onward

variable {α β : Type} {x y : Scan α} {f : α → Scan β}

theorem pure (a : α) : Onward source (pure a) := fun _ => .pure a fun _ here => here

theorem bind (first : Onward source x) (next : ∀ a, Onward source (f a)) :
    Onward source (x >>= f) :=
  fun n => .bind (first n) fun a => next a n

theorem ite {p : Prop} [Decidable p] (holds : Onward source x) (fails : Onward source y) :
    Onward source (if p then x else y) :=
  fun n => .ite (fun _ => holds n) fun _ => fails n

theorem get_bind {f : Cursor → Scan β} (next : ∀ c, Onward source (f c)) :
    Onward source (get >>= f) := by
  refine fun n => .get_bind fun c here => ?_
  exact (next c n).weaken (fun _ same => same ▸ here) fun _ _ reached => reached

theorem modify {change : Cursor → Cursor}
    (keeps : ∀ n c, Cursor.Behind source n c → Cursor.Behind source n (change c)) :
    Onward source (modify change : Scan Unit) :=
  fun n => .modify change (keeps n)

theorem place_bind {f : Position → Scan β} (next : ∀ p, p.IsIn source → Onward source (f p)) :
    Onward source (Scan.place >>= f) := by
  intro n c here
  exact next c.place here.isIn.place n c here

theorem peek : Onward source Scan.peek := fun _ _ here => here

theorem peekAt (offset : Nat) : Onward source (Scan.peekAt offset) := fun _ _ here => here

theorem remaining : Onward source Scan.remaining := fun _ _ here => here

theorem place : Onward source Scan.place := fun _ _ here => here

theorem skip (count : Nat) : Onward source (Scan.skip count) :=
  modify fun _ _ here => here.skip count

theorem skipWhile (keep : Char → Bool) : Onward source (Scan.skipWhile keep) :=
  modify fun _ _ here => here.skipWhile keep

theorem takeWhile (keep : Char → Bool) : Onward source (Scan.takeWhile keep) :=
  fun _ _ here => here.skipWhile keep

theorem take (count : Nat) : Onward source (Scan.take count) := fun _ _ here => here.skip count

theorem breakdown (b : Breakdown) : Onward source (Scan.breakdown b : Scan α) :=
  fun _ => .throw _ trivial

theorem fail (activity : Activity) (since : Position) (cause : Cause) :
    Onward source (Scan.fail activity since cause : Scan α) :=
  place_bind fun _ isIn _ => .throw _ isIn

theorem demand (holds : Bool) (activity : Activity) (since : Position) (cause : Cause) :
    Onward source (Scan.demand holds activity since cause) :=
  .ite (.pure ()) (.fail activity since cause)

theorem lineBreak : Onward source Scan.lineBreak := by
  refine .bind .peek fun c => .bind (.peekAt 1) fun next => ?_
  refine .ite (.bind (.skip 2) fun _ => .pure _) (.ite (.bind (.skip 1) fun _ => .pure _) ?_)
  exact .ite (.bind (.skip 1) fun _ => .pure _) (.pure _)

theorem skipComment : Onward source Scan.skipComment :=
  .bind .peek fun _ => .ite (.skipWhile _) (.pure _)

theorem atDocumentMarker : Onward source Scan.atDocumentMarker := fun _ _ here => here

end Onward

namespace Scan

theorem onward_escapedOctets (setting : TagSetting) (since : Position) (fuel : Nat) :
    Onward source (escapedOctets setting since fuel) := by
  induction fuel with
  | zero => exact .pure _
  | succ fuel ih =>
    refine .bind .peek fun _ => .ite ?_ (.pure _)
    refine .bind (.skip 1) fun _ => .bind .peek fun _ => .bind (.demand _ _ _ _) fun _ => ?_
    refine .bind (.peekAt 1) fun _ => .bind (.demand _ _ _ _) fun _ => .bind (.skip 2) fun _ => ?_
    exact .bind ih fun _ => .pure _

theorem onward_uriEscapes (setting : TagSetting) (since : Position) :
    Onward source (uriEscapes setting since) := by
  refine .place_bind fun start isIn => .bind .remaining fun fuel => ?_
  refine .bind (onward_escapedOctets setting since fuel) fun octets => ?_
  cases Encoding.Utf8.decode octets with
  | ok text => exact .pure _
  | error bad => exact fun _ => .throw _ isIn

theorem onward_uriChunks (setting : TagSetting) (since : Position) (fuel : Nat) :
    Onward source (uriChunks setting since fuel) := by
  induction fuel with
  | zero => exact .pure _
  | succ fuel ih =>
    refine .bind .peek fun _ => .ite ?_ (.ite ?_ (.pure _))
    · exact .bind (onward_uriEscapes setting since) fun _ => .bind ih fun _ => .pure _
    · exact .bind (.skip 1) fun _ => .bind ih fun _ => .pure _

theorem onward_tagUri (setting : TagSetting) (since : Position) :
    Onward source (tagUri setting since) := by
  refine .bind .peek fun _ => .bind (.demand _ _ _ _) fun _ => .bind .remaining fun fuel => ?_
  exact .bind (onward_uriChunks setting since fuel) fun _ => .pure _

theorem onward_tagHandle (setting : TagSetting) (since : Position) :
    Onward source (tagHandle setting since) := by
  refine .bind .peek fun _ => .bind (.demand _ _ _ _) fun _ => .bind (.skip 1) fun _ => ?_
  refine .bind .peek fun _ => .ite (.pure _) ?_
  refine .bind (.takeWhile _) fun _ => .bind .peek fun _ => .bind (.demand _ _ _ _) fun _ => ?_
  exact .bind (.skip 1) fun _ => .pure _

theorem onward_tagParts (since : Position) : Onward source (tagParts since) := by
  refine .bind (.peekAt 1) fun _ => .ite ?_ (.ite ?_ (.get_bind fun _ => .ite ?_ ?_))
  · refine .bind (.skip 2) fun _ => .bind (onward_tagUri .ofTag since) fun _ => ?_
    refine .bind .peek fun _ => .bind (.demand _ _ _ _) fun _ => ?_
    exact .bind (.skip 1) fun _ => .pure _
  · exact .bind (.skip 1) fun _ => .pure _
  · refine .bind (onward_tagHandle .ofTag since) fun _ => ?_
    exact .bind (onward_tagUri .ofTag since) fun _ => .pure _
  · exact .bind (.skip 1) fun _ => .bind (onward_tagUri .ofTag since) fun _ => .pure _

theorem onward_directiveNumber (since : Position) : Onward source (directiveNumber since) := by
  refine .bind (.takeWhile _) fun _ => .bind .peek fun _ => .bind (.demand _ _ _ _) fun _ => ?_
  exact .ite (.breakdown _) (.pure _)

theorem onward_versionValue (since : Position) : Onward source (versionValue since) := by
  refine .bind (.skipWhile _) fun _ => .bind (onward_directiveNumber since) fun _ => ?_
  refine .bind .peek fun _ => .bind (.demand _ _ _ _) fun _ => .bind (.skip 1) fun _ => ?_
  refine .bind (onward_directiveNumber since) fun _ => .bind .peek fun _ => ?_
  exact .bind (.demand _ _ _ _) fun _ => .pure _

theorem onward_handleValue (since : Position) : Onward source (handleValue since) := by
  refine .bind (.skipWhile _) fun _ => .bind (onward_tagHandle .ofDirective since) fun _ => ?_
  refine .bind .peek fun _ => .bind (.demand _ _ _ _) fun _ => .bind (.skipWhile _) fun _ => ?_
  refine .bind (onward_tagUri .ofDirective since) fun _ => .bind .peek fun _ => ?_
  exact .bind (.demand _ _ _ _) fun _ => .pure _

theorem onward_restOfLine (activity : Activity) (since : Position) :
    Onward source (restOfLine activity since) := by
  refine .bind (.skipWhile _) fun _ => .bind .skipComment fun _ => .bind .peek fun _ => ?_
  exact .bind (.demand _ _ _ _) fun _ => .bind .lineBreak fun _ => .pure _

theorem onward_directiveValue (name : List Char) (since : Position) :
    Onward source (directiveValue name since) :=
  .ite (onward_versionValue since) (.ite (onward_handleValue since)
    (.bind (.skipWhile _) fun _ => .pure _))

theorem onward_codeEscape (since : Position) (width : Nat) :
    Onward source (codeEscape since width) := by
  refine .get_bind fun cursor => ?_
  dsimp only
  split
  · exact .fail _ _ _
  · exact .ite (.breakdown _) (.ite (.breakdown _) (.bind (.skip _) fun _ => .pure _))

theorem onward_quotedBreaks (since : Position) (fuel : Nat) :
    Onward source (quotedBreaks since fuel) := by
  induction fuel with
  | zero => exact .pure _
  | succ fuel ih =>
    refine .bind .atDocumentMarker fun _ => .bind (.demand _ _ _ _) fun _ => ?_
    refine .bind (.skipWhile _) fun _ => .bind .lineBreak fun found => ?_
    cases found with
    | none => exact .pure _
    | some c => exact .bind ih fun _ => .pure _

theorem onward_escape (since : Position) : Onward source (escape since) := by
  refine .bind .peek fun c => ?_
  split
  · exact .bind (.skip 1) fun _ => .pure _
  · exact .bind (.skip 1) fun _ => .bind (onward_codeEscape since _) fun _ => .pure _
  · refine .bind .lineBreak fun _ => .ite ?_ (.fail _ _ _)
    exact .bind .remaining fun fuel => .bind (onward_quotedBreaks since fuel) fun _ => .pure _

theorem onward_quotedWord (double : Bool) (since : Position) (fuel : Nat) :
    Onward source (quotedWord double since fuel) := by
  induction fuel with
  | zero => exact .pure _
  | succ fuel ih =>
    refine .bind (.takeWhile _) fun _ => .bind .peek fun _ => .bind (.peekAt 1) fun _ => ?_
    refine .ite (.bind (.skip 2) fun _ => .bind ih fun _ => .pure _) ?_
    refine .ite (.bind (.skip 1) fun _ => .bind ih fun _ => .pure _) (.ite ?_ (.pure _))
    refine .bind (.skip 1) fun _ => .bind (onward_escape since) fun _ => ?_
    exact .bind ih fun _ => .pure _

theorem onward_quotedGap (since : Position) : Onward source (quotedGap since) := by
  refine .bind (.takeWhile _) fun _ => .bind .peek fun _ => .bind (.demand _ _ _ _) fun _ => ?_
  refine .bind .lineBreak fun found => ?_
  cases found with
  | none => exact .pure _
  | some first =>
    exact .bind .remaining fun fuel => .bind (onward_quotedBreaks since fuel) fun _ => .pure _

theorem onward_quotedRest (double : Bool) (since : Position) (fuel : Nat) :
    Onward source (quotedRest double since fuel) := by
  induction fuel with
  | zero => exact .pure _
  | succ fuel ih =>
    refine .bind .peek fun _ => .ite (.bind (.skip 1) fun _ => .pure _) ?_
    refine .bind (onward_quotedGap since) fun _ => .bind .remaining fun left => ?_
    exact .bind (onward_quotedWord double since left) fun _ => .bind ih fun _ => .pure _

theorem onward_chompingIndicator : Onward source chompingIndicator := by
  refine .bind .peek fun c => ?_
  split
  · exact .bind (.skip 1) fun _ => .pure _
  · exact .pure _

theorem onward_indentationIndicator (since : Position) :
    Onward source (indentationIndicator since) := by
  refine .bind .peek fun _ => .ite ?_ (.pure _)
  exact .bind (.demand _ _ _ _) fun _ => .bind (.skip 1) fun _ => .pure _

theorem onward_blockHeader (since : Position) : Onward source (blockHeader since) := by
  refine .bind onward_chompingIndicator fun _ => ?_
  refine .bind (onward_indentationIndicator since) fun _ => ?_
  refine .bind (.ite onward_chompingIndicator (.pure _)) fun _ => .bind .peek fun _ => ?_
  exact .bind (.demand _ _ _ _) fun _ => .pure _

theorem onward_leadingBlanks (deepest fuel : Nat) : Onward source (leadingBlanks deepest fuel) := by
  induction fuel generalizing deepest with
  | zero => exact .pure _
  | succ fuel ih =>
    refine .bind .peek fun _ => .ite (.bind (.skip 1) fun _ => .bind .place fun _ => ih _) ?_
    refine .bind .lineBreak fun found => ?_
    cases found with
    | none => exact .pure _
    | some c => exact .bind (ih deepest) fun _ => .pure _

theorem onward_skipIndentation (indent fuel : Nat) :
    Onward source (skipIndentation indent fuel) := by
  induction fuel with
  | zero => exact .pure _
  | succ fuel ih =>
    refine .bind .place fun _ => .bind .peek fun _ => .ite ?_ (.pure _)
    exact .bind (.skip 1) fun _ => ih

theorem onward_blockBreaks (indent fuel : Nat) : Onward source (blockBreaks indent fuel) := by
  induction fuel with
  | zero => exact .pure _
  | succ fuel ih =>
    refine .bind (onward_skipIndentation indent indent) fun _ => .bind .lineBreak fun found => ?_
    cases found with
    | none => exact .pure _
    | some c => exact .bind ih fun _ => .pure _

theorem onward_atBlockLine (indent : Nat) : Onward source (atBlockLine indent) :=
  .bind .place fun _ => .bind .peek fun _ => .pure _

theorem onward_blockLines (foldLines : Bool) (chomping : Chomping) (indent fuel : Nat) :
    Onward source (blockLines foldLines chomping indent fuel) := by
  induction fuel with
  | zero => exact .pure _
  | succ fuel ih =>
    refine .bind .peek fun _ => .bind (.takeWhile _) fun _ => .bind .lineBreak fun _ => ?_
    refine .bind .remaining fun left => .bind (onward_blockBreaks indent left) fun _ => ?_
    refine .bind (onward_atBlockLine indent) fun _ => .ite ?_ (.pure _)
    exact .bind .peek fun _ => .bind ih fun _ => .pure _

theorem onward_blockLeading (least : Nat) (increment : Option Nat) :
    Onward source (blockLeading least increment) := by
  cases increment with
  | none =>
    exact .bind .remaining fun fuel => .bind (onward_leadingBlanks 0 fuel) fun _ => .pure _
  | some increment =>
    exact .bind .remaining fun fuel => .bind (onward_blockBreaks _ fuel) fun _ => .pure _

theorem onward_blockText (foldLines : Bool) (chomping : Chomping) (leading : List Char)
    (indent : Nat) : Onward source (blockText foldLines chomping leading indent) := by
  refine .bind (onward_atBlockLine indent) fun _ => .ite ?_ (.pure _)
  exact .bind .remaining fun fuel => .bind (onward_blockLines _ _ _ fuel) fun _ => .pure _

theorem onward_plainWord (inFlow : Bool) : Onward source (plainWord inFlow) :=
  .get_bind fun _ => .take _

theorem onward_plainBreaks (fuel : Nat) : Onward source (plainBreaks fuel) := by
  induction fuel with
  | zero => exact .pure _
  | succ fuel ih =>
    refine .bind (.skipWhile _) fun _ => .bind .lineBreak fun found => ?_
    cases found with
    | none => exact .pure _
    | some c =>
      exact .bind .atDocumentMarker fun _ => .ite (.pure _) (.bind ih fun _ => .pure _)

theorem onward_plainGap : Onward source plainGap := by
  refine .bind (.takeWhile _) fun _ => .bind .lineBreak fun found => ?_
  cases found with
  | none => exact .pure _
  | some first =>
    refine .bind .atDocumentMarker fun _ => .ite (.pure _) ?_
    refine .bind .remaining fun fuel => .bind (onward_plainBreaks fuel) fun breaks => ?_
    cases breaks <;> exact .pure _

end Scan

variable (source)

structure Token.IsFrom (n : Nat) (token : Token) : Prop where
  start : token.start.IsIn source
  stop : token.stop.IsIn source
  least : n ≤ token.start.index
  length : token.start.index ≤ token.stop.index

/-- A token is read behind the cursor, and the cursor ends behind the token. -/
def Gives (n : Nat) (x : Scan Token) : Prop :=
  Attains (Stop.IsIn source) (Cursor.Behind source n) x fun token c =>
    token.IsFrom source n ∧ c.Behind source token.stop.index

variable {source}

theorem Onward.first {α β : Type} {x : Scan α} {f : α → Scan β} {after : β → Cursor → Prop}
    (onward : Onward source x)
    (next : ∀ a, Attains (Stop.IsIn source) (Cursor.Behind source n) (f a) after) :
    Attains (Stop.IsIn source) (Cursor.Behind source n) (x >>= f) after :=
  .bind (onward n) next

theorem Attains.place_bind {α : Type} {f : Position → Scan α} {after : α → Cursor → Prop}
    (next : ∀ p, p.IsIn source → n ≤ p.index →
      Attains (Stop.IsIn source) (Cursor.Behind source p.index) (f p) after) :
    Attains (Stop.IsIn source) (Cursor.Behind source n) (Scan.place >>= f) after := by
  intro c here
  exact next c.place here.isIn.place here.least c ⟨here.isIn, Nat.le_refl _⟩

theorem attains_token {start : Position} (isIn : start.IsIn source) (least : n ≤ start.index)
    (lexeme : Lexeme) :
    Attains (Stop.IsIn source) (Cursor.Behind source start.index)
      (Scan.place >>= fun stop => pure (⟨lexeme, start, stop⟩ : Token)) fun token c =>
        token.IsFrom source n ∧ c.Behind source token.stop.index :=
  .place_bind fun _ stopIn length => .pure _ fun _ here => ⟨⟨isIn, stopIn, least, length⟩, here⟩

namespace Scan

theorem gives_tagToken : Gives source n tagToken := by
  refine .place_bind fun start isIn least => (onward_tagParts start).first fun parts => ?_
  refine Onward.peek.first fun _ => (Onward.demand _ _ _ _).first fun _ => ?_
  exact attains_token isIn least _

theorem gives_nameToken (activity : Activity) (lexeme : String → Lexeme) :
    Gives source n (nameToken activity lexeme) := by
  refine .place_bind fun start isIn least => (Onward.skip 1).first fun _ => ?_
  refine (Onward.takeWhile _).first fun _ => Onward.peek.first fun _ => ?_
  exact (Onward.demand _ _ _ _).first fun _ => attains_token isIn least _

theorem gives_directiveToken : Gives source n directiveToken := by
  refine .place_bind fun start isIn least => (Onward.skip 1).first fun _ => ?_
  refine (Onward.takeWhile _).first fun name => Onward.peek.first fun _ => ?_
  refine (Onward.demand _ _ _ _).first fun _ => (onward_directiveValue name start).first fun _ => ?_
  refine .place_bind fun stop stopIn length => (onward_restOfLine .directive start).first
    fun _ => ?_
  exact .pure _ fun _ here => ⟨⟨isIn, stopIn, least, length⟩, here⟩

theorem gives_quotedToken (double : Bool) : Gives source n (quotedToken double) := by
  refine .place_bind fun start isIn least => (Onward.skip 1).first fun _ => ?_
  refine Onward.remaining.first fun left => (onward_quotedWord double start left).first fun _ => ?_
  refine Onward.remaining.first fun left => (onward_quotedRest double start left).first fun _ => ?_
  exact attains_token isIn least _

theorem gives_blockToken (foldLines : Bool) (outer : Int) :
    Gives source n (blockToken foldLines outer) := by
  refine .place_bind fun start isIn least => (Onward.skip 1).first fun _ => ?_
  refine (onward_blockHeader start).first fun _ => (onward_restOfLine _ start).first fun _ => ?_
  refine (onward_blockLeading _ _).first fun _ => (onward_blockText _ _ _ _).first fun _ => ?_
  exact attains_token isIn least _

theorem gives_plainRest (inFlow : Bool) (outer : Int) (fuel : Nat) :
    Attains (Stop.IsIn source) (Cursor.Behind source n) (plainRest inFlow outer fuel) fun rest c =>
      rest.stop.IsIn source ∧ n ≤ rest.stop.index ∧ c.Behind source rest.stop.index := by
  induction fuel generalizing n with
  | zero => exact .place_bind fun p isIn least => .pure _ fun _ here => ⟨isIn, least, here⟩
  | succ fuel ih =>
    refine .place_bind fun stop isIn least => onward_plainGap.first fun gap => ?_
    refine Onward.peek.first fun _ => Onward.place.first fun _ => ?_
    have ends : Attains (Stop.IsIn source) (Cursor.Behind source stop.index)
        (pure ⟨[], stop, gap.crossedLine⟩ : Scan PlainText) fun rest c =>
          rest.stop.IsIn source ∧ n ≤ rest.stop.index ∧ c.Behind source rest.stop.index :=
      .pure _ fun _ here => ⟨isIn, least, here⟩
    refine .ite (fun _ => ends) fun _ => (onward_plainWord inFlow).first fun _ => ?_
    refine .ite (fun _ => ends) fun _ => .bind ih fun rest => .pure _ fun _ here => ?_
    exact ⟨here.1, Nat.le_trans least here.2.1, here.2.2⟩

theorem gives_plainToken (inFlow : Bool) (outer : Int) :
    Attains (Stop.IsIn source) (Cursor.Behind source n) (plainToken inFlow outer) fun read c =>
      read.1.IsFrom source n ∧ c.Behind source read.1.stop.index := by
  refine .place_bind fun start isIn least => (onward_plainWord inFlow).first fun _ => ?_
  refine Onward.remaining.first fun left => .bind (gives_plainRest inFlow outer left) fun rest => ?_
  exact .pure _ fun _ here => ⟨⟨isIn, here.1, least, here.2.1⟩, here.2.2⟩

end Scan

end LocaleLint.Yaml
