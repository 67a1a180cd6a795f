import LocaleLint.Proofs.Yaml.InStep
import LocaleLint.Proofs.Yaml.LineEnds.Cursor

set_option autoImplicit false

namespace LocaleLint.Yaml

open LocaleLint.Text

def Token.moved (shift : Nat → Nat) (token : Token) : Token :=
  ⟨token.lexeme, token.start.moved shift, token.stop.moved shift⟩

namespace Scan

def breakOf (c : Char) : Option Char :=
  if c == '\r' || c == '\n' || c == '\x85' then some '\n' else if isBreak c then some c else none

theorem breakOf_asFeed (c : Char) : breakOf (asFeed c) = breakOf c :=
  asFeed_class breakOf rfl c

theorem lineBreak_pair (cursor : Cursor) (first : cursor.peek = '\r')
    (second : cursor.peekAt 1 = '\n') :
    lineBreak.run cursor = .ok (some '\n', cursor.skip 2) := by
  change (if (cursor.peek == '\r' && cursor.peekAt 1 == '\n') = true then _ else _ : Scan _).run
    _ = _
  rw [first, second]
  rfl

theorem lineBreak_single (cursor : Cursor)
    (unpaired : (cursor.peek == '\r' && cursor.peekAt 1 == '\n') = false) :
    lineBreak.run cursor =
      .ok (breakOf cursor.peek, if isBreak cursor.peek then cursor.skip 1 else cursor) := by
  change (if (cursor.peek == '\r' && cursor.peekAt 1 == '\n') = true then _
    else if (cursor.peek == '\r' || cursor.peek == '\n' || cursor.peek == '\x85') = true then _
    else if isBreak cursor.peek = true then _ else _ : Scan _).run cursor = _
  rw [if_neg (by rw [unpaired]; decide), breakOf]
  split
  next feeds =>
    have ends : isBreak cursor.peek = true := by
      simp only [Bool.or_eq_true, beq_iff_eq] at feeds
      rcases feeds with (same | same) | same <;> rw [same] <;> rfl
    rw [if_pos ends]
    rfl
  next =>
    split
    next => rfl
    next => rfl

end Scan

variable (shift : Nat → Nat) {α β : Type}

/-- The two readings are in step from cursors beside each other, where `before` holds of the
first. -/
def Alike (before : Cursor → Prop) (x y : Scan α) (same : α → α → Prop) : Prop :=
  InStep Stop.told (fun c d => c.Beside shift d ∧ before c) x y fun a b c d =>
    same a b ∧ c.Beside shift d

def Anywhere : Cursor → Prop := fun _ => True

theorem Cursor.Beside.told {c d : Cursor} (beside : c.Beside shift d)
    (activity other : Option Activity)
    (since start : Option Position) (cause reason : Cause) :
    Stop.told (.fault ⟨activity, since, cause, c.place⟩) =
      Stop.told (.fault ⟨other, start, reason, d.place⟩) := by
  simp only [Stop.told, Fault.told, beside.line, beside.column]

namespace Alike

variable {shift} {before : Cursor → Prop} {x y x' y' : Scan α} {f g : α → Scan β}
  {same : α → α → Prop} {same' : β → β → Prop}

theorem pure (a b : α) (holds : same a b) : Alike shift before (pure a) (pure b) same :=
  InStep.pure _ _ fun _ _ begins => ⟨holds, begins.1⟩

theorem bind (first : Alike shift before x y same)
    (next : ∀ a b, same a b → Alike shift Anywhere (f a) (g b) same') :
    Alike shift before (x >>= f) (y >>= g) same' :=
  InStep.bind first fun a b c d reached => next a b reached.1 c d ⟨reached.2, trivial⟩

theorem bind_eq (first : Alike shift before x y Eq)
    (next : ∀ a, Alike shift Anywhere (f a) (g a) same') :
    Alike shift before (x >>= f) (y >>= g) same' := by
  refine .bind first fun a b equal => ?_
  rw [equal]
  exact next b

theorem ite {p : Prop} [Decidable p] (holds : p → Alike shift before x y same)
    (fails : ¬ p → Alike shift before x' y' same) :
    Alike shift before (if p then x else x') (if p then y else y') same :=
  rel_ite (Alike shift before · · same) holds fails

theorem cond {p q : Bool} (equal : q = p) (holds : p = true → Alike shift before x y same)
    (fails : p = false → Alike shift before x' y' same) :
    Alike shift before (if p then x else x') (if q then y else y') same := by
  rw [equal]
  exact ite holds fun absent => fails (eq_false_of_ne_true absent)

theorem get_bind {f g : Cursor → Scan β}
    (next : ∀ c d, c.Beside shift d → before c → Alike shift (· = c) (f c) (g d) same') :
    Alike shift before (get >>= f) (get >>= g) same' :=
  fun c d begins => next c d begins.1 begins.2 c d ⟨begins.1, rfl⟩

theorem modify {same : Unit → Unit → Prop} (change other : Cursor → Cursor) (holds : same () ())
    (keeps : ∀ c d, c.Beside shift d → before c → (change c).Beside shift (other d)) :
    Alike shift before (modify change) (modify other) same :=
  InStep.modify _ _ fun c d begins => ⟨holds, keeps c d begins.1 begins.2⟩

theorem fail (activity other : Activity) (since start : Position) (cause reason : Cause) :
    Alike shift before (Scan.fail activity since cause) (Scan.fail other start reason) same :=
  fun _ _ begins => .error (begins.1.told shift _ _ _ _ _ _)

theorem breakdown (broken : Breakdown) :
    Alike shift before (Scan.breakdown broken) (Scan.breakdown broken) same :=
  InStep.throw _ _ rfl

theorem demand_bind {f g : Unit → Scan β} (holds holds' : Bool) (activity other : Activity)
    (since start : Position) (cause reason : Cause) (alike : holds' = holds)
    (next : holds = true → Alike shift before (f ()) (g ()) same') :
    Alike shift before (Scan.demand holds activity since cause >>= f)
      (Scan.demand holds' other start reason >>= g) same' := by
  cases holds with
  | true =>
    rw [alike]
    exact next rfl
  | false =>
    rw [alike]
    have stops : Alike shift before (Scan.fail activity since cause) (Scan.fail other start reason)
        (fun _ _ : Unit => False) := fail activity other since start cause reason
    exact stops.bind fun _ _ ended => ended.elim

theorem peek_bind {f g : Char → Scan β}
    (next : ∀ c, Alike shift (fun cursor => before cursor ∧ cursor.peek = c) (f c)
      (g (asFeed c)) same') :
    Alike shift before (Scan.peek >>= f) (Scan.peek >>= g) same' := by
  rintro c d ⟨beside, here⟩
  have ends := next c.peek c d ⟨beside, here, rfl⟩
  rw [← beside.peek] at ends
  exact ends

theorem peekAt_one_bind (first : Char) {f g : Char → Scan β}
    (stands : ∀ cursor, before cursor → cursor.peek = first)
    (next : ∀ c d, (first ≠ '\r' → d = asFeed c) →
      Alike shift (fun cursor => before cursor ∧ cursor.peekAt 1 = c) (f c) (g d) same') :
    Alike shift before (Scan.peekAt 1 >>= f) (Scan.peekAt 1 >>= g) same' := by
  rintro c d ⟨beside, here⟩
  refine next (c.peekAt 1) (d.peekAt 1) (fun alone => ?_) c d ⟨beside, here, rfl⟩
  refine beside.peekAt 1 fun i within => ?_
  rw [Nat.lt_one_iff.mp within, Cursor.peekAt_zero, stands c here]
  exact alone

theorem lineBreak : Alike shift before Scan.lineBreak Scan.lineBreak Eq := by
  rintro c d ⟨beside, -⟩
  have feeds : (d.peek == '\r' && d.peekAt 1 == '\n') = false := by
    rw [beside.peek, beq_false_of_ne (asFeed_ne_return c.peek)]
    rfl
  rw [Scan.lineBreak_single d feeds, beside.peek, Scan.breakOf_asFeed, asFeed_class isBreak rfl]
  -- A return is read with its feed or alone; every other character is the same on both sides.
  by_cases isReturn : c.peek = '\r'
  next =>
    obtain ⟨rest, whole⟩ := c.rest_of_peek '\r' isReturn (by decide)
    have second : c.peekAt 1 = rest.headD '\x00' := by
      rw [Cursor.peekAt, whole]
      cases rest <;> rfl
    by_cases isPair : rest.head? = some '\n'
    next =>
      obtain ⟨later, rfl⟩ := List.head?_eq_some_iff.mp isPair
      rw [Scan.lineBreak_pair c isReturn second, isReturn]
      exact .ok ⟨rfl, beside.pair later whole⟩
    next =>
      have unpaired : c.peekAt 1 ≠ '\n' := by
        rw [second]
        cases rest with
        | nil => decide
        | cons ch later => exact fun same => isPair (congrArg some same)
      rw [Scan.lineBreak_single c (by simp [unpaired]), isReturn]
      exact .ok ⟨rfl, beside.lone rest whole isPair⟩
  next =>
    rw [Scan.lineBreak_single c (by simp [isReturn])]
    refine .ok ⟨rfl, ?_⟩
    split
    next => exact beside.next isReturn
    next => exact beside

theorem place_bind {f g : Position → Scan β}
    (next : ∀ p : Position, Alike shift before (f (p.moved shift)) (g p) same') :
    Alike shift before (Scan.place >>= f) (Scan.place >>= g) same' := by
  rintro c d ⟨beside, here⟩
  have ends := next d.place c d ⟨beside, here⟩
  rw [← beside.place] at ends
  exact ends

theorem remaining : Alike shift before Scan.remaining Scan.remaining Eq :=
  fun _ _ begins => .ok ⟨begins.1.remaining, begins.1⟩

theorem skip (count : Nat) (alone : ∀ cursor, before cursor → ∀ i < count, cursor.peekAt i ≠ '\r') :
    Alike shift before (Scan.skip count) (Scan.skip count) Eq :=
  modify _ _ rfl fun c _ beside here => beside.skip count (alone c here)

theorem skip_one (alone : ∀ cursor, before cursor → cursor.peek ≠ '\r') :
    Alike shift before (Scan.skip 1) (Scan.skip 1) Eq := by
  refine skip 1 fun c here i within => ?_
  rw [Nat.lt_one_iff.mp within, Cursor.peekAt_zero]
  exact alone c here

theorem skip_peeked (c : Char) (alone : c ≠ '\r')
    (stands : ∀ cursor, before cursor → cursor.peek = c) :
    Alike shift before (Scan.skip 1) (Scan.skip 1) Eq := by
  refine skip_one fun cursor here => ?_
  rw [stands cursor here]
  exact alone

theorem skip_two (first second : Char) (firstAlone : first ≠ '\r') (secondAlone : second ≠ '\r')
    (stands : ∀ cursor, before cursor → cursor.peek = first ∧ cursor.peekAt 1 = second) :
    Alike shift before (Scan.skip 2) (Scan.skip 2) Eq := by
  refine skip 2 fun cursor here i within => ?_
  rcases Nat.lt_succ_iff_lt_or_eq.mp within with zero | one
  · rw [Nat.lt_one_iff.mp zero, Cursor.peekAt_zero, (stands cursor here).1]
    exact firstAlone
  · rw [one, (stands cursor here).2]
    exact secondAlone

section
variable (keep : Char → Bool) (noReturn : keep '\r' = false) (noFeed : keep '\n' = false)

include noReturn noFeed

theorem skipWhile : Alike shift before (Scan.skipWhile keep) (Scan.skipWhile keep) Eq :=
  modify _ _ rfl fun _ _ beside _ => beside.skipWhile shift keep noReturn noFeed

theorem takeWhile : Alike shift before (Scan.takeWhile keep) (Scan.takeWhile keep) Eq := by
  rintro c d ⟨beside, -⟩
  refine .ok ⟨?_, beside.skipWhile shift keep noReturn noFeed⟩
  rw [beside.rest, takeWhile_unifyLineEnds keep noReturn noFeed]

end

end Alike

end LocaleLint.Yaml
