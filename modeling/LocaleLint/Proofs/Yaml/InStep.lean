import LocaleLint.Yaml.Fault

set_option autoImplicit false

namespace LocaleLint.Yaml

inductive Told
  | unplaced
  | placed (line column : Nat)
  | broken (breakdown : Breakdown)
deriving DecidableEq

def Fault.told (fault : Fault) : Told := .placed fault.place.line fault.place.column

def Stop.told : Stop → Told
  | .unacceptable _ _ => .unplaced
  | .fault met => met.told
  | .breakdown broken => .broken broken

variable {σ ε ω α β : Type}

theorem rel_ite {γ : Type} (belong : γ → γ → Prop) {p : Prop} [Decidable p] {x y x' y' : γ}
    (holds : p → belong x y) (fails : ¬ p → belong x' y') :
    belong (if p then x else x') (if p then y else y') := by
  by_cases here : p
  next =>
    rw [if_pos here, if_pos here]
    exact holds here
  next =>
    rw [if_neg here, if_neg here]
    exact fails here

/-- How two runs end, by what their stops tell and how their results have to belong together. -/
inductive EndAlike (told : ε → ω) (same : α → β → Prop) : Except ε α → Except ε β → Prop
  | ok {a : α} {b : β} (reached : same a b) : EndAlike told same (.ok a) (.ok b)
  | error {stop other : ε} (alike : told stop = told other) :
      EndAlike told same (.error stop) (.error other)

theorem EndAlike.refl (told : ε → ω) (x : Except ε α) : EndAlike told Eq x x := by
  cases x with
  | ok value => exact .ok rfl
  | error stop => exact .error rfl

theorem EndAlike.symm {told : ε → ω} {x y : Except ε α} (alike : EndAlike told Eq x y) :
    EndAlike told Eq y x := by
  cases alike with
  | ok same => exact .ok same.symm
  | error same => exact .error same.symm

theorem EndAlike.trans {told : ε → ω} {x y z : Except ε α} (alike : EndAlike told Eq x y)
    (later : EndAlike told Eq y z) : EndAlike told Eq x z := by
  cases alike with
  | ok same =>
    cases later with
    | ok again => exact .ok (same.trans again)
  | error same =>
    cases later with
    | error again => exact .error (same.trans again)

theorem EndAlike.bind {γ δ : Type} {told : ε → ω} {same : α → β → Prop} {same' : γ → δ → Prop}
    {x : Except ε α} {y : Except ε β} {f : α → Except ε γ} {g : β → Except ε δ}
    (first : EndAlike told same x y) (next : ∀ a b, same a b → EndAlike told same' (f a) (g b)) :
    EndAlike told same' (x >>= f) (y >>= g) := by
  cases first with
  | ok reached => exact next _ _ reached
  | error alike => exact .error alike

def InStep (told : ε → ω) (start : σ → σ → Prop) (x y : StateT σ (Except ε) α)
    (finish : α → α → σ → σ → Prop) : Prop :=
  ∀ s t, start s t →
    EndAlike told (fun reached other => finish reached.1 other.1 reached.2 other.2) (x.run s)
      (y.run t)

namespace InStep

variable {told : ε → ω} {start : σ → σ → Prop} {x y : StateT σ (Except ε) α}
  {finish : α → α → σ → σ → Prop}

theorem pure (a b : α) (ends : ∀ s t, start s t → finish a b s t) :
    InStep told start (pure a) (pure b) finish :=
  fun s t begins => .ok (ends s t begins)

theorem throw (stop other : ε) (alike : told stop = told other) :
    InStep told start (throw stop) (throw other) finish :=
  fun _ _ _ => .error alike

theorem bind {middle : α → α → σ → σ → Prop} {f g : α → StateT σ (Except ε) β}
    {finish : β → β → σ → σ → Prop} (first : InStep told start x y middle)
    (next : ∀ a b, InStep told (middle a b) (f a) (g b) finish) :
    InStep told start (x >>= f) (y >>= g) finish := by
  intro s t begins
  have ends := first s t begins
  rw [StateT.run_bind, StateT.run_bind]
  generalize x.run s = ran, y.run t = went at ends
  cases ends with
  | ok reached => exact next _ _ _ _ reached
  | error alike => exact .error alike

theorem weaken {begins : σ → σ → Prop} {ends : α → α → σ → σ → Prop}
    (steps : InStep told start x y finish) (earlier : ∀ s t, begins s t → start s t)
    (later : ∀ a b s t, finish a b s t → ends a b s t) : InStep told begins x y ends := by
  intro s t begun
  have ends := steps s t (earlier s t begun)
  generalize x.run s = ran, y.run t = went at ends
  cases ends with
  | ok reached => exact .ok (later _ _ _ _ reached)
  | error alike => exact .error alike

theorem modify (change other : σ → σ) {finish : Unit → Unit → σ → σ → Prop}
    (ends : ∀ s t, start s t → finish () () (change s) (other t)) :
    InStep told start (modify change) (modify other) finish :=
  fun s t begins => .ok (ends s t begins)

end InStep

end LocaleLint.Yaml
