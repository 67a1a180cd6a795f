import LocaleLint.Yaml.Value.Build

set_option autoImplicit false

namespace LocaleLint.Yaml

theorem getD_modify (nodes : Array Node) (id other : NodeId) (change : Node → Node) :
    (nodes.modify id change).getD other default =
      if id = other ∧ other < nodes.size then change (nodes.getD other default)
      else nodes.getD other default := by
  rw [Array.getD_eq_getD_getElem?, Array.getD_eq_getD_getElem?, Array.getElem?_modify]
  by_cases same : id = other
  · by_cases inside : other < nodes.size
    · simp [same, inside]
    · simp [same, inside]
  · simp [same]

theorem Node.content_of_mem_pairs (node : Node) (pair : NodeId × NodeId)
    (member : pair ∈ node.pairs) :
    node.content = .mapping node.pairs := by
  rw [Node.pairs] at member ⊢
  cases content : node.content with
  | mapping pairs => rfl
  | scalar text =>
    rw [content] at member
    contradiction
  | sequence items =>
    rw [content] at member
    contradiction

theorem Node.children_of_mem_pairs (node : Node) (pair : NodeId × NodeId)
    (member : pair ∈ node.pairs) :
    pair.1 ∈ node.content.children ∧ pair.2 ∈ node.content.children := by
  rw [node.content_of_mem_pairs pair member]
  constructor
  · exact List.mem_flatMap.mpr ⟨pair, member, by simp⟩
  · exact List.mem_flatMap.mpr ⟨pair, member, by simp⟩

theorem getD_setIfInBounds (built : Array (Option Value)) (id other : NodeId)
    (value : Option Value) :
    (built.setIfInBounds id value).getD other none =
      if id = other ∧ other < built.size then value else built.getD other none := by
  rw [Array.getD_eq_getD_getElem?, Array.getD_eq_getD_getElem?, Array.getElem?_setIfInBounds]
  by_cases same : id = other
  · by_cases inside : other < built.size
    · simp [same, inside]
    · simp [same, inside]
  · simp [same]

namespace Build

variable {α β : Type}

def on (x : Build α) (m : Memory) : Except Halt α × Memory := x.run m

theorem on_bind (x : Build α) (f : α → Build β) (m : Memory) :
    on (x >>= f) m =
      match on x m with
      | (.ok value, later) => on (f value) later
      | (.error halt, later) => (.error halt, later) := by
  simp only [on]
  change ExceptT.run (ExceptT.bind x f) m = _
  simp only [ExceptT.bind, ExceptT.run, ExceptT.mk, bind, StateT.bind]
  cases x m with
  | mk result later => cases result <;> rfl

theorem on_bind_ok (x : Build α) (f : α → Build β) (m later : Memory) (value : α)
    (first : on x m = (.ok value, later)) : on (x >>= f) m = on (f value) later := by
  rw [on_bind, first]

theorem on_bind_error (x : Build α) (f : α → Build β) (m later : Memory) (halt : Halt)
    (first : on x m = (.error halt, later)) : on (x >>= f) m = (.error halt, later) := by
  rw [on_bind, first]

@[simp] theorem on_pure (value : α) (m : Memory) : on (pure value) m = (.ok value, m) := rfl

@[simp] theorem on_get (m : Memory) : on get m = (.ok m, m) := rfl

@[simp] theorem on_modify (change : Memory → Memory) (m : Memory) :
    on (modify change) m = (.ok (), change m) := rfl

theorem on_get_bind (f : Memory → Build α) (m : Memory) : on (get >>= f) m = on (f m) m :=
  on_bind_ok _ _ _ _ _ rfl

theorem on_modify_bind (change : Memory → Memory) (f : Unit → Build α) (m : Memory) :
    on (modify change >>= f) m = on (f ()) (change m) :=
  on_bind_ok _ _ _ _ _ rfl

@[simp] theorem on_node (id : NodeId) (m : Memory) :
    on (node id) m = (.ok (m.nodes.getD id default), m) := rfl

@[simp] theorem on_pairsOf (id : NodeId) (m : Memory) :
    on (pairsOf id) m = (.ok (m.nodes.getD id default).pairs, m) := rfl

@[simp] theorem on_tagOf (id : NodeId) (m : Memory) :
    on (tagOf id) m = (.ok (m.nodes.getD id default).tag, m) := rfl

@[simp] theorem on_demand_true (stop : Stop) (m : Memory) : on (demand true stop) m = (.ok (), m) :=
  rfl

@[simp] theorem on_demand_false (stop : Stop) (m : Memory) :
    on (demand false stop) m = (.error (.stop stop), m) := rfl

@[simp] theorem on_remembered (id : NodeId) (m : Memory) :
    on (remembered id) m = (.ok (m.built.getD id none), m) := rfl

theorem on_enter (id : NodeId) (m : Memory) (idle : id ∉ m.underway) :
    on (enter id) m = (.ok (), { m with underway := id :: m.underway }) := by
  have outside : m.underway.contains id = false := by simpa using idle
  rw [enter, on_get_bind, outside]
  rfl

theorem on_enter_again (id : NodeId) (m : Memory) (working : id ∈ m.underway) :
    on (enter id) m = (.error (.stop (.fault ⟨none, none, .recursiveNode,
      (m.nodes.getD id default).start⟩)), m) := by
  have inside : m.underway.contains id = true := by simpa using working
  rw [enter, on_get_bind, inside]
  rfl

theorem on_leave (id : NodeId) (value : Value) (m : Memory) :
    on (leave id value) m = (.ok (), { m with
      built := m.built.setIfInBounds id (some value), underway := m.underway.erase id }) :=
  rfl

theorem takeMerge?_mem {α β : Type} (isMerge : α → Bool) (pairs others : List (α × β)) (source : β)
    (taken : takeMerge? isMerge pairs = some (source, others)) :
    ∃ key, (key, source) ∈ pairs ∧ isMerge key = true ∧ ∀ pair ∈ others, pair ∈ pairs := by
  induction pairs generalizing others with
  | nil => contradiction
  | cons pair rest ih =>
    obtain ⟨key, value⟩ := pair
    rw [takeMerge?] at taken
    split at taken
    · next merges =>
      cases taken
      exact ⟨key, List.mem_cons_self .., merges, fun pair member => List.mem_cons_of_mem _ member⟩
    · obtain ⟨⟨found, left⟩, inner, same⟩ := Option.map_eq_some_iff.mp taken
      cases same
      obtain ⟨other, there, merges, subset⟩ := ih left inner
      refine ⟨other, List.mem_cons_of_mem _ there, merges, fun pair member => ?_⟩
      rcases List.mem_cons.mp member with rfl | member
      · exact List.mem_cons_self ..
      · exact List.mem_cons_of_mem _ (subset pair member)

-- What is done with a node that was not built before.
def visit (build : Bool → NodeBuilder) (deep : Bool) (path : List String) (id : NodeId) :
    Build Value := do
  enter id
  let value ← valueOf build deep path id
  leave id value
  return value

/-- A run gives the result that is told, and the memory it leaves is good. -/
def Ends (x : Build α) (m : Memory) (result : Except Stop α) (good : α → Memory → Prop) : Prop :=
  match result with
  | .ok value => ∃ later, on x m = (.ok value, later) ∧ good value later
  | .error stop => ∃ later, on x m = (.error (.stop stop), later)

theorem Ends.of_on (x : Build α) (m later : Memory) (value : α) (good : α → Memory → Prop)
    (run : on x m = (.ok value, later)) (holds : good value later) : Ends x m (.ok value) good :=
  ⟨later, run, holds⟩

theorem Ends.bind (x : Build α) (f : α → Build β) (m : Memory) (first : Except Stop α)
    (next : α → Except Stop β) (middle : α → Memory → Prop) (good : β → Memory → Prop)
    (start : Ends x m first middle)
    (rest : ∀ value later, first = .ok value → middle value later →
      Ends (f value) later (next value) good) :
    Ends (x >>= f) m (first >>= next) good := by
  cases first with
  | error stop =>
    obtain ⟨later, run⟩ := start
    exact ⟨later, on_bind_error _ _ _ _ _ run⟩
  | ok value =>
    obtain ⟨later, run, holds⟩ := start
    have after := rest value later rfl holds
    change Ends (x >>= f) m (next value) good
    unfold Ends at after ⊢
    rw [on_bind_ok _ _ _ _ _ run]
    exact after

theorem Ends.after (x : Build α) (f : α → Build β) (m later : Memory) (value : α)
    (result : Except Stop β) (good : β → Memory → Prop) (run : on x m = (.ok value, later))
    (rest : Ends (f value) later result good) : Ends (x >>= f) m result good := by
  unfold Ends at rest ⊢
  rw [on_bind_ok _ _ _ _ _ run]
  exact rest

theorem Ends.failed (x : Build α) (f : α → Build β) (m : Memory) (stop : Stop)
    (bad : α → Memory → Prop) (good : β → Memory → Prop) (fails : Ends x m (.error stop) bad) :
    Ends (x >>= f) m (.error stop) good := by
  obtain ⟨later, run⟩ := fails
  exact ⟨later, on_bind_error _ _ _ _ _ run⟩

theorem Ends.weaken (x : Build α) (m : Memory) (result : Except Stop α)
    (good better : α → Memory → Prop) (ends : Ends x m result better)
    (weaker : ∀ value later, result = .ok value → better value later → good value later) :
    Ends x m result good := by
  cases result with
  | error stop => exact ends
  | ok value =>
    obtain ⟨later, run, holds⟩ := ends
    exact ⟨later, run, weaker value later rfl holds⟩

end Build

end LocaleLint.Yaml
