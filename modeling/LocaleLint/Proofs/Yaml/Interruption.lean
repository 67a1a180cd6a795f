import LocaleLint.Yaml.Read
import LocaleLint.Proofs.Yaml.Run
import LocaleLint.Proofs.Diagnostic

set_option autoImplicit false

namespace LocaleLint.Yaml

-- The same memory with its announcements going into another channel.
def Memory.over (m : Memory) (channel : Channel) : Memory := { m with channel := channel }

namespace Build

variable {α β : Type}

-- How a run inside a scope ends, by what the run outside all scopes announces.
def EndsAtFirst (filename : Option String) (x : Build α) (m : Memory) : List DuplicateKey → Prop
  | [] => on x (m.over (Channel.outermost.enter filename)) =
      ((on x m).1, (on x m).2.over (Channel.outermost.enter filename))
  | first :: _ => ∃ rejection later,
      (Diagnostic.duplicateKey first).escalated? filename = some rejection ∧
        on x (m.over (Channel.outermost.enter filename)) = (.error (.raised rejection), later)

/-- Outside all scopes nothing is raised either. -/
def Interruptible (x : Build α) : Prop :=
  ∀ m, m.channel = Channel.outermost → (∀ rejection, (on x m).1 ≠ .error (.raised rejection)) ∧
    ∃ fresh, (on x m).2.duplicates = fresh.reverse ++ m.duplicates ∧
      (on x m).2.channel = Channel.outermost ∧ ∀ filename, EndsAtFirst filename x m fresh

theorem Interruptible.silent (x : Build α)
    (calm : ∀ m rejection, (on x m).1 ≠ .error (.raised rejection))
    (same : ∀ m, (on x m).2.duplicates = m.duplicates ∧ (on x m).2.channel = m.channel)
    (blind : ∀ m channel, on x (m.over channel) = ((on x m).1, (on x m).2.over channel)) :
    Interruptible x := by
  intro m outermost
  refine ⟨calm m, [], (same m).1, ?_, ?_⟩
  · rw [(same m).2, outermost]
  · intro filename
    exact blind m _

theorem Interruptible.pure (value : α) : Interruptible (pure value) :=
  .silent _ (fun _ _ => nofun) (fun _ => ⟨rfl, rfl⟩) fun _ _ => rfl

theorem Interruptible.halt (stop : Stop) : Interruptible (halt stop : Build α) :=
  .silent _ (fun _ _ => nofun) (fun _ => ⟨rfl, rfl⟩) fun _ _ => rfl

theorem Interruptible.bind (x : Build α) (f : α → Build β) (first : Interruptible x)
    (next : ∀ value, Interruptible (f value)) : Interruptible (x >>= f) := by
  intro m outermost
  obtain ⟨calm, early, announced, channel, ends⟩ := first m outermost
  cases result : on x m with
  | mk outcome middle =>
    rw [result] at calm announced channel
    cases outcome with
    | error halt =>
      refine ⟨?_, early, ?_, ?_, ?_⟩
      · intro rejection
        rw [on_bind_error _ _ _ _ _ result]
        have unraised := calm rejection
        intro raised
        exact unraised (congrArg Except.error (Except.error.inj raised))
      · rw [on_bind_error _ _ _ _ _ result]
        exact announced
      · rw [on_bind_error _ _ _ _ _ result]
        exact channel
      · intro filename
        have ending := ends filename
        cases early with
        | nil =>
          simp only [EndsAtFirst, result] at ending ⊢
          rw [on_bind_error _ _ _ _ _ ending, on_bind_error _ _ _ _ _ result]
        | cons d rest =>
          obtain ⟨rejection, later, escalated, raised⟩ := ending
          exact ⟨rejection, later, escalated, on_bind_error _ _ _ _ _ raised⟩
    | ok value =>
      -- Inside a scope the second part runs only when the first one has announced nothing.
      obtain ⟨calmLate, late, announcedLate, channelLate, endsLate⟩ := next value middle channel
      refine ⟨?_, early ++ late, ?_, ?_, ?_⟩
      · rw [on_bind_ok _ _ _ _ _ result]
        exact calmLate
      · rw [on_bind_ok _ _ _ _ _ result, announcedLate, announced]
        simp
      · rw [on_bind_ok _ _ _ _ _ result]
        exact channelLate
      · intro filename
        have ending := ends filename
        cases early with
        | cons d rest =>
          obtain ⟨rejection, later, escalated, raised⟩ := ending
          exact ⟨rejection, later, escalated, on_bind_error _ _ _ _ _ raised⟩
        | nil =>
          simp only [EndsAtFirst, result] at ending
          have ending' := endsLate filename
          cases late with
          | nil =>
            simp only [EndsAtFirst, List.append_nil] at ending' ⊢
            rw [on_bind_ok _ _ _ _ _ ending, on_bind_ok _ _ _ _ _ result, ending']
          | cons d rest =>
            obtain ⟨rejection, later, escalated, raised⟩ := ending'
            exact ⟨rejection, later, escalated, by rw [on_bind_ok _ _ _ _ _ ending, raised]⟩

theorem Interruptible.get_bind (f : Memory → Build α) (next : ∀ m, Interruptible (f m))
    (blind : ∀ m channel, f (m.over channel) = f m) : Interruptible (get >>= f) := by
  intro m outermost
  obtain ⟨calm, fresh, announced, channel, ends⟩ := next m m outermost
  refine ⟨?_, fresh, ?_, ?_, ?_⟩
  · rw [on_get_bind]
    exact calm
  · rw [on_get_bind]
    exact announced
  · rw [on_get_bind]
    exact channel
  · intro filename
    have ending := ends filename
    cases fresh with
    | nil =>
      simp only [EndsAtFirst, on_get_bind, blind] at ending ⊢
      exact ending
    | cons d rest =>
      simp only [EndsAtFirst, on_get_bind, blind] at ending ⊢
      exact ending

theorem interruptible_modify (change : Memory → Memory)
    (same : ∀ m, (change m).duplicates = m.duplicates ∧ (change m).channel = m.channel)
    (blind : ∀ m channel, change (m.over channel) = (change m).over channel) :
    Interruptible (modify change) := by
  refine .silent _ (fun _ _ => nofun) same ?_
  intro m channel
  rw [on_modify, on_modify, blind]

theorem interruptible_node (id : NodeId) : Interruptible (node id) :=
  .silent _ (fun _ _ => nofun) (fun _ => ⟨rfl, rfl⟩) fun _ _ => rfl

theorem interruptible_pairsOf (id : NodeId) : Interruptible (pairsOf id) :=
  .silent _ (fun _ _ => nofun) (fun _ => ⟨rfl, rfl⟩) fun _ _ => rfl

theorem interruptible_tagOf (id : NodeId) : Interruptible (tagOf id) :=
  .silent _ (fun _ _ => nofun) (fun _ => ⟨rfl, rfl⟩) fun _ _ => rfl

theorem interruptible_remembered (id : NodeId) : Interruptible (remembered id) :=
  .silent _ (fun _ _ => nofun) (fun _ => ⟨rfl, rfl⟩) fun _ _ => rfl

theorem interruptible_setPairs (id : NodeId) (pairs : List (NodeId × NodeId)) :
    Interruptible (setPairs id pairs) :=
  interruptible_modify _ (fun _ => ⟨rfl, rfl⟩) fun _ _ => rfl

theorem interruptible_plainValueKeys (pairs : List (NodeId × NodeId)) :
    Interruptible (plainValueKeys pairs) :=
  interruptible_modify _ (fun _ => ⟨rfl, rfl⟩) fun _ _ => rfl

theorem interruptible_leave (id : NodeId) (value : Value) : Interruptible (leave id value) :=
  interruptible_modify _ (fun _ => ⟨rfl, rfl⟩) fun _ _ => rfl

theorem interruptible_demand (holds : Bool) (stop : Stop) : Interruptible (demand holds stop) := by
  cases holds with
  | true => exact .pure ()
  | false => exact .halt stop

theorem interruptible_attempt (result : Except Stop α) : Interruptible (attempt result) := by
  cases result with
  | ok value => exact .pure value
  | error stop => exact .halt stop

theorem interruptible_hashable (start place : Position) (value : Value) :
    Interruptible (hashable start place value) := by
  unfold hashable
  split
  · exact .pure _
  · exact .halt _

theorem interruptible_enter (id : NodeId) : Interruptible (enter id) := by
  refine .get_bind _ (fun m => ?_) fun _ _ => rfl
  split
  · exact .bind _ _ (interruptible_node id) fun _ => .halt _
  · exact interruptible_modify _ (fun _ => ⟨rfl, rfl⟩) fun _ _ => rfl

theorem interruptible_listedPairs (flattenNode : NodeId → Build Unit)
    (flattens : ∀ id, Interruptible (flattenNode id)) (start : Position) (items : List NodeId) :
    Interruptible (listedPairs flattenNode start items) := by
  induction items with
  | nil => exact .pure _
  | cons item rest ih =>
    refine .bind _ _ (interruptible_node item) fun itemNode => ?_
    refine .bind _ _ (interruptible_demand _ _) fun _ => ?_
    refine .bind _ _ (flattens item) fun _ => ?_
    refine .bind _ _ (interruptible_pairsOf item) fun pairs => ?_
    exact .bind _ _ ih fun _ => .pure _

theorem interruptible_sourcePairs (flattenNode : NodeId → Build Unit)
    (flattens : ∀ id, Interruptible (flattenNode id)) (start : Position) (source : NodeId) :
    Interruptible (sourcePairs flattenNode start source) := by
  refine .bind _ _ (interruptible_node source) fun sourceNode => ?_
  split
  · exact .bind _ _ (flattens source) fun _ => interruptible_pairsOf source
  · exact .bind _ _ (interruptible_listedPairs _ flattens _ _) fun _ => .pure _
  · exact .halt _

theorem interruptible_absorb (flattenNode : NodeId → Build Unit)
    (flattens : ∀ id, Interruptible (flattenNode id)) (id : NodeId) (fuel : Nat)
    (merged : List (NodeId × NodeId)) : Interruptible (absorb flattenNode id fuel merged) := by
  induction fuel generalizing merged with
  | zero => exact .pure ()
  | succ fuel ih =>
    refine .get_bind _ (fun m => ?_) fun _ _ => rfl
    refine .bind _ _ (interruptible_pairsOf id) fun pairs => ?_
    split
    · refine .bind _ _ (interruptible_setPairs _ _) fun _ => ?_
      refine .bind _ _ (interruptible_node id) fun current => ?_
      exact .bind _ _ (interruptible_sourcePairs _ flattens _ _) fun _ => ih _
    · refine .bind _ _ (interruptible_plainValueKeys _) fun _ => ?_
      split
      · exact interruptible_setPairs _ _
      · exact .pure ()

theorem interruptible_flatten (fuel : Nat) (id : NodeId) : Interruptible (flatten fuel id) := by
  induction fuel generalizing id with
  | zero => exact .pure ()
  | succ fuel ih => exact interruptible_absorb _ ih id _ _

theorem interruptible_scalarText (fuel : Nat) (id : NodeId) :
    Interruptible (scalarText fuel id) := by
  induction fuel generalizing id with
  | zero => exact .halt _
  | succ fuel ih =>
    refine .bind _ _ (interruptible_node id) fun current => ?_
    split
    · exact .pure _
    · exact .halt _
    · refine .get_bind _ (fun m => ?_) fun _ _ => rfl
      simp only
      split
      · exact ih _
      · exact .halt _

theorem interruptible_announce (path : List String) (key : Scalar) (place : Position) :
    Interruptible (announce path key place) := by
  intro m outermost
  let found : DuplicateKey :=
    ⟨key, ".".intercalate (key.text :: path).reverse, some (place.line + 1),
      some (place.column + 1)⟩
  have outside : on (announce path key place) m =
      (.ok (), { m with duplicates := found :: m.duplicates }) := by
    have passes : m.channel.deliver (.duplicateKey found) = .delivered (.duplicateKey found) := by
      rw [outermost]
      rfl
    unfold announce
    rw [on_get_bind, passes]
    rfl
  refine ⟨?_, [found], ?_, ?_, ?_⟩
  · rw [outside]
    exact fun _ => nofun
  · rw [outside]
    rfl
  · rw [outside]
    exact outermost
  · intro filename
    obtain ⟨rejection, escalated⟩ := Diagnostic.escalated?_duplicateKey found filename
    refine ⟨rejection, m.over (Channel.outermost.enter filename), escalated, ?_⟩
    have raised : (m.over (Channel.outermost.enter filename)).channel.deliver
      (.duplicateKey found) =
        .raised rejection := by
      change ((Channel.outermost.enter filename).deliver (.duplicateKey found)) = _
      rw [Channel.deliver_enter, escalated]
    rw [announce, on_get_bind, raised]
    rfl

theorem interruptible_announceIf (again : Bool) (path : List String) (key : Scalar)
    (place : Position) : Interruptible (announceIf again path key place) := by
  cases again with
  | true => exact interruptible_announce path key place
  | false => exact .pure ()

theorem interruptible_entriesFrom (build : NodeBuilder)
    (builds : ∀ path id, Interruptible (build path id)) (path : List String) (start : Position)
    (pairs : List (NodeId × NodeId)) (merged : Nat) (seen : List Scalar)
    (entries : List (Scalar × Value)) :
    Interruptible (entriesFrom build path start pairs merged seen entries) := by
  induction pairs generalizing merged seen entries with
  | nil => exact .pure _
  | cons pair rest ih =>
    obtain ⟨keyId, valueId⟩ := pair
    refine .bind _ _ (interruptible_node keyId) fun keyNode => ?_
    refine .bind _ _ (builds path keyId) fun value => ?_
    refine .bind _ _ (interruptible_hashable _ _ _) fun key => ?_
    refine .bind _ _ (interruptible_node valueId) fun valueNode => ?_
    refine .bind _ _ (interruptible_demand _ _) fun _ => ?_
    refine .bind _ _ (interruptible_announceIf _ _ _ _) fun _ => ?_
    exact .bind _ _ (builds _ valueId) fun _ => ih _ _ _

theorem interruptible_mappingEntries (build : NodeBuilder)
    (builds : ∀ path id, Interruptible (build path id)) (path : List String) (id : NodeId) :
    Interruptible (mappingEntries build path id) := by
  refine .bind _ _ (interruptible_node id) fun current => ?_
  split
  · split
    · exact .pure _
    · exact .halt _
  · split
    · exact .pure _
    · exact .halt _
  · refine .get_bind _ (fun m => ?_) fun _ _ => rfl
    refine .bind _ _ (interruptible_flatten _ _) fun _ => ?_
    refine .bind _ _ (interruptible_pairsOf _) fun pairs => ?_
    exact interruptible_entriesFrom build builds path _ _ _ _ _

theorem interruptible_itemsFrom (build : NodeBuilder)
    (builds : ∀ path id, Interruptible (build path id)) (path : List String) (items : List NodeId)
    (index : Nat) : Interruptible (itemsFrom build path items index) := by
  induction items generalizing index with
  | nil => exact .pure _
  | cons item rest ih =>
    refine .bind _ _ (builds _ item) fun value => ?_
    exact .bind _ _ (ih _) fun _ => .pure _

theorem interruptible_sequenceItems (build : NodeBuilder)
    (builds : ∀ path id, Interruptible (build path id)) (path : List String) (id : NodeId) :
    Interruptible (sequenceItems build path id) := by
  refine .bind _ _ (interruptible_node id) fun current => ?_
  split
  · exact interruptible_itemsFrom build builds path _ _
  · split
    · exact .pure _
    · exact .halt _
  · split
    · exact .pure _
    · exact .halt _

theorem interruptible_pairFrom (build : NodeBuilder)
    (builds : ∀ path id, Interruptible (build path id)) (path : List String) (activity : Activity)
    (start : Position) (id : NodeId) : Interruptible (pairFrom build path activity start id) := by
  refine .bind _ _ (interruptible_node id) fun current => ?_
  split
  · refine .bind _ _ (builds _ _) fun key => ?_
    exact .bind _ _ (builds _ _) fun _ => .pure _
  · exact .halt _
  · exact .halt _

theorem interruptible_mapM {γ : Type} (f : γ → Build α) (each : ∀ item, Interruptible (f item))
    (items : List γ) : Interruptible (items.mapM f) := by
  induction items with
  | nil => exact .pure _
  | cons item rest ih =>
    rw [List.mapM_cons]
    exact .bind _ _ (each item) fun _ => .bind _ _ ih fun _ => .pure _

theorem interruptible_pairList (build : NodeBuilder)
    (builds : ∀ path id, Interruptible (build path id)) (path : List String) (activity : Activity)
    (id : NodeId) : Interruptible (pairList build path activity id) := by
  refine .bind _ _ (interruptible_node id) fun current => ?_
  split
  · exact interruptible_mapM _ (interruptible_pairFrom build builds path activity _) _
  · exact .halt _

theorem interruptible_fill (build : NodeBuilder)
    (builds : ∀ path id, Interruptible (build path id)) (path : List String) (id : NodeId) :
    Interruptible (fill build path id) := by
  refine .bind _ _ (interruptible_tagOf id) fun tag => ?_
  split
  · exact .bind _ _ (interruptible_pairList build builds path _ id) fun _ => .pure _
  · exact .bind _ _ (interruptible_pairList build builds path _ id) fun _ => .pure _
  · exact .bind _ _ (interruptible_mappingEntries build builds path id) fun _ => .pure _

theorem interruptible_scalarValue (id : NodeId) (tag : Tag) :
    Interruptible (scalarValue id tag) := by
  refine .bind _ _ (interruptible_node id) fun current => ?_
  refine .get_bind _ (fun m => ?_) fun _ _ => rfl
  refine .bind _ _ (interruptible_scalarText _ id) fun text => ?_
  refine .bind _ _ (interruptible_demand _ _) fun _ => ?_
  exact .bind _ _ (interruptible_attempt _) fun _ => .pure _

theorem interruptible_defer (id : NodeId) : Interruptible (defer id) := by
  refine .bind _ _ (interruptible_modify _ (fun _ => ⟨rfl, rfl⟩) fun _ _ => rfl) fun _ => ?_
  exact .pure _

theorem interruptible_valueOf (build : Bool → NodeBuilder)
    (builds : ∀ deep path id, Interruptible (build deep path id)) (deep : Bool) (path : List String)
    (id : NodeId) : Interruptible (valueOf build deep path id) := by
  have fillOrDefer : Interruptible (if deep then fill (build deep) path id else defer id) := by
    split
    · exact interruptible_fill _ (builds deep) path id
    · exact interruptible_defer id
  refine .bind _ _ (interruptible_node id) fun current => ?_
  split
  · exact .bind _ _ (interruptible_mappingEntries _ (builds true) path id) fun _ => .pure _
  · exact .bind _ _ (interruptible_sequenceItems _ (builds true) path id) fun _ => .pure _
  · exact fillOrDefer
  · exact fillOrDefer
  · exact fillOrDefer
  · exact .halt _
  · exact .halt _
  · exact .halt _
  · exact interruptible_scalarValue id _

theorem interruptible_object (fuel : Nat) (deep : Bool) (path : List String) (id : NodeId) :
    Interruptible (object fuel deep path id) := by
  induction fuel generalizing deep path id with
  | zero => exact .pure _
  | succ fuel ih =>
    refine .bind _ _ (interruptible_remembered id) fun known => ?_
    split
    · exact .pure _
    · refine .bind _ _ (interruptible_enter id) fun _ => ?_
      refine .bind _ _ (interruptible_valueOf _ ih deep path id) fun value => ?_
      exact .bind _ _ (interruptible_leave id value) fun _ => .pure _

theorem interruptible_fillDeferred (build : Bool → NodeBuilder)
    (builds : ∀ deep path id, Interruptible (build deep path id)) (fuel : Nat) :
    Interruptible (fillDeferred build fuel) := by
  induction fuel with
  | zero => exact .pure ()
  | succ fuel ih =>
    refine .get_bind _ (fun m => ?_) fun _ _ => rfl
    split
    · exact .pure ()
    · refine .bind _ _ (interruptible_modify _ (fun _ => ⟨rfl, rfl⟩) fun _ _ => rfl) fun _ => ?_
      refine .bind _ _ (interruptible_fill _ (builds false) _ _) fun value => ?_
      refine .bind _ _ (interruptible_modify _ (fun _ => ⟨rfl, rfl⟩) fun _ _ => rfl) fun _ => ?_
      exact ih

end Build

theorem Graph.interruptible_build (graph : Graph) : Build.Interruptible graph.build := by
  refine .bind _ _ (Build.interruptible_object _ _ _ _) fun value => ?_
  refine .bind _ _ (Build.interruptible_fillDeferred _ (Build.interruptible_object _) _) fun _ => ?_
  refine .get_bind _ (fun m => ?_) fun _ _ => rfl
  simp only
  split
  · exact .pure _
  · exact .pure _

theorem Graph.read_unraised (graph : Graph) (rejection : Rejection) :
    (graph.read Channel.outermost).outcome ≠ .error (.raised rejection) :=
  (graph.interruptible_build (graph.memory Channel.outermost) rfl).1 rejection

def RaisesFirst (filename : Option String) (inside outside : Reading) : Prop :=
  match outside.duplicates with
  | [] => inside = outside
  | first :: _ => ∃ rejection,
      (Diagnostic.duplicateKey first).escalated? filename = some rejection ∧
        inside.outcome = .error (.raised rejection)

theorem Graph.read_raisesFirst (graph : Graph) (filename : Option String) :
    RaisesFirst filename (graph.read (Channel.outermost.enter filename))
      (graph.read Channel.outermost) := by
  obtain ⟨-, fresh, announced, -, ends⟩ :=
    graph.interruptible_build (graph.memory Channel.outermost) rfl
  have outside : (graph.read Channel.outermost).duplicates = fresh := by
    change (Build.on graph.build (graph.memory Channel.outermost)).2.duplicates.reverse = fresh
    rw [announced]
    change (fresh.reverse ++ []).reverse = fresh
    rw [List.append_nil, List.reverse_reverse]
  have ending := ends filename
  rw [RaisesFirst, outside]
  cases fresh with
  | nil =>
    have same : Build.on graph.build (graph.memory (Channel.outermost.enter filename)) = _ := ending
    change Reading.mk
        (Build.on graph.build
          (graph.memory (Channel.outermost.enter filename))).2.duplicates.reverse
        (Build.on graph.build (graph.memory (Channel.outermost.enter filename))).1 = _
    rw [same]
    rfl
  | cons first rest =>
    obtain ⟨rejection, later, escalated, raised⟩ := ending
    have run : Build.on graph.build (graph.memory (Channel.outermost.enter filename)) = _ := raised
    refine ⟨rejection, escalated, ?_⟩
    change (Build.on graph.build (graph.memory (Channel.outermost.enter filename))).1 = _
    rw [run]

theorem read_unraised (source : List Char) (rejection : Rejection) :
    (read Channel.outermost source).outcome ≠ .error (.raised rejection) := by
  unfold read
  split
  · exact nofun
  · exact nofun
  · exact Graph.read_unraised _ rejection

theorem read_raisesFirst (source : List Char) (filename : Option String) :
    RaisesFirst filename (read (Channel.outermost.enter filename) source)
      (read Channel.outermost source) := by
  unfold read
  split
  · rfl
  · rfl
  · exact Graph.read_raisesFirst _ filename

end LocaleLint.Yaml
