import Mathlib.Data.List.Nodup
import Mathlib.Data.List.Perm.Subperm
import LocaleLint.Yaml.Read
import LocaleLint.Proofs.Yaml.Run

set_option autoImplicit false

namespace LocaleLint.Yaml

structure Memory.IsOrderly (m : Memory) : Prop where
  size : m.built.size = m.nodes.size
  closed : ∀ id, ∀ child ∈ (m.nodes.getD id default).content.children, child < m.nodes.size
  apart : ∀ id ∈ m.underway, m.built.getD id none = none
  distinct : m.underway.Nodup
  inside : ∀ id ∈ m.underway, id < m.nodes.size
  waiting : ∀ id ∈ m.deferred, id < m.nodes.size

structure Memory.Extends (m later : Memory) : Prop where
  size : later.nodes.size = m.nodes.size
  pairCount : later.pairCount = m.pairCount
  built : ∀ id value, m.built.getD id none = some value → later.built.getD id none = some value

theorem Memory.Extends.refl (m : Memory) : m.Extends m := ⟨rfl, rfl, fun _ _ => id⟩

theorem Memory.Extends.trans (m middle later : Memory) (first : m.Extends middle)
    (next : middle.Extends later) : m.Extends later where
  size := next.size.trans first.size
  pairCount := next.pairCount.trans first.pairCount
  built := fun id value known => next.built id value (first.built id value known)

theorem Memory.IsOrderly.length_underway (m : Memory) (orderly : m.IsOrderly) :
    m.underway.length ≤ m.nodes.size := by
  have within : m.underway ⊆ List.range m.nodes.size := fun id member =>
    List.mem_range.mpr (orderly.inside id member)
  have bound := (List.Nodup.subperm orderly.distinct within).length_le
  rwa [List.length_range] at bound

theorem Memory.IsOrderly.enter (m : Memory) (orderly : m.IsOrderly) (id : NodeId)
    (inside : id < m.nodes.size)
    (fresh : m.built.getD id none = none) (idle : id ∉ m.underway) :
    ({ m with underway := id :: m.underway } : Memory).IsOrderly :=
  { orderly with
    apart := List.forall_mem_cons.mpr ⟨fresh, orderly.apart⟩
    distinct := List.nodup_cons.mpr ⟨idle, orderly.distinct⟩
    inside := List.forall_mem_cons.mpr ⟨inside, orderly.inside⟩ }

theorem Memory.IsOrderly.leave (m : Memory) (orderly : m.IsOrderly) (id : NodeId) (value : Value)
    (rest : List NodeId) (underway : m.underway = id :: rest) :
    ({ m with built := m.built.setIfInBounds id (some value),
              underway := m.underway.erase id } : Memory).IsOrderly := by
  have left : m.underway.erase id = rest := by rw [underway, List.erase_cons_head]
  have apart := orderly.apart
  have distinct := orderly.distinct
  have inside := orderly.inside
  rw [underway, List.forall_mem_cons] at apart inside
  rw [underway, List.nodup_cons] at distinct
  rw [left]
  exact { orderly with
    size := by rw [Array.size_setIfInBounds, orderly.size]
    apart := fun other member => by
      rw [getD_setIfInBounds, if_neg]
      · exact apart.2 other member
      · rintro ⟨rfl, -⟩
        exact distinct.1 member
    distinct := distinct.2
    inside := inside.2 }

theorem Memory.Extends.remember (m : Memory) (id : NodeId) (value : Value) (underway : List NodeId)
    (fresh : m.built.getD id none = none) :
    m.Extends { m with built := m.built.setIfInBounds id (some value), underway := underway } := by
  refine ⟨rfl, rfl, fun other found known => ?_⟩
  rw [getD_setIfInBounds, if_neg]
  · exact known
  · rintro ⟨rfl, -⟩
    rw [fresh] at known
    contradiction

def keyIn (built : Array (Option Value)) (id : NodeId) : Option Scalar :=
  (built.getD id none).bind Value.key?

theorem keyIn_extends (m later : Memory) (id : NodeId) (name : Scalar) (grown : m.Extends later)
    (known : keyIn m.built id = some name) : keyIn later.built id = some name := by
  rw [keyIn, Option.bind_eq_some_iff] at known ⊢
  obtain ⟨value, built, named⟩ := known
  exact ⟨value, grown.built id value built, named⟩

def Memory.ownCount (m : Memory) (id : NodeId) : Nat :=
  ((m.nodes.getD id default).pairs.filter fun pair => !Build.hasTag m.nodes .merge pair.1).length

def Memory.HasDepth (m : Memory) (fuel : Nat) : Prop := m.nodes.size < m.underway.length + fuel

namespace Build

/-- What holds as long as a building goes on, what is left of it when the building fails, and what
is known of the entries that were made of a mapping. -/
structure Invariant where
  holds : Memory → Prop
  failed : Memory → Prop
  made : NodeId → List (Scalar × Value) → Memory → Prop
  weakens : ∀ m, holds m → failed m

variable {α β : Type} (I : Invariant)

structure Kept (m later : Memory) : Prop where
  orderly : later.IsOrderly
  holds : I.holds later
  grown : m.Extends later

def Keeps (m : Memory) (x : Build α) (good : α → Memory → Prop) : Prop :=
  match on x m with
  | (.ok value, later) => Kept I m later ∧ later.underway = m.underway ∧ good value later
  | (.error _, later) => I.failed later

def Upholds (fuel : Nat) (build : NodeBuilder) : Prop :=
  ∀ path id (m : Memory), m.IsOrderly → I.holds m → id < m.nodes.size → m.HasDepth fuel →
    Keeps I m (build path id) fun value later => later.built.getD id none = some value

structure Upheld : Prop where
  settled : ∀ m later : Memory, I.holds m → m.Extends later → later.nodes = m.nodes →
    later.built = m.built → later.duplicates = m.duplicates → I.holds later
  entries : ∀ fuel build path id (m : Memory), Upholds I fuel build → m.IsOrderly → I.holds m →
    id < m.nodes.size → m.HasDepth fuel →
      Keeps I m (mappingEntries build path id) (I.made id)
  remembers : ∀ (before m later : Memory) id value, I.holds before → I.holds m → m.Extends later →
    later.nodes = m.nodes → later.duplicates = m.duplicates →
      later.built = m.built.setIfInBounds id (some value) →
        ((before.nodes.getD id default).tag = .map →
          ∃ entries, value = .map entries ∧ I.made id entries m) → I.holds later

variable {I} (m : Memory)

theorem Kept.trans (m middle later : Memory) (first : Kept I m middle)
    (next : Kept I middle later) :
    Kept I m later :=
  ⟨next.orderly, next.holds, first.grown.trans _ _ _ next.grown⟩

theorem Kept.depth (fuel : Nat) (m later : Memory) (deep : m.HasDepth fuel) (kept : Kept I m later)
    (same : later.underway = m.underway) : later.HasDepth fuel := by
  rw [Memory.HasDepth, kept.grown.size, same]
  exact deep

theorem Keeps.of_on (x : Build α) (result : Except Halt α) (good : α → Memory → Prop)
    (run : on x m = (result, m)) (kept : Kept I m m)
    (fine : ∀ value, result = .ok value → good value m) :
    Keeps I m x good := by
  unfold Keeps
  rw [run]
  cases result with
  | ok value => exact ⟨kept, rfl, fine value rfl⟩
  | error halt => exact I.weakens m kept.holds

theorem Keeps.after (middle : Memory) (x : Build α) (f : α → Build β) (value : α)
    (better : β → Memory → Prop) (run : on x m = (.ok value, middle)) (kept : Kept I m middle)
    (same : middle.underway = m.underway) (rest : Keeps I middle (f value) better) :
    Keeps I m (x >>= f) better := by
  unfold Keeps at rest ⊢
  rw [on_bind_ok _ _ _ _ _ run]
  cases ending : on (f value) middle with
  | mk outcome later =>
    rw [ending] at rest
    cases outcome with
    | error halt => exact rest
    | ok last => exact ⟨kept.trans _ _ _ rest.1, rest.2.1.trans same, rest.2.2⟩

theorem Keeps.bind (x : Build α) (f : α → Build β) (good : α → Memory → Prop)
    (better : β → Memory → Prop) (first : Keeps I m x good)
    (next : ∀ value later, Kept I m later → later.underway = m.underway → good value later →
      Keeps I later (f value) better) : Keeps I m (x >>= f) better := by
  cases run : on x m with
  | mk result middle =>
    unfold Keeps at first
    rw [run] at first
    cases result with
    | error halt =>
      unfold Keeps
      rw [on_bind_error _ _ _ _ _ run]
      exact first
    | ok value =>
      obtain ⟨kept, same, fine⟩ := first
      exact .after m middle x f value better run kept same (next value middle kept same fine)

theorem Keeps.weaken (x : Build α) (good better : α → Memory → Prop) (keeps : Keeps I m x good)
    (weaker : ∀ value later, Kept I m later → later.underway = m.underway → good value later →
      better value later) : Keeps I m x better := by
  unfold Keeps at keeps ⊢
  cases run : on x m with
  | mk result later =>
    rw [run] at keeps
    cases result with
    | error halt => exact keeps
    | ok value => exact ⟨keeps.1, keeps.2.1, weaker value later keeps.1 keeps.2.1 keeps.2.2⟩

section Operations

variable (orderly : m.IsOrderly) (holds : I.holds m)

include orderly holds

theorem Kept.refl : Kept I m m := ⟨orderly, holds, .refl m⟩

theorem Keeps.pure (value : α) (good : α → Memory → Prop) (fine : good value m) :
    Keeps I m (pure value) good :=
  .of_on m _ _ _ rfl (.refl m orderly holds) fun _ same => by cases same; exact fine

omit orderly holds in
theorem Keeps.map (x : Build α) (f : α → β) (good : α → Memory → Prop) (keeps : Keeps I m x good) :
    Keeps I m (x >>= fun value => Pure.pure (f value)) fun _ _ => True :=
  .bind m x _ good _ keeps fun value later kept _ _ =>
    .pure later kept.orderly kept.holds (f value) _ trivial

theorem Keeps.halt (stop : Stop) (good : α → Memory → Prop) :
    Keeps I m (halt stop : Build α) good :=
  .of_on m _ _ _ rfl (.refl m orderly holds) nofun

theorem Keeps.read (x : Build α) (f : α → Build β) (value : α) (better : β → Memory → Prop)
    (run : on x m = (.ok value, m)) (rest : Keeps I m (f value) better) :
    Keeps I m (x >>= f) better :=
  .after m m x f value better run (.refl m orderly holds) rfl rest

theorem keeps_demand (fine : Bool) (stop : Stop) :
    Keeps I m (demand fine stop) fun _ later => later = m ∧ fine = true := by
  cases fine with
  | true => exact .pure m orderly holds () _ ⟨rfl, rfl⟩
  | false => exact .halt m orderly holds stop _

theorem keeps_attempt (result : Except Stop α) : Keeps I m (attempt result) fun _ _ => True := by
  cases result with
  | ok value => exact .pure m orderly holds value _ trivial
  | error stop => exact .halt m orderly holds stop _

theorem keeps_hashable (start place : Position) (value : Value) :
    Keeps I m (hashable start place value) fun key later => later = m ∧ value.key? = some key := by
  unfold hashable
  cases named : value.key? with
  | some key => exact .pure m orderly holds key _ ⟨rfl, rfl⟩
  | none => exact .halt m orderly holds _ _

theorem keeps_announceIf (again : Bool) (path : List String) (key : Scalar) (place : Position)
    (told : ∀ path, again = true → I.holds { m with
      duplicates := ⟨key, path, some (place.line + 1), some (place.column + 1)⟩ :: m.duplicates }) :
    Keeps I m (announceIf again path key place) fun _ _ => True := by
  cases again with
  | false => exact .pure m orderly holds _ _ trivial
  | true =>
    rw [announceIf, if_pos rfl, announce]
    refine .read m orderly holds _ _ _ _ (on_get m) ?_
    cases m.channel.deliver _ with
    | raised rejection => exact .of_on m _ _ _ rfl (.refl m orderly holds) nofun
    | delivered _ =>
      exact ⟨⟨{ orderly with }, told _ rfl, ⟨rfl, rfl, fun _ _ same => same⟩⟩, rfl, trivial⟩

omit orderly holds in
theorem on_scalarText_same (fuel : Nat) (id : NodeId) : (on (scalarText fuel id) m).2 = m := by
  induction fuel generalizing id with
  | zero => rfl
  | succ fuel ih =>
    rw [scalarText, on_bind_ok _ _ _ _ _ (on_node id m)]
    cases (m.nodes.getD id default).content with
    | scalar text => rfl
    | sequence items => rfl
    | mapping pairs =>
      dsimp only
      rw [on_get_bind]
      cases pairs.find? fun pair => hasTag m.nodes .value pair.1 with
      | none => rfl
      | some found => exact ih found.2

theorem keeps_scalarValue (id : NodeId) (tag : Tag) :
    Keeps I m (scalarValue id tag) fun _ _ => True := by
  rw [scalarValue]
  refine .read m orderly holds _ _ _ _ (on_node id m) ?_
  refine .read m orderly holds _ _ _ _ (on_get m) ?_
  refine .bind m _ _ (fun _ later => later = m) _ ?_ ?_
  · have same := on_scalarText_same m (m.nodes.size + 1) id
    exact .of_on m _ (on (scalarText (m.nodes.size + 1) id) m).1 _ (Prod.ext rfl same)
      (.refl m orderly holds) fun _ _ => rfl
  · rintro text _ - - rfl
    refine .bind _ _ _ _ _ (keeps_demand _ orderly holds _ _) ?_
    rintro _ _ - - ⟨rfl, -⟩
    exact .map _ _ _ _ (keeps_attempt _ orderly holds _)

variable (upheld : Upheld I)

include upheld

theorem Upheld.kept (later : Memory) (nodes : later.nodes = m.nodes) (built : later.built = m.built)
    (underway : later.underway = m.underway) (pairCount : later.pairCount = m.pairCount)
    (duplicates : later.duplicates = m.duplicates)
    (waiting : ∀ id ∈ later.deferred, id < m.nodes.size) : Kept I m later where
  orderly := by
    refine ⟨?_, ?_, ?_, ?_, ?_, by rw [nodes]; exact waiting⟩
    · rw [built, nodes]
      exact orderly.size
    · rw [nodes]
      exact orderly.closed
    · rw [underway, built]
      exact orderly.apart
    · rw [underway]
      exact orderly.distinct
    · rw [underway, nodes]
      exact orderly.inside
  holds :=
    upheld.settled m later holds ⟨by rw [nodes], pairCount, by rw [built]; exact fun _ _ => id⟩
    nodes built duplicates
  grown := ⟨by rw [nodes], pairCount, by rw [built]; exact fun _ _ => id⟩

theorem keeps_defer (id : NodeId) (inside : id < m.nodes.size) :
    Keeps I m (defer id) fun _ _ => True := by
  have kept : Kept I m { m with deferred := m.deferred ++ [id] } := by
    refine upheld.kept m orderly holds _ rfl rfl rfl rfl rfl fun other member => ?_
    rcases List.mem_append.mp member with member | member
    · exact orderly.waiting other member
    · rwa [List.mem_singleton.mp member]
  exact .after m _ _ _ () _ rfl kept rfl (.pure _ kept.orderly kept.holds _ _ trivial)

end Operations

section Collections

variable (fuel : Nat) (build : NodeBuilder) (builds : Upholds I fuel build) (path : List String)
  (orderly : m.IsOrderly) (holds : I.holds m) (deep : m.HasDepth fuel)

include builds orderly holds deep

theorem keeps_itemsFrom (items : List NodeId) (index : Nat)
    (inside : ∀ item ∈ items, item < m.nodes.size) :
    Keeps I m (itemsFrom build path items index) fun _ _ => True := by
  induction items generalizing m index with
  | nil => exact .pure m orderly holds _ _ trivial
  | cons item rest ih =>
    have first := inside item (List.mem_cons_self ..)
    rw [itemsFrom]
    refine .bind m _ _ _ _ (builds _ item m orderly holds first deep) ?_
    intro value later kept same _
    refine .map later _ _ _ (ih later kept.orderly kept.holds (kept.depth fuel _ _ deep same) _ ?_)
    intro other member
    rw [kept.grown.size]
    exact inside other (List.mem_cons_of_mem _ member)

/-- What holds before each round over the pairs of a mapping, by the pairs that are left, how many
of them do not count, the keys seen and the entries so far. -/
structure Round (I : Invariant)
    (L : List (NodeId × NodeId) → Nat → List Scalar → List (Scalar × Value) → Memory → Prop) :
    Prop where
  grows : ∀ rest merged seen entries (m later : Memory), L rest merged seen entries m →
    m.Extends later →
    L rest merged seen entries later
  tells : ∀ pair rest merged seen entries (before m : Memory) path key, I.holds before →
    m.IsOrderly →
    I.holds m →
    L (pair :: rest) merged seen entries m → keyIn m.built pair.1 = some key →
      Keeps I m (announceIf (merged == 0 && seen.any (·.same key)) path key
        (before.nodes.getD pair.1 default).start) fun _ _ => True
  goes : ∀ pair rest merged seen entries (m : Memory) key value,
    L (pair :: rest) merged seen entries m →
    keyIn m.built pair.1 = some key → m.built.getD pair.2 none = some value →
      L rest (merged - 1) (if merged == 0 then key :: seen else seen) (putEntry entries key value) m

theorem keeps_entriesFrom
    (L : List (NodeId × NodeId) → Nat → List Scalar → List (Scalar × Value) → Memory → Prop)
    (round : Round I L) (start : Position) (pairs : List (NodeId × NodeId)) (merged : Nat)
    (seen : List Scalar) (entries : List (Scalar × Value))
    (inside : ∀ pair ∈ pairs, pair.1 < m.nodes.size ∧ pair.2 < m.nodes.size)
    (before : L pairs merged seen entries m) :
    Keeps I m (entriesFrom build path start pairs merged seen entries)
      fun entries later => ∃ merged seen, L [] merged seen entries later := by
  -- `L` is carried through the key, the announcement and the
  -- value, since all of them extend the memory.
  induction pairs generalizing m merged seen entries with
  | nil => exact .pure m orderly holds _ _ ⟨merged, seen, before⟩
  | cons pair rest ih =>
    obtain ⟨keyId, valueId⟩ := pair
    rw [List.forall_mem_cons] at inside
    obtain ⟨⟨keyInside, valueInside⟩, insideRest⟩ := inside
    rw [entriesFrom]
    refine .read m orderly holds _ _ _ _ (on_node keyId m) ?_
    refine .bind m _ _ _ _ (builds path keyId m orderly holds keyInside deep) ?_
    intro value later kept same built
    have deepLater := kept.depth fuel m later deep same
    refine .bind later _ _ _ _ (keeps_hashable later kept.orderly kept.holds _ _ value) ?_
    rintro key _ - - ⟨rfl, named⟩
    refine .read _ kept.orderly kept.holds _ _ _ _ (on_node valueId _) ?_
    dsimp only
    refine .bind _ _ _ _ _ (keeps_demand _ kept.orderly kept.holds _ _) ?_
    rintro _ later - - ⟨rfl, -⟩
    have known : keyIn later.built keyId = some key := by
      rw [keyIn, built, Option.bind_some, named]
    have here := round.grows _ _ _ _ m later before kept.grown
    have tells :=
      round.tells (keyId, valueId) rest merged seen entries m later path key holds kept.orderly
      kept.holds here known
    refine .bind later _ _ _ _ tells ?_
    intro _ told keptTold sameTold _
    have deepTold := keptTold.depth fuel later told deepLater sameTold
    have valueTold : valueId < told.nodes.size := by
      rw [keptTold.grown.size, kept.grown.size]
      exact valueInside
    refine .bind told _ _ _ _
      (builds _ valueId told keptTold.orderly keptTold.holds valueTold deepTold) ?_
    intro value last keptLast sameLast builtLast
    have grown := keptTold.grown.trans _ _ _ keptLast.grown
    have insideLast : ∀ pair ∈ rest, pair.1 < last.nodes.size ∧ pair.2 < last.nodes.size := by
      rw [grown.size, kept.grown.size]
      exact insideRest
    have next := round.goes (keyId, valueId) rest merged seen entries last key value
      (round.grows _ _ _ _ later last here grown) (keyIn_extends later last keyId key grown known)
        builtLast
    exact ih last keptLast.orderly keptLast.holds (keptLast.depth fuel told last deepTold sameLast)
      _ _ _
      insideLast next

theorem keeps_mappingEntries (id : NodeId) (flat : Memory → Prop)
    (good : List (Scalar × Value) → Memory → Prop)
    (flattens : (m.nodes.getD id default).kind = .mapping →
      Keeps I m (flatten (m.pairCount + m.nodes.size + 1) id) fun _ later => flat later)
    (empty : (m.nodes.getD id default).kind ≠ .mapping → good [] m)
    (rounds : ∀ later, Kept I m later → flat later →
      ∃ L, Round I L ∧
        L (later.nodes.getD id default).pairs
          ((later.nodes.getD id default).pairs.length - m.ownCount id) [] [] later ∧
        ∀ merged seen entries last, L [] merged seen entries last → good entries last) :
    Keeps I m (mappingEntries build path id) good := by
  rw [Node.kind] at flattens empty
  rw [mappingEntries]
  refine .read m orderly holds _ _ _ _ (on_node id m) ?_
  cases content : (m.nodes.getD id default).content with
  | scalar text =>
    rw [content] at empty
    dsimp only
    split
    · exact .pure m orderly holds _ _ (empty nofun)
    · exact .halt m orderly holds _ _
  | sequence items =>
    rw [content] at empty
    dsimp only
    split
    · exact .pure m orderly holds _ _ (empty nofun)
    · exact .halt m orderly holds _ _
  | mapping pairs =>
    rw [content] at flattens
    refine .read m orderly holds _ _ _ _ (on_get m) ?_
    refine .bind m _ _ _ _ (flattens rfl) ?_
    intro _ later kept same shown
    refine .read later kept.orderly kept.holds _ _ _ _ (on_pairsOf id later) ?_
    obtain ⟨L, round, before, after⟩ := rounds later kept shown
    have now : (m.nodes.getD id default).pairs = pairs := by rw [Node.pairs, content]
    rw [Memory.ownCount, now] at before
    refine (keeps_entriesFrom later fuel build builds path kept.orderly kept.holds
      (kept.depth fuel m later deep same) L round _ _ _ [] [] (fun pair member => ?_)
      before).weaken _ _ _ _ ?_
    · obtain ⟨key, value⟩ := Node.children_of_mem_pairs _ pair member
      exact ⟨kept.orderly.closed id _ key, kept.orderly.closed id _ value⟩
    · rintro entries last - - ⟨merged, seen, done⟩
      exact after merged seen entries last done

theorem keeps_sequenceItems (id : NodeId) :
    Keeps I m (sequenceItems build path id) fun _ _ => True := by
  have closed := orderly.closed id
  rw [sequenceItems]
  refine .read m orderly holds _ _ _ _ (on_node id m) ?_
  cases content : (m.nodes.getD id default).content with
  | sequence items =>
    rw [content] at closed
    exact keeps_itemsFrom m fuel build builds path orderly holds deep items 0 closed
  | scalar text =>
    dsimp only
    split
    · exact .pure m orderly holds _ _ trivial
    · exact .halt m orderly holds _ _
  | mapping pairs =>
    dsimp only
    split
    · exact .pure m orderly holds _ _ trivial
    · exact .halt m orderly holds _ _

theorem keeps_pairFrom (activity : Activity) (start : Position) (id : NodeId) :
    Keeps I m (pairFrom build path activity start id) fun _ _ => True := by
  have closed := orderly.closed id
  rw [pairFrom]
  refine .read m orderly holds _ _ _ _ (on_node id m) ?_
  split
  · next key value content =>
    rw [content] at closed
    have key_inside := closed key (by simp [Content.children])
    have value_inside := closed value (by simp [Content.children])
    refine .bind m _ _ _ _ (builds path key m orderly holds key_inside deep) ?_
    intro _ later kept same _
    refine .map later _ _ _ (builds path value later kept.orderly kept.holds ?_ ?_)
    · rw [kept.grown.size]
      exact value_inside
    · exact kept.depth fuel _ _ deep same
  · exact .halt m orderly holds _ _
  · exact .halt m orderly holds _ _

theorem keeps_pairList (activity : Activity) (id : NodeId) :
    Keeps I m (pairList build path activity id) fun _ _ => True := by
  have each (start : Position) (items : List NodeId) (m : Memory) (orderly : m.IsOrderly)
    (holds : I.holds m)
      (deep : m.HasDepth fuel) :
      Keeps I m (items.mapM (pairFrom build path activity start)) fun _ _ => True := by
    induction items generalizing m with
    | nil => exact .pure m orderly holds _ _ trivial
    | cons item rest ih =>
      rw [List.mapM_cons]
      refine .bind m _ _ _ _
        (keeps_pairFrom m fuel build builds path orderly holds deep activity start item) ?_
      intro _ later kept same _
      exact .map later _ _ _ (ih later kept.orderly kept.holds (kept.depth fuel _ _ deep same))
  rw [pairList]
  refine .read m orderly holds _ _ _ _ (on_node id m) ?_
  split
  · exact each _ _ m orderly holds deep
  · exact .halt m orderly holds _ _

variable (upheld : Upheld I) (id : NodeId) (inside : id < m.nodes.size)

include upheld inside

theorem keeps_fill : Keeps I m (fill build path id) fun _ _ => True := by
  have list (activity : Activity) : Keeps I m
      (pairList build path activity id >>= fun items => pure (Value.list items)) fun _ _ => True :=
    .map m _ _ _ (keeps_pairList m fuel build builds path orderly holds deep activity id)
  rw [fill]
  refine .read m orderly holds _ _ _ _ (on_tagOf id m) ?_
  split
  · exact list .orderedMap
  · exact list .pairs
  · exact .map m _ _ _ (upheld.entries fuel build path id m builds orderly holds inside deep)

end Collections

theorem keeps_valueOf (upheld : Upheld I) (fuel : Nat) (build : Bool → NodeBuilder)
    (builds : ∀ within, Upholds I fuel (build within)) (within : Bool) (path : List String)
    (id : NodeId)
    (orderly : m.IsOrderly) (holds : I.holds m) (inside : id < m.nodes.size)
    (deep : m.HasDepth fuel) :
    Keeps I m (valueOf build within path id) fun value later =>
      (m.nodes.getD id default).tag = .map → ∃ entries, value = .map entries ∧
        I.made id entries later := by
  have fillOrDefer : Keeps I m (if within then fill (build within) path id else defer id)
      fun _ _ => True := by
    split
    · exact keeps_fill m fuel _ (builds within) path orderly holds deep upheld id inside
    · exact keeps_defer m orderly holds upheld id inside
  have scalar (tag : Tag) : Keeps I m (scalarValue id tag) fun _ _ => True :=
    keeps_scalarValue m orderly holds id tag
  rw [valueOf]
  refine .read m orderly holds _ _ _ _ (on_node id m) ?_
  cases (m.nodes.getD id default).tag
  case map =>
    refine .bind m _ _ _ _ (upheld.entries fuel _ path id m (builds true) orderly holds inside deep)
      ?_
    exact fun entries later kept _ made =>
      .pure later kept.orderly kept.holds _ _ fun _ => ⟨entries, rfl, made⟩
  case seq =>
    refine .bind m _ _ _ _
      (keeps_sequenceItems m fuel _ (builds true) path orderly holds deep id) ?_
    exact fun _ later kept _ _ => .pure later kept.orderly kept.holds _ _ nofun
  case orderedMap => exact fillOrDefer.weaken m _ _ _ fun _ _ _ _ _ => nofun
  case pairs => exact fillOrDefer.weaken m _ _ _ fun _ _ _ _ _ => nofun
  case set => exact fillOrDefer.weaken m _ _ _ fun _ _ _ _ _ => nofun
  case merge => exact .halt m orderly holds _ _
  case value => exact .halt m orderly holds _ _
  case other name => exact .halt m orderly holds _ _
  all_goals exact (scalar _).weaken m _ _ _ fun _ _ _ _ _ => nofun

theorem Kept.leave (upheld : Upheld I) (entered later : Memory) (id : NodeId) (value : Value)
    (same : entered = { m with underway := id :: m.underway }) (holds : I.holds entered)
    (kept : Kept I entered later) (underway : later.underway = entered.underway)
    (made : (entered.nodes.getD id default).tag = .map →
      ∃ entries, value = .map entries ∧ I.made id entries later) :
    Kept I m { later with
      built := later.built.setIfInBounds id (some value), underway := later.underway.erase id } ∧
      later.underway.erase id = m.underway := by
  have back : later.underway = id :: m.underway := by rw [underway, same]
  have fresh : later.built.getD id none = none :=
    kept.orderly.apart id (by rw [back]; exact List.mem_cons_self ..)
  have grown := Memory.Extends.remember later id value (later.underway.erase id) fresh
  have start : m.Extends entered := by
    rw [same]
    exact ⟨rfl, rfl, fun _ _ known => known⟩
  refine ⟨⟨kept.orderly.leave later id value m.underway back, ?_, ?_⟩, ?_⟩
  · exact upheld.remembers entered later _ id value holds kept.holds grown rfl rfl rfl made
  · exact (start.trans _ _ _ kept.grown).trans _ _ _ grown
  · rw [back, List.erase_cons_head]

theorem keeps_visit (upheld : Upheld I) (fuel : Nat) (build : Bool → NodeBuilder)
    (builds : ∀ within, Upholds I fuel (build within)) (within : Bool) (path : List String)
    (id : NodeId)
    (orderly : m.IsOrderly) (holds : I.holds m) (inside : id < m.nodes.size)
    (deep : m.HasDepth (fuel + 1)) (fresh : m.built.getD id none = none) :
    Keeps I m (visit build within path id)
      fun value later => later.built.getD id none = some value := by
  rw [visit]
  by_cases working : id ∈ m.underway
  next =>
    exact .bind m _ _ (fun _ _ => False) _
      (.of_on m _ _ _ (on_enter_again id m working) (.refl m orderly holds) nofun)
      fun _ _ _ _ impossible => impossible.elim
  next =>
    let entered : Memory := { m with underway := id :: m.underway }
    have start : entered.IsOrderly := orderly.enter m id inside fresh working
    have holdsEntered : I.holds entered :=
      upheld.settled m entered holds ⟨rfl, rfl, fun _ _ built => built⟩ rfl rfl rfl
    have deepEntered : entered.HasDepth fuel := by
      have length : entered.underway.length = m.underway.length + 1 := rfl
      rw [Memory.HasDepth] at deep ⊢
      change m.nodes.size < _
      omega
    have ends :=
      keeps_valueOf entered upheld fuel build builds within path id start holdsEntered inside
      deepEntered
    -- Between entering and leaving more is underway than before, so no rule for two steps applies.
    unfold Keeps at ends ⊢
    rw [on_bind_ok _ _ _ _ _ (on_enter id m working)]
    cases ending : on (valueOf build within path id) entered with
    | mk result later =>
      rw [ending] at ends
      cases result with
      | error halt =>
        rw [on_bind_error _ _ _ _ _ ending]
        exact ends
      | ok value =>
        obtain ⟨kept, underway, made⟩ := ends
        obtain ⟨keptLast, same⟩ :=
          kept.leave m upheld entered later id value rfl holdsEntered underway made
        rw [on_bind_ok _ _ _ _ _ ending]
        refine ⟨keptLast, same, ?_⟩
        change (later.built.setIfInBounds id (some value)).getD id none = some value
        rw [getD_setIfInBounds, if_pos]
        refine ⟨rfl, ?_⟩
        rw [kept.orderly.size, kept.grown.size]
        exact inside

theorem upholds_object (upheld : Upheld I) (fuel : Nat) (within : Bool) :
    Upholds I fuel (object fuel within) := by
  induction fuel generalizing within with
  | zero =>
    intro path id m orderly holds inside deep
    have bound := orderly.length_underway
    rw [Memory.HasDepth] at deep
    omega
  | succ fuel ih =>
    intro path id m orderly holds inside deep
    rw [object]
    refine .read m orderly holds _ _ _ _ (on_remembered id m) ?_
    cases known : m.built.getD id none with
    | some value => exact .pure m orderly holds value _ known
    | none => exact keeps_visit m upheld fuel _ ih within path id orderly holds inside deep known

theorem keeps_fillDeferred (upheld : Upheld I) (build : Bool → NodeBuilder) (fuel rounds : Nat)
    (builds : ∀ within, Upholds I fuel (build within)) (orderly : m.IsOrderly) (holds : I.holds m)
    (deep : m.HasDepth fuel) : Keeps I m (fillDeferred build rounds) fun _ _ => True := by
  induction rounds generalizing m with
  | zero => exact .pure m orderly holds _ _ trivial
  | succ rounds ih =>
    rw [fillDeferred]
    refine .read m orderly holds _ _ _ _ (on_get m) ?_
    cases waiting : m.deferred with
    | nil => exact .pure m orderly holds _ _ trivial
    | cons id rest =>
      have all := orderly.waiting
      rw [waiting, List.forall_mem_cons] at all
      have kept : Kept I m { m with deferred := rest } :=
        upheld.kept m orderly holds _ rfl rfl rfl rfl rfl all.2
      refine .after m _ _ _ () _ rfl kept rfl ?_
      refine .bind _ _ _ _ _
        (keeps_fill _ fuel _ (builds false) [] kept.orderly kept.holds deep upheld
          id all.1) ?_
      intro value later keptLater same _
      have keptFilled : Kept I later { later with filled := (id, value) :: later.filled } :=
        upheld.kept later keptLater.orderly keptLater.holds _ rfl rfl rfl rfl rfl
          keptLater.orderly.waiting
      refine .after later _ _ _ () _ rfl keptFilled rfl ?_
      have deepLater : later.HasDepth fuel :=
        keptLater.depth fuel { m with deferred := rest } later deep same
      exact ih _ keptFilled.orderly keptFilled.holds deepLater

end Build

namespace Graph

structure IsClosed (g : Graph) : Prop where
  root : g.root < g.nodes.size
  held : ∀ id < g.nodes.size, ∀ child ∈ (g.node id).content.children, child < g.nodes.size

instance (g : Graph) : Decidable g.IsClosed :=
  decidable_of_iff
    (g.root < g.nodes.size ∧
      ∀ id < g.nodes.size, ∀ child ∈ (g.node id).content.children, child < g.nodes.size)
    ⟨fun both => ⟨both.1, both.2⟩, fun closed => ⟨closed.root, closed.held⟩⟩

theorem isOrderly_memory (g : Graph) (channel : Channel) (closed : g.IsClosed) :
    (g.memory channel).IsOrderly where
  size := Array.size_replicate
  closed := fun id child member => by
    by_cases inside : id < g.nodes.size
    next => exact closed.held id inside child member
    next =>
      have missing : (g.memory channel).nodes.getD id default = default := by
        change g.nodes.getD id default = default
        simp [Array.getD, inside]
      rw [missing] at member
      exact absurd member List.not_mem_nil
  apart := fun _ member => absurd member List.not_mem_nil
  distinct := .nil
  inside := fun _ member => absurd member List.not_mem_nil
  waiting := fun _ member => absurd member List.not_mem_nil

def builtBy (g : Graph) (channel : Channel) : Array (Option Value) :=
  (Build.on g.build (g.memory channel)).2.built

theorem keeps_build (g : Graph) (channel : Channel) (closed : g.IsClosed) (I : Build.Invariant)
    (upheld : Build.Upheld I) (holds : I.holds (g.memory channel)) :
    Build.Keeps I (g.memory channel) g.build fun _ _ => True := by
  have orderly := g.isOrderly_memory channel closed
  have builds := Build.upholds_object upheld (g.nodes.size + 1)
  have deep : (g.memory channel).HasDepth (g.nodes.size + 1) := by
    change g.nodes.size < 0 + (g.nodes.size + 1)
    omega
  refine .bind _ _ _ _ _ (builds false [] g.root _ orderly holds closed.root deep) ?_
  intro value later kept same _
  refine .bind later _ _ _ _
    (Build.keeps_fillDeferred later upheld _ _ _ builds kept.orderly kept.holds
      (kept.depth _ _ _ deep same)) ?_
  intro _ last keptLast _ _
  refine .read last keptLast.orderly keptLast.holds _ _ _ _ (Build.on_get last) ?_
  dsimp only
  split
  · exact .pure last keptLast.orderly keptLast.holds _ _ trivial
  · exact .pure last keptLast.orderly keptLast.holds _ _ trivial

end Graph

end LocaleLint.Yaml
