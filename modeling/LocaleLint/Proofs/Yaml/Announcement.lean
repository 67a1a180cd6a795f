import Mathlib.Data.Nat.Find
import LocaleLint.Proofs.Yaml.Tree
import LocaleLint.Proofs.Yaml.Upkeep

set_option autoImplicit false

namespace LocaleLint.Yaml

namespace Graph

def IsMergeFreeAt (g : Graph) (id : NodeId) : Prop :=
  ∀ pair ∈ (g.node id).pairs, (g.node pair.1).tag ≠ .merge

instance (g : Graph) (id : NodeId) : Decidable (g.IsMergeFreeAt id) :=
  inferInstanceAs (Decidable (∀ pair ∈ (g.node id).pairs, (g.node pair.1).tag ≠ .merge))

def Offers (g : Graph) (source item : NodeId) : Prop :=
  item = source ∨ ∃ items, (g.node source).content = .sequence items ∧ item ∈ items

inductive Supplies (g : Graph) : NodeId → NodeId × NodeId → Prop
  | written (id : NodeId) (pair : NodeId × NodeId) (member : pair ∈ (g.node id).pairs) :
    Supplies g id pair
  | merged (id key source item : NodeId) (pair : NodeId × NodeId)
    (supplied : Supplies g id (key, source))
      (merges : (g.node key).tag = .merge) (offers : g.Offers source item)
      (given : Supplies g item pair) : Supplies g id pair

theorem Supplies.inside (g : Graph) (closed : g.IsClosed) (id : NodeId) (pair : NodeId × NodeId)
    (supplies : g.Supplies id pair) : pair.1 < g.nodes.size ∧ pair.2 < g.nodes.size := by
  induction supplies with
  | merged _ _ _ _ _ _ _ _ _ _ given => exact given
  | written id pair member =>
    obtain ⟨key, value⟩ := (g.node id).children_of_mem_pairs pair member
    have held (child : NodeId) (holds : g.Holds id child) : child < g.nodes.size :=
      closed.held id (g.lt_size_of_holds id child holds) child holds
    exact ⟨held pair.1 key, held pair.2 value⟩

end Graph

structure Repetition (g : Graph) (built : Array (Option Value)) (id : NodeId) (found : DuplicateKey)
    (pairs : List (NodeId × NodeId)) (first again : Nat) : Prop where
  supplied : ∀ pair ∈ pairs, g.Supplies id pair
  written : g.IsMergeFreeAt id → pairs = (g.node id).pairs
  later : first < again
  before : ∀ index < first, ∃ pair name, pairs[index]? = some pair ∧
    keyIn built pair.1 = some name ∧
    name.same found.key = false
  equal : ∃ pair name, pairs[first]? = some pair ∧ keyIn built pair.1 = some name ∧
    name.same found.key = true
  place : ∃ pair, pairs[again]? = some pair ∧ keyIn built pair.1 = some found.key ∧
    found.line = some ((g.node pair.1).start.line + 1) ∧
      found.column = some ((g.node pair.1).start.column + 1)

theorem Repetition.mono (g : Graph) (m later : Memory) (id : NodeId) (found : DuplicateKey)
    (pairs : List (NodeId × NodeId)) (first again : Nat)
    (repetition : Repetition g m.built id found pairs first again) (grown : m.Extends later) :
    Repetition g later.built id found pairs first again :=
  { repetition with
    before := fun index less => by
      obtain ⟨pair, name, here, known, other⟩ := repetition.before index less
      exact ⟨pair, name, here, keyIn_extends m later pair.1 name grown known, other⟩
    equal := by
      obtain ⟨pair, name, here, known, same⟩ := repetition.equal
      exact ⟨pair, name, here, keyIn_extends m later pair.1 name grown known, same⟩
    place := by
      obtain ⟨pair, here, known, place⟩ := repetition.place
      exact ⟨pair, here, keyIn_extends m later pair.1 _ grown known, place⟩ }

structure Memory.Reports (g : Graph) (m : Memory) : Prop where
  size : m.nodes.size = g.nodes.size
  start : ∀ id, (m.nodes.getD id default).start = (g.node id).start
  merges : ∀ id, (m.nodes.getD id default).tag = .merge ↔ (g.node id).tag = .merge
  content : ∀ id, (g.node id).kind ≠ .mapping →
    (m.nodes.getD id default).content = (g.node id).content
  kind : ∀ id, (m.nodes.getD id default).kind = (g.node id).kind
  supplied : ∀ id, ∀ pair ∈ (m.nodes.getD id default).pairs, g.Supplies id pair
  plain : ∀ id, g.IsMergeFreeAt id → (m.nodes.getD id default).pairs = (g.node id).pairs
  repetitions : ∀ found ∈ m.duplicates, ∃ id pairs first again,
    Repetition g m.built id found pairs first again

namespace Memory.Reports

variable (g : Graph) (m : Memory) (reports : m.Reports g)

include reports

theorem closed (isClosed : g.IsClosed) (id : NodeId) (child : NodeId)
    (member : child ∈ (m.nodes.getD id default).content.children) : child < m.nodes.size := by
  have given := reports.supplied id
  rw [reports.size]
  cases content : (m.nodes.getD id default).content with
  | mapping pairs =>
    rw [content, Content.children] at member
    rw [Node.pairs, content] at given
    obtain ⟨pair, there, which⟩ := List.mem_flatMap.mp member
    have inside := (given pair there).inside g isClosed id pair
    rcases List.mem_cons.mp which with rfl | which
    · exact inside.1
    · rw [List.mem_singleton.mp which]
      exact inside.2
  | scalar text =>
    rw [content] at member
    contradiction
  | sequence items =>
    have other : (g.node id).kind ≠ .mapping := by
      rw [← reports.kind id, Node.kind, content]
      intro same
      cases same
    rw [reports.content id other] at member
    exact isClosed.held id (g.lt_size_of_holds id child member) child member

theorem merges_of_taken (id key source : NodeId)
    (there : (key, source) ∈ (m.nodes.getD id default).pairs)
    (tagged : Build.hasTag m.nodes .merge key = true) : ¬g.IsMergeFreeAt id := by
  intro free
  rw [reports.plain id free] at there
  exact free _ there ((reports.merges key).mp (beq_iff_eq.mp tagged))

theorem setPairs (id : NodeId) (pairs : List (NodeId × NodeId))
    (isMapping : (g.node id).kind = .mapping) (merging : ¬g.IsMergeFreeAt id)
    (supplied : ∀ pair ∈ pairs, g.Supplies id pair) :
    ({ m with nodes := m.nodes.modify id fun node => { node with content := .mapping pairs } } :
      Memory).Reports g where
  size := by rw [Array.size_modify, reports.size]
  start := fun other => by
    simp only [getD_modify]
    split <;> exact reports.start other
  merges := fun other => by
    simp only [getD_modify]
    split <;> exact reports.merges other
  content := fun other noMapping => by
    simp only [getD_modify]
    rw [if_neg]
    · exact reports.content other noMapping
    · rintro ⟨rfl, -⟩
      exact noMapping isMapping
  kind := fun other => by
    simp only [getD_modify]
    split
    · next here =>
      rw [← here.1, isMapping]
      rfl
    · exact reports.kind other
  supplied := fun other => by
    simp only [getD_modify]
    split
    · next here =>
      rw [← here.1]
      exact supplied
    · exact reports.supplied other
  plain := fun other free => by
    simp only [getD_modify]
    rw [if_neg]
    · exact reports.plain other free
    · rintro ⟨rfl, -⟩
      exact merging free
  repetitions := reports.repetitions

theorem plainKey (pair : NodeId × NodeId) :
    ({ m with nodes := if Build.hasTag m.nodes .value pair.1 then
        m.nodes.modify pair.1 fun node => { node with tag := .str }
          else m.nodes } : Memory).Reports g := by
  split
  next tagged =>
    have tag : (m.nodes.getD pair.1 default).tag = .value := beq_iff_eq.mp tagged
    have current (other : NodeId) :
        ((m.nodes.modify pair.1 fun node => { node with tag := .str }).getD other default).content =
          (m.nodes.getD other default).content := by
      rw [getD_modify]
      split <;> rfl
    have pairs (other : NodeId) :
        ((m.nodes.modify pair.1 fun node => { node with tag := .str }).getD other default).pairs =
          (m.nodes.getD other default).pairs := by
      rw [Node.pairs, Node.pairs, current]
    refine ⟨?_, fun other => ?_, fun other => ?_, fun other => ?_, fun other => ?_, fun other => ?_,
      fun other => ?_, reports.repetitions⟩
    · rw [Array.size_modify, reports.size]
    · simp only [getD_modify]
      split <;> exact reports.start other
    · simp only [getD_modify]
      split
      · next here =>
        rw [← reports.merges other, ← here.1, tag]
        simp
      · exact reports.merges other
    · simp only [current]
      exact reports.content other
    · simp only [Node.kind, current]
      exact reports.kind other
    · simp only [pairs]
      exact reports.supplied other
    · simp only [pairs]
      exact reports.plain other
  next => exact reports

theorem settled (later : Memory) (grown : m.Extends later) (nodes : later.nodes = m.nodes)
    (duplicates : later.duplicates = m.duplicates) : later.Reports g := by
  refine ⟨?_, ?_, ?_, ?_, ?_, ?_, ?_, ?_⟩
  · rw [nodes]
    exact reports.size
  · rw [nodes]
    exact reports.start
  · rw [nodes]
    exact reports.merges
  · rw [nodes]
    exact reports.content
  · rw [nodes]
    exact reports.kind
  · rw [nodes]
    exact reports.supplied
  · rw [nodes]
    exact reports.plain
  · rw [duplicates]
    intro found member
    obtain ⟨id, pairs, first, again, repetition⟩ := reports.repetitions found member
    exact ⟨id, pairs, first, again, repetition.mono g m later id found pairs first again grown⟩

end Memory.Reports

namespace Build

variable (g : Graph)

def reporting : Invariant where
  holds := Memory.Reports g
  failed := Memory.Reports g
  made := fun _ _ _ => True
  weakens := fun _ reports => reports

variable (isClosed : g.IsClosed)

include isClosed

theorem keeps_nodes (x : Build Unit) (m : Memory) (nodes : Array Node) (orderly : m.IsOrderly)
    (reports : m.Reports g) (run : on x m = (.ok (), { m with nodes := nodes }))
    (changed : ({ m with nodes := nodes } : Memory).Reports g) :
    Keeps (reporting g) m x fun _ _ => True := by
  have same : nodes.size = m.nodes.size := changed.size.trans reports.size.symm
  unfold Keeps
  rw [run]
  refine ⟨⟨?_, changed, ⟨same, rfl, fun _ _ built => built⟩⟩, rfl, trivial⟩
  refine ⟨?_, changed.closed g _ isClosed, orderly.apart, orderly.distinct, ?_, ?_⟩
  · change m.built.size = nodes.size
    rw [same, orderly.size]
  · intro id member
    change id < nodes.size
    rw [same]
    exact orderly.inside id member
  · intro id member
    change id < nodes.size
    rw [same]
    exact orderly.waiting id member

theorem keeps_plainValueKeys (m : Memory) (pairs : List (NodeId × NodeId)) (orderly : m.IsOrderly)
    (reports : m.Reports g) : Keeps (reporting g) m (plainValueKeys pairs) fun _ _ => True := by
  have all (pairs : List (NodeId × NodeId)) (nodes : Array Node)
      (reports : ({ m with nodes := nodes } : Memory).Reports g) :
      ({ m with nodes := pairs.foldl (fun nodes pair => if hasTag nodes .value pair.1 then
        nodes.modify pair.1 fun node => { node with tag := .str }
          else nodes) nodes } : Memory).Reports g := by
    induction pairs generalizing nodes with
    | nil => exact reports
    | cons pair rest ih => exact ih _ (reports.plainKey g { m with nodes := nodes } pair)
  exact keeps_nodes g isClosed _ m _ orderly reports rfl (all pairs m.nodes reports)

def FlattensWell (flattenNode : NodeId → Build Unit) : Prop :=
  ∀ id (m : Memory), m.IsOrderly → m.Reports g →
    Keeps (reporting g) m (flattenNode id) fun _ _ => True

variable (flattenNode : NodeId → Build Unit) (flattens : FlattensWell g flattenNode) (m : Memory)
  (orderly : m.IsOrderly) (reports : m.Reports g)

include flattens orderly reports

omit isClosed in
theorem keeps_listedPairs (start : Position) (items : List NodeId) :
    Keeps (reporting g) m (listedPairs flattenNode start items)
      fun lists _ => ∀ pairs ∈ lists, ∃ item ∈ items, ∀ pair ∈ pairs, g.Supplies item pair := by
  induction items generalizing m with
  | nil => exact .pure m orderly reports _ _ nofun
  | cons item rest ih =>
    rw [listedPairs]
    refine .read m orderly reports _ _ _ _ (on_node item m) ?_
    refine .bind m _ _ _ _ (keeps_demand m orderly reports _ _) ?_
    rintro _ _ - - ⟨rfl, -⟩
    refine .bind _ _ _ _ _ (flattens item _ orderly reports) ?_
    intro _ later kept _ _
    refine .read later kept.orderly kept.holds _ _ _ _ (on_pairsOf item later) ?_
    have given := kept.holds.supplied item
    refine .bind later _ _ _ _ (ih later kept.orderly kept.holds) ?_
    intro lists last keptLast _ all
    refine .pure last keptLast.orderly keptLast.holds _ _ fun pairs member => ?_
    rcases List.mem_cons.mp member with rfl | member
    · exact ⟨item, List.mem_cons_self .., given⟩
    · obtain ⟨other, there, supplied⟩ := all pairs member
      exact ⟨other, List.mem_cons_of_mem _ there, supplied⟩

omit isClosed in
theorem keeps_sourcePairs (start : Position) (source : NodeId) :
    Keeps (reporting g) m (sourcePairs flattenNode start source)
      fun pairs _ => ∀ pair ∈ pairs, ∃ item, g.Offers source item ∧ g.Supplies item pair := by
  rw [sourcePairs]
  refine .read m orderly reports _ _ _ _ (on_node source m) ?_
  cases content : (m.nodes.getD source default).content with
  | scalar text => exact .halt m orderly reports _ _
  | mapping pairs =>
    refine .bind m _ _ _ _ (flattens source m orderly reports) ?_
    intro _ later kept _ _
    refine .of_on later _ _ _ (on_pairsOf source later) (.refl later kept.orderly kept.holds) ?_
    intro pairs same
    cases same
    exact fun pair member => ⟨source, .inl rfl, kept.holds.supplied source pair member⟩
  | sequence items =>
    have written : (g.node source).content = .sequence items := by
      rw [← content]
      refine (reports.content source ?_).symm
      rw [← reports.kind source, Node.kind, content]
      intro same
      cases same
    refine .bind m _ _ _ _
      (keeps_listedPairs g flattenNode flattens m orderly reports start items) ?_
    intro lists later kept _ all
    refine .pure later kept.orderly kept.holds _ _ fun pair member => ?_
    obtain ⟨pairs, there, member⟩ := List.mem_flatten.mp member
    obtain ⟨item, listed, supplied⟩ := all pairs (List.mem_reverse.mp there)
    exact ⟨item, .inr ⟨items, written, listed⟩, supplied pair member⟩

theorem keeps_absorb (id : NodeId) (loops : Nat) (gone : List (NodeId × NodeId))
    (merging : gone ≠ [] → (g.node id).kind = .mapping ∧ ¬g.IsMergeFreeAt id)
    (supplied : ∀ pair ∈ gone, g.Supplies id pair) :
    Keeps (reporting g) m (absorb flattenNode id loops gone) fun _ _ => True := by
  -- Every pair gone so far is one that the mapping may be given; after the first merge key that was
  -- taken out the mapping is known for one that merges.
  induction loops generalizing gone m with
  | zero => exact .pure m orderly reports _ _ trivial
  | succ loops ih =>
    rw [absorb]
    refine .read m orderly reports _ _ _ _ (on_get m) ?_
    refine .read m orderly reports _ _ _ _ (on_pairsOf id m) ?_
    have given := reports.supplied id
    cases taken : takeMerge? (hasTag m.nodes .merge) (m.nodes.getD id default).pairs with
    | none =>
      refine .bind m _ _ _ _ (keeps_plainValueKeys g isClosed m _ orderly reports) ?_
      intro _ later kept _ _
      by_cases empty : gone = []
      · rw [empty]
        exact .pure later kept.orderly kept.holds _ _ trivial
      · obtain ⟨isMapping, merges⟩ := merging empty
        rw [if_pos (by simpa using empty)]
        refine keeps_nodes g isClosed _ later _ kept.orderly kept.holds rfl
          (kept.holds.setPairs g later id _ isMapping merges fun pair member => ?_)
        rcases List.mem_append.mp member with member | member
        · exact supplied pair member
        · exact given pair member
    | some found =>
      obtain ⟨source, others⟩ := found
      obtain ⟨key, there, tagged, subset⟩ := takeMerge?_mem _ _ _ _ taken
      have merges := reports.merges_of_taken g m id key source there tagged
      have isMapping : (g.node id).kind = .mapping := by
        rw [← reports.kind id, Node.kind, Node.content_of_mem_pairs _ _ there]
        rfl
      have cutReports := reports.setPairs g m id others isMapping merges fun pair member =>
        given pair (subset pair member)
      refine .bind m _ _ _ _ (keeps_nodes g isClosed _ m _ orderly reports rfl cutReports) ?_
      intro _ cut kept _ _
      refine .read cut kept.orderly kept.holds _ _ _ _ (on_node id cut) ?_
      refine .bind cut _ _ _ _
        (keeps_sourcePairs g flattenNode flattens cut kept.orderly kept.holds _ source) ?_
      intro more later keptLater _ all
      refine ih later keptLater.orderly keptLater.holds _ (fun _ => ⟨isMapping, merges⟩) ?_
      intro pair member
      rcases List.mem_append.mp member with member | member
      · exact supplied pair member
      · obtain ⟨item, offers, supplies⟩ := all pair member
        exact .merged id key source item pair (given _ there)
          ((reports.merges key).mp (beq_iff_eq.mp tagged))
          offers supplies

omit flattens orderly reports in
theorem keeps_flatten (fuel : Nat) : FlattensWell g (flatten fuel) := by
  induction fuel with
  | zero => exact fun id m orderly reports => .pure m orderly reports _ _ trivial
  | succ fuel ih =>
    intro id m orderly reports
    exact keeps_absorb g isClosed _ ih m orderly reports id _ [] (fun some => absurd rfl some) nofun

end Build

structure Seen (built : Array (Option Value)) (done : List (NodeId × NodeId)) (seen : List Scalar) :
    Prop where
  named : ∀ pair ∈ done, ∃ name, keyIn built pair.1 = some name
  known : ∀ name ∈ seen, ∃ pair ∈ done, keyIn built pair.1 = some name

namespace Seen

variable (built : Array (Option Value)) (done : List (NodeId × NodeId)) (seen : List Scalar)

theorem mono (m later : Memory) (keys : Seen m.built done seen) (grown : m.Extends later) :
    Seen later.built done seen where
  named := fun pair member => by
    obtain ⟨name, known⟩ := keys.named pair member
    exact ⟨name, keyIn_extends m later pair.1 name grown known⟩
  known := fun name member => by
    obtain ⟨pair, there, known⟩ := keys.known name member
    exact ⟨pair, there, keyIn_extends m later pair.1 name grown known⟩

theorem next (keys : Seen built done seen) (pair : NodeId × NodeId) (key : Scalar)
    (named : keyIn built pair.1 = some key) : Seen built (done ++ [pair]) (key :: seen) where
  named := fun other member => by
    rcases List.mem_append.mp member with member | member
    · exact keys.named other member
    · rw [List.mem_singleton.mp member]
      exact ⟨key, named⟩
  known := fun name member => by
    rcases List.mem_cons.mp member with rfl | member
    · exact ⟨pair, by simp, named⟩
    · obtain ⟨other, there, known⟩ := keys.known name member
      exact ⟨other, List.mem_append_left _ there, known⟩

theorem exists_first (keys : Seen built done seen) (key : Scalar)
    (again : seen.any (·.same key) = true) :
    ∃ first < done.length,
      (∀ index < first, ∃ pair name, done[index]? = some pair ∧ keyIn built pair.1 = some name ∧
        name.same key = false) ∧
      ∃ pair name, done[first]? = some pair ∧ keyIn built pair.1 = some name ∧
        name.same key = true := by
  let Fits (index : Nat) : Prop := ∃ pair name, done[index]? = some pair ∧
    keyIn built pair.1 = some name ∧ name.same key = true
  have found : ∃ index, Fits index := by
    obtain ⟨name, member, same⟩ := List.any_eq_true.mp again
    obtain ⟨pair, there, known⟩ := keys.known name member
    obtain ⟨index, here⟩ := List.mem_iff_getElem?.mp there
    exact ⟨index, pair, name, here, known, same⟩
  classical
  obtain ⟨pair, name, here, known, same⟩ := Nat.find_spec found
  have inside : Nat.find found < done.length := (List.getElem?_eq_some_iff.mp here).1
  refine ⟨Nat.find found, inside, fun index less => ?_, pair, name, here, known, same⟩
  have within : index < done.length := Nat.lt_trans less inside
  obtain ⟨other, named⟩ := keys.named done[index] (List.getElem_mem within)
  refine ⟨done[index], other, List.getElem?_eq_getElem within, named, ?_⟩
  rw [Bool.eq_false_iff]
  intro equal
  exact Nat.find_min found less ⟨done[index], other, List.getElem?_eq_getElem within, named, equal⟩

end Seen

namespace Build

variable (g : Graph)

theorem round_reports (id : NodeId) (pairs : List (NodeId × NodeId))
    (supplied : ∀ pair ∈ pairs, g.Supplies id pair)
    (written : g.IsMergeFreeAt id → pairs = (g.node id).pairs) :
    Round (reporting g) fun rest merged seen _ m =>
      ∃ done, done ++ rest.drop merged = pairs ∧ Seen m.built done seen where
  grows := by
    rintro rest merged seen _ m later ⟨done, whole, keys⟩ grown
    exact ⟨done, whole, keys.mono done seen m later grown⟩
  tells := by
    rintro pair rest merged seen _ before m path key earlier orderly reports
      ⟨done, whole, keys⟩ known
    refine keeps_announceIf m orderly reports _ path key _ fun text again => ?_
    rw [Bool.and_eq_true, beq_iff_eq] at again
    -- The first of the done pairs with that key is the one that the key comes again for.
    obtain ⟨first, less, unlike, equal⟩ := keys.exists_first _ done seen key again.2
    rw [again.1, List.drop_zero] at whole
    have among (index : Nat) (pair : NodeId × NodeId) (here : done[index]? = some pair) :
        pairs[index]? = some pair := by
      rw [← whole, List.getElem?_append_left (List.getElem?_eq_some_iff.mp here).1, here]
    refine { reports with repetitions := List.forall_mem_cons.mpr ⟨?_, reports.repetitions⟩ }
    refine ⟨id, pairs, first, done.length, supplied, written, less, ?_, ?_, pair, ?_, known, ?_⟩
    · intro index smaller
      obtain ⟨pair, name, here, known, other⟩ := unlike index smaller
      exact ⟨pair, name, among index pair here, known, other⟩
    · obtain ⟨pair, name, here, known, same⟩ := equal
      exact ⟨pair, name, among first pair here, known, same⟩
    · rw [← whole, List.getElem?_append_right (Nat.le_refl _), Nat.sub_self]
      rfl
    · rw [earlier.start]
      exact ⟨rfl, rfl⟩
  goes := by
    rintro pair rest merged seen _ m key value ⟨done, whole, keys⟩ known -
    cases merged with
    | succ merged => exact ⟨done, whole, keys⟩
    | zero =>
      refine ⟨done ++ [pair], ?_, keys.next _ done seen pair key known⟩
      rw [← whole, List.append_assoc]
      rfl

variable (isClosed : g.IsClosed) (fuel : Nat) (build : NodeBuilder)
  (builds : Upholds (reporting g) fuel build)

include builds

include isClosed

theorem keeps_reported (path : List String) (id : NodeId) (m : Memory) (orderly : m.IsOrderly)
    (reports : m.Reports g) (deep : m.HasDepth fuel) :
    Keeps (reporting g) m (mappingEntries build path id) fun _ _ => True := by
  refine keeps_mappingEntries m fuel build builds path orderly reports deep id (fun _ => True) _
    (fun _ => keeps_flatten g isClosed _ id m orderly reports) (fun _ => trivial) ?_
  intro later kept _
  generalize inherited : (later.nodes.getD id default).pairs.length - m.ownCount id = count
  refine ⟨_, round_reports g id _ ?_ ?_, ⟨[], rfl, nofun, nofun⟩, fun _ _ _ _ _ => trivial⟩
  · exact fun pair member => kept.holds.supplied id pair (List.mem_of_mem_drop member)
  · intro free
    have whole := kept.holds.plain id free
    rw [← reports.plain id free] at whole
    -- None of the pairs is a merge key, so none of them was merged.
    have all : m.ownCount id = (m.nodes.getD id default).pairs.length := by
      rw [Memory.ownCount, List.filter_eq_self.mpr]
      intro pair member
      have plain := free pair (by rwa [← reports.plain id free])
      rw [hasTag, Bool.not_eq_true', beq_eq_false_iff_ne]
      exact fun merges => plain ((reports.merges pair.1).mp merges)
    rw [whole, all, Nat.sub_self] at inherited
    rw [← inherited, List.nil_append, List.drop_zero, whole, ← reports.plain id free]

omit builds in
theorem upheld_reports : Upheld (reporting g) where
  settled := fun m later reports grown nodes _ duplicates =>
    reports.settled g m later grown nodes duplicates
  entries := fun fuel build path id m builds orderly reports _ deep =>
    keeps_reported g isClosed fuel build builds path id m orderly reports deep
  remembers := fun _ m later _ _ _ reports grown nodes duplicates _ _ =>
    reports.settled g m later grown nodes duplicates

end Build

namespace Graph

variable (g : Graph)

theorem reports_memory (channel : Channel) : (g.memory channel).Reports g where
  size := rfl
  start := fun _ => rfl
  merges := fun _ => .rfl
  content := fun _ _ => rfl
  kind := fun _ => rfl
  supplied := fun id pair member => .written id pair member
  plain := fun _ _ => rfl
  repetitions := nofun

theorem read_reports (channel : Channel) (isClosed : g.IsClosed) (found : DuplicateKey)
    (told : found ∈ (g.read channel).duplicates) :
    ∃ id pairs first again, Repetition g (g.builtBy channel) id found pairs first again := by
  have keeps :=
    g.keeps_build channel isClosed _ (Build.upheld_reports g isClosed) (g.reports_memory channel)
  have member : found ∈ (Build.on g.build (g.memory channel)).2.duplicates :=
    List.mem_reverse.mp told
  rw [builtBy]
  unfold Build.Keeps at keeps
  cases ending : Build.on g.build (g.memory channel) with
  | mk result later =>
    rw [ending] at keeps member
    cases result with
    | error halt => exact keeps.repetitions found member
    | ok value => exact keeps.1.holds.repetitions found member

end Graph

end LocaleLint.Yaml
