import LocaleLint.Proofs.Yaml.Repetition

set_option autoImplicit false

namespace LocaleLint.Yaml

structure Tour where
  visited : List NodeId
  -- Each with the mapping that it comes again in.
  found : List (NodeId × DuplicateKey)

namespace Tour

def start : Tour := ⟨[], []⟩

def visit (tour : Tour) (id : NodeId) : Tour := { tour with visited := id :: tour.visited }

def findIf (tour : Tour) (again : Bool) (owner : NodeId) (duplicate : DuplicateKey) : Tour :=
  if again then { tour with found := tour.found ++ [(owner, duplicate)] } else tour

end Tour

namespace Tree

def duplicateAt (path : List String) (key : Tree) (name : Scalar) : DuplicateKey :=
  ⟨name, ".".intercalate (path ++ [name.text]), some (key.start.line + 1),
    some (key.start.column + 1)⟩

mutual

def tour (path : List String) : Tree → Tour → Tour
  | .scalar _ _ _ _, sofar => sofar
  | .sequence _ _ _ items, sofar => tourItems path 0 items sofar
  | .mapping id _ _ pairs, sofar =>
      if id ∈ sofar.visited then sofar else tourPairs id path [] pairs (sofar.visit id)

def tourItems (path : List String) (index : Nat) : List Tree → Tour → Tour
  | [], sofar => sofar
  | item :: rest, sofar =>
      tourItems path (index + 1) rest (item.tour (path ++ [toString index]) sofar)

def tourPairs (owner : NodeId) (path : List String) (earlier : List Meaning) :
    List (Tree × Tree) → Tour → Tour
  | [], sofar => sofar
  | (key, value) :: rest, sofar =>
      match key.scalar? with
      | none => sofar
      | some name =>
          let again := decide (name.meaning ∈ earlier)
          tourPairs owner path (name.meaning :: earlier) rest
            (value.tour (path ++ [name.text])
              (sofar.findIf again owner (duplicateAt path key name)))

end

def IsPlain (t : Tree) : Prop := ∀ s ∈ t.parts, s.isMerge = false ∧ s.tag.isLate = false

theorem IsPlain.part (s t : Tree) (plain : t.IsPlain) (within : s ∈ t.parts) : s.IsPlain :=
  fun r inner => plain r (parts_trans r s t inner within)

theorem IsPlain.child (child t : Tree) (plain : t.IsPlain) (below : child ∈ t.children) :
    child.IsPlain :=
  plain.part child t (mem_parts_of_child child t below)

theorem IsPlain.listsPairs (t : Tree) (plain : t.IsPlain) : t.tag.listsPairs = false := by
  have early := (plain t t.mem_parts_self).2
  cases tag : t.tag with
  | orderedMap =>
    rw [tag] at early
    cases early
  | pairs =>
    rw [tag] at early
    cases early
  | _ => rfl

theorem IsPlain.tag_eq_map (t : Tree) (plain : t.IsPlain) (fits : t.Fits)
    (isMapping : t.kind = .mapping) :
    t.tag = .map := by
  cases t with
  | scalar id tag start text => cases isMapping
  | sequence id tag start items => cases isMapping
  | mapping id tag start pairs =>
    rcases (fits : _ ∨ _) with same | same
    · exact same
    · have early := (plain _ (mem_parts_self _)).2
      rw [show (Tree.mapping id tag start pairs).tag = Tag.set from same] at early
      cases early

theorem IsPlain.held_eq (id : NodeId) (tag : Tag) (start : Position) (items : List Tree)
    (plain : (Tree.sequence id tag start items).IsPlain) :
    (Tree.sequence id tag start items).held = items ∧
      ∀ path, (Tree.sequence id tag start items).heldUnder path =
        items.zipIdx.map fun item => (toString item.2 :: path, item.1) := by
  have early : ¬ tag.listsPairs = true := by
    rw [show tag.listsPairs = false from plain.listsPairs]
    exact Bool.false_ne_true
  constructor
  · rw [held, if_neg early]
  · intro path
    rw [heldUnder, if_neg early]

theorem IsPlain.entries_eq (t : Tree) (plain : t.IsPlain) :
    t.entries = t.pairs ∧ t.written = t.pairs ∧ t.inherited = 0 := by
  cases t with
  | scalar id tag start text => exact ⟨rfl, rfl, rfl⟩
  | sequence id tag start items => exact ⟨rfl, rfl, rfl⟩
  | mapping id tag start pairs =>
    obtain ⟨nothing, owns, -⟩ := merged_of_plain start pairs fun pair member =>
      (plain pair.1
        (mem_parts_of_child _ _ (mem_children_mapping id tag start pairs pair member).1)).1
    have flat : (Tree.mapping id tag start pairs).flattened = .ok pairs := by
      rw [Tree.flattened, nothing, owns]
      rfl
    have all : (Tree.mapping id tag start pairs).entries = pairs := by
      rw [Tree.entries, flat]
      rfl
    refine ⟨all, owns, ?_⟩
    rw [inherited, all, owns, Nat.sub_self]

theorem IsPlain.counted_eq (t s : Tree) (plain : s.IsPlain) : t.counted s = s.pairs := by
  obtain ⟨entries, written, -⟩ := plain.entries_eq s
  rw [counted, entries, written, ite_self]

theorem IsPlain.met (s t : Tree) (plain : t.IsPlain) (sound : t.IsSound)
    (within : s ∈ t.parts) (isMapping : s.kind = .mapping) : s ∈ t.met := by
  induction t using Tree.induction with
  | step t ih =>
    rcases (mem_parts_iff s t).mp within with rfl | ⟨child, below, inner⟩
    · rw [met_mapping s isMapping]
      exact List.mem_cons_self ..
    · cases t with
      | scalar id tag start text => cases below
      | sequence id tag start items =>
        have inside : child ∈ (Tree.sequence id tag start items).held := by
          rw [(plain.held_eq id tag start items).1]
          exact below
        rw [met_sequence _ rfl, mem_metItems]
        exact ⟨child, inside, ih child below (plain.child child _ below)
          (sound.of_held child _ inside) inner⟩
      | mapping id tag start pairs =>
        obtain ⟨entries, -, -⟩ := plain.entries_eq
        obtain ⟨pair, member, which⟩ := List.mem_flatMap.mp below
        have inside : pair ∈ (Tree.mapping id tag start pairs).entries := by
          rw [entries]
          exact member
        obtain ⟨isScalar, reads, fine⟩ := (sound.flattened _ rfl).2 pair inside
        rw [met_mapping _ rfl]
        refine List.mem_cons_of_mem _ ((mem_metEntries _ s).mpr ⟨pair, inside, ?_⟩)
        rcases List.mem_cons.mp which with rfl | which
        · -- Keys are scalars, and there is no mapping in a scalar.
          cases key : pair.1 with
          | scalar id tag start text =>
            rw [key] at inner
            rw [List.mem_singleton.mp inner] at isMapping
            cases isMapping
          | sequence id tag start items =>
            rw [key] at isScalar
            cases isScalar
          | mapping id tag start pairs =>
            rw [key] at isScalar
            cases isScalar
        · rw [List.mem_singleton] at which
          rw [which] at below inner
          exact .inr (ih pair.2 below (plain.child pair.2 _ below) fine inner)

end Tree

structure Tour.Matches (tour : Tour) (p : Progress) : Prop where
  visited : ∀ id, id ∈ tour.visited ↔ id ∈ p.ids
  found : tour.found = (p.mentions.filter (·.again)).map fun mention =>
    (mention.owner, mention.duplicateKey)

namespace Tour.Matches

theorem enter (tour : Tour) (p : Progress) (t : Tree) (sofar : tour.Matches p) :
    (tour.visit t.id).Matches (p.enter t) where
  visited := fun id => by
    rw [Progress.ids_enter, Tour.visit, List.mem_cons, List.mem_append, List.mem_singleton,
      sofar.visited id]
    exact or_comm
  found := sofar.found

theorem mentionIf (tour : Tour) (p : Progress) (again leads : Bool) (owner : NodeId) (key : Tree)
    (name : Scalar) (path : List String) (sofar : tour.Matches p) :
    (tour.findIf again owner (Tree.duplicateAt path key name)).Matches
      (p.mentionIf (again || leads) ⟨owner, key, name, path.reverse, again⟩) := by
  cases again with
  | true =>
    refine ⟨sofar.visited, ?_⟩
    simp [Tour.findIf, Progress.mentionIf, sofar.found, Mention.duplicateKey, Tree.duplicateAt]
  | false =>
    cases leads with
    | false => exact sofar
    | true =>
      refine ⟨sofar.visited, ?_⟩
      simp [Tour.findIf, Progress.mentionIf, sofar.found]

end Tour.Matches

namespace Tree

theorem tourItems_matches (path : List String) (items : List Tree)
    (each : ∀ item ∈ items, ∀ path far p, Tour.Matches far p →
      (item.tour path far).Matches (item.walk path.reverse p)) (index : Nat) (far : Tour)
    (p : Progress) (sofar : far.Matches p) :
    (tourItems path index items far).Matches (walkEach
      ((items.zipIdx index).map fun item => (toString item.2 :: path.reverse, item.1)) p) := by
  induction items generalizing index far p with
  | nil =>
    rw [tourItems, List.zipIdx_nil, List.map_nil, walkEach_nil]
    exact sofar
  | cons item rest ih =>
    rw [tourItems, List.zipIdx_cons, List.map_cons, walkEach_cons]
    have here := each item (List.mem_cons_self ..) (path ++ [toString index]) far p sofar
    rw [List.reverse_append] at here
    exact ih (fun item member => each item (List.mem_cons_of_mem _ member)) (index + 1) _ _ here

theorem tourPairs_matches (owner : NodeId) (path : List String) (pairs : List (Tree × Tree))
    (each : ∀ pair ∈ pairs, IsSoundEntry pair ∧ ∀ path far p, Tour.Matches far p →
      (pair.2.tour path far).Matches (pair.2.walk path.reverse p)) (seen : List Scalar)
    (far : Tour) (p : Progress) (sofar : far.Matches p) :
    (tourPairs owner path (seen.map Scalar.meaning) pairs far).Matches
      (walkEntries owner path.reverse pairs 0 seen p) := by
  induction pairs generalizing seen far p with
  | nil =>
    rw [tourPairs, walkEntries]
    exact sofar
  | cons pair rest ih =>
    obtain ⟨key, value⟩ := pair
    obtain ⟨⟨isScalar, reads, -⟩, inner⟩ := each (key, value) (List.mem_cons_self ..)
    obtain ⟨name, -, named⟩ := scalar?_of_reads key isScalar reads
    have again : comesAgain 0 seen name = decide (name.meaning ∈ seen.map Scalar.meaning) := by
      rw [comesAgain, beq_self_eq_true, Bool.true_and, Bool.eq_iff_iff, Scalar.any_same_iff,
        decide_eq_true_eq]
    rw [walkEntries_named owner path.reverse key value rest 0 seen p name named,
      walk_scalar path.reverse key p isScalar, tourPairs, named, again]
    have told := sofar.mentionIf far p (decide (name.meaning ∈ seen.map Scalar.meaning))
      value.isCollection owner key name path
    have later (q : Tour) (r : Progress) (matching : q.Matches r) :=
      ih (fun pair member => each pair (List.mem_cons_of_mem _ member)) (name :: seen) q r matching
    apply later _ _
    by_cases leads : value.isCollection = true
    next =>
      have here := inner (path ++ [name.text]) _ _ told
      rw [List.reverse_append] at here
      rw [if_pos leads]
      exact here
    next =>
      -- What is no collection is a scalar, and there is nothing to find in it.
      cases value with
      | scalar id tag start text =>
        rw [walk_scalar _ _ _ rfl, Tree.tour]
        exact told
      | sequence id tag start items => exact absurd rfl leads
      | mapping id tag start pairs => exact absurd rfl leads

theorem tour_matches (t : Tree) (path : List String) (far : Tour) (p : Progress)
    (plain : t.IsPlain) (sound : t.IsSound) (sofar : far.Matches p) :
    (t.tour path far).Matches (t.walk path.reverse p) := by
  induction t using Tree.induction generalizing path far p with
  | step t ih =>
    cases t with
    | scalar id tag start text =>
      rw [Tree.tour, walk]
      exact sofar
    | sequence id tag start items =>
      obtain ⟨held, under⟩ := plain.held_eq id tag start items
      rw [Tree.tour, walk_sequence _ (.sequence id tag start items) p rfl, under]
      refine tourItems_matches path items ?_ 0 far p sofar
      intro item member path far p sofar
      exact ih item member path far p (plain.child item _ member)
        (sound.of_held item _ (by rw [held]; exact member)) sofar
    | mapping id tag start pairs =>
      rw [Tree.tour]
      by_cases known : id ∈ p.ids
      · rw [walk_entered _ (.mapping id tag start pairs) p rfl known,
          if_pos ((sofar.visited id).mpr known)]
        exact sofar
      · have new : id ∉ far.visited := fun member => known ((sofar.visited id).mp member)
        obtain ⟨entries, -, inherits⟩ := plain.entries_eq
        rw [walk_mapping _ (.mapping id tag start pairs) p rfl known, if_neg new, inherits,
          ite_self, entries]
        refine tourPairs_matches id path pairs ?_ [] _ _
          (sofar.enter far p (.mapping id tag start pairs))
        intro pair member
        have below := (mem_children_mapping id tag start pairs pair member).2
        have fine := (sound.flattened _ rfl).2 pair (by rw [entries]; exact member)
        exact ⟨fine, fun path far p sofar =>
          ih pair.2 below path far p (plain.child pair.2 _ below) fine.2.2 sofar⟩

def WritesOwn (s : Tree) (name : Scalar) : Prop :=
  LeadsOn s.pairs name ∨ ∃ key, ComesAgain s.pairs key name

theorem names_length (pairs : List (Tree × Tree)) (named : AllNamed pairs) :
    (names pairs).length = pairs.length := by
  induction pairs with
  | nil => rfl
  | cons pair rest ih =>
    obtain ⟨name, here⟩ := named pair (List.mem_cons_self ..)
    rw [names_cons pair.1 pair.2 rest name here, List.length_cons, List.length_cons,
      ih fun pair member => named pair (List.mem_cons_of_mem _ member)]

section Reading

variable (g : Graph) (t : Tree) (unfolds : t.Unfolds g) (sound : t.IsSound)
  (plain : t.IsPlain)

include unfolds sound plain

theorem Unfolds.isWritable_iff_own :
    (t.walk [] Progress.none).IsWritable ↔
      ∀ s ∈ t.parts, ∀ name, s.WritesOwn name → name.isWritable = true := by
  have same (s : Tree) (within : s ∈ t.parts) (name : Scalar) :
      t.Writes s name ↔ s.WritesOwn name := by
    have free := plain.part s t within
    rw [Writes, free.counted_eq t s, (free.entries_eq s).1, WritesOwn]
  rw [unfolds.isWritable_iff g t sound]
  constructor
  · intro all s within name writes
    have isMapping : s.kind = .mapping := by
      cases s with
      | mapping id tag start pairs => rfl
      | scalar id tag start text =>
        rcases writes with ⟨pair, member, -⟩ | ⟨key, before, value, after, split, -⟩
        · cases member
        · simp [pairs] at split
      | sequence id tag start items =>
        rcases writes with ⟨pair, member, -⟩ | ⟨key, before, value, after, split, -⟩
        · cases member
        · simp [pairs] at split
    exact all s (plain.met s t sound within isMapping) name ((same s within name).mpr writes)
  · intro all s met name writes
    have within := (mem_met s t met).1
    exact all s within name ((same s within name).mp writes)

theorem Unfolds.found_length (s : Tree) (within : s ∈ t.parts) (isMapping : s.kind = .mapping) :
    ((t.tour [] Tour.start).found.filter (·.1 == s.id)).length =
      s.pairs.length - Scalar.variety (names s.pairs) := by
  have free := plain.part s t within
  have inner : s.IsSound := sound.of_collection s t within (by rw [isMapping]; nofun)
  have begun : Tour.start.Matches Progress.none := ⟨fun _ => Iff.rfl, rfl⟩
  have found := (t.tour_matches [] Tour.start Progress.none plain sound begun).found
  obtain ⟨path, first, split, mentions⟩ :=
    unfolds.mentions_of_met g t sound s (plain.met s t sound within isMapping)
  obtain ⟨entries, -, -⟩ := free.entries_eq s
  rw [free.counted_eq t s] at split mentions
  have nothing : first = [] := by
    rw [entries] at split
    exact List.append_left_eq_self.mp split.symm
  have named : AllNamed s.pairs := by
    rw [← entries]
    exact inner.allNamed s isMapping
  rw [nothing] at mentions
  have count := countP_mentioned s.id path s.pairs [] named
  have own : ((t.walk [] Progress.none).of s.id).countP (·.again) =
      Scalar.repeats [] (names s.pairs) := by
    rw [mentions]
    exact count
  rw [Scalar.repeats_eq, names_length _ named] at own
  rw [← own, found, List.filter_map, List.length_map, List.filter_filter, Progress.of,
    List.countP_filter, List.countP_eq_length_filter]
  congr 2
  funext mention
  exact Bool.and_comm ..

end Reading

end Tree

def Node.isDefault (node : Node) : Bool :=
  match node.content with
  | .scalar _ => node.tag.isOfScalar
  | .sequence _ => node.tag == .seq
  | .mapping _ => node.tag == .map

/-- Default collections, and scalars by their tags; no plain `=`. -/
def Graph.IsDefault (g : Graph) : Prop := ∀ id, g.Reachable id → (g.node id).isDefault

theorem Graph.IsDefault.fits (g : Graph) (isDefault : g.IsDefault) : g.Fits := by
  intro id reachable
  have default := isDefault id reachable
  rw [Node.isDefault] at default
  rw [FitsAt]
  cases content : (g.node id).content with
  | scalar text =>
    rw [content] at default
    exact default
  | sequence items =>
    rw [content] at default
    exact .inl (beq_iff_eq.mp default)
  | mapping pairs =>
    rw [content] at default
    exact .inl (beq_iff_eq.mp default)

def Graph.IsMergeFree (g : Graph) : Prop := ∀ id, g.Reachable id → (g.node id).tag ≠ .merge

theorem Tree.Unfolds.isPlain (g : Graph) (t : Tree) (unfolds : t.Unfolds g) (root : t.id = g.root)
    (isDefault : g.IsDefault) (mergeFree : g.IsMergeFree) : t.IsPlain := by
  intro s within
  have reachable : g.Reachable s.id := by
    rw [Graph.Reachable, ← root]
    exact (unfolds.stands g t).reaches g s t within
  have here := (unfolds.part g s t within).here g s
  refine ⟨?_, ?_⟩
  · rw [← ((unfolds.part g s t within).stands g s).isMerge g s, beq_eq_false_iff_ne]
    exact mergeFree s.id reachable
  · have default := isDefault s.id reachable
    rw [here, Node.isDefault] at default
    cases s with
    | scalar id tag start text => cases tag <;> first | rfl | cases default
    | sequence id tag start items =>
      have plain : tag = .seq := beq_iff_eq.mp default
      rw [plain]
      rfl
    | mapping id tag start pairs =>
      have plain : tag = .map := beq_iff_eq.mp default
      rw [plain]
      rfl

theorem Graph.read_tour (g : Graph) (acyclic : g.Acyclic) (isDefault : g.IsDefault)
    (sound : g.IsSound) (mergeFree : g.IsMergeFree) :
    ∃ t : Tree, t.Unfolds g ∧ t.id = g.root ∧
      ((∀ s ∈ t.parts, ∀ name, s.WritesOwn name → name.isWritable = true) →
        ∃ value, t.value = .ok value ∧
          g.read Channel.outermost = ⟨(t.tour [] Tour.start).found.map (·.2), .ok value⟩) ∧
      ((∃ s ∈ t.parts, ∃ name, s.WritesOwn name ∧ name.isWritable = false) →
        (g.read Channel.outermost).outcome = .error (.stop (.breakdown .keyTooLong))) ∧
      ∀ s ∈ t.parts, s.kind = .mapping →
        (∃ entries, s.value = .ok (.map entries) ∧
          entries.length = Scalar.variety (Tree.names s.pairs)) ∧
        ((t.tour [] Tour.start).found.filter (·.1 == s.id)).length =
          s.pairs.length - Scalar.variety (Tree.names s.pairs) := by
  obtain ⟨t, unfolds, root, small⟩ := Tree.exists_unfolding g acyclic isDefault.fits
  have whole : t.IsSound := unfolds.isSound g t root sound
  have plain : t.IsPlain := unfolds.isPlain g t root isDefault mergeFree
  obtain ⟨value, read⟩ := whole.value_ok t
  obtain ⟨fine, long⟩ := g.read_tree t unfolds root small (plain t t.mem_parts_self).2
  rw [unfolds.isWritable_iff_own g t whole plain] at fine long
  refine ⟨t, unfolds, root, ?_, ?_, ?_⟩
  · intro writable
    have reading := fine writable
    rw [read] at reading
    have begun : Tour.start.Matches Progress.none := ⟨fun _ => Iff.rfl, rfl⟩
    have found := (t.tour_matches [] Tour.start Progress.none plain whole begun).found
    refine ⟨value, read, ?_⟩
    rw [reading, found, List.map_map]
    rfl
  · rintro ⟨s, within, name, writes, unwritable⟩
    have not : ¬ ∀ s ∈ t.parts, ∀ name, s.WritesOwn name → name.isWritable = true := by
      intro all
      rw [all s within name writes] at unwritable
      cases unwritable
    obtain ⟨halt, outcome, which⟩ := long not
    rw [outcome, which value read]
  · intro s within isMapping
    have inner : s.IsSound := whole.of_collection s t within (by rw [isMapping]; nofun)
    obtain ⟨entries, value, length⟩ := inner.mapping_value s isMapping
    rw [(plain.part s t within).tag_eq_map s inner.fits isMapping] at value
    rw [((plain.part s t within).entries_eq s).1] at length
    exact ⟨⟨entries, value, length⟩, unfolds.found_length g t whole plain s within isMapping⟩

-- `a: &a {1: x, true: y}` and `b: [*a]`: a truth value repeats a number, once for both uses.
def shared : Graph where
  root := 0
  nodes := #[
    ⟨.mapping [(1, 2), (7, 8)], .map, ⟨0, 0, 0⟩⟩,
    ⟨.scalar [.char 'a'], .str, ⟨0, 0, 0⟩⟩,
    ⟨.mapping [(3, 4), (5, 6)], .map, ⟨3, 0, 3⟩⟩,
    ⟨.scalar [.char '1'], .int, ⟨7, 0, 7⟩⟩,
    ⟨.scalar [.char 'x'], .str, ⟨10, 0, 10⟩⟩,
    ⟨.scalar [.char 't', .char 'r', .char 'u', .char 'e'], .bool, ⟨13, 0, 13⟩⟩,
    ⟨.scalar [.char 'y'], .str, ⟨19, 0, 19⟩⟩,
    ⟨.scalar [.char 'b'], .str, ⟨22, 1, 0⟩⟩,
    ⟨.sequence [2], .seq, ⟨25, 1, 3⟩⟩]

theorem shared_found_once :
    ∃ t : Tree, t.Unfolds shared ∧ t.id = shared.root ∧
      (t.tour [] Tour.start).found.map (·.2) = [⟨.bool true, "a.True", some 1, some 14⟩] := by
  have inside := shared.lt_size_of_reachable (by decide) (by decide)
  have default : ∀ id < shared.nodes.size, (shared.node id).isDefault := by decide
  have held : ∀ id < shared.nodes.size, shared.IsSoundAt id := by decide +kernel
  have plain : ∀ id < shared.nodes.size, (shared.node id).tag ≠ .merge := by decide
  have acyclic :=
    shared.acyclic_of_rank (fun id => [3, 0, 1, 0, 0, 0, 0, 0, 2].getD id 0) (by decide)
  have sound : shared.IsSound :=
    ⟨by decide +kernel, fun id reachable => held id (inside id reachable)⟩
  obtain ⟨t, unfolds, root, fine, long, -⟩ := shared.read_tour acyclic
    (fun id reachable => default id (inside id reachable)) sound
    (fun id reachable => plain id (inside id reachable))
  have duplicates : (shared.read Channel.outermost).duplicates =
      [⟨.bool true, "a.True", some 1, some 14⟩] := by decide +kernel
  have finished : (shared.read Channel.outermost).outcome.isOk = true := by decide +kernel
  refine ⟨t, unfolds, root, ?_⟩
  have writable : ∀ s ∈ t.parts, ∀ name, s.WritesOwn name → name.isWritable = true := by
    intro s within name writes
    by_contra unwritable
    have failed := long ⟨s, within, name, writes, by simpa using unwritable⟩
    rw [failed] at finished
    cases finished
  obtain ⟨value, -, reading⟩ := fine writable
  rw [reading] at duplicates
  exact duplicates

end LocaleLint.Yaml
