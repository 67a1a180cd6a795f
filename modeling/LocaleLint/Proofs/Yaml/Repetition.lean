import Mathlib.Data.List.TakeWhile
import LocaleLint.Proofs.Yaml.Construction
import LocaleLint.Proofs.Yaml.Meeting

set_option autoImplicit false

namespace LocaleLint.Yaml

namespace Tree

def written (t : Tree) : List (Tree × Tree) := own t.pairs

def mergedBefore (t s : Tree) : Bool :=
  (t.met.takeWhile (·.id != s.id)).any (·.flattens.contains s.id)

def counted (t s : Tree) : List (Tree × Tree) := if t.mergedBefore s then s.entries else s.written

def Writes (t s : Tree) (name : Scalar) : Prop :=
  LeadsOn s.entries name ∨ ∃ key, ComesAgain (t.counted s) key name

theorem IsSound.entries_split (s : Tree) (sound : s.IsSound) (isMapping : s.kind = .mapping) :
    ∃ first, s.entries = first ++ s.written ∧ s.inherited = first.length := by
  cases s with
  | scalar id tag start text => cases isMapping
  | sequence id tag start items => cases isMapping
  | mapping id tag start pairs =>
    obtain ⟨flat, -⟩ := sound.flattened _ rfl
    rw [Tree.flattened] at flat
    cases more : merged start pairs with
    | error stop =>
      rw [more] at flat
      cases flat
    | ok first =>
      rw [more] at flat
      have split : (Tree.mapping id tag start pairs).entries = first ++ own pairs :=
        (Except.ok.inj flat).symm
      refine ⟨first, split, ?_⟩
      rw [inherited, split, List.length_append, Nat.add_sub_cancel]

theorem IsSound.allNamed (s : Tree) (sound : s.IsSound) (isMapping : s.kind = .mapping) :
    AllNamed s.entries := by
  intro entry member
  obtain ⟨isScalar, reads, -⟩ := (sound.flattened s isMapping).2 entry member
  obtain ⟨name, -, named⟩ := scalar?_of_reads entry.1 isScalar reads
  exact ⟨name, named⟩

section Reading

variable (g : Graph) (t : Tree) (unfolds : t.Unfolds g) (sound : t.IsSound)

include unfolds

theorem Unfolds.eq_of_met (r s : Tree) (left : r ∈ t.met) (right : s ∈ t.met) (same : r.id = s.id) :
    r = s :=
  (unfolds.part g r t (mem_met r t left).1).unique g r s
    (unfolds.part g s t (mem_met s t right).1) same

theorem Unfolds.met_split (s : Tree) (member : s ∈ t.met) :
    (∃ later, t.met = t.met.takeWhile (·.id != s.id) ++ s :: later) ∧
      ∀ r ∈ t.met.takeWhile (·.id != s.id), r.id ≠ s.id := by
  have whole : t.met.takeWhile (·.id != s.id) ++ t.met.dropWhile (·.id != s.id) = t.met :=
    List.takeWhile_append_dropWhile
  have away (r : Tree) (inside : r ∈ t.met.takeWhile (·.id != s.id)) : r.id ≠ s.id := by
    have differs := List.mem_takeWhile_imp inside
    simpa using differs
  refine ⟨?_, away⟩
  cases rest : t.met.dropWhile (·.id != s.id) with
  | nil =>
    rw [rest, List.append_nil] at whole
    rw [← whole] at member
    exact absurd rfl (away s member)
  | cons first later =>
    have matching := List.head?_dropWhile_not (·.id != s.id) t.met
    rw [rest] at matching
    have sameId : first.id = s.id := by simpa using matching
    rw [rest] at whole
    have inside : first ∈ t.met := by
      rw [← whole]
      simp
    rw [unfolds.eq_of_met g t first s inside member sameId] at whole
    exact ⟨later, whole.symm⟩

include sound

theorem Unfolds.entered_split (s : Tree) (member : s ∈ t.met) :
    ∃ before after, (t.walk [] Progress.none).entered = before ++ s :: after ∧
      (s.id ∈ before.flatMap flattens ↔ t.mergedBefore s = true) := by
  obtain ⟨⟨later, whole⟩, away⟩ := unfolds.met_split g t s member
  -- What is met before the mapping is what has been entered before it, each once.
  rw [mergedBefore]
  generalize t.met.takeWhile (·.id != s.id) = earlier at whole away
  have met (x : Tree) (listed : x ∈ earlier) : x ∈ t.met := by
    rw [whole]
    exact List.mem_append_left _ listed
  have new : s.id ∉ (earlier.foldl enterOnce []).map Tree.id := by
    rw [mem_ids_enterOnce]
    rintro (nothing | inside)
    · exact List.not_mem_nil nothing
    · obtain ⟨r, member, same⟩ := List.mem_map.mp inside
      exact away r member same
  obtain ⟨after, entered⟩ := prefix_enterOnce (earlier.foldl enterOnce [] ++ [s]) later
  refine ⟨earlier.foldl enterOnce [], after, ?_, ?_⟩
  · have begun : enterOnce (earlier.foldl enterOnce []) s = earlier.foldl enterOnce [] ++ [s] :=
      if_neg new
    rw [entered_walk g t [] unfolds sound, whole, List.foldl_append, List.foldl_cons, begun,
      ← entered,
      List.append_assoc]
    rfl
  · rw [List.any_eq_true, List.mem_flatMap]
    constructor
    · rintro ⟨r, inside, flat⟩
      have listed := (mem_enterOnce [] earlier r inside).resolve_left List.not_mem_nil
      exact ⟨r, listed, List.contains_iff_mem.mpr flat⟩
    · rintro ⟨r, listed, flat⟩
      have known : r.id ∈ (earlier.foldl enterOnce []).map Tree.id :=
        (mem_ids_enterOnce [] earlier r.id).mpr (.inr (List.mem_map_of_mem listed))
      obtain ⟨q, inside, same⟩ := List.mem_map.mp known
      have listedQ := (mem_enterOnce [] earlier q inside).resolve_left List.not_mem_nil
      have equal : q = r := unfolds.eq_of_met g t q r (met q listedQ) (met r listed) same
      exact ⟨q, inside, equal ▸ List.contains_iff_mem.mp flat⟩

theorem Unfolds.mentions_of_met (s : Tree) (member : s ∈ t.met) :
    ∃ path first, s.entries = first ++ t.counted s ∧
      (t.walk [] Progress.none).of s.id = mentioned s.id path (first ++ t.counted s)
        first.length [] := by
  obtain ⟨within, isMapping⟩ := mem_met s t member
  have inner : s.IsSound := sound.of_collection s t within (by rw [isMapping]; nofun)
  obtain ⟨before, after, split, merges⟩ := unfolds.entered_split g t sound s member
  have start : Progress.none.Coherent := ⟨List.nodup_nil, nofun⟩
  have settles := walk_settles t [] Progress.none start
  obtain ⟨path, mentions⟩ := settles.settled before s after split (Nat.zero_le _)
  by_cases early : t.mergedBefore s = true
  next =>
    rw [if_pos (merges.mpr early)] at mentions
    exact ⟨path, [], by rw [counted, if_pos early]; rfl, by
      rw [counted, if_pos early, mentions]
      rfl⟩
  next =>
    obtain ⟨first, entries, inherits⟩ := inner.entries_split s isMapping
    rw [if_neg fun inside => early (merges.mp inside), inherits, entries] at mentions
    refine ⟨path, first, ?_, ?_⟩
    · rw [counted, if_neg early]
      exact entries
    · rw [counted, if_neg early]
      exact mentions

theorem Unfolds.mem_mentions (mention : Mention)
    (member : mention ∈ (t.walk [] Progress.none).mentions) :
    ∃ s ∈ t.met, mention ∈ (t.walk [] Progress.none).of s.id := by
  have start : Progress.none.Coherent := ⟨List.nodup_nil, nofun⟩
  have entered := (walk_settles t [] Progress.none start).coherent.owned mention member
  obtain ⟨s, inside, same⟩ := List.mem_map.mp entered
  rw [entered_walk g t [] unfolds sound] at inside
  refine ⟨s, (mem_enterOnce [] t.met s inside).resolve_left List.not_mem_nil, ?_⟩
  exact List.mem_filter.mpr ⟨member, beq_iff_eq.mpr same.symm⟩

omit unfolds in
theorem IsSound.allNamed_split (s : Tree) (member : s ∈ t.met)
    (first : List (Tree × Tree)) (split : s.entries = first ++ t.counted s) :
    AllNamed first ∧ AllNamed (t.counted s) := by
  obtain ⟨within, isMapping⟩ := mem_met s t member
  have inner : s.IsSound := sound.of_collection s t within (by rw [isMapping]; nofun)
  have named := inner.allNamed s isMapping
  rw [split] at named
  exact ⟨fun pair inside => named pair (List.mem_append_left _ inside),
    fun pair inside => named pair (List.mem_append_right _ inside)⟩

theorem Unfolds.announced_iff (key : Tree) (name : Scalar) :
    (∃ mention ∈ (t.walk [] Progress.none).mentions.filter (·.again),
        mention.key = key ∧ mention.name = name) ↔
      ∃ s ∈ t.met, ComesAgain (t.counted s) key name := by
  constructor
  · rintro ⟨mention, member, sameKey, sameName⟩
    obtain ⟨inside, again⟩ := List.mem_filter.mp member
    obtain ⟨s, met, own⟩ := unfolds.mem_mentions g t sound mention inside
    obtain ⟨path, first, split, mentions⟩ := unfolds.mentions_of_met g t sound s met
    obtain ⟨namedFirst, named⟩ := sound.allNamed_split t s met first split
    rw [mentions] at own
    exact ⟨s, met, (mem_mentioned_again s.id path first _ namedFirst named key name).mp
      ⟨mention, own, again, sameKey, sameName⟩⟩
  · rintro ⟨s, met, again⟩
    obtain ⟨path, first, split, mentions⟩ := unfolds.mentions_of_met g t sound s met
    obtain ⟨namedFirst, named⟩ := sound.allNamed_split t s met first split
    obtain ⟨mention, member, comesAgain, sameKey, sameName⟩ :=
      (mem_mentioned_again s.id path first _ namedFirst named key name).mpr again
    rw [← mentions] at member
    have inside := (List.mem_filter.mp member).1
    exact ⟨mention, List.mem_filter.mpr ⟨inside, comesAgain⟩, sameKey, sameName⟩

theorem Unfolds.isWritable_iff :
    (t.walk [] Progress.none).IsWritable ↔
      ∀ s ∈ t.met, ∀ name, t.Writes s name → name.isWritable = true := by
  constructor
  · intro writable s met name names
    obtain ⟨path, first, split, mentions⟩ := unfolds.mentions_of_met g t sound s met
    obtain ⟨namedFirst, named⟩ := sound.allNamed_split t s met first split
    rw [Writes, split] at names
    obtain ⟨mention, member, same⟩ :=
      (mem_names_mentioned s.id path first _ namedFirst named name).mpr names
    rw [← mentions] at member
    rw [← same]
    exact writable mention (List.mem_filter.mp member).1
  · intro all mention member
    obtain ⟨s, met, own⟩ := unfolds.mem_mentions g t sound mention member
    obtain ⟨path, first, split, mentions⟩ := unfolds.mentions_of_met g t sound s met
    obtain ⟨namedFirst, named⟩ := sound.allNamed_split t s met first split
    rw [mentions] at own
    apply all s met mention.name
    rw [Writes, split]
    exact (mem_names_mentioned s.id path first _ namedFirst named _).mp ⟨mention, own, rfl⟩

end Reading

structure IsExact (t : Tree) : Prop where
  merged : ∀ s ∈ t.met, t.mergedBefore s = true → ∀ key name, ComesAgain s.entries key name →
    ∃ r ∈ t.parts, ComesAgain r.written key name
  unmet : ∀ s ∈ t.parts, s ∉ t.met → ∀ key name, ComesAgain s.written key name →
    ∃ r ∈ t.met, ComesAgain (t.counted r) key name

theorem ComesAgain.append (first pairs : List (Tree × Tree)) (key : Tree) (name : Scalar)
    (again : ComesAgain pairs key name) : ComesAgain (first ++ pairs) key name := by
  obtain ⟨before, value, after, split, named, earlier, member, same⟩ := again
  refine ⟨first ++ before, value, after, ?_, named, earlier, ?_, same⟩
  · rw [split, List.append_assoc]
  · rw [names_append]
    exact List.mem_append_right _ member

theorem comesAgain_counted (t s : Tree) (key : Tree) (name : Scalar) (sound : s.IsSound)
    (isMapping : s.kind = .mapping) (again : ComesAgain s.written key name) :
    ComesAgain (t.counted s) key name := by
  unfold counted
  split
  · obtain ⟨first, split, -⟩ := sound.entries_split s isMapping
    rw [split]
    exact again.append first _ key name
  · exact again

theorem isExact_iff (t : Tree) (sound : t.IsSound) :
    (∀ key name, (∃ s ∈ t.met, ComesAgain (t.counted s) key name) ↔
      ∃ s ∈ t.parts, ComesAgain s.written key name) ↔ t.IsExact := by
  constructor
  · intro exactly
    constructor
    · intro s met early key name again
      refine (exactly key name).mp ⟨s, met, ?_⟩
      rw [counted, if_pos early]
      exact again
    · intro s within _ key name again
      exact (exactly key name).mpr ⟨s, within, again⟩
  · intro exact key name
    constructor
    · rintro ⟨s, met, again⟩
      by_cases early : t.mergedBefore s = true
      next =>
        rw [counted, if_pos early] at again
        exact exact.merged s met early key name again
      next =>
        rw [counted, if_neg early] at again
        exact ⟨s, (mem_met s t met).1, again⟩
    · rintro ⟨s, within, again⟩
      by_cases met : s ∈ t.met
      next =>
        have isMapping := (mem_met s t met).2
        have inner : s.IsSound := sound.of_collection s t within (by rw [isMapping]; nofun)
        exact ⟨s, met, comesAgain_counted t s key name inner isMapping again⟩
      next => exact exact.unmet s within met key name again

end Tree

theorem Graph.read_repetitions (g : Graph) (acyclic : g.Acyclic) (fits : g.Fits)
    (timely : (g.node g.root).tag.isLate = false) (sound : g.IsSound) :
    ∃ t : Tree, t.Unfolds g ∧ t.id = g.root ∧
      ((∀ s ∈ t.met, ∀ name, t.Writes s name → name.isWritable = true) →
        ∃ (announced : List Mention) (value : Value), t.value = .ok value ∧
          g.read Channel.outermost = ⟨announced.map (·.duplicateKey), .ok value⟩ ∧
          (∀ key name, (∃ mention ∈ announced, mention.key = key ∧ mention.name = name) ↔
            ∃ s ∈ t.met, Tree.ComesAgain (t.counted s) key name) ∧
          ((∀ key name, (∃ mention ∈ announced, mention.key = key ∧ mention.name = name) ↔
            ∃ s ∈ t.parts, Tree.ComesAgain s.written key name) ↔ t.IsExact)) ∧
      ((∃ s ∈ t.met, ∃ name, t.Writes s name ∧ name.isWritable = false) →
        (g.read Channel.outermost).outcome = .error (.stop (.breakdown .keyTooLong))) := by
  obtain ⟨t, unfolds, root, small⟩ := Tree.exists_unfolding g acyclic fits
  have whole : t.IsSound := unfolds.isSound g t root sound
  obtain ⟨value, read⟩ := whole.value_ok t
  have early : t.tag.isLate = false := by
    rw [← root, unfolds.here, Tree.tag_node] at timely
    exact timely
  obtain ⟨fine, long⟩ := g.read_tree t unfolds root small early
  rw [unfolds.isWritable_iff g t whole] at fine long
  refine ⟨t, unfolds, root, ?_, ?_⟩
  · intro writable
    have reading := fine writable
    rw [read] at reading
    have announced := unfolds.announced_iff g t whole
    refine ⟨(t.walk [] .none).mentions.filter (·.again), value, read, reading, announced, ?_⟩
    rw [← t.isExact_iff whole]
    simp only [announced]
  · rintro ⟨s, met, name, writes, unwritable⟩
    -- The tree has a value, so nothing else can have ended the reading.
    have not : ¬ ∀ s ∈ t.met, ∀ name, t.Writes s name → name.isWritable = true := by
      intro all
      rw [all s met name writes] at unwritable
      cases unwritable
    obtain ⟨halt, outcome, which⟩ := long not
    rw [outcome, which value read]

-- `a: &a {k: 1}`, `b: {<<: &b {<<: *a, k: 2}}` and `c: *b`: no key is written twice, but what `*b`
-- inherits has become its own when it is met under `c`.
def overridden : Graph where
  root := 0
  nodes := #[
    ⟨.mapping [(1, 2), (5, 6), (12, 8)], .map, ⟨0, 0, 0⟩⟩,
    ⟨.scalar [.char 'a'], .str, ⟨0, 0, 0⟩⟩,
    ⟨.mapping [(3, 4)], .map, ⟨3, 0, 3⟩⟩,
    ⟨.scalar [.char 'k'], .str, ⟨7, 0, 7⟩⟩,
    ⟨.scalar [.char '1'], .int, ⟨10, 0, 10⟩⟩,
    ⟨.scalar [.char 'b'], .str, ⟨13, 1, 0⟩⟩,
    ⟨.mapping [(7, 8)], .map, ⟨18, 2, 2⟩⟩,
    ⟨.scalar [.char '<', .char '<'], .merge, ⟨18, 2, 2⟩⟩,
    ⟨.mapping [(9, 2), (10, 11)], .map, ⟨22, 2, 6⟩⟩,
    ⟨.scalar [.char '<', .char '<'], .merge, ⟨26, 2, 10⟩⟩,
    ⟨.scalar [.char 'k'], .str, ⟨34, 2, 18⟩⟩,
    ⟨.scalar [.char '2'], .int, ⟨37, 2, 21⟩⟩,
    ⟨.scalar [.char 'c'], .str, ⟨40, 3, 0⟩⟩]

theorem overridden_sound : overridden.Acyclic ∧ overridden.Fits ∧ overridden.IsSound := by
  have inside := overridden.lt_size_of_reachable (by decide) (by decide)
  have fits : ∀ id < overridden.nodes.size, overridden.FitsAt id := by decide
  have held : ∀ id < overridden.nodes.size, overridden.IsSoundAt id := by decide +kernel
  refine ⟨?_, fun id reachable => fits id (inside id reachable), by decide +kernel, ?_⟩
  · exact overridden.acyclic_of_rank (fun id => [4, 0, 1, 0, 0, 0, 3, 0, 2].getD id 0) (by decide)
  · exact fun id reachable => held id (inside id reachable)

theorem overridden_counts_inherited :
    ∃ t : Tree, t.Unfolds overridden ∧ t.id = overridden.root ∧
      ∃ s ∈ t.met, ∃ key, Tree.ComesAgain (t.counted s) key (.string "k") := by
  obtain ⟨acyclic, fits, sound⟩ := overridden_sound
  obtain ⟨t, unfolds, root, fine, long⟩ := overridden.read_repetitions acyclic fits rfl sound
  have duplicates : (overridden.read Channel.outermost).duplicates =
      [⟨.string "k", "c.k", some 3, some 19⟩] := by decide +kernel
  have finished : (overridden.read Channel.outermost).outcome.isOk = true := by decide +kernel
  have writable : ∀ s ∈ t.met, ∀ name, t.Writes s name → name.isWritable = true := by
    intro s met name writes
    by_contra unwritable
    have failed := long ⟨s, met, name, writes, by simpa using unwritable⟩
    rw [failed] at finished
    cases finished
  obtain ⟨announced, value, -, reading, exactly, -⟩ := fine writable
  rw [reading] at duplicates
  obtain ⟨mention, rest, split, same, -⟩ := List.map_eq_cons_iff.mp duplicates
  refine ⟨t, unfolds, root, ?_⟩
  have member : mention ∈ announced := by
    rw [split]
    exact List.mem_cons_self ..
  have named : mention.name = .string "k" := congrArg DuplicateKey.key same
  obtain ⟨s, met, again⟩ := (exactly mention.key (.string "k")).mp ⟨mention, member, rfl, named⟩
  exact ⟨s, met, mention.key, again⟩

end LocaleLint.Yaml
