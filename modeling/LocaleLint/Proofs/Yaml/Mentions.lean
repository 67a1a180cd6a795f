import LocaleLint.Proofs.Yaml.Sound

set_option autoImplicit false

namespace LocaleLint.Yaml

def mentioned (owner : NodeId) (path : List String) :
    List (Tree × Tree) → (merged : Nat) → (seen : List Scalar) → List Mention
  | [], _, _ => []
  | (key, value) :: rest, merged, seen =>
      match key.scalar? with
      | none => []
      | some name =>
          let again := comesAgain merged seen name
          (if again || value.isCollection then [⟨owner, key, name, path, again⟩] else []) ++
            mentioned owner path rest (merged - 1) (if merged == 0 then name :: seen else seen)

namespace Progress

def of (p : Progress) (owner : NodeId) : List Mention := p.mentions.filter (·.owner == owner)

structure Coherent (p : Progress) : Prop where
  once : p.ids.Nodup
  owned : ∀ mention ∈ p.mentions, mention.owner ∈ p.ids

theorem Coherent.of_eq_nil (p : Progress) (owner : NodeId) (coherent : p.Coherent)
    (new : owner ∉ p.ids) : p.of owner = [] := by
  rw [of, List.filter_eq_nil_iff]
  intro mention member same
  have known := coherent.owned mention member
  rw [beq_iff_eq] at same
  exact new (same ▸ known)

theorem of_mentionIf (p : Progress) (written : Bool) (mention : Mention) (owner : NodeId) :
    (p.mentionIf written mention).of owner =
      p.of owner ++ if written && mention.owner == owner then [mention] else [] := by
  cases written with
  | false => simp [mentionIf]
  | true =>
    by_cases same : mention.owner = owner
    · simp [mentionIf, of, same]
    · simp [mentionIf, of, same]

theorem Coherent.mentionIf (p : Progress) (written : Bool) (mention : Mention)
    (coherent : p.Coherent) (entered : mention.owner ∈ p.ids) :
    (p.mentionIf written mention).Coherent := by
  cases written with
  | false => exact coherent
  | true =>
    refine ⟨coherent.once, fun other member => ?_⟩
    rcases List.mem_append.mp member with member | member
    · exact coherent.owned other member
    · rw [List.mem_singleton.mp member]
      exact entered

theorem ids_enter (p : Progress) (t : Tree) : (p.enter t).ids = p.ids ++ [t.id] := by
  simp [ids, enter]

theorem Coherent.enter (p : Progress) (t : Tree) (coherent : p.Coherent) (new : t.id ∉ p.ids) :
    (p.enter t).Coherent where
  once := by
    rw [ids_enter, List.nodup_append]
    refine ⟨coherent.once, List.nodup_singleton _, ?_⟩
    rintro id known other only rfl
    exact new (List.mem_singleton.mp only ▸ known)
  owned := fun mention member => by
    rw [ids_enter]
    exact List.mem_append_left _ (coherent.owned mention member)

end Progress

theorem prefix_of_split {α : Type} (xs before after : List α) (x : α)
    (isPrefix : xs <+: before ++ x :: after) (inside : before.length < xs.length) :
    ∃ more, xs = before ++ x :: more := by
  obtain ⟨rest, whole⟩ := isPrefix
  rcases List.append_eq_append_iff.mp whole with ⟨more, short, -⟩ | ⟨more, long, tail⟩
  · rw [short, List.length_append] at inside
    omega
  · cases more with
    | nil =>
      rw [long, List.append_nil] at inside
      omega
    | cons first more =>
      rw [List.cons_append, List.cons.injEq] at tail
      exact ⟨more, by rw [long, tail.1]⟩

def Tree.Mentions (t : Tree) (before : List Tree) (mentions : List Mention) : Prop :=
  ∃ path, mentions = mentioned t.id path t.entries
    (if t.id ∈ before.flatMap Tree.flattens then 0 else t.inherited) []

structure Settles (busy : List NodeId) (p later : Progress) : Prop where
  coherent : later.Coherent
  entered : p.entered <+: later.entered
  kept : ∀ owner ∈ p.ids, owner ∉ busy → later.of owner = p.of owner
  settled : ∀ before t after, later.entered = before ++ t :: after →
    p.entered.length ≤ before.length → t.Mentions before (later.of t.id)

namespace Settles

theorem ids_subset (busy : List NodeId) (p later : Progress) (settles : Settles busy p later) :
    p.ids ⊆ later.ids :=
  List.map_subset _ settles.entered.subset

theorem of_same_entered (busy : List NodeId) (p later : Progress) (coherent : later.Coherent)
    (same : later.entered = p.entered)
    (kept : ∀ owner ∈ p.ids, owner ∉ busy → later.of owner = p.of owner) :
    Settles busy p later where
  coherent := coherent
  entered := by rw [same]
  kept := kept
  settled := fun before t after split long => by
    rw [← same, split, List.length_append, List.length_cons] at long
    omega

theorem refl (busy : List NodeId) (p : Progress) (coherent : p.Coherent) : Settles busy p p :=
  of_same_entered busy p p coherent rfl fun _ _ _ => rfl

theorem weaken (busy : List NodeId) (p later : Progress) (settles : Settles [] p later) :
    Settles busy p later :=
  { settles with kept := fun owner known _ => settles.kept owner known List.not_mem_nil }

theorem mentionIf (p : Progress) (written : Bool) (mention : Mention) (coherent : p.Coherent)
    (entered : mention.owner ∈ p.ids) :
    Settles [mention.owner] p (p.mentionIf written mention) := by
  refine .of_same_entered _ p _ (coherent.mentionIf p written mention entered)
    (p.entered_mentionIf written mention) fun other _ idle => ?_
  have differs : (mention.owner == other) = false :=
    beq_eq_false_iff_ne.mpr fun same => idle (List.mem_singleton.mpr same.symm)
  simp [Progress.of_mentionIf, differs]

theorem trans (busy : List NodeId) (p middle later : Progress) (first : Settles busy p middle)
    (next : Settles busy middle later) (known : busy ⊆ p.ids) : Settles busy p later where
  coherent := next.coherent
  entered := first.entered.trans next.entered
  kept := fun owner member idle => by
    rw [next.kept owner (first.ids_subset busy p middle member) idle, first.kept owner member idle]
  settled := fun before t after split long => by
    by_cases new : middle.entered.length ≤ before.length
    · exact next.settled before t after split new
    · have isPrefix := next.entered
      rw [split] at isPrefix
      obtain ⟨more, whole⟩ := prefix_of_split _ before after t isPrefix (by omega)
      have member : t.id ∈ middle.ids := by
        rw [Progress.ids, whole]
        simp
      -- A mapping that was busy before the reading cannot have been entered in it once more.
      have idle : t.id ∉ busy := by
        intro worked
        have old := known worked
        obtain ⟨added, grown⟩ := first.entered
        obtain ⟨between, rest⟩ : ∃ between, before = p.entered ++ between := by
          rw [← grown] at whole
          rcases List.append_eq_append_iff.mp whole with ⟨between, split, -⟩ | ⟨between, split, -⟩
          · exact ⟨between, split⟩
          · rw [split, List.length_append] at long
            cases between with
            | nil => exact ⟨[], by rw [List.append_nil] at split; rw [split, List.append_nil]⟩
            | cons _ _ =>
              rw [List.length_cons] at long
              omega
        have once := first.coherent.once
        rw [Progress.ids, whole, rest, List.map_append, List.map_append, List.map_cons,
          List.nodup_append] at once
        exact once.2.2 t.id (List.mem_append_left _ old) t.id (List.mem_cons_self ..) rfl
      rw [next.kept t.id member idle]
      exact first.settled before t more whole long

end Settles

namespace Tree

theorem walkEach_settles (inner : List (List String × Tree))
    (each : ∀ one ∈ inner, ∀ path p, p.Coherent → Settles [] p (one.2.walk path p)) (p : Progress)
    (coherent : p.Coherent) : Settles [] p (walkEach inner p) := by
  induction inner generalizing p with
  | nil =>
    rw [walkEach_nil]
    exact .refl [] p coherent
  | cons one rest ih =>
    rw [walkEach_cons]
    have here := each one (List.mem_cons_self ..) one.1 p coherent
    have later := ih (fun one member => each one (List.mem_cons_of_mem _ member)) _ here.coherent
    exact here.trans [] _ _ _ later (List.nil_subset _)

theorem walkEntries_settles (owner : NodeId) (path : List String) (pairs : List (Tree × Tree))
    (each : ∀ pair ∈ pairs, ∀ path p, p.Coherent →
      Settles [] p (pair.1.walk path p) ∧ Settles [] p (pair.2.walk path p))
    (merged : Nat) (seen : List Scalar) (p : Progress) (coherent : p.Coherent)
    (entered : owner ∈ p.ids) :
    Settles [owner] p (walkEntries owner path pairs merged seen p) ∧
      (walkEntries owner path pairs merged seen p).of owner =
        p.of owner ++ mentioned owner path pairs merged seen := by
  induction pairs generalizing merged seen p with
  | nil =>
    rw [walkEntries, mentioned, List.append_nil]
    exact ⟨.refl [owner] p coherent, rfl⟩
  | cons pair rest ih =>
    obtain ⟨key, value⟩ := pair
    have keyWalk := (each (key, value) (List.mem_cons_self ..) path p coherent).1
    cases named : key.scalar? with
    | none =>
      rw [walkEntries_nameless owner path key value rest merged seen p named, mentioned, named,
        List.append_nil]
      exact ⟨keyWalk.weaken [owner] _ _, keyWalk.kept owner entered List.not_mem_nil⟩
    | some name =>
      rw [walkEntries_named owner path key value rest merged seen p name named, mentioned, named]
      let mention : Mention := ⟨owner, key, name, path, comesAgain merged seen name⟩
      let written := comesAgain merged seen name || value.isCollection
      let told := (key.walk path p).mentionIf written mention
      have enteredKey := keyWalk.ids_subset [] _ _ entered
      -- Only the owner mentions anything here, and it is busy until all its pairs are read.
      have telling : Settles [owner] (key.walk path p) told :=
        .mentionIf _ written mention keyWalk.coherent enteredKey
      have enteredTold : owner ∈ told.ids := telling.ids_subset [owner] _ _ enteredKey
      have valueWalk := (each (key, value) (List.mem_cons_self ..)
        (if value.isCollection then name.text :: path else path) told telling.coherent).2
      have enteredValue := valueWalk.ids_subset [] _ _ enteredTold
      obtain ⟨restWalk, tail⟩ := ih (fun pair member => each pair (List.mem_cons_of_mem _ member))
        (merged - 1) (if merged == 0 then name :: seen else seen) _ valueWalk.coherent enteredValue
      have known (q : Progress) (member : owner ∈ q.ids) : [owner] ⊆ q.ids := by
        simpa using member
      constructor
      · have toTold := (keyWalk.weaken [owner] _ _).trans [owner] _ _ _ telling (known _ entered)
        have toValue := toTold.trans [owner] _ _ _ (valueWalk.weaken [owner] _ _) (known _ entered)
        exact toValue.trans [owner] _ _ _ restWalk (known _ entered)
      · have keptValue := valueWalk.kept owner enteredTold List.not_mem_nil
        have keptKey := keyWalk.kept owner entered List.not_mem_nil
        have added : told.of owner = p.of owner ++ if written then [mention] else [] := by
          rw [Progress.of_mentionIf, keptKey, beq_self_eq_true, Bool.and_true]
        rw [tail]
        change Progress.of (value.walk _ told) owner ++ _ = _
        rw [keptValue, added, List.append_assoc]

theorem walk_settles_mapping (t : Tree) (path : List String) (p : Progress) (coherent : p.Coherent)
    (isMapping : t.kind = .mapping) (new : t.id ∉ p.ids)
    (each : ∀ pair ∈ t.entries, ∀ path p, p.Coherent →
      Settles [] p (pair.1.walk path p) ∧ Settles [] p (pair.2.walk path p)) :
    Settles [] p (t.walk path p) := by
  rw [walk_mapping path t p isMapping new]
  have begun : (p.enter t).Coherent := coherent.enter p t new
  have entered : t.id ∈ (p.enter t).ids := by
    rw [Progress.ids_enter]
    exact List.mem_append_right _ (List.mem_singleton.mpr rfl)
  obtain ⟨inner, own⟩ := walkEntries_settles t.id path t.entries each
    (if t.id ∈ p.flat then 0 else t.inherited) [] _ begun entered
  have before : (p.enter t).of t.id = [] := coherent.of_eq_nil p t.id new
  rw [before, List.nil_append] at own
  refine ⟨inner.coherent, (List.prefix_append ..).trans inner.entered, ?_, ?_⟩
  · intro owner old _
    have differs : owner ∉ [t.id] := by
      rintro same
      exact new (List.mem_singleton.mp same ▸ old)
    refine inner.kept owner ?_ differs
    rw [Progress.ids_enter]
    exact List.mem_append_left _ old
  · intro earlier s after split long
    by_cases later : (p.enter t).entered.length ≤ earlier.length
    next => exact inner.settled earlier s after split later
    next =>
      -- Then it is the mapping itself.
      have isPrefix := inner.entered
      rw [split] at isPrefix
      obtain ⟨more, whole⟩ := prefix_of_split _ earlier after s isPrefix (by omega)
      have lengths := congrArg List.length whole
      simp only [Progress.enter, List.length_append, List.length_cons, List.length_nil]
        at lengths later
      obtain ⟨rfl, last⟩ := List.append_inj whole (by omega)
      rw [List.cons.injEq] at last
      obtain ⟨rfl, -⟩ := last
      exact ⟨path, own⟩

theorem walk_settles (t : Tree) (path : List String) (p : Progress) (coherent : p.Coherent) :
    Settles [] p (t.walk path p) := by
  induction t using below_induction generalizing path p with
  | step t ih =>
    cases kind : t.kind with
    | scalar =>
      rw [walk_scalar path t p kind]
      exact .refl [] p coherent
    | sequence =>
      rw [walk_sequence path t p kind]
      refine walkEach_settles _ ?_ p coherent
      exact fun one member => ih one.2 (below_of_heldUnder path t one member)
    | mapping =>
      by_cases known : t.id ∈ p.ids
      next =>
        rw [walk_entered path t p kind known]
        exact .refl [] p coherent
      next =>
        refine walk_settles_mapping t path p coherent kind known fun pair member path p coherent =>
          ?_
        obtain ⟨key, value, -⟩ := below_of_entry t pair member
        exact ⟨ih pair.1 key path p coherent, ih pair.2 value path p coherent⟩

end Tree

def Tree.ComesAgain (pairs : List (Tree × Tree)) (key : Tree) (name : Scalar) : Prop :=
  ∃ before value after, pairs = before ++ (key, value) :: after ∧ key.scalar? = some name ∧
    ∃ earlier ∈ names before, earlier.same name = true

def Tree.LeadsOn (pairs : List (Tree × Tree)) (name : Scalar) : Prop :=
  ∃ pair ∈ pairs, pair.2.isCollection = true ∧ pair.1.scalar? = some name

namespace Tree

def AllNamed (pairs : List (Tree × Tree)) : Prop :=
  ∀ pair ∈ pairs, ∃ name, pair.1.scalar? = some name

theorem names_cons (key value : Tree) (rest : List (Tree × Tree)) (name : Scalar)
    (named : key.scalar? = some name) : names ((key, value) :: rest) = name :: names rest :=
  List.filterMap_cons_some named

theorem names_append (first rest : List (Tree × Tree)) :
    names (first ++ rest) = names first ++ names rest :=
  List.filterMap_append

def silent (owner : NodeId) (path : List String) (pairs : List (Tree × Tree)) : List Mention :=
  pairs.filterMap fun pair =>
    if pair.2.isCollection then
      pair.1.scalar?.map fun name => ⟨owner, pair.1, name, path, false⟩
    else none

theorem mentioned_append (owner : NodeId) (path : List String) (first rest : List (Tree × Tree))
    (seen : List Scalar) (named : AllNamed first) :
    mentioned owner path (first ++ rest) first.length seen =
      silent owner path first ++ mentioned owner path rest 0 seen := by
  induction first with
  | nil => rfl
  | cons pair more ih =>
    obtain ⟨key, value⟩ := pair
    obtain ⟨name, here⟩ := named (key, value) (List.mem_cons_self ..)
    have key_named : key.scalar? = some name := here
    have later := ih fun pair member => named pair (List.mem_cons_of_mem _ member)
    have inherits : (more.length + 1 == 0) = false := rfl
    rw [List.cons_append, List.length_cons, mentioned, key_named]
    simp only [comesAgain, inherits, Bool.false_and, Bool.false_or, Bool.false_eq_true, if_false,
      Nat.add_sub_cancel]
    rw [later]
    by_cases leads : value.isCollection = true
    next => simp [silent, leads, key_named]
    next => simp [silent, leads]

theorem mem_mentioned (owner : NodeId) (path : List String) (pairs : List (Tree × Tree))
    (seen : List Scalar) (named : AllNamed pairs) (mention : Mention) :
    mention ∈ mentioned owner path pairs 0 seen ↔
      ∃ before key value after name, pairs = before ++ (key, value) :: after ∧
        key.scalar? = some name ∧
          mention = ⟨owner, key, name, path, (names before ++ seen).any (·.same name)⟩ ∧
            (mention.again = true ∨ value.isCollection = true) := by
  induction pairs generalizing seen with
  | nil => simp [mentioned]
  | cons pair rest ih =>
    obtain ⟨key, value⟩ := pair
    obtain ⟨name, here⟩ := named (key, value) (List.mem_cons_self ..)
    have key_named : key.scalar? = some name := here
    have later := ih (name :: seen) fun pair member => named pair (List.mem_cons_of_mem _ member)
    have moved (before : List (Tree × Tree)) (other : Scalar) :
        (names before ++ name :: seen).any (·.same other) =
          (names ((key, value) :: before) ++ seen).any (·.same other) := by
      rw [names_cons key value before name key_named]
      simp only [List.any_append, List.any_cons, List.cons_append]
      exact Bool.or_left_comm ..
    simp only [mentioned, key_named, List.mem_append, comesAgain, beq_self_eq_true, Bool.true_and,
      if_true, Nat.zero_sub, later]
    constructor
    · rintro (member | ⟨before, other, leaf, after, word, rfl, found, rfl, written⟩)
      · by_cases written : (seen.any (·.same name) || value.isCollection) = true
        next =>
          rw [if_pos written] at member
          refine ⟨[], key, value, rest, name, rfl, key_named, List.mem_singleton.mp member, ?_⟩
          rw [List.mem_singleton.mp member]
          exact Bool.or_eq_true_iff.mp written
        next =>
          rw [if_neg written] at member
          exact absurd member List.not_mem_nil
      · refine ⟨(key, value) :: before, other, leaf, after, word, rfl, found, ?_, written⟩
        rw [moved]
    · rintro ⟨before, other, leaf, after, word, split, found, rfl, written⟩
      cases before with
      | nil =>
        simp only [List.nil_append, List.cons.injEq, Prod.mk.injEq] at split
        obtain ⟨⟨rfl, rfl⟩, rfl⟩ := split
        rw [key_named, Option.some.injEq] at found
        subst found
        have mentions : (seen.any (·.same name) || value.isCollection) = true :=
          Bool.or_eq_true_iff.mpr written
        refine .inl ?_
        rw [if_pos mentions]
        exact List.mem_singleton.mpr rfl
      | cons first before =>
        rw [List.cons_append, List.cons.injEq] at split
        obtain ⟨rfl, rfl⟩ := split
        refine .inr ⟨before, other, leaf, after, word, rfl, found, ?_, written⟩
        rw [moved]

theorem mem_mentioned_again (owner : NodeId) (path : List String) (first own : List (Tree × Tree))
    (namedFirst : AllNamed first) (named : AllNamed own) (key : Tree) (name : Scalar) :
    (∃ mention ∈ mentioned owner path (first ++ own) first.length [],
        mention.again = true ∧ mention.key = key ∧ mention.name = name) ↔
      ComesAgain own key name := by
  simp only [mentioned_append owner path first own [] namedFirst, List.mem_append,
    mem_mentioned owner path own [] named]
  constructor
  · rintro ⟨mention, member | ⟨before, other, value, after, word, split, found, rfl, -⟩, again,
      rfl, rfl⟩
    · obtain ⟨pair, -, silent⟩ := List.mem_filterMap.mp member
      split at silent
      · obtain ⟨word, -, rfl⟩ := Option.map_eq_some_iff.mp silent
        exact absurd again Bool.false_ne_true
      · cases silent
    · rw [List.append_nil] at again
      obtain ⟨earlier, there, same⟩ := List.any_eq_true.mp again
      exact ⟨before, value, after, split, found, earlier, there, same⟩
  · rintro ⟨before, value, after, split, found, earlier, there, same⟩
    have again : (names before ++ []).any (·.same name) = true := by
      rw [List.append_nil]
      exact List.any_eq_true.mpr ⟨earlier, there, same⟩
    refine ⟨⟨owner, key, name, path, (names before ++ []).any (·.same name)⟩, .inr ?_, again,
      rfl, rfl⟩
    exact ⟨before, key, value, after, name, split, found, rfl, .inl again⟩

theorem mem_names_mentioned (owner : NodeId) (path : List String) (first own : List (Tree × Tree))
    (namedFirst : AllNamed first) (named : AllNamed own) (name : Scalar) :
    (∃ mention ∈ mentioned owner path (first ++ own) first.length [], mention.name = name) ↔
      LeadsOn (first ++ own) name ∨ ∃ key, ComesAgain own key name := by
  constructor
  · rintro ⟨mention, member, rfl⟩
    by_cases again : mention.again = true
    next =>
      exact .inr ⟨mention.key, (mem_mentioned_again owner path first own namedFirst named _ _).mp
        ⟨mention, member, again, rfl, rfl⟩⟩
    next =>
      rw [mentioned_append owner path first own [] namedFirst, List.mem_append,
        mem_mentioned owner path own [] named] at member
      refine .inl ?_
      rcases member with member | ⟨before, key, value, after, word, split, found, rfl, written⟩
      · obtain ⟨pair, there, silent⟩ := List.mem_filterMap.mp member
        split at silent
        · next leads =>
          obtain ⟨word, found, rfl⟩ := Option.map_eq_some_iff.mp silent
          exact ⟨pair, List.mem_append_left _ there, leads, found⟩
        · cases silent
      · have leads := written.resolve_left again
        refine ⟨(key, value), List.mem_append_right _ ?_, leads, found⟩
        rw [split]
        simp
  · rintro (⟨⟨key, value⟩, member, leads, found⟩ | ⟨key, again⟩)
    · rw [mentioned_append owner path first own [] namedFirst]
      rcases List.mem_append.mp member with member | member
      · refine ⟨⟨owner, key, name, path, false⟩, List.mem_append_left _ ?_, rfl⟩
        refine List.mem_filterMap.mpr ⟨(key, value), member, ?_⟩
        simp only [leads, if_true]
        rw [show key.scalar? = some name from found]
        rfl
      · obtain ⟨before, after, split⟩ := List.append_of_mem member
        refine ⟨_, List.mem_append_right _ ((mem_mentioned owner path own [] named _).mpr
          ⟨before, key, value, after, name, split, found, rfl, .inr leads⟩), rfl⟩
    · obtain ⟨mention, member, -, -, same⟩ :=
        (mem_mentioned_again owner path first own namedFirst named key name).mpr again
      exact ⟨mention, member, same⟩

theorem countP_mentioned (owner : NodeId) (path : List String) (pairs : List (Tree × Tree))
    (seen : List Scalar) (named : AllNamed pairs) :
    (mentioned owner path pairs 0 seen).countP (·.again) = Scalar.repeats seen (names pairs) := by
  induction pairs generalizing seen with
  | nil => rfl
  | cons pair rest ih =>
    obtain ⟨key, value⟩ := pair
    obtain ⟨name, here⟩ := named (key, value) (List.mem_cons_self ..)
    have key_named : key.scalar? = some name := here
    have later := ih (name :: seen) fun pair member => named pair (List.mem_cons_of_mem _ member)
    rw [names_cons key value rest name key_named, Scalar.repeats, mentioned, key_named]
    simp only [comesAgain, beq_self_eq_true, Bool.true_and, Nat.zero_sub, if_true,
      List.countP_append,
      later]
    by_cases again : seen.any (·.same name) = true
    next => simp [again]
    next =>
      by_cases leads : value.isCollection = true
      next => simp [again, leads]
      next => simp [again, leads]

def MayWrite (s : Tree) (name : Scalar) : Prop :=
  LeadsOn s.entries name ∨ ∃ key, ComesAgain s.entries key name

def Explains (t : Tree) (p : Progress) : Prop :=
  ∀ mention ∈ p.mentions, ∃ s ∈ t.parts, s.MayWrite mention.name

theorem walkEach_explained (t : Tree) (inner : List (List String × Tree))
    (each : ∀ one ∈ inner, ∀ path p, t.Explains p → t.Explains (one.2.walk path p)) (p : Progress)
    (sofar : t.Explains p) : t.Explains (walkEach inner p) := by
  induction inner generalizing p with
  | nil =>
    rw [walkEach_nil]
    exact sofar
  | cons one rest ih =>
    rw [walkEach_cons]
    have here := each one (List.mem_cons_self ..) one.1 p sofar
    exact ih (fun one member => each one (List.mem_cons_of_mem _ member)) _ here

theorem mayWrite_of_mentioned (s key value : Tree) (before rest : List (Tree × Tree))
    (split : s.entries = before ++ (key, value) :: rest) (merged : Nat) (seen : List Scalar)
    (name : Scalar) (named : key.scalar? = some name) (known : ∀ early ∈ seen, early ∈ names before)
    (written : (comesAgain merged seen name || value.isCollection) = true) : s.MayWrite name := by
  rcases Bool.or_eq_true_iff.mp written with again | leads
  · obtain ⟨-, any⟩ := Bool.and_eq_true_iff.mp again
    obtain ⟨early, member, same⟩ := List.any_eq_true.mp any
    exact .inr ⟨key, before, value, rest, split, named, early, known early member, same⟩
  · refine .inl ⟨(key, value), ?_, leads, named⟩
    rw [split]
    simp

theorem walkEntries_explained (t s : Tree) (within : s ∈ t.parts) (owner : NodeId)
    (path : List String) (before pairs : List (Tree × Tree)) (split : s.entries = before ++ pairs)
    (each : ∀ pair ∈ pairs, ∀ path p, t.Explains p →
      t.Explains (pair.1.walk path p) ∧ t.Explains (pair.2.walk path p))
    (merged : Nat) (seen : List Scalar) (known : ∀ early ∈ seen, early ∈ names before)
    (p : Progress) (sofar : t.Explains p) :
    t.Explains (walkEntries owner path pairs merged seen p) := by
  -- `before` holds the entries that were passed, and what was seen are names of theirs.
  induction pairs generalizing before merged seen p with
  | nil =>
    rw [walkEntries]
    exact sofar
  | cons pair rest ih =>
    obtain ⟨key, value⟩ := pair
    have afterKey := (each (key, value) (List.mem_cons_self ..) path p sofar).1
    cases named : key.scalar? with
    | none =>
      rw [walkEntries_nameless owner path key value rest merged seen p named]
      exact afterKey
    | some name =>
      rw [walkEntries_named owner path key value rest merged seen p name named]
      have told : t.Explains ((key.walk path p).mentionIf
          (comesAgain merged seen name || value.isCollection)
          ⟨owner, key, name, path, comesAgain merged seen name⟩) := by
        intro mention member
        by_cases written : (comesAgain merged seen name || value.isCollection) = true
        · rw [written] at member
          rcases List.mem_append.mp member with member | member
          · exact afterKey mention member
          · rw [List.mem_singleton.mp member]
            exact ⟨s, within, mayWrite_of_mentioned s key value before rest split merged seen name
              named known written⟩
        · rw [Bool.not_eq_true] at written
          rw [written] at member
          exact afterKey mention member
      have afterValue := (each (key, value) (List.mem_cons_self ..)
        (if value.isCollection then name.text :: path else path) _ told).2
      have later : names (before ++ [(key, value)]) = names before ++ [name] := by
        rw [names_append, names_cons key value [] name named]
        rfl
      refine ih (before ++ [(key, value)]) (by rw [split, List.append_assoc, List.singleton_append])
        (fun pair member => each pair (List.mem_cons_of_mem _ member)) (merged - 1) _ ?_ _
          afterValue
      intro early member
      rw [later, List.mem_append]
      split at member
      · rcases List.mem_cons.mp member with rfl | member
        · exact .inr (List.mem_singleton.mpr rfl)
        · exact .inl (known early member)
      · exact .inl (known early member)

theorem walk_explained (t s : Tree) (within : s ∈ t.parts) (path : List String) (p : Progress)
    (sofar : t.Explains p) : t.Explains (s.walk path p) := by
  induction s using below_induction generalizing path p with
  | step s ih =>
    have inside (r : Tree) (below : Below r s) (path : List String) (p : Progress)
        (sofar : t.Explains p) : t.Explains (r.walk path p) :=
      ih r below (parts_trans r s t (below.part r s) within) path p sofar
    cases kind : s.kind with
    | scalar =>
      rw [walk_scalar path s p kind]
      exact sofar
    | sequence =>
      rw [walk_sequence path s p kind]
      exact walkEach_explained t _
        (fun one member => inside one.2 (below_of_heldUnder path s one member)) p sofar
    | mapping =>
      by_cases known : s.id ∈ p.ids
      next =>
        rw [walk_entered path s p kind known]
        exact sofar
      next =>
        rw [walk_mapping path s p kind known]
        refine walkEntries_explained t s within s.id path [] s.entries rfl ?_ _ []
          (fun early member => absurd member List.not_mem_nil) _ sofar
        intro pair member path p sofar
        obtain ⟨key, value, -⟩ := below_of_entry s pair member
        exact ⟨inside pair.1 key path p sofar, inside pair.2 value path p sofar⟩

end Tree

end LocaleLint.Yaml
