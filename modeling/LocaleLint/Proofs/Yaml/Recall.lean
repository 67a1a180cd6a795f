import LocaleLint.Proofs.Yaml.Absorption
import LocaleLint.Proofs.Yaml.Sound

set_option autoImplicit false

namespace LocaleLint.Yaml

/-- Nodes in which mappings are as they were written or have been flattened; of those that are being
worked on, nothing is said. -/
structure Recalls (g : Graph) (busy : List NodeId) (nodes : Array Node) : Prop where
  size : nodes.size = g.nodes.size
  start : ∀ id, (nodes.getD id default).start = (g.node id).start
  tag : ∀ id, (nodes.getD id default).tag = (g.node id).tag ∨
    (g.node id).tag = .value ∧ (nodes.getD id default).tag = .str
  content : ∀ id, (g.node id).kind ≠ .mapping →
    (nodes.getD id default).content = (g.node id).content
  pairs : ∀ t : Tree, t.Stands g → t.kind = .mapping → t.id ∉ busy →
    (nodes.getD t.id default).content = t.node.content ∨
      ∃ entries, t.flattened = .ok entries ∧
        (nodes.getD t.id default).content = .mapping (Tree.idsOf entries)

namespace Recalls

variable (g : Graph) (busy : List NodeId) (nodes : Array Node) (recalls : Recalls g busy nodes)

include recalls

theorem isOf (t : Tree) (stands : t.Stands g) : (nodes.getD t.id default).IsOf t := by
  have start := recalls.start t.id
  have tag := recalls.tag t.id
  rw [stands.here] at start tag
  exact ⟨rfl, start, tag⟩

theorem content_of (t : Tree) (stands : t.Stands g) (other : t.kind ≠ .mapping) :
    (nodes.getD t.id default).content = t.node.content := by
  rw [recalls.content t.id (by rwa [stands.kind g t]), stands.here]

theorem working (id : NodeId) : Recalls g (id :: busy) nodes :=
  { recalls with
    pairs := fun t stands isMapping away =>
      recalls.pairs t stands isMapping fun member => away (List.mem_cons_of_mem _ member) }

theorem setPairs (id : NodeId) (ids : List (NodeId × NodeId)) (worked : id ∈ busy)
    (isMapping : (g.node id).kind = .mapping) :
    Recalls g busy (nodes.modify id fun node => { node with content := .mapping ids }) where
  size := by rw [Array.size_modify, recalls.size]
  start := fun other => by
    rw [getD_modify]
    split <;> exact recalls.start other
  tag := fun other => by
    rw [getD_modify]
    split <;> exact recalls.tag other
  content := fun other plain => by
    rw [getD_modify, if_neg]
    · exact recalls.content other plain
    · rintro ⟨rfl, -⟩
      exact plain isMapping
  pairs := fun t stands isMapping away => by
    rw [getD_modify, if_neg]
    · exact recalls.pairs t stands isMapping away
    · rintro ⟨rfl, -⟩
      exact away worked

theorem plainKeys (pairs : List (NodeId × NodeId)) :
    Recalls g busy (pairs.foldl Build.plainKey nodes) := by
  have becomes (id : NodeId) := Build.becomes_plainKeys pairs nodes id
  refine ⟨?_, fun id => ?_, fun id => ?_, fun id plain => ?_, fun t stands isMapping away => ?_⟩
  · rw [Build.size_plainKeys, recalls.size]
  · rw [(becomes id).start, recalls.start]
  · rcases (becomes id).tag with same | ⟨value, str⟩
    · rw [same]
      exact recalls.tag id
    · rcases recalls.tag id with same | ⟨-, other⟩
      · exact .inr ⟨same.symm.trans value, str⟩
      · rw [value] at other
        contradiction
  · rw [(becomes id).content, recalls.content id plain]
  · rw [(becomes t.id).content]
    exact recalls.pairs t stands isMapping away

theorem release (rest : List NodeId) (t : Tree) (entries : List (Tree × Tree))
    (stands : t.Stands g) (same : busy = t.id :: rest) (flattened : t.flattened = .ok entries)
    (content : (nodes.getD t.id default).content = .mapping (Tree.idsOf entries)) :
    Recalls g rest nodes :=
  { recalls with
    pairs := fun s other isMapping away => by
      by_cases here : s.id = t.id
      · rw [other.unique g s t stands here]
        exact .inr ⟨entries, flattened, content⟩
      · refine recalls.pairs s other isMapping ?_
        rw [same, List.mem_cons, not_or]
        exact ⟨here, away⟩ }

end Recalls

def recalling (g : Graph) : View g where
  covers := Tree.Stands g
  shows := fun _ => Recalls g
  stands := fun _ stands => stands
  child := fun s t stands below => stands.child g s t below
  size := fun _ _ _ recalls => recalls.size
  isOf := fun _ busy nodes t recalls stands _ => recalls.isOf g busy nodes t stands
  content :=
    fun _ busy nodes t recalls stands _ other => recalls.content_of g busy nodes t stands other
  pairs := fun _ busy nodes t recalls stands away isMapping =>
    (recalls.pairs t stands isMapping away).imp_right fun ⟨entries, flattened, content⟩ =>
      ⟨entries, flattened, content, recalls⟩
  congr := fun _ _ _ _ _ recalls => recalls
  working := fun _ busy nodes id recalls => recalls.working g busy nodes id
  setPairs := fun _ busy nodes t ids stands isMapping recalls =>
    recalls.setPairs g (t.id :: busy) nodes t.id ids (List.mem_cons_self ..)
      (by rw [stands.kind g t, isMapping])
  plainKeys := fun _ busy nodes _ _ recalls => recalls.plainKeys g busy nodes _
  release := fun _ busy nodes t entries stands _ flattened _ content _ recalls =>
    recalls.release g (t.id :: busy) nodes busy t entries stands rfl flattened content

end LocaleLint.Yaml
