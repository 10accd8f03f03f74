import PipelineIQ.Frontend.YamlGraph
import PipelineIQ.Lib.KahnOrder
import PipelineIQ.Lib.Utf16

namespace PipelineIQ.Frontend.TopologicalOrder

open PipelineIQ.Lib PipelineIQ.Lib.Strings PipelineIQ.Lib.Yaml
open PipelineIQ.Frontend.PipelineEditor PipelineIQ.Frontend.YamlGraph

variable {R : Type}

/-! ### The three functions, with the browser's order of texts -/

def topologicalSort (nodes : List (PipelineEditor.Node R Entries)) (edges : List Edge) :
    Option (List (PipelineEditor.Node R Entries)) :=
  YamlGraph.topologicalSort Utf16.le nodes edges

def hasCycle (nodes : List (PipelineEditor.Node R Entries)) (edges : List Edge) : Bool :=
  (topologicalSort nodes edges).isNone

/-- The edge that a connection would be, only to see whether it closes a cycle. -/
def candidateEdge (sourceId targetId : Text) : Edge where
  id := "__cycle_test_".toList ++ sourceId ++ "__".toList ++ targetId
  source := sourceId
  target := targetId
  sourceHandle := none
  targetHandle := none
  animated := none
  style := none

def wouldCreateCycle (nodes : List (PipelineEditor.Node R Entries)) (edges : List Edge)
    (sourceId targetId : Text) : Bool :=
  (topologicalSort nodes (edges ++ [candidateEdge sourceId targetId])).isNone

/-! ### What the order is -/

/-- An edge between two of the nodes. -/
def Linked (nodes : List (PipelineEditor.Node R Entries)) (edges : List Edge) (u v : Text) : Prop :=
  Kahn.Edge (nodes.map (·.id)) (endpoints edges) u v

/-- The order of orders by the ids, one after the other. -/
def Less (a b : List (PipelineEditor.Node R Entries)) : Prop :=
  List.Lex (Kahn.Before Utf16.le) (a.map (·.id)) (b.map (·.id))

variable {nodes nodes' ordered : List (PipelineEditor.Node R Entries)} {edges edges' : List Edge}

theorem endpoints_insert (source target : Text) :
    endpoints (edges ++ [candidateEdge source target]) = endpoints edges ++ [(source, target)] :=
  List.map_append

theorem linked_insert {source target : Text} (hsource : source ∈ nodes.map (·.id))
    (htarget : target ∈ nodes.map (·.id)) (u v : Text) :
    Linked nodes (edges ++ [candidateEdge source target]) u v ↔
      Linked nodes edges u v ∨ u = source ∧ v = target := by
  rw [Linked, Kahn.Edge, endpoints_insert, List.mem_append, List.mem_singleton, Prod.mk.injEq]
  constructor
  · rintro ⟨hu, hv, hedge | hnew⟩
    · exact .inl ⟨hu, hv, hedge⟩
    · exact .inr hnew
  · rintro (⟨hu, hv, hedge⟩ | ⟨rfl, rfl⟩)
    · exact ⟨hu, hv, .inl hedge⟩
    · exact ⟨hsource, htarget, .inr ⟨rfl, rfl⟩⟩

/-- An edge without its ends is none. -/
theorem linked_insert_absent {source target : Text}
    (h : source ∉ nodes.map (·.id) ∨ target ∉ nodes.map (·.id)) (u v : Text) :
    Linked nodes (edges ++ [candidateEdge source target]) u v ↔ Linked nodes edges u v := by
  rw [Linked, Kahn.Edge, endpoints_insert, List.mem_append, List.mem_singleton, Prod.mk.injEq]
  constructor
  · rintro ⟨hu, hv, hedge | ⟨rfl, rfl⟩⟩
    · exact ⟨hu, hv, hedge⟩
    · exact absurd h (not_or.mpr ⟨not_not.mpr hu, not_not.mpr hv⟩)
  · rintro ⟨hu, hv, hedge⟩
    exact ⟨hu, hv, .inl hedge⟩

section Nodes

variable (hids : (nodes.map (·.id)).Nodup)
include hids

theorem nodeById_eq {node : PipelineEditor.Node R Entries} (h : node ∈ nodes) :
    nodeById nodes node.id = some node := by
  have hsome : (nodeById nodes node.id).isSome := by
    rw [nodeById, List.find?_isSome]
    exact ⟨node, List.mem_reverse.mpr h, decide_eq_true rfl⟩
  obtain ⟨found, hfound⟩ := Option.isSome_iff_exists.mp hsome
  have hmem := List.mem_reverse.mp (List.mem_of_find?_eq_some hfound)
  have hid : found.id = node.id := by
    have hfits := List.find?_some hfound
    rwa [decide_eq_true_eq] at hfits
  rw [hfound, List.inj_on_of_nodup_map hids hmem h hid]

theorem filterMap_nodeById (h : ∀ node ∈ ordered, node ∈ nodes) :
    (ordered.map (·.id)).filterMap (nodeById nodes) = ordered := by
  rw [List.filterMap_map]
  have hcongr : ordered.filterMap (nodeById nodes ∘ (·.id)) = ordered.filterMap some :=
    List.filterMap_congr fun node hnode => nodeById_eq hids (h node hnode)
  rw [hcongr, List.filterMap_some]

/-- An order of the ids is one of the nodes. -/
theorem exists_nodes {order : List Text} (hperm : order.Perm (nodes.map (·.id))) :
    ∃ ordered : List (PipelineEditor.Node R Entries), ordered.map (·.id) = order ∧
      ordered.Perm nodes := by
  have hall : ∀ id ∈ order, ∃ node ∈ nodes, node.id = id := fun id hid =>
    List.mem_map.mp (hperm.mem_iff.mp hid)
  have hmap : (order.filterMap (nodeById nodes)).map (·.id) = order := by
    have hfound : ∀ id ∈ order, (nodeById nodes id).map (·.id) = some id := by
      intro id hid
      obtain ⟨node, hnode, rfl⟩ := hall id hid
      rw [nodeById_eq hids hnode]
      rfl
    rw [List.map_filterMap, List.filterMap_congr hfound, List.filterMap_some]
  refine ⟨order.filterMap (nodeById nodes), hmap, ?_⟩
  have hnodes := hperm.filterMap (nodeById nodes)
  rwa [filterMap_nodeById hids fun _ h => h] at hnodes

variable (hne : ∀ node ∈ nodes, node.id ≠ [])
include hne

omit hids in
theorem not_halts : ∀ id ∈ nodes.map (·.id), List.isEmpty id = false := by
  intro id hid
  obtain ⟨node, hnode, rfl⟩ := List.mem_map.mp hid
  exact List.isEmpty_eq_false_iff.mpr (hne node hnode)

theorem topologicalSort_eq_none_iff :
    topologicalSort nodes edges = none ↔ ∃ u, Relation.TransGen (Linked nodes edges) u u := by
  rw [topologicalSort, YamlGraph.topologicalSort, Option.map_eq_none_iff]
  exact Kahn.kahn_eq_none_iff hids (not_halts hne)

theorem topologicalSort_eq_some_iff : topologicalSort nodes edges = some ordered ↔
    Kahn.kahn Utf16.le List.isEmpty (nodes.map (·.id)) (endpoints edges) =
      some (ordered.map (·.id)) ∧ ordered.Perm nodes := by
  rw [topologicalSort, YamlGraph.topologicalSort, Option.map_eq_some_iff]
  constructor
  · rintro ⟨order, horder, rfl⟩
    obtain ⟨hperm, -⟩ := Kahn.kahn_eq_some Utf16.le hids (not_halts hne) horder
    obtain ⟨found, rfl, hfound⟩ := exists_nodes hids hperm
    rw [filterMap_nodeById hids fun node h => hfound.mem_iff.mp h]
    exact ⟨horder, hfound⟩
  · rintro ⟨horder, hperm⟩
    exact ⟨_, horder, filterMap_nodeById hids fun node h => hperm.mem_iff.mp h⟩

theorem wouldCreateCycle_iff (hacyclic : ∀ u, ¬ Relation.TransGen (Linked nodes edges) u u)
    {source target : Text} : wouldCreateCycle nodes edges source target = true ↔
      source ∈ nodes.map (·.id) ∧ target ∈ nodes.map (·.id) ∧
        Relation.ReflTransGen (Linked nodes edges) target source := by
  rw [wouldCreateCycle, Option.isNone_iff_eq_none, topologicalSort_eq_none_iff hids hne]
  by_cases hends : source ∈ nodes.map (·.id) ∧ target ∈ nodes.map (·.id)
  · rw [Kahn.exists_cycle_insert_iff hacyclic (linked_insert hends.1 hends.2)]
    simp only [hends, true_and]
  · have hsame : Linked nodes (edges ++ [candidateEdge source target]) = Linked nodes edges := by
      ext u v
      exact linked_insert_absent (not_and_or.mp hends) u v
    rw [hsame]
    apply iff_of_false
    · exact fun ⟨u, hcycle⟩ => hacyclic u hcycle
    · exact fun h => hends ⟨h.1, h.2.1⟩

end Nodes

/-- What the sort of some nodes along some edges is. -/
structure Exact (nodes : List (PipelineEditor.Node R Entries)) (edges : List Edge) : Prop where
  /-- There is no order exactly where the edges between nodes have a cycle. -/
  fails : topologicalSort nodes edges = none ↔ ∃ u, Relation.TransGen (Linked nodes edges) u u
  /-- An order is one of all nodes along the edges, and no other one is less. -/
  least : ∀ ordered, topologicalSort nodes edges = some ordered → ordered.Perm nodes ∧
    Kahn.Forward (Linked nodes edges) (ordered.map (·.id)) ∧
    ∀ other : List (PipelineEditor.Node R Entries), other.Perm nodes →
      Kahn.Forward (Linked nodes edges) (other.map (·.id)) → ordered = other ∨ Less ordered other
  /-- It is the same for every order of the nodes and of the edges. -/
  unordered : ∀ nodes' edges', nodes'.Perm nodes → edges'.Perm edges →
    topologicalSort nodes' edges' = topologicalSort nodes edges
  /-- Without a cycle, one more edge makes one if its target is its source or leads there. -/
  closes : hasCycle nodes edges = false →
    ∀ source ∈ nodes.map (·.id), ∀ target ∈ nodes.map (·.id),
      (wouldCreateCycle nodes edges source target = true ↔
        target = source ∨ Relation.TransGen (Linked nodes edges) target source)
  /-- An edge to or from an absent node makes none. -/
  absent : ∀ source target, source ∉ nodes.map (·.id) ∨ target ∉ nodes.map (·.id) →
    wouldCreateCycle nodes edges source target = hasCycle nodes edges

/-- The sort is exact for all nodes with distinct ids, none of them empty, and all edges. -/
theorem topological_sort_exact (nodes : List (PipelineEditor.Node R Entries)) (edges : List Edge)
    (hids : (nodes.map (·.id)).Nodup) (hne : ∀ node ∈ nodes, node.id ≠ []) : Exact nodes edges := by
  refine ⟨topologicalSort_eq_none_iff hids hne, ?_, ?_, ?_, ?_⟩
  · intro ordered h
    obtain ⟨horder, hperm⟩ := (topologicalSort_eq_some_iff hids hne).mp h
    obtain ⟨-, hforward⟩ := Kahn.kahn_eq_some Utf16.le hids (not_halts hne) horder
    refine ⟨hperm, hforward, fun other hother hother' => ?_⟩
    apply (Kahn.kahn_least Utf16.total_le hids (not_halts hne) horder
      (hother.map (·.id)) hother').imp_left
    intro heq
    rw [← filterMap_nodeById hids fun node h => hperm.mem_iff.mp h, heq,
      filterMap_nodeById hids fun node h => hother.mem_iff.mp h]
  · intro nodes' edges' hnodes hedges
    have hids' : (nodes'.map (·.id)).Nodup := (hnodes.map _).nodup_iff.mpr hids
    have hne' : ∀ node ∈ nodes', node.id ≠ [] := fun node h => hne node (hnodes.mem_iff.mp h)
    have hkahn : Kahn.kahn Utf16.le List.isEmpty (nodes'.map (·.id)) (endpoints edges') =
        Kahn.kahn Utf16.le List.isEmpty (nodes.map (·.id)) (endpoints edges) := by
      apply Kahn.kahn_congr Utf16.total_le hids (not_halts hne) (hnodes.map _)
      intro u v
      rw [Kahn.Edge, Kahn.Edge, (hnodes.map _).mem_iff, (hnodes.map _).mem_iff,
        endpoints, (hedges.map _).mem_iff]
      rfl
    apply Option.ext
    intro ordered
    rw [topologicalSort_eq_some_iff hids' hne',
      topologicalSort_eq_some_iff hids hne, hkahn]
    exact and_congr_right fun _ => ⟨fun h => h.trans hnodes, fun h => h.trans hnodes.symm⟩
  · intro hcycle source hsource target htarget
    have hacyclic : ∀ u, ¬ Relation.TransGen (Linked nodes edges) u u := by
      rw [← not_exists, ← topologicalSort_eq_none_iff hids hne, ← Option.isNone_iff_eq_none]
      exact Bool.not_eq_true _ ▸ hcycle
    rw [wouldCreateCycle_iff hids hne hacyclic, Relation.reflTransGen_iff_eq_or_transGen,
      eq_comm]
    simp only [hsource, htarget, true_and]
  · intro source target habsent
    have hsame : Linked nodes (edges ++ [candidateEdge source target]) = Linked nodes edges := by
      ext u v
      exact linked_insert_absent habsent u v
    rw [wouldCreateCycle, hasCycle, Bool.eq_iff_iff, Option.isNone_iff_eq_none,
      Option.isNone_iff_eq_none, topologicalSort_eq_none_iff hids hne,
      topologicalSort_eq_none_iff hids hne, hsame]

section Examples

def exampleNode (id : String) : PipelineEditor.Node Unit Entries :=
  addStepNode id.toList id.toList "sql".toList ((), ()) [] true

def exampleEdge (source target : String) : Edge := candidateEdge source.toList target.toList

/-- Two edges alike, one to itself and one to nowhere. -/
theorem topological_sort_exact_pair : Exact [exampleNode "b", exampleNode "a"]
    [exampleEdge "a" "b", exampleEdge "a" "b", exampleEdge "b" "b", exampleEdge "b" "c"] :=
  topological_sort_exact _ _ (by decide) (by decide)

end Examples

end PipelineIQ.Frontend.TopologicalOrder
