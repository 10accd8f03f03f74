import PipelineIQ.Pipeline.Lineage

namespace PipelineIQ.Pipeline.LineageLayout

open PipelineIQ.Lib PipelineIQ.Lib.Strings PipelineIQ.Pipeline.Lineage

/-- What a reader of the layout relies on: it has the nodes and the edges of the graph, the layer
of a node is the length of the longest path to it from a root, every edge leads to a higher layer,
and no two nodes share a position. -/
structure LayoutSound (g : Graph) (nodes : List ReactFlowNode) (edges : List ReactFlowEdge) :
    Prop where
  complete : (nodes.map ReactFlowNode.id).Perm g.nodes.keys
  faithful : ∀ u v, g.Adj u v ↔ ∃ e ∈ edges, e.source = u ∧ e.target = v
  longest : ∀ n ∈ nodes, ∃ layer, n.x = layer * LAYER_X_SPACING ∧
    IsGreatest {len | ∃ r ∈ g.nodes.keys, g.predecessors r = [] ∧ g.Walk len r n.id} layer
  forward : ∀ e ∈ edges, ∃ n ∈ nodes, ∃ m ∈ nodes, n.id = e.source ∧ m.id = e.target ∧ n.x < m.x
  apart : (nodes.map fun n => (n.x, n.y)).Nodup

variable {g : Graph} {order : List Text} {layers : Dict Nat (List Text)}

theorem positionNodes_map {α : Type} (f : ReactFlowNode → α) :
    (positionNodes g layers).map f = (layers.keys.mergeSort (· ≤ ·)).flatMap fun layer =>
      ((layers.get? layer).getD []).zipIdx.map fun e =>
        f (reactFlowNode g e.1 (layer * LAYER_X_SPACING) (e.2 * NODE_Y_SPACING)) := by
  rw [positionNodes, List.map_flatMap]
  simp only [List.map_map, Function.comp_def]

/-- The layout puts the nodes of a layer at the place of the layer. -/
theorem positionNodes_perm :
    ((positionNodes g layers).map fun n => (n.x, n.id)).Perm
      ((Dict.pairs layers.entries).map fun e => (e.1 * LAYER_X_SPACING, e.2)) := by
  have hlayer : ∀ layer, (((layers.get? layer).getD []).zipIdx.map fun e =>
      (layer * LAYER_X_SPACING, e.1)) = ((layers.get? layer).getD []).map fun v =>
        (layer * LAYER_X_SPACING, v) := by
    intro layer
    conv_rhs => rw [← List.zipIdx_map_fst 0 ((layers.get? layer).getD []), List.map_map]
    rfl
  rw [positionNodes_map, Dict.pairs_entries, List.map_flatMap]
  simp only [reactFlowNode, hlayer, List.map_map, Function.comp_def]
  exact (List.mergeSort_perm layers.keys _).flatMap_right _

/-- Two nodes of one layer differ in their height, and two of different ones in their layer. -/
theorem positions_nodup : ((positionNodes g layers).map fun n => (n.x, n.y)).Nodup := by
  rw [positionNodes_map, List.nodup_flatMap]
  constructor
  · intro layer _
    have hheights : (((layers.get? layer).getD []).zipIdx.map Prod.snd).Nodup := by
      rw [List.zipIdx_map_snd]
      exact List.nodup_range'
    have hinj : Function.Injective fun i => (layer * LAYER_X_SPACING, i * NODE_Y_SPACING) := by
      intro i j h
      have := (Prod.mk.inj h).2
      unfold NODE_Y_SPACING at this
      omega
    have := hheights.map hinj
    rw [List.map_map] at this
    exact this
  · have hkeys : (layers.keys.mergeSort (· ≤ ·)).Nodup :=
      (List.mergeSort_perm layers.keys _).nodup_iff.mpr layers.nodup
    refine hkeys.imp ?_
    intro l l' hne p hp hp'
    obtain ⟨e, -, rfl⟩ := List.mem_map.mp hp
    obtain ⟨e', -, heq⟩ := List.mem_map.mp hp'
    have := (Prod.mk.inj heq).1
    simp only [reactFlowNode, LAYER_X_SPACING] at this
    omega

theorem layers_perm (horder : g.IsTopologicalOrder order) :
    ((positionNodes g (assignLayers g order)).map fun n => (n.x, n.id)).Perm
      (g.nodes.keys.map fun v => (g.layer order v * LAYER_X_SPACING, v)) := by
  have hpairs := Dict.pairs_foldl_push (fun e : Text × Nat => (e.2, e.1)) (g.layerMap order).entries ∅
  have hlayers := (hpairs.trans ((DiGraph.layerMap_perm horder).map _)).map
    fun e : Nat × Text => (e.1 * LAYER_X_SPACING, e.2)
  rw [List.map_map, List.map_map] at hlayers
  exact positionNodes_perm.trans hlayers

theorem mem_buildReactFlowEdges {u v : Text} :
    g.Adj u v ↔ ∃ e ∈ buildReactFlowEdges g, e.source = u ∧ e.target = v := by
  have hends : (buildReactFlowEdges g).map (fun e => (e.source, e.target)) =
      (g.nodes.keys.flatMap fun u => g.edges.entries.filter fun e => e.1.1 = u).map Prod.fst := by
    rw [buildReactFlowEdges, List.map_map]
    conv_rhs => rw [← List.zipIdx_map_fst 0 (g.nodes.keys.flatMap _), List.map_map]
    rfl
  have hmem : (u, v) ∈ (buildReactFlowEdges g).map (fun e => (e.source, e.target)) ↔
      ∃ e ∈ buildReactFlowEdges g, e.source = u ∧ e.target = v := by
    simp only [List.mem_map, Prod.mk.injEq]
  rw [← hmem, hends, List.mem_map]
  constructor
  · intro hadj
    obtain ⟨e, he, heq⟩ := List.mem_map.mp hadj
    refine ⟨e, List.mem_flatMap.mpr ⟨u, (g.closed _ hadj).1, ?_⟩, heq⟩
    rw [List.mem_filter, heq]
    exact ⟨he, decide_eq_true rfl⟩
  · rintro ⟨e, he, heq⟩
    obtain ⟨w, -, he⟩ := List.mem_flatMap.mp he
    exact List.mem_map.mpr ⟨e, (List.mem_filter.mp he).1, heq⟩

/-- The layout of a graph without cycles is sound, for every topological sort. -/
theorem layoutSound_of_acyclic {topologicalSort : Graph → Option (List Text)}
    (hsort : ∀ g : Graph, g.Acyclic →
      ∃ order, topologicalSort g = some order ∧ g.IsTopologicalOrder order) (hg : g.Acyclic) :
    LayoutSound g (buildReactFlowNodes topologicalSort g) (buildReactFlowEdges g) := by
  obtain ⟨order, hsome, horder⟩ := hsort g hg
  rw [buildReactFlowNodes, hsome, Option.getD_some]
  have hperm := layers_perm horder
  have hplaced : ∀ v ∈ g.nodes.keys, ∃ n ∈ positionNodes g (assignLayers g order),
      n.id = v ∧ n.x = g.layer order v * LAYER_X_SPACING := by
    intro v hv
    obtain ⟨n, hn, heq⟩ := List.mem_map.mp (hperm.mem_iff.mpr (List.mem_map.mpr ⟨v, hv, rfl⟩))
    obtain ⟨hx, hid⟩ := Prod.mk.inj heq
    exact ⟨n, hn, hid, hx⟩
  constructor
  case complete =>
    have hids := hperm.map Prod.snd
    rw [List.map_map, List.map_map] at hids
    exact hids.trans (List.Perm.of_eq (List.map_id _))
  case faithful => exact fun u v => mem_buildReactFlowEdges
  case longest =>
    intro n hn
    obtain ⟨v, hv, heq⟩ := List.mem_map.mp (hperm.mem_iff.mp (List.mem_map.mpr ⟨n, hn, rfl⟩))
    obtain ⟨hx, hid⟩ := Prod.mk.inj heq
    rw [← hx, ← hid]
    exact ⟨g.layer order v, rfl, DiGraph.layer_isGreatest horder hv⟩
  case forward =>
    intro e he
    have hadj : g.Adj e.source e.target := mem_buildReactFlowEdges.mpr ⟨e, he, rfl, rfl⟩
    obtain ⟨n, hn, hid, hx⟩ := hplaced e.source (g.closed _ hadj).1
    obtain ⟨m, hm, hid', hx'⟩ := hplaced e.target (g.closed _ hadj).2
    refine ⟨n, hn, m, hm, hid, hid', ?_⟩
    rw [hx, hx']
    exact Nat.mul_lt_mul_of_pos_right (DiGraph.layer_lt horder hadj) (by decide)
  case apart => exact positions_nodup

end PipelineIQ.Pipeline.LineageLayout
