import PipelineIQ.Lib.Worklist
import PipelineIQ.Pipeline.LineageImpact

namespace PipelineIQ.Pipeline.LineageAncestry

open PipelineIQ.Lib PipelineIQ.Lib.Strings
open PipelineIQ.Pipeline.Lineage PipelineIQ.Pipeline.LineageRun PipelineIQ.Pipeline.LineageImpact
open PipelineIQ.Pipeline.Parser PipelineIQ.Pipeline.Validation PipelineIQ.Pipeline.ParserErrors
open PipelineIQ.Pipeline.ReferenceSoundness

/-! ### Column ancestry -/

structure TransformationStep where
  stepName : Text
  stepType : Text
  detail : Text
  deriving DecidableEq, Repr

structure ColumnLineage where
  columnName : Text
  sourceFile : Text
  sourceColumn : Text
  transformationChain : List TransformationStep
  totalSteps : Nat
  deriving DecidableEq, Repr

/-- What the search backwards notes. -/
structure Trace where
  sourceFile : Text := "unknown".toList
  stepNodesSeen : List Text := []
  sourceColNodes : List Text := []

def visitNode (g : Graph) (trace : Trace) (node : Text) : Trace :=
  let attrs := attrsOf g node
  let nodeType := (attrs.get? "node_type").getD []
  { sourceFile :=
      if nodeType = "source_file".toList ∧ trace.sourceFile = "unknown".toList then
        (attrs.get? "label").getD "unknown".toList
      else trace.sourceFile
    stepNodesSeen :=
      if nodeType = "step".toList ∧ node ∉ trace.stepNodesSeen then trace.stepNodesSeen ++ [node]
      else trace.stepNodesSeen
    sourceColNodes :=
      if nodeType = "source_column".toList then trace.sourceColNodes ++ [node]
      else trace.sourceColNodes }

/-- The search backwards from a node, which meets no node twice. -/
def traceBack (g : Graph) (targetNode : Text) : Trace :=
  Worklist.loop g.predecessors (visitNode g) g.nodes.keys.length {} ⟨[targetNode], [targetNode]⟩

def topoIndex (topoOrder : List Text) : Dict Text Nat :=
  topoOrder.zipIdx.foldl (fun index e => index.set e.1 e.2) ∅

def transformationStep (g : Graph) (stepNode : Text) : TransformationStep :=
  let attrs := attrsOf g stepNode
  { stepName := (attrs.get? "step_name").getD []
    stepType := (attrs.get? "step_type").getD []
    detail := (attrs.get? "label").getD [] }

/-- The source column: one of the same name, or of the name that the column has for its source, or
the first. -/
def sourceColumnOf (g : Graph) (targetNode columnName : Text) (sourceColNodes : List Text) : Text :=
  match sourceColNodes with
  | [] => columnName
  | first :: _ =>
    let named := fun t => sourceColNodes.find? fun n => (attrsOf g n).get? "column_name" = some t
    let nameOf := fun n => ((attrsOf g n).get? "column_name").getD columnName
    match named columnName with
    | some node => nameOf node
    | none =>
      match ((attrsOf g targetNode).get? "source_column").filter fun t => !t.isEmpty with
      | some srcCol => if (named srcCol).isSome then srcCol else nameOf first
      | none => nameOf first

def chainNodes (topoOrder stepNodesSeen : List Text) : List Text :=
  let index := topoIndex topoOrder
  stepNodesSeen.mergeSort fun a b =>
    decide ((index.get? a).getD 0 ≤ (index.get? b).getD 0)

def getColumnAncestry (topologicalSort : Graph → Option (List Text)) (g : Graph)
    (outputStepName columnName : Text) : ColumnLineage :=
  let targetNode := colNodeId outputStepName columnName
  if targetNode ∉ g.nodes.keys then
    { columnName
      sourceFile := "unknown".toList
      sourceColumn := columnName
      transformationChain := []
      totalSteps := 0 }
  else
    let trace := traceBack g targetNode
    let topoOrder := (topologicalSort g).getD g.nodes.keys
    let chain := (chainNodes topoOrder trace.stepNodesSeen).map (transformationStep g)
    { columnName
      sourceFile := trace.sourceFile
      sourceColumn := sourceColumnOf g targetNode columnName trace.sourceColNodes
      transformationChain := chain
      totalSteps := chain.length }

/-! ### The search -/

variable {g : Graph}

/-- The type of a node that is a step. -/
def IsStep (g : Graph) (node : Text) : Prop :=
  ((attrsOf g node).get? "node_type").getD [] = "step".toList

theorem stepNodesSeen_visits {order : List Text} {trace : Trace}
    (hnodup : trace.stepNodesSeen.Nodup) :
    (order.foldl (visitNode g) trace).stepNodesSeen.Nodup ∧
      ∀ node, node ∈ (order.foldl (visitNode g) trace).stepNodesSeen ↔
        node ∈ trace.stepNodesSeen ∨ node ∈ order ∧ IsStep g node := by
  induction order generalizing trace with
  | nil => exact ⟨hnodup, fun node => by simp⟩
  | cons first order ih =>
    have hfirst : (visitNode g trace first).stepNodesSeen.Nodup ∧
        ∀ node, node ∈ (visitNode g trace first).stepNodesSeen ↔
          node ∈ trace.stepNodesSeen ∨ node = first ∧ IsStep g first := by
      rw [visitNode, IsStep]
      dsimp only
      split
      · next hnew =>
        refine ⟨?_, fun node => ?_⟩
        · rw [List.nodup_append]
          refine ⟨hnodup, List.nodup_singleton first, fun a ha b hb => ?_⟩
          rintro rfl
          exact hnew.2 (List.mem_singleton.mp hb ▸ ha)
        · rw [List.mem_append, List.mem_singleton, and_iff_left hnew.1]
      · next hold =>
        refine ⟨hnodup, fun node => (or_iff_left_of_imp ?_).symm⟩
        rintro ⟨rfl, hstep⟩
        by_contra hnot
        exact hold ⟨hstep, hnot⟩
    obtain ⟨hnodup', hmem⟩ := ih hfirst.1
    refine ⟨hnodup', fun node => ?_⟩
    rw [List.foldl_cons, hmem, hfirst.2, List.mem_cons, or_and_right, or_assoc]
    constructor
    · rintro (h | ⟨rfl, h⟩ | h)
      · exact .inl h
      · exact .inr (.inl ⟨rfl, h⟩)
      · exact .inr (.inr h)
    · rintro (h | ⟨rfl, h⟩ | h)
      · exact .inl h
      · exact .inr (.inl ⟨rfl, h⟩)
      · exact .inr (.inr h)

/-- The search notes the steps that lead to the node, each once. -/
theorem mem_traceBack {targetNode : Text} (htarget : targetNode ∈ g.nodes.keys) :
    (traceBack g targetNode).stepNodesSeen.Nodup ∧
      ∀ node, node ∈ (traceBack g targetNode).stepNodesSeen ↔
        Relation.ReflTransGen g.Adj node targetNode ∧ IsStep g node := by
  have hpath : ∀ node,
      Relation.ReflTransGen (fun a b => b ∈ g.predecessors a) targetNode node ↔
        Relation.ReflTransGen g.Adj node targetNode := by
    intro node
    rw [← Relation.reflTransGen_swap]
    simp only [DiGraph.mem_predecessors]
  have hall : ∀ node, Relation.ReflTransGen (fun a b => b ∈ g.predecessors a) targetNode node →
      node ∈ g.nodes.keys := by
    intro node hnode
    rw [hpath] at hnode
    cases Relation.ReflTransGen.cases_head hnode with
    | inl heq => exact heq ▸ htarget
    | inr hfirst =>
      obtain ⟨_, hadj, -⟩ := hfirst
      exact (g.closed _ hadj).1
  obtain ⟨order, hloop, -, hmem⟩ :=
    @Worklist.exists_loop_eq _ _ _ _ (visitNode g) _ _ hall _ (Nat.le_refl _) {}
  obtain ⟨hnodup, hseen⟩ := @stepNodesSeen_visits g order {} List.nodup_nil
  rw [traceBack, hloop]
  refine ⟨hnodup, fun node => ?_⟩
  rw [hseen, hmem, hpath]
  exact or_iff_right List.not_mem_nil

/-! ### The order of the chain -/

theorem get?_topoIndex {order : List Text} (hnodup : order.Nodup) (v : Text) :
    (topoIndex order).get? v = if v ∈ order then some (order.idxOf v) else none := by
  have hfold : ∀ (n : Nat) (index : Dict Text Nat),
      ((order.zipIdx n).foldl (fun index e => index.set e.1 e.2) index).get? v =
        if v ∈ order then some (n + order.idxOf v) else index.get? v := by
    induction order with
    | nil => exact fun _ _ => rfl
    | cons u order ih =>
      intro n index
      obtain ⟨hu, hnodup⟩ := List.nodup_cons.mp hnodup
      rw [List.zipIdx_cons, List.foldl_cons, ih hnodup, Dict.get?_set]
      by_cases heq : v = u
      · subst heq
        rw [if_neg hu, if_pos rfl, if_pos List.mem_cons_self, List.idxOf_cons_self, Nat.add_zero]
      · rw [if_neg heq, List.idxOf_cons_ne _ (Ne.symm heq)]
        simp only [List.mem_cons, heq, false_or]
        split
        · rw [Nat.add_right_comm, Nat.add_assoc]
        · rfl
  rw [topoIndex, hfold 0 ∅, Nat.zero_add]
  rfl

/-- Along a path, the index in a topological order grows. -/
theorem idxOf_lt_of_path {order : List Text} (horder : g.IsTopologicalOrder order) {u v : Text}
    (hpath : Relation.TransGen g.Adj u v) : order.idxOf u < order.idxOf v := by
  have hadj : ∀ a b, g.Adj a b → order.idxOf a < order.idxOf b := by
    intro a b hab
    obtain ⟨before, after, hsplit⟩ :=
      List.append_of_mem (horder.perm.mem_iff.mpr (g.closed _ hab).2)
    have ha := horder.forward before b after hsplit a hab
    have hnodup : order.Nodup := horder.perm.nodup_iff.mpr g.nodes.nodup
    have hb : b ∉ before := by
      rw [hsplit] at hnodup
      exact fun hmem => List.disjoint_of_nodup_append hnodup hmem List.mem_cons_self
    rw [hsplit, List.idxOf_append_of_mem ha, List.idxOf_append_of_notMem hb]
    exact Nat.lt_add_right _ (List.idxOf_lt_length_of_mem ha)
  induction hpath with
  | single hab => exact hadj _ _ hab
  | tail _ hbc ih => exact ih.trans (hadj _ _ hbc)

/-- The chain has no node behind one that it leads to. -/
theorem pairwise_chainNodes {order seen : List Text} (horder : g.IsTopologicalOrder order)
    (hseen : ∀ node ∈ seen, node ∈ g.nodes.keys) :
    (chainNodes order seen).Pairwise fun u v => ¬ Relation.TransGen g.Adj v u := by
  have hindex : ∀ node ∈ seen, ((topoIndex order).get? node).getD 0 = order.idxOf node := by
    intro node hnode
    rw [get?_topoIndex (horder.perm.nodup_iff.mpr g.nodes.nodup),
      if_pos (horder.perm.mem_iff.mpr (hseen node hnode)), Option.getD_some]
  have hsorted := @List.pairwise_mergeSort Text
    (fun a b => decide (((topoIndex order).get? a).getD 0 ≤ ((topoIndex order).get? b).getD 0))
    (fun a b c hab hbc => by
      rw [decide_eq_true_eq] at hab hbc ⊢
      exact hab.trans hbc)
    (fun a b => by
      rw [Bool.or_eq_true, decide_eq_true_eq, decide_eq_true_eq]
      exact Nat.le_total _ _) seen
  refine hsorted.imp_of_mem fun {u v} hu hv hle hpath => ?_
  rw [decide_eq_true_eq, hindex u (List.mem_mergeSort.mp hu),
    hindex v (List.mem_mergeSort.mp hv)] at hle
  have hlt := idxOf_lt_of_path horder hpath
  omega

/-! ### Steps and their nodes -/

/-- Only the identifiers of steps have the type of a step. -/
def StepsMarked (g : Graph) : Prop :=
  ∀ node attrs, g.nodes.get? node = some attrs →
    attrs.get? "node_type" = some "step".toList → node.head? = some 's'

theorem StepsMarked.addEdge (h : StepsMarked g) (source target : Text) (data : Option Bool → Bool) :
    StepsMarked (g.addEdge ∅ source target data) := by
  have hset : ∀ (nodes : Dict Text Attrs) (w : Text),
      (∀ node attrs, nodes.get? node = some attrs →
        attrs.get? "node_type" = some "step".toList → node.head? = some 's') →
      ∀ node attrs, (nodes.set w ((nodes.get? w).getD ∅)).get? node = some attrs →
        attrs.get? "node_type" = some "step".toList → node.head? = some 's' := by
    intro nodes w hnodes node attrs hget htype
    rw [Dict.get?_set] at hget
    split at hget
    · next heq =>
      cases hold : nodes.get? w with
      | none =>
        rw [hold] at hget
        cases hget
        cases htype
      | some old =>
        rw [hold] at hget
        cases hget
        exact heq ▸ hnodes w old hold htype
    · exact hnodes node attrs hget htype
  exact hset _ target (hset _ source h)

theorem StepsMarked.addNode (h : StepsMarked g) {nodeId : Text} {new : List (String × Text)}
    (hnew : ∀ old, (update old new).get? "node_type" = some "step".toList →
      nodeId.head? = some 's') : StepsMarked (addNode g nodeId new) := by
  intro node attrs hget htype
  rw [Lineage.addNode, DiGraph.addNode, Dict.get?_set] at hget
  split at hget
  · next heq =>
    cases hget
    exact heq ▸ hnew _ htype
  · exact h node attrs hget htype

theorem StepsMarked.addStep (h : StepsMarked g) (stepName label stepType : Text) :
    StepsMarked (addStep g stepName label stepType) :=
  h.addNode fun _ _ => rfl

theorem StepsMarked.addOutput (h : StepsMarked g) (stepName column : Text)
    {new : List (String × Text)} (hnew : ∀ e ∈ new, e.1 ≠ "node_type") :
    StepsMarked (addOutput g stepName column new) := by
  apply h.addNode
  intro old htype
  rw [update_append, get?_update_of_notMem hnew] at htype
  simp [update, Dict.get?_set] at htype

theorem StepsMarked.foldl {α : Type} {f : Graph → α → Graph} (h : StepsMarked g)
    (hf : ∀ g x, StepsMarked g → StepsMarked (f g x)) (xs : List α) : StepsMarked (xs.foldl f g) :=
  List.foldlRecOn xs f h fun g hg x _ => hf g x hg

theorem StepsMarked.feedColumns (h : StepsMarked g) (inputStep stepName : Text)
    (columns : List Text) : StepsMarked (columns.foldl (feedColumn inputStep stepName) g) := by
  apply h.foldl
  intro g column hg
  exact hg.addEdge _ _ _

theorem StepsMarked.emitColumns (h : StepsMarked g) (stepName : Text)
    {attrs : Text → List (String × Text)} (hattrs : ∀ column, ∀ e ∈ attrs column, e.1 ≠ "node_type")
    (columns : List Text) : StepsMarked (columns.foldl (emitColumn stepName attrs) g) := by
  apply h.foldl
  intro g column hg
  exact (hg.addOutput stepName column (hattrs column)).addEdge _ _ _

theorem StepsMarked.passColumns (h : StepsMarked g) (inputStep stepName : Text)
    (newName : Text → Text) (columns : List Text) :
    StepsMarked (columns.foldl (passColumnAs inputStep stepName newName) g) := by
  apply h.foldl
  intro g column hg
  have hout : StepsMarked (Lineage.addOutput g stepName (newName column) []) :=
    hg.addOutput _ _ fun _ he => absurd he List.not_mem_nil
  exact (hout.addEdge _ _ _).addEdge _ _ _

theorem StepsMarked.reshape (h : StepsMarked g) (label stepType stepName inputStep : Text)
    (inputColumns outputColumns : List Text) : StepsMarked (recordReshape label stepType stepName
      inputStep inputColumns outputColumns (fun _ => []) g) :=
  ((h.addStep stepName label stepType).feedColumns inputStep stepName inputColumns).emitColumns
    stepName (fun _ _ he => absurd he List.not_mem_nil) outputColumns

theorem StepsMarked.record (h : StepsMarked g) (call : Call) : StepsMarked (record call g) := by
  cases call with
  | load fileId fileName stepName columns dtypes =>
    have hfile : StepsMarked (Lineage.addNode g (fileNodeId fileId)
        [("node_type", "source_file".toList), ("label", fileName), ("step_name", stepName),
          ("file_name", fileName)]) := by
      apply h.addNode
      intro old htype
      simp [update, Dict.get?_set] at htype
    refine ((hfile.addStep stepName _ _).addEdge _ _ _).foldl (fun g column hg => ?_) columns
    refine StepsMarked.addEdge (hg.addNode ?_) _ _ _
    intro old htype
    simp [update, Dict.get?_set] at htype
  | passthrough | rename | deduplicate | fillNulls | sample =>
    exact (h.addStep _ _ _).passColumns _ _ _ _
  | projection stepName inputStep kept dropped =>
    exact ((h.addStep _ _ _).passColumns inputStep stepName id kept).feedColumns _ _ _
  | join stepName leftStep rightStep leftCols rightCols outputCols joinKey how =>
    refine StepsMarked.emitColumns ?_ stepName (fun _ _ he => absurd he List.not_mem_nil) outputCols
    refine StepsMarked.foldl ?_ (fun _ _ hg => hg.addEdge _ _ _) rightCols
    exact (h.addStep _ _ _).foldl (fun _ _ hg => hg.addEdge _ _ _) leftCols
  | aggregate stepName inputStep groupBy aggregations outputCols =>
    refine StepsMarked.emitColumns ?_ stepName (fun _ e he => ?_) outputCols
    · exact ((h.addStep _ _ _).passColumns inputStep stepName id groupBy).feedColumns _ _ _
    · rw [List.mem_singleton.mp he]
      show "source_column" ≠ "node_type"
      decide
  | save stepName inputStep filename columns =>
    refine StepsMarked.addEdge (StepsMarked.feedColumns ?_ _ _ _) _ _ _
    apply (h.addStep _ _ _).addNode
    intro old htype
    simp [update, Dict.get?_set] at htype
  | pivot | unpivot | wasmCompute => exact h.reshape _ _ _ _ _ _

theorem stepsMarked_drawn (calls : List Call) : StepsMarked (drawn calls) :=
  by
  apply StepsMarked.foldl
  · intro node attrs hget
    cases hget
  · exact fun _ call hg => hg.record call

theorem head?_of_isStep {calls : List Call} {node : Text} (h : IsStep (drawn calls) node) :
    node.head? = some 's' := by
  rw [IsStep, attrsOf] at h
  cases hget : (drawn calls).nodes.get? node with
  | none =>
    rw [hget] at h
    cases h
  | some attrs =>
    apply stepsMarked_drawn calls node attrs hget
    rw [hget, Option.getD_some] at h
    cases htype : attrs.get? "node_type" with
    | none =>
      rw [htype] at h
      cases h
    | some nodeType =>
      rw [htype, Option.getD_some] at h
      rw [h]

section Ordered

variable {names : List Text} {calls : List Call} (h : Ordered names calls)
include h

/-- The node of a step that leads somewhere has what the step was recorded with. -/
theorem shows_step {t node : Text} (hadj : (drawn calls).Adj (stepNodeId t) node) :
    Shows ((calls.filter Call.loads).map Call.stepName) (drawn calls) (.step t) := by
  obtain ⟨k, l, ⟨call, hcall, hedge⟩, hid, -⟩ := adj_drawn.mp hadj
  have hhead := k.head?_id
  rw [hid] at hhead
  rcases Call.mem_edges.mp hedge with ⟨_, -, heq⟩ | ⟨_, -, heq⟩ | ⟨_, -, heq⟩ | ⟨_, -, heq⟩
  · cases heq
    cases hhead
  · cases heq
    cases hhead
  · cases heq
    rw [← List.append_cancel_left hid]
    exact h.shows_made hcall List.mem_cons_self
  · cases heq
    rw [← List.append_cancel_left hid]
    exact h.shows_made hcall List.mem_cons_self

theorem isStep_iff {node next : Text} (hadj : (drawn calls).Adj node next) :
    IsStep (drawn calls) node ↔ ∃ t, node = stepNodeId t := by
  constructor
  · intro hstep
    obtain ⟨k, l, -, rfl, -⟩ := adj_drawn.mp hadj
    have hhead := head?_of_isStep hstep
    rw [NodeKey.head?_id, Option.some.injEq] at hhead
    cases k with
    | step t => exact ⟨t, rfl⟩
    | _ => cases hhead
  · rintro ⟨t, rfl⟩
    obtain ⟨attrs, hget, htype, -⟩ := shows_step h hadj
    rw [IsStep, attrsOf, show (drawn calls).nodes.get? (stepNodeId t) = _ from hget,
      Option.getD_some, htype]
    rfl

theorem stepName_transformationStep {t node : Text}
    (hadj : (drawn calls).Adj (stepNodeId t) node) :
    (transformationStep (drawn calls) (stepNodeId t)).stepName = t := by
  obtain ⟨attrs, hget, -, hname⟩ := shows_step h hadj
  rw [transformationStep, attrsOf, show (drawn calls).nodes.get? (stepNodeId t) = _ from hget]
  dsimp only [Option.getD_some]
  rw [hname]
  rfl

/-- The steps that the search notes are those that lead to the column. -/
theorem mem_traceBack_iff {stepName columnName : Text}
    (hnode : colNodeId stepName columnName ∈ (drawn calls).nodes.keys) (node : Text) :
    node ∈ (traceBack (drawn calls) (colNodeId stepName columnName)).stepNodesSeen ↔
      ∃ t, Relation.TransGen (drawn calls).Adj (stepNodeId t) (colNodeId stepName columnName) ∧
        stepNodeId t = node := by
  rw [(mem_traceBack hnode).2, Relation.reflTransGen_iff_eq_or_transGen]
  constructor
  · rintro ⟨heq | hpath, hstep⟩
    · rw [← heq] at hstep
      cases head?_of_isStep hstep
    · obtain ⟨_, hadj, -⟩ := Relation.TransGen.head'_iff.mp hpath
      obtain ⟨t, rfl⟩ := (isStep_iff h hadj).mp hstep
      exact ⟨t, hpath, rfl⟩
  · rintro ⟨t, hpath, rfl⟩
    obtain ⟨_, hadj, -⟩ := Relation.TransGen.head'_iff.mp hpath
    exact ⟨.inr hpath, (isStep_iff h hadj).mpr ⟨t, rfl⟩⟩

end Ordered

/-! ### The chain -/

/-- The steps of a chain are those whose nodes lead to a node, each once and behind all that it
depends on. -/
structure ExactChain (g : Graph) (targetNode : Text) (lineage : ColumnLineage) : Prop where
  mem : ∀ t, t ∈ lineage.transformationChain.map (·.stepName) ↔
    Relation.TransGen g.Adj (stepNodeId t) targetNode
  nodup : (lineage.transformationChain.map (·.stepName)).Nodup
  ordered : (lineage.transformationChain.map (·.stepName)).Pairwise fun s t =>
    ¬ Relation.TransGen g.Adj (stepNodeId t) (stepNodeId s)
  total : lineage.totalSteps = lineage.transformationChain.length

theorem ancestry {names : List Text} {calls : List Call} (h : Ordered names calls)
    (hacyclic : (drawn calls).Acyclic) {topologicalSort : Graph → Option (List Text)}
    (hsort : ∀ g : Graph, g.Acyclic →
      ∃ order, topologicalSort g = some order ∧ g.IsTopologicalOrder order)
    {stepName columnName : Text} (hnode : colNodeId stepName columnName ∈ (drawn calls).nodes.keys) :
    ExactChain (drawn calls) (colNodeId stepName columnName)
      (getColumnAncestry topologicalSort (drawn calls) stepName columnName) := by
  obtain ⟨order, hsome, horder⟩ := hsort _ hacyclic
  rw [getColumnAncestry, if_neg (not_not_intro hnode), hsome, Option.getD_some]
  dsimp only
  have hmem := mem_traceBack_iff h hnode
  have hnodup := (mem_traceBack hnode).1
  generalize (traceBack (drawn calls) (colNodeId stepName columnName)).stepNodesSeen = seen at *
  have hseen : ∀ node ∈ seen, node ∈ (drawn calls).nodes.keys := by
    intro node hseen
    obtain ⟨t, hpath, rfl⟩ := (hmem node).mp hseen
    obtain ⟨_, hadj, -⟩ := Relation.TransGen.head'_iff.mp hpath
    exact ((drawn calls).closed _ hadj).1
  have hperm : (chainNodes order seen).Perm seen := List.mergeSort_perm _ _
  have hordered := pairwise_chainNodes horder hseen
  -- the nodes of the chain, by the names of their steps
  obtain ⟨ts, hts, hpaths⟩ := exists_map_eq fun node hnode => (hmem node).mp (hperm.subset hnode)
  have hnames : ((chainNodes order seen).map (transformationStep (drawn calls))).map
      (·.stepName) = ts := by
    rw [← hts, List.map_map, List.map_map]
    refine (List.map_congr_left fun t ht => ?_).trans (List.map_id ts)
    obtain ⟨_, hadj, -⟩ := Relation.TransGen.head'_iff.mp (hpaths t ht)
    exact stepName_transformationStep h hadj
  rw [← hts] at hperm hordered
  constructor
  case total => rfl
  all_goals
    dsimp only
    rw [hnames]
  · intro t
    constructor
    · exact hpaths t
    · intro hpath
      have hlisted := hperm.mem_iff.mpr ((hmem _).mpr ⟨t, hpath, rfl⟩)
      obtain ⟨t', ht', hid⟩ := List.mem_map.mp hlisted
      rwa [← List.append_cancel_left hid]
  · exact (hperm.nodup_iff.mpr hnodup).of_map _
  · exact List.pairwise_map.mp hordered

/-- For every run of a validated pipeline, whatever its steps find, and every column of its graph,
the chain of the column is exact. -/
theorem column_ancestry_exact (py : Python) (u : Execution.SqlBuilder.Unicode)
    (maxPipelineSteps : Nat) (registeredFileIds : List Text)
    (topologicalSort : Graph → Option (List Text))
    (hsort : ∀ g : Graph, g.Acyclic →
      ∃ order, topologicalSort g = some order ∧ g.IsTopologicalOrder order)
    (config : PipelineConfig) (result : ValidationResult)
    (hvalid : validate py u maxPipelineSteps registeredFileIds config = some result)
    (herrors : result.errors = []) (found : List (Option Columns)) (stepName columnName : Text)
    (hnode : colNodeId stepName columnName ∈ (recordedGraph py config.steps found).nodes.keys) :
    ExactChain (recordedGraph py config.steps found) (colNodeId stepName columnName)
      (getColumnAncestry topologicalSort (recordedGraph py config.steps found) stepName
        columnName) := by
  obtain ⟨names, hnames⟩ := names_of_valid hvalid herrors
  have hacyclic : (recordedGraph py config.steps found).Acyclic :=
    (Recorded.run hvalid herrors hnames (List.nil_append _).symm found
      recorded_empty).acyclic hnames
  rw [recordedGraph_eq] at hnode hacyclic ⊢
  exact ancestry (ordered_of_valid hvalid herrors hnames found) hacyclic hsort hnode

section Examples

/-- The column that is picked comes from the file by way of two steps. -/
theorem column_ancestry_exact_select :
    (traceBack (recordedGraph numberPython selectConfig.steps selectFound)
        (colNodeId "picked".toList "a".toList)).stepNodesSeen =
      ["step::picked".toList, "step::raw".toList] ∧
      ExactChain (recordedGraph numberPython selectConfig.steps selectFound)
        (colNodeId "picked".toList "a".toList)
        (getColumnAncestry DiGraph.topologicalSort
          (recordedGraph numberPython selectConfig.steps selectFound) "picked".toList "a".toList) :=
  ⟨by decide, column_ancestry_exact numberPython asciiText 50 ["f1".toList] DiGraph.topologicalSort
    (fun _ => DiGraph.topologicalSort_of_acyclic) selectConfig clean rfl rfl selectFound _ _
    (by decide)⟩

end Examples

end PipelineIQ.Pipeline.LineageAncestry
