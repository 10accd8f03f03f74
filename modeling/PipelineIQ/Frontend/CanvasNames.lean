import PipelineIQ.Frontend.EmittedSteps

namespace PipelineIQ.Frontend.CanvasNames

open PipelineIQ.Lib PipelineIQ.Lib.Strings PipelineIQ.Lib.Yaml PipelineIQ.Lib.Traverse
open PipelineIQ.Pipeline.Parser PipelineIQ.Pipeline.Validation
open PipelineIQ.Frontend.PipelineEditor PipelineIQ.Frontend.StepNames PipelineIQ.Frontend.YamlGraph
open PipelineIQ.Frontend.EmittedSteps

/-- What the editor shows: nodes and edges with ids of their own, each node with a type and a
configuration. -/
structure CanvasGraph (R : Type) where
  nodes : List (PipelineEditor.Node R Entries)
  edges : List Edge
  ids_nodup : (nodes.map (·.id)).Nodup
  id_ne_nil : ∀ node ∈ nodes, node.id ≠ []
  edge_ids_nodup : (edges.map (·.id)).Nodup
  typed : ∀ node ∈ nodes, ∃ t, stepTypeOf node = some t
  configured : ∀ node ∈ nodes, ∃ config, node.data.config = some config

namespace CanvasGraph

variable {R : Type} (g : CanvasGraph R)

def ids : List Text := g.nodes.map (·.id)

/-- An edge between two nodes of the canvas. -/
def Linked (u v : Text) : Prop := Kahn.Edge g.ids (endpoints g.edges) u v

def Acyclic : Prop := ∀ u, ¬ Relation.TransGen g.Linked u u

/-- The edges into a node from nodes of the canvas. -/
def inputs (id : Text) : List Edge :=
  g.edges.filter fun e => decide (e.target = id) && decide (e.source ∈ g.ids)

/-- Every node has the inputs that its type requires. -/
def Connected : Prop :=
  ∀ node ∈ g.nodes, ∀ t, stepTypeOf node = some t → minInputs t ≤ (g.inputs node.id).length

variable {g}

theorem edges_nodup (g : CanvasGraph R) : g.edges.Nodup := .of_map _ g.edge_ids_nodup

theorem nodeById_eq {node : PipelineEditor.Node R Entries} (h : node ∈ g.nodes) :
    nodeById g.nodes node.id = some node := by
  unfold nodeById
  have hsome : (g.nodes.reverse.find? fun n => decide (n.id = node.id)).isSome := by
    rw [List.find?_isSome]
    exact ⟨node, List.mem_reverse.mpr h, decide_eq_true rfl⟩
  obtain ⟨found, hfound⟩ := Option.isSome_iff_exists.mp hsome
  have hmem := List.mem_reverse.mp (List.mem_of_find?_eq_some hfound)
  have hid := List.find?_some hfound
  rw [decide_eq_true_eq] at hid
  rw [hfound, List.inj_on_of_nodup_map g.ids_nodup hmem h hid]

/-- The order of the nodes: each of them once, and after its inputs. -/
theorem exists_order (sort : Text → Text → Bool) (h : g.Acyclic) :
    ∃ ordered, topologicalSort sort g.nodes g.edges = some ordered ∧ ordered.Perm g.nodes ∧
      Kahn.Forward g.Linked (ordered.map (·.id)) := by
  have hhalts : ∀ id ∈ g.nodes.map (·.id), List.isEmpty id = false := by
    intro id hid
    obtain ⟨node, hnode, rfl⟩ := List.mem_map.mp hid
    exact List.isEmpty_eq_false_iff.mpr (g.id_ne_nil node hnode)
  obtain ⟨order, horder, hperm, hforward⟩ := Kahn.kahn_of_acyclic sort g.ids_nodup hhalts h
  have hids : (order.filterMap (nodeById g.nodes)).map (·.id) = order := by
    have hfound : ∀ id ∈ order, (nodeById g.nodes id).map (·.id) = some id := by
      intro id hid
      obtain ⟨node, hnode, rfl⟩ := List.mem_map.mp (hperm.mem_iff.mp hid)
      rw [nodeById_eq hnode]
      rfl
    rw [List.map_filterMap, List.filterMap_congr hfound, List.filterMap_some]
  have hnodes : (order.filterMap (nodeById g.nodes)).Perm g.nodes := by
    have hall := hperm.filterMap (nodeById g.nodes)
    rw [List.filterMap_map] at hall
    have hself : g.nodes.filterMap (nodeById g.nodes ∘ (·.id)) = g.nodes := by
      have hcongr : g.nodes.filterMap (nodeById g.nodes ∘ (·.id)) = g.nodes.filterMap some :=
        List.filterMap_congr fun node hnode => nodeById_eq hnode
      rw [hcongr, List.filterMap_some]
    rwa [hself] at hall
  refine ⟨order.filterMap (nodeById g.nodes), ?_, hnodes, ?_⟩
  · rw [topologicalSort, horder]
    rfl
  · rw [hids]
    exact hforward

end CanvasGraph

variable {R : Type} {g : CanvasGraph R} {used : List Text} {stepNames : Dict Text Text}

/-! ### References to steps that have a name -/

theorem mem_of_leftEdge {incoming : List Edge} {e : Edge} (h : leftEdge incoming = some e) :
    e ∈ incoming := by
  unfold leftEdge at h
  cases hfind : incoming.find? fun e => decide (e.targetHandle = some "left".toList) with
  | some l =>
    rw [hfind, Option.some_or] at h
    exact Option.some.inj h ▸ List.mem_of_find?_eq_some hfind
  | none =>
    rw [hfind, Option.none_or] at h
    exact List.mem_of_head? h

theorem mem_of_rightEdge {incoming : List Edge} {e : Edge} (h : rightEdge incoming = some e) :
    e ∈ incoming := by
  unfold rightEdge at h
  cases hfind : incoming.find? fun e => decide (e.targetHandle = some "right".toList) with
  | some r =>
    rw [hfind, Option.some_or] at h
    exact Option.some.inj h ▸ List.mem_of_find?_eq_some hfind
  | none =>
    rw [hfind, Option.none_or] at h
    exact List.mem_of_find?_eq_some h

theorem exists_leftEdge {incoming : List Edge} (h : incoming ≠ []) :
    ∃ e, leftEdge incoming = some e := by
  unfold leftEdge
  cases hfind : incoming.find? fun e => decide (e.targetHandle = some "left".toList) with
  | some l => exact ⟨l, rfl⟩
  | none =>
    obtain ⟨e, rest, rfl⟩ := List.exists_cons_of_ne_nil h
    exact ⟨e, rfl⟩

/-- Of two edges one is not the left one. -/
theorem exists_rightEdge {incoming : List Edge} (hnodup : incoming.Nodup)
    (h : 2 ≤ incoming.length) : ∃ e, rightEdge incoming = some e := by
  unfold rightEdge
  cases hfind : incoming.find? fun e => decide (e.targetHandle = some "right".toList) with
  | some r => exact ⟨r, rfl⟩
  | none =>
    rw [Option.none_or, ← Option.isSome_iff_exists, List.find?_isSome]
    match incoming, hnodup, h with
    | a :: b :: rest, hnodup, _ =>
      by_cases ha : some a = leftEdge (a :: b :: rest)
      · refine ⟨b, by simp, decide_eq_true fun hb => ?_⟩
        cases ha.trans hb.symm
        exact (List.nodup_cons.mp hnodup).1 List.mem_cons_self
      · exact ⟨a, List.mem_cons_self, decide_eq_true ha⟩

theorem references_shape (t : StepType) (stepNames : Dict Text Text) (incoming : List Edge) :
    (references t stepNames incoming).map Prod.fst = refFields t := by
  unfold references refFields
  split
  · rfl
  · split <;> rfl

/-- With the required inputs, each from a step that has a name, every reference is one of
those names. -/
theorem references_known {t : StepType} {incoming : List Edge} (hnodup : incoming.Nodup)
    (hrequired : minInputs t ≤ incoming.length)
    (hnamed : ∀ e ∈ incoming, ∃ name ∈ used, stepNames.get? e.source = some name) :
    ∀ ref ∈ references t stepNames incoming, ∃ name ∈ used, ref.2 = .text name := by
  have hsource : ∀ e ∈ incoming, ∃ name ∈ used, sourceName stepNames (some e) = .text name := by
    intro e he
    obtain ⟨name, hname, hget⟩ := hnamed e he
    exact ⟨name, hname, by rw [sourceName, Option.bind_some, hget, Option.getD_some]⟩
  intro ref href
  unfold references at href
  split at href
  · next ht =>
    subst ht
    have hne : incoming ≠ [] := by
      rintro rfl
      exact absurd hrequired (by decide)
    rcases List.mem_cons.mp href with rfl | href
    · obtain ⟨e, he⟩ := exists_leftEdge hne
      rw [he]
      exact hsource e (mem_of_leftEdge he)
    · obtain ⟨e, he⟩ := exists_rightEdge hnodup hrequired
      rw [List.mem_singleton.mp href, he]
      exact hsource e (mem_of_rightEdge he)
  · split at href
    · next hmax =>
      rw [List.mem_singleton.mp href]
      cases incoming with
      | nil => exact absurd hrequired (Nat.not_le.mpr hmax)
      | cons e rest => exact hsource e List.mem_cons_self
    · cases href

/-! ### The steps of a canvas -/

/-- The names given so far: every placed node has one, and each is a used name. -/
structure Named (stepNames : Dict Text Text) (used placed : List Text) : Prop where
  get_placed : ∀ id ∈ placed, ∃ name, stepNames.get? id = some name
  mem_used : ∀ id name, stepNames.get? id = some name → id ∈ placed ∧ name ∈ used

theorem Named.set {placed : List Text} (h : Named stepNames used placed) (id name : Text) :
    Named (stepNames.set id name) (name :: used) (placed ++ [id]) := by
  constructor
  · intro other hmem
    rw [Dict.get?_set]
    split
    · exact ⟨name, rfl⟩
    · next hne =>
      rcases List.mem_append.mp hmem with hmem | hmem
      · exact h.get_placed other hmem
      · exact absurd (List.mem_singleton.mp hmem) hne
  · intro other found hget
    rw [Dict.get?_set] at hget
    split at hget
    · next heq =>
      cases hget
      exact ⟨List.mem_append_right _ (List.mem_singleton.mpr heq), List.mem_cons_self⟩
    · obtain ⟨hplaced, hused⟩ := h.mem_used other found hget
      exact ⟨List.mem_append_left _ hplaced, List.mem_cons_of_mem _ hused⟩

/-- What is left of the order after some placed nodes. -/
def Follows (g : CanvasGraph R) (placed : List Text) (rest : List (PipelineEditor.Node R Entries)) :
    Prop :=
  ∀ earlier node later, rest = earlier ++ node :: later → ∀ u, g.Linked u node.id →
    u ∈ placed ++ earlier.map (·.id)

theorem Follows.tail {placed : List Text} {node : PipelineEditor.Node R Entries}
    {rest : List (PipelineEditor.Node R Entries)} (h : Follows g placed (node :: rest)) :
    Follows g (placed ++ [node.id]) rest := by
  intro earlier other later heq u hu
  have hmem := h (node :: earlier) other later (by rw [heq, List.cons_append]) u hu
  rwa [List.map_cons, ← List.singleton_append, ← List.append_assoc] at hmem

/-- The inputs of the next node come from steps with names. -/
theorem incoming_named {placed : List Text} {node : PipelineEditor.Node R Entries} {name : Text}
    (hacyclic : g.Acyclic) (hnode : node ∈ g.nodes) (hnamed : Named stepNames used placed) :
    ∀ e ∈ incomingEdges g.edges (stepNames.set node.id name) node.id,
      ∃ found ∈ used, (stepNames.set node.id name).get? e.source = some found := by
  intro e he
  unfold incomingEdges at he
  rw [List.mem_filter, List.mem_filter, decide_eq_true_eq] at he
  obtain ⟨⟨hmem, htarget⟩, hsome⟩ := he
  have hid : node.id ∈ g.ids := List.mem_map.mpr ⟨node, hnode, rfl⟩
  have hne : e.source ≠ node.id := by
    intro heq
    have hloop : g.Linked node.id node.id :=
      ⟨hid, hid, List.mem_map.mpr ⟨e, hmem, by rw [heq, htarget]⟩⟩
    exact hacyclic node.id (.single hloop)
  rw [Dict.get?_set, if_neg hne] at hsome ⊢
  obtain ⟨found, hfound⟩ := Option.isSome_iff_exists.mp hsome
  exact ⟨found, (hnamed.mem_used _ _ hfound).2, hfound⟩

/-- None of the inputs of the next node is left out. -/
theorem length_inputs_le {placed : List Text} {node : PipelineEditor.Node R Entries} {name : Text}
    {rest : List (PipelineEditor.Node R Entries)} (hnode : node ∈ g.nodes)
    (hnamed : Named stepNames used placed) (hfollows : Follows g placed (node :: rest)) :
    (g.inputs node.id).length ≤
      (incomingEdges g.edges (stepNames.set node.id name) node.id).length := by
  unfold CanvasGraph.inputs incomingEdges
  rw [List.filter_filter, ← List.countP_eq_length_filter, ← List.countP_eq_length_filter]
  apply List.countP_mono_left
  intro e hmem he
  rw [Bool.and_eq_true, decide_eq_true_eq, decide_eq_true_eq] at he
  obtain ⟨htarget, hsource⟩ := he
  have hlinked : g.Linked e.source node.id :=
    ⟨hsource, List.mem_map.mpr ⟨node, hnode, rfl⟩,
      List.mem_map.mpr ⟨e, hmem, by rw [htarget]⟩⟩
  have hplaced := hfollows [] node rest rfl e.source hlinked
  rw [List.map_nil, List.append_nil] at hplaced
  obtain ⟨found, hfound⟩ := hnamed.get_placed e.source hplaced
  rw [Bool.and_eq_true, decide_eq_true_eq, Dict.get?_set]
  refine ⟨?_, htarget⟩
  split
  · rfl
  · rw [hfound]
    rfl

/-- One node of the order becomes one step. -/
theorem emitFrom_cons {node : PipelineEditor.Node R Entries}
    {rest : List (PipelineEditor.Node R Entries)} {t : StepType} {config : Entries} (index : Nat)
    (hnode : node ∈ g.nodes) (ht : stepTypeOf node = some t) (hconfig : node.data.config = some config)
    {stepName : Text} (hname : stepName = sanitizeStepName
      (textOr node.data.label (t.value.toList ++ '_' :: decimal (index + 1))) index used) :
    emitFrom g.nodes g.edges index used stepNames (node :: rest) =
      (emitFrom g.nodes g.edges (index + 1) (stepName :: used) (stepNames.set node.id stepName)
        rest).map fun steps => emitStep stepName t (references t (stepNames.set node.id stepName)
          (incomingEdges g.edges (stepNames.set node.id stepName) node.id)) config :: steps := by
  subst hname
  rw [emitFrom, CanvasGraph.nodeById_eq hnode]
  dsimp only [Option.getD_some]
  rw [ht, hconfig, Option.map_eq_bind]
  rfl

/-- Emitting the rest of the order writes steps with new names and known references. -/
theorem emitFrom_emitted (hacyclic : g.Acyclic) (hconnected : g.Connected)
    {rest : List (PipelineEditor.Node R Entries)} (index : Nat) {placed : List Text}
    (hrest : ∀ node ∈ rest, node ∈ g.nodes) (hnamed : Named stepNames used placed)
    (hfollows : Follows g placed rest) :
    ∃ steps, emitFrom g.nodes g.edges index used stepNames rest = some steps ∧
      EmittedAll used steps := by
  induction rest generalizing index used stepNames placed with
  | nil => exact ⟨[], rfl, .nil used⟩
  | cons node rest ih =>
    have hnode := hrest node List.mem_cons_self
    obtain ⟨t, ht⟩ := g.typed node hnode
    obtain ⟨config, hconfig⟩ := g.configured node hnode
    rw [emitFrom_cons index hnode ht hconfig rfl]
    generalize hname : sanitizeStepName
      (textOr node.data.label (t.value.toList ++ '_' :: decimal (index + 1))) index used = stepName
    have hnodup : (incomingEdges g.edges (stepNames.set node.id stepName) node.id).Nodup :=
      (g.edges_nodup.filter _).filter _
    have hlength := (hconnected node hnode t ht).trans
      (@length_inputs_le _ _ _ _ _ _ stepName _ hnode hnamed hfollows)
    have hknown := references_known (t := t) hnodup hlength (incoming_named hacyclic hnode hnamed)
    obtain ⟨steps, hsteps, hall⟩ := ih (index + 1)
      (fun n hn => hrest n (List.mem_cons_of_mem _ hn)) (hnamed.set node.id stepName) hfollows.tail
    rw [hsteps]
    refine ⟨_, rfl, .cons (.mk config ?_ ?_ (references_shape _ _ _) hknown) hall⟩
    · exact hname ▸ sanitizeStepName_isName _ _ _
    · exact hname ▸ sanitizeStepName_not_mem _ _ _

theorem graphSteps_emitted (sort : Text → Text → Bool) (hacyclic : g.Acyclic)
    (hconnected : g.Connected) :
    ∃ steps, graphSteps sort g.nodes g.edges = some (some steps) ∧ EmittedAll [] steps := by
  obtain ⟨ordered, hordered, hperm, hforward⟩ := CanvasGraph.exists_order sort hacyclic
  have hfollows : Follows g [] ordered := by
    intro earlier node later heq u hu
    have hmem := hforward (earlier.map (·.id)) node.id (later.map (·.id))
      (by rw [heq, List.map_append, List.map_cons]) u hu
    rwa [List.nil_append]
  have hstart : Named (∅ : Dict Text Text) [] [] := by
    constructor
    · intro id h
      cases h
    · intro id name h
      cases h
  obtain ⟨steps, hsteps, hall⟩ := emitFrom_emitted hacyclic hconnected 0
    (fun node hnode => hperm.mem_iff.mp hnode) hstart hfollows
  refine ⟨steps, ?_, hall⟩
  rw [graphSteps, hordered]
  dsimp only
  rw [hsteps]
  rfl

/-- A node of the canvas as the editor adds it. -/
def canvasNode (id : Text) (label stepType : String) : PipelineEditor.Node Unit Entries :=
  addStepNode id label.toList stepType.toList ((), ()) [] true

def canvasEdge (source target : Text) (targetHandle : String) : Edge where
  id := source ++ target
  source
  target
  sourceHandle := none
  targetHandle := some targetHandle.toList
  animated := none
  style := none

/-- Two files of one label, joined, the right one drawn first. -/
def joinCanvas : CanvasGraph Unit where
  nodes := [canvasNode ['j'] "2 join" "join", canvasNode ['a'] "raw file" "load",
    canvasNode ['b'] "raw file" "load"]
  edges := [canvasEdge ['b'] ['j'] "right", canvasEdge ['a'] ['j'] "left"]
  ids_nodup := by decide
  id_ne_nil := by
    intro node hnode
    simp only [List.mem_cons, List.not_mem_nil, or_false] at hnode
    rcases hnode with rfl | rfl | rfl <;> exact List.cons_ne_nil _ _
  edge_ids_nodup := by decide
  typed := by
    intro node hnode
    simp only [List.mem_cons, List.not_mem_nil, or_false] at hnode
    rcases hnode with rfl | rfl | rfl
    · exact ⟨.join, by decide⟩
    · exact ⟨.load, by decide⟩
    · exact ⟨.load, by decide⟩
  configured := by
    intro node hnode
    simp only [List.mem_cons, List.not_mem_nil, or_false] at hnode
    rcases hnode with rfl | rfl | rfl <;> exact ⟨[], rfl⟩

theorem joinCanvas_acyclic : joinCanvas.Acyclic := by
  have hedge : ∀ u v, joinCanvas.Linked u v → u ≠ ['j'] ∧ v = ['j'] := by
    rintro u v ⟨-, -, he⟩
    simp only [joinCanvas, endpoints, List.map_cons, List.map_nil, List.mem_cons, List.not_mem_nil,
      or_false, Prod.mk.injEq, canvasEdge] at he
    rcases he with ⟨rfl, rfl⟩ | ⟨rfl, rfl⟩ <;> decide
  intro u hcycle
  obtain ⟨v, hfirst, -⟩ := Relation.TransGen.head'_iff.mp hcycle
  obtain ⟨w, -, hlast⟩ := Relation.TransGen.tail'_iff.mp hcycle
  exact (hedge u v hfirst).1 (hedge w u hlast).2

theorem joinCanvas_connected : joinCanvas.Connected := by
  intro node hnode t ht
  simp only [joinCanvas, List.mem_cons, List.not_mem_nil, or_false] at hnode
  rcases hnode with rfl | rfl | rfl
  · cases (show stepTypeOf (canvasNode ['j'] "2 join" "join") = some .join by decide).symm.trans ht
    decide
  · cases (show stepTypeOf (canvasNode ['a'] "raw file" "load") = some .load by decide).symm.trans ht
    exact Nat.zero_le _
  · cases (show stepTypeOf (canvasNode ['b'] "raw file" "load") = some .load by decide).symm.trans ht
    exact Nat.zero_le _

def inOrder (a b : Text) : Bool := decide (String.ofList a ≤ String.ofList b)

def plainPython : Python := ⟨fun _ => "object".toList⟩

end PipelineIQ.Frontend.CanvasNames
