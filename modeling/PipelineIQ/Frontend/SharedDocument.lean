import Mathlib.Data.List.Find
import PipelineIQ.Frontend.CanvasNames
import PipelineIQ.Lib.Spelling

namespace PipelineIQ.Frontend.SharedDocument

open PipelineIQ.Lib PipelineIQ.Lib.Strings PipelineIQ.Lib.Yaml PipelineIQ.Pipeline.Parser
open PipelineIQ.Frontend.PipelineEditor PipelineIQ.Frontend.StepNames PipelineIQ.Frontend.YamlGraph
open PipelineIQ.Frontend.EmittedSteps PipelineIQ.Frontend.CanvasNames

/-! A canvas that went through the document that its editors share. -/

variable {R : Type}

def sharedNode (node : PipelineEditor.Node R Entries) : PipelineEditor.Node R Entries :=
  deserializeNode (serializeNode node)

def sharedEdge (edge : Edge) : Edge := deserializeEdge (serializeEdge edge)

variable {g : CanvasGraph R} {stepNames : Dict Text Text} {used : List Text} {index : Nat}

/-! ### The names of steps without a label -/

/-- The name that a step without a label asks for. -/
def defaultName (t : StepType) (index : Nat) : Text := t.value.toList ++ '_' :: decimal (index + 1)

/-- The name that a step asks for. -/
def wantedName (node : PipelineEditor.Node R Entries) (t : StepType) (index : Nat) : Text :=
  textOr node.data.label (defaultName t index)

theorem isName_of_spelled {t : Text}
    (h : (t.head?.any Char.isAlpha && t.tail.all isWord) = true) : IsName t := by
  rw [Bool.and_eq_true] at h
  cases t with
  | nil => cases h.1
  | cons c rest => exact ⟨c, rest, rfl, h.1, List.all_eq_true.mp h.2⟩

theorem isName_value (t : StepType) : IsName t.value.toList := by
  apply isName_of_spelled
  cases t <;> decide

theorem getLast?_decimal (n : Nat) : ∃ d, (decimal n).getLast? = some d ∧ d.isDigit = true := by
  have hne : decimal n ≠ [] := Nat.toDigits_ne_nil
  refine ⟨(decimal n).getLast hne, List.getLast?_eq_some_getLast hne, ?_⟩
  exact Nat.isDigit_of_mem_toDigits (by decide) (by decide) (List.getLast_mem hne)

theorem getLast?_defaultName (t : StepType) (index : Nat) :
    ∃ d, (defaultName t index).getLast? = some d ∧ d.isDigit = true := by
  obtain ⟨d, hd, hdigit⟩ := getLast?_decimal (index + 1)
  refine ⟨d, ?_, hdigit⟩
  rw [defaultName, List.getLast?_append, List.getLast?_cons, hd]
  rfl

theorem isName_defaultName (t : StepType) (index : Nat) : IsName (defaultName t index) := by
  obtain ⟨c, rest, hvalue, hc, hrest⟩ := isName_value t
  refine ⟨c, rest ++ '_' :: decimal (index + 1), by rw [defaultName, hvalue, List.cons_append], hc, ?_⟩
  intro d hd
  rcases List.mem_append.mp hd with hd | hd
  · exact hrest d hd
  · rcases List.mem_cons.mp hd with rfl | hd
    · rfl
    · exact isWord_decimal _ d hd

theorem not_underscore_mem_decimal (n : Nat) : '_' ∉ decimal n := by
  intro h
  have hdigit := Nat.isDigit_of_mem_toDigits (by decide) (by decide) h
  revert hdigit
  decide

theorem defaultName_index {t t' : StepType} {i j : Nat} (h : defaultName t i = defaultName t' j) :
    i = j := by
  have hdecimal := (append_mark_inj (not_underscore_mem_decimal _)
    (not_underscore_mem_decimal _) h).2
  exact Nat.succ.inj (decimal_injective hdecimal)

theorem baseName_defaultName (t : StepType) (index i : Nat) :
    baseName (defaultName t index) i = defaultName t index := by
  refine (isName_defaultName t index).baseName_eq ?_ i
  obtain ⟨d, hd, hdigit⟩ := getLast?_defaultName t index
  rw [hd]
  rintro ⟨⟩
  revert hdigit
  decide

/-- The names of steps without labels, at smaller positions. -/
def DefaultsBelow (index : Nat) (used : List Text) : Prop :=
  ∀ name ∈ used, ∃ t i, i < index ∧ name = defaultName t i

theorem DefaultsBelow.not_mem (h : DefaultsBelow index used) (t : StepType) :
    defaultName t index ∉ used := by
  intro hmem
  obtain ⟨t', i, hi, heq⟩ := h _ hmem
  exact absurd (defaultName_index heq) (Nat.ne_of_gt hi)

theorem DefaultsBelow.cons (h : DefaultsBelow index used) (t : StepType) :
    DefaultsBelow (index + 1) (defaultName t index :: used) := by
  intro name hname
  rcases List.mem_cons.mp hname with rfl | hname
  · exact ⟨t, index, Nat.lt_succ_self index, rfl⟩
  · obtain ⟨t', i, hi, heq⟩ := h name hname
    exact ⟨t', i, Nat.lt_succ_of_lt hi, heq⟩

theorem sanitize_defaultName (h : DefaultsBelow index used) (t : StepType) :
    sanitizeStepName (defaultName t index) index used = defaultName t index := by
  have hbase := baseName_defaultName t index index
  rw [sanitizeStepName_of_not_mem (by rw [hbase]; exact h.not_mem t), hbase]

/-- A type's own word ends in a letter. -/
theorem getLast?_value (t : StepType) : ∃ d, t.value.toList.getLast? = some d ∧ d.isDigit = false := by
  cases t <;> exact ⟨_, rfl, by decide⟩

/-- Among such names, only a base that is the wanted name leads to it. -/
theorem baseName_of_sanitize (h : DefaultsBelow index used) {rawName : Text} {t : StepType}
    (heq : sanitizeStepName rawName index used = defaultName t index) :
    baseName rawName index = defaultName t index := by
  by_cases hmem : baseName rawName index ∈ used
  · obtain ⟨t', i, -, hbase⟩ := h _ hmem
    obtain ⟨n, hn⟩ := firstUnused_eq (baseName rawName index) used used.length 0
    rw [sanitizeStepName, hn] at heq
    cases n with
    | zero => exact heq
    | succ n =>
      rw [candidate, defaultName] at heq
      have hvalue := (append_mark_inj (not_underscore_mem_decimal _)
        (not_underscore_mem_decimal _) heq).1
      obtain ⟨d, hd, hdigit⟩ := getLast?_defaultName t' i
      obtain ⟨d', hd', hletter⟩ := getLast?_value t
      rw [← hbase, hvalue, hd'] at hd
      cases hd
      rw [hletter] at hdigit
      cases hdigit
  · rw [← sanitizeStepName_of_not_mem hmem]
    exact heq

/-! ### What the document keeps -/

theorem value_of_stepTypeOf {node : PipelineEditor.Node R Entries} {t : StepType}
    (h : stepTypeOf node = some t) : node.data.type = some t.value.toList := by
  obtain ⟨ty, hty, hof⟩ := Option.bind_eq_some_iff.mp h
  have hvalue := List.find?_some hof
  rw [hty, ← of_decide_eq_true hvalue]

theorem stepTypeOf_shared {node : PipelineEditor.Node R Entries} {t : StepType}
    (h : stepTypeOf node = some t) : stepTypeOf (sharedNode node) = some t := by
  have htype : (sharedNode node).data.type = node.data.type := by
    change some (textOr node.data.type []) = node.data.type
    rw [value_of_stepTypeOf h]
    cases t <;> rfl
  rw [stepTypeOf, htype]
  exact h

theorem config_shared {node : PipelineEditor.Node R Entries} {config : Entries}
    (h : node.data.config = some config) : (sharedNode node).data.config = some config := by
  change some (node.data.config.getD ∅) = some config
  rw [h]
  rfl

theorem nodeById_shared (nodes : List (PipelineEditor.Node R Entries)) (id : Text) :
    nodeById (nodes.map sharedNode) id = (nodeById nodes id).map sharedNode := by
  rw [nodeById, nodeById, ← List.map_reverse, List.find?_map]
  rfl

theorem endpoints_shared (edges : List Edge) : endpoints (edges.map sharedEdge) = endpoints edges := by
  rw [endpoints, endpoints, List.map_map]
  rfl

theorem topologicalSort_shared (sort : Text → Text → Bool)
    (nodes : List (PipelineEditor.Node R Entries)) (edges : List Edge) :
    topologicalSort sort (nodes.map sharedNode) (edges.map sharedEdge) =
      (topologicalSort sort nodes edges).map (List.map sharedNode) := by
  have hids : (nodes.map sharedNode).map (·.id) = nodes.map (·.id) := by
    rw [List.map_map]
    rfl
  rw [topologicalSort, topologicalSort, hids, endpoints_shared, Option.map_map]
  congr 1
  funext order
  rw [Function.comp_apply, List.map_filterMap]
  congr 1
  funext id
  exact nodeById_shared nodes id

theorem incomingEdges_shared (edges : List Edge) (stepNames : Dict Text Text) (id : Text) :
    incomingEdges (edges.map sharedEdge) stepNames id =
      (incomingEdges edges stepNames id).map sharedEdge := by
  rw [incomingEdges, incomingEdges, List.filter_map, List.filter_map]
  rfl

theorem leftEdge_shared (incoming : List Edge) :
    leftEdge (incoming.map sharedEdge) = (leftEdge incoming).map sharedEdge := by
  rw [leftEdge, leftEdge, List.find?_map, List.head?_map, Option.map_or]
  rfl

/-- Two edges that the document holds are told apart by their ids. -/
theorem rightEdge_shared {incoming : List Edge} (hnodup : (incoming.map (·.id)).Nodup) :
    rightEdge (incoming.map sharedEdge) = (rightEdge incoming).map sharedEdge := by
  have hother : ∀ e ∈ incoming,
      decide (some (sharedEdge e) ≠ (leftEdge incoming).map sharedEdge) =
        decide (some e ≠ leftEdge incoming) := by
    intro e he
    rw [decide_eq_decide, not_iff_not]
    cases hleft : leftEdge incoming with
    | none => simp
    | some l =>
      rw [Option.map_some, Option.some.injEq, Option.some.injEq]
      constructor
      · intro h
        have hid : (sharedEdge e).id = (sharedEdge l).id := congrArg (fun e : Edge => e.id) h
        exact List.inj_on_of_nodup_map hnodup he (mem_of_leftEdge hleft) hid
      · rintro rfl
        rfl
  rw [rightEdge, rightEdge, List.find?_map, List.find?_map, leftEdge_shared, Option.map_or]
  congr 2
  exact List.find?_congr hother

theorem sourceName_shared (stepNames : Dict Text Text) (edge : Option Edge) :
    sourceName stepNames (edge.map sharedEdge) = sourceName stepNames edge := by
  cases edge <;> rfl

theorem references_shared (t : StepType) (stepNames : Dict Text Text) {incoming : List Edge}
    (hnodup : (incoming.map (·.id)).Nodup) :
    references t stepNames (incoming.map sharedEdge) = references t stepNames incoming := by
  rw [references, references, leftEdge_shared, rightEdge_shared hnodup, List.head?_map,
    sourceName_shared, sourceName_shared, sourceName_shared]

theorem emitFrom_shared_cons {node : PipelineEditor.Node R Entries}
    {rest : List (PipelineEditor.Node R Entries)} {t : StepType} {config : Entries} (index : Nat)
    (hnode : node ∈ g.nodes) (ht : stepTypeOf node = some t)
    (hconfig : node.data.config = some config) {stepName : Text}
    (hname : stepName = sanitizeStepName (defaultName t index) index used) :
    emitFrom (g.nodes.map sharedNode) (g.edges.map sharedEdge) index used stepNames
        (sharedNode node :: rest) =
      (emitFrom (g.nodes.map sharedNode) (g.edges.map sharedEdge) (index + 1) (stepName :: used)
        (stepNames.set node.id stepName) rest).map fun steps =>
          emitStep stepName t (references t (stepNames.set node.id stepName)
            (incomingEdges g.edges (stepNames.set node.id stepName) node.id)) config :: steps := by
  subst hname
  have hids : ∀ stepNames : Dict Text Text,
      ((incomingEdges g.edges stepNames node.id).map (·.id)).Nodup := by
    intro stepNames
    have hsub : (incomingEdges g.edges stepNames node.id).Sublist g.edges :=
      (List.filter_sublist).trans List.filter_sublist
    exact (hsub.map (·.id)).nodup g.edge_ids_nodup
  have hself : nodeById (g.nodes.map sharedNode) (sharedNode node).id = some (sharedNode node) := by
    change nodeById (g.nodes.map sharedNode) node.id = some (sharedNode node)
    rw [nodeById_shared, CanvasGraph.nodeById_eq hnode, Option.map_some]
  rw [emitFrom, hself]
  dsimp only [Option.getD_some]
  rw [stepTypeOf_shared ht, config_shared hconfig, Option.map_eq_bind]
  change (emitFrom _ _ _ _ _ _).bind _ = _
  simp only [incomingEdges_shared]
  congr 1
  funext steps
  change some (emitStep _ t (references t _ ((incomingEdges g.edges _ node.id).map sharedEdge)) config ::
    steps) = _
  rw [references_shared t _ (hids _)]
  rfl

/-! ### Names on both sides -/

/-- From a position on, every node wants the name that it gets without its label. -/
def DefaultNamed : Nat → List (PipelineEditor.Node R Entries) → Prop
  | _, [] => True
  | index, node :: rest =>
    (∀ t, stepTypeOf node = some t →
      baseName (wantedName node t index) index = defaultName t index) ∧
    DefaultNamed (index + 1) rest

theorem exists_emitFrom {rest : List (PipelineEditor.Node R Entries)} (index : Nat)
    (hrest : ∀ node ∈ rest, node ∈ g.nodes) :
    ∃ steps, emitFrom g.nodes g.edges index used stepNames rest = some steps := by
  induction rest generalizing index used stepNames with
  | nil => exact ⟨[], rfl⟩
  | cons node rest ih =>
    have hnode := hrest node List.mem_cons_self
    obtain ⟨t, ht⟩ := g.typed node hnode
    obtain ⟨config, hconfig⟩ := g.configured node hnode
    obtain ⟨steps, hsteps⟩ := ih (index + 1) fun n hn => hrest n (List.mem_cons_of_mem _ hn)
    rw [emitFrom_cons index hnode ht hconfig rfl, hsteps]
    exact ⟨_, rfl⟩

theorem emitStep_name_inj {s s' : Text} {t : StepType} {refs refs' : List (String × Yaml.Node)}
    {config : Entries} (h : emitStep s t refs config = emitStep s' t refs' config) : s = s' := by
  have hname := congrArg (fun step => field step "name") h
  rw [field_emitStep _ _ _ _ (by decide), field_emitStep _ _ _ _ (by decide)] at hname
  exact Yaml.Node.text.inj (Option.some.inj hname)

theorem emitFrom_shared_iff {rest : List (PipelineEditor.Node R Entries)}
    (hdefaults : DefaultsBelow index used) (hrest : ∀ node ∈ rest, node ∈ g.nodes) :
    emitFrom (g.nodes.map sharedNode) (g.edges.map sharedEdge) index used stepNames
        (rest.map sharedNode) = emitFrom g.nodes g.edges index used stepNames rest ↔
      DefaultNamed index rest := by
  induction rest generalizing index used stepNames with
  | nil => exact iff_of_true rfl trivial
  | cons node rest ih =>
    have hnode := hrest node List.mem_cons_self
    have hrest' : ∀ n ∈ rest, n ∈ g.nodes := fun n hn => hrest n (List.mem_cons_of_mem _ hn)
    obtain ⟨t, ht⟩ := g.typed node hnode
    obtain ⟨config, hconfig⟩ := g.configured node hnode
    have hsame : ∀ stepName, stepName = sanitizeStepName (wantedName node t index) index used →
        stepName = defaultName t index →
        (emitFrom (g.nodes.map sharedNode) (g.edges.map sharedEdge) index used stepNames
            ((node :: rest).map sharedNode) =
          emitFrom g.nodes g.edges index used stepNames (node :: rest) ↔
            DefaultNamed (index + 1) rest) := by
      intro stepName hwanted hdefault
      have hshared : stepName = sanitizeStepName (defaultName t index) index used := by
        rw [sanitize_defaultName hdefaults, hdefault]
      rw [List.map_cons, emitFrom_shared_cons index hnode ht hconfig hshared,
        emitFrom_cons index hnode ht hconfig hwanted, ← ih (hdefault ▸ hdefaults.cons t) hrest']
      exact (Option.map_injective fun _ _ h => (List.cons.inj h).2).eq_iff
    have hhead : (∀ t', stepTypeOf node = some t' →
        baseName (wantedName node t' index) index = defaultName t' index) ↔
        baseName (wantedName node t index) index = defaultName t index :=
      ⟨fun h => h t ht, fun h t' ht' => Option.some.inj (ht.symm.trans ht') ▸ h⟩
    rw [DefaultNamed, hhead]
    by_cases hbase : baseName (wantedName node t index) index = defaultName t index
    · have hwanted : sanitizeStepName (wantedName node t index) index used = defaultName t index := by
        rw [sanitizeStepName_of_not_mem (by rw [hbase]; exact hdefaults.not_mem t), hbase]
      rw [hsame _ hwanted.symm rfl]
      exact (and_iff_right hbase).symm
    · refine iff_of_false ?_ fun h => hbase h.1
      intro heq
      generalize hname : sanitizeStepName (wantedName node t index) index used = stepName
      obtain ⟨steps, hsteps⟩ := @exists_emitFrom _ g (stepNames.set node.id stepName)
        (stepName :: used) rest (index + 1) hrest'
      rw [List.map_cons, emitFrom_shared_cons index hnode ht hconfig rfl,
        emitFrom_cons index hnode ht hconfig hname.symm, hsteps, Option.map_some] at heq
      obtain ⟨shared, -, hcons⟩ := Option.map_eq_some_iff.mp heq
      have hwanted := emitStep_name_inj (List.cons.inj hcons).1
      rw [sanitize_defaultName hdefaults, ← hname] at hwanted
      exact hbase (baseName_of_sanitize hdefaults hwanted.symm)

/-! ### The YAML on both sides -/

theorem graphDocument_injective (pipelineName : Text) :
    Function.Injective fun steps => Yaml.Node.map (graphDocument pipelineName steps) := by
  intro steps steps' h
  simp only [graphDocument, record, List.map_cons, List.map_nil, Yaml.Node.map.injEq,
    List.cons.injEq, Prod.mk.injEq, Yaml.Node.seq.injEq, and_true, true_and] at h
  exact (List.map_injective_iff.mpr fun _ _ h => Yaml.Node.map.inj h) h

theorem mem_of_topologicalSort {sort : Text → Text → Bool}
    {ordered : List (PipelineEditor.Node R Entries)}
    (h : topologicalSort sort g.nodes g.edges = some ordered) : ∀ node ∈ ordered, node ∈ g.nodes := by
  obtain ⟨order, -, rfl⟩ := Option.map_eq_some_iff.mp h
  intro node hnode
  obtain ⟨id, -, hid⟩ := List.mem_filterMap.mp hnode
  exact List.mem_reverse.mp (List.mem_of_find?_eq_some hid)

/-- Once the nodes are in order, only their names can differ. -/
theorem graphToYAML_shared_iff {dump : Yaml.Node → Text} (hdump : Function.Injective dump)
    {sort : Text → Text → Bool} {ordered : List (PipelineEditor.Node R Entries)}
    (hne : g.nodes ≠ []) (hordered : topologicalSort sort g.nodes g.edges = some ordered)
    (pipelineName : Text) :
    graphToYAML dump sort (g.nodes.map sharedNode) (g.edges.map sharedEdge) pipelineName =
        graphToYAML dump sort g.nodes g.edges pipelineName ↔ DefaultNamed 0 ordered := by
  have hbelow : DefaultsBelow 0 [] := fun name h => nomatch h
  have hsame := @emitFrom_shared_iff _ g ∅ [] 0 ordered hbelow (mem_of_topologicalSort hordered)
  have hwritten : Function.Injective (Option.map fun steps : List Entries =>
      dump (.map (graphDocument pipelineName steps))) :=
    Option.map_injective (hdump.comp (graphDocument_injective pipelineName))
  unfold graphToYAML graphSteps
  rw [List.isEmpty_map, topologicalSort_shared, if_neg (by rwa [List.isEmpty_iff]),
    if_neg (by rwa [List.isEmpty_iff]), hordered, Option.map_some]
  dsimp only
  rw [Option.map_map, Option.map_map]
  exact Iff.trans hwritten.eq_iff hsame

/-- The shared document gives the YAML of the canvas if and only if the canvas has a cycle, or every
step's label asks for the name that the step has without one. -/
theorem shared_yaml_iff (dump : Yaml.Node → Text) (hdump : Function.Injective dump)
    (sort : Text → Text → Bool) (g : CanvasGraph R) (pipelineName : Text) :
    graphToYAML dump sort (g.nodes.map sharedNode) (g.edges.map sharedEdge) pipelineName =
        graphToYAML dump sort g.nodes g.edges pipelineName ↔
      ∀ ordered, topologicalSort sort g.nodes g.edges = some ordered → DefaultNamed 0 ordered := by
  by_cases hempty : g.nodes = []
  · unfold graphToYAML
    rw [hempty]
    refine iff_of_true rfl fun ordered hordered => ?_
    cases ordered with
    | nil => trivial
    | cons node rest =>
      have hnode := mem_of_topologicalSort (hempty ▸ hordered) node List.mem_cons_self
      rw [hempty] at hnode
      cases hnode
  cases hsort : topologicalSort sort g.nodes g.edges with
  | none =>
    unfold graphToYAML graphSteps
    rw [List.isEmpty_map, topologicalSort_shared, hsort]
    exact iff_of_true rfl fun ordered h => nomatch h
  | some ordered =>
    refine (graphToYAML_shared_iff hdump hempty hsort pipelineName).trans ?_
    constructor
    · rintro h _ ⟨⟩
      exact h
    · intro h
      exact h ordered rfl

theorem shared_yaml_iff_join :
    graphToYAML Yaml.Node.spell inOrder (joinCanvas.nodes.map sharedNode)
        (joinCanvas.edges.map sharedEdge) "p".toList =
      graphToYAML Yaml.Node.spell inOrder joinCanvas.nodes joinCanvas.edges "p".toList ↔
    ∀ ordered, topologicalSort inOrder joinCanvas.nodes joinCanvas.edges = some ordered →
      DefaultNamed 0 ordered :=
  shared_yaml_iff Yaml.Node.spell Yaml.Node.spell_injective inOrder joinCanvas "p".toList

/-- One file, with a label of its own. -/
def labelledCanvas : CanvasGraph Unit where
  nodes := [canvasNode ['a'] "raw" "load"]
  edges := []
  ids_nodup := by decide
  id_ne_nil := by
    intro node hnode
    cases List.mem_singleton.mp hnode
    exact List.cons_ne_nil _ _
  edge_ids_nodup := .nil
  typed := by
    intro node hnode
    cases List.mem_singleton.mp hnode
    exact ⟨.load, by decide⟩
  configured := by
    intro node hnode
    cases List.mem_singleton.mp hnode
    exact ⟨[], rfl⟩

/-- After the trip the step is called `load_1`. -/
theorem label_lost :
    graphToYAML Yaml.Node.spell inOrder (labelledCanvas.nodes.map sharedNode)
        (labelledCanvas.edges.map sharedEdge) "p".toList ≠
      graphToYAML Yaml.Node.spell inOrder labelledCanvas.nodes labelledCanvas.edges "p".toList := by
  have hacyclic : labelledCanvas.Acyclic := by
    intro u hcycle
    obtain ⟨v, ⟨-, -, hedge⟩, -⟩ := Relation.TransGen.head'_iff.mp hcycle
    cases hedge
  obtain ⟨ordered, hordered, hperm, -⟩ := CanvasGraph.exists_order inOrder hacyclic
  rw [List.perm_singleton.mp hperm] at hordered
  rw [Ne, graphToYAML_shared_iff Yaml.Node.spell_injective (List.cons_ne_nil _ _) hordered]
  intro hnamed
  exact absurd (hnamed.1 .load (by decide)) (by decide)

end PipelineIQ.Frontend.SharedDocument
