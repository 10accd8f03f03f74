import PipelineIQ.Frontend.TopologicalOrder
import PipelineIQ.Lib.Machine

namespace PipelineIQ.Frontend.CanvasEditing

open PipelineIQ.Lib PipelineIQ.Lib.Strings PipelineIQ.Lib.Yaml PipelineIQ.Pipeline.Parser
open PipelineIQ.Frontend.PipelineEditor PipelineIQ.Frontend.YamlGraph
open PipelineIQ.Frontend.TopologicalOrder

/-! ### Step definitions -/

def label : StepType → String
  | .load => "Load"
  | .filter => "Filter"
  | .join => "Join"
  | .aggregate => "Aggregate"
  | .sort => "Sort"
  | .select => "Select"
  | .transform => "Transform"
  | .validate => "Validate"
  | .save => "Save"
  | .pivot => "Pivot"
  | .unpivot => "Unpivot"
  | .deduplicate => "Deduplicate"
  | .fillNulls => "Fill Nulls"
  | .rename => "Rename"
  | .sample => "Sample"
  | .sql => "SQL"
  | .wasmCompute => "Wasm UDF"
  | .streamConsume => "Stream Consume"
  | .streamPublish => "Stream Publish"

def isTerminal (t : StepType) : Bool := t == .save || t == .streamPublish

def isSource (t : StepType) : Bool := t == .load || t == .streamConsume

def backendSupported (t : StepType) : Bool := t != .transform

/-! ### Connections -/

structure Connection where
  source : Text
  target : Text
  sourceHandle : Option Text
  targetHandle : Option Text

def toEdgeId (source target : Text) (targetHandle : Text) : Text :=
  "e-".toList ++ source ++ '-' :: target ++ '-' :: targetHandle

def leftHandle : Text := "left".toList

def rightHandle : Text := "right".toList

def inputHandle : Text := "input".toList

section Validate

variable {R : Type}

/-- The handle of a join that a connection goes to, where it is free. -/
def joinHandle (targetHandle : Text) (incoming : List Edge) : Except String Text :=
  let usedHandles := incoming.filterMap (·.targetHandle)
  let chosen : Except String Text :=
    if targetHandle ≠ leftHandle ∧ targetHandle ≠ rightHandle then
      if leftHandle ∉ usedHandles then .ok leftHandle
      else if rightHandle ∉ usedHandles then .ok rightHandle
      else .error "Join steps accept only two inputs (left and right)."
    else .ok targetHandle
  match chosen with
  | .error message => .error message
  | .ok handle =>
    if handle ∈ usedHandles then
      .error s!"Join {String.ofList handle} input is already connected."
    else if 2 ≤ incoming.length then .error "Join steps accept only two inputs."
    else .ok handle

/-- The handle of any other step. -/
def inputOf (t : StepType) (incoming : List Edge) : Except String Text :=
  let plural := if 1 < maxInputs t then "s" else ""
  if maxInputs t ≤ incoming.length then
    .error s!"{label t} accepts at most {maxInputs t} input connection{plural}."
  else .ok inputHandle

def targetHandleFor (t : StepType) (targetHandle : Option Text) (incoming : List Edge) :
    Except String Text :=
  if t = .join then joinHandle (targetHandle.getD inputHandle) incoming else inputOf t incoming

/-- `validateConnectionCandidate`: the handle of the target, or the message. -/
def validateConnectionCandidate (connection : Connection)
    (nodes : List (PipelineEditor.Node R Entries)) (edges : List Edge) : Except String Text :=
  let source := connection.source
  let target := connection.target
  if source = [] ∨ target = [] then .error "Invalid connection endpoints."
  else if source = target then .error "A step cannot connect to itself."
  else
    match nodes.find? fun node => decide (node.id = source),
      nodes.find? fun node => decide (node.id = target) with
    | some sourceNode, some targetNode =>
      if sourceNode.data.type = some "save".toList then
        .error "Save steps are terminal and cannot feed downstream steps."
      else
        match stepTypeOf sourceNode, stepTypeOf targetNode with
        | some sourceType, some targetType =>
          if isTerminal sourceType then
            .error s!"{label sourceType} is terminal and cannot have outgoing connections."
          else if isSource targetType then
            .error s!"{label targetType} is a source step and cannot have incoming connections."
          else if maxInputs targetType = 0 then
            .error s!"{label targetType} does not accept upstream inputs."
          else
            let incomingToTarget := edges.filter fun edge => decide (edge.target = target)
            match targetHandleFor targetType connection.targetHandle incomingToTarget with
            | .error message => .error message
            | .ok targetHandle =>
              if edges.any fun edge => decide (edge.source = source ∧ edge.target = target ∧
                  edge.targetHandle.getD inputHandle = targetHandle) then
                .error "This connection already exists."
              else
                let candidate : Edge :=
                  { id := toEdgeId source target targetHandle
                    source
                    sourceHandle := some (connection.sourceHandle.getD "output".toList)
                    target
                    targetHandle := some targetHandle
                    animated := none
                    style := none }
                if topologicalSort nodes (edges ++ [candidate]) = none then
                  .error "This connection would create a cycle."
                else .ok targetHandle
        | _, _ => .error "Unsupported step type in connection."
    | _, _ => .error "Connection references unknown step nodes."

end Validate

/-! ### The editor -/

structure Editor (R : Type) where
  nodes : List (PipelineEditor.Node R Entries) := []
  edges : List Edge := []

/-- A new node, with the id that it is given, a connection, and the two deletions. -/
inductive Event (R : Type) where
  | addStep (stepType : StepType) (id : Text) (position : R × R)
  | connect (connection : Connection)
  | deleteEdge (id : Text)
  | deleteNode (id : Text)

section Edit

variable {R : Type} (defaultConfig : StepType → Entries) (addEdge : Edge → List Edge → List Edge)

def newNode (s : Editor R) (stepType : StepType) (id : Text) (position : R × R) :
    PipelineEditor.Node R Entries :=
  let siblings := s.nodes.filter fun node => decide (node.data.type = some stepType.value.toList)
  addStepNode id ((label stepType).toList ++ '_' :: StepNames.decimal (siblings.length + 1))
    stepType.value.toList position (defaultConfig stepType) (backendSupported stepType)

/-- `handleConnect`. -/
def handleConnect (s : Editor R) (connection : Connection) : Editor R :=
  match validateConnectionCandidate connection s.nodes s.edges with
  | .error _ => s
  | .ok targetHandle =>
    let edge : Edge :=
      { id := toEdgeId connection.source connection.target targetHandle
        source := connection.source
        sourceHandle := some (connection.sourceHandle.getD "output".toList)
        target := connection.target
        targetHandle := some targetHandle
        animated := some (decide (targetHandle = leftHandle ∨ targetHandle = rightHandle))
        style := none }
    { s with edges := addEdge edge s.edges }

def removeEdgeById (edges : List Edge) (edgeId : Text) : List Edge :=
  edges.filter fun edge => decide (edge.id ≠ edgeId)

def handleDeleteNode (s : Editor R) (nodeId : Text) : Editor R where
  nodes := s.nodes.filter fun node => decide (node.id ≠ nodeId)
  edges := s.edges.filter fun edge => decide (edge.source ≠ nodeId ∧ edge.target ≠ nodeId)

/-- One edit; a new node gets an id of the time and of chance, which no node has. -/
def step (s : Editor R) : Event R → Option (Editor R)
  | .addStep stepType id position =>
    if id ≠ [] ∧ id ∉ s.nodes.map (·.id) then
      some { s with nodes := s.nodes ++ [newNode defaultConfig s stepType id position] }
    else none
  | .connect connection => some (handleConnect addEdge s connection)
  | .deleteEdge id => some { s with edges := removeEdgeById s.edges id }
  | .deleteNode id => some (handleDeleteNode s id)

end Edit

/-! ### The invariant -/

section Invariant

variable {R : Type}

def incoming (edges : List Edge) (id : Text) : List Edge :=
  edges.filter fun edge => decide (edge.target = id)

/-- How many edges go to one handle of a node. -/
def atHandle (edges : List Edge) (id handle : Text) : Nat :=
  edges.countP fun edge => decide (edge.target = id ∧ edge.targetHandle = some handle)

/-- What every canvas is that the editor makes. -/
structure Sound (s : Editor R) : Prop where
  ids_nodup : (s.nodes.map (·.id)).Nodup
  id_ne_nil : ∀ node ∈ s.nodes, node.id ≠ []
  acyclic : ∀ u, ¬ Relation.TransGen (Linked s.nodes s.edges) u u
  arity : ∀ node ∈ s.nodes, ∀ t, stepTypeOf node = some t → t ≠ .join →
    (incoming s.edges node.id).length ≤ maxInputs t
  join : ∀ node ∈ s.nodes, stepTypeOf node = some .join →
    atHandle s.edges node.id leftHandle ≤ 1 ∧ atHandle s.edges node.id rightHandle ≤ 1 ∧
      ∀ edge ∈ incoming s.edges node.id,
        edge.targetHandle = some leftHandle ∨ edge.targetHandle = some rightHandle
  ends : ∀ edge ∈ s.edges, ∀ node ∈ s.nodes, ∀ t, stepTypeOf node = some t →
    (node.id = edge.source → isTerminal t = false) ∧ (node.id = edge.target → isSource t = false)
  closed : ∀ edge ∈ s.edges,
    edge.source ∈ s.nodes.map (·.id) ∧ edge.target ∈ s.nodes.map (·.id)

/-- What the connection that is accepted adds. -/
structure Accepted (s : Editor R) (source target handle : Text) : Prop where
  ends : ∃ sourceNode targetNode sourceType targetType,
    s.nodes.find? (fun node => decide (node.id = source)) = some sourceNode ∧
    s.nodes.find? (fun node => decide (node.id = target)) = some targetNode ∧
    stepTypeOf sourceNode = some sourceType ∧ stepTypeOf targetNode = some targetType ∧
    isTerminal sourceType = false ∧ isSource targetType = false ∧
    if targetType = .join then
      (handle = leftHandle ∨ handle = rightHandle) ∧
        handle ∉ (incoming s.edges target).filterMap (·.targetHandle)
    else (incoming s.edges target).length < maxInputs targetType
  sorts : ∃ candidate : Edge, candidate.source = source ∧ candidate.target = target ∧
    topologicalSort s.nodes (s.edges ++ [candidate]) ≠ none

theorem joinHandle_ok {targetHandle handle : Text} {edges : List Edge}
    (h : joinHandle targetHandle edges = .ok handle) :
    (handle = leftHandle ∨ handle = rightHandle) ∧ handle ∉ edges.filterMap (·.targetHandle) := by
  rw [joinHandle] at h
  split at h
  · cases h
  · next chosen hchosen =>
    split at h
    · cases h
    · next hfree =>
      split at h
      · cases h
      · obtain rfl := Except.ok.inj h
        refine ⟨?_, hfree⟩
        split at hchosen
        · split at hchosen
          · exact .inl (Except.ok.inj hchosen).symm
          · split at hchosen
            · exact .inr (Except.ok.inj hchosen).symm
            · cases hchosen
        · next hknown =>
          obtain rfl := Except.ok.inj hchosen
          rwa [not_and_or, not_not, not_not] at hknown

theorem inputOf_ok {t : StepType} {edges : List Edge} {handle : Text}
    (h : inputOf t edges = .ok handle) : edges.length < maxInputs t := by
  rw [inputOf] at h
  split at h
  · cases h
  · next hfew => exact Nat.not_le.mp hfew

theorem accepted_of_ok {s : Editor R} {connection : Connection} {handle : Text}
    (h : validateConnectionCandidate connection s.nodes s.edges = .ok handle) :
    Accepted s connection.source connection.target handle := by
  rw [validateConnectionCandidate] at h
  split at h
  · cases h
  split at h
  · cases h
  split at h
  · next sourceNode targetNode hsource htarget =>
    split at h
    · cases h
    split at h
    · next sourceType targetType hsourceType htargetType =>
      split at h
      · cases h
      next hterminal =>
      split at h
      · cases h
      next hinner =>
      split at h
      · cases h
      dsimp only at h
      split at h
      · cases h
      next found hfound =>
      split at h
      · cases h
      split at h
      · cases h
      next hsorts =>
      obtain rfl := Except.ok.inj h
      refine ⟨⟨sourceNode, targetNode, sourceType, targetType, hsource, htarget, hsourceType,
        htargetType, Bool.eq_false_iff.mpr hterminal, Bool.eq_false_iff.mpr hinner, ?_⟩,
        ⟨_, rfl, rfl, hsorts⟩⟩
      rw [targetHandleFor] at hfound
      by_cases hjoin : targetType = .join
      · rw [if_pos hjoin] at hfound ⊢
        exact joinHandle_ok hfound
      · rw [if_neg hjoin] at hfound ⊢
        exact inputOf_ok hfound
    · cases h
  · cases h

theorem sound_empty : Sound ({} : Editor R) := by
  constructor
  case acyclic =>
    intro u hcycle
    obtain ⟨v, hfirst, -⟩ := Relation.TransGen.head'_iff.mp hcycle
    exact List.not_mem_nil hfirst.1
  all_goals simp

/-- Less of the nodes and of the edges is sound, too, while the edges have their ends. -/
theorem Sound.restrict {s : Editor R} (h : Sound s)
    {nodes : List (PipelineEditor.Node R Entries)} {edges : List Edge}
    (hnodes : nodes.Sublist s.nodes) (hedges : edges.Sublist s.edges)
    (hclosed : ∀ edge ∈ edges, edge.source ∈ nodes.map (·.id) ∧ edge.target ∈ nodes.map (·.id)) :
    Sound ⟨nodes, edges⟩ := by
  constructor <;> dsimp only
  · exact h.ids_nodup.sublist (hnodes.map _)
  · exact fun node hnode => h.id_ne_nil node (hnodes.subset hnode)
  · intro u hcycle
    apply h.acyclic u
    apply hcycle.lift id
    rintro a b ⟨ha, hb, hedge⟩
    exact ⟨(hnodes.map _).subset ha, (hnodes.map _).subset hb, (hedges.map _).subset hedge⟩
  · intro node hnode t ht hjoin
    exact (hedges.filter _).length_le.trans (h.arity node (hnodes.subset hnode) t ht hjoin)
  · intro node hnode ht
    obtain ⟨hleft, hright, hhandles⟩ := h.join node (hnodes.subset hnode) ht
    refine ⟨hedges.countP_le.trans hleft, hedges.countP_le.trans hright, ?_⟩
    exact fun edge hedge => hhandles edge ((hedges.filter _).subset hedge)
  · exact fun edge hedge node hnode => h.ends edge (hedges.subset hedge) node (hnodes.subset hnode)
  · exact hclosed

theorem Sound.addStep {s : Editor R} (h : Sound s) {node : PipelineEditor.Node R Entries}
    (hne : node.id ≠ []) (hnew : node.id ∉ s.nodes.map (·.id)) :
    Sound { s with nodes := s.nodes ++ [node] } := by
  have hunused : ∀ edge ∈ s.edges, edge.source ≠ node.id ∧ edge.target ≠ node.id := by
    intro edge hedge
    obtain ⟨hsource, htarget⟩ := h.closed edge hedge
    exact ⟨ne_of_mem_of_not_mem hsource hnew, ne_of_mem_of_not_mem htarget hnew⟩
  have hnone : incoming s.edges node.id = [] := by
    rw [incoming, List.filter_eq_nil_iff]
    exact fun edge hedge => by simp [(hunused edge hedge).2]
  have hmem : ∀ other ∈ s.nodes ++ [node], other ∈ s.nodes ∨ other = node := by
    intro other hother
    exact (List.mem_append.mp hother).imp_right List.mem_singleton.mp
  constructor <;> dsimp only
  · rw [List.map_append, List.nodup_append]
    refine ⟨h.ids_nodup, List.nodup_singleton _, ?_⟩
    rintro x hx y hy rfl
    rw [List.map_singleton, List.mem_singleton] at hy
    exact hnew (hy ▸ hx)
  · intro other hother
    cases hmem other hother with
    | inl hother => exact h.id_ne_nil other hother
    | inr heq => exact heq ▸ hne
  · intro u hcycle
    apply h.acyclic u
    apply hcycle.lift id
    rintro a b ⟨-, -, hedge⟩
    obtain ⟨edge, hedge', heq⟩ := List.mem_map.mp hedge
    obtain ⟨rfl, rfl⟩ := Prod.mk.inj heq
    exact ⟨(h.closed edge hedge').1, (h.closed edge hedge').2, hedge⟩
  · intro other hother t ht hjoin
    cases hmem other hother with
    | inl hother => exact h.arity other hother t ht hjoin
    | inr heq =>
      rw [heq, hnone]
      exact Nat.zero_le _
  · intro other hother ht
    cases hmem other hother with
    | inl hother => exact h.join other hother ht
    | inr heq =>
      have hzero : ∀ handle, atHandle s.edges node.id handle = 0 := by
        intro handle
        rw [atHandle, List.countP_eq_zero]
        exact fun edge hedge => by simp [(hunused edge hedge).2]
      rw [heq, hnone, hzero, hzero]
      exact ⟨Nat.zero_le 1, Nat.zero_le 1, nofun⟩
  · intro edge hedge other hother t ht
    cases hmem other hother with
    | inl hother => exact h.ends edge hedge other hother t ht
    | inr heq =>
      rw [heq]
      exact ⟨fun hid => absurd hid.symm (hunused edge hedge).1,
        fun hid => absurd hid.symm (hunused edge hedge).2⟩
  · intro edge hedge
    rw [List.map_append]
    exact ⟨List.mem_append_left _ (h.closed edge hedge).1,
      List.mem_append_left _ (h.closed edge hedge).2⟩

theorem of_find {nodes : List (PipelineEditor.Node R Entries)} {id : Text}
    {node : PipelineEditor.Node R Entries}
    (h : nodes.find? (fun node => decide (node.id = id)) = some node) :
    node ∈ nodes ∧ node.id = id := by
  have hid := List.find?_some h
  rw [decide_eq_true_eq] at hid
  exact ⟨List.mem_of_find?_eq_some h, hid⟩

theorem Sound.connect {s : Editor R} (h : Sound s) {edge : Edge} {handle : Text}
    (hhandle : edge.targetHandle = some handle) (haccepted : Accepted s edge.source edge.target handle) :
    Sound { s with edges := s.edges ++ [edge] } := by
  obtain ⟨⟨sourceNode, targetNode, sourceType, targetType, hsource, htarget, hsourceType,
    htargetType, hterminal, hinner, hroom⟩, candidate, hcandidate, hcandidate', hsorts⟩ := haccepted
  obtain ⟨hsource, hsourceId⟩ := of_find hsource
  obtain ⟨htarget, htargetId⟩ := of_find htarget
  have hmem : ∀ e ∈ s.edges ++ [edge], e ∈ s.edges ∨ e = edge := by
    intro e he
    exact (List.mem_append.mp he).imp_right List.mem_singleton.mp
  have heqTarget : ∀ node ∈ s.nodes, node.id = edge.target → node = targetNode := by
    intro node hnode hid
    exact List.inj_on_of_nodup_map h.ids_nodup hnode htarget (hid.trans htargetId.symm)
  constructor <;> dsimp only
  · exact h.ids_nodup
  · exact h.id_ne_nil
  · intro u hcycle
    apply hsorts
    rw [topologicalSort_eq_none_iff h.ids_nodup h.id_ne_nil]
    have hsame : endpoints (s.edges ++ [candidate]) = endpoints (s.edges ++ [edge]) := by
      rw [endpoints, endpoints, List.map_append, List.map_append, List.map_singleton,
        List.map_singleton, hcandidate, hcandidate']
    refine ⟨u, ?_⟩
    unfold Linked at hcycle ⊢
    rwa [hsame]
  · intro node hnode t ht hjoin
    have hold := h.arity node hnode t ht hjoin
    rw [incoming, List.filter_append, List.length_append]
    by_cases hid : node.id = edge.target
    · obtain rfl := heqTarget node hnode hid
      obtain rfl := Option.some.inj (htargetType.symm.trans ht)
      rw [if_neg hjoin, ← hid] at hroom
      have hone : ([edge].filter fun e => decide (e.target = node.id)).length ≤ 1 :=
        List.length_filter_le _ _
      rw [incoming] at hroom
      omega
    · have hnone : [edge].filter (fun e => decide (e.target = node.id)) = [] := by
        rw [List.filter_eq_nil_iff]
        simpa using Ne.symm hid
      rw [hnone]
      exact hold
  · intro node hnode ht
    obtain ⟨hleft, hright, hhandles⟩ := h.join node hnode ht
    by_cases hid : node.id = edge.target
    · obtain rfl := heqTarget node hnode hid
      obtain rfl := Option.some.inj (htargetType.symm.trans ht)
      rw [if_pos rfl, ← hid] at hroom
      obtain ⟨hwhich, hfree⟩ := hroom
      -- the handle of the new edge had none, the other one keeps what it had
      have hcount : ∀ other, atHandle s.edges node.id other ≤ 1 →
          atHandle (s.edges ++ [edge]) node.id other ≤ 1 := by
        intro other hother
        rw [atHandle, List.countP_append]
        by_cases heq : other = handle
        · have hzero : atHandle s.edges node.id other = 0 := by
            rw [atHandle, List.countP_eq_zero]
            intro e he hat
            rw [decide_eq_true_eq] at hat
            apply hfree
            rw [List.mem_filterMap]
            exact ⟨e, List.mem_filter.mpr ⟨he, decide_eq_true hat.1⟩, heq ▸ hat.2⟩
          have hone : [edge].countP (fun e => decide (e.target = node.id ∧
              e.targetHandle = some other)) ≤ 1 := List.countP_le_length
          rw [atHandle] at hzero
          omega
        · have hzero : [edge].countP (fun e => decide (e.target = node.id ∧
              e.targetHandle = some other)) = 0 := by
            rw [List.countP_eq_zero]
            simp [hhandle, Ne.symm heq]
          rw [hzero]
          exact hother
      refine ⟨hcount _ hleft, hcount _ hright, ?_⟩
      intro e he
      obtain ⟨he, hat⟩ := List.mem_filter.mp he
      cases hmem e he with
      | inl hold => exact hhandles e (List.mem_filter.mpr ⟨hold, hat⟩)
      | inr heq =>
        rw [heq, hhandle]
        exact hwhich.imp (congrArg some) (congrArg some)
    · have hnone : ∀ q : Edge → Prop, ∀ [DecidablePred q],
          [edge].countP (fun e => decide (e.target = node.id ∧ q e)) = 0 := by
        intro q _
        rw [List.countP_eq_zero]
        simp [Ne.symm hid]
      rw [atHandle, atHandle, List.countP_append, List.countP_append, hnone, hnone]
      refine ⟨hleft, hright, fun e he => ?_⟩
      obtain ⟨he, hat⟩ := List.mem_filter.mp he
      cases hmem e he with
      | inl hold => exact hhandles e (List.mem_filter.mpr ⟨hold, hat⟩)
      | inr heq =>
        rw [heq, decide_eq_true_eq] at hat
        exact absurd hat.symm hid
  · intro e he node hnode t ht
    cases hmem e he with
    | inl hold => exact h.ends e hold node hnode t ht
    | inr heq =>
      rw [heq]
      constructor
      · intro hid
        have hnode := List.inj_on_of_nodup_map h.ids_nodup hnode hsource (hid.trans hsourceId.symm)
        rw [hnode, hsourceType] at ht
        exact Option.some.inj ht ▸ hterminal
      · intro hid
        rw [heqTarget node hnode hid, htargetType] at ht
        exact Option.some.inj ht ▸ hinner
  · intro e he
    cases hmem e he with
    | inl hold => exact h.closed e hold
    | inr heq =>
      rw [heq]
      exact ⟨List.mem_map.mpr ⟨sourceNode, hsource, hsourceId⟩,
        List.mem_map.mpr ⟨targetNode, htarget, htargetId⟩⟩

variable {defaultConfig : StepType → Entries} {addEdge : Edge → List Edge → List Edge}
  {s t : Editor R} {e : Event R}

theorem Sound.handleConnect (h : Sound s)
    (hadd : ∀ edge edges, addEdge edge edges = edges ∨ addEdge edge edges = edges ++ [edge])
    (connection : Connection) : Sound (handleConnect addEdge s connection) := by
  rw [CanvasEditing.handleConnect]
  split
  · exact h
  · next handle hok =>
    dsimp only
    generalize hedge : (Edge.mk _ _ : Edge) = edge
    cases hadd edge s.edges with
    | inl hsame =>
      rw [hsame]
      exact h
    | inr hnew =>
      rw [hnew]
      subst hedge
      exact h.connect rfl (accepted_of_ok hok)

theorem Sound.step (h : Sound s)
    (hadd : ∀ edge edges, addEdge edge edges = edges ∨ addEdge edge edges = edges ++ [edge])
    (hstep : step defaultConfig addEdge s e = some t) : Sound t := by
  cases e with
  | addStep stepType id position =>
    rw [CanvasEditing.step] at hstep
    split at hstep
    · next hid => exact Option.some.inj hstep ▸ h.addStep hid.1 hid.2
    · cases hstep
  | connect connection => exact Option.some.inj hstep ▸ h.handleConnect hadd connection
  | deleteEdge id =>
    obtain rfl := Option.some.inj hstep
    exact h.restrict (List.Sublist.refl _) List.filter_sublist fun edge hedge =>
      h.closed edge (List.mem_filter.mp hedge).1
  | deleteNode id =>
    obtain rfl := Option.some.inj hstep
    apply h.restrict List.filter_sublist List.filter_sublist
    intro edge hedge
    obtain ⟨hedge, hkept⟩ := List.mem_filter.mp hedge
    rw [decide_eq_true_eq] at hkept
    have hkeeps : ∀ node' ∈ s.nodes.map (·.id), node' ≠ id →
        node' ∈ (s.nodes.filter fun node => decide (node.id ≠ id)).map (·.id) := by
      intro node' hnode' hne
      obtain ⟨node, hnode, rfl⟩ := List.mem_map.mp hnode'
      exact List.mem_map.mpr ⟨node, List.mem_filter.mpr ⟨hnode, decide_eq_true hne⟩, rfl⟩
    exact ⟨hkeeps _ (h.closed edge hedge).1 hkept.1, hkeeps _ (h.closed edge hedge).2 hkept.2⟩

/-- Every canvas that the editor makes by adding steps, connecting them and deleting steps and
connections is sound. The library's `addEdge` adds an edge at the end, or not at all. -/
theorem canvas_sound (defaultConfig : StepType → Entries) (addEdge : Edge → List Edge → List Edge)
    (hadd : ∀ edge edges, addEdge edge edges = edges ∨ addEdge edge edges = edges ++ [edge])
    (events : List (Event R)) (s : Editor R)
    (h : Machine.run (step defaultConfig addEdge) {} events = some s) : Sound s :=
  Machine.invariant_reachable (fun _ _ _ hs hstep => hs.step hadd hstep) sound_empty h

end Invariant

section Examples

/-- `addEdge` of the canvas library: an edge between the same handles is not added again. -/
def addEdgeOnce (edge : Edge) (edges : List Edge) : List Edge :=
  if edges.any fun e => decide (e.source = edge.source ∧ e.target = edge.target ∧
      e.sourceHandle = edge.sourceHandle ∧ e.targetHandle = edge.targetHandle) then edges
  else edges ++ [edge]

theorem addEdgeOnce_or (edge : Edge) (edges : List Edge) :
    addEdgeOnce edge edges = edges ∨ addEdgeOnce edge edges = edges ++ [edge] := by
  rw [addEdgeOnce]
  split
  · exact .inl rfl
  · exact .inr rfl

def exampleLoad : PipelineEditor.Node Unit Entries :=
  newNode (fun _ => []) {} .load ['l'] ((), ())

def exampleNodes : Editor Unit where
  nodes := [exampleLoad, newNode (fun _ => []) { nodes := [exampleLoad] } .filter ['f'] ((), ())]

def exampleConnection (source target : Char) : Connection where
  source := [source]
  target := [target]
  sourceHandle := none
  targetHandle := none

def connectedEdge : Edge where
  id := toEdgeId ['l'] ['f'] inputHandle
  source := ['l']
  sourceHandle := some "output".toList
  target := ['f']
  targetHandle := some inputHandle
  animated := some false
  style := none

theorem example_acyclic (edge : Edge) (hedge : edge.source ≠ edge.target) (u : Text) :
    ¬ Relation.TransGen (Linked exampleNodes.nodes [edge]) u u := by
  intro hcycle
  obtain ⟨v, hfirst, hrest⟩ := Relation.TransGen.head'_iff.mp hcycle
  obtain ⟨w, -, hlast⟩ := Relation.TransGen.tail'_iff.mp hcycle
  have hsource := (Prod.mk.inj (List.mem_singleton.mp hfirst.2.2)).1
  have htarget := (Prod.mk.inj (List.mem_singleton.mp hlast.2.2)).2
  exact hedge (hsource.symm.trans htarget)

theorem example_accepted : validateConnectionCandidate (exampleConnection 'l' 'f')
    exampleNodes.nodes exampleNodes.edges = .ok inputHandle := by
  have hsorts : topologicalSort exampleNodes.nodes
      [{ connectedEdge with animated := none }] ≠ none := by
    rw [Ne, topologicalSort_eq_none_iff (by decide) (by decide), not_exists]
    exact example_acyclic _ (by decide)
  exact if_neg hsorts

/-- Two steps that are connected, and a connection that is not accepted. -/
theorem canvas_sound_pair : ∃ s : Editor Unit,
    s.edges.map (fun edge => (edge.source, edge.target)) = [(['l'], ['f'])] ∧ Sound s := by
  have hconnect : handleConnect addEdgeOnce exampleNodes (exampleConnection 'l' 'f') =
      ⟨exampleNodes.nodes, [connectedEdge]⟩ := by
    rw [handleConnect, example_accepted]
    rfl
  have hrun : Machine.run (step (fun _ => []) addEdgeOnce) {}
      [.addStep .load ['l'] ((), ()), .addStep .filter ['f'] ((), ()),
        .connect (exampleConnection 'l' 'f'), .connect (exampleConnection 'f' 'f')] =
      some ⟨exampleNodes.nodes, [connectedEdge]⟩ := by
    have hload : step (fun _ => []) addEdgeOnce {} (.addStep .load ['l'] ((), ())) =
        some { nodes := [exampleLoad] } := by
      rw [step, if_pos (by decide)]
      rfl
    have hfilter : step (fun _ => []) addEdgeOnce { nodes := [exampleLoad] }
        (.addStep .filter ['f'] ((), ())) = some exampleNodes := by
      rw [step, if_pos (by decide)]
      rfl
    rw [Machine.run, hload, Option.bind_some, Machine.run, hfilter, Option.bind_some, Machine.run,
      step, hconnect]
    rfl
  exact ⟨_, rfl, canvas_sound (fun _ => []) addEdgeOnce addEdgeOnce_or _ _ hrun⟩

end Examples

end PipelineIQ.Frontend.CanvasEditing
