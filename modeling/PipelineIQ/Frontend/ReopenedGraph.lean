import PipelineIQ.Frontend.PlacedSteps
import PipelineIQ.Frontend.SettledConfigs

namespace PipelineIQ.Frontend.ReopenedGraph

open PipelineIQ.Lib PipelineIQ.Lib.Strings PipelineIQ.Lib.Yaml PipelineIQ.Pipeline.Parser
open PipelineIQ.Frontend.PipelineEditor PipelineIQ.Frontend.StepNames PipelineIQ.Frontend.YamlGraph
open PipelineIQ.Frontend.EmittedSteps PipelineIQ.Frontend.FieldKinds PipelineIQ.Frontend.YamlToGraph
open PipelineIQ.Frontend.PlacedSteps

variable {placed : List Placed} {before : List Text} {p : Placed} {index : Nat} {used : List Text}

/-! ### Placed steps and their ids -/

theorem IsName.trim_eq {t : Text} (h : IsName t) : trim t = t := by
  obtain ⟨c, rest, rfl, hc, hrest⟩ := h
  have hword : ∀ d ∈ c :: rest, isWord d = true :=
    List.forall_mem_cons.mpr ⟨isWord_of_isAlpha hc, hrest⟩
  apply drop_both_eq_self
  · exact fun d hd => isWord_not_jsSpace (hword d (List.mem_of_head? hd))
  · exact fun d hd => isWord_not_jsSpace (hword d (List.mem_of_getLast? hd))

theorem FitAll.names (h : FitAll before placed) : (placed.map (·.stepName)).Nodup ∧
    ∀ p ∈ placed, IsName p.stepName ∧ p.stepName.getLast? ≠ some '_' ∧ p.stepName ∉ before := by
  induction h with
  | nil => exact ⟨List.nodup_nil, by rintro p ⟨⟩⟩
  | cons hp _ ih =>
    obtain ⟨hnodup, hall⟩ := ih
    rw [List.map_cons, List.nodup_cons, List.forall_mem_cons]
    refine ⟨⟨?_, hnodup⟩, ⟨hp.isName, hp.noUnderscore, hp.isNew⟩, ?_⟩
    · intro hmem
      obtain ⟨q, hq, heq⟩ := List.mem_map.mp hmem
      exact (hall q hq).2.2 (heq ▸ List.mem_cons_self)
    · intro q hq
      obtain ⟨hname, hlast, hnew⟩ := hall q hq
      exact ⟨hname, hlast, fun hmem => hnew (List.mem_cons_of_mem _ hmem)⟩

/-- The sources of a step are names of steps before it. -/
theorem FitAll.fits (h : FitAll before placed) {earlier later : List Placed}
    (heq : placed = earlier ++ p :: later) : Fits ((earlier.map (·.stepName)).reverse ++ before) p := by
  induction h generalizing earlier with
  | nil => exact absurd heq.symm (List.append_ne_nil_of_right_ne_nil _ (List.cons_ne_nil _ _))
  | cons hp _ ih =>
    cases earlier with
    | nil =>
      cases heq
      exact hp
    | cons first earlier =>
      rw [List.cons_append, List.cons.injEq] at heq
      obtain ⟨rfl, heq⟩ := heq
      have hfits := ih heq
      rwa [List.append_cons, ← List.reverse_cons, ← List.map_cons] at hfits

/-- The ids that names get, one after the other. -/
def nodeIds : Nat → List Text → List Text → List Text
  | _, _, [] => []
  | index, usedIds, stepName :: stepNames =>
    let id := makeNodeId stepName index usedIds
    id :: nodeIds (index + 1) (id :: usedIds) stepNames

theorem makeNodeId_not_mem (stepName : Text) (index : Nat) (usedIds : List Text) :
    makeNodeId stepName index usedIds ∉ usedIds := by
  exact firstUnused_not_mem _ usedIds

theorem makeNodeId_ne_nil (stepName : Text) (index : Nat) (usedIds : List Text) :
    makeNodeId stepName index usedIds ≠ [] := by
  obtain ⟨n, hn⟩ := firstUnused_eq (if normalizedId stepName = [] then
    "step_".toList ++ decimal (index + 1) else normalizedId stepName) usedIds usedIds.length 0
  have hbase : (if normalizedId stepName = [] then "step_".toList ++ decimal (index + 1)
      else normalizedId stepName) ≠ [] := by
    split
    · exact List.append_ne_nil_of_left_ne_nil (by decide) _
    · next hne => exact hne
  rw [makeNodeId, hn]
  cases n with
  | zero => exact hbase
  | succ n => exact List.append_ne_nil_of_left_ne_nil hbase _

theorem length_nodeIds (index : Nat) (usedIds stepNames : List Text) :
    (nodeIds index usedIds stepNames).length = stepNames.length := by
  induction stepNames generalizing index usedIds with
  | nil => rfl
  | cons stepName stepNames ih =>
    rw [nodeIds, List.length_cons, List.length_cons, ih]

theorem nodeIds_new (index : Nat) (usedIds stepNames : List Text) :
    (nodeIds index usedIds stepNames).Nodup ∧
      ∀ id ∈ nodeIds index usedIds stepNames, id ≠ [] ∧ id ∉ usedIds := by
  induction stepNames generalizing index usedIds with
  | nil => exact ⟨List.nodup_nil, by rintro id ⟨⟩⟩
  | cons stepName stepNames ih =>
    obtain ⟨hnodup, hall⟩ := ih (index + 1) (makeNodeId stepName index usedIds :: usedIds)
    rw [nodeIds, List.nodup_cons, List.forall_mem_cons]
    refine ⟨⟨fun hmem => (hall _ hmem).2 List.mem_cons_self, hnodup⟩,
      ⟨makeNodeId_ne_nil _ _ _, makeNodeId_not_mem _ _ _⟩, ?_⟩
    intro id hid
    exact ⟨(hall id hid).1, fun hmem => (hall id hid).2 (List.mem_cons_of_mem _ hmem)⟩

/-- The steps with the ids of the nodes that they are opened as. -/
def numbered (placed : List Placed) : List (Placed × Text) :=
  placed.zip (nodeIds 0 [] (placed.map (·.stepName)))

theorem map_snd_numbered (placed : List Placed) :
    (numbered placed).map Prod.snd = nodeIds 0 [] (placed.map (·.stepName)) := by
  apply List.map_snd_zip
  rw [length_nodeIds, List.length_map]

theorem map_fst_numbered (placed : List Placed) : (numbered placed).map Prod.fst = placed := by
  apply List.map_fst_zip
  rw [length_nodeIds, List.length_map]

/-! ### The nodes -/

/-- The node that a step is opened as. -/
def openedNode (q : Placed × Text) : BuilderNode where
  id := q.2
  type := some "stepNode".toList
  position := ((), ())
  data :=
    { type := some q.1.stepType.value.toList
      name := none
      config := some (extractConfigForUi q.1.stepType.value.toList q.1.step)
      inferredSchema := none
      validationError := none
      label := some q.1.stepName
      backendSupported := some (CanvasEditing.backendSupported q.1.stepType) }
  selected := none
  width := none
  height := none

theorem field_step (p : Placed) {name : String} (h : name ∈ ownFields) : field p.step name =
    Dict.find name ([("name", .text p.stepName), ("type", str p.stepType.value)] ++
      refsFor p.stepType p.sources) :=
  field_emitStep _ _ _ _ h

theorem stepTypeText_step (p : Placed) : stepTypeText p.step = p.stepType.value.toList := by
  have htype : asString (field p.step "type") = p.stepType.value.toList := by
    rw [field_step p (by decide)]
    rfl
  have hknown : StepType.ofNode (.text p.stepType.value.toList) = some p.stepType :=
    ofNode_value p.stepType
  rw [stepTypeText, htype, isVisualStepType, hknown]
  rfl

theorem stepNameText_step (h : IsName p.stepName) (index : Nat) :
    stepNameText p.step index = p.stepName := by
  have hname : asString (field p.step "name") = p.stepName := by
    rw [field_step p (by decide)]
    rfl
  rw [stepNameText, hname, IsName.trim_eq h]
  exact if_neg h.ne_nil

theorem buildNode_step (h : IsName p.stepName) (index : Nat) (used : List Text) :
    buildNode p.step index used = openedNode (p, makeNodeId p.stepName index used) := by
  have hknown : StepType.ofNode (.text p.stepType.value.toList) = some p.stepType :=
    ofNode_value p.stepType
  rw [buildNode, stepTypeText_step, stepNameText_step h, hknown]
  rfl

theorem buildNodes_steps (hnames : ∀ p ∈ placed, IsName p.stepName) (index : Nat)
    (used : List Text) : buildNodes index used (placed.map Placed.step) =
      (placed.zip (nodeIds index used (placed.map (·.stepName)))).map openedNode := by
  induction placed generalizing index used with
  | nil => rfl
  | cons p placed ih =>
    obtain ⟨hp, hnames⟩ := List.forall_mem_cons.mp hnames
    rw [List.map_cons, List.map_cons, buildNodes, nodeIds, buildNode_step hp, ih hnames, List.zip_cons_cons, List.map_cons]
    rfl

/-! ### The edges -/

/-- The id of the step of a name. -/
def idOf (pairs : List (Placed × Text)) (stepName : Text) : Option Text :=
  (pairs.reverse.find? fun q => decide (q.1.stepName = stepName)).map Prod.snd

/-- The edges that the sources of a step are opened as. -/
def openedEdges (pairs : List (Placed × Text)) (q : Placed × Text) : List Edge :=
  ((refFields q.1.stepType).zip q.1.sources).filterMap fun ref =>
    (idOf pairs ref.2).map fun source =>
      toEdge source q.2 ref.1.toList (decide (q.1.stepType = .join))

theorem stepNameToNodeId_opened (pairs : List (Placed × Text)) (stepName : Text) :
    stepNameToNodeId (pairs.map openedNode) stepName = idOf pairs stepName := by
  rw [stepNameToNodeId, idOf, ← List.map_reverse, List.find?_map, Option.map_map]
  have hlabel : (fun node : BuilderNode => decide (node.data.label = some stepName)) ∘ openedNode =
      fun q => decide (q.1.stepName = stepName) := by
    funext q
    simp only [Function.comp_apply, openedNode, Option.some.injEq]
  rw [hlabel]
  rfl

theorem referenceEdge_opened (pairs : List (Placed × Text)) (p : Placed) (id : Text) (handle : String)
    (animated : Bool) {source : Text} (hhandle : handle ∈ ownFields) (htrim : trim source = source)
    (hsource : Dict.find handle ([("name", .text p.stepName), ("type", str p.stepType.value)] ++
      refsFor p.stepType p.sources) = some (.text source)) :
    referenceEdge (pairs.map openedNode) p.step id handle animated =
      ((idOf pairs source).map fun source => toEdge source id handle.toList animated).toList := by
  rw [referenceEdge, field_step _ hhandle, hsource, asString_text, htrim, stepNameToNodeId_opened]
  cases idOf pairs source <;> rfl

theorem idOf_nil {pairs : List (Placed × Text)} (h : ∀ q ∈ pairs, IsName q.1.stepName) :
    idOf pairs [] = none := by
  rw [idOf, Option.map_eq_none_iff, List.find?_eq_none]
  intro q hq
  rw [decide_eq_true_eq]
  exact (h q (List.mem_reverse.mp hq)).ne_nil

/-- The shapes that the sources of a step can have. -/
theorem sources_cases (h : p.sources.length = (refFields p.stepType).length) :
    (p.stepType = .join ∧ ∃ left right, p.sources = [left, right]) ∨
      p.stepType ≠ .join ∧ ((0 < maxInputs p.stepType ∧ ∃ input, p.sources = [input]) ∨
        maxInputs p.stepType = 0 ∧ p.sources = []) := by
  unfold refFields at h
  split at h
  · next hjoin => exact .inl ⟨hjoin, List.length_eq_two.mp h⟩
  · next hjoin =>
    refine .inr ⟨hjoin, ?_⟩
    split at h
    · next hmax => exact .inl ⟨hmax, List.length_eq_one_iff.mp h⟩
    · next hmax => exact .inr ⟨Nat.eq_zero_of_not_pos hmax, List.length_eq_zero_iff.mp h⟩

theorem join_value_iff (t : StepType) : some t.value.toList = some "join".toList ↔ t = .join := by
  cases t <;> decide

theorem stepEdges_opened {pairs : List (Placed × Text)} (hnames : ∀ q ∈ pairs, IsName q.1.stepName)
    {id : Text} (harity : p.sources.length = (refFields p.stepType).length)
    (htrim : ∀ source ∈ p.sources, trim source = source) :
    stepEdges (pairs.map openedNode) p.step (openedNode (p, id)) = openedEdges pairs (p, id) := by
  change (if some p.stepType.value.toList = some "join".toList then
      referenceEdge (pairs.map openedNode) p.step id "left" true ++
        referenceEdge (pairs.map openedNode) p.step id "right" true
    else referenceEdge (pairs.map openedNode) p.step id "input" false) = _
  rw [openedEdges]
  obtain ⟨hjoin, left, right, hsources⟩ | ⟨hjoin, ⟨hmax, input, hsources⟩ | ⟨hmax, hsources⟩⟩ :=
    sources_cases harity
  · rw [if_pos ((join_value_iff _).mpr hjoin)]
    rw [hsources] at htrim
    obtain ⟨hleft, hright⟩ := List.forall_mem_cons.mp htrim
    have hrefs : refsFor p.stepType p.sources = [("left", .text left), ("right", .text right)] := by
      rw [hjoin, hsources]
      rfl
    have hfields : refFields p.stepType = ["left", "right"] := hjoin ▸ rfl
    rw [referenceEdge_opened pairs p id "left" true (by decide) hleft (by rw [hrefs]; rfl),
      referenceEdge_opened pairs p id "right" true (by decide) (hright _ List.mem_cons_self)
        (by rw [hrefs]; rfl),
      hfields, hsources, decide_eq_true hjoin]
    cases hl : idOf pairs left <;> cases hr : idOf pairs right <;> simp [hl, hr]
  · rw [if_neg (mt (join_value_iff _).mp hjoin)]
    rw [hsources] at htrim
    have hfields : refFields p.stepType = ["input"] := by rw [refFields, if_neg hjoin, if_pos hmax]
    have hrefs : refsFor p.stepType p.sources = [("input", .text input)] := by
      rw [refsFor, hfields, hsources]
      rfl
    rw [referenceEdge_opened pairs p id "input" false (by decide) (htrim _ List.mem_cons_self)
        (by rw [hrefs]; rfl),
      hfields, hsources, decide_eq_false hjoin]
    cases hi : idOf pairs input <;> simp [hi]
  · rw [if_neg (mt (join_value_iff _).mp hjoin)]
    have hfields : refFields p.stepType = [] := by
      rw [refFields, if_neg hjoin, if_neg (Nat.not_lt.mpr hmax.le)]
    have hrefs : refsFor p.stepType p.sources = [] := by
      rw [refsFor, hfields]
      rfl
    have habsent : asString (field p.step "input") = [] := by
      rw [field_step p (by decide), hrefs]
      rfl
    rw [referenceEdge, habsent, stepNameToNodeId_opened, hsources, hfields]
    have hnone : idOf pairs (trim []) = none := idOf_nil hnames
    rw [hnone]
    rfl

/-! ### The canvas of a written text -/

theorem Fits.trim_source (h : FitAll [] placed) (hp : p ∈ placed) :
    ∀ source ∈ p.sources, trim source = source := by
  intro source hsource
  by_cases hnil : source = []
  · rw [hnil]
    rfl
  · obtain ⟨earlier, later, heq⟩ := List.append_of_mem hp
    have hmem := (FitAll.fits h heq).known source hsource hnil
    rw [List.append_nil, List.mem_reverse] at hmem
    obtain ⟨q, hq, rfl⟩ := List.mem_map.mp hmem
    refine IsName.trim_eq ((FitAll.names h).2 q ?_).1
    rw [heq]
    exact List.mem_append_left _ hq

/-- The name that a pipeline is written with. -/
def writtenName (pipelineName : Text) : Text :=
  if trim pipelineName = [] then "my_pipeline".toList else trim pipelineName

/-- The canvas that placed steps are opened as. -/
def reopened (pipelineName : Text) (placed : List Placed) : BuilderGraph where
  pipelineName := writtenName pipelineName
  nodes := (numbered placed).map openedNode
  edges := (numbered placed).flatMap (openedEdges (numbered placed))

theorem isName_of_numbered (h : FitAll [] placed) {q : Placed × Text} (hq : q ∈ numbered placed) :
    q.1 ∈ placed ∧ IsName q.1.stepName := by
  have hmem : q.1 ∈ placed := map_fst_numbered placed ▸ List.mem_map_of_mem hq
  exact ⟨hmem, ((FitAll.names h).2 q.1 hmem).1⟩

theorem buildGraphFromSteps_placed (h : FitAll [] placed) (pipelineName : Text) :
    buildGraphFromSteps (writtenName pipelineName) ((placed.map Placed.step).map .map) =
      reopened pipelineName placed := by
  have hsteps : ((placed.map Placed.step).map Yaml.Node.map).map (fun step => toRecord (some step)) =
      placed.map Placed.step := by
    rw [List.map_map]
    exact List.map_id _
  have hnodes : buildNodes 0 [] (placed.map Placed.step) = (numbered placed).map openedNode :=
    buildNodes_steps (fun p hp => ((FitAll.names h).2 p hp).1) 0 []
  have hzip : (placed.map Placed.step).zip ((numbered placed).map openedNode) =
      (numbered placed).map fun q => (q.1.step, openedNode q) := by
    have hmap : placed.map Placed.step = (numbered placed).map fun q => q.1.step := by
      conv_lhs => rw [← map_fst_numbered placed]
      rw [List.map_map]
      rfl
    rw [hmap, List.zip_map']
  rw [buildGraphFromSteps, hsteps, hnodes, buildEdges, hzip, reopened, List.flatMap_map]
  congr 1
  apply List.flatMap_congr
  intro q hq
  obtain ⟨hmem, -⟩ := isName_of_numbered h hq
  obtain ⟨earlier, later, heq⟩ := List.append_of_mem hmem
  exact stepEdges_opened (fun q hq => (isName_of_numbered h hq).2) (FitAll.fits h heq).arity
    (Fits.trim_source h hmem)

theorem trim_writtenName (pipelineName : Text) : trim (writtenName pipelineName) = writtenName pipelineName := by
  unfold writtenName
  split
  · decide
  · exact trim_trim pipelineName

theorem writtenName_ne_nil (pipelineName : Text) : writtenName pipelineName ≠ [] := by
  unfold writtenName
  split
  · decide
  · next hne => exact hne

variable {js : JsYaml}

/-- The reader reads the text of a document as the document. -/
structure Reads (js : JsYaml) (pipelineName : Text) (steps : List Entries) : Prop where
  load : js.load (js.dump (.map (graphDocument pipelineName steps))) =
    .ok (.map (graphDocument pipelineName steps))
  notBlank : trim (js.dump (.map (graphDocument pipelineName steps))) ≠ []

theorem yamlToGraph_of_load {text name : Text} {root pipeline : Entries} {steps : List Yaml.Node}
    (hblank : trim text ≠ []) (hload : js.load text = .ok (.map root))
    (hpipeline : field root "pipeline" = some (.map pipeline))
    (hname : trim (asString (field pipeline "name")) = name) (hne : name ≠ [])
    (hsteps : asArray (field pipeline "steps") = steps) (hsome : steps ≠ []) :
    yamlToGraph js text = buildGraphFromSteps name steps := by
  have hnullish : nullish (field root "pipeline") (.map root) = .map pipeline := by
    rw [hpipeline]
    exact nullish_of_ne_null (by rintro ⟨⟩) _
  rw [yamlToGraph, parseYamlWithDiagnostics, if_neg hblank, hload]
  dsimp only
  rw [hnullish, toRecord_map, hname, hsteps, if_neg hsome, if_neg hne]

theorem yamlToGraph_written {pipelineName : Text} (h : FitAll [] placed) (hne : placed ≠ [])
    (hreads : Reads js pipelineName (placed.map Placed.step)) :
    yamlToGraph js (js.dump (.map (graphDocument pipelineName (placed.map Placed.step)))) =
      reopened pipelineName placed := by
  have hpipeline : field (graphDocument pipelineName (placed.map Placed.step)) "pipeline" =
      some (.map (record [("name", orText (trim pipelineName) "my_pipeline"),
        ("steps", .seq ((placed.map Placed.step).map .map))])) := by
    rw [graphDocument, field_record]
    rfl
  have hname : trim (asString (field (record [("name", orText (trim pipelineName) "my_pipeline"),
      ("steps", .seq ((placed.map Placed.step).map .map))]) "name")) = writtenName pipelineName := by
    rw [field_record]
    exact trim_writtenName pipelineName
  have hsteps : asArray (field (record [("name", orText (trim pipelineName) "my_pipeline"),
      ("steps", .seq ((placed.map Placed.step).map .map))]) "steps") =
        (placed.map Placed.step).map .map := by
    rw [field_record]
    rfl
  have hsome : (placed.map Placed.step).map Yaml.Node.map ≠ [] := by
    simpa only [ne_eq, List.map_eq_nil_iff] using hne
  rw [yamlToGraph_of_load hreads.notBlank hreads.load hpipeline hname (writtenName_ne_nil _) hsteps
    hsome, buildGraphFromSteps_placed h]

end PipelineIQ.Frontend.ReopenedGraph
