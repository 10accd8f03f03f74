import PipelineIQ.Frontend.CanvasNames
import PipelineIQ.Frontend.TopologicalOrder

namespace PipelineIQ.Frontend.PlacedSteps

open PipelineIQ.Lib PipelineIQ.Lib.Strings PipelineIQ.Lib.Yaml PipelineIQ.Pipeline.Parser
open PipelineIQ.Frontend.PipelineEditor PipelineIQ.Frontend.StepNames PipelineIQ.Frontend.YamlGraph
open PipelineIQ.Frontend.EmittedSteps PipelineIQ.Frontend.CanvasNames PipelineIQ.Frontend.TopologicalOrder

/-! ### Steps with their names and sources -/

/-- A step before its configuration is written: its name, and the names of the steps that it
reads, empty where there is none. -/
structure Placed where
  stepName : Text
  stepType : StepType
  sources : List Text
  config : Entries

def refsFor (t : StepType) (sources : List Text) : List (String × Yaml.Node) :=
  (refFields t).zip (sources.map Yaml.Node.text)

def Placed.step (p : Placed) : Entries :=
  emitStep p.stepName p.stepType (refsFor p.stepType p.sources) p.config

def sourceText (stepNames : Dict Text Text) (edge : Option Edge) : Text :=
  (edge.bind fun e => stepNames.get? e.source).getD []

/-- The names that the incoming edges stand for. -/
def sourcesOf (t : StepType) (stepNames : Dict Text Text) (incoming : List Edge) : List Text :=
  if t = .join then
    [sourceText stepNames (leftEdge incoming), sourceText stepNames (rightEdge incoming)]
  else if 0 < maxInputs t then [sourceText stepNames incoming.head?]
  else []

theorem references_eq (t : StepType) (stepNames : Dict Text Text) (incoming : List Edge) :
    references t stepNames incoming = refsFor t (sourcesOf t stepNames incoming) := by
  unfold references refsFor refFields sourcesOf
  split
  · rfl
  · split <;> rfl

theorem refsFor_own {t : StepType} {sources : List Text} :
    ∀ ref ∈ refsFor t sources, ref.1 ∈ ownFields := by
  intro ref href
  have hmem : ref.1 ∈ refFields t := (List.of_mem_zip href).1
  unfold refFields at hmem
  split at hmem
  · obtain h | h := List.mem_pair.mp hmem
    · exact h ▸ by decide
    · exact h ▸ by decide
  · split at hmem
    · exact List.mem_singleton.mp hmem ▸ by decide
    · cases hmem

section Place

variable {R : Type}

/-- `emitFrom`, but the configurations are left as they are. -/
def placeFrom (nodes : List (PipelineEditor.Node R Entries)) (edges : List Edge) :
    Nat → List Text → Dict Text Text → List (PipelineEditor.Node R Entries) → Option (List Placed)
  | _, _, _, [] => some []
  | index, usedStepNames, stepNames, node :: rest => do
    let resolvedNode := (nodeById nodes node.id).getD node
    let stepType ← stepTypeOf resolvedNode
    let config ← resolvedNode.data.config
    let stepName := sanitizeStepName
      (textOr resolvedNode.data.label (stepType.value.toList ++ '_' :: decimal (index + 1)))
      index usedStepNames
    let stepNames := stepNames.set node.id stepName
    let sources := sourcesOf stepType stepNames (incomingEdges edges stepNames node.id)
    let placed ← placeFrom nodes edges (index + 1) (stepName :: usedStepNames) stepNames rest
    some (⟨stepName, stepType, sources, config⟩ :: placed)

/-- The steps of a canvas in their order, none where it has a cycle. -/
def placedSteps (nodes : List (PipelineEditor.Node R Entries)) (edges : List Edge) :
    Option (List Placed) :=
  (TopologicalOrder.topologicalSort nodes edges).bind (placeFrom nodes edges 0 [] ∅)

variable {nodes rest : List (PipelineEditor.Node R Entries)} {edges : List Edge}
  {placed : List Placed} {stepNames : Dict Text Text} {used before : List Text} {index : Nat}

theorem emitFrom_eq : emitFrom nodes edges index used stepNames rest =
    (placeFrom nodes edges index used stepNames rest).map (List.map Placed.step) := by
  induction rest generalizing index used stepNames with
  | nil => rfl
  | cons node rest ih =>
    rw [emitFrom, placeFrom]
    dsimp only
    cases stepTypeOf ((nodeById nodes node.id).getD node) with
    | none => rfl
    | some t =>
      cases ((nodeById nodes node.id).getD node).data.config with
      | none => rfl
      | some config =>
        simp only [Option.bind_eq_bind, Option.bind_some, ih, references_eq]
        cases placeFrom nodes edges (index + 1) _ _ rest with
        | none => rfl
        | some placed => rfl

theorem graphSteps_of_sort {ordered : List (PipelineEditor.Node R Entries)}
    (h : TopologicalOrder.topologicalSort nodes edges = some ordered) :
    graphSteps Utf16.le nodes edges =
      (placedSteps nodes edges).map fun placed => some (placed.map Placed.step) := by
  rw [TopologicalOrder.topologicalSort] at h
  rw [graphSteps, placedSteps, TopologicalOrder.topologicalSort, h, Option.bind_some]
  dsimp only
  rw [emitFrom_eq, Option.map_map]
  rfl

/-! ### What is placed -/

/-- A step is placed after steps of other names. Its sources are some of theirs, and none has a
right source only. -/
structure Fits (before : List Text) (p : Placed) : Prop where
  isName : IsName p.stepName
  noUnderscore : p.stepName.getLast? ≠ some '_'
  isNew : p.stepName ∉ before
  arity : p.sources.length = (refFields p.stepType).length
  known : ∀ source ∈ p.sources, source ≠ [] → source ∈ before
  leftFirst : p.sources.head? = some [] → ∀ source ∈ p.sources, source = []

inductive FitAll : List Text → List Placed → Prop where
  | nil (before : List Text) : FitAll before []
  | cons {before : List Text} {p : Placed} {placed : List Placed} (h : Fits before p)
      (hrest : FitAll (p.stepName :: before) placed) : FitAll before (p :: placed)

theorem length_sourcesOf (t : StepType) (stepNames : Dict Text Text) (incoming : List Edge) :
    (sourcesOf t stepNames incoming).length = (refFields t).length := by
  unfold sourcesOf refFields
  split
  · rfl
  · split <;> rfl

theorem sourceText_of_mem {incoming : List Edge} {edge : Option Edge}
    (hmem : ∀ e, edge = some e → e ∈ incoming)
    (hnamed : ∀ e ∈ incoming, ∃ name ∈ used, stepNames.get? e.source = some name) :
    sourceText stepNames edge ≠ [] → sourceText stepNames edge ∈ used := by
  intro hne
  cases edge with
  | none => exact absurd rfl hne
  | some e =>
    obtain ⟨name, hname, hget⟩ := hnamed e (hmem e rfl)
    rw [sourceText, Option.bind_some, hget]
    exact hname

theorem sourcesOf_known {t : StepType} {incoming : List Edge}
    (hnamed : ∀ e ∈ incoming, ∃ name ∈ used, stepNames.get? e.source = some name) :
    ∀ source ∈ sourcesOf t stepNames incoming, source ≠ [] → source ∈ used := by
  intro source hsource
  unfold sourcesOf at hsource
  split at hsource
  · obtain rfl | rfl := List.mem_pair.mp hsource
    · exact sourceText_of_mem (fun e => mem_of_leftEdge) hnamed
    · exact sourceText_of_mem (fun e => mem_of_rightEdge) hnamed
  · split at hsource
    · rw [List.mem_singleton.mp hsource]
      exact sourceText_of_mem (fun e => List.mem_of_head?) hnamed
    · cases hsource

/-- Without a left edge there is no edge at all. -/
theorem sourcesOf_leftFirst {t : StepType} {incoming : List Edge} (hnames : ∀ name ∈ used, name ≠ [])
    (hnamed : ∀ e ∈ incoming, ∃ name ∈ used, stepNames.get? e.source = some name)
    (h : (sourcesOf t stepNames incoming).head? = some []) :
    ∀ source ∈ sourcesOf t stepNames incoming, source = [] := by
  unfold sourcesOf at h ⊢
  split at h
  · next hjoin =>
    rw [if_pos hjoin]
    have hnone : incoming = [] := by
      by_contra hne
      obtain ⟨e, he⟩ := exists_leftEdge hne
      obtain ⟨name, hname, hget⟩ := hnamed e (mem_of_leftEdge he)
      rw [he, List.head?_cons, sourceText, Option.bind_some, hget, Option.getD_some,
        Option.some.injEq] at h
      exact hnames name hname h
    subst hnone
    intro source hsource
    obtain rfl | rfl := List.mem_pair.mp hsource <;> rfl
  · next hjoin =>
    rw [if_neg hjoin]
    split at h
    · next hmax =>
      rw [if_pos hmax]
      intro source hsource
      rw [List.mem_singleton.mp hsource]
      exact Option.some.inj h
    · cases h

/-- No edge between two of the nodes leads from a node to itself. -/
def Loopless (nodes : List (PipelineEditor.Node R Entries)) (edges : List Edge) : Prop :=
  ∀ u, ¬ Linked nodes edges u u

theorem incomingEdges_named {node : PipelineEditor.Node R Entries} {name : Text} {ids : List Text}
    (hloop : Loopless nodes edges) (hnode : node ∈ nodes) (hnamed : Named stepNames used ids) :
    ∀ e ∈ incomingEdges edges (stepNames.set node.id name) node.id,
      ∃ found ∈ used, (stepNames.set node.id name).get? e.source = some found := by
  intro e he
  unfold incomingEdges at he
  rw [List.mem_filter, List.mem_filter, decide_eq_true_eq] at he
  obtain ⟨⟨hmem, htarget⟩, hsome⟩ := he
  have hid : node.id ∈ nodes.map (·.id) := List.mem_map_of_mem hnode
  have hne : e.source ≠ node.id := by
    intro heq
    exact hloop node.id ⟨hid, hid, List.mem_map.mpr ⟨e, hmem, by rw [heq, htarget]⟩⟩
  rw [Dict.get?_set, if_neg hne] at hsome ⊢
  obtain ⟨found, hfound⟩ := Option.isSome_iff_exists.mp hsome
  exact ⟨found, (hnamed.mem_used _ _ hfound).2, hfound⟩

theorem getLast_stripUnderscores (t : Text) : (stripUnderscores t).getLast? ≠ some '_' := by
  intro h
  have hne : stripUnderscores t ≠ [] := by
    intro hnil
    rw [hnil] at h
    cases h
  have hlast := List.rdropWhile_last_not (fun c => decide (c = '_'))
    (t.dropWhile fun c => decide (c = '_')) hne
  rw [List.getLast?_eq_some_getLast hne, Option.some.injEq] at h
  exact hlast (decide_eq_true h)

theorem getLast_decimal (front : Text) (n : Nat) : (front ++ decimal n).getLast? ≠ some '_' := by
  have hne : decimal n ≠ [] := Nat.toDigits_ne_nil
  rw [List.getLast?_append_of_ne_nil _ hne]
  intro h
  have hdigit : Char.isDigit '_' = true :=
    Nat.isDigit_of_mem_toDigits (by decide) (by decide) (List.mem_of_getLast? h)
  exact absurd hdigit (by decide)

theorem getLast_baseName (rawName : Text) (index : Nat) :
    (baseName rawName index).getLast? ≠ some '_' := by
  have hbase : (if normalized rawName = [] then "step_".toList ++ decimal (index + 1)
      else normalized rawName).getLast? ≠ some '_' := by
    split
    · exact getLast_decimal _ _
    · exact getLast_stripUnderscores _
  unfold baseName
  generalize (if normalized rawName = [] then "step_".toList ++ decimal (index + 1)
    else normalized rawName) = base at hbase ⊢
  dsimp only
  split
  · next hdigit =>
    rw [List.getLast?_append_of_ne_nil]
    · exact hbase
    · rintro rfl
      cases hdigit
  · exact hbase

theorem getLast_sanitizeStepName (rawName : Text) (index : Nat) (used : List Text) :
    (sanitizeStepName rawName index used).getLast? ≠ some '_' := by
  obtain ⟨n, hn⟩ := firstUnused_eq (baseName rawName index) used used.length 0
  rw [sanitizeStepName, hn]
  cases n with
  | zero => exact getLast_baseName rawName index
  | succ n =>
    rw [candidate, List.append_cons]
    exact getLast_decimal _ _

variable (hids : (nodes.map (·.id)).Nodup)
include hids

theorem placeFrom_cons {node : PipelineEditor.Node R Entries} (hnode : node ∈ nodes)
    (h : placeFrom nodes edges index used stepNames (node :: rest) = some placed) :
    ∃ t config, stepTypeOf node = some t ∧ node.data.config = some config ∧
      ∃ stepName after, stepName = sanitizeStepName
          (textOr node.data.label (t.value.toList ++ '_' :: decimal (index + 1))) index used ∧
        placeFrom nodes edges (index + 1) (stepName :: used) (stepNames.set node.id stepName) rest =
          some after ∧
        placed = ⟨stepName, t, sourcesOf t (stepNames.set node.id stepName)
          (incomingEdges edges (stepNames.set node.id stepName) node.id), config⟩ :: after := by
  rw [placeFrom, TopologicalOrder.nodeById_eq hids hnode] at h
  dsimp only [Option.getD_some] at h
  simp only [Option.bind_eq_bind, Option.bind_eq_some_iff, Option.some.injEq] at h
  obtain ⟨t, ht, config, hconfig, after, hafter, rfl⟩ := h
  exact ⟨t, config, ht, hconfig, _, after, rfl, hafter, rfl⟩

theorem placeFrom_fits (hloop : Loopless nodes edges) (hrest : ∀ node ∈ rest, node ∈ nodes)
    {ids : List Text} (hnamed : Named stepNames used ids) (hnames : ∀ name ∈ used, name ≠ [])
    (h : placeFrom nodes edges index used stepNames rest = some placed) : FitAll used placed := by
  induction rest generalizing index used stepNames placed ids with
  | nil =>
    cases h
    exact .nil used
  | cons node rest ih =>
    obtain ⟨hnode, hrest⟩ := List.forall_mem_cons.mp hrest
    obtain ⟨t, config, -, -, stepName, after, hname, hafter, rfl⟩ := placeFrom_cons hids hnode h
    have hisName : IsName stepName := hname ▸ sanitizeStepName_isName _ _ _
    have hincoming := @incomingEdges_named _ _ _ _ _ _ stepName _ hloop hnode hnamed
    refine .cons ⟨hisName, ?_, ?_, length_sourcesOf _ _ _, sourcesOf_known hincoming,
      sourcesOf_leftFirst hnames hincoming⟩ ?_
    · exact hname ▸ getLast_sanitizeStepName _ _ _
    · exact hname ▸ sanitizeStepName_not_mem _ _ _
    · exact ih hrest (hnamed.set node.id stepName)
        (List.forall_mem_cons.mpr ⟨hisName.ne_nil, hnames⟩) hafter

variable (hne : ∀ node ∈ nodes, node.id ≠ [])
include hne

theorem loopless_of_sort {ordered : List (PipelineEditor.Node R Entries)}
    (h : TopologicalOrder.topologicalSort nodes edges = some ordered) : Loopless nodes edges := by
  intro u hu
  have hnone := (topologicalSort_eq_none_iff hids hne).mpr ⟨u, .single hu⟩
  cases hnone.symm.trans h

theorem placedSteps_fit (h : placedSteps nodes edges = some placed) : FitAll [] placed := by
  obtain ⟨ordered, hordered, hplaced⟩ := Option.bind_eq_some_iff.mp h
  have hperm := ((topologicalSort_eq_some_iff hids hne).mp hordered).2
  have hstart : Named (∅ : Dict Text Text) [] [] := by
    constructor
    · rintro id ⟨⟩
    · rintro id name ⟨⟩
  refine placeFrom_fits hids (loopless_of_sort hids hne hordered) ?_ hstart ?_ hplaced
  · exact fun node hnode => hperm.mem_iff.mp hnode
  · rintro name ⟨⟩

end Place

end PipelineIQ.Frontend.PlacedSteps
