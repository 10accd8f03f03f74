import PipelineIQ.Pipeline.LineageCalls
import PipelineIQ.Pipeline.LineageLayout
import PipelineIQ.Pipeline.ReferenceSoundness

namespace PipelineIQ.Pipeline.LineageRun

open PipelineIQ.Lib PipelineIQ.Lib.Strings PipelineIQ.Lib.Yaml
open PipelineIQ.Pipeline.Lineage PipelineIQ.Pipeline.LineageLayout PipelineIQ.Pipeline.Parser
open PipelineIQ.Pipeline.Validation PipelineIQ.Pipeline.ParserErrors
open PipelineIQ.Pipeline.ReferenceSoundness

/-! ### What a run records -/

/-- The columns that an execution of a step finds: those of its tables, and those that its config
lists, with the name of the loaded file. -/
structure Columns where
  fileName : Text := []
  dtypes : Text → Option Text := fun _ => none
  inputs : List Text := []
  rights : List Text := []
  outputs : List Text := []
  listed : List Text := []
  listedToo : List Text := []
  mapping : Dict Text Text := ∅
  aggregations : List (Text × Text) := []

section Recording

variable (py : Python)

/-- A field of a config in a label or an identifier. -/
def printed (step : StepConfig) (field : String) : Text := py.str (getattr step field)

/-- The call of a step with one input, which has to be a text to be found. -/
def fromInput (step : StepConfig) (call : Text → Call) : Option Call :=
  (getattr step "input").asText.map call

/-- The call of a step under its name. A query step has no executor that records, and the other two
types without one do not run at all. -/
def namedCall (step : StepConfig) (c : Columns) (name : Text) : Option Call :=
  match step.stepType with
  | .inl .load => (getattr step "file_id").asText.map fun fileId =>
      .load fileId c.fileName name c.outputs c.dtypes
  | .inl .filter => fromInput step fun input => .passthrough name "filter".toList input c.outputs
  | .inl .select => fromInput step fun input => .projection name input c.listed c.listedToo
  | .inl .rename => fromInput step fun input => .rename name input c.mapping c.inputs
  | .inl .join => (getattr step "left").asText.bind fun left =>
      (getattr step "right").asText.map fun right =>
        .join name left right c.inputs c.rights c.outputs (printed py step "on")
          (printed py step "how")
  | .inl .aggregate => fromInput step fun input =>
      .aggregate name input c.listed c.aggregations c.outputs
  | .inl .sort => fromInput step fun input => .passthrough name "sort".toList input c.outputs
  | .inl .save => fromInput step fun input => .save name input (printed py step "filename") c.inputs
  | .inl .validate => fromInput step fun input => .passthrough name "validate".toList input c.inputs
  | .inl .pivot => fromInput step fun input =>
      .pivot name input (c.listed.headD []) (printed py step "columns") (printed py step "values")
        c.outputs
  | .inl .unpivot => fromInput step fun input => .unpivot name input c.listed c.listedToo c.outputs
  | .inl .deduplicate => fromInput step fun input => .deduplicate name input c.outputs
  | .inl .fillNulls => fromInput step fun input => .fillNulls name input c.outputs
  | .inl .sample => fromInput step fun input => .sample name input c.outputs
  | .inl .wasmCompute => fromInput step fun input =>
      .wasmCompute name input (printed py step "function") c.listed c.outputs
  | .inl .streamPublish => fromInput step fun input =>
      .passthrough name "stream_publish".toList input c.inputs
  | .inl .sql | .inl .transform | .inl .streamConsume | .inr _ => none

/-- What the executor of a step tells the recorder. -/
def executorCall (step : StepConfig) (c : Columns) : Option Call :=
  step.name.asText.bind (namedCall py step c)

/-- One step of a run; there are no columns where its executor is not the one that records, or does
not get that far. -/
def recordStep (g : Graph) (e : StepConfig × Option Columns) : Graph :=
  match e.2.bind (executorCall py e.1) with
  | some call => record call g
  | none => g

/-- The graph that a run leaves, for whatever its steps found. -/
def recordedGraph (steps : List StepConfig) (found : List (Option Columns)) : Graph :=
  (steps.zip found).foldl (recordStep py) DiGraph.empty

end Recording

/-! ### Runs of validated pipelines -/

section Runs

variable {py : Python} {u : Execution.SqlBuilder.Unicode} {maxPipelineSteps : Nat}
  {registeredFileIds : List Text} {config : PipelineConfig} {step : StepConfig} {c : Columns}
  {call : Call} {names : List Text} {g : Graph} {i : Nat}

theorem eq_text_of_asText {v : Node} {t : Text} (h : v.asText = some t) : v = .text t := by
  cases v with
  | text t' =>
    cases h
    rfl
  | _ => cases h

theorem of_fromInput {make : Text → Call} (h : fromInput step make = some call)
    (hmake : ∀ input, (make input).inputs = [input]) :
    ∀ t ∈ call.inputs, .text t ∈ [getattr step "input"] := by
  obtain ⟨input, hinput, rfl⟩ := Option.map_eq_some_iff.mp h
  intro t ht
  rw [hmake, List.mem_singleton] at ht
  rw [ht, eq_text_of_asText hinput]
  exact List.mem_singleton.mpr rfl

/-- A call is made under the name of the step, and about inputs that the step resolves. -/
theorem of_namedCall {name : Text} (h : namedCall py step c name = some call) :
    call.stepName = name ∧ ∀ t ∈ call.inputs, .text t ∈ resolved step := by
  unfold namedCall at h
  unfold resolved
  cases htype : step.stepType with
  | inr v =>
    rw [htype] at h
    cases h
  | inl type =>
    rw [htype] at h
    cases type with
    | load =>
      obtain ⟨fileId, -, rfl⟩ := Option.map_eq_some_iff.mp h
      exact ⟨rfl, fun t ht => absurd ht List.not_mem_nil⟩
    | join =>
      obtain ⟨left, hleft, hcall⟩ := Option.bind_eq_some_iff.mp h
      obtain ⟨right, hright, rfl⟩ := Option.map_eq_some_iff.mp hcall
      refine ⟨rfl, fun t ht => ?_⟩
      rw [eq_text_of_asText hleft, eq_text_of_asText hright]
      simpa [Call.inputs] using ht
    | sql | transform | streamConsume => cases h
    | _ =>
      refine ⟨?_, of_fromInput h fun _ => rfl⟩
      obtain ⟨input, -, rfl⟩ := Option.map_eq_some_iff.mp h
      rfl

theorem of_executorCall (h : executorCall py step c = some call) :
    step.name = .text call.stepName ∧ ∀ t ∈ call.inputs, .text t ∈ resolved step := by
  obtain ⟨name, hname, hcall⟩ := Option.bind_eq_some_iff.mp h
  obtain ⟨rfl, hinputs⟩ := of_namedCall hcall
  exact ⟨eq_text_of_asText hname, hinputs⟩

/-- What a validated pipeline has for the names of its steps. -/
structure ValidNames (config : PipelineConfig) (names : List Text) : Prop where
  texts : config.steps.map StepConfig.name = names.map Node.text
  nodup : names.Nodup
  colonless : ∀ t ∈ names, ':' ∉ t

/-- A pattern that ends in `$` lets a last newline through, and no colon. -/
theorem colon_notMem_of_isIdentifier {t : Text} (h : isIdentifier t = true) : ':' ∉ t := by
  cases t with
  | nil => exact List.not_mem_nil
  | cons first rest =>
    simp only [isIdentifier, Bool.and_eq_true, List.all_eq_true] at h
    obtain ⟨hfirst, hrest⟩ := h
    have hword : ∀ d : Char, (d.isAlphanum || d == '_') = true → d ≠ ':' := by
      rintro d hd rfl
      revert hd
      decide
    rw [List.mem_cons, not_or]
    constructor
    · rintro rfl
      revert hfirst
      decide
    · intro hcolon
      refine hword ':' (hrest ':' ?_) rfl
      split
      next hlast =>
        rw [← List.dropLast_append_getLast? _ hlast, List.mem_append] at hcolon
        exact hcolon.resolve_right (by decide)
      next => exact hcolon

theorem isIdentifier_of_format {t : Text} (h : stepNameFormat py step = some [])
    (hname : step.name = .text t) (ht : t ≠ []) : isIdentifier t = true := by
  have htruthy : (Node.text t).truthy = true := by
    cases t with
    | nil => exact absurd rfl ht
    | cons first rest => rfl
  rw [stepNameFormat, hname, htruthy] at h
  have hfail := failWhen_nil (Option.some.inj h)
  rw [Bool.not_eq_false'] at hfail
  exact hfail

/-- The names of a validated pipeline are different identifiers. -/
theorem names_of_valid {result : ValidationResult}
    (h : validate py u maxPipelineSteps registeredFileIds config = some result)
    (he : result.errors = []) : ∃ names, ValidNames config names := by
  have hchecks := checks_nil h he
  have hformat := forSteps_nil.mp (hchecks (forSteps (stepNameFormat py)) (by simp [checks]))
  have hname : ∀ step ∈ config.steps, ∃ t, step.name = .text t ∧ ':' ∉ t := by
    intro step hs
    obtain ⟨before, after, hsplit⟩ := List.append_of_mem hs
    have hvalid := validated_steps h he hsplit
    obtain ⟨t, ht, hne⟩ := text_of_isBlank (isBlank_of_required hvalid.required)
    exact ⟨t, ht, colon_notMem_of_isIdentifier (isIdentifier_of_format (hformat step hs) ht hne)⟩
  have htexts : ∀ steps : List StepConfig, (∀ step ∈ steps, ∃ t, step.name = .text t ∧ ':' ∉ t) →
      ∃ names : List Text, steps.map StepConfig.name = names.map Node.text ∧
        ∀ t ∈ names, ':' ∉ t := by
    intro steps hsteps
    induction steps with
    | nil => exact ⟨[], rfl, by rintro t ⟨⟩⟩
    | cons step steps ih =>
      obtain ⟨names, hnames, hcolon⟩ := ih fun s hs => hsteps s (List.mem_cons_of_mem _ hs)
      obtain ⟨t, ht, hfree⟩ := hsteps step List.mem_cons_self
      refine ⟨t :: names, ?_, ?_⟩
      · rw [List.map_cons, List.map_cons, ht, hnames]
      · intro s hs
        rcases List.mem_cons.mp hs with rfl | hs
        · exact hfree
        · exact hcolon s hs
  obtain ⟨names, hnames, hcolon⟩ := htexts config.steps hname
  refine ⟨names, hnames, ?_, hcolon⟩
  obtain ⟨keys, hkeys, hnodup⟩ := names_nodup_of_valid
    (hchecks (checkDuplicateStepNames py) (by simp [checks]))
  have hall : names.map Key.text = keys := by
    rw [hnames, List.mapM_map] at hkeys
    have hpure : names.mapM (Node.toKey ∘ Node.text) = some (names.map Key.text) :=
      Traverse.mapM_some_iff.mpr (List.forall₂_map_right_iff.mpr (List.forall₂_same.mpr fun _ _ => rfl))
    exact Option.some.inj (hpure.symm.trans hkeys)
  rw [← hall] at hnodup
  exact List.Nodup.of_map _ hnodup

/-! ### The invariant of a run -/

/-- Where a node stands in the order of the steps: a file before them all, a step before what
comes out of it. -/
def rank (names : List Text) : NodeKey → Nat
  | .file _ => 0
  | .step stepName => 2 * names.idxOf stepName + 1
  | .column stepName _ | .output stepName _ => 2 * names.idxOf stepName + 2

/-- Every node stands for something of the pipeline, and every edge leads to a higher rank. -/
structure Recorded (names : List Text) (g : Graph) : Prop where
  nodes : ∀ w ∈ g.nodes.keys, ∃ k : NodeKey, k.Of names ∧ k.id = w
  edges : ∀ u v, g.Adj u v → ∃ k l : NodeKey, k.Of names ∧ l.Of names ∧ k.id = u ∧ l.id = v ∧
    rank names k < rank names l

theorem recorded_empty : Recorded names DiGraph.empty :=
  ⟨fun _ h => (List.not_mem_nil h).elim, fun _ _ h => (List.not_mem_nil h).elim⟩

section Call

variable {before after : List Text} (hnodup : (before ++ call.stepName :: after).Nodup)
  (hinputs : ∀ t ∈ call.inputs, t ∈ before)
include hnodup hinputs

/-- The edges of a call lead upwards, as its inputs come before its step. -/
theorem rank_lt {e : Edge} (he : e ∈ call.edges) :
    rank (before ++ call.stepName :: after) e.1 < rank (before ++ call.stepName :: after) e.2 := by
  rcases Call.mem_edges.mp he with ⟨_, -, rfl⟩ | ⟨p, hp, rfl⟩ | ⟨_, -, rfl⟩ | ⟨_, -, rfl⟩
  · exact Nat.succ_pos _
  · have hmem := hinputs _ (Call.fed_inputs hp)
    have hnot : call.stepName ∉ before := fun hs =>
      List.disjoint_of_nodup_append hnodup hs List.mem_cons_self
    have hlt := List.idxOf_lt_length_of_mem hmem
    simp only [rank, List.idxOf_append_of_mem hmem, List.idxOf_append_of_notMem hnot,
      List.idxOf_cons_self]
    omega
  · exact Nat.lt_succ_self _
  · exact Nat.lt_succ_self _

omit hnodup in
theorem of_brought {k : NodeKey} (hk : Brought [.step call.stepName] call.edges k) :
    k.Of (before ++ call.stepName :: after) := by
  have hstep : call.stepName ∈ before ++ call.stepName :: after :=
    List.mem_append_right _ List.mem_cons_self
  rcases hk with hk | ⟨e, he, hk⟩
  · obtain rfl := List.mem_singleton.mp hk
    exact hstep
  · rcases Call.mem_edges.mp he with ⟨_, -, rfl⟩ | ⟨p, hp, rfl⟩ | ⟨_, -, rfl⟩ | ⟨_, -, rfl⟩
    · rcases hk with rfl | rfl
      · trivial
      · exact hstep
    · rcases hk with rfl | rfl
      · exact List.mem_append_left _ (hinputs _ (Call.fed_inputs hp))
      · exact hstep
    · rcases hk with rfl | rfl <;> exact hstep
    · rcases hk with rfl | rfl <;> exact hstep

theorem Recorded.record (h : Recorded (before ++ call.stepName :: after) g) :
    Recorded (before ++ call.stepName :: after) (Lineage.record call g) := by
  constructor
  · intro w hw
    rcases ((draws_record call).node g w).mp hw with hold | ⟨k, hk, hid⟩
    · exact h.nodes w hold
    · exact ⟨k, of_brought hinputs hk, hid⟩
  · intro u v huv
    rcases ((draws_record call).edge g u v).mp huv with hold | ⟨e, he, hu, hv⟩
    · exact h.edges u v hold
    · exact ⟨e.1, e.2, of_brought hinputs (.inr ⟨e, he, .inl rfl⟩),
        of_brought hinputs (.inr ⟨e, he, .inr rfl⟩), hu, hv, rank_lt hnodup hinputs he⟩

end Call

/-- The names before and after a step of the pipeline. -/
theorem ValidNames.split (h : ValidNames config names) {before after : List StepConfig}
    (hsteps : config.steps = before ++ step :: after) : ∃ earlier name later,
      names = earlier ++ name :: later ∧ step.name = .text name ∧
        before.map StepConfig.name = earlier.map Node.text := by
  have htexts := h.texts
  rw [hsteps, List.map_append, List.map_cons, eq_comm, List.map_eq_append_iff] at htexts
  obtain ⟨earlier, rest, hnames, hearlier, hrest⟩ := htexts
  obtain ⟨name, later, rfl, hname, -⟩ := List.map_eq_cons_iff.mp hrest
  exact ⟨earlier, name, later, hnames, hname.symm, hearlier.symm⟩

/-- The name of a call has its place among the names, behind those of its inputs. -/
def Placed (names : List Text) (call : Call) : Prop :=
  ∃ before after, names = before ++ call.stepName :: after ∧ ∀ t ∈ call.inputs, t ∈ before

theorem ValidNames.placed (hnames : ValidNames config names) {before after : List StepConfig}
    (hsteps : config.steps = before ++ step :: after)
    (hvalid : ValidatedStep py (before.map StepConfig.name) step)
    (hcall : executorCall py step c = some call) : Placed names call := by
  obtain ⟨hname, hinputs⟩ := of_executorCall hcall
  obtain ⟨earlier, name, later, hsplit, hname', hbefore⟩ := hnames.split hsteps
  rw [hname, Node.text.injEq] at hname'
  refine ⟨earlier, later, hname' ▸ hsplit, fun t ht => ?_⟩
  obtain ⟨t', ht', -, hmem⟩ := hvalid.resolved (hinputs t ht) rfl
  cases ht'
  rw [hbefore] at hmem
  obtain ⟨s, hs, hst⟩ := List.mem_map.mp hmem
  cases hst
  exact hs

/-- A step of a validated pipeline keeps the invariant, whatever it found. -/
theorem Recorded.keep (h : Recorded names g) (hnames : ValidNames config names)
    {before after : List StepConfig} (hsteps : config.steps = before ++ step :: after)
    (hvalid : ValidatedStep py (before.map StepConfig.name) step) (found : Option Columns) :
    Recorded names (recordStep py g (step, found)) := by
  unfold recordStep
  split
  next call hcall =>
    obtain ⟨c, -, hcall⟩ := Option.bind_eq_some_iff.mp hcall
    obtain ⟨earlier, later, rfl, hinputs⟩ := hnames.placed hsteps hvalid hcall
    exact h.record hnames.nodup hinputs
  next => exact h

theorem Recorded.run {result : ValidationResult}
    (hvalid : validate py u maxPipelineSteps registeredFileIds config = some result)
    (herrors : result.errors = []) (hnames : ValidNames config names)
    {before rest : List StepConfig} (hsteps : config.steps = before ++ rest)
    (found : List (Option Columns)) (h : Recorded names g) :
    Recorded names ((rest.zip found).foldl (recordStep py) g) := by
  induction rest generalizing before found g with
  | nil => exact h
  | cons step rest ih =>
    cases found with
    | nil => exact h
    | cons f found =>
      have hsteps' : config.steps = (before ++ [step]) ++ rest := by
        rw [hsteps, List.append_assoc]
        rfl
      exact ih hsteps' found (h.keep hnames hsteps (validated_steps hvalid herrors hsteps) f)

theorem Recorded.acyclic (h : Recorded names g) (hnames : ValidNames config names) : g.Acyclic :=
  DiGraph.acyclic_of_rank NodeKey.id (rank names)
    (fun _ _ => NodeKey.id_inj hnames.colonless) h.edges

/-- For every validated pipeline, and whatever its steps find, the recorded graph has no cycle,
its identifiers tell the kind, the step and the column or file apart, and its layout is sound. -/
theorem recorded_lineage_sound (py : Python) (u : Execution.SqlBuilder.Unicode)
    (maxPipelineSteps : Nat) (registeredFileIds : List Text)
    (topologicalSort : Graph → Option (List Text))
    (hsort : ∀ g : Graph, g.Acyclic →
      ∃ order, topologicalSort g = some order ∧ g.IsTopologicalOrder order)
    (config : PipelineConfig) (result : ValidationResult)
    (hvalid : validate py u maxPipelineSteps registeredFileIds config = some result)
    (herrors : result.errors = []) (found : List (Option Columns)) :
    let g := recordedGraph py config.steps found
    g.Acyclic ∧
      (∃ names, config.steps.map StepConfig.name = names.map Node.text ∧
        (∀ w ∈ g.nodes.keys, ∃ k : NodeKey, k.Of names ∧ k.id = w) ∧
        ∀ k l : NodeKey, k.Of names → l.Of names → k.id = l.id → k = l) ∧
      LayoutSound g (buildReactFlowNodes topologicalSort g) (buildReactFlowEdges g) := by
  intro g
  obtain ⟨names, hnames⟩ := names_of_valid hvalid herrors
  have hrecorded : Recorded names g :=
    Recorded.run hvalid herrors hnames (List.nil_append _).symm found recorded_empty
  have hacyclic := hrecorded.acyclic hnames
  exact ⟨hacyclic, ⟨names, hnames.texts, hrecorded.nodes,
    fun _ _ => NodeKey.id_inj hnames.colonless⟩, layoutSound_of_acyclic hsort hacyclic⟩

end Runs

section Examples

/-- The graph of a run that loads a file with one column and saves it. -/
def savedGraph : Graph :=
  recordedGraph numberPython (saveConfig (str "raw")).steps
    [some { fileName := "f.csv".toList, outputs := ["a".toList] }, some { inputs := ["a".toList] }]

theorem recorded_lineage_sound_save : savedGraph.nodes.keys = ["file::f1".toList,
      "step::raw".toList, "col::raw::a".toList, "step::out".toList, "output::out::out.csv".toList] ∧
    LayoutSound savedGraph (buildReactFlowNodes DiGraph.topologicalSort savedGraph)
      (buildReactFlowEdges savedGraph) :=
  ⟨by decide, (recorded_lineage_sound numberPython asciiText 50 ["f1".toList]
    DiGraph.topologicalSort (fun _ => DiGraph.topologicalSort_of_acyclic) (saveConfig (str "raw"))
    clean rfl rfl _).2.2⟩

end Examples

end PipelineIQ.Pipeline.LineageRun
