import PipelineIQ.Pipeline.LineageLabels
import PipelineIQ.Pipeline.LineageRun

namespace PipelineIQ.Pipeline.LineageImpact

open PipelineIQ.Lib PipelineIQ.Lib.Strings PipelineIQ.Lib.Yaml
open PipelineIQ.Pipeline.Lineage PipelineIQ.Pipeline.LineageRun PipelineIQ.Pipeline.Parser
open PipelineIQ.Pipeline.Validation PipelineIQ.Pipeline.ParserErrors
open PipelineIQ.Pipeline.ReferenceSoundness

/-! ### Impact analysis -/

structure ImpactAnalysis where
  sourceStep : Text
  sourceColumn : Text
  affectedSteps : List Text
  affectedOutputColumns : List Text
  deriving DecidableEq, Repr

def affectedStep (attrs : Attrs) : Option Text :=
  if attrs.get? "node_type" = some "step".toList then some ((attrs.get? "step_name").getD [])
  else none

/-- The label of an output column or an output file, where it is not empty. -/
def affectedOutput (attrs : Attrs) : Option Text :=
  if attrs.get? "node_type" = some "output_column".toList ∨
      attrs.get? "node_type" = some "output_file".toList then
    ((attrs.get? "label").filter fun label => !label.isEmpty)
  else none

def attrsOf (g : Graph) (node : Text) : Attrs := (g.nodes.get? node).getD ∅

/-- `descendants` raises for a node that is not in the graph. -/
def getImpactAnalysis (descendants : Graph → Text → Option (List Text)) (g : Graph)
    (stepName columnName : Text) : Option ImpactAnalysis :=
  (descendants g (colNodeId stepName columnName)).map fun reached =>
    { sourceStep := stepName
      sourceColumn := columnName
      affectedSteps := reached.filterMap fun node => affectedStep (attrsOf g node)
      affectedOutputColumns := reached.filterMap fun node => affectedOutput (attrsOf g node) }

/-! ### The edges that carry values -/

/-- The columns that a call leads into its step only to drop them there. -/
def dropped : Call → List (Text × Text)
  | .projection _ inputStep _ dropped => dropped.map (inputStep, ·)
  | _ => []

/-- The other columns that a call leads into its step. -/
def carried : Call → List (Text × Text)
  | .projection _ inputStep kept _ => kept.map (inputStep, ·)
  | call => call.fed

theorem mem_fed {call : Call} {p : Text × Text} :
    p ∈ call.fed ↔ p ∈ carried call ∨ p ∈ dropped call := by
  cases call with
  | projection => simp [Call.fed, carried, dropped]
  | _ => exact (or_iff_left List.not_mem_nil).symm

/-- An edge of the lineage. -/
def Flows (calls : List Call) (k l : NodeKey) : Prop := ∃ call ∈ calls, (k, l) ∈ call.edges

/-- An edge of the lineage other than that of a dropped column. -/
inductive Carries (calls : List Call) : NodeKey → NodeKey → Prop
  | file {call : Call} (h : call ∈ calls) {fileId : Text} (hfile : fileId ∈ call.files) :
    Carries calls (.file fileId) (.step call.stepName)
  | column {call : Call} (h : call ∈ calls) {p : Text × Text} (hp : p ∈ carried call) :
    Carries calls (.column p.1 p.2) (.step call.stepName)
  | emitted {call : Call} (h : call ∈ calls) {column : Text} (hcolumn : column ∈ call.emitted) :
    Carries calls (.step call.stepName) (.column call.stepName column)
  | saved {call : Call} (h : call ∈ calls) {filename : Text} (hfile : filename ∈ call.saved) :
    Carries calls (.step call.stepName) (.output call.stepName filename)

variable {calls : List Call} {k l : NodeKey}

theorem flows_iff : Flows calls k l ↔ Carries calls k l ∨
    ∃ call ∈ calls, ∃ p ∈ dropped call, k = .column p.1 p.2 ∧ l = .step call.stepName := by
  constructor
  · rintro ⟨call, hcall, hedge⟩
    rcases Call.mem_edges.mp hedge with ⟨_, hf, heq⟩ | ⟨p, hp, heq⟩ | ⟨_, hc, heq⟩ | ⟨_, hf, heq⟩
    · cases heq
      exact .inl (.file hcall hf)
    · cases heq
      rcases mem_fed.mp hp with hp | hp
      · exact .inl (.column hcall hp)
      · exact .inr ⟨call, hcall, p, hp, rfl, rfl⟩
    · cases heq
      exact .inl (.emitted hcall hc)
    · cases heq
      exact .inl (.saved hcall hf)
  · rintro (h | ⟨call, hcall, p, hp, rfl, rfl⟩)
    · cases h with
      | file hcall hf => exact ⟨_, hcall, Call.mem_edges.mpr (.inl ⟨_, hf, rfl⟩)⟩
      | column hcall hp =>
        exact ⟨_, hcall, Call.mem_edges.mpr (.inr (.inl ⟨_, mem_fed.mpr (.inl hp), rfl⟩))⟩
      | emitted hcall hc => exact ⟨_, hcall, Call.mem_edges.mpr (.inr (.inr (.inl ⟨_, hc, rfl⟩)))⟩
      | saved hcall hf => exact ⟨_, hcall, Call.mem_edges.mpr (.inr (.inr (.inr ⟨_, hf, rfl⟩)))⟩
    · exact ⟨call, hcall, Call.mem_edges.mpr (.inr (.inl ⟨p, mem_fed.mpr (.inr hp), rfl⟩))⟩

/-- What the value of a column gets to. -/
def Reaches (calls : List Call) (stepName columnName : Text) (k : NodeKey) : Prop :=
  Relation.TransGen (Carries calls) (.column stepName columnName) k

def stepOf : NodeKey → Option Text
  | .step stepName => some stepName
  | _ => none

def outputOf : NodeKey → Option Text
  | .column _ columnName => some columnName
  | .output _ filename => some filename
  | _ => none

/-- An analysis lists the steps and the outputs that the value of a column gets to, and no others. -/
def Exact (calls : List Call) (a : ImpactAnalysis) : Prop :=
  ∃ keys : List NodeKey, keys.Nodup ∧
    (∀ k, k ∈ keys ↔ Reaches calls a.sourceStep a.sourceColumn k) ∧
    a.affectedSteps = keys.filterMap stepOf ∧ a.affectedOutputColumns = keys.filterMap outputOf

/-- The column, or one that its value gets to. -/
def Touched (calls : List Call) (stepName columnName : Text) (p : Text × Text) : Prop :=
  p = (stepName, columnName) ∨ Reaches calls stepName columnName (.column p.1 p.2)

/-- The calls of a run. -/
def recordedCalls (py : Python) (steps : List StepConfig) (found : List (Option Columns)) :
    List Call :=
  (steps.zip found).filterMap fun e => e.2.bind (executorCall py e.1)

/-! ### The graph of a run -/

def drawn (calls : List Call) : Graph := calls.foldl (fun g call => record call g) DiGraph.empty

theorem recordedGraph_eq (py : Python) (steps : List StepConfig) (found : List (Option Columns)) :
    recordedGraph py steps found = drawn (recordedCalls py steps found) := by
  rw [recordedGraph, drawn, recordedCalls, List.foldl_filterMap]
  congr 1
  funext g e
  rw [recordStep]
  cases e.2.bind (executorCall py e.1) <;> rfl

/-- Calls under different names, each behind its inputs. -/
structure Ordered (names : List Text) (calls : List Call) : Prop where
  colonless : ∀ t ∈ names, ':' ∉ t
  nodup : (calls.map Call.stepName).Nodup
  placed : ∀ call ∈ calls, Placed names call

theorem names_sublist (py : Python) (steps : List StepConfig) (found : List (Option Columns)) :
    ((recordedCalls py steps found).map fun call => Node.text call.stepName).Sublist
      (steps.map StepConfig.name) := by
  unfold recordedCalls
  induction steps generalizing found with
  | nil => exact List.Sublist.slnil
  | cons step steps ih =>
    cases found with
    | nil => exact List.nil_sublist _
    | cons f found =>
      rw [List.zip_cons_cons, List.filterMap_cons, List.map_cons]
      cases hcall : f.bind (executorCall py step) with
      | none => exact (ih found).cons _
      | some call =>
        obtain ⟨c, -, hcall⟩ := Option.bind_eq_some_iff.mp hcall
        rw [(of_executorCall hcall).1]
        exact (ih found).cons_cons _

theorem ordered_of_valid {py : Python} {u : Execution.SqlBuilder.Unicode} {maxPipelineSteps : Nat}
    {registeredFileIds : List Text} {config : PipelineConfig} {result : ValidationResult}
    {names : List Text}
    (hvalid : validate py u maxPipelineSteps registeredFileIds config = some result)
    (herrors : result.errors = []) (hnames : ValidNames config names)
    (found : List (Option Columns)) : Ordered names (recordedCalls py config.steps found) where
  colonless := hnames.colonless
  nodup := by
    have hsub := names_sublist py config.steps found
    rw [hnames.texts] at hsub
    have hnodup := (hnames.nodup.map fun _ _ => Node.text.inj).sublist hsub
    rw [← Function.comp_def, ← List.map_map] at hnodup
    exact List.Nodup.of_map _ hnodup
  placed call hcall := by
    obtain ⟨⟨step, f⟩, hmem, hbind⟩ := List.mem_filterMap.mp hcall
    obtain ⟨before, after, hsplit⟩ := List.append_of_mem (List.of_mem_zip hmem).1
    obtain ⟨c, -, hexecutor⟩ := Option.bind_eq_some_iff.mp hbind
    exact hnames.placed hsplit (validated_steps hvalid herrors hsplit) hexecutor

theorem adj_drawn {u v : Text} :
    (drawn calls).Adj u v ↔ ∃ k l, Flows calls k l ∧ k.id = u ∧ l.id = v := by
  have hdraws := Draws.foldl (f := fun g call => record call g) draws_record calls
  rw [drawn, hdraws.edge]
  simp only [List.mem_flatMap, Flows, Prod.exists]
  constructor
  · rintro (h | ⟨k, l, h, hids⟩)
    · cases h
    · exact ⟨k, l, h, hids⟩
  · rintro ⟨k, l, h, hids⟩
    exact .inr ⟨k, l, h, hids⟩

section Ordered

variable {names : List Text} (h : Ordered names calls)
include h

theorem Ordered.eq_of_name {call call' : Call} (hcall : call ∈ calls) (hcall' : call' ∈ calls)
    (hname : call.stepName = call'.stepName) : call = call' :=
  List.inj_on_of_nodup_map h.nodup hcall hcall' hname

theorem Ordered.of_flows (hflows : Flows calls k l) : k.Of names ∧ l.Of names := by
  obtain ⟨call, hcall, hedge⟩ := hflows
  obtain ⟨before, after, rfl, hinputs⟩ := h.placed call hcall
  exact ⟨of_brought hinputs (.inr ⟨_, hedge, .inl rfl⟩), of_brought hinputs (.inr ⟨_, hedge, .inr rfl⟩)⟩

theorem Ordered.transGen_adj (hk : k.Of names) {v : Text} :
    Relation.TransGen (drawn calls).Adj k.id v ↔
      ∃ l, Relation.TransGen (Flows calls) k l ∧ l.id = v := by
  constructor
  · intro hpath
    induction hpath with
    | single hadj =>
      obtain ⟨k', l, hflows, hid, rfl⟩ := adj_drawn.mp hadj
      cases NodeKey.id_inj h.colonless (h.of_flows hflows).1 hk hid
      exact ⟨l, .single hflows, rfl⟩
    | tail _ hadj ih =>
      obtain ⟨m, hm, rfl⟩ := ih
      obtain ⟨k', l, hflows, hid, rfl⟩ := adj_drawn.mp hadj
      have hof : m.Of names := by
        obtain ⟨_, -, hlast⟩ := Relation.TransGen.tail'_iff.mp hm
        exact (h.of_flows hlast).2
      cases NodeKey.id_inj h.colonless (h.of_flows hflows).1 hof hid
      exact ⟨l, hm.tail hflows, rfl⟩
  · rintro ⟨l, hpath, rfl⟩
    exact hpath.lift NodeKey.id fun k l hflows => adj_drawn.mpr ⟨k, l, hflows, rfl, rfl⟩

/-- The names of the steps that load a file. -/
theorem Ordered.loads_iff {call : Call} (hcall : call ∈ calls) :
    call.loads = true ↔ call.stepName ∈ (calls.filter Call.loads).map Call.stepName := by
  constructor
  · intro hloads
    exact List.mem_map.mpr ⟨call, List.mem_filter.mpr ⟨hcall, hloads⟩, rfl⟩
  · intro hmem
    obtain ⟨call', hcall', hname⟩ := List.mem_map.mp hmem
    obtain ⟨hcall', hloads⟩ := List.mem_filter.mp hcall'
    rwa [h.eq_of_name hcall hcall' hname.symm]

theorem Ordered.shows_made {call : Call} (hcall : call ∈ calls) (hk : k ∈ call.made) :
    Shows ((calls.filter Call.loads).map Call.stepName) (drawn calls) k := by
  have hlabels : Labels names ((calls.filter Call.loads).map Call.stepName)
      (fun g => calls.foldl (fun g call => record call g) g) (calls.flatMap Call.made) := by
    refine Labels.foldl fun call hcall => labels_record h.colonless ?_ (h.loads_iff hcall)
    obtain ⟨before, after, hsplit, -⟩ := h.placed call hcall
    rw [hsplit]
    exact List.mem_append_right _ List.mem_cons_self
  exact hlabels.new _ k (List.mem_flatMap.mpr ⟨call, hcall, hk⟩)

/-- What an edge leads to is labelled. -/
theorem Ordered.shows (hflows : Flows calls k l) :
    Shows ((calls.filter Call.loads).map Call.stepName) (drawn calls) l := by
  obtain ⟨call, hcall, hedge⟩ := hflows
  apply h.shows_made hcall
  rcases Call.mem_edges.mp hedge with ⟨_, -, heq⟩ | ⟨p, -, heq⟩ | ⟨c, hc, heq⟩ | ⟨f, hf, heq⟩
  · cases heq
    exact List.mem_cons_self
  · cases heq
    exact List.mem_cons_self
  · cases heq
    exact List.mem_cons_of_mem _ (List.mem_append_left _ (List.mem_map.mpr ⟨c, hc, rfl⟩))
  · cases heq
    exact List.mem_cons_of_mem _ (List.mem_append_right _ (List.mem_map.mpr ⟨f, hf, rfl⟩))

/-- A step that a column leads to does not load. -/
theorem Ordered.not_loads {stepName columnName t : Text}
    (hpath : Relation.TransGen (Flows calls) (.column stepName columnName) (.step t)) :
    t ∉ (calls.filter Call.loads).map Call.stepName := by
  obtain ⟨k, hfirst, call, hcall, hedge⟩ := Relation.TransGen.tail'_iff.mp hpath
  rcases Call.mem_edges.mp hedge with ⟨_, -, heq⟩ | ⟨p, hp, heq⟩ | ⟨_, -, heq⟩ | ⟨_, -, heq⟩
  · cases heq
    -- nothing leads to a file
    rcases Relation.reflTransGen_iff_eq_or_transGen.mp hfirst with heq | hfirst
    · cases heq
    · obtain ⟨_, -, call', -, hedge'⟩ := Relation.TransGen.tail'_iff.mp hfirst
      rcases Call.mem_edges.mp hedge' with ⟨_, -, heq⟩ | ⟨_, -, heq⟩ | ⟨_, -, heq⟩ | ⟨_, -, heq⟩ <;>
        cases heq
  · cases heq
    rw [← h.loads_iff hcall]
    intro hloads
    cases call with
    | load => cases hp
    | _ => cases hloads
  · cases heq
  · cases heq

/-- What the analysis says of a node that a column leads to. -/
theorem Ordered.affected {stepName columnName : Text}
    (hpath : Relation.TransGen (Flows calls) (.column stepName columnName) l) :
    affectedStep (attrsOf (drawn calls) l.id) = stepOf l ∧
      affectedOutput (attrsOf (drawn calls) l.id) = (outputOf l).filter fun t => !t.isEmpty := by
  obtain ⟨k, hfirst, hflows⟩ := Relation.TransGen.tail'_iff.mp hpath
  obtain ⟨attrs, hget, hshown⟩ := h.shows hflows
  rw [attrsOf, hget, Option.getD_some]
  unfold affectedStep affectedOutput
  cases l with
  | file fileId =>
    obtain ⟨call, -, hedge⟩ := hflows
    rcases Call.mem_edges.mp hedge with ⟨_, -, heq⟩ | ⟨_, -, heq⟩ | ⟨_, -, heq⟩ | ⟨_, -, heq⟩ <;>
      cases heq
  | step t =>
    obtain ⟨htype, hname⟩ := hshown
    rw [htype, hname]
    exact ⟨rfl, rfl⟩
  | output t filename =>
    obtain ⟨htype, hlabel⟩ := hshown
    rw [htype, hlabel]
    exact ⟨rfl, rfl⟩
  | column t columnName' =>
    have hstep : Relation.TransGen (Flows calls) (.column stepName columnName) (.step t) := by
      obtain ⟨call, -, hedge⟩ := hflows
      rcases Call.mem_edges.mp hedge with ⟨_, -, heq⟩ | ⟨_, -, heq⟩ | ⟨_, -, heq⟩ | ⟨_, -, heq⟩
      · cases heq
      · cases heq
      · cases heq
        rcases Relation.reflTransGen_iff_eq_or_transGen.mp hfirst with heq | hfirst
        · cases heq
        · exact hfirst
      · cases heq
    obtain ⟨htype, hlabel⟩ := hshown
    rw [if_neg (h.not_loads hstep)] at htype
    rw [htype, hlabel]
    exact ⟨rfl, rfl⟩

end Ordered

/-! ### What the analysis lists -/

theorem exists_map_eq {α β : Type} {f : β → α} {P : β → Prop} {xs : List α}
    (h : ∀ x ∈ xs, ∃ y, P y ∧ f y = x) :
    ∃ ys : List β, ys.map f = xs ∧ ∀ y ∈ ys, P y := by
  induction xs with
  | nil => exact ⟨[], rfl, nofun⟩
  | cons x xs ih =>
    obtain ⟨y, hy, rfl⟩ := h x List.mem_cons_self
    obtain ⟨ys, rfl, hys⟩ := ih fun x hx => h x (List.mem_cons_of_mem _ hx)
    exact ⟨y :: ys, rfl, List.forall_mem_cons.mpr ⟨hy, hys⟩⟩

/-- The analysis lists the steps and the outputs, but not those without a label, that the column
leads to along any edges. -/
theorem Ordered.analysis {names : List Text} (h : Ordered names calls)
    (hacyclic : (drawn calls).Acyclic) {descendants : Graph → Text → Option (List Text)}
    (hdesc : ∀ (g : Graph) source, source ∈ g.nodes.keys → ∃ reached,
      descendants g source = some reached ∧ reached.Nodup ∧
        ∀ v, v ∈ reached ↔ v ≠ source ∧ Relation.TransGen g.Adj source v)
    {stepName columnName : Text} (hstep : stepName ∈ names)
    (hnode : colNodeId stepName columnName ∈ (drawn calls).nodes.keys) :
    ∃ keys : List NodeKey, keys.Nodup ∧
      (∀ k, k ∈ keys ↔ Relation.TransGen (Flows calls) (.column stepName columnName) k) ∧
      getImpactAnalysis descendants (drawn calls) stepName columnName =
        some ⟨stepName, columnName, keys.filterMap stepOf,
          keys.filterMap fun k => (outputOf k).filter fun t => !t.isEmpty⟩ := by
  obtain ⟨reached, hreached, hnodup, hmem⟩ := hdesc _ _ hnode
  have hpaths : ∀ v, v ∈ reached ↔
      ∃ k, Relation.TransGen (Flows calls) (.column stepName columnName) k ∧ k.id = v := by
    intro v
    rw [hmem, ← h.transGen_adj (k := .column stepName columnName) hstep]
    refine and_iff_right_of_imp fun hpath heq => hacyclic v ?_
    rw [heq] at hpath ⊢
    exact hpath
  obtain ⟨keys, rfl, hkeys⟩ := exists_map_eq fun v hv => (hpaths v).mp hv
  have hof : ∀ k, Relation.TransGen (Flows calls) (.column stepName columnName) k → k.Of names := by
    intro k hpath
    obtain ⟨_, -, hlast⟩ := Relation.TransGen.tail'_iff.mp hpath
    exact (h.of_flows hlast).2
  refine ⟨keys, hnodup.of_map, fun k => ⟨hkeys k, fun hpath => ?_⟩, ?_⟩
  · obtain ⟨l, hl, hid⟩ := List.mem_map.mp ((hpaths k.id).mpr ⟨k, hpath, rfl⟩)
    rwa [← NodeKey.id_inj h.colonless (hof l (hkeys l hl)) (hof k hpath) hid]
  · rw [getImpactAnalysis, hreached, Option.map_some, List.filterMap_map, List.filterMap_map]
    congr 2
    · exact List.filterMap_congr fun k hk => (h.affected (hkeys k hk)).1
    · exact List.filterMap_congr fun k hk => (h.affected (hkeys k hk)).2

/-! ### Dropped columns -/

variable {stepName columnName : Text}

/-- Every step that drops the column, or one that its value gets to, also gets its value from
another column. -/
def Supplied (calls : List Call) (stepName columnName : Text) : Prop :=
  ∀ call ∈ calls, ∀ p ∈ dropped call, Touched calls stepName columnName p →
    ∃ q ∈ carried call, Touched calls stepName columnName q

theorem flows_of_reaches (h : Reaches calls stepName columnName k) :
    Relation.TransGen (Flows calls) (.column stepName columnName) k :=
  h.lift id fun _ _ hcarries => flows_iff.mpr (.inl hcarries)

theorem reaches_of_touched {call : Call} (hcall : call ∈ calls) {q : Text × Text}
    (hq : q ∈ carried call) (htouched : Touched calls stepName columnName q) :
    Reaches calls stepName columnName (.step call.stepName) := by
  rcases htouched with rfl | hreaches
  · exact .single (.column hcall hq)
  · exact hreaches.tail (.column hcall hq)

/-- Then what the column leads to is what its value gets to. -/
theorem reaches_of_flows (hsupplied : Supplied calls stepName columnName)
    (h : Relation.TransGen (Flows calls) (.column stepName columnName) k) :
    Reaches calls stepName columnName k := by
  have hnext : ∀ {l m : NodeKey}, Flows calls l m →
      (l = .column stepName columnName ∨ Reaches calls stepName columnName l) →
      Reaches calls stepName columnName m := by
    intro l m hflows hl
    rcases flows_iff.mp hflows with hcarries | ⟨call, hcall, p, hp, rfl, rfl⟩
    · rcases hl with rfl | hl
      · exact .single hcarries
      · exact hl.tail hcarries
    · have htouched : Touched calls stepName columnName p := by
        refine hl.imp_left fun heq => ?_
        rw [NodeKey.column.injEq] at heq
        exact Prod.ext heq.1 heq.2
      obtain ⟨q, hq, hq'⟩ := hsupplied call hcall p hp htouched
      exact reaches_of_touched hcall hq hq'
  induction h with
  | single hflows => exact hnext hflows (.inl rfl)
  | tail _ hflows ih => exact hnext hflows (.inr ih)

theorem Ordered.supplied {names : List Text} (h : Ordered names calls)
    (hsteps : ∀ t, Relation.TransGen (Flows calls) (.column stepName columnName) (.step t) →
      Reaches calls stepName columnName (.step t)) : Supplied calls stepName columnName := by
  intro call hcall p hp htouched
  have hflows : Flows calls (.column p.1 p.2) (.step call.stepName) :=
    flows_iff.mpr (.inr ⟨call, hcall, p, hp, rfl, rfl⟩)
  have hpath : Relation.TransGen (Flows calls) (.column stepName columnName)
      (.step call.stepName) := by
    rcases htouched with rfl | hreaches
    · exact .single hflows
    · exact (flows_of_reaches hreaches).tail hflows
  obtain ⟨k, hfirst, hlast⟩ := Relation.TransGen.tail'_iff.mp (hsteps _ hpath)
  generalize hname : NodeKey.step call.stepName = last at hlast
  cases hlast with
  | file hcall' hfile =>
    rcases Relation.reflTransGen_iff_eq_or_transGen.mp hfirst with heq | hfirst
    · cases heq
    · obtain ⟨_, -, hlast⟩ := Relation.TransGen.tail'_iff.mp hfirst
      cases hlast
  | column hcall' hq =>
    cases h.eq_of_name hcall hcall' (NodeKey.step.inj hname)
    refine ⟨_, hq, ?_⟩
    rcases Relation.reflTransGen_iff_eq_or_transGen.mp hfirst with heq | hfirst
    · rw [NodeKey.column.injEq] at heq
      exact .inl (Prod.ext heq.1 heq.2)
    · exact .inr hfirst
  | emitted => cases hname
  | saved => cases hname

/-- For every run of a validated pipeline, and whatever its steps find, the analysis of a column
lists what its value gets to if and only if every step that drops it, or a column with its value,
also gets its value from another column, and no output that its value gets to has an empty name. -/
theorem impact_exact_iff (py : Python) (u : Execution.SqlBuilder.Unicode) (maxPipelineSteps : Nat)
    (registeredFileIds : List Text) (descendants : Graph → Text → Option (List Text))
    (hdesc : ∀ (g : Graph) source, source ∈ g.nodes.keys → ∃ reached,
      descendants g source = some reached ∧ reached.Nodup ∧
        ∀ v, v ∈ reached ↔ v ≠ source ∧ Relation.TransGen g.Adj source v)
    (config : PipelineConfig) (result : ValidationResult)
    (hvalid : validate py u maxPipelineSteps registeredFileIds config = some result)
    (herrors : result.errors = []) (found : List (Option Columns)) (stepName columnName : Text)
    (hstep : .text stepName ∈ config.steps.map StepConfig.name)
    (hnode : colNodeId stepName columnName ∈ (recordedGraph py config.steps found).nodes.keys) :
    (∃ a, getImpactAnalysis descendants (recordedGraph py config.steps found) stepName columnName =
        some a ∧ a.sourceStep = stepName ∧ a.sourceColumn = columnName ∧
        Exact (recordedCalls py config.steps found) a) ↔
      Supplied (recordedCalls py config.steps found) stepName columnName ∧
        ∀ k, Reaches (recordedCalls py config.steps found) stepName columnName k →
          outputOf k ≠ some [] := by
  obtain ⟨names, hnames⟩ := names_of_valid hvalid herrors
  have hordered := ordered_of_valid hvalid herrors hnames found
  have hacyclic : (drawn (recordedCalls py config.steps found)).Acyclic := by
    rw [← recordedGraph_eq]
    exact (Recorded.run hvalid herrors hnames (List.nil_append _).symm found
      recorded_empty).acyclic hnames
  have hname : stepName ∈ names := by
    rw [hnames.texts] at hstep
    obtain ⟨t, ht, heq⟩ := List.mem_map.mp hstep
    cases heq
    exact ht
  rw [recordedGraph_eq] at hnode ⊢
  obtain ⟨keys, hnodup, hkeys, hanalysis⟩ := hordered.analysis hacyclic hdesc hname hnode
  generalize recordedCalls py config.steps found = calls at *
  constructor
  · rintro ⟨a, ha, -, -, keys', -, hkeys', hsteps, houtputs⟩
    cases hanalysis.symm.trans ha
    dsimp only at hsteps houtputs
    refine ⟨hordered.supplied fun t hpath => ?_, fun k hk hempty => ?_⟩
    · have hlisted : t ∈ keys.filterMap stepOf := List.mem_filterMap.mpr ⟨_, (hkeys _).mpr hpath, rfl⟩
      rw [hsteps] at hlisted
      obtain ⟨k, hk, hstepOf⟩ := List.mem_filterMap.mp hlisted
      cases k with
      | step t' =>
        cases hstepOf
        exact (hkeys' _).mp hk
      | _ => cases hstepOf
    · have hlisted : [] ∈ keys'.filterMap outputOf :=
        List.mem_filterMap.mpr ⟨k, (hkeys' k).mpr hk, hempty⟩
      rw [← houtputs] at hlisted
      obtain ⟨l, -, hl⟩ := List.mem_filterMap.mp hlisted
      exact absurd (Option.filter_eq_some_iff.mp hl).2 (by decide)
  · rintro ⟨hsupplied, hlabels⟩
    have hreach : ∀ k, k ∈ keys ↔ Reaches calls stepName columnName k := by
      intro k
      rw [hkeys]
      exact ⟨reaches_of_flows hsupplied, flows_of_reaches⟩
    refine ⟨_, hanalysis, rfl, rfl, keys, hnodup, hreach, rfl, ?_⟩
    refine List.filterMap_congr fun k hk => ?_
    cases hout : outputOf k with
    | none => rfl
    | some t =>
      have ht : t ≠ [] := fun hempty => hlabels k ((hreach k).mp hk) (hempty ▸ hout)
      rw [Option.filter_some, if_pos]
      rw [Bool.not_eq_true', List.isEmpty_eq_false_iff]
      exact ht

section Examples

theorem impact_exact_iff_save :
    (∃ a, getImpactAnalysis DiGraph.descendants savedGraph "raw".toList "a".toList = some a ∧
        a.sourceStep = "raw".toList ∧ a.sourceColumn = "a".toList ∧
        Exact (recordedCalls numberPython (saveConfig (str "raw")).steps
          [some { fileName := "f.csv".toList, outputs := ["a".toList] },
            some { inputs := ["a".toList] }]) a) ↔
      Supplied (recordedCalls numberPython (saveConfig (str "raw")).steps
          [some { fileName := "f.csv".toList, outputs := ["a".toList] },
            some { inputs := ["a".toList] }]) "raw".toList "a".toList ∧
        ∀ k, Reaches (recordedCalls numberPython (saveConfig (str "raw")).steps
          [some { fileName := "f.csv".toList, outputs := ["a".toList] },
            some { inputs := ["a".toList] }]) "raw".toList "a".toList k → outputOf k ≠ some [] :=
  impact_exact_iff numberPython asciiText 50 ["f1".toList] DiGraph.descendants
    (fun _ _ => DiGraph.exists_descendants) (saveConfig (str "raw")) clean rfl rfl _ _ _
    List.mem_cons_self (by decide)

/-- A file of two columns, of which a step picks the first one to be saved. -/
def selectConfig : PipelineConfig :=
  ⟨str "p", .null,
    [⟨str "raw", .inl .load, .null, [("file_id", str "f1"), ("alias", .null)]⟩,
     ⟨str "picked", .inl .select, .null, [("input", str "raw"), ("columns", .seq [str "a"])]⟩,
     ⟨str "out", .inl .save, .null, [("input", str "picked"), ("filename", str "out.csv")]⟩]⟩

def selectFound : List (Option Columns) :=
  [some { fileName := "f.csv".toList, outputs := ["a".toList, "b".toList] },
    some { listed := ["a".toList], listedToo := ["b".toList] }, some { inputs := ["a".toList] }]

/-- The other column is dropped, and yet the analysis lists what comes of the first one. -/
theorem dropped_column_listed :
    validate numberPython asciiText 50 ["f1".toList] selectConfig = some clean ∧
      ∃ a, getImpactAnalysis DiGraph.descendants
          (recordedGraph numberPython selectConfig.steps selectFound) "raw".toList "b".toList = some a ∧
        a.affectedSteps = ["picked".toList, "out".toList] ∧
        a.affectedOutputColumns = ["a".toList, "out.csv".toList] ∧
        ¬ Exact (recordedCalls numberPython selectConfig.steps selectFound) a := by
  refine ⟨rfl, ⟨"raw".toList, "b".toList, ["picked".toList, "out".toList],
    ["a".toList, "out.csv".toList]⟩, by decide, rfl, rfl, ?_⟩
  rintro ⟨keys, -, hkeys, hsteps, -⟩
  have hlisted : "picked".toList ∈ keys.filterMap stepOf := hsteps ▸ List.mem_cons_self
  obtain ⟨k, hk, -⟩ := List.mem_filterMap.mp hlisted
  obtain ⟨l, hfirst, -⟩ := Relation.TransGen.head'_iff.mp ((hkeys k).mp hk)
  generalize hsource : NodeKey.column "raw".toList "b".toList = source at hfirst
  cases hfirst with
  | @column call hcall p hp =>
    have hnone : ∀ call ∈ recordedCalls numberPython selectConfig.steps selectFound,
        ("raw".toList, "b".toList) ∉ carried call := by
      decide
    cases p
    cases hsource
    exact hnone call hcall hp
  | _ => cases hsource

end Examples

end PipelineIQ.Pipeline.LineageImpact
