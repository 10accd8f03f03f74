import PipelineIQ.Pipeline.LineageCalls

namespace PipelineIQ.Pipeline.Lineage

open PipelineIQ.Lib PipelineIQ.Lib.Strings

/-! ### What the attributes of a node say -/

/-- The attributes of a node tell what it stands for; the columns of loaded files have a type of
their own. -/
def NodeKey.Shown (loads : List Text) (attrs : Attrs) : NodeKey → Prop
  | .file _ => True
  | .step stepName => attrs.get? "node_type" = some "step".toList ∧
      attrs.get? "step_name" = some stepName
  | .column stepName columnName => attrs.get? "node_type" =
      some (if stepName ∈ loads then "source_column" else "output_column").toList ∧
      attrs.get? "label" = some columnName
  | .output _ filename => attrs.get? "node_type" = some "output_file".toList ∧
      attrs.get? "label" = some filename

def Shows (loads : List Text) (g : Graph) (k : NodeKey) : Prop :=
  ∃ attrs, g.nodes.get? k.id = some attrs ∧ k.Shown loads attrs

/-- What a function on graphs labels, without changing what other labels say. -/
structure Labels (names loads : List Text) (draw : Graph → Graph) (made : List NodeKey) : Prop where
  of : ∀ k ∈ made, k.Of names
  keep : ∀ g (k : NodeKey), k.Of names → Shows loads g k → Shows loads (draw g) k
  new : ∀ g, ∀ k ∈ made, Shows loads (draw g) k

section Labelling

variable {names loads : List Text} {draw draw' : Graph → Graph} {made made' : List NodeKey}

theorem labels_id : Labels names loads id [] :=
  ⟨nofun, fun _ _ _ h => h, fun _ => nofun⟩

theorem Labels.comp (h : Labels names loads draw made) (h' : Labels names loads draw' made') :
    Labels names loads (fun g => draw' (draw g)) (made ++ made') := by
  constructor
  · intro k hk
    exact (List.mem_append.mp hk).elim (h.of k) (h'.of k)
  · intro g k hk hshows
    exact h'.keep _ k hk (h.keep g k hk hshows)
  · intro g k hk
    rcases List.mem_append.mp hk with hk | hk
    · exact h'.keep _ k (h.of k hk) (h.new g k hk)
    · exact h'.new _ k hk

theorem Labels.foldl {α : Type} {f : Graph → α → Graph} {ms : α → List NodeKey} {xs : List α}
    (h : ∀ x ∈ xs, Labels names loads (fun g => f g x) (ms x)) :
    Labels names loads (fun g => xs.foldl f g) (xs.flatMap ms) := by
  induction xs with
  | nil => exact labels_id
  | cons x xs ih =>
    exact (h x List.mem_cons_self).comp (ih fun y hy => h y (List.mem_cons_of_mem x hy))

theorem Labels.of_subset (h : Labels names loads draw made) (hsub : ∀ k ∈ made', k ∈ made) :
    Labels names loads draw made' :=
  ⟨fun k hk => h.of k (hsub k hk), h.keep, fun g k hk => h.new g k (hsub k hk)⟩

theorem get?_update_of_notMem {attrs : Attrs} {new : List (String × Text)} {field : String}
    (h : ∀ e ∈ new, e.1 ≠ field) : (update attrs new).get? field = attrs.get? field := by
  induction new generalizing attrs with
  | nil => rfl
  | cons e new ih =>
    rw [update, List.foldl_cons]
    refine Eq.trans (ih fun e' he' => h e' (List.mem_cons_of_mem _ he')) ?_
    rw [Dict.get?_set, if_neg (h e List.mem_cons_self).symm]

theorem update_append (attrs : Attrs) (new more : List (String × Text)) :
    update attrs (new ++ more) = update (update attrs new) more := List.foldl_append

theorem labels_addEdge (source target : Text) (data : Option Bool → Bool) :
    Labels names loads (fun g => g.addEdge ∅ source target data) [] := by
  refine ⟨nofun, ?_, fun _ => nofun⟩
  rintro g k - ⟨attrs, hget, hshown⟩
  refine ⟨attrs, ?_, hshown⟩
  have hsource : ∀ (nodes : Dict Text Attrs) (w : Text), nodes.get? k.id = some attrs →
      (nodes.set w ((nodes.get? w).getD ∅)).get? k.id = some attrs := by
    intro nodes w h
    rw [Dict.get?_set]
    split
    · next heq => rw [← heq, h, Option.getD_some]
    · exact h
  exact hsource _ target (hsource _ source hget)

variable (hnames : ∀ t ∈ names, ':' ∉ t)
include hnames

theorem labels_addNode {k : NodeKey} {attrs : List (String × Text)} (hk : k.Of names)
    (hattrs : ∀ old, k.Shown loads (update old attrs)) :
    Labels names loads (fun g => addNode g k.id attrs) [k] := by
  constructor
  · intro l hl
    exact List.mem_singleton.mp hl ▸ hk
  · rintro g l hl ⟨old, hget, hshown⟩
    by_cases hid : l.id = k.id
    · cases NodeKey.id_inj hnames hl hk hid
      exact ⟨_, by rw [addNode, DiGraph.addNode, Dict.get?_set, if_pos rfl], hattrs _⟩
    · exact ⟨old, by rw [addNode, DiGraph.addNode, Dict.get?_set, if_neg hid, hget], hshown⟩
  · intro g l hl
    cases List.mem_singleton.mp hl
    exact ⟨_, by rw [addNode, DiGraph.addNode, Dict.get?_set, if_pos rfl], hattrs _⟩

variable {stepName : Text} (hstep : stepName ∈ names)
include hstep

theorem labels_addStep (label stepType : Text) :
    Labels names loads (fun g => addStep g stepName label stepType) [.step stepName] := by
  refine @labels_addNode _ _ hnames (.step stepName) _ hstep fun old => ?_
  constructor <;> simp [update, Dict.get?_set]

/-- A column that comes out of a step which does not load. -/
theorem labels_addOutput (hloads : stepName ∉ loads) (column : Text) {attrs : List (String × Text)}
    (hattrs : ∀ e ∈ attrs, e.1 = "source_column") :
    Labels names loads (fun g => addOutput g stepName column attrs) [.column stepName column] := by
  refine @labels_addNode _ _ hnames (.column stepName column) _ hstep fun old => ?_
  have hother : ∀ field, field ≠ "source_column" → ∀ e ∈ attrs, e.1 ≠ field :=
    fun field hfield e he heq => hfield (heq ▸ hattrs e he)
  rw [update_append]
  constructor
  · rw [get?_update_of_notMem (hother _ (by decide)), if_neg hloads]
    simp [update, Dict.get?_set]
  · rw [get?_update_of_notMem (hother _ (by decide))]
    simp [update, Dict.get?_set]

theorem labels_emitColumns (hloads : stepName ∉ loads) {attrs : Text → List (String × Text)}
    (hattrs : ∀ column, ∀ e ∈ attrs column, e.1 = "source_column") (columns : List Text) :
    Labels names loads (fun g => columns.foldl (emitColumn stepName attrs) g)
      (columns.map (.column stepName)) := by
  have h : ∀ column ∈ columns, Labels names loads
      (fun g => emitColumn stepName attrs g column) [.column stepName column] := by
    intro column _
    unfold emitColumn addEdge
    exact (labels_addOutput hnames hstep hloads column (hattrs column)).comp (labels_addEdge _ _ _)
  exact (Labels.foldl h).of_subset (by simp)

theorem labels_pass (hloads : stepName ∉ loads) (label stepType inputStep : Text)
    (newName : Text → Text) (columns : List Text) : Labels names loads
      (fun g => columns.foldl (passColumnAs inputStep stepName newName)
        (addStep g stepName label stepType))
      (.step stepName :: (columns.map newName).map (.column stepName)) := by
  have h : ∀ column ∈ columns, Labels names loads
      (fun g => passColumnAs inputStep stepName newName g column)
      [.column stepName (newName column)] := by
    intro column _
    unfold passColumnAs addEdge
    exact ((labels_addOutput hnames hstep hloads (newName column)
      fun _ he => absurd he List.not_mem_nil).comp
      (labels_addEdge _ _ _)).comp (labels_addEdge _ _ _)
  refine ((labels_addStep hnames hstep label stepType).comp (.foldl h)).of_subset ?_
  rw [List.map_map, ← List.map_eq_flatMap]
  exact fun _ hk => hk

omit hnames hstep in
theorem labels_feedColumns (inputStep : Text) (columns : List Text) :
    Labels names loads (fun g => columns.foldl (feedColumn inputStep stepName) g) [] := by
  have h : ∀ column ∈ columns, Labels names loads
      (fun g => feedColumn inputStep stepName g column) [] := by
    intro column _
    unfold feedColumn addEdge
    exact labels_addEdge _ _ _
  exact (Labels.foldl h).of_subset (by simp)

omit hnames hstep in
theorem labels_connectJoinSide (inputStep joinKey : Text) (columns : List Text) :
    Labels names loads (connectJoinSide inputStep columns stepName joinKey) [] := by
  have h : ∀ column ∈ columns, Labels names loads (fun g => g.addEdge ∅ (colNodeId inputStep column)
      (stepNodeId stepName) fun _ => column == joinKey) [] := fun _ _ => labels_addEdge _ _ _
  exact (Labels.foldl h).of_subset (by simp)

theorem labels_recordReshape (hloads : stepName ∉ loads) (label stepType inputStep : Text)
    (inputColumns outputColumns : List Text) : Labels names loads
      (recordReshape label stepType stepName inputStep inputColumns outputColumns fun _ => [])
      (.step stepName :: outputColumns.map (.column stepName)) :=
  (((labels_addStep hnames hstep label stepType).comp
    (labels_feedColumns inputStep inputColumns)).comp
      (labels_emitColumns hnames hstep hloads (fun _ _ he => absurd he List.not_mem_nil) outputColumns)).of_subset (by simp)

theorem labels_recordLoad (hloads : stepName ∈ loads) (fileId fileName : Text) (columns : List Text)
    (dtypes : Text → Option Text) : Labels names loads
      (recordLoad fileId fileName stepName columns dtypes)
      (.step stepName :: columns.map (.column stepName)) := by
  have h : ∀ column ∈ columns, Labels names loads
      (fun g => loadColumn stepName dtypes g column) [.column stepName column] := by
    intro column _
    unfold loadColumn addEdge
    refine (@labels_addNode _ _ hnames (.column stepName column) _ hstep fun old => ?_).comp
      (labels_addEdge _ _ _)
    constructor
    · rw [if_pos hloads]
      simp [update, Dict.get?_set]
    · simp [update, Dict.get?_set]
  unfold recordLoad addEdge
  exact ((((@labels_addNode _ loads hnames (.file fileId) _ trivial fun _ => trivial).comp
    (labels_addStep hnames hstep _ _)).comp (labels_addEdge _ _ _)).comp
      (.foldl h)).of_subset (by simp)

theorem labels_recordSave (inputStep filename : Text) (columns : List Text) :
    Labels names loads (recordSave stepName inputStep filename columns)
      [.step stepName, .output stepName filename] := by
  unfold recordSave addEdge
  refine ((((labels_addStep hnames hstep _ _).comp
    (@labels_addNode _ _ hnames (.output stepName filename) _ hstep fun old => ?_)).comp
      (labels_feedColumns inputStep columns)).comp (labels_addEdge _ _ _)).of_subset (by simp)
  constructor <;> simp [update, Dict.get?_set]

end Labelling

/-- The steps that load a file. -/
def Call.loads : Call → Bool
  | .load _ _ _ _ _ => true
  | _ => false

/-- What a call labels: its step, and what comes out of it. -/
def Call.made (call : Call) : List NodeKey :=
  .step call.stepName :: (call.emitted.map (.column call.stepName) ++
    call.saved.map (.output call.stepName))

theorem labels_record {names loads : List Text} (hnames : ∀ t ∈ names, ':' ∉ t) {call : Call}
    (hstep : call.stepName ∈ names) (hloads : call.loads = true ↔ call.stepName ∈ loads) :
    Labels names loads (record call) call.made := by
  have hother : call.loads = false → call.stepName ∉ loads := by
    intro h hmem
    rw [hloads.mpr hmem] at h
    cases h
  cases call with
  | load fileId fileName stepName columns dtypes =>
    exact (labels_recordLoad hnames hstep (hloads.mp rfl) fileId fileName columns dtypes).of_subset
      (by simp [Call.made, Call.emitted, Call.saved, Call.stepName])
  | passthrough | rename | deduplicate | fillNulls | sample =>
    refine (labels_pass hnames hstep (hother rfl) _ _ _ _ _).of_subset ?_
    simp [Call.made, Call.emitted, Call.saved, Call.stepName]
  | projection stepName inputStep kept dropped =>
    exact ((labels_pass hnames hstep (hother rfl) _ _ inputStep id kept).comp
      (labels_feedColumns inputStep dropped)).of_subset
        (by simp [Call.made, Call.emitted, Call.saved, Call.stepName])
  | join stepName leftStep rightStep leftCols rightCols outputCols joinKey how =>
    exact ((((labels_addStep hnames hstep _ _).comp
      (labels_connectJoinSide leftStep joinKey leftCols)).comp
        (labels_connectJoinSide rightStep joinKey rightCols)).comp
          (labels_emitColumns hnames hstep (hother rfl) (fun _ _ he => absurd he List.not_mem_nil) outputCols)).of_subset
            (by simp [Call.made, Call.emitted, Call.saved, Call.stepName])
  | aggregate stepName inputStep groupBy aggregations outputCols =>
    refine (((labels_pass hnames hstep (hother rfl) _ _ inputStep id groupBy).comp
      (labels_feedColumns inputStep (aggregations.map Prod.fst))).comp
        (labels_emitColumns hnames hstep (hother rfl) ?_ outputCols)).of_subset ?_
    · intro column e he
      rw [List.mem_singleton.mp he]
    · simp [Call.made, Call.emitted, Call.saved, Call.stepName]
  | save stepName inputStep filename columns =>
    exact (labels_recordSave hnames hstep inputStep filename columns).of_subset
      (by simp [Call.made, Call.emitted, Call.saved, Call.stepName])
  | pivot | unpivot | wasmCompute =>
    refine (labels_recordReshape hnames hstep (hother rfl) _ _ _ _ _).of_subset ?_
    simp [Call.made, Call.emitted, Call.saved, Call.stepName]

end PipelineIQ.Pipeline.Lineage
