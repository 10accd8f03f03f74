import PipelineIQ.Pipeline.Lineage

namespace PipelineIQ.Pipeline.Lineage

open PipelineIQ.Lib PipelineIQ.Lib.Strings

/-! ### What identifiers stand for -/

/-- What a node identifier stands for. -/
inductive NodeKey where
  | file (fileId : Text)
  | step (stepName : Text)
  | column (stepName columnName : Text)
  | output (stepName filename : Text)
  deriving DecidableEq, Repr

def NodeKey.id : NodeKey → Text
  | .file fileId => fileNodeId fileId
  | .step stepName => stepNodeId stepName
  | .column stepName columnName => colNodeId stepName columnName
  | .output stepName filename => outputNodeId stepName filename

/-- The steps that a key is about are among some names. -/
def NodeKey.Of (names : List Text) : NodeKey → Prop
  | .file _ => True
  | .step stepName | .column stepName _ | .output stepName _ => stepName ∈ names

/-- The first letter of an identifier is that of its kind. -/
def NodeKey.letter : NodeKey → Char
  | .file _ => 'f'
  | .step _ => 's'
  | .column _ _ => 'c'
  | .output _ _ => 'o'

theorem NodeKey.head?_id (k : NodeKey) : k.id.head? = some k.letter := by
  cases k <;> rfl

/-- Where no name of a step has a colon, an identifier tells what it is the identifier of. -/
theorem NodeKey.id_inj {names : List Text} (hnames : ∀ t ∈ names, ':' ∉ t) {k l : NodeKey}
    (hk : k.Of names) (hl : l.Of names) (h : k.id = l.id) : k = l := by
  have hletter : k.letter = l.letter := by
    have hhead := congrArg List.head? h
    rw [head?_id, head?_id, Option.some.injEq] at hhead
    exact hhead
  have hsplit : ∀ {kind s s' t t' : Text}, s ∈ names → s' ∈ names →
      kind ++ s ++ "::".toList ++ t = kind ++ s' ++ "::".toList ++ t' → s = s' ∧ t = t' := by
    intro kind s s' t t' hs hs' h
    rw [List.append_assoc, List.append_assoc, List.append_assoc, List.append_assoc] at h
    obtain ⟨rfl, ht⟩ := append_first_inj (hnames s hs) (hnames s' hs') (List.append_cancel_left h)
    exact ⟨rfl, (List.cons.inj ht).2⟩
  cases k with
  | file fileId =>
    cases l with
    | file fileId' => rw [List.append_cancel_left h]
    | _ => simp [NodeKey.letter] at hletter
  | step s =>
    cases l with
    | step s' => rw [List.append_cancel_left h]
    | _ => simp [NodeKey.letter] at hletter
  | column s c =>
    cases l with
    | column s' c' =>
      obtain ⟨rfl, rfl⟩ := hsplit hk hl h
      rfl
    | _ => simp [NodeKey.letter] at hletter
  | output s f =>
    cases l with
    | output s' f' =>
      obtain ⟨rfl, rfl⟩ := hsplit hk hl h
      rfl
    | _ => simp [NodeKey.letter] at hletter

/-! ### Nodes and edges of a call -/

/-- The columns that a call leads into its step, each with the step that has it. -/
def Call.fed : Call → List (Text × Text)
  | .load _ _ _ _ _ => []
  | .passthrough _ _ inputStep columns | .save _ inputStep _ columns
  | .deduplicate _ inputStep columns | .fillNulls _ inputStep columns
  | .sample _ inputStep columns => columns.map (inputStep, ·)
  | .projection _ inputStep kept dropped => (kept ++ dropped).map (inputStep, ·)
  | .rename _ inputStep _ columns => columns.map (inputStep, ·)
  | .join _ leftStep rightStep leftCols rightCols _ _ _ =>
    leftCols.map (leftStep, ·) ++ rightCols.map (rightStep, ·)
  | .aggregate _ inputStep groupBy aggregations _ =>
    (groupBy ++ aggregations.map Prod.fst).map (inputStep, ·)
  | .pivot _ inputStep indexCol columnsCol valuesCol _ =>
    [indexCol, columnsCol, valuesCol].map (inputStep, ·)
  | .unpivot _ inputStep idColumns valueColumns _ =>
    (idColumns ++ valueColumns).map (inputStep, ·)
  | .wasmCompute _ inputStep _ inputColumns _ => inputColumns.map (inputStep, ·)

/-- The columns that a call leads out of its step. -/
def Call.emitted : Call → List Text
  | .load _ _ _ columns _ | .passthrough _ _ _ columns | .wasmCompute _ _ _ _ columns
  | .deduplicate _ _ columns | .fillNulls _ _ columns | .sample _ _ columns => columns
  | .projection _ _ kept _ => kept
  | .rename _ _ mapping columns => columns.map (renamed mapping)
  | .join _ _ _ _ _ outputCols _ _ | .pivot _ _ _ _ _ outputCols
  | .unpivot _ _ _ _ outputCols => outputCols
  | .aggregate _ _ groupBy _ outputCols => groupBy ++ outputCols
  | .save _ _ _ _ => []

/-- The file that a call reads. -/
def Call.files : Call → List Text
  | .load fileId _ _ _ _ => [fileId]
  | _ => []

/-- The file that a call writes. -/
def Call.saved : Call → List Text
  | .save _ _ filename _ => [filename]
  | _ => []

abbrev Edge := NodeKey × NodeKey

def Call.edges (call : Call) : List Edge :=
  call.files.map (fun fileId => (.file fileId, .step call.stepName)) ++
    call.fed.map (fun e => (.column e.1 e.2, .step call.stepName)) ++
    call.emitted.map (fun column => (.step call.stepName, .column call.stepName column)) ++
    call.saved.map fun filename => (.step call.stepName, .output call.stepName filename)

theorem Call.fed_inputs {call : Call} {e : Text × Text} (h : e ∈ call.fed) : e.1 ∈ call.inputs := by
  cases call with
  | load => exact absurd h List.not_mem_nil
  | join =>
    rcases List.mem_append.mp h with h | h
    · obtain ⟨column, -, rfl⟩ := List.mem_map.mp h
      exact List.mem_cons_self
    · obtain ⟨column, -, rfl⟩ := List.mem_map.mp h
      exact List.mem_cons_of_mem _ List.mem_cons_self
  | _ =>
    obtain ⟨column, -, rfl⟩ := List.mem_map.mp h
    exact List.mem_cons_self

theorem Call.mem_edges {call : Call} {e : Edge} : e ∈ call.edges ↔
    (∃ fileId ∈ call.files, (.file fileId, .step call.stepName) = e) ∨
      (∃ p ∈ call.fed, (.column p.1 p.2, .step call.stepName) = e) ∨
      (∃ column ∈ call.emitted, (.step call.stepName, .column call.stepName column) = e) ∨
      ∃ filename ∈ call.saved, (.step call.stepName, .output call.stepName filename) = e := by
  simp only [Call.edges, List.mem_append, List.mem_map, or_assoc]

/-- The nodes that some nodes and edges bring, the ends of the edges included. -/
def Brought (nodes : List NodeKey) (edges : List Edge) (k : NodeKey) : Prop :=
  k ∈ nodes ∨ ∃ e ∈ edges, e.1 = k ∨ e.2 = k

/-- What a function on graphs adds to every graph. -/
structure Draws (draw : Graph → Graph) (nodes : List NodeKey) (edges : List Edge) : Prop where
  node : ∀ g w, w ∈ (draw g).nodes.keys ↔ w ∈ g.nodes.keys ∨ ∃ k, Brought nodes edges k ∧ k.id = w
  edge : ∀ g u v, (draw g).Adj u v ↔ g.Adj u v ∨ ∃ e ∈ edges, e.1.id = u ∧ e.2.id = v

section Drawing

variable {draw draw' : Graph → Graph} {nodes nodes' : List NodeKey} {edges edges' : List Edge}

theorem brought_append {k : NodeKey} : Brought (nodes ++ nodes') (edges ++ edges') k ↔
    Brought nodes edges k ∨ Brought nodes' edges' k := by
  unfold Brought
  rw [or_or_or_comm]
  simp only [List.mem_append, or_and_right, exists_or]

theorem draws_id : Draws id [] [] := by
  constructor <;> simp [Brought]

theorem Draws.comp (h : Draws draw nodes edges) (h' : Draws draw' nodes' edges') :
    Draws (fun g => draw' (draw g)) (nodes ++ nodes') (edges ++ edges') := by
  constructor
  · intro g w
    rw [h'.node, h.node, or_assoc]
    simp only [brought_append, or_and_right, exists_or]
  · intro g u v
    rw [h'.edge, h.edge, or_assoc]
    simp only [List.mem_append, or_and_right, exists_or]

theorem Draws.foldl {α : Type} {f : Graph → α → Graph} {ns : α → List NodeKey}
    {es : α → List Edge} (h : ∀ x, Draws (fun g => f g x) (ns x) (es x)) (xs : List α) :
    Draws (fun g => xs.foldl f g) (xs.flatMap ns) (xs.flatMap es) := by
  induction xs with
  | nil => exact draws_id
  | cons x xs ih => exact (h x).comp ih

/-- The order of what is drawn is of no importance, and nodes that are ends of edges are not. -/
theorem Draws.congr (h : Draws draw nodes edges) (hedges : ∀ e, e ∈ edges ↔ e ∈ edges')
    (hsub : ∀ k ∈ nodes', k ∈ nodes) (hends : ∀ k ∈ nodes, Brought nodes' edges k) :
    Draws draw nodes' edges' := by
  have hsame : ∀ k, Brought nodes edges k ↔ Brought nodes' edges' k := by
    intro k
    have hbrought : Brought nodes edges k ↔ Brought nodes' edges k :=
      ⟨fun hk => hk.elim (hends k) .inr, fun hk => hk.imp_left (hsub k)⟩
    rw [hbrought]
    simp only [Brought, hedges]
  constructor
  · intro g w
    rw [h.node]
    simp only [hsame]
  · intro g u v
    rw [h.edge]
    simp only [hedges]

theorem Draws.perm (h : Draws draw nodes edges) (hedges : ∀ e, e ∈ edges ↔ e ∈ edges') :
    Draws draw nodes edges' :=
  h.congr hedges (fun _ hk => hk) fun _ hk => .inl hk

theorem draws_addNode (k : NodeKey) (attrs : List (String × Text)) :
    Draws (fun g => addNode g k.id attrs) [k] [] := by
  constructor
  · intro g w
    rw [addNode, DiGraph.mem_nodes_addNode]
    simp [Brought, eq_comm, or_comm]
  · intro g u v
    rw [addNode, DiGraph.adj_addNode]
    simp

theorem draws_edge (k l : NodeKey) (data : Option Bool → Bool) :
    Draws (fun g => g.addEdge ∅ k.id l.id data) [] [(k, l)] := by
  constructor
  · intro g w
    rw [DiGraph.mem_nodes_addEdge]
    simp only [Brought, List.not_mem_nil, false_or, List.mem_singleton, exists_eq_left, or_and_right,
      exists_or, exists_eq_left', eq_comm (a := w)]
    tauto
  · intro g u v
    rw [DiGraph.adj_addEdge]
    simp only [List.mem_singleton, exists_eq_left, eq_comm (a := u), eq_comm (a := v)]
    tauto

theorem draws_addStep (stepName label stepType : Text) :
    Draws (fun g => addStep g stepName label stepType) [.step stepName] [] :=
  draws_addNode (.step stepName) _

/-- The columns of a step that are fed into another one. -/
def feeds (inputStep stepName : Text) (columns : List Text) : List Edge :=
  columns.map fun column => (.column inputStep column, .step stepName)

/-- The columns that come out of a step. -/
def emits (stepName : Text) (columns : List Text) : List Edge :=
  columns.map fun column => (.step stepName, .column stepName column)

theorem draws_feedColumns (inputStep stepName : Text) (columns : List Text) :
    Draws (fun g => columns.foldl (feedColumn inputStep stepName) g) []
      (feeds inputStep stepName columns) := by
  have h : ∀ column, Draws (fun g => feedColumn inputStep stepName g column) []
      [(.column inputStep column, .step stepName)] := by
    intro column
    unfold feedColumn addEdge
    exact draws_edge (.column inputStep column) (.step stepName) _
  refine (Draws.foldl h columns).congr ?_ ?_ ?_ <;> simp [feeds, eq_comm]

theorem draws_connectJoinSide (inputStep stepName joinKey : Text) (columns : List Text) :
    Draws (connectJoinSide inputStep columns stepName joinKey) []
      (feeds inputStep stepName columns) := by
  have h : ∀ column, Draws (fun g => g.addEdge ∅ (colNodeId inputStep column)
      (stepNodeId stepName) fun _ => column == joinKey) []
      [(.column inputStep column, .step stepName)] := fun column =>
    draws_edge (.column inputStep column) (.step stepName) _
  refine (Draws.foldl h columns).congr ?_ ?_ ?_ <;> simp [feeds, eq_comm]

/-- The nodes of the columns that come out are ends of edges. -/
theorem draws_emitted {f : Graph → Text → Graph} {stepName : Text}
    (h : ∀ column, Draws (fun g => f g column) [.column stepName column]
      [(.step stepName, .column stepName column)]) (columns : List Text) :
    Draws (fun g => columns.foldl f g) [] (emits stepName columns) := by
  refine (Draws.foldl h columns).congr ?_ ?_ ?_
  · simp [emits, eq_comm]
  · simp
  · intro k hk
    obtain ⟨column, hcolumn, hk⟩ := List.mem_flatMap.mp hk
    obtain rfl := List.mem_singleton.mp hk
    exact .inr ⟨_, List.mem_flatMap.mpr ⟨column, hcolumn, List.mem_singleton.mpr rfl⟩, .inr rfl⟩

theorem draws_emitColumns (attrs : Text → List (String × Text)) (stepName : Text)
    (columns : List Text) :
    Draws (fun g => columns.foldl (emitColumn stepName attrs) g) [] (emits stepName columns) := by
  refine draws_emitted (fun column => ?_) columns
  unfold emitColumn addOutput addEdge
  exact (draws_addNode (.column stepName column) _).comp
    (draws_edge (.step stepName) (.column stepName column) _)

theorem draws_loadColumns (stepName : Text) (dtypes : Text → Option Text) (columns : List Text) :
    Draws (fun g => columns.foldl (loadColumn stepName dtypes) g) [] (emits stepName columns) := by
  refine draws_emitted (fun column => ?_) columns
  unfold loadColumn addEdge
  exact (draws_addNode (.column stepName column) _).comp
    (draws_edge (.step stepName) (.column stepName column) _)

theorem draws_pass (label stepType inputStep stepName : Text) (newName : Text → Text)
    (columns : List Text) : Draws
      (fun g => columns.foldl (passColumnAs inputStep stepName newName)
        (addStep g stepName label stepType)) [.step stepName]
      (feeds inputStep stepName columns ++ emits stepName (columns.map newName)) := by
  have h : ∀ column, Draws (fun g => passColumnAs inputStep stepName newName g column)
      [.column stepName (newName column)]
      [(.column inputStep column, .step stepName),
        (.step stepName, .column stepName (newName column))] := by
    intro column
    unfold passColumnAs addOutput addEdge
    exact ((draws_addNode (.column stepName (newName column)) _).comp
      (draws_edge (.column inputStep column) (.step stepName) _)).comp
        (draws_edge (.step stepName) (.column stepName (newName column)) _)
  refine ((draws_addStep stepName label stepType).comp (.foldl h columns)).congr ?_ ?_ ?_
  · intro e
    simp only [feeds, emits, List.nil_append, List.mem_flatMap, List.mem_cons, List.not_mem_nil,
      or_false, List.mem_append, List.map_map, List.mem_map, Function.comp_apply, and_or_left,
      exists_or, eq_comm (a := e)]
  · simp
  · intro k hk
    rcases List.mem_append.mp hk with hk | hk
    · exact .inl hk
    · obtain ⟨column, hcolumn, hk⟩ := List.mem_flatMap.mp hk
      obtain rfl := List.mem_singleton.mp hk
      exact .inr ⟨_, List.mem_flatMap.mpr ⟨column, hcolumn, List.mem_cons_of_mem _
        (List.mem_singleton.mpr rfl)⟩, .inr rfl⟩

theorem draws_recordReshape (label stepType stepName inputStep : Text)
    (inputColumns outputColumns : List Text) (attrs : Text → List (String × Text)) :
    Draws (recordReshape label stepType stepName inputStep inputColumns outputColumns attrs)
      [.step stepName] (feeds inputStep stepName inputColumns ++ emits stepName outputColumns) :=
  ((draws_addStep stepName label stepType).comp
    (draws_feedColumns inputStep stepName inputColumns)).comp
      (draws_emitColumns attrs stepName outputColumns)

theorem draws_recordLoad (fileId fileName stepName : Text) (columns : List Text)
    (dtypes : Text → Option Text) :
    Draws (recordLoad fileId fileName stepName columns dtypes) [.step stepName]
      ((.file fileId, .step stepName) :: emits stepName columns) := by
  unfold recordLoad addEdge
  refine ((((draws_addNode (.file fileId) _).comp (draws_addStep stepName _ _)).comp
    (draws_edge (.file fileId) (.step stepName) _)).comp
      (draws_loadColumns stepName dtypes columns)).congr ?_ ?_ ?_
  · simp
  · simp
  · intro k hk
    simp only [List.append_nil, List.mem_append, List.mem_singleton] at hk
    rcases hk with rfl | rfl
    · exact .inr ⟨(.file fileId, .step stepName), by simp, .inl rfl⟩
    · exact .inl (List.mem_singleton.mpr rfl)

theorem draws_recordSave (stepName inputStep filename : Text) (columns : List Text) :
    Draws (recordSave stepName inputStep filename columns) [.step stepName]
      (feeds inputStep stepName columns ++ [(.step stepName, .output stepName filename)]) := by
  unfold recordSave addEdge
  refine ((((draws_addStep stepName _ _).comp (draws_addNode (.output stepName filename) _)).comp
    (draws_feedColumns inputStep stepName columns)).comp
      (draws_edge (.step stepName) (.output stepName filename) _)).congr ?_ ?_ ?_
  · simp
  · simp
  · intro k hk
    simp only [List.append_nil, List.mem_append, List.mem_singleton] at hk
    rcases hk with rfl | rfl
    · exact .inl (List.mem_singleton.mpr rfl)
    · exact .inr ⟨(.step stepName, .output stepName filename), by simp, .inr rfl⟩

/-- A call draws its step, and its edges with their ends. -/
theorem draws_record (call : Call) : Draws (record call) [.step call.stepName] call.edges := by
  cases call with
  | load fileId fileName stepName columns dtypes =>
    refine (draws_recordLoad fileId fileName stepName columns dtypes).perm ?_
    simp [Call.edges, Call.files, Call.fed, Call.emitted, Call.saved, Call.stepName, emits]
  | passthrough | rename | deduplicate | fillNulls | sample =>
    refine (draws_pass _ _ _ _ _ _).perm ?_
    simp [Call.edges, Call.files, Call.fed, Call.emitted, Call.saved, Call.stepName, feeds, emits]
  | projection stepName inputStep kept dropped =>
    refine ((draws_pass _ _ inputStep stepName id kept).comp
      (draws_feedColumns inputStep stepName dropped)).perm ?_
    simp [Call.edges, Call.files, Call.fed, Call.emitted, Call.saved, Call.stepName, feeds, emits]
    exact fun _ _ => or_congr_right or_comm
  | join stepName leftStep rightStep leftCols rightCols outputCols joinKey how =>
    refine ((((draws_addStep stepName _ _).comp
      (draws_connectJoinSide leftStep stepName joinKey leftCols)).comp
        (draws_connectJoinSide rightStep stepName joinKey rightCols)).comp
          (draws_emitColumns (fun _ => []) stepName outputCols)).perm ?_
    simp [Call.edges, Call.files, Call.fed, Call.emitted, Call.saved, Call.stepName, feeds, emits]
  | aggregate stepName inputStep groupBy aggregations outputCols =>
    refine (((draws_pass _ _ inputStep stepName id groupBy).comp
      (draws_feedColumns inputStep stepName (aggregations.map Prod.fst))).comp
        (draws_emitColumns _ stepName outputCols)).perm ?_
    simp [Call.edges, Call.files, Call.fed, Call.emitted, Call.saved, Call.stepName, feeds, emits]
    exact fun _ _ => or_congr_right or_left_comm
  | save stepName inputStep filename columns =>
    refine (draws_recordSave stepName inputStep filename columns).perm ?_
    simp [Call.edges, Call.files, Call.fed, Call.emitted, Call.saved, Call.stepName, feeds]
  | pivot | unpivot | wasmCompute =>
    refine (draws_recordReshape _ _ _ _ _ _ _).perm ?_
    simp [Call.edges, Call.files, Call.fed, Call.emitted, Call.saved, Call.stepName, feeds, emits]

end Drawing

end PipelineIQ.Pipeline.Lineage
