import PipelineIQ.Lib.DiGraph
import PipelineIQ.Lib.Strings

namespace PipelineIQ.Pipeline.Lineage

open PipelineIQ.Lib PipelineIQ.Lib.Strings

/-! ### Node identifiers -/

def fileNodeId (fileId : Text) : Text := "file::".toList ++ fileId

def colNodeId (stepName columnName : Text) : Text :=
  "col::".toList ++ stepName ++ "::".toList ++ columnName

def stepNodeId (stepName : Text) : Text := "step::".toList ++ stepName

def outputNodeId (stepName filename : Text) : Text :=
  "output::".toList ++ stepName ++ "::".toList ++ filename

/-! ### The graph -/

/-- The attributes of a node; an edge only has the mark of a join key. -/
abbrev Attrs := Dict String Text

abbrev Graph := DiGraph Text Attrs Bool

def update (attrs : Attrs) (new : List (String × Text)) : Attrs :=
  new.foldl (fun attrs e => attrs.set e.1 e.2) attrs

def addNode (g : Graph) (nodeId : Text) (attrs : List (String × Text)) : Graph :=
  g.addNode nodeId fun old => update (old.getD ∅) attrs

def addEdge (g : Graph) (source target : Text) : Graph :=
  g.addEdge ∅ source target fun old => old.getD false

def addStep (g : Graph) (stepName label stepType : Text) : Graph :=
  addNode g (stepNodeId stepName) [("node_type", "step".toList), ("label", label),
    ("step_name", stepName), ("step_type", stepType)]

def addOutput (g : Graph) (stepName column : Text) (attrs : List (String × Text)) : Graph :=
  addNode g (colNodeId stepName column) ([("node_type", "output_column".toList),
    ("label", column), ("step_name", stepName), ("column_name", column)] ++ attrs)

/-- A column that flows into a step. -/
def feedColumn (inputStep stepName : Text) (g : Graph) (column : Text) : Graph :=
  addEdge g (colNodeId inputStep column) (stepNodeId stepName)

/-- A column that comes out of a step. -/
def emitColumn (stepName : Text) (attrs : Text → List (String × Text)) (g : Graph)
    (column : Text) : Graph :=
  addEdge (addOutput g stepName column (attrs column)) (stepNodeId stepName)
    (colNodeId stepName column)

/-- A column that a step passes on, under its new name. -/
def passColumnAs (inputStep stepName : Text) (newName : Text → Text) (g : Graph)
    (column : Text) : Graph :=
  addEdge (addEdge (addOutput g stepName (newName column) []) (colNodeId inputStep column)
    (stepNodeId stepName)) (stepNodeId stepName) (colNodeId stepName (newName column))

def passColumn (inputStep stepName : Text) : Graph → Text → Graph :=
  passColumnAs inputStep stepName id

/-! ### Recording a step -/

def loadColumn (stepName : Text) (dtypes : Text → Option Text) (g : Graph) (column : Text) : Graph :=
  addEdge (addNode g (colNodeId stepName column) [("node_type", "source_column".toList),
    ("label", column), ("step_name", stepName), ("column_name", column),
    ("data_type", (dtypes column).getD "unknown".toList)]) (stepNodeId stepName)
    (colNodeId stepName column)

def recordLoad (fileId fileName stepName : Text) (columns : List Text)
    (dtypes : Text → Option Text) (g : Graph) : Graph :=
  let g := addNode g (fileNodeId fileId) [("node_type", "source_file".toList),
    ("label", fileName), ("step_name", stepName), ("file_name", fileName)]
  let g := addStep g stepName ("Load: ".toList ++ fileName) "load".toList
  let g := addEdge g (fileNodeId fileId) (stepNodeId stepName)
  columns.foldl (loadColumn stepName dtypes) g

/-- `str.title`, each letter after a letter in lower case and each other one in upper case. -/
def title : Bool → Text → Text
  | _, [] => []
  | afterLetter, c :: t => (if afterLetter then c.toLower else c.toUpper) :: title c.isAlpha t

def recordPassthrough (stepName stepType inputStep : Text) (columns : List Text) (g : Graph) :
    Graph :=
  columns.foldl (passColumn inputStep stepName)
    (addStep g stepName (title false stepType ++ ": ".toList ++ stepName) stepType)

def recordProjection (stepName inputStep : Text) (keptColumns droppedColumns : List Text)
    (g : Graph) : Graph :=
  let g := addStep g stepName ("Select: ".toList ++ stepName) "select".toList
  let g := keptColumns.foldl (passColumn inputStep stepName) g
  droppedColumns.foldl (feedColumn inputStep stepName) g

def renamed (renameMapping : Dict Text Text) (column : Text) : Text :=
  (renameMapping.get? column).getD column

def recordRename (stepName inputStep : Text) (renameMapping : Dict Text Text)
    (allColumns : List Text) (g : Graph) : Graph :=
  allColumns.foldl (passColumnAs inputStep stepName (renamed renameMapping))
    (addStep g stepName ("Rename: ".toList ++ stepName) "rename".toList)

/-- One side of a join, with the edges of its key marked. -/
def connectJoinSide (inputStep : Text) (columns : List Text) (stepName joinKey : Text)
    (g : Graph) : Graph :=
  columns.foldl (fun g column => g.addEdge ∅ (colNodeId inputStep column) (stepNodeId stepName)
    fun _ => column == joinKey) g

def recordJoin (stepName leftStep rightStep : Text) (leftCols rightCols outputCols : List Text)
    (joinKey how : Text) (g : Graph) : Graph :=
  let g := addStep g stepName ("Join (".toList ++ how ++ "): ".toList ++ stepName) "join".toList
  let g := connectJoinSide leftStep leftCols stepName joinKey g
  let g := connectJoinSide rightStep rightCols stepName joinKey g
  outputCols.foldl (emitColumn stepName fun _ => []) g

/-- The input column of each output column of an aggregation, as far as its name tells. -/
def outputToInput (groupByCols : List Text) (aggregations : List (Text × Text)) : Dict Text Text :=
  let grouped := groupByCols.foldl (fun d column => d.set column column) ∅
  aggregations.foldl (fun d agg => d.set (agg.1 ++ '_' :: agg.2) agg.1) grouped

def recordAggregate (stepName inputStep : Text) (groupByCols : List Text)
    (aggregations : List (Text × Text)) (outputCols : List Text) (g : Graph) : Graph :=
  let g := addStep g stepName ("Aggregate: ".toList ++ stepName) "aggregate".toList
  let g := groupByCols.foldl (passColumn inputStep stepName) g
  let g := (aggregations.map Prod.fst).foldl (feedColumn inputStep stepName) g
  let source := fun column => ((outputToInput groupByCols aggregations).get? column).getD column
  outputCols.foldl (emitColumn stepName fun column => [("source_column", source column)]) g

def recordSave (stepName inputStep filename : Text) (columns : List Text) (g : Graph) : Graph :=
  let g := addStep g stepName ("Save: ".toList ++ filename) "save".toList
  let g := addNode g (outputNodeId stepName filename) [("node_type", "output_file".toList),
    ("label", filename), ("step_name", stepName), ("file_name", filename)]
  let g := columns.foldl (feedColumn inputStep stepName) g
  addEdge g (stepNodeId stepName) (outputNodeId stepName filename)

/-- A step that reads some columns and puts out others. -/
def recordReshape (label stepType stepName inputStep : Text) (inputColumns outputColumns : List Text)
    (attrs : Text → List (String × Text)) (g : Graph) : Graph :=
  let g := addStep g stepName label stepType
  let g := inputColumns.foldl (feedColumn inputStep stepName) g
  outputColumns.foldl (emitColumn stepName attrs) g

def recordPivot (stepName inputStep indexCol columnsCol valuesCol : Text)
    (outputColumns : List Text) : Graph → Graph :=
  recordReshape ("Pivot: ".toList ++ stepName) "pivot".toList stepName inputStep
    [indexCol, columnsCol, valuesCol] outputColumns fun _ => []

def recordUnpivot (stepName inputStep : Text) (idColumns valueColumns outputColumns : List Text) :
    Graph → Graph :=
  recordReshape ("Unpivot: ".toList ++ stepName) "unpivot".toList stepName inputStep
    (idColumns ++ valueColumns) outputColumns fun _ => []

def recordWasmCompute (stepName inputStep functionName : Text) (inputColumns : List Text)
    (columns : List Text) (g : Graph) : Graph :=
  recordReshape ("Wasm UDF: ".toList ++ stepName ++ '(' :: functionName ++ [')'])
    "wasm_compute".toList stepName inputStep inputColumns columns (fun _ => []) g

/-- A step that keeps the columns and changes the rows. -/
def recordRows (label stepType stepName inputStep : Text) (columns : List Text) (g : Graph) : Graph :=
  columns.foldl (passColumn inputStep stepName) (addStep g stepName label stepType)

def recordDeduplicate (stepName inputStep : Text) (columns : List Text) : Graph → Graph :=
  recordRows ("Deduplicate: ".toList ++ stepName) "deduplicate".toList stepName inputStep columns

def recordFillNulls (stepName inputStep : Text) (columns : List Text) : Graph → Graph :=
  recordRows ("Fill Nulls: ".toList ++ stepName) "fill_nulls".toList stepName inputStep columns

def recordSample (stepName inputStep : Text) (columns : List Text) : Graph → Graph :=
  recordRows ("Sample: ".toList ++ stepName) "sample".toList stepName inputStep columns

/-- A call of the recorder, as the executor of a step makes it. -/
inductive Call where
  | load (fileId fileName stepName : Text) (columns : List Text) (dtypes : Text → Option Text)
  | passthrough (stepName stepType inputStep : Text) (columns : List Text)
  | projection (stepName inputStep : Text) (keptColumns droppedColumns : List Text)
  | rename (stepName inputStep : Text) (renameMapping : Dict Text Text) (allColumns : List Text)
  | join (stepName leftStep rightStep : Text) (leftCols rightCols outputCols : List Text)
      (joinKey how : Text)
  | aggregate (stepName inputStep : Text) (groupByCols : List Text)
      (aggregations : List (Text × Text)) (outputCols : List Text)
  | save (stepName inputStep filename : Text) (columns : List Text)
  | pivot (stepName inputStep indexCol columnsCol valuesCol : Text) (outputColumns : List Text)
  | unpivot (stepName inputStep : Text) (idColumns valueColumns outputColumns : List Text)
  | wasmCompute (stepName inputStep functionName : Text) (inputColumns columns : List Text)
  | deduplicate (stepName inputStep : Text) (columns : List Text)
  | fillNulls (stepName inputStep : Text) (columns : List Text)
  | sample (stepName inputStep : Text) (columns : List Text)

def record : Call → Graph → Graph
  | .load fileId fileName stepName columns dtypes => recordLoad fileId fileName stepName columns dtypes
  | .passthrough stepName stepType inputStep columns =>
    recordPassthrough stepName stepType inputStep columns
  | .projection stepName inputStep kept dropped => recordProjection stepName inputStep kept dropped
  | .rename stepName inputStep mapping columns => recordRename stepName inputStep mapping columns
  | .join stepName leftStep rightStep leftCols rightCols outputCols joinKey how =>
    recordJoin stepName leftStep rightStep leftCols rightCols outputCols joinKey how
  | .aggregate stepName inputStep groupBy aggregations outputCols =>
    recordAggregate stepName inputStep groupBy aggregations outputCols
  | .save stepName inputStep filename columns => recordSave stepName inputStep filename columns
  | .pivot stepName inputStep indexCol columnsCol valuesCol outputColumns =>
    recordPivot stepName inputStep indexCol columnsCol valuesCol outputColumns
  | .unpivot stepName inputStep idColumns valueColumns outputColumns =>
    recordUnpivot stepName inputStep idColumns valueColumns outputColumns
  | .wasmCompute stepName inputStep functionName inputColumns columns =>
    recordWasmCompute stepName inputStep functionName inputColumns columns
  | .deduplicate stepName inputStep columns => recordDeduplicate stepName inputStep columns
  | .fillNulls stepName inputStep columns => recordFillNulls stepName inputStep columns
  | .sample stepName inputStep columns => recordSample stepName inputStep columns

def Call.stepName : Call → Text
  | .load _ _ stepName _ _ | .passthrough stepName _ _ _ | .projection stepName _ _ _
  | .rename stepName _ _ _ | .join stepName _ _ _ _ _ _ _ | .aggregate stepName _ _ _ _
  | .save stepName _ _ _ | .pivot stepName _ _ _ _ _ | .unpivot stepName _ _ _ _
  | .wasmCompute stepName _ _ _ _ | .deduplicate stepName _ _ | .fillNulls stepName _ _
  | .sample stepName _ _ => stepName

/-- The steps whose columns a call reads. -/
def Call.inputs : Call → List Text
  | .load _ _ _ _ _ => []
  | .join _ leftStep rightStep _ _ _ _ _ => [leftStep, rightStep]
  | .passthrough _ _ inputStep _ | .projection _ inputStep _ _ | .rename _ inputStep _ _
  | .aggregate _ inputStep _ _ _ | .save _ inputStep _ _ | .pivot _ inputStep _ _ _ _
  | .unpivot _ inputStep _ _ _ | .wasmCompute _ inputStep _ _ _ | .deduplicate _ inputStep _
  | .fillNulls _ inputStep _ | .sample _ inputStep _ => [inputStep]

/-! ### Layout -/

def LAYER_X_SPACING : Nat := 300
def NODE_Y_SPACING : Nat := 80

def nodeTypeMap : List (String × String) :=
  [("source_file", "sourceFile"), ("source_column", "columnNode"), ("step", "stepNode"),
    ("output_column", "columnNode"), ("output_file", "outputFile")]

structure ReactFlowNode where
  id : Text
  type : Text
  label : Text
  nodeType : Text
  stepName : Option Text
  columnName : Option Text
  dataType : Option Text
  fileName : Option Text
  x : Nat
  y : Nat

structure ReactFlowEdge where
  id : Text
  source : Text
  target : Text
  animated : Bool
  style : Option Text

def assignLayers (g : Graph) (topoOrder : List Text) : Dict Nat (List Text) :=
  (g.layerMap topoOrder).entries.foldl (fun layers e => layers.push e.2 e.1) ∅

def reactFlowNode (g : Graph) (nodeId : Text) (x y : Nat) : ReactFlowNode :=
  let attrs := (g.nodes.get? nodeId).getD ∅
  let nodeType := (attrs.get? "node_type").getD "step".toList
  { id := nodeId
    type := (((nodeTypeMap.find? fun e => e.1.toList = nodeType).map Prod.snd).getD "stepNode").toList
    label := (attrs.get? "label").getD nodeId
    nodeType
    stepName := attrs.get? "step_name"
    columnName := attrs.get? "column_name"
    dataType := attrs.get? "data_type"
    fileName := attrs.get? "file_name"
    x
    y }

def positionNodes (g : Graph) (layers : Dict Nat (List Text)) : List ReactFlowNode :=
  (layers.keys.mergeSort (· ≤ ·)).flatMap fun layer =>
    ((layers.get? layer).getD []).zipIdx.map fun e =>
      reactFlowNode g e.1 (layer * LAYER_X_SPACING) (e.2 * NODE_Y_SPACING)

/-- The nodes of the layout; where the graph has a cycle there is no topological order and the
order of insertion stands in for it. -/
def buildReactFlowNodes (topologicalSort : Graph → Option (List Text)) (g : Graph) :
    List ReactFlowNode :=
  positionNodes g (assignLayers g ((topologicalSort g).getD g.nodes.keys))

def buildReactFlowEdges (g : Graph) : List ReactFlowEdge :=
  let edges := g.nodes.keys.flatMap fun u => g.edges.entries.filter fun e => e.1.1 = u
  edges.zipIdx.map fun e =>
    { id := "edge-".toList ++ e.2.repr.toList
      source := e.1.1.1
      target := e.1.1.2
      animated := e.1.2
      style := if e.1.2 then some "#ff6b6b".toList else none }

end PipelineIQ.Pipeline.Lineage
