import PipelineIQ.Frontend.PipelineEditor
import PipelineIQ.Frontend.StepNames
import PipelineIQ.Lib.Kahn

namespace PipelineIQ.Frontend.YamlGraph

open PipelineIQ.Lib PipelineIQ.Lib.Strings PipelineIQ.Lib.Yaml PipelineIQ.Pipeline.Parser
open PipelineIQ.Frontend.PipelineEditor PipelineIQ.Frontend.StepNames

/-! ### Topological order -/

section Order

variable {R : Type} (sort : Text → Text → Bool)

/-- The node of an id, of several the last one. -/
def nodeById (nodes : List (PipelineEditor.Node R Entries)) (id : Text) :
    Option (PipelineEditor.Node R Entries) :=
  nodes.reverse.find? fun node => decide (node.id = id)

def endpoints (edges : List Edge) : List (Text × Text) := edges.map fun e => (e.source, e.target)

/-- `topologicalSort`; an empty id ends its loop. -/
def topologicalSort (nodes : List (PipelineEditor.Node R Entries)) (edges : List Edge) :
    Option (List (PipelineEditor.Node R Entries)) :=
  (Kahn.kahn sort List.isEmpty (nodes.map (·.id)) (endpoints edges)).map fun order =>
    order.filterMap (nodeById nodes)

end Order

/-! ### Configurations

A configuration is what the canvas holds for a step; its numbers are finite. -/

def asString : Option Yaml.Node → Text
  | some (.text t) => t
  | _ => []

def asStringArray : Option Yaml.Node → Yaml.Node
  | some (.seq items) => .seq (items.filter Yaml.Node.isText)
  | _ => .seq []

def toRecord : Option Yaml.Node → Entries
  | some (.map entries) => entries
  | _ => []

def asArray : Option Yaml.Node → List Yaml.Node
  | some (.seq items) => items
  | _ => []

/-- `text || fallback`. -/
def orText (t : Text) (fallback : String) : Yaml.Node := .text (if t = [] then fallback.toList else t)

/-- `value ?? fallback`. -/
def nullish (v : Option Yaml.Node) (fallback : Yaml.Node) : Yaml.Node :=
  match v with
  | none | some .null => fallback
  | some v => v

def isNumber : Option Yaml.Node → Bool
  | some (.int _) | some (.float _) => true
  | _ => false

/-- What the browser takes for true: every array and every object too. -/
def jsTruthy : Option Yaml.Node → Bool
  | none => false
  | some (.seq _) | some (.map _) => true
  | some v => v.truthy

def record (fields : List (String × Yaml.Node)) : Entries := fields.map fun f => (key f.1, f.2)

section Normalize

variable (config : Entries)

def field (name : String) : Option Yaml.Node := config.get? (key name)

def normalizeJoinConfigForYaml : Entries :=
  record [("on", .text (asString (field config "on"))),
    ("how", orText (asString (field config "how")) "inner")]

def normalizeAggregateConfigForYaml : Entries :=
  let aggregations := (asArray (field config "aggregations")).filterMap fun agg =>
    let column := trim (asString (field (toRecord (some agg)) "column"))
    let function := trim (asString (field (toRecord (some agg)) "function"))
    if column = [] ∨ function = [] then none
    else some (Yaml.Node.map (record [("column", .text column), ("function", .text function)]))
  record [("group_by", asStringArray (field config "group_by")), ("aggregations", .seq aggregations)]

def normalizePivotConfigForYaml : Entries :=
  record [("index", asStringArray (field config "index")),
    ("columns", .text (asString (field config "columns"))),
    ("values", .text (asString (field config "values"))),
    ("aggfunc", orText (asString (field config "aggfunc")) "sum"),
    ("fill_value", nullish (field config "fill_value") (.int 0))]

def normalizeUnpivotConfigForYaml : Entries :=
  record [("id_vars", asStringArray (field config "id_vars")),
    ("value_vars", asStringArray (field config "value_vars")),
    ("var_name", orText (asString (field config "var_name")) "variable"),
    ("value_name", orText (asString (field config "value_name")) "value")]

def normalizeFillNullsConfigForYaml : Entries :=
  let method := orText (asString (field config "strategy")) "constant"
  record ([("method", method), ("columns", asStringArray (field config "columns"))] ++
    if method.same (str "constant") then
      [("value", nullish (field config "constant_value") (str ""))]
    else [])

def normalizeSampleConfigForYaml : Entries :=
  let n := field config "n"
  let fraction := field config "fraction"
  let randomState := field config "random_state"
  let stratifyBy := trim (asString (field config "stratify_by"))
  record ((if isNumber n && !isNumber fraction then [("n", n.getD .null)] else []) ++
    (if isNumber fraction then [("fraction", fraction.getD .null)] else []) ++
    [("random_state", if isNumber randomState then randomState.getD .null else .int 42)] ++
    if stratifyBy = [] then [] else [("stratify_by", .text stratifyBy)])

def normalizeRenameConfigForYaml : Entries :=
  record [("mapping", .map ((toRecord (field config "mapping")).filterMap fun entry =>
    match entry with
    | (.text column, .text name) =>
      if trim column = [] ∨ trim name = [] then none
      else some (.text column, .text (trim name))
    | _ => none))]

def normalizeValidateConfigForYaml : Entries :=
  let rules := (asArray (field config "rules")).filterMap fun entry =>
    let rule := toRecord (some entry)
    let check := trim (asString (field rule "check"))
    if check = [] then none
    else some (Yaml.Node.map (record ([("check", .text check),
        ("column", .text (trim (asString (field rule "column")))),
        ("severity", orText (trim (asString (field rule "severity"))) "warning")] ++
      match field rule "value" with
      | some value => [("value", value)]
      | none => [])))
  record [("rules", .seq rules)]

def normalizeConfigForYaml : StepType → Entries
  | .load => record [("file_id", .text (asString (field config "file_id")))]
  | .filter => record [("column", .text (asString (field config "column"))),
      ("operator", orText (asString (field config "operator")) "equals"),
      ("value", nullish (field config "value") (str ""))]
  | .join => normalizeJoinConfigForYaml config
  | .aggregate => normalizeAggregateConfigForYaml config
  | .sort => record [("by", .text (asString (field config "by"))),
      ("order", orText (asString (field config "order")) "asc")]
  | .select => record [("columns", asStringArray (field config "columns"))]
  | .transform => record [("column", .text (asString (field config "column"))),
      ("expression", .text (asString (field config "expression")))]
  | .validate => normalizeValidateConfigForYaml config
  | .save => record [("filename", orText (asString (field config "filename")) "output")]
  | .pivot => normalizePivotConfigForYaml config
  | .unpivot => normalizeUnpivotConfigForYaml config
  | .deduplicate => record [("subset", match field config "subset" with
        | some (.seq items) => asStringArray (some (.seq items))
        | _ => .null),
      ("keep", orText (asString (field config "keep")) "first")]
  | .fillNulls => normalizeFillNullsConfigForYaml config
  | .rename => normalizeRenameConfigForYaml config
  | .sample => normalizeSampleConfigForYaml config
  | .sql => record [("query",
      orText (asString (field config "query")) "SELECT *\nFROM \x7b\x7binput\x7d\x7d\nLIMIT 100")]
  | .wasmCompute => record [("wasm_file_id", .text (asString (field config "wasm_file_id"))),
      ("function", .text (asString (field config "function"))),
      ("input_columns", asStringArray (field config "input_columns")),
      ("output_column", orText (asString (field config "output_column")) "result")]
  | .streamConsume => record [("topic", .text (asString (field config "topic"))),
      ("consumer_group", orText (asString (field config "consumer_group")) "pipelineiq-analytics"),
      ("batch_size", if isNumber (field config "batch_size")
        then (field config "batch_size").getD .null else .int 1000),
      ("batch_timeout_ms", if isNumber (field config "batch_timeout_ms")
        then (field config "batch_timeout_ms").getD .null else .int 5000),
      ("deserialize", orText (asString (field config "deserialize")) "json")]
  | .streamPublish => record [("topic", .text (asString (field config "topic"))),
      ("serialize", orText (asString (field config "serialize")) "json"),
      ("key_column", if jsTruthy (field config "key_column")
        then .text (asString (field config "key_column")) else .null)]

end Normalize

/-- A text without the white space and the one pair of quotes around it. -/
def sanitizeYamlValue (value : Text) : Text :=
  let cleaned := trim value
  match cleaned with
  | [] => cleaned
  | first :: rest =>
    let inner := rest.dropLast
    if (first = '"' ∨ first = '\'') ∧ cleaned.getLast? = some first ∧ inner ≠ [] ∧ first ∉ inner then
      inner
    else cleaned

/-- The texts of an array, but not what its objects hold. -/
def sanitizeItem : Yaml.Node → Yaml.Node
  | .text t => .text (sanitizeYamlValue t)
  | v => v

mutual

def sanitizeValue : Yaml.Node → Yaml.Node
  | .text t => .text (sanitizeYamlValue t)
  | .seq items => .seq (items.map sanitizeItem)
  | .map entries => .map (sanitizeConfig entries)
  | .null => .null
  | .bool b => .bool b
  | .int n => .int n
  | .float q => .float q

def sanitizeConfig : List (Key × Yaml.Node) → List (Key × Yaml.Node)
  | [] => []
  | (k, v) :: rest => (k, sanitizeValue v) :: sanitizeConfig rest

end

/-! ### Steps -/

/-- How many inputs a step may have, and has to have. -/
def maxInputs : StepType → Nat
  | .load | .streamConsume => 0
  | .join => 2
  | _ => 1

def minInputs : StepType → Nat := maxInputs

section Emit

variable {R : Type}

def stepTypeOf (node : PipelineEditor.Node R Entries) : Option StepType :=
  node.data.type.bind fun t => StepType.ofNode (.text t)

/-- `Object.assign(step, config)`. -/
def assignAll (step config : Entries) : Entries := config.foldl (fun step e => step.set e.1 e.2) step

/-- The edges into a node from nodes that have a name. -/
def incomingEdges (edges : List Edge) (stepNames : Dict Text Text) (id : Text) : List Edge :=
  (edges.filter fun e => decide (e.target = id)).filter fun e => (stepNames.get? e.source).isSome

/-- The name of an edge's source, empty without an edge. -/
def sourceName (stepNames : Dict Text Text) (edge : Option Edge) : Yaml.Node :=
  .text ((edge.bind fun e => stepNames.get? e.source).getD [])

def leftEdge (incoming : List Edge) : Option Edge :=
  (incoming.find? fun e => decide (e.targetHandle = some "left".toList)).or incoming.head?

/-- The edge of the right handle, or else the first edge that is not the left one. -/
def rightEdge (incoming : List Edge) : Option Edge :=
  (incoming.find? fun e => decide (e.targetHandle = some "right".toList)).or
    (incoming.find? fun e => decide (some e ≠ leftEdge incoming))

def references (stepType : StepType) (stepNames : Dict Text Text) (incoming : List Edge) :
    List (String × Yaml.Node) :=
  if stepType = .join then
    [("left", sourceName stepNames (leftEdge incoming)),
     ("right", sourceName stepNames (rightEdge incoming))]
  else if 0 < maxInputs stepType then [("input", sourceName stepNames incoming.head?)]
  else []

def emitStep (stepName : Text) (stepType : StepType) (refs : List (String × Yaml.Node))
    (config : Entries) : Entries :=
  assignAll (record ([("name", .text stepName), ("type", str stepType.value)] ++ refs))
    (sanitizeConfig (normalizeConfigForYaml config stepType))

/-- The steps of nodes in order; `none` where a node has no type or no configuration. -/
def emitFrom (nodes : List (PipelineEditor.Node R Entries)) (edges : List Edge) :
    Nat → List Text → Dict Text Text → List (PipelineEditor.Node R Entries) → Option (List Entries)
  | _, _, _, [] => some []
  | index, usedStepNames, stepNames, node :: rest => do
    let resolvedNode := (nodeById nodes node.id).getD node
    let stepType ← stepTypeOf resolvedNode
    let config ← resolvedNode.data.config
    let stepName := sanitizeStepName
      (textOr resolvedNode.data.label (stepType.value.toList ++ '_' :: decimal (index + 1)))
      index usedStepNames
    let stepNames := stepNames.set node.id stepName
    let refs := references stepType stepNames (incomingEdges edges stepNames node.id)
    let steps ← emitFrom nodes edges (index + 1) (stepName :: usedStepNames) stepNames rest
    some (emitStep stepName stepType refs config :: steps)

def graphDocument (pipelineName : Text) (steps : List Entries) : Entries :=
  record [("pipeline", .map (record
    [("name", orText (trim pipelineName) "my_pipeline"), ("steps", .seq (steps.map .map))]))]

/-- The steps of a canvas; `none` inside where it has a cycle. -/
def graphSteps (sort : Text → Text → Bool) (nodes : List (PipelineEditor.Node R Entries))
    (edges : List Edge) : Option (Option (List Entries)) :=
  match topologicalSort sort nodes edges with
  | none => some none
  | some ordered => (emitFrom nodes edges 0 [] ∅ ordered).map some

/-- The YAML of a canvas, empty where it has a cycle. `dump` writes a document. -/
def graphToYAML (dump : Yaml.Node → Text) (sort : Text → Text → Bool)
    (nodes : List (PipelineEditor.Node R Entries)) (edges : List Edge) (pipelineName : Text) :
    Option Text :=
  if nodes.isEmpty then
    some ("pipeline:\n  name: ".toList ++ pipelineName ++ "\n  steps: []\n".toList)
  else (graphSteps sort nodes edges).map fun steps => match steps with
    | none => []
    | some steps => dump (.map (graphDocument pipelineName steps))

end Emit

end PipelineIQ.Frontend.YamlGraph
