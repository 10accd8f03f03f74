import PipelineIQ.Frontend.CanvasEditing

namespace PipelineIQ.Frontend.YamlToGraph

open PipelineIQ.Lib PipelineIQ.Lib.Strings PipelineIQ.Lib.Yaml PipelineIQ.Pipeline.Parser
open PipelineIQ.Frontend.PipelineEditor PipelineIQ.Frontend.StepNames PipelineIQ.Frontend.YamlGraph
open PipelineIQ.Frontend.CanvasEditing

/-! ### The kinds of steps -/

/-- The properties that every object of the browser inherits, and so `STEP_DEFINITIONS` too. -/
def inheritedProperties : List String :=
  ["constructor", "__defineGetter__", "__defineSetter__", "hasOwnProperty", "__lookupGetter__",
    "__lookupSetter__", "isPrototypeOf", "propertyIsEnumerable", "toString", "valueOf", "__proto__",
    "toLocaleString"]

/-- `value in STEP_DEFINITIONS`. -/
def isVisualStepType (value : Text) : Bool :=
  (StepType.ofNode (.text value)).isSome || decide (value ∈ inheritedProperties.map String.toList)

/-- The label of a definition, and the text of a missing one. -/
def labelOf (stepType : Text) : Text :=
  match StepType.ofNode (.text stepType) with
  | some t => (label t).toList
  | none => "undefined".toList

/-! ### Ids -/

/-- The lower case of a character. Only two beyond the first 128 have letters of those in theirs. -/
def lower (c : Char) : Text :=
  if c = '\u212A' then ['k']
  else if c = '\u0130' then ['i', '\u0307']
  else [c.toLower]

/-- There are no capitals left that `underscored` could keep. -/
def normalizedId (stepName : Text) : Text :=
  stripUnderscores (underscored false (stepName.flatMap lower))

def makeNodeId (stepName : Text) (index : Nat) (usedIds : List Text) : Text :=
  let normalized := normalizedId stepName
  let base := if normalized = [] then "step_".toList ++ decimal (index + 1) else normalized
  firstUnused base usedIds usedIds.length 0

/-! ### Configurations -/

def delete (config : Entries) (name : String) : Entries := config.filter fun e => decide (e.1 ≠ key name)

/-- The step without the fields that no configuration has. -/
def ownConfig (step : Entries) : Entries :=
  ["name", "type", "input", "left", "right"].foldl delete step

def normalizeFillNullsConfigForUi (step : Entries) : Entries :=
  let config := ownConfig step
  let config := match field config "method" with
    | some (.text method) => config.set (key "strategy") (.text method)
    | _ => config
  let config := match field config "value", field config "constant_value" with
    | some value, none => config.set (key "constant_value") value
    | _, _ => config
  delete (delete config "method") "value"

def normalizeSortConfigForUi (step : Entries) : Entries :=
  let config := ownConfig step
  let config := match field config "by" with
    | some (.seq items) =>
      config.set (key "by") ((items.find? Yaml.Node.isText).getD (str ""))
    | _ => config
  let config := match jsTruthy (field config "order"), field config "ascending" with
    | false, some (.seq (.bool ascending :: _)) =>
      config.set (key "order") (str (if ascending then "asc" else "desc"))
    | _, _ => config
  delete config "ascending"

def normalizeSampleConfigForUi (step : Entries) : Entries :=
  let config := ownConfig step
  let config := match field config "frac", field config "fraction" with
    | some frac, none => config.set (key "fraction") frac
    | _, _ => config
  delete config "frac"

def extractConfigForUi (stepType : Text) (step : Entries) : Entries :=
  match StepType.ofNode (.text stepType) with
  | some .fillNulls => normalizeFillNullsConfigForUi step
  | some .sort => normalizeSortConfigForUi step
  | some .sample => normalizeSampleConfigForUi step
  | _ => ownConfig step

/-! ### The canvas of some steps

The places of the nodes on the canvas are left out. -/

abbrev BuilderNode := PipelineEditor.Node Unit Entries

structure BuilderGraph where
  pipelineName : Text
  nodes : List BuilderNode
  edges : List Edge

def stepTypeText (step : Entries) : Text :=
  let rawType := asString (field step "type")
  if isVisualStepType rawType then rawType else "transform".toList

def stepNameText (step : Entries) (index : Nat) : Text :=
  let name := trim (asString (field step "name"))
  if name = [] then labelOf (stepTypeText step) ++ '_' :: decimal (index + 1) else name

def buildNode (step : Entries) (index : Nat) (usedIds : List Text) : BuilderNode where
  id := makeNodeId (stepNameText step index) index usedIds
  type := some "stepNode".toList
  position := ((), ())
  data :=
    { type := some (stepTypeText step)
      name := none
      config := some (extractConfigForUi (stepTypeText step) step)
      inferredSchema := none
      validationError := none
      label := some (stepNameText step index)
      backendSupported := (StepType.ofNode (.text (stepTypeText step))).map backendSupported }
  selected := none
  width := none
  height := none

def buildNodes : Nat → List Text → List Entries → List BuilderNode
  | _, _, [] => []
  | index, usedIds, step :: steps =>
    let node := buildNode step index usedIds
    node :: buildNodes (index + 1) (node.id :: usedIds) steps

/-- The id of the node with a label, of several the last one. -/
def stepNameToNodeId (nodes : List BuilderNode) (stepName : Text) : Option Text :=
  (nodes.reverse.find? fun node => decide (node.data.label = some stepName)).map (·.id)

def toEdge (source target targetHandle : Text) (animated : Bool) : Edge where
  id := toEdgeId source target targetHandle
  source
  target
  sourceHandle := some "output".toList
  targetHandle := some targetHandle
  animated := some animated
  style := none

/-- The edge for a reference of a step, where it is the name of one. -/
def referenceEdge (nodes : List BuilderNode) (step : Entries) (target : Text) (handle : String)
    (animated : Bool) : List Edge :=
  match stepNameToNodeId nodes (trim (asString (field step handle))) with
  | some source => [toEdge source target handle.toList animated]
  | none => []

def stepEdges (nodes : List BuilderNode) (step : Entries) (node : BuilderNode) : List Edge :=
  if node.data.type = some "join".toList then
    referenceEdge nodes step node.id "left" true ++ referenceEdge nodes step node.id "right" true
  else referenceEdge nodes step node.id "input" false

def buildEdges (nodes : List BuilderNode) (steps : List Entries) : List Edge :=
  (steps.zip nodes).flatMap fun p => stepEdges nodes p.1 p.2

def buildGraphFromSteps (pipelineName : Text) (rawSteps : List Yaml.Node) : BuilderGraph :=
  let steps := rawSteps.map fun step => toRecord (some step)
  let nodes := buildNodes 0 [] steps
  { pipelineName, nodes, edges := buildEdges nodes steps }

/-! ### The canvas of a text -/

structure YamlParseDiagnostics where
  graph : BuilderGraph
  error : Option Text

def emptyGraph : BuilderGraph := ⟨"my_pipeline".toList, [], []⟩

/-- The browser's reader, with the message of its error, and its writer. Dates are objects without
entries. -/
structure JsYaml where
  load : Text → Except Text Yaml.Node
  dump : Yaml.Node → Text

variable (js : JsYaml)

def parseYamlWithDiagnostics (yamlText : Text) : YamlParseDiagnostics :=
  if trim yamlText = [] then ⟨emptyGraph, none⟩
  else match js.load yamlText with
    | .error message => ⟨emptyGraph, some message⟩
    | .ok (.map rawRoot) =>
      let pipelineRaw := toRecord (some (nullish (field rawRoot "pipeline") (.map rawRoot)))
      let name := trim (asString (field pipelineRaw "name"))
      let pipelineName := if name = [] then "my_pipeline".toList else name
      let rawSteps := asArray (field pipelineRaw "steps")
      if rawSteps = [] then ⟨⟨pipelineName, [], []⟩, none⟩
      else ⟨buildGraphFromSteps pipelineName rawSteps, none⟩
    | .ok _ => ⟨emptyGraph, some "Pipeline YAML must be a mapping with steps.".toList⟩

def yamlToGraph (yamlText : Text) : BuilderGraph := (parseYamlWithDiagnostics js yamlText).graph

end PipelineIQ.Frontend.YamlToGraph
