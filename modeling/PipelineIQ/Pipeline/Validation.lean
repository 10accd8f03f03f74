import PipelineIQ.Lib.Difflib
import PipelineIQ.Lib.Traverse
import PipelineIQ.Execution.SqlBuilder
import PipelineIQ.Pipeline.Parser

namespace PipelineIQ.Pipeline.Validation

open PipelineIQ.Lib PipelineIQ.Lib.Strings PipelineIQ.Lib.Yaml PipelineIQ.Lib.Traverse
open PipelineIQ.Pipeline.Parser PipelineIQ.Execution.SqlBuilder

/-- A problem of a step, or of the pipeline itself where `stepName` is null. -/
structure ValidationError where
  stepName : Node
  field : String
  message : Text
  suggestion : Option Text := none

structure ValidationWarning where
  stepName : Node
  message : Text

structure ValidationResult where
  isValid : Bool
  errors : List ValidationError
  warnings : List ValidationWarning

/-- What a check reports; `none` where it raises. -/
abbrev Checked := Option (List ValidationError)

/-! ### Helpers on strings and objects -/

/-- `getattr(step, name, None)`. -/
def getattr (step : StepConfig) (name : String) : Node :=
  (Dict.find name step.fields).getD .null

/-- `not v or not v.strip()`; only a text has `strip`. -/
def isBlank (v : Node) : Option Bool :=
  if v.truthy then v.asText.map fun t => (strip t).isEmpty else some true

/-- `^[a-zA-Z_][a-zA-Z0-9_]*$`, where the dollar also matches before a final line break. -/
def isIdentifier : Text → Bool
  | c :: t =>
    let body := if t.getLast? = some '\n' then t.dropLast else t
    (c.isAlpha || c == '_') && body.all fun d => d.isAlphanum || d == '_'
  | [] => false

def isValidIdentifier (name : Node) : Option Bool := name.asText.map isIdentifier

/-- `part in filename`. -/
def contains (filename : Node) (part : Text) : Option Bool :=
  match filename with
  | .text t => some (occurs part t)
  | .seq items => some (items.any fun v => v.same (.text part))
  | .map entries => some (entries.any fun e => e.1 == .text part)
  | _ => none

def isSafeFilename (filename : Node) : Option Bool :=
  if !filename.truthy then some false
  else do
    let dots ← contains filename "..".toList
    let slash ← contains filename "/".toList
    let backslash ← contains filename "\\".toList
    some (!(dots || slash || backslash))

instance : Inhabited Key := ⟨.null⟩

def characters (t : Text) : List Key := t.map fun c => .text [c]

/-- A target as a sequence; its elements have to be hashable. -/
def asSequence : Node → Option (Difflib.Sequence Key)
  | .text t => some (.ofList (characters t))
  | .seq items => (items.mapM Node.toKey).map .ofList
  | .map entries => some
    { items := entries.map Prod.fst
      subscript := fun j => (Dict.find (.number j) entries).bind Node.toKey }
  | _ => none

/-- The closest candidate, `none` inside where none is close. A candidate without a length
raises. -/
def findClosestColumn (target : Node) (candidates : List Node) : Option (Option Text) := do
  let word ← asSequence target
  let texts ← candidates.mapM Node.asText
  Difflib.closeMatch (3 / 5) characters (fun a b => decide (a < b)) word texts

def filterOperators : List String :=
  ["equals", "not_equals", "greater_than", "less_than", "gte", "lte", "contains", "not_contains",
    "starts_with", "ends_with", "is_null", "is_not_null"]

def joinHows : List String := ["inner", "left", "right", "outer"]

def sortOrders : List String := ["asc", "desc"]

/-- In the order of `sorted`. -/
def validAggregationFunctions : List String :=
  ["count", "first", "last", "max", "mean", "median", "min", "std", "sum", "var"]

def supportedChecks : List String :=
  ["between", "date_format", "greater_than", "in_values", "less_than", "matches_pattern",
    "max_rows", "min_rows", "no_duplicates", "not_empty", "not_null", "positive"]

/-- Whether a value is a member of an enumeration of texts. -/
def member (values : List String) : Node → Bool
  | .text t => values.any fun s => s.toList == t
  | _ => false

section Checks

variable (py : Python) (u : Unicode) (maxPipelineSteps : Nat) (registeredFileIds : List Text)

def printed (values : List String) : Text := py.str (.seq (values.map str))

def failWhen (stepName : Node) (field : String) (message : Text) (bad : Bool) :
    List ValidationError :=
  if bad then [{ stepName, field, message }] else []

/-! ### The pipeline and the names of its steps -/

def checkPipelineName (config : PipelineConfig) : Checked :=
  (isBlank config.name).map
    (failWhen .null "name" "Pipeline name must be a non-empty string".toList)

def checkHasSteps (config : PipelineConfig) : Checked :=
  some (failWhen .null "steps" "Pipeline must contain at least one step".toList
    config.steps.isEmpty)

def checkStepCountLimit (config : PipelineConfig) : Checked :=
  let n := config.steps.length
  some (failWhen .null "steps" ("Pipeline has ".toList ++ (toString n).toList ++
    " steps, exceeding the limit of ".toList ++ (toString maxPipelineSteps).toList)
    (maxPipelineSteps < n))

/-- `seen[name] = seen.get(name, 0) + 1`; the name first put in stays the key. -/
def countName (seen : List (Key × Node × Nat)) (name : Node) : Option (List (Key × Node × Nat)) :=
  name.toKey.map fun k => match Dict.find k seen with
    | some (first, n) => Dict.assign k (first, n + 1) seen
    | none => Dict.assign k (name, 1) seen

def duplicateName (name : Node) (n : Nat) : ValidationError :=
  { stepName := name
    field := "name"
    message := "Step name '".toList ++ py.str name ++ "' is used ".toList ++
      (toString n).toList ++ " times. Names must be unique.".toList }

def checkDuplicateStepNames (config : PipelineConfig) : Checked := do
  let seen ← (config.steps.map StepConfig.name).foldlM countName []
  some ((seen.filter fun e => 1 < e.2.2).map fun e => duplicateName py e.2.1 e.2.2)

def stepNameFormat (step : StepConfig) : Checked :=
  if !step.name.truthy then some []
  else (isValidIdentifier step.name).map fun valid =>
    failWhen step.name "name" ("Step name '".toList ++ py.str step.name ++
      "' contains invalid characters. Only letters, digits, and underscores are allowed.".toList)
      !valid

def validTypes : List String := StepType.all.map StepType.value

def stepTypeKnown (step : StepConfig) : Checked :=
  match step.stepType with
  | .inl _ => some []
  | .inr v => (findClosestColumn (.text (py.str v)) (validTypes.map str)).map fun suggestion =>
    [{ stepName := step.name
       field := "type"
       message := "Invalid step type '".toList ++ py.str v ++ "'. Valid types: ".toList ++
         printed py validTypes
       suggestion }]

/-! ### Required fields -/

def mustFill (step : StepConfig) (field message : String) : Checked :=
  (isBlank (getattr step field)).map (failWhen step.name field message.toList)

def mustHave (step : StepConfig) (field message : String) : Checked :=
  some (failWhen step.name field message.toList !(getattr step field).truthy)

def isNull : Node → Bool
  | .null => true
  | _ => false

/-- Only a text is looked at. -/
def requiredInput (step : StepConfig) : Checked :=
  match getattr step "input" with
  | .text t => some (failWhen step.name "input"
      "Step must specify a non-empty input reference".toList (strip t).isEmpty)
  | _ => some []

def filterValue (step : StepConfig) : Checked :=
  let operator := getattr step "operator"
  some (failWhen step.name "value" "Filter step must specify a value for this operator".toList
    (member filterOperators operator && !member ["is_null", "is_not_null"] operator &&
      isNull (getattr step "value")))

def sortBy (step : StepConfig) : Checked :=
  let by' := getattr step "by"
  let values := by'.asSeq.getD [by']
  some (failWhen step.name "by" "Sort step must specify a non-empty 'by' column".toList
    !(values.any fun v => !(strip (py.str v)).isEmpty))

def sortOrderKnown (step : StepConfig) : Checked :=
  some (failWhen step.name "order" "Sort step 'order' must be 'asc' or 'desc'".toList
    !member sortOrders (getattr step "order"))

def constantValue (step : StepConfig) : Checked :=
  some (failWhen step.name "value"
    "Fill nulls step with 'constant' strategy must provide a value".toList
    (member ["constant"] (getattr step "strategy") && isNull (getattr step "constant_value")))

def sampleSize (step : StepConfig) : Checked :=
  let n := isNull (getattr step "n")
  let fraction := isNull (getattr step "fraction")
  some (failWhen step.name "sample"
      "Sample step must specify either 'n' or 'fraction'".toList (n && fraction) ++
    failWhen step.name "sample"
      "Sample step must specify only one of 'n' or 'fraction'".toList (!n && !fraction))

/-- A text without `strip` raises here, an empty one too: there is no test before the call. -/
def sqlQuery (step : StepConfig) : Checked :=
  (getattr step "query").asText.map fun t =>
    failWhen step.name "query" "SQL step must provide a non-empty query".toList (strip t).isEmpty

/-- The required fields of a step of a known type, in the order of the source. -/
def requiredFields (step : StepConfig) : StepType → List Checked
  | .load => [mustFill step "file_id" "Load step must specify a non-empty file_id"]
  | .join =>
    [mustFill step "left" "Join step must specify a non-empty left input",
     mustFill step "right" "Join step must specify a non-empty right input"]
  | .filter =>
    [requiredInput step, mustFill step "column" "Filter step must specify a non-empty column",
     filterValue step]
  | .select =>
    [requiredInput step, mustHave step "columns" "Select step must specify at least one column"]
  | .rename =>
    [requiredInput step, mustHave step "mapping" "Rename step must define at least one mapping"]
  | .aggregate =>
    [requiredInput step,
     mustHave step "group_by" "Aggregate step must specify at least one group_by column"]
  | .sort => [requiredInput step, sortBy py step, sortOrderKnown step]
  | .save => [requiredInput step]
  | .validate =>
    [requiredInput step, mustHave step "rules" "Validate step must define at least one rule"]
  | .pivot =>
    [requiredInput step, mustHave step "index" "Pivot step must specify at least one index column",
     mustFill step "columns" "Pivot step must specify a non-empty columns field",
     mustFill step "values" "Pivot step must specify a non-empty values field"]
  | .unpivot =>
    [requiredInput step,
     mustHave step "id_vars" "Unpivot step must define at least one id_vars column",
     mustHave step "value_vars" "Unpivot step must define at least one value_vars column"]
  | .deduplicate => [requiredInput step]
  | .fillNulls => [requiredInput step, constantValue step]
  | .sample => [requiredInput step, sampleSize step]
  | .sql => [requiredInput step, sqlQuery step]
  | .wasmCompute =>
    [requiredInput step,
     mustFill step "wasm_file_id" "wasm_compute step must specify a non-empty wasm_file_id",
     mustFill step "function" "wasm_compute step must specify a non-empty function name",
     mustHave step "input_columns" "wasm_compute step must specify at least one input_column",
     mustFill step "output_column" "wasm_compute step must specify a non-empty output_column"]
  | .transform =>
    [requiredInput step,
     mustFill step "expression" "Transform step must specify a non-empty expression"]
  | .streamConsume =>
    [mustFill step "topic" "Stream consume step must specify a non-empty topic"]
  | .streamPublish =>
    [requiredInput step,
     mustFill step "topic" "Stream publish step must specify a non-empty topic"]

/-- A step without a name is not looked at further. -/
def requiredStepFields (step : StepConfig) : Checked := do
  let unnamed ← isBlank step.name
  if unnamed then
    let stepName := if step.name.truthy then step.name else str "<unnamed>"
    some (failWhen stepName "name" "Step name must be a non-empty string".toList true)
  else
    match step.stepType with
    | .inl t => collect (requiredFields py step t)
    | .inr _ => some []

/-! ### References -/

/-- The references of a step that are checked: an input that is no text is not. -/
def refsToCheck (step : StepConfig) : List (String × Node) :=
  match step.stepType with
  | .inl .join => [("left", getattr step "left"), ("right", getattr step "right")]
  | _ => match getattr step "input" with
    | .text t => [("input", .text t)]
    | _ => []

def unknownReference (availableSteps : List Node) (step : StepConfig) (ref : String × Node) :
    Checked :=
  if ref.2.truthy && !(availableSteps.any fun name => name.same ref.2) then
    (findClosestColumn ref.2 availableSteps).map fun suggestion =>
      [{ stepName := step.name
         field := ref.1
         message := "References '".toList ++ py.str ref.2 ++
           "' which does not exist or comes after this step. Available: ".toList ++
           py.str (.seq availableSteps)
         suggestion }]
  else some []

def validateStepReference (availableSteps : List Node) (step : StepConfig) : Checked :=
  collect ((refsToCheck step).map (unknownReference py availableSteps step))

def checkStepReferencesFrom (seenSteps : List Node) : List StepConfig → List Checked
  | [] => []
  | step :: steps => validateStepReference py seenSteps step ::
      checkStepReferencesFrom (seenSteps ++ [step.name]) steps

/-! ### Options of single step types -/

def loadFileId (step : StepConfig) : Checked :=
  match step.stepType with
  | .inl .load =>
    let fileId := getattr step "file_id"
    (isBlank fileId).map fun blank => failWhen step.name "file_id"
      ("file_id '".toList ++ py.str fileId ++ "' is not registered. Registered IDs: ".toList ++
        py.str (.seq (registeredFileIds.map .text)))
      (!blank && !(registeredFileIds.any fun id => (Node.text id).same fileId))
  | _ => some []

def filterOperator (step : StepConfig) : Checked :=
  match step.stepType with
  | .inl .filter =>
    let operator := getattr step "operator"
    some (failWhen step.name "operator" ("Invalid operator '".toList ++ py.str operator ++
      "'. Valid operators: ".toList ++ printed py filterOperators)
      !member filterOperators operator)
  | _ => some []

def joinConfig (step : StepConfig) : Checked :=
  match step.stepType with
  | .inl .join =>
    let how := getattr step "how"
    some (failWhen step.name "on" "Join step must specify a join key via 'on' field".toList
        (!(getattr step "on").truthy) ++
      failWhen step.name "how" ("Invalid join method '".toList ++ py.str how ++
        "'. Valid methods: ".toList ++ printed py joinHows) !member joinHows how)
  | _ => some []

/-- The function of an aggregation; what is no mapping is itself one. -/
def functionName : Node → Node
  | .map entries => Entries.getD entries (key "function") (str "")
  | v => .text (py.str v)

def aggregationFunction (step : StepConfig) (agg : Node) : Checked :=
  let funcName := functionName py agg
  funcName.toKey.map fun _ => failWhen step.name "aggregations.function"
    ("Invalid aggregation function '".toList ++ py.str funcName ++ "'. Valid functions: ".toList ++
      printed py validAggregationFunctions) !member validAggregationFunctions funcName

def aggregateConfig (step : StepConfig) : Checked :=
  match step.stepType with
  | .inl .aggregate => do
    let aggregations := getattr step "aggregations"
    let items ← aggregations.iterate
    collect (some (failWhen step.name "aggregations"
        "Aggregate step must define at least one aggregation".toList !aggregations.truthy) ::
      items.map (aggregationFunction py step))
  | _ => some []

def saveFilename (step : StepConfig) : Checked :=
  match step.stepType with
  | .inl .save =>
    let filename := getattr step "filename"
    if !filename.truthy then
      some (failWhen step.name "filename" "Save step must specify a filename".toList true)
    else (isSafeFilename filename).map fun safe => failWhen step.name "filename"
      ("Invalid filename '".toList ++ py.str filename ++
        "'. Path traversal characters are forbidden.".toList) !safe
  | _ => some []

def ruleCheck (step : StepConfig) (rule : Node) : Checked := do
  let check := Entries.getD (← rule.asMap) (key "check") (str "")
  let _ ← check.toKey
  some (failWhen step.name "rules" ("Unknown check type '".toList ++ py.str check ++
    "'. Supported: ".toList ++ (", ".toList).intercalate (supportedChecks.map String.toList))
    !member supportedChecks check)

def validateRules (step : StepConfig) : Checked :=
  match step.stepType with
  | .inl .validate => do
    let rules ← (getattr step "rules").iterate
    collect (rules.map (ruleCheck py step))
  | _ => some []

/-- A `ValueError` of the query check becomes a problem of the step. -/
def sqlStep (step : StepConfig) : Checked :=
  match step.stepType with
  | .inl .sql =>
    let checked := match getattr step "query" with
      | .text t => validateSqlStepQuery u true t
      | _ => .error "SQL query must be a non-empty string"
    match checked with
    | .ok _ => some []
    | .error message => some (failWhen step.name "query" message.toList true)
  | _ => some []

def unsupportedRuntimeStep (step : StepConfig) : Checked :=
  match step.stepType with
  | .inl .transform => some (failWhen step.name "type"
      ("Step type 'transform' is not executable: no batch executor is registered for it. " ++
        "Use filter, sql, or another executable step type instead.").toList true)
  | _ => some []

/-- `isinstance` of the config class of a type. -/
def isInstance (t : StepType) (step : StepConfig) : Bool :=
  match step.stepType with
  | .inl s => s == t
  | .inr _ => false

def checkHasSaveStep (config : PipelineConfig) : List ValidationWarning :=
  if config.steps.any (isInstance .save) || config.steps.any (isInstance .streamPublish) then []
  else [⟨.null, ("Pipeline has no 'save' or 'stream_publish' step. Results will be computed " ++
    "but not persisted to an output file.").toList⟩]

/-! ### All checks -/

def forSteps (check : StepConfig → Checked) (config : PipelineConfig) : Checked :=
  collect (config.steps.map check)

def checkStepReferences (config : PipelineConfig) : Checked :=
  collect (checkStepReferencesFrom py [] config.steps)

def checks : List (PipelineConfig → Checked) :=
  [checkPipelineName,
   checkHasSteps,
   checkStepCountLimit maxPipelineSteps,
   checkDuplicateStepNames py,
   forSteps (stepNameFormat py),
   forSteps (stepTypeKnown py),
   forSteps (requiredStepFields py),
   checkStepReferences py,
   forSteps (loadFileId py registeredFileIds),
   forSteps (filterOperator py),
   forSteps (joinConfig py),
   forSteps (aggregateConfig py),
   forSteps (saveFilename py),
   forSteps (validateRules py),
   forSteps (sqlStep u),
   forSteps unsupportedRuntimeStep]

/-- `validate`, `none` where one of its checks raises. -/
def validate (config : PipelineConfig) : Option ValidationResult := do
  let errors ← collect ((checks py u maxPipelineSteps registeredFileIds).map fun check => check config)
  some { isValid := errors.isEmpty, errors, warnings := checkHasSaveStep config }

end Checks

end PipelineIQ.Pipeline.Validation
