import PipelineIQ.Lib.Yaml

namespace PipelineIQ.Pipeline.Parser

open PipelineIQ.Lib.Strings PipelineIQ.Lib.Yaml

inductive StepType where
  | load | filter | select | rename | join | aggregate | sort | save | validate | pivot | unpivot
  | deduplicate | fillNulls | sample | sql | wasmCompute | transform | streamConsume
  | streamPublish
  deriving DecidableEq, Repr

def StepType.value : StepType → String
  | .load => "load"
  | .filter => "filter"
  | .select => "select"
  | .rename => "rename"
  | .join => "join"
  | .aggregate => "aggregate"
  | .sort => "sort"
  | .save => "save"
  | .validate => "validate"
  | .pivot => "pivot"
  | .unpivot => "unpivot"
  | .deduplicate => "deduplicate"
  | .fillNulls => "fill_nulls"
  | .sample => "sample"
  | .sql => "sql"
  | .wasmCompute => "wasm_compute"
  | .transform => "transform"
  | .streamConsume => "stream_consume"
  | .streamPublish => "stream_publish"

def StepType.all : List StepType :=
  [.load, .filter, .select, .rename, .join, .aggregate, .sort, .save, .validate, .pivot, .unpivot,
    .deduplicate, .fillNulls, .sample, .sql, .wasmCompute, .transform, .streamConsume,
    .streamPublish]

def StepType.ofNode : Node → Option StepType
  | .text t => StepType.all.find? fun s => s.value.toList = t
  | _ => none

/-! ### Reading a field -/

/-- The text that Python's `str` makes of a value other than a text. -/
structure Python where
  print : Node → Text

def Python.str (py : Python) : Node → Text
  | .text t => t
  | v => py.print v

/-- Digits in groups, one underscore between two groups. -/
def parseDigits (t : Text) : Option Nat :=
  let groups := t.splitOn '_'
  if groups.all (fun g => !g.isEmpty && g.all Char.isDigit) then
    some (groups.flatten.foldl (fun n c => 10 * n + (c.toNat - '0'.toNat)) 0)
  else none

/-- Python's `int`, `none` where it raises. -/
def int : Node → Option Node
  | .int n => some (.int n)
  | .bool b => some (.int (if b then 1 else 0))
  | .float q => some (.int (q.num.tdiv q.den))
  | .text t => match strip t with
    | '-' :: t => (parseDigits t).map fun n => .int (-n)
    | '+' :: t => (parseDigits t).map fun n => .int n
    | t => (parseDigits t).map fun n => .int n
  | _ => none

/-- A field of a step: the raw value it has in a step's mapping, and what the step config holds
for that value (`none` raises). Members of an enumeration are their texts. -/
structure Field where
  name : String
  value : Entries → Node
  convert : Node → Option Node

/-- `raw.get(name, default)`. -/
def rawGet (name : String) (default : Node) : Field where
  name := name
  value raw := raw.getD (key name) default
  convert v := some v

def rawGetWith (name : String) (default : Node) (convert : Node → Option Node) : Field :=
  { rawGet name default with convert }

/-- A bare `on` is the boolean of YAML, so both keys are tried. -/
def onValue (raw : Entries) : Node :=
  let on := raw.getD (key "on") (str "")
  if on.truthy then on else raw.getD (.number 1) (str "")

def onField (py : Python) : Field where
  name := "on"
  value := onValue
  convert v := some (if v.truthy then .text (py.str v) else str "")

/-- `SortOrder(str(order).lower())` or the value itself. -/
def sortOrder (py : Python) (v : Node) : Node :=
  let t := lowerCase (py.str v)
  if t = "asc".toList ∨ t = "desc".toList then .text t else v

def indexList : Node → Node
  | .text t => .seq [.text t]
  | v => v

/-- A mapping of columns to functions as a list of aggregations. -/
def aggregationList : Node → Node
  | .map entries => .seq (entries.map fun e =>
      .map [(key "column", e.1.toNode), (key "function", e.2)])
  | v => v

section Builders

variable (py : Python)

def input : Field := rawGet "input" (str "")

def buildTypedStep : StepType → List Field
  | .load => [rawGet "file_id" (str ""), rawGet "alias" .null]
  | .filter => [input, rawGet "column" (str ""), rawGet "operator" (str "equals"), rawGet "value" .null]
  | .select => [input, rawGet "columns" (.seq [])]
  | .rename => [input, rawGet "mapping" (.map [])]
  | .join => [rawGet "left" (str ""), rawGet "right" (str ""), onField py, rawGet "how" (str "inner")]
  | .aggregate => [input, rawGet "group_by" (.seq []),
      rawGetWith "aggregations" (.seq []) fun v => some (aggregationList v)]
  | .sort => [input, rawGet "by" (str ""), rawGetWith "order" (str "asc") fun v => some (sortOrder py v),
      rawGet "ascending" .null]
  | .save => [input, rawGet "filename" (str "")]
  | .validate => [input, rawGet "rules" (.seq [])]
  | .pivot => [input, rawGetWith "index" (str "") fun v => some (indexList v),
      rawGet "columns" (str ""), rawGet "values" (str ""), rawGet "aggfunc" (str "sum"),
      rawGet "fill_value" (.int 0)]
  | .unpivot => [input, rawGet "id_vars" (.seq []), rawGet "value_vars" (.seq []),
      rawGet "var_name" (str "variable"), rawGet "value_name" (str "value")]
  | .deduplicate => [input, rawGet "subset" (.seq []), rawGet "keep" (str "first")]
  | .fillNulls => [input, rawGet "strategy" (str "constant"), rawGet "constant_value" .null,
      rawGet "columns" (.seq [])]
  | .sample => [input, rawGet "n" .null, rawGet "fraction" .null, rawGet "random_state" (.int 42),
      rawGet "stratify_by" .null]
  | .sql => [input, rawGet "query" (str "")]
  | .wasmCompute => [input, rawGet "wasm_file_id" (str ""), rawGet "function" (str ""),
      rawGet "input_columns" (.seq []), rawGet "output_column" (str "")]
  | .transform => [input, rawGet "expression" (str "")]
  | .streamConsume => [rawGet "topic" (str ""), rawGet "consumer_group" (str ""),
      rawGetWith "batch_size" (.int 1000) int, rawGetWith "batch_timeout_ms" (.int 5000) int,
      rawGet "deserialize" (str "json")]
  | .streamPublish => [input, rawGet "topic" (str ""), rawGet "serialize" (str "json"),
      rawGet "key_column" .null]

/-! ### The configuration -/

/-- A step; one of an unknown type has only its name and that type. -/
structure StepConfig where
  name : Node
  stepType : StepType ⊕ Node
  contract : Node
  fields : List (String × Node)

structure PipelineConfig where
  name : Node
  description : Node
  steps : List StepConfig

inductive ParseError where
  | invalidYaml
  | missingRequiredField (field : String)
  | conversion (field : String)
  deriving DecidableEq, Repr

def readField (raw : Entries) (f : Field) : Except ParseError (String × Node) :=
  match f.convert (f.value raw) with
  | some v => .ok (f.name, v)
  | none => .error (.conversion f.name)

def parseMapping (raw : Entries) : Except ParseError StepConfig :=
  let name := raw.getD (key "name") (str "")
  let typeName := raw.getD (key "type") (str "")
  match StepType.ofNode typeName with
  | none => .ok ⟨name, .inr typeName, .null, []⟩
  | some t => do
    let fields ← (buildTypedStep py t).mapM (readField raw)
    pure ⟨name, .inl t, raw.getD (key "contract") .null, fields⟩

def parseStep : Node → Except ParseError StepConfig
  | .map raw => parseMapping py raw
  | _ => .error (.missingRequiredField "step")

/-- The mapping under `pipeline`, or the root itself. -/
def pipelineOf (raw : Entries) : Option Entries :=
  match raw.get? (key "pipeline") with
  | some v => v.asMap
  | none => some raw

def buildPipelineConfig (raw : Entries) : Except ParseError PipelineConfig :=
  match pipelineOf raw with
  | none => .error (.missingRequiredField "pipeline")
  | some pipelineRaw =>
    let name := pipelineRaw.getD (key "name") (str "")
    if !name.truthy then .error (.missingRequiredField "name")
    else
      match pipelineRaw.getD (key "steps") (.seq []) with
      | .seq rawSteps => do
        let steps ← rawSteps.mapM (parseStep py)
        pure ⟨name, pipelineRaw.getD (key "description") .null, steps⟩
      | _ => .error (.missingRequiredField "steps")

end Builders

/-! ### The text -/

/-- A reader and a writer of YAML, the writer with the options of the pipeline. -/
structure PyYaml where
  safeLoad : Text → Option Node
  safeDump : Node → Text

def lineBreak (c : Char) : Bool :=
  ['\n', '\r', '\x0b', '\x0c', '\x1c', '\x1d', '\x1e', '\u0085', '\u2028', '\u2029'].contains c

/-- `str.splitlines`: a final line break opens no further line. -/
def splitLines : Text → List Text
  | [] => []
  | '\r' :: '\n' :: text => [] :: splitLines text
  | c :: text =>
    if lineBreak c then [] :: splitLines text
    else match splitLines text with
      | [] => [[c]]
      | line :: lines => (c :: line) :: lines

def startsWith (s : String) (line : Text) : Bool := s.toList.isPrefixOf line

def marked (line : Text) : Bool :=
  startsWith "+" line || startsWith "-" line || startsWith "@@" line

def keptLine (line : Text) : Option Text :=
  if startsWith "---" line || startsWith "+++" line || startsWith "@@" line then none
  else if startsWith "-" line then none
  else if startsWith "+" line || startsWith " " line then some line.tail
  else some line

def stripDiffMarkers (text : Text) : Text :=
  let lines := splitLines text
  if !lines.any marked then text
  else ['\n'].intercalate (lines.filterMap keptLine)

section Load

variable (yaml : PyYaml) (isWord : Char → Bool)

/-- `:\s*""([^"]+)""\s*$`: the quoted text, and what follows up to the end of its line. -/
def doubledQuoted (text : Text) : Option (Text × Text) :=
  match text with
  | ':' :: rest =>
    match rest.dropWhile isSpace with
    | '"' :: '"' :: rest =>
      let inner := rest.takeWhile (· != '"')
      match inner, rest.dropWhile (· != '"') with
      | _ :: _, '"' :: '"' :: rest =>
        let blank := rest.takeWhile isSpace
        let after := rest.dropWhile isSpace
        if after.isEmpty then some (inner, [])
        else if '\n' ∈ blank then
          some (inner, (blank.reverse.takeWhile (· != '\n')).reverse.cons '\n' ++ after)
        else none
      | _, _ => none
    | _ => none
  | _ => none

/-- Take one layer of doubled quotes off, behind a colon that follows a word. -/
def repairFrom : Nat → Bool → Text → Text
  | 0, _, text => text
  | _ + 1, _, [] => []
  | fuel + 1, afterWord, c :: text =>
    match afterWord, doubledQuoted (c :: text) with
    | true, some (inner, rest) =>
      ": \"".toList ++ inner ++ '"' :: repairFrom fuel false rest
    | _, _ => c :: repairFrom fuel (isWord c || c == '_') text

def repairQuotedValues (text : Text) : Text := repairFrom isWord (text.length + 1) false text

def parseYaml (text : Text) : Except ParseError Entries :=
  let cleaned := strip (stripDiffMarkers text)
  let raw := match yaml.safeLoad cleaned with
    | some raw => some raw
    | none => yaml.safeLoad (repairQuotedValues isWord cleaned)
  match raw with
  | some (.map entries) => .ok entries
  | _ => .error .invalidYaml

def parse (py : Python) (text : Text) : Except ParseError PipelineConfig :=
  (parseYaml yaml isWord text).bind (buildPipelineConfig py)

end Load

end PipelineIQ.Pipeline.Parser
