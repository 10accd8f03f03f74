import PipelineIQ.Pipeline.Validation

namespace PipelineIQ.Services.PipelineValidation

open PipelineIQ.Lib PipelineIQ.Lib.Strings PipelineIQ.Lib.Yaml
open PipelineIQ.Pipeline.Parser
open PipelineIQ.Pipeline.Validation (ValidationError)

/-! ### Steps -/

/-- What a step says about columns. An aggregation is a column with a function, and a rule without
a column has the empty text. -/
inductive Config where
  | load (fileId : Text)
  | filter (column : Text)
  | select (columns : List Text)
  | rename (mapping : Dict Text Text)
  | join (left right on : Text)
  | aggregate (groupBy : List Text) (aggregations : List (Text × Text))
  | sort (by' : List Text)
  | save
  | validate (rules : List Text)
  | pivot (index : List Text) (columns values : Text)
  | unpivot (idVars valueVars : List Text) (varName valueName : Text)
  | deduplicate (subset : List Text)
  | fillNulls (columns : List Text)
  | sample (stratifyBy : Text)
  | sql
  | wasmCompute (inputColumns : List Text) (outputColumn : Text)
  | transform
  | streamConsume
  | streamPublish

/-- A step without an input has the empty text there. -/
structure Step where
  name : Text
  input : Text := []
  config : Config

abbrev Schema := Dict Text (List Text)

def Schema.columns (schema : Schema) (step : Text) : List Text := (schema.get? step).getD []

section Simulation

-- the columns of an uploaded file, by its id
variable (py : Python) (files : Text → Option (List Text))

/-! ### The errors of a step -/

def printed (columns : List Text) : Text := py.str (.seq (columns.map .text))

def appendMissingColumnError (step : Step) (field : String) (column : Text)
    (available : List Text) : List ValidationError :=
  if column ≠ [] ∧ column ∉ available then
    [{ stepName := .text step.name
       field
       message := "Column '".toList ++ column ++ "' was not found in input '".toList ++
         (if step.input = [] then "unknown".toList else step.input) ++
         "'. Available columns: ".toList ++ printed py available }]
  else []

def joinKeyError (step : Step) (joinKey : Text) (side : String) (ref : Text)
    (columns : List Text) : List ValidationError :=
  if joinKey ≠ [] ∧ joinKey ∉ columns then
    [{ stepName := .text step.name
       field := "on"
       message := "Join key '".toList ++ joinKey ++ "' was not found in ".toList ++ side.toList ++
         " input '".toList ++ ref ++ "'. Available columns: ".toList ++ printed py columns }]
  else []

def fileError (step : Step) (fileId : Text) : List ValidationError :=
  [{ stepName := .text step.name
     field := "file_id"
     message := "Referenced file '".toList ++ fileId ++ "' was not found.".toList }]

/-- The columns that a step with one input names, each with the field it stands in. -/
def named : Config → List (String × Text)
  | .filter column => [("column", column)]
  | .select columns => columns.map ("columns", ·)
  | .rename mapping => mapping.keys.map ("mapping", ·)
  | .aggregate groupBy aggregations =>
    groupBy.map ("group_by", ·) ++ aggregations.map fun a => ("aggregations.column", a.1)
  | .sort by' => by'.map ("by", ·)
  | .validate rules => (rules.filter (· ≠ [])).map ("rules.column", ·)
  | .pivot index columns values => index.map ("index", ·) ++ [("columns", columns), ("values", values)]
  | .unpivot idVars valueVars _ _ => (idVars ++ valueVars).map ("value_vars", ·)
  | .deduplicate subset => subset.map ("subset", ·)
  | .fillNulls columns => columns.map ("columns", ·)
  | .sample stratifyBy => if stratifyBy = [] then [] else [("stratify_by", stratifyBy)]
  | .wasmCompute inputColumns _ => inputColumns.map ("input_columns", ·)
  | .load _ | .join _ _ _ | .save | .sql | .transform | .streamConsume | .streamPublish => []

/-! ### The columns of a step -/

/-- `merged`: what the right input adds to the columns of the left one. -/
def mergedColumns (left right : List Text) (joinKey : Text) : List Text :=
  right.foldl (fun merged column =>
    if column ∉ merged ∧ column ≠ joinKey then merged ++ [column] else merged) left

/-- `renamed[renamed.index(old_name)] = new_name`. -/
def renameColumns (available : List Text) (mapping : List (Text × Text)) : List Text :=
  mapping.foldl (fun renamed e => if e.1 ∈ renamed then renamed.replace e.1 e.2 else renamed) available

def aggregatedColumn (available : List Text) (a : Text × Text) : List Text :=
  if a.1 ≠ [] ∧ a.2 ≠ [] ∧ a.1 ∈ available then [a.1 ++ '_' :: a.2] else []

/-- The columns after a step with one input. -/
def outputColumns (available : List Text) : Config → List Text
  | .select columns => columns.filter (· ∈ available)
  | .rename mapping => renameColumns available mapping.entries
  | .aggregate groupBy aggregations =>
    groupBy.filter (· ∈ available) ++ aggregations.flatMap (aggregatedColumn available)
  | .pivot index _ values =>
    index.filter (· ∈ available) ++
      if values ≠ [] ∧ values ∈ available then [values ++ "_pivoted".toList] else []
  | .unpivot idVars _ varName valueName => idVars.filter (· ∈ available) ++ [varName, valueName]
  | .wasmCompute _ outputColumn => available ++ if outputColumn = [] then [] else [outputColumn]
  | _ => available

/-! ### The loop -/

def available (schema : Schema) (step : Step) : List Text :=
  if step.input = [] then [] else schema.columns step.input

def errorsOf (schema : Schema) (step : Step) : List ValidationError :=
  match step.config with
  | .load fileId => if fileId ≠ [] ∧ files fileId = none then fileError step fileId else []
  | .join left right on =>
    joinKeyError py step on "left" left (schema.columns left) ++
      joinKeyError py step on "right" right (schema.columns right)
  | config => (named config).flatMap fun e =>
    appendMissingColumnError py step e.1 e.2 (available schema step)

def columnsOf (schema : Schema) (step : Step) : List Text :=
  match step.config with
  | .load fileId => if fileId = [] then [] else (files fileId).getD []
  | .join left right on => mergedColumns (schema.columns left) (schema.columns right) on
  | config => outputColumns (available schema step) config

def simulate (schema : Schema) (step : Step) : Schema :=
  schema.set step.name (columnsOf files schema step)

def collectFrom (schema : Schema) : List Step → List ValidationError
  | [] => []
  | step :: steps => errorsOf py files schema step ++ collectFrom (simulate files schema step) steps

def collectSchemaValidationErrors (steps : List Step) : List ValidationError :=
  collectFrom py files ∅ steps

/-- The schema that the loop has before a step. -/
def schemaBefore (steps : List Step) (i : Nat) : Schema := (steps.take i).foldl (simulate files) ∅

end Simulation

end PipelineIQ.Services.PipelineValidation
