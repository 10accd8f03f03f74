import Mathlib.Data.Char
import Mathlib.Data.List.Dedup
import Mathlib.Data.List.Lex
import Mathlib.Data.List.Sort
import PipelineIQ.Lib.Traverse
import PipelineIQ.Models
import PipelineIQ.Pipeline.Parser

namespace PipelineIQ.Contracts.Validator

open PipelineIQ.Lib PipelineIQ.Lib.Strings PipelineIQ.Lib.Traverse PipelineIQ.Lib.Yaml
open PipelineIQ.Models PipelineIQ.Pipeline.Parser

def typeCategoryMap : List (String × String) :=
  [("int8", "integer"), ("int16", "integer"), ("int32", "integer"), ("int64", "integer"),
    ("uint8", "integer"), ("uint16", "integer"), ("uint32", "integer"), ("uint64", "integer"),
    ("float16", "float"), ("float32", "float"), ("float64", "float"), ("double", "float"),
    ("bool", "boolean"), ("object", "string"), ("string", "string"), ("large_string", "string"),
    ("utf8", "string"), ("large_utf8", "string"), ("timestamp[ns]", "datetime"),
    ("timestamp[us]", "datetime"), ("timestamp[ms]", "datetime"), ("timestamp[s]", "datetime"),
    ("date32", "datetime"), ("date64", "datetime")]

/-- `TYPE_CATEGORY_MAP.get(name, name)`. -/
def category (name : Text) : Text :=
  (typeCategoryMap.find? fun e => e.1.toList = name).elim name fun e => e.2.toList

/-- What `pa.types` tells about a type. -/
inductive ArrowClass where
  | integer | floating | boolean | string | datetime | other
  deriving DecidableEq

/-- An Arrow type and its text. -/
structure DataType where
  arrowClass : ArrowClass
  name : Text

/-- A column of a table, a null being `none`. -/
structure Column (Cell : Type) where
  type : DataType
  cells : List (Option Cell)

/-- The table of the last step. Neither pandas nor DuckDB makes one that repeats a name. -/
structure Table (Cell : Type) where
  columns : List (Text × Column Cell)
  numRows : Nat
  names : (columns.map Prod.fst).Nodup
  rows : ∀ e ∈ columns, e.2.cells.length = numRows

/-- `expected` is as the contract has it, for a missing column even no text. -/
structure ContractViolation where
  column : Text
  rule : String
  severity : String
  message : Text
  actual : Option Text := none
  expected : Node := .null

structure ContractValidationResult where
  passed : Bool
  violations : List ContractViolation

structure BreachReport where
  hasBreaches : Bool
  shouldBlockRun : Bool
  breaches : List ContractViolation
  summary : String

/-- The two counts of a report, in the words of its summary. -/
def counted (errors warnings : Nat) : String :=
  errors.repr ++ " error(s), " ++ warnings.repr ++ " warning(s) "

def buildBreachReport (validation : ContractValidationResult) (severity : String) : BreachReport :=
  if validation.passed then
    { hasBreaches := false, shouldBlockRun := false, breaches := []
      summary := "All contract checks passed" }
  else
    let isBlock := severity == "block"
    let errors := validation.violations.countP fun v => v.severity == "error"
    let warnings := validation.violations.length - errors
    let shouldBlock := isBlock && decide (errors > 0)
    { hasBreaches := true
      shouldBlockRun := shouldBlock
      breaches := validation.violations
      summary :=
        if shouldBlock then "Contract BREACH (block): " ++ counted errors warnings ++
          "— run marked CONTRACT_VIOLATION, downstream pipelines blocked"
        else if isBlock then "Contract breach (block/severity): " ++ counted errors warnings ++
          "— warnings only, run stays COMPLETED"
        else "Contract breach (warn): " ++ counted errors warnings ++ "— run stays COMPLETED" }

def arrowTypeCategory (dtype : DataType) : Text :=
  match dtype.arrowClass with
  | .integer => "integer".toList
  | .floating => "float".toList
  | .boolean => "boolean".toList
  | .string => "string".toList
  | .datetime => "datetime".toList
  | .other => category (lowerCase dtype.name)

/-- The answer of `yaml.safe_load`; of the exceptions only a `YAMLError` is caught. -/
inductive Loaded where
  | document (node : Node)
  | yamlError
  | raised

def parseContract : Loaded → Option Entries
  | .document (.map contract) => some contract
  | .document _ | .yamlError => some []
  | .raised => none

/-- What the validator takes from `pyarrow.compute` and from the interpreter: the comparison of
a column of a type with a scalar, whether the distinct values of a type can be found and
counted, doubles, and the texts of cells. -/
structure Kernels (Cell Double : Type) extends Python where
  less : DataType → Node → Option (Cell → Bool)
  greater : DataType → Node → Option (Cell → Bool)
  hasUnique : DataType → Bool
  hasCountDistinct : DataType → Bool
  float : Node → Option Double
  percentage : Nat → Nat → Double
  exceeds : Double → Double → Bool
  oneDecimal : Double → Text
  strCell : Option Cell → Text
  strCells : List (Option Cell) → Text

section Checks

variable {Cell Double : Type} [DecidableEq Cell] (k : Kernels Cell Double)

def Table.find (table : Table Cell) (name : Key) : Option (Column Cell) :=
  match name with
  | .text t => Dict.find t table.columns
  | _ => none

def Column.nullCount (column : Column Cell) : Nat := column.cells.countP Option.isNone

def Column.valid (column : Column Cell) : List Cell := column.cells.filterMap id

def colName (name : Key) : Text := k.str name.toNode

def number (n : Nat) : Text := n.repr.toList

def violation (name : Key) (rule severity : String) (message : List Text)
    (expected : Node) (actual : Text) : ContractViolation :=
  { column := colName k name, rule, severity, message := message.flatten, expected, actual := some actual }

def columnRemoved (name : Key) (spec : Entries) : ContractViolation :=
  violation k name "column_removed" "error" ["Column '".toList, colName k name,
      "' promised by contract but missing from output".toList]
    (spec.getD (key "type") .null) "missing".toList

def checkType (name : Key) (column : Column Cell) (spec : Entries) :
    Option (List ContractViolation) :=
  let expectedType := spec.getD (key "type") (str "")
  if expectedType.truthy then
    expectedType.asText.map fun t =>
      if arrowTypeCategory column.type ≠ category (lowerCase t) then
        [violation k name "type_changed" "error" ["Column '".toList, colName k name,
          "' type mismatch: expected ".toList, t, ", got ".toList, column.type.name]
          (.text t) column.type.name]
      else []
  else some []

def checkNullable (name : Key) (column : Column Cell) (spec : Entries) :
    Option (List ContractViolation) :=
  match spec.getD (key "nullable") .null with
  | .bool false => some <| if column.nullCount > 0 then
      [violation k name "not_null" "error" ["Column '".toList, colName k name,
        "' must not be null but has ".toList, number column.nullCount, " null values".toList]
        (str "0 nulls") (number column.nullCount ++ " nulls".toList)]
    else []
  | _ => some []

/-- A bound that no value may be on the wrong side of. -/
def checkBound (compare : DataType → Node → Option (Cell → Bool)) (field word sign : String)
    (name : Key) (column : Column Cell) (spec : Entries) : Option (List ContractViolation) :=
  match spec.getD (key field) .null with
  | .null => some []
  | bound => (compare column.type bound).map fun wrong =>
    let count := column.valid.countP wrong
    if count > 0 then
      [violation k name field "error" ["Column '".toList, colName k name, "' has ".toList,
        number count, " values ".toList, word.toList, k.str bound]
        (.text (sign.toList ++ k.str bound))
        (number count ++ " values ".toList ++ word.toList.takeWhile (· ≠ ' '))]
    else []

def checkMinValue : Key → Column Cell → Entries → Option (List ContractViolation) :=
  checkBound k k.less "min_value" "below minimum " ">= "

def checkMaxValue : Key → Column Cell → Entries → Option (List ContractViolation) :=
  checkBound k k.greater "max_value" "above maximum " "<= "

/-- The distinct values outside of a set; a null has its text too. -/
def disallowed (column : Column Cell) (allowed : List Node) : List (Option Cell) :=
  column.cells.eraseDups.filter fun v => k.strCell v ∉ allowed.map k.str

def checkAllowedValues (name : Key) (column : Column Cell) (spec : Entries) :
    Option (List ContractViolation) :=
  match spec.getD (key "allowed_values") .null with
  | .null => some []
  | allowed =>
    if k.hasUnique column.type then
      allowed.iterate.map fun items =>
        if disallowed k column items ≠ [] then
          let shown := k.strCells ((disallowed k column items).take 5)
          [violation k name "allowed_values" "error" ["Column '".toList, colName k name,
            "' has values not in allowed set: ".toList, shown] (.text (k.str allowed)) shown]
        else []
    else none

def checkUnique (name : Key) (column : Column Cell) (spec : Entries) :
    Option (List ContractViolation) :=
  match spec.getD (key "unique") .null with
  | .bool true =>
    if k.hasCountDistinct column.type then
      let uniqueCount := column.valid.dedup.length
      let nonNullCount := column.cells.length - column.nullCount
      some <| if uniqueCount < nonNullCount then
        [violation k name "unique" "error" ["Column '".toList, colName k name,
          "' has duplicates (".toList, number uniqueCount, " unique of ".toList,
          number nonNullCount, " non-null)".toList]
          (str "all unique") (number uniqueCount ++ " unique".toList)]
      else []
    else none
  | _ => some []

/-- The body of the loop over the promised columns. -/
def checkColumn (table : Table Cell) (name : Key) : Node → Option (List ContractViolation)
  | .map spec => match table.find name with
    | none => some [columnRemoved k name spec]
    | some column => collect [checkType k name column spec, checkNullable k name column spec,
        checkMinValue k name column spec, checkMaxValue k name column spec,
        checkAllowedValues k name column spec, checkUnique k name column spec]
  | _ => some []

/-- The body of the loop over the null thresholds. -/
def checkNullThreshold (table : Table Cell) (name : Key) (maxNullPct : Node) :
    Option (List ContractViolation) :=
  match table.find name with
  | none => some []
  | some column =>
    if column.cells.length = 0 then some []
    else (k.float maxNullPct).map fun limit =>
      let rate := k.percentage column.nullCount column.cells.length
      if k.exceeds rate limit then
        [violation k name "null_threshold_exceeded" "warning" ["Column '".toList, colName k name,
          "' null rate ".toList, k.oneDecimal rate, "% exceeds threshold ".toList,
          k.str maxNullPct, ['%']]
          (.text ("max ".toList ++ k.str maxNullPct ++ "% nulls".toList))
          (k.oneDecimal rate ++ "% nulls".toList)]
      else []

def toInt (v : Node) : Option Int := (int v).bind fun
  | .int n => some n
  | _ => none

/-- A bound on the number of rows. -/
def checkRows (rule bound : String) (breaks : Int → Int → Bool) (numRows : Nat) (limit : Node) :
    Option (List ContractViolation) :=
  match limit with
  | .null => some []
  | limit => (toInt limit).map fun n =>
    if breaks numRows n then
      [{ column := "__row_count__".toList, rule, severity := "error"
         message := "Output has ".toList ++ number numRows ++ " rows, ".toList ++ bound.toList ++
          " is ".toList ++ k.str limit
         expected := .text (k.str limit), actual := some (number numRows) }]
    else []

def checkMinRows (numRows : Nat) : Node → Option (List ContractViolation) :=
  checkRows k "row_count_below_minimum" "minimum" (fun rows n => rows < n) numRows

def checkMaxRows (numRows : Nat) : Node → Option (List ContractViolation) :=
  checkRows k "row_count_above_maximum" "maximum" (fun rows n => rows > n) numRows

/-- `contract.get(field, {}) or {}`, `none` where it is no mapping. -/
def mapping (contract : Entries) (field : String) : Option Entries :=
  let value := contract.getD (key field) (.map [])
  if value.truthy then value.asMap else some []

def unexpectedColumns (table : Table Cell) (promised : Entries) : List ContractViolation :=
  (((table.columns.map Prod.fst).filter fun name => Key.text name ∉ promised.map Prod.fst).insertionSort
      fun a b => a ≤ b).map fun name =>
    { column := name, rule := "unexpected_column", severity := "warning"
      message := "Column '".toList ++ name ++ "' not defined in contract".toList }

/-- All the checks of a contract, `none` where one raises. -/
def checks (table : Table Cell) (contract : Entries) : Option (List ContractViolation) :=
  (mapping contract "columns").bind fun promised =>
    (mapping contract "null_thresholds").bind fun thresholds =>
      collect [collect (promised.map fun e => checkColumn k table e.1 e.2),
        collect (thresholds.map fun e => checkNullThreshold k table e.1 e.2),
        checkMinRows k table.numRows (contract.getD (key "min_rows") .null),
        checkMaxRows k table.numRows (contract.getD (key "max_rows") .null),
        some (unexpectedColumns table promised)]

def parseError : ContractViolation :=
  { column := "__contract__".toList, rule := "parse_error", severity := "error"
    message := "Contract YAML is empty or invalid".toList }

def noOutput : ContractViolation :=
  { column := "__all__".toList, rule := "no_output", severity := "error"
    message := "Pipeline produced no output table".toList }

def validateAgainstContract (outputTable : Option (Table Cell)) (yaml : Loaded) :
    Option ContractValidationResult :=
  (parseContract yaml).bind fun contract =>
    if contract.isEmpty then some { passed := false, violations := [parseError] }
    else match outputTable with
      | none => some { passed := false, violations := [noOutput] }
      | some table => (checks k table contract).map fun violations =>
        { passed := violations.isEmpty, violations }

end Checks

/-! ### The check after a run -/

inductive ContractSeverity where
  | WARN | BLOCK
  deriving DecidableEq

def ContractSeverity.value : ContractSeverity → String
  | .WARN => "warn"
  | .BLOCK => "block"

/-- The newest active contract of a pipeline, with its text as the reader answers it. -/
structure PipelineContract where
  yamlContent : Loaded
  severity : ContractSeverity
  consumers : List Text

/-- What the check leaves: the status of the run and the consumers whose schedules it moves. -/
structure Enforced where
  status : PipelineStatus
  blocked : List Text := []

section Enforcement

variable {Cell Double : Type} [DecidableEq Cell] (k : Kernels Cell Double)

/-- `queried` says that the query for the active contract succeeds, `stored` that the violations
are stored and published without an exception. Whatever is raised is logged. -/
def checkAndEnforceContract (queried stored : Bool) (activeContract : Option PipelineContract)
    (stepResults : List (Option (Table Cell))) (status : PipelineStatus) : Enforced :=
  if !queried then { status }
  else match activeContract, stepResults.getLast? with
    | some contract, some outputTable =>
      match validateAgainstContract k outputTable contract.yamlContent with
      | none => { status }
      | some validation =>
        if validation.passed then { status }
        else if !stored then { status }
        else if status ∈ [.CONTRACT_VIOLATION, .FAILED] then { status }
        else if (buildBreachReport validation contract.severity.value).shouldBlockRun then
          { status := .CONTRACT_VIOLATION, blocked := contract.consumers }
        else { status }
    | _, _ => { status }

end Enforcement

end PipelineIQ.Contracts.Validator
