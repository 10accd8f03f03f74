import Mathlib.Data.List.NodupEquivFin
import Mathlib.Data.Multiset.Basic
import PipelineIQ.Lib.Dict
import PipelineIQ.Lib.Groups
import PipelineIQ.Lib.Joins
import PipelineIQ.Pipeline.Filter

namespace PipelineIQ.Pipeline.Steps

open PipelineIQ.Lib PipelineIQ.Lib.Strings PipelineIQ.Lib.Joins
open PipelineIQ.Pipeline.Filter (ColumnType Dtype)

/-! ### Tables -/

/-- A table over the values other than null; equal numbers are one value. -/
structure Table (α : Type) where
  width : Nat
  columns : Fin width → Text
  distinct : Function.Injective columns
  rows : List (Fin width → Option α)

variable {α : Type}

abbrev Table.Row (t : Table α) := Fin t.width → Option α

def Table.names (t : Table α) : List Text := (List.finRange t.width).map t.columns

def Table.find (t : Table α) (name : Text) : Option (Fin t.width) :=
  (List.finRange t.width).find? fun i => t.columns i == name

def Table.cell (t : Table α) (r : t.Row) (name : Text) : Option α := (t.find name).bind r

/-- The columns other than one. -/
def Table.others (t : Table α) (key : Fin t.width) : List (Fin t.width) :=
  (List.finRange t.width).filter (· ≠ key)

theorem Table.find_eq_some {t : Table α} {name : Text} {i : Fin t.width} :
    t.find name = some i ↔ t.columns i = name := by
  constructor
  · intro h
    simpa using List.find?_some h
  · intro h
    cases hf : t.find name with
    | none =>
      have := List.find?_eq_none.mp hf i (List.mem_finRange i)
      simp [h] at this
    | some j =>
      have hj : t.columns j = name := by simpa using List.find?_some hf
      exact congrArg some (t.distinct (hj.trans h.symm))

theorem Table.mem_others {t : Table α} {key i : Fin t.width} : i ∈ t.others key ↔ i ≠ key := by
  simp [Table.others]

theorem Table.names_nodup (t : Table α) : t.names.Nodup :=
  (List.nodup_finRange t.width).map t.distinct

/-- What a step yields: the names of the columns and the rows, in any order. -/
structure Result (α : Type) where
  columns : List Text
  rows : Multiset (List (Option α))

section Pandas

-- NaN and NaT, which pandas reads as nulls
variable (isna : α → Bool)

def toPandas {n : Nat} (row : Fin n → Option α) : Fin n → Option α :=
  fun i => (row i).filter fun v => !isna v

/-! ### Join -/

abbrev JoinHow := JoinType

def JoinHow.value : JoinHow → String
  | .inner => "inner"
  | .left => "left"
  | .right => "right"
  | .outer => "outer"

structure JoinStepConfig where
  on : Text
  how : JoinHow := .inner

inductive Side where
  | left | right
  deriving DecidableEq, Repr

/-- The errors of a join step: its own, and the one of two columns with one name. -/
inductive JoinError where
  | keyMissing (joinKey : Text) (side : Side) (availableColumns : List Text)
  | duplicateColumns
  deriving DecidableEq, Repr

def validateJoinKey (joinKey : Text) (t : Table α) (side : Side) :
    Except JoinError (Fin t.width) :=
  match t.find joinKey with
  | some key => .ok key
  | none => .error (.keyMissing joinKey side t.names)

/-- A column that the other table has too gets the suffix of its side. -/
def suffixed (overlap : List Text) (suffix : String) (column : Text) : Text :=
  if column ∈ overlap then column ++ suffix.toList else column

section Merge

variable (left right : Table α) (leftKey : Fin left.width) (rightKey : Fin right.width)

/-- The key stands where the left table has it. -/
def mergedColumns : List Text :=
  let others := (right.others rightKey).map right.columns
  left.names.map (suffixed others "_left") ++ others.map (suffixed left.names "_right")

/-- The row of a pair; its key is the one of either side. -/
def mergedRow (pair : Option left.Row × Option right.Row) : List (Option α) :=
  let key := (pair.1.bind (· leftKey)).or (pair.2.bind (· rightKey))
  (List.finRange left.width).map (fun i => if i = leftKey then key else pair.1.bind (· i)) ++
    (right.others rightKey).map fun j => pair.2.bind (· j)

variable [DecidableEq α]

/-- `pd.merge`, for which a null key equals every null key. -/
def merge (how : JoinHow) : Multiset (List (Option α)) :=
  (join (fun (l : left.Row) (r : right.Row) => l leftKey == r rightKey) how
    (left.rows.map (toPandas isna)) (right.rows.map (toPandas isna))).map
      (mergedRow left right leftKey rightKey)

end Merge

def executeJoin [DecidableEq α] (left right : Table α) (config : JoinStepConfig) :
    Except JoinError (Result α) := do
  let leftKey ← validateJoinKey config.on left .left
  let rightKey ← validateJoinKey config.on right .right
  let columns := mergedColumns left right rightKey
  if columns.Nodup then pure ⟨columns, merge isna left right leftKey rightKey config.how⟩
  else throw .duplicateColumns

/-! ### Aggregate -/

structure TypedTable (α : Type) extends Table α where
  types : Fin width → ColumnType

/-- The type that `to_pandas` gives a column; a null turns whole numbers into doubles and
booleans into objects. -/
def TypedTable.dtype (t : TypedTable α) (i : Fin t.width) : Dtype :=
  let nulls := t.rows.any fun r => (r i).isNone
  match t.types i with
  | .text | .null => .object
  | .bool => if nulls then .object else .bool
  | .int => if nulls then .float64 else .int64
  | .float => .float64
  | .instant => .datetime64

def TypedTable.dtypeOf (t : TypedTable α) (column : Text) : Dtype :=
  (t.find column).elim .object t.dtype

def dtypeName : Dtype → String
  | .object => "object"
  | .bool => "bool"
  | .int64 => "int64"
  | .float64 => "float64"
  | .datetime64 => "datetime64[ns]"

/-- `VALID_AGGREGATION_FUNCTIONS`. -/
inductive AggregationFunction where
  | sum | mean | min | max | count | median | std | var | first | last
  deriving DecidableEq, Repr

def AggregationFunction.value : AggregationFunction → String
  | .sum => "sum"
  | .mean => "mean"
  | .min => "min"
  | .max => "max"
  | .count => "count"
  | .median => "median"
  | .std => "std"
  | .var => "var"
  | .first => "first"
  | .last => "last"

def numericFuncs : List AggregationFunction := [.sum, .mean, .median, .std, .var]

structure Aggregation where
  column : Text
  function : AggregationFunction
  aliasName : Option Text := none

structure AggregateStepConfig where
  groupBy : List Text
  aggregations : List Aggregation

/-- The errors of an aggregate step; the last one is of two columns with one name. -/
inductive AggregateError where
  | columnNotFound (column : Text) (availableColumns : List Text)
  | aggregation (column function reason : Text)
  | grouping (columns : List Text) (functions : List (List Text)) (reason : Text)
  | duplicateColumns
  deriving DecidableEq, Repr

/-- The values that the functions have on values other than null and NaN. -/
structure Calculation (α : Type) where
  number : Nat → α
  calculate : AggregationFunction → List α → α

/-- The value of a function on the cells of a group. -/
def Calculation.pandasValue (C : Calculation α) (function : AggregationFunction)
    (cells : List (Option α)) : Option α :=
  let values := cells.filterMap id
  match function with
  | .count => some (C.number values.length)
  | .first => values.head?
  | .last => values.getLast?
  | .sum => some (if values = [] then C.number 0 else C.calculate .sum values)
  | .std | .var => if values.length < 2 then none else some (C.calculate function values)
  | _ => if values = [] then none else some (C.calculate function values)

section Frame

variable (t : TypedTable α)

def validateColumnExists (column : Text) : Except AggregateError Unit :=
  if column ∈ t.names then .ok () else .error (.columnNotFound column t.names)

abbrev AggDict := Dict Text (List AggregationFunction)

def buildAggregationDict (config : AggregateStepConfig) : Except AggregateError AggDict :=
  config.aggregations.foldlM (fun aggDict agg => do
    validateColumnExists t agg.column
    pure (aggDict.push agg.column agg.function)) ∅

/-- The name of a flattened column. -/
def flatName (e : Text × AggregationFunction) : Text :=
  if e.2.value.toList ≠ e.1 then e.1 ++ '_' :: e.2.value.toList else e.1

def numericReason (column : Text) (function : AggregationFunction) (dtype : Dtype) : Text :=
  "Aggregation function '".toList ++ function.value.toList ++
    "' requires numeric column, but '".toList ++ column ++ "' is ".toList ++
      (dtypeName dtype).toList

/-- The rows of the groups; a row with a null key is in none. -/
def groupRows [DecidableEq α] (C : Calculation α) (groupBy : List Text)
    (aggregations : List (Text × AggregationFunction)) :
    List (List (Option α) × List (Option α)) :=
  Groups.groupBy (fun r : t.Row => groupBy.map (t.cell r))
    (fun rows => aggregations.map fun e => C.pandasValue e.2 (rows.map fun r => t.cell r e.1))
    ((t.rows.map (toPandas isna)).filter fun r => groupBy.all fun c => (t.cell r c).isSome)

def performAggregation [DecidableEq α] (C : Calculation α) (config : AggregateStepConfig)
    (aggDict : AggDict) : Except AggregateError (Result α) :=
  let aggregations := Dict.pairs aggDict.entries
  match aggregations.find? fun e =>
    decide (e.2 ∈ numericFuncs) && !(t.dtypeOf e.1).isNumeric with
  | some (column, function) => .error (.aggregation column function.value.toList
      (numericReason column function (t.dtypeOf column)))
  | none =>
    let error := AggregateError.grouping aggDict.keys
      (aggDict.entries.map fun e => e.2.map fun function => function.value.toList)
    if config.groupBy = [] then .error (error "No group keys passed!".toList)
    else if aggregations = [] then .error (error "No objects to concatenate".toList)
    else
      let columns := config.groupBy ++ aggregations.map flatName
      if columns.Nodup then
        .ok ⟨columns, (groupRows isna t C config.groupBy aggregations).map fun e => e.1 ++ e.2⟩
      else .error .duplicateColumns

def executeAggregate [DecidableEq α] (C : Calculation α) (config : AggregateStepConfig) :
    Except AggregateError (Result α) := do
  config.groupBy.forM (validateColumnExists t)
  let aggDict ← buildAggregationDict t config
  performAggregation isna t C config aggDict

end Frame

end Pandas

end PipelineIQ.Pipeline.Steps
