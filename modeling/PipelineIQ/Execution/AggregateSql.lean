import PipelineIQ.Execution.JoinSql
import PipelineIQ.Lib.Traverse

namespace PipelineIQ.Execution.AggregateSql

open PipelineIQ.Lib PipelineIQ.Lib.Strings PipelineIQ.Lib.Traverse PipelineIQ.Pipeline.Steps
open PipelineIQ.Execution.FilterSql PipelineIQ.Execution.JoinSql
open PipelineIQ.Pipeline.Filter (ColumnType)

variable {α : Type}

/-- What an aggregation uses of DuckDB: whether a function takes a column of a type, and its value
on values other than null, which without a NaN among them is the one of pandas. -/
structure Aggregates (isna : α → Bool) (C : Calculation α) where
  binds : AggregationFunction → ColumnType → Bool
  calculate : AggregationFunction → List α → Option α
  calculate_eq : ∀ function values, (∀ v ∈ values, isna v = false) →
    calculate function values = some (C.calculate function values)

variable {isna : α → Bool} {C : Calculation α} (A : Aggregates isna C)

/-- The value of a function on the cells of a group; `FIRST` and `LAST` may be null. -/
def Aggregates.value (function : AggregationFunction) (cells : List (Option α)) : Option α :=
  let values := cells.filterMap id
  match function with
  | .count => some (C.number values.length)
  | .first => cells.head?.join
  | .last => cells.getLast?.join
  | .std | .var => if values.length < 2 then none else A.calculate function values
  | _ => if values = [] then none else A.calculate function values

def sqlConfig (config : AggregateStepConfig) : StepSql.AggregateStepConfig where
  groupBy := config.groupBy
  aggregations := config.aggregations.map fun agg =>
    ⟨agg.column, agg.function.value.toList, agg.aliasName⟩

def outputNames (config : AggregateStepConfig) : List Text :=
  (sqlConfig config).aggregations.map (·.outputName)

section Query

variable (t : TypedTable α) (config : AggregateStepConfig)

def bindsQuery : Bool :=
  config.groupBy.all (· ∈ t.names) && config.aggregations.all fun agg =>
    (t.find agg.column).any fun i => A.binds agg.function (t.types i)

/-- The rows of the query; without `GROUP BY` there is one. -/
def queryRows [DecidableEq α] : List (List (Option α) × List (Option α)) :=
  let values := fun rows : List t.Row =>
    config.aggregations.map fun agg => A.value agg.function (rows.map fun r => t.cell r agg.column)
  if config.groupBy = [] then [([], values t.rows)]
  else Groups.groupBy (fun r : t.Row => config.groupBy.map (t.cell r)) values t.rows

/-- The aggregate step in DuckDB. -/
def duckdbAggregate [DecidableEq α] (D : Duckdb) : Option (Result α) := do
  let _ ← StepSql.buildAggregateSql (sqlConfig config)
  if bindsQuery A t config then
    some ⟨D.names (config.groupBy ++ outputNames config),
      (queryRows A t config).map fun e => e.1 ++ e.2⟩
  else none

/-- An aggregation goes to DuckDB from a number of input rows on. -/
def smartAggregate [DecidableEq α] (D : Duckdb) (threshold : Nat) : Option (Result α) :=
  if threshold ≤ t.rows.length then duckdbAggregate A t config D
  else (executeAggregate isna t C config).toOption

end Query

/-! ### The query -/

theorem aggregateCall_value (function : AggregationFunction) :
    (StepSql.aggregateCall (lowerCase function.value.toList)).isSome := by
  cases function <;> decide +kernel

theorem lowerCase_value (function : AggregationFunction) :
    lowerCase function.value.toList = function.value.toList := by
  cases function <;> decide +kernel

theorem quoteIdentifier_isSome {identifier : Text} :
    (quoteIdentifier identifier).isSome ↔ identifier ≠ [] := by
  unfold quoteIdentifier
  split
  next h => simp [h]
  next h => simp [h]

/-- The builder raises for an empty list of aggregations and for an empty name. -/
theorem buildAggregateSql_isSome (config : AggregateStepConfig) :
    (StepSql.buildAggregateSql (sqlConfig config)).isSome ↔
      config.aggregations ≠ [] ∧ (∀ column ∈ config.groupBy, column ≠ []) ∧
        (∀ agg ∈ config.aggregations, agg.column ≠ []) ∧ ∀ name ∈ outputNames config, name ≠ [] := by
  have hexpr : ∀ agg ∈ config.aggregations,
      (StepSql.aggregateExpr ⟨agg.column, agg.function.value.toList, agg.aliasName⟩).isSome ↔
        agg.column ≠ [] ∧ (StepSql.Aggregation.outputName
          ⟨agg.column, agg.function.value.toList, agg.aliasName⟩) ≠ [] := by
    intro agg _
    rw [← quoteIdentifier_isSome, ← quoteIdentifier_isSome, StepSql.aggregateExpr]
    cases quoteIdentifier agg.column with
    | none => simp
    | some column =>
      cases quoteIdentifier (StepSql.Aggregation.outputName
        ⟨agg.column, agg.function.value.toList, agg.aliasName⟩) with
      | none => simp
      | some name => simpa using aggregateCall_value agg.function
  have hgroupBy : (StepSql.quoteIdentifiers config.groupBy).isSome ↔
      ∀ column ∈ config.groupBy, column ≠ [] := by
    rw [StepSql.quoteIdentifiers, mapM_isSome_iff]
    exact forall₂_congr fun _ _ => quoteIdentifier_isSome
  have hexprs : ((sqlConfig config).aggregations.mapM StepSql.aggregateExpr).isSome ↔
      (∀ agg ∈ config.aggregations, agg.column ≠ []) ∧ ∀ name ∈ outputNames config, name ≠ [] := by
    rw [mapM_isSome_iff]
    simp only [outputNames, sqlConfig, List.forall_mem_map, ← forall₂_and]
    exact forall₂_congr hexpr
  rw [← hgroupBy, ← hexprs]
  unfold StepSql.buildAggregateSql
  have hnil : (sqlConfig config).aggregations = [] ↔ config.aggregations = [] := List.map_eq_nil_iff
  split
  next h => simp [hnil.mp h]
  next h =>
    rw [hnil] at h
    change _ ↔ _ ∧ (StepSql.quoteIdentifiers (sqlConfig config).groupBy).isSome ∧ _
    cases StepSql.quoteIdentifiers (sqlConfig config).groupBy with
    | none => exact ⟨fun hsome => absurd hsome Bool.false_ne_true, fun hall => hall.2.1⟩
    | some groupBy =>
      rw [Option.bind_some, Option.isSome_map]
      exact ⟨fun hexprs => ⟨h, rfl, hexprs⟩, fun hall => hall.2.2⟩

end PipelineIQ.Execution.AggregateSql
