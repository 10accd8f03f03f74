import Mathlib.Algebra.Order.Ring.Unbundled.Rat
import PipelineIQ.Execution.FilterSql
import PipelineIQ.Lib.SqlTokens

namespace PipelineIQ.Execution.StepSql

open PipelineIQ.Lib.Strings PipelineIQ.Lib.SqlTokens PipelineIQ.Pipeline.Filter
open PipelineIQ.Execution.FilterSql

structure SelectStepConfig where
  columns : List Text
  mode : Text := "include".toList

structure SortStepConfig where
  byColumns : List Text
  order : Text := "asc".toList
  ascending : Option (List Bool) := none

structure Aggregation where
  column : Text
  function : Text
  aliasName : Option Text := none

structure AggregateStepConfig where
  groupBy : List Text
  aggregations : List Aggregation

structure JoinStepConfig where
  on : Text
  how : Text := "inner".toList

structure DeduplicateStepConfig where
  subset : List Text
  keep : Text := "first".toList

structure SampleStepConfig where
  n : Option Int := none
  fraction : Option Double := none
  randomState : Option Int := some 42

structure FillNullsStepConfig where
  strategy : Text := "constant".toList
  columns : List Text
  constantValue : Value := none

structure PivotStepConfig where
  index : List Text
  columns : Text
  values : Text
  aggfunc : Text := "sum".toList

structure UnpivotStepConfig where
  idVars : List Text
  valueVars : List Text
  varName : Text := "variable".toList
  valueName : Text := "value".toList

/-- The steps that have a builder of their own. -/
inductive Step where
  | filter (config : FilterStepConfig)
  | select (config : SelectStepConfig)
  | sort (config : SortStepConfig)
  | aggregate (config : AggregateStepConfig)
  | join (config : JoinStepConfig)
  | deduplicate (config : DeduplicateStepConfig)
  | sample (config : SampleStepConfig)
  | fillNulls (config : FillNullsStepConfig)
  | pivot (config : PivotStepConfig)
  | unpivot (config : UnpivotStepConfig)

def quoteIdentifiers (columns : List Text) : Option (List Text) := columns.mapM quoteIdentifier

def buildSelectSql (step : SelectStepConfig) : Option Text :=
  if step.columns = [] then some "SELECT * FROM __input__".toList
  else (quoteIdentifiers step.columns).map fun quoted =>
    if lowerCase step.mode ∈ ["drop".toList, "exclude".toList] then
      "SELECT * EXCLUDE (".toList ++ commaJoin quoted ++ ") FROM __input__".toList
    else "SELECT ".toList ++ commaJoin quoted ++ " FROM __input__".toList

def direction (ascending : Bool) : Text := if ascending then " ASC".toList else " DESC".toList

/-- The directions of a sort step, `none` where their number is wrong. -/
def directions (step : SortStepConfig) (count : Nat) : Option (List Bool) :=
  match step.ascending with
  | some ascending =>
    let ascending := if ascending.length = 1 ∧ 1 < count then
      (List.replicate count ascending).flatten else ascending
    if ascending.length ≠ count then none else some ascending
  | none => some (List.replicate count (lowerCase step.order ≠ "desc".toList))

def buildSortSql (step : SortStepConfig) : Option Text :=
  let byColumns := step.byColumns.filter (· ≠ [])
  if byColumns = [] then none
  else (directions step byColumns.length).bind fun directions =>
    ((byColumns.zip directions).mapM fun e =>
      (quoteIdentifier e.1).map fun quoted => quoted ++ direction e.2).map fun orderBy =>
        "SELECT * FROM __input__ ORDER BY ".toList ++ commaJoin orderBy

def simpleFnMap : List (String × String) :=
  [("sum", "SUM("), ("mean", "AVG("), ("avg", "AVG("), ("min", "MIN("), ("max", "MAX("),
    ("count", "COUNT("), ("median", "MEDIAN("), ("std", "STDDEV_SAMP("), ("var", "VAR_SAMP("),
    ("first", "FIRST("), ("last", "LAST("), ("mode", "MODE(")]

/-- The text before and after the column in the call of an aggregate function. -/
def aggregateCall (function : Text) : Option (String × String) :=
  if function = "count_distinct".toList then some ("COUNT(DISTINCT ", ") AS ")
  else if function = "p50".toList then some ("QUANTILE_CONT(", ", 0.5) AS ")
  else if function = "p95".toList then some ("QUANTILE_CONT(", ", 0.95) AS ")
  else (simpleFnMap.find? fun e => e.1.toList = function).map fun e => (e.2, ") AS ")

def Aggregation.outputName (agg : Aggregation) : Text :=
  agg.aliasName.getD (agg.column ++ '_' :: lowerCase agg.function)

def aggregateExpr (agg : Aggregation) : Option Text :=
  (quoteIdentifier agg.column).bind fun column => (quoteIdentifier agg.outputName).bind fun name =>
    (aggregateCall (lowerCase agg.function)).map fun call =>
      call.1.toList ++ column ++ call.2.toList ++ name

def buildAggregateSql (step : AggregateStepConfig) : Option Text :=
  if step.aggregations = [] then none
  else (quoteIdentifiers step.groupBy).bind fun groupBy =>
    (step.aggregations.mapM aggregateExpr).map fun exprs =>
      let sql := "SELECT ".toList ++ commaJoin (groupBy ++ exprs) ++ " FROM __input__".toList
      if step.groupBy = [] then sql else sql ++ " GROUP BY ".toList ++ commaJoin groupBy

/-- The text up to the key; the type of a join is one of four. -/
def joinHead (how : Text) : Option String :=
  if how = "inner".toList then some "SELECT * FROM __left__ INNER JOIN __right__ USING ("
  else if how = "left".toList then some "SELECT * FROM __left__ LEFT JOIN __right__ USING ("
  else if how = "right".toList then some "SELECT * FROM __left__ RIGHT JOIN __right__ USING ("
  else if how = "outer".toList then some "SELECT * FROM __left__ OUTER JOIN __right__ USING ("
  else none

def buildJoinSql (step : JoinStepConfig) : Option Text :=
  (quoteIdentifier step.on).bind fun key => (joinHead (lowerCase step.how)).map fun head =>
    head.toList ++ key ++ ")".toList

/-- The texts around the partition of a deduplication. -/
def deduplicateFrame (keep : Text) : Option (String × String) :=
  if keep = "first".toList then
    some ("WITH __base AS (SELECT *, ROW_NUMBER() OVER () AS __rowid__ FROM __input__), __ranked AS (SELECT *, ROW_NUMBER() OVER (PARTITION BY ",
      " ORDER BY __rowid__ ASC) AS __rn FROM __base) SELECT * EXCLUDE (__rowid__, __rn) FROM __ranked WHERE __rn = 1")
  else if keep = "last".toList then
    some ("WITH __base AS (SELECT *, ROW_NUMBER() OVER () AS __rowid__ FROM __input__), __ranked AS (SELECT *, ROW_NUMBER() OVER (PARTITION BY ",
      " ORDER BY __rowid__ DESC) AS __rn FROM __base) SELECT * EXCLUDE (__rowid__, __rn) FROM __ranked WHERE __rn = 1")
  else if keep = "none".toList ∨ keep = "false".toList then
    some ("WITH __base AS (SELECT *, ROW_NUMBER() OVER () AS __rowid__ FROM __input__), __ranked AS (SELECT *, COUNT(*) OVER (PARTITION BY ",
      ") AS __cnt FROM __base) SELECT * EXCLUDE (__rowid__, __cnt) FROM __ranked WHERE __cnt = 1")
  else none

def buildDeduplicateSql (step : DeduplicateStepConfig) : Option Text :=
  let keep := lowerCase step.keep
  if step.subset = [] then
    if keep = "none".toList ∨ keep = "false".toList then none
    else some "SELECT DISTINCT * FROM __input__".toList
  else (quoteIdentifiers step.subset).bind fun partition =>
    (deduplicateFrame keep).map fun frame =>
      frame.1.toList ++ commaJoin partition ++ frame.2.toList

/-- The decimal text of an integer. -/
def intText (n : Int) : Text := (toString n).toList

/-- The text between the sample size and the closing parenthesis. -/
def sampleSpec (method : String) (seed : Option Int) : Text :=
  method.toList ++ match seed with
    | some seed => ", ".toList ++ intText seed ++ ")".toList
    | none => ")".toList

section Python

-- the text of a number of percents with six decimals
variable (py : Python) (percent : Rat → Numeral)

/-- A fraction between zero and one, in percents; the clipping lets NaN through. -/
def percentText : Double → Text
  | .nan => "nan".toList
  | .infinite negative => (percent (if negative then 0 else 100)).text
  | .finite q => (percent (100 * max 0 (min 1 q))).text

def buildSampleSql (step : SampleStepConfig) : Option Text :=
  match step.n, step.fraction with
  | some n, none => some ("SELECT * FROM __input__ USING SAMPLE ".toList ++
      (natural n.toNat).text ++ sampleSpec " ROWS (reservoir" step.randomState)
  | none, some fraction => some ("SELECT * FROM __input__ USING SAMPLE ".toList ++
      percentText percent fraction ++ sampleSpec "% (bernoulli" step.randomState)
  | _, _ => none

/-- The call that fills a null of a column from the other rows. -/
def fillCall (strategy : Text) : Option (String × String) :=
  if strategy = "mean".toList then some (", AVG(", ") OVER ()) AS ")
  else if strategy = "median".toList then some (", MEDIAN(", ") OVER ()) AS ")
  else if strategy = "mode".toList then some (", MODE(", ") OVER ()) AS ")
  else if strategy = "forward_fill".toList then
    some (", LAST_VALUE(", " IGNORE NULLS) OVER (ORDER BY __rowid__ ROWS BETWEEN UNBOUNDED PRECEDING AND CURRENT ROW)) AS ")
  else if strategy = "backward_fill".toList then
    some (", FIRST_VALUE(", " IGNORE NULLS) OVER (ORDER BY __rowid__ ROWS BETWEEN CURRENT ROW AND UNBOUNDED FOLLOWING)) AS ")
  else none

def fillStrategy (strategy : Text) : Text :=
  if strategy = "ffill".toList then "forward_fill".toList
  else if strategy = "bfill".toList then "backward_fill".toList
  else strategy

def byRows (strategy : Text) : Bool :=
  decide (strategy = "forward_fill".toList ∨ strategy = "backward_fill".toList)

/-- The texts around the replaced columns. -/
def fillFrame (strategy : Text) : String × String :=
  if byRows strategy then
    ("WITH __base AS (SELECT *, ROW_NUMBER() OVER () AS __rowid__ FROM __input__) SELECT * EXCLUDE (__rowid__) REPLACE (",
      ") FROM __base")
  else ("SELECT * REPLACE (", ") FROM __input__")

def fillExpr (strategy : Text) (constantValue : Value) (column : Text) : Option Text :=
  (quoteIdentifier column).bind fun quoted =>
    if strategy = "constant".toList then
      (sqlLiteral py constantValue).map fun literal =>
        "COALESCE(".toList ++ quoted ++ ", ".toList ++ literal ++ ") AS ".toList ++ quoted
    else (fillCall strategy).map fun call =>
      "COALESCE(".toList ++ quoted ++ call.1.toList ++ quoted ++ call.2.toList ++ quoted

def buildFillNullsSql (step : FillNullsStepConfig) : Option Text :=
  let strategy := fillStrategy (lowerCase step.strategy)
  if step.columns = [] then none
  else (step.columns.mapM (fillExpr py strategy step.constantValue)).map fun expressions =>
    (fillFrame strategy).1.toList ++ commaJoin expressions ++ (fillFrame strategy).2.toList

def nameStart (c : Char) : Bool := c.isAlpha || c == '_'

def nameRest (c : Char) : Bool := c.isAlphanum || c == '_'

/-- `^[A-Za-z_][A-Za-z0-9_]*$`; the end of the pattern lets one line feed through. -/
def simpleName (text : Text) : Option Text :=
  let name := if text.getLast? = some '\n' then text.dropLast else text
  match name with
  | c :: rest => if nameStart c ∧ rest.all nameRest then some name else none
  | [] => none

def buildPivotSql (step : PivotStepConfig) : Option Text :=
  if step.columns = [] ∨ step.values = [] then none
  else (simpleName step.aggfunc).bind fun _ => (quoteIdentifiers step.index).bind fun index =>
    (quoteIdentifier step.columns).bind fun columns => (quoteIdentifier step.values).map fun values =>
      let groupByClause := if step.index = [] then [] else " GROUP BY ".toList ++ commaJoin index
      "SELECT * FROM (PIVOT __input__ ON ".toList ++ columns ++ " USING ".toList ++
        (step.aggfunc ++ "(".toList) ++ values ++ ")".toList ++ groupByClause ++ ")".toList

def buildUnpivotSql (step : UnpivotStepConfig) : Option Text :=
  if step.valueVars = [] then none
  else (quoteIdentifiers (step.idVars ++ step.valueVars)).bind fun source =>
    (quoteIdentifiers step.valueVars).bind fun columns =>
      (quoteIdentifier step.varName).bind fun varName =>
        (quoteIdentifier step.valueName).map fun valueName =>
          "SELECT * FROM (UNPIVOT (SELECT ".toList ++ commaJoin source ++
            " FROM __input__) ON ".toList ++ commaJoin columns ++ " INTO NAME ".toList ++ varName ++
              " VALUE ".toList ++ valueName ++ ")".toList

def buildSqlForStep : Step → Option Text
  | .filter config => buildFilterSql py config
  | .select config => buildSelectSql config
  | .sort config => buildSortSql config
  | .aggregate config => buildAggregateSql config
  | .join config => buildJoinSql config
  | .deduplicate config => buildDeduplicateSql config
  | .sample config => buildSampleSql percent config
  | .fillNulls config => buildFillNullsSql py config
  | .pivot config => buildPivotSql config
  | .unpivot config => buildUnpivotSql config

end Python

/-! ### The finished query -/

/-- `re.sub(r"[^a-zA-Z0-9_]", "_", name)`. -/
def safeName (name : Text) : Text := name.map fun c => if c.isAlphanum || c == '_' then c else '_'

/-- One turn of the loop over the extra tables: the names in use and the query. -/
def registerTable (state : List Text × Text) (name : Text) : List Text × Text :=
  let safe := safeName name
  let safe := if safe ∈ state.1 then safe ++ '_' :: state.1.length.repr.toList else safe
  (if safe ∈ state.1 then state.1 else state.1 ++ [safe],
    replace ('\x7b' :: name ++ ['\x7d']) safe state.2)

/-- The query that `execute_sql` hands to the engine. -/
def executedSql (extraTables : List Text) (sql : Text) : Text :=
  (extraTables.foldl registerTable (["__input__".toList], sql)).2

/-- The extra tables of a step: only a join has some. -/
def extraTables : Step → List Text
  | .join _ => ["__left__".toList, "__right__".toList]
  | _ => []

/-- The query of a step as the engine gets it, `none` where the builder raises. -/
def stepSql (py : Python) (percent : Rat → Numeral) (step : Step) : Option Text :=
  (buildSqlForStep py percent step).map (executedSql (extraTables step))

end PipelineIQ.Execution.StepSql
