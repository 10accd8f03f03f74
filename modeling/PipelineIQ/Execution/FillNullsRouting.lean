import PipelineIQ.Execution.QuerySql
import PipelineIQ.Lib.Traverse
import PipelineIQ.Pipeline.FillNullsStep

namespace PipelineIQ.Execution.FillNullsRouting

open PipelineIQ.Lib PipelineIQ.Lib.Strings PipelineIQ.Lib.SqlTokens PipelineIQ.Lib.Fills
open PipelineIQ.Lib.Traverse
open PipelineIQ.Pipeline.Filter (ColumnType Python Value)
open PipelineIQ.Pipeline.Steps (Table TypedTable)
open PipelineIQ.Pipeline.Frames PipelineIQ.Pipeline.FillNullsStep
open PipelineIQ.Execution.StepSql (buildFillNullsSql fillCall fillExpr fillFrame fillStrategy byRows)
open PipelineIQ.Execution.FilterSql PipelineIQ.Execution.QuerySql

/-! ### The query -/

def sqlConfig (config : FillNullsStepConfig) : StepSql.FillNullsStepConfig where
  strategy := config.strategy
  columns := config.columns
  constantValue := config.constantValue

/-- The word that the builder has for a strategy. -/
def wordOf : FillStrategy → String
  | .constant => "constant"
  | .forwardFill => "forward_fill"
  | .backwardFill => "backward_fill"
  | .mean => "mean"
  | .median => "median"
  | .mode => "mode"

/-- What a query fills, and the literal that it fills with. -/
structure FillQuery where
  strategy : FillStrategy
  columns : List Text
  literal : Text

/-- The replacement of a column. -/
def FillQuery.item (query : FillQuery) (column : Text) : Text :=
  let quoted := Sql.quote '"' column
  match fillCall (wordOf query.strategy).toList with
  | some call => "COALESCE(".toList ++ quoted ++ call.1.toList ++ quoted ++ call.2.toList ++ quoted
  | none => "COALESCE(".toList ++ quoted ++ ", ".toList ++ query.literal ++ ") AS ".toList ++ quoted

def FillQuery.text (query : FillQuery) : Text :=
  (fillFrame (wordOf query.strategy).toList).1.toList ++ commaJoin (query.columns.map query.item) ++
    (fillFrame (wordOf query.strategy).toList).2.toList

/-- The strategy that the builder takes a word for, in any spelling. -/
def sqlStrategy (word : Text) : Option FillStrategy := strategyOf (fillStrategy (lowerCase word))

def fillQuery (py : Python) (config : FillNullsStepConfig) : Option FillQuery :=
  if config.columns = [] ∨ [] ∈ config.columns then none
  else (sqlStrategy config.strategy).bind fun strategy =>
    if strategy = .constant then
      (sqlLiteral py config.constantValue).map fun literal => ⟨strategy, config.columns, literal⟩
    else some ⟨strategy, config.columns, []⟩

theorem wordOf_strategyOf {word : Text} {strategy : FillStrategy}
    (h : strategyOf word = some strategy) : word = (wordOf strategy).toList := by
  unfold strategyOf at h
  split_ifs at h <;> cases h <;> assumption

theorem fillCall_of_unknown {word : Text} (h : strategyOf word = none) :
    word ≠ "constant".toList ∧ fillCall word = none := by
  unfold strategyOf at h
  split_ifs at h with hconstant hforward hbackward hmean hmedian hmode
  refine ⟨hconstant, ?_⟩
  rw [fillCall, if_neg hmean, if_neg hmedian, if_neg hmode, if_neg hforward, if_neg hbackward]

theorem mapM_of_ne {f : Text → Option Text} {g : Text → Text} (hempty : f [] = none)
    (hf : ∀ column, column ≠ [] → f column = some (g column)) (columns : List Text) :
    columns.mapM f = if [] ∈ columns then none else some (columns.map g) := by
  induction columns with
  | nil => rfl
  | cons c columns ih =>
    rw [List.mapM_cons, ih]
    by_cases hc : c = []
    · simp [hc, hempty]
    · rw [hf c hc]
      by_cases hmem : [] ∈ columns
      · simp [hmem]
      · simp [hmem, Ne.symm hc]

theorem mapM_none {f : Text → Option Text} {columns : List Text} (hne : columns ≠ [])
    (hf : ∀ column, f column = none) : columns.mapM f = none := by
  cases columns with
  | nil => exact absurd rfl hne
  | cons c columns =>
    rw [List.mapM_cons, hf c]
    rfl

theorem fillExpr_empty (py : Python) (word : Text) (value : Value) :
    fillExpr py word value [] = none := by
  rw [fillExpr, quoteIdentifier, if_pos rfl]
  rfl

theorem fillExpr_unknown {py : Python} {word : Text} {value : Value}
    (h : strategyOf word = none) (column : Text) : fillExpr py word value column = none := by
  obtain ⟨hconstant, hcall⟩ := fillCall_of_unknown h
  simp only [fillExpr, if_neg hconstant, hcall, Option.map_none]
  cases quoteIdentifier column <;> rfl

theorem fillCall_constant : fillCall (wordOf .constant).toList = none := by decide

theorem fillCall_isSome {strategy : FillStrategy} (h : strategy ≠ .constant) :
    (wordOf strategy).toList ≠ "constant".toList ∧
      (fillCall (wordOf strategy).toList).isSome = true := by
  cases strategy with
  | constant => exact absurd rfl h
  | forwardFill | backwardFill | mean | median | mode => decide

theorem fillExpr_constant (py : Python) (value : Value) (columns : List Text) {column : Text}
    (h : column ≠ []) :
    fillExpr py (wordOf .constant).toList value column = (sqlLiteral py value).map fun literal =>
      FillQuery.item ⟨.constant, columns, literal⟩ column := by
  have hword : (wordOf .constant).toList = "constant".toList := rfl
  rw [fillExpr, quoteIdentifier_of_ne h, Option.bind_some, if_pos hword]
  unfold FillQuery.item
  simp only [fillCall_constant]

theorem fillExpr_call (py : Python) (value : Value) (columns : List Text)
    {strategy : FillStrategy} (hstrategy : strategy ≠ .constant) {column : Text}
    (h : column ≠ []) :
    fillExpr py (wordOf strategy).toList value column =
      some (FillQuery.item ⟨strategy, columns, []⟩ column) := by
  obtain ⟨hword, hcall⟩ := fillCall_isSome hstrategy
  obtain ⟨call, hcall⟩ := Option.isSome_iff_exists.mp hcall
  rw [fillExpr, quoteIdentifier_of_ne h, Option.bind_some, if_neg hword, hcall]
  unfold FillQuery.item
  simp only [hcall, Option.map_some]

/-- The text that the builder makes is the one of the query. -/
theorem buildFillNullsSql_eq (py : Python) (config : FillNullsStepConfig) :
    buildFillNullsSql py (sqlConfig config) = (fillQuery py config).map FillQuery.text := by
  have hbuild : buildFillNullsSql py (sqlConfig config) = if config.columns = [] then none else
      (config.columns.mapM (fillExpr py (fillStrategy (lowerCase config.strategy))
        config.constantValue)).map fun expressions =>
          (fillFrame (fillStrategy (lowerCase config.strategy))).1.toList ++
            commaJoin expressions ++
              (fillFrame (fillStrategy (lowerCase config.strategy))).2.toList := rfl
  rw [hbuild, fillQuery]
  by_cases hcolumns : config.columns = []
  · rw [if_pos hcolumns, if_pos (Or.inl hcolumns)]
    rfl
  rw [if_neg hcolumns]
  cases hstrategy : sqlStrategy config.strategy with
  | none =>
    have hexpr := @fillExpr_unknown py _ config.constantValue hstrategy
    rw [mapM_none hcolumns hexpr]
    by_cases hmem : [] ∈ config.columns <;> simp [hcolumns, hmem]
  | some strategy =>
    have hword : fillStrategy (lowerCase config.strategy) = (wordOf strategy).toList :=
      wordOf_strategyOf hstrategy
    have hempty := fillExpr_empty py (wordOf strategy).toList config.constantValue
    rw [hword]
    by_cases hconstant : strategy = .constant
    · subst hconstant
      cases hliteral : sqlLiteral py config.constantValue with
      | none =>
        have hexpr : ∀ column,
            fillExpr py (wordOf .constant).toList config.constantValue column = none := by
          intro column
          by_cases hc : column = []
          · rw [hc, hempty]
          · rw [fillExpr_constant py config.constantValue [] hc, hliteral]
            rfl
        rw [mapM_none hcolumns hexpr]
        by_cases hmem : [] ∈ config.columns <;> simp [hcolumns, hmem]
      | some literal =>
        rw [mapM_of_ne hempty fun column hc => by
          rw [fillExpr_constant py config.constantValue config.columns hc, hliteral]
          rfl]
        by_cases hmem : [] ∈ config.columns
        · rw [if_pos hmem, if_pos (Or.inr hmem)]
          rfl
        · rw [if_neg hmem, if_neg (not_or.mpr ⟨hcolumns, hmem⟩)]
          rfl
    · rw [mapM_of_ne hempty fun column hc =>
        fillExpr_call py config.constantValue config.columns hconstant hc]
      by_cases hmem : [] ∈ config.columns
      · rw [if_pos hmem, if_pos (Or.inr hmem)]
        rfl
      · rw [if_neg hmem, if_neg (not_or.mpr ⟨hcolumns, hmem⟩)]
        simp only [Option.bind_some, if_neg hconstant]
        rfl

/-! ### The engine -/

/-- The name that the query adds and excludes. -/
def rowid : List Text := ["__rowid__".toList]

section Engine

variable {α : Type} [DecidableEq α]

/-- What the queries use of DuckDB: the name of a replaced column; the types that a column has in
common with a literal, or with its mean or median, with the value of the literal or of the mean,
`none` where there is no such type; the mode; and what comes of a query on a table with a column
that the query adds. -/
structure FillEngine (α : Type) [DecidableEq α] extends Engine α where
  replaced : Text → Text → Text
  replaced_fold : ∀ column name, fold column = fold name →
    fold (replaced column name) = fold column
  replaced_self : ∀ column, replaced column column = column
  literal : ColumnType → Text → Option ((α → α) × Option α)
  average : FillStrategy → ColumnType → Option ((α → α) × (List α → Option α))
  mode : List α → Option α
  mode_mem : ∀ values v, mode values = some v → v ∈ modes values
  mode_none : ∀ values, mode values = none → modes values = []
  shadowedFill : Text → TypedTable α → Option (ArrowTable α)
  shadowedFill_excludes : ∀ sql t result, shadowedFill sql t = some result →
    ∀ e ∈ result, fold e.1 ∉ rowid

variable (D : FillEngine α)

/-- The cells of `COALESCE` of a column and what fills it. -/
def replaceColumn (query : FillQuery) (type : ColumnType) (cells : List (Option α)) :
    Option (List (Option α)) :=
  match query.strategy with
  | .constant => (D.literal type query.literal).map fun e => fillWith e.2 (cells.map (·.map e.1))
  | .mean | .median => (D.average query.strategy type).map fun e =>
    fillWith (e.2 (cells.filterMap id)) (cells.map (·.map e.1))
  | .mode => some (fillWith (D.mode (cells.filterMap id)) cells)
  | .forwardFill => some (List.zipWith Option.or cells (lastValues [] cells))
  | .backwardFill => some (List.zipWith Option.or cells (firstValues cells))

def FillQuery.byRows (query : FillQuery) : Prop :=
  query.strategy = .forwardFill ∨ query.strategy = .backwardFill

instance (query : FillQuery) : Decidable query.byRows := inferInstanceAs (Decidable (_ ∨ _))

/-- A column of the result. -/
def resultColumn (s : TypedTable α) (query : FillQuery) (i : Fin s.width) :
    Option (Text × List (Option α)) :=
  match query.columns.find? fun column => lookup s.toTable column = some i with
  | some column => (replaceColumn D query (s.types i) (columnOf s.toTable i)).map fun cells =>
    (D.replaced (s.columns i) column, cells)
  | none => some (s.columns i, columnOf s.toTable i)

/-- The query on a registered table; a column is replaced once. -/
def runQuery (s : TypedTable α) (query : FillQuery) : Option (ArrowTable α) :=
  if (∃ column ∈ query.columns, lookup s.toTable column = none) ∨
      ¬(query.columns.map fold).Nodup then none
  else if query.byRows ∧ Shadows s.toTable rowid then D.shadowedFill query.text s
  else (List.finRange s.width).mapM (resultColumn D s query)

/-- The fill step in DuckDB. -/
def duckdbFillNulls (py : Python) (t : TypedTable α) (config : FillNullsStepConfig) :
    Option (ArrowTable α) :=
  (fillQuery py config).bind (runQuery D (registerTyped D.toEngine t))

end Engine

/-! ### When the two agree -/

section Agreement

variable {α : Type} [DecidableEq α] {R : Reading α} (F : Fillers R) (py : Python)
  (D : FillEngine α) (t : TypedTable α) (config : FillNullsStepConfig)

/-- The columns of a table, some of them filled. -/
def Extends (columns : List Text) (result : ArrowTable α) : Prop :=
  List.Forall₂ (fun i e => e.1 = t.columns i ∧ Kept (columnOf t.toTable i) e.2 ∧
    (t.columns i ∉ columns → e.2 = columnOf t.toTable i)) (List.finRange t.width) result

/-- Both engines give the same table, which has the cells of the table that were not missing, and
the columns that were not selected. -/
def FillExact : Prop :=
  (executeFillNulls F t config).toOption = duckdbFillNulls D py t config ∧
    ∀ result, (executeFillNulls F t config).toOption = some result →
      Extends t config.columns result

def BuilderRaises : Prop :=
  config.columns = [] ∨ [] ∈ config.columns ∨ sqlStrategy config.strategy = none ∨
    (sqlStrategy config.strategy = some .constant ∧ sqlLiteral py config.constantValue = none)

/-- The engine has no type for the columns of a query, or no replacement. -/
def EngineRaises (s : TypedTable α) (query : FillQuery) : Prop :=
  (∃ column ∈ query.columns, lookup s.toTable column = none) ∨
    ¬(query.columns.map fold).Nodup ∨
      if query.byRows ∧ Shadows s.toTable rowid then D.shadowedFill query.text s = none
      else ∃ i, (∃ column ∈ query.columns, lookup s.toTable column = some i) ∧
        match query.strategy with
        | .constant => D.literal (s.types i) query.literal = none
        | .mean | .median => D.average query.strategy (s.types i) = none
        | _ => False

def DuckdbRaises : Prop :=
  BuilderRaises py config ∨
    ∀ query, fillQuery py config = some query → EngineRaises D (registerTyped D.toEngine t) query

/-- The values of a column stay as they are in DuckDB, and pandas has the value that DuckDB has for
its missing cells; a spelling that only DuckDB knows has nothing to fill. -/
def ColumnAgrees (query : FillQuery) (i : Fin t.width) : Prop :=
  let cells := columnOf t.toTable i
  let value := fillValue F config (t.types i) cells
  match query.strategy with
  | .constant => ∃ e, D.literal (t.types i) query.literal = some e ∧
      (∀ v, some v ∈ cells → e.1 v = v) ∧ (none ∈ cells → value = e.2)
  | .mean | .median => ∃ e, D.average query.strategy (t.types i) = some e ∧
      (∀ v, some v ∈ cells → e.1 v = v) ∧ (none ∈ cells → value = e.2 (cells.filterMap id))
  | .mode => none ∈ cells → value = D.mode (cells.filterMap id)
  | .forwardFill => strategyOf config.strategy = none → Leading cells
  | .backwardFill => strategyOf config.strategy = none → Trailing cells

def FillAgrees : Prop :=
  (PandasRaises F t config ∧ DuckdbRaises py D t config) ∨
    (¬PandasRaises F t config ∧ ¬BuilderRaises py config ∧ config.columns.Nodup ∧
      CaseDistinct t.toTable ∧ (∀ r ∈ t.rows, R.Exact t.toTable r) ∧
      ∀ query, fillQuery py config = some query →
        (query.byRows → ¬Shadows t.toTable rowid) ∧
          ∀ i, t.columns i ∈ config.columns → ColumnAgrees F D t config query i)

end Agreement

section Raises

variable {α : Type} [DecidableEq α] {R : Reading α} {F : Fillers R} {py : Python}
  {D : FillEngine α} {t : TypedTable α} {config : FillNullsStepConfig}

theorem pandas_none_iff :
    (executeFillNulls F t config).toOption = none ↔ PandasRaises F t config := by
  by_cases h : PandasRaises F t config
  · exact iff_of_true (executeFillNulls_raises h) h
  · refine iff_of_false ?_ h
    rw [executeFillNulls_ok h]
    exact Option.some_ne_none _

theorem fillQuery_none_iff : fillQuery py config = none ↔ BuilderRaises py config := by
  unfold fillQuery BuilderRaises
  by_cases hcolumns : config.columns = [] ∨ [] ∈ config.columns
  · rw [if_pos hcolumns, ← or_assoc]
    exact iff_of_true rfl (Or.inl hcolumns)
  · rw [if_neg hcolumns, ← or_assoc, or_iff_right hcolumns]
    cases hstrategy : sqlStrategy config.strategy with
    | none => simp
    | some strategy =>
      by_cases hconstant : strategy = .constant
      · simp [hconstant]
      · simp [hconstant]

theorem fillQuery_eq {query : FillQuery} (h : fillQuery py config = some query) :
    query.columns = config.columns ∧ sqlStrategy config.strategy = some query.strategy := by
  unfold fillQuery at h
  split at h
  next => cases h
  next =>
    obtain ⟨strategy, hstrategy, h⟩ := Option.bind_eq_some_iff.mp h
    split at h
    · obtain ⟨literal, -, rfl⟩ := Option.map_eq_some_iff.mp h
      exact ⟨rfl, hstrategy⟩
    · cases h
      exact ⟨rfl, hstrategy⟩

theorem replaceColumn_none_iff {query : FillQuery} {type : ColumnType}
    {cells : List (Option α)} : replaceColumn D query type cells = none ↔
      match query.strategy with
      | .constant => D.literal type query.literal = none
      | .mean | .median => D.average query.strategy type = none
      | _ => False := by
  unfold replaceColumn
  cases query.strategy <;> simp

theorem resultColumn_none_iff {s : TypedTable α} {query : FillQuery} {i : Fin s.width} :
    resultColumn D s query i = none ↔
      (∃ column ∈ query.columns, lookup s.toTable column = some i) ∧
        replaceColumn D query (s.types i) (columnOf s.toTable i) = none := by
  unfold resultColumn
  cases hfind : query.columns.find? fun column => lookup s.toTable column = some i with
  | none =>
    have hnone := List.find?_eq_none.mp hfind
    simpa using fun column hc h => absurd h (by simpa using hnone column hc)
  | some column =>
    have hsome := List.find?_some hfind
    have hmem := List.mem_of_find?_eq_some hfind
    have hcolumn : ∃ column ∈ query.columns, lookup s.toTable column = some i :=
      ⟨column, hmem, by simpa using hsome⟩
    simp only [Option.map_eq_none_iff, hcolumn, true_and]

theorem runQuery_none_iff {s : TypedTable α} {query : FillQuery} :
    runQuery D s query = none ↔ EngineRaises D s query := by
  unfold runQuery EngineRaises
  rw [← or_assoc]
  split
  next h => exact iff_of_true rfl (Or.inl h)
  next h =>
    rw [or_iff_right h]
    split
    · rfl
    · rw [← Option.not_isSome_iff_eq_none, mapM_isSome_iff]
      simp only [not_forall, Option.not_isSome_iff_eq_none, resultColumn_none_iff,
        replaceColumn_none_iff, List.mem_finRange, true_and, exists_prop]

theorem duckdb_none_iff : duckdbFillNulls D py t config = none ↔ DuckdbRaises py D t config := by
  unfold duckdbFillNulls DuckdbRaises
  rw [← fillQuery_none_iff]
  cases hquery : fillQuery py config with
  | none => simp
  | some query => simp [runQuery_none_iff]

end Raises

/-! ### Names -/

section Names

variable {α : Type} [DecidableEq α] {R : Reading α} {F : Fillers R} {py : Python}
  {D : FillEngine α} {t : TypedTable α} {config : FillNullsStepConfig} {query : FillQuery}

theorem undigited_rowid : Undigited rowid := undigited_of (by decide)

theorem fold_resultColumn {s : TypedTable α} {i : Fin s.width} {e : Text × List (Option α)}
    (h : resultColumn D s query i = some e) : fold e.1 = fold (s.columns i) := by
  unfold resultColumn at h
  split at h
  next column hfind =>
    obtain ⟨cells, -, rfl⟩ := Option.map_eq_some_iff.mp h
    have hlookup : lookup s.toTable column = some i := by
      simpa using List.find?_some hfind
    have hfold : fold (s.columns i) = fold column := by
      simpa using List.find?_some hlookup
    exact D.replaced_fold _ _ hfold
  next =>
    cases h
    rfl

/-- A result with the names of the table is one of a table whose names differ in more than case,
and that the query adds no name to. -/
theorem regular_of_result {result : ArrowTable α}
    (hrun : runQuery D (registerTyped D.toEngine t) query = some result)
    (hnames : result.map Prod.fst = t.names) :
    (query.columns.map fold).Nodup ∧ CaseDistinct t.toTable ∧
      (query.byRows → ¬Shadows t.toTable rowid) := by
  unfold runQuery at hrun
  split at hrun
  next => cases hrun
  next hfound =>
    rw [not_or, not_not] at hfound
    split at hrun
    next hshadow =>
      obtain ⟨i, hi⟩ := shadows_of_register undigited_rowid hshadow.2
      have hmem : t.columns i ∈ result.map Prod.fst := by
        rw [hnames]
        exact List.mem_map_of_mem (List.mem_finRange i)
      obtain ⟨e, he, hname⟩ := List.mem_map.mp hmem
      rw [← hname] at hi
      exact absurd hi (D.shadowedFill_excludes _ _ _ hrun e he)
    next hshadow =>
      have hrel := mapM_some_iff.mp hrun
      have hfolds : (List.finRange t.width).map (fun i => fold (D.names t.columns i)) =
          result.map fun e => fold e.1 :=
        map_eq_of_forall₂ hrel fun i e he => (fold_resultColumn he).symm
      have hcase : CaseDistinct t.toTable := by
        have htable : (List.finRange t.width).map (fun i => fold (t.columns i)) =
            result.map fun e => fold e.1 := by
          have := congrArg (List.map fold) hnames
          rw [Table.names, List.map_map, List.map_map] at this
          exact this.symm
        intro i j hij
        have hsame := List.map_inj_left.mp (hfolds.trans htable.symm)
        refine D.names_injective t.columns ?_
        change fold (D.names t.columns i) = fold (D.names t.columns j)
        rw [hsame i (List.mem_finRange i), hsame j (List.mem_finRange j)]
        exact hij
      refine ⟨hfound.2, hcase, fun hrows hshadows => hshadow ⟨hrows, ?_⟩⟩
      change Shadows (D.register t.toTable) rowid
      rw [register_eq hcase]
      exact hshadows

theorem registerTyped_eq (h : CaseDistinct t.toTable) : registerTyped D.toEngine t = t := by
  obtain ⟨⟨width, columns, distinct, rows⟩, types⟩ := t
  have hrename : ∀ (columns' : Fin width → Text) (distinct' : Function.Injective columns'),
      columns' = columns → (⟨⟨width, columns', distinct', rows⟩, types⟩ : TypedTable α) =
        ⟨⟨width, columns, distinct, rows⟩, types⟩ := by
    rintro _ _ rfl
    rfl
  exact hrename _ _ (D.names_eq columns h)

omit [DecidableEq α] in
theorem lookup_some_iff (h : CaseDistinct t.toTable) {column : Text} (hname : column ∈ t.names)
    {i : Fin t.width} : lookup t.toTable column = some i ↔ t.columns i = column := by
  rw [lookup_eq_find h hname, Table.find_eq_some]

omit [DecidableEq α] in
theorem find_lookup (h : CaseDistinct t.toTable) {columns : List Text}
    (hcolumns : ∀ column ∈ columns, column ∈ t.names) (i : Fin t.width) :
    (columns.find? fun column => lookup t.toTable column = some i) =
      if t.columns i ∈ columns then some (t.columns i) else none := by
  induction columns with
  | nil => rfl
  | cons c columns ih =>
    have hc : lookup t.toTable c = some i ↔ t.columns i = c :=
      lookup_some_iff h (hcolumns c List.mem_cons_self)
    rw [List.find?_cons, ih fun column hmem => hcolumns column (List.mem_cons_of_mem c hmem)]
    by_cases hi : t.columns i = c
    · simp [hc.mpr hi, hi]
    · simp [mt hc.mp hi, hi]

theorem resultColumn_eq (h : CaseDistinct t.toTable)
    (hcolumns : ∀ column ∈ query.columns, column ∈ t.names) (i : Fin t.width) :
    resultColumn D t query i =
      if t.columns i ∈ query.columns then
        (replaceColumn D query (t.types i) (columnOf t.toTable i)).map fun cells =>
          (t.columns i, cells)
      else some (t.columns i, columnOf t.toTable i) := by
  unfold resultColumn
  rw [find_lookup h hcolumns]
  by_cases hi : t.columns i ∈ query.columns
  · simp only [if_pos hi, D.replaced_self]
  · simp only [if_neg hi]

end Names

/-! ### Columns -/

section Columns

variable {α : Type} [DecidableEq α] {R : Reading α} {F : Fillers R} {py : Python}
  {D : FillEngine α} {t : TypedTable α} {config : FillNullsStepConfig} {query : FillQuery}

theorem sqlStrategy_of_strategyOf {word : Text} {strategy : FillStrategy}
    (h : strategyOf word = some strategy) : sqlStrategy word = some strategy := by
  rw [wordOf_strategyOf h]
  cases strategy <;> decide +kernel

/-- A column of the query is the one of pandas when the two agree on it. -/
theorem columnAgrees_iff (hstrategy : sqlStrategy config.strategy = some query.strategy)
    (i : Fin t.width) :
    replaceColumn D query (t.types i) (columnOf t.toTable i) =
        some (filled F config (t.types i) (columnOf t.toTable i)) ↔
      ColumnAgrees F D t config query i := by
  have hpandas : strategyOf config.strategy = none ∨
      strategyOf config.strategy = some query.strategy := by
    cases hword : strategyOf config.strategy with
    | none => exact Or.inl rfl
    | some strategy =>
      rw [sqlStrategy_of_strategyOf hword] at hstrategy
      exact Or.inr hstrategy
  have hvalue : query.strategy ≠ .forwardFill → query.strategy ≠ .backwardFill →
      filled F config (t.types i) (columnOf t.toTable i) =
        fillWith (fillValue F config (t.types i) (columnOf t.toTable i)) (columnOf t.toTable i) := by
    intro hforward hbackward
    unfold filled
    split
    next h =>
      have hsome := hpandas.resolve_left (h ▸ Option.some_ne_none _)
      exact absurd (Option.some.inj (h.symm.trans hsome)).symm hforward
    next h =>
      have hsome := hpandas.resolve_left (h ▸ Option.some_ne_none _)
      exact absurd (Option.some.inj (h.symm.trans hsome)).symm hbackward
    next => rfl
  -- a word that only the query knows fills nothing in pandas
  have hother : strategyOf config.strategy = none →
      filled F config (t.types i) (columnOf t.toTable i) = columnOf t.toTable i := by
    intro h
    simp only [filled, fillValue, h, fillWith_none]
  unfold replaceColumn ColumnAgrees
  cases hs : query.strategy with
  | constant =>
    rw [hvalue (by simp [hs]) (by simp [hs])]
    cases D.literal (t.types i) query.literal with
    | none => simp
    | some e =>
      simp only [Option.map_some, Option.some.injEq, fillWith_map_eq_iff, exists_eq_left']
  | mean | median =>
    rw [hvalue (by simp [hs]) (by simp [hs])]
    cases D.average _ (t.types i) with
    | none => simp
    | some e =>
      simp only [Option.map_some, Option.some.injEq, fillWith_map_eq_iff, exists_eq_left']
  | mode =>
    rw [hvalue (by simp [hs]) (by simp [hs])]
    simp only [Option.some.injEq, fillWith_eq_iff]
    exact forall_congr' fun _ => eq_comm
  | forwardFill =>
    simp only [Option.some.injEq, zipWith_lastValues]
    change forwardFill none _ = _ ↔ _
    rcases hpandas with h | h
    · rw [hother h, forwardFill_eq_self_iff]
      simp [h]
    · rw [filled, h, hs]
      simp
  | backwardFill =>
    simp only [Option.some.injEq, zipWith_firstValues]
    rcases hpandas with h | h
    · rw [hother h, backwardFill_eq_self_iff]
      simp [h]
    · rw [filled, h, hs]
      simp

/-- A single mode is the same in both engines. -/
theorem mode_agrees {v : α} (hword : strategyOf config.strategy = some .mode)
    (hquery : query.strategy = .mode) {i : Fin t.width}
    (hmodes : modes ((columnOf t.toTable i).filterMap id) = [v]) :
    ColumnAgrees F D t config query i := by
  have horder : F.order [v] = [v] := List.perm_singleton.mp (F.order_perm [v])
  have hmode : D.mode ((columnOf t.toTable i).filterMap id) = some v := by
    cases hw : D.mode ((columnOf t.toTable i).filterMap id) with
    | none =>
      have hnone := D.mode_none _ hw
      rw [hmodes] at hnone
      cases hnone
    | some w =>
      have hmem := D.mode_mem _ _ hw
      rw [hmodes] at hmem
      rw [List.mem_singleton.mp hmem]
  unfold ColumnAgrees fillValue
  simp only [hquery, hword, hmodes, horder, hmode, List.head?_cons, implies_true]

/-- What the query gives on a table that it adds no name to. -/
theorem runQuery_eq_some_iff (hcase : CaseDistinct t.toTable)
    (hcolumns : ∀ column ∈ query.columns, column ∈ t.names) (hnodup : query.columns.Nodup)
    (hshadow : query.byRows → ¬Shadows t.toTable rowid)
    {cells : Fin t.width → List (Option α)} :
    runQuery D (registerTyped D.toEngine t) query =
        some ((List.finRange t.width).map fun i => (t.columns i, cells i)) ↔
      ∀ i, if t.columns i ∈ query.columns then
        replaceColumn D query (t.types i) (columnOf t.toTable i) = some (cells i)
      else cells i = columnOf t.toTable i := by
  have hfound : ¬((∃ column ∈ query.columns, lookup t.toTable column = none) ∨
      ¬(query.columns.map fold).Nodup) := by
    rintro (⟨column, hc, hnone⟩ | hrepeated)
    · obtain ⟨i, -, hi⟩ := List.mem_map.mp (hcolumns column hc)
      rw [(lookup_some_iff hcase (hcolumns column hc)).mpr hi] at hnone
      cases hnone
    · refine hrepeated (hnodup.map_on fun c hc c' hc' hfold => ?_)
      obtain ⟨i, -, rfl⟩ := List.mem_map.mp (hcolumns c hc)
      obtain ⟨j, -, rfl⟩ := List.mem_map.mp (hcolumns c' hc')
      rw [hcase hfold]
  rw [registerTyped_eq hcase, runQuery, if_neg hfound, if_neg fun h => hshadow h.1 h.2,
    mapM_some_iff, List.forall₂_map_right_iff, List.forall₂_same]
  refine forall_congr' fun i => ?_
  rw [resultColumn_eq hcase hcolumns]
  split
  · simp
  · simp [eq_comm]

end Columns

section Main

variable {α : Type} [DecidableEq α] {R : Reading α}

/-- The step gives the same table in both engines, which keeps every value and every column that
is not selected, when both refuse it, or both take it, each column is selected once, no two columns
differ in case only, a carried column has no row numbers next to it, pandas reads every cell as it
is, and the engines agree on each selected column. -/
theorem fill_exact_iff (F : Fillers R) (py : Python) (D : FillEngine α) (t : TypedTable α)
    (config : FillNullsStepConfig) :
    FillExact F py D t config ↔ FillAgrees F py D t config := by
  constructor
  · rintro ⟨hsame, hextends⟩
    by_cases hraises : PandasRaises F t config
    · exact Or.inl ⟨hraises, duckdb_none_iff.mp (hsame ▸ pandas_none_iff.mpr hraises)⟩
    have hpandas := executeFillNulls_ok hraises
    rw [hpandas] at hsame
    obtain ⟨query, hquery, hrun⟩ := Option.bind_eq_some_iff.mp hsame.symm
    obtain ⟨hcolumns, hstrategy⟩ := fillQuery_eq hquery
    have hnames : ((List.finRange t.width).map fun i =>
        (t.columns i, filledFrame F t config config.columns (readColumn R t) i)).map Prod.fst =
          t.names := by
      rw [List.map_map]
      rfl
    obtain ⟨hnodup, hcase, hshadow⟩ := regular_of_result hrun hnames
    have hkept := hextends _ hpandas
    rw [Extends, List.forall₂_map_right_iff, List.forall₂_same] at hkept
    have hexact := exact_of_kept fun i => (hkept i (List.mem_finRange i)).2.1
    have hfound : ∀ column ∈ query.columns, column ∈ t.names := by
      rw [hcolumns]
      by_contra hmissing
      push Not at hmissing
      exact hraises (Or.inl hmissing)
    rw [hcolumns] at hnodup
    refine Or.inr ⟨hraises, ?_, hnodup.of_map, hcase, hexact, fun query' hquery' => ?_⟩
    · rw [← fillQuery_none_iff, hquery]
      exact Option.some_ne_none query
    · rw [hquery] at hquery'
      cases hquery'
      refine ⟨hshadow, fun i hi => (columnAgrees_iff hstrategy i).mp ?_⟩
      rw [runQuery_eq_some_iff hcase hfound (hcolumns ▸ hnodup.of_map) hshadow] at hrun
      have hcell := hrun i
      rw [hcolumns, if_pos hi, filledFrame, if_pos hi, readColumn_eq hexact] at hcell
      exact hcell
  · rintro (⟨hpandas, hduckdb⟩ | ⟨hraises, hbuilder, hnodup, hcase, hexact, hagree⟩)
    · have hnone := pandas_none_iff.mpr hpandas
      rw [FillExact, hnone, duckdb_none_iff.mpr hduckdb]
      exact ⟨rfl, by simp⟩
    have hpandas := executeFillNulls_ok hraises
    obtain ⟨query, hquery⟩ := Option.ne_none_iff_exists'.mp (mt fillQuery_none_iff.mp hbuilder)
    obtain ⟨hcolumns, hstrategy⟩ := fillQuery_eq hquery
    obtain ⟨hshadow, hagree⟩ := hagree query hquery
    have hfound : ∀ column ∈ query.columns, column ∈ t.names := by
      rw [hcolumns]
      by_contra hmissing
      push Not at hmissing
      exact hraises (Or.inl hmissing)
    have hcells : ∀ i, filledFrame F t config config.columns (readColumn R t) i =
        if t.columns i ∈ config.columns then
          filled F config (t.types i) (columnOf t.toTable i) else columnOf t.toTable i := by
      intro i
      rw [filledFrame, readColumn_eq hexact]
    have hrun : runQuery D (registerTyped D.toEngine t) query =
        some ((List.finRange t.width).map fun i =>
          (t.columns i, filledFrame F t config config.columns (readColumn R t) i)) := by
      rw [runQuery_eq_some_iff hcase hfound (hcolumns ▸ hnodup) hshadow]
      intro i
      rw [hcolumns, hcells i]
      split
      next hi => exact (columnAgrees_iff hstrategy i).mpr (hagree i hi)
      next => rfl
    constructor
    · rw [hpandas, duckdbFillNulls, hquery]
      exact hrun.symm
    · intro result hresult
      rw [hpandas] at hresult
      cases hresult
      rw [Extends, List.forall₂_map_right_iff, List.forall₂_same]
      intro i _
      dsimp only
      rw [hcells i]
      split
      next hi => exact ⟨rfl, kept_filled, fun h => absurd hi h⟩
      next => exact ⟨rfl, kept_refl _, fun _ => rfl⟩

/-- A pandas that fills with nothing. -/
def noFillers : Fillers R where
  constant _ _ _ := none
  mean _ := none
  median _ := none
  order := id
  order_perm _ := .refl _
  value_constant := by simp
  value_mean := by simp
  value_median := by simp

/-- An engine that has no type for literals and means. -/
def carrying : FillEngine α where
  toEngine := numbering
  replaced column _ := column
  replaced_fold _ _ _ := rfl
  replaced_self _ := rfl
  literal _ _ := none
  average _ _ := none
  mode values := (modes values).head?
  mode_mem _ _ h := List.mem_of_mem_head? h
  mode_none _ h := List.head?_eq_none_iff.mp h
  shadowedFill _ _ := none
  shadowedFill_excludes := by simp

/-- A table with a value and a null under it. -/
def valueThenNull : TypedTable Nat where
  width := 1
  columns _ := "v".toList
  distinct _ _ _ := Subsingleton.elim _ _
  rows := [fun _ => some 1, fun _ => none]
  types _ := .int

/-- Only the query knows the strategy by its short name. -/
theorem ffill_passed_over : ¬FillExact (noFillers : Fillers (readAsIs : Reading Nat))
    ⟨fun _ => [], fun _ => []⟩ carrying valueThenNull
    { strategy := "ffill".toList, columns := ["v".toList] } := by
  intro h
  exact absurd h.1 (by decide +kernel)

end Main

end PipelineIQ.Execution.FillNullsRouting
