import Mathlib.Data.Fin.VecNotation
import PipelineIQ.Execution.QuerySql
import PipelineIQ.Lib.Traverse
import PipelineIQ.Lib.Wide

namespace PipelineIQ.Execution.PivotRouting

open PipelineIQ.Lib PipelineIQ.Lib.Strings PipelineIQ.Lib.Sql PipelineIQ.Lib.SqlReader
open PipelineIQ.Lib.Traverse PipelineIQ.Lib.Wide PipelineIQ.Pipeline.Frames
open PipelineIQ.Pipeline.Filter (ColumnType Dtype Value)
open PipelineIQ.Pipeline.Steps (Table TypedTable)
open PipelineIQ.Execution.StepSql (buildPivotSql simpleName)
open PipelineIQ.Execution.FilterSql PipelineIQ.Execution.QuerySql

/-! ### The step in pandas -/

structure PivotStepConfig where
  index : List Text
  columns : Text
  values : Text
  aggfunc : Text := "sum".toList
  fillValue : Value := some (.int 0)

/-- The columns that a configuration names. -/
def PivotStepConfig.roles (config : PivotStepConfig) : List Text :=
  config.index ++ [config.columns, config.values]

/-- What the parser checks of a pivot step. -/
structure PivotStepConfig.Validated (config : PivotStepConfig) : Prop where
  index : config.index ≠ []
  columns : strip config.columns ≠ []
  values : strip config.values ≠ []

/-- A table of named columns whose rows are read by name. -/
structure WideTable (α : Type) where
  columns : List Text
  rows : List (Text → Option α)

/-- What a pivot uses of pandas: the text of a value as the name of a column; the aggregate function
of a name on the cells of a group, where it raises on none of the groups; what is made of the cells
of a new column when the missing ones are filled and the column goes back to Arrow, where that does
not raise; and what comes of a column in two roles. -/
structure PandasPivot (α : Type) where
  text : Dtype → α → Text
  aggregate : Text → Dtype → List (List (Option α)) → Option (List (Option α) → Option α)
  fill : Value → Dtype → List (Option α) → Option (Option α → Option α)
  irregular : TypedTable α → PivotStepConfig → Option (WideTable α)

variable {α : Type} [DecidableEq α]

/-- The cells of the values column in the rows of one key and one value of the pivot column. -/
def groupCells {ρ : Type} (keyOf : ρ → List (Option α)) (column values : ρ → Option α)
    (rows : List ρ) (k : List (Option α)) (x : α) : List (Option α) :=
  (rows.filter fun r => keyOf r = k ∧ column r = some x).map values

section Pandas

variable (P : PandasPivot α) (R : Reading α) (t : TypedTable α) (config : PivotStepConfig)

/-- The rows of the frame without a null in the index or the pivot column. -/
def presentRows : List t.Row :=
  (R.frame t.toTable).filter fun r => (config.index ++ [config.columns]).all fun c =>
    (t.cell r c).isSome

def pandasCells (k : List (Option α)) (x : α) : List (Option α) :=
  groupCells (key t.toTable config.index) (fun r => t.cell r config.columns)
    (fun r => t.cell r config.values) (presentRows R t config) k x

/-- The groups, each with a key and a value of the pivot column. -/
def pandasGroups : List (List (Option α) × α) :=
  ((presentRows R t config).filterMap fun r =>
    (t.cell r config.columns).map fun x => (key t.toTable config.index r, x)).dedup

def pandasAggregate : Option (List (Option α) → Option α) :=
  P.aggregate config.aggfunc (t.dtypeOf config.values)
    ((pandasGroups R t config).map fun g => pandasCells R t config g.1 g.2)

section Table

variable (f : List (Option α) → Option α)

/-- The value of a group, if there is such a group. -/
def pandasValue (k : List (Option α)) (x : α) : Option α :=
  let cells := pandasCells R t config k x
  if cells = [] then none else f cells

/-- The groups that are left when those without a value are dropped. -/
def survivingGroups : List (List (Option α) × α) :=
  (pandasGroups R t config).filter fun g => (pandasValue R t config f g.1 g.2).isSome

def rowKeys : List (List (Option α)) := ((survivingGroups R t config f).map Prod.fst).dedup

def colValues : List α := ((survivingGroups R t config f).map Prod.snd).dedup

def newColumns : List Text :=
  (colValues R t config f).map (P.text (t.dtypeOf config.columns))

/-- What filling makes of the cells of each new column. -/
def fills : Option (List (α × (Option α → Option α))) :=
  (colValues R t config f).mapM fun x =>
    (P.fill config.fillValue (t.dtypeOf config.values)
      ((rowKeys R t config f).map fun k => pandasValue R t config f k x)).map fun g => (x, g)

def filledCells (fills : List (α × (Option α → Option α))) (k : List (Option α)) :
    List (Option α) :=
  fills.map fun e => e.2 (pandasValue R t config f k e.1)

def unstacked (fills : List (α × (Option α → Option α))) : WideTable α :=
  ⟨config.index ++ newColumns P R t config f, (rowKeys R t config f).map fun k =>
    rowOf (config.index ++ newColumns P R t config f) (k ++ filledCells R t config f fills k)⟩

end Table

/-- `pivot_table`, with the index reset and the table made an Arrow table. -/
def pivotTable : Except FrameError (WideTable α) :=
  match pandasAggregate P R t config with
  | none => .error (.value "agg function failed".toList)
  | some f =>
    let columns := config.index ++ newColumns P R t config f
    if columns.Nodup then
      match fills P R t config f with
      | none => .error .conversion
      | some fills => .ok (unstacked P R t config f fills)
    else .error .duplicateColumns

/-- A column in two roles is twice in a frame that is cut down to the columns of the roles, and an
index column cannot be there twice when the index is reset. -/
def executePivot : Except FrameError (WideTable α) := do
  config.roles.forM (validateColumnExists t.toTable)
  if config.roles.Nodup then pivotTable P R t config
  else if config.roles.length < t.width ∨ ¬config.index.Nodup then .error .duplicateColumns
  else (P.irregular t config).elim (.error .conversion) .ok

end Pandas

/-! ### The query -/

def sqlConfig (config : PivotStepConfig) : StepSql.PivotStepConfig where
  index := config.index
  columns := config.columns
  values := config.values
  aggfunc := config.aggfunc

structure PivotQuery where
  columns : Text
  function : Text
  values : Text
  groupBy : List Text

def readPivot (sql : Text) : Option PivotQuery := do
  let rest ← expect "SELECT * FROM (PIVOT __input__ ON ".toList sql
  let (columns, rest) ← readQuoted '"' rest
  let rest ← expect " USING ".toList rest
  let function ← simpleName (rest.takeWhile fun c => c ≠ '(')
  let rest ← expect "(".toList (rest.dropWhile fun c => c ≠ '(')
  let (values, rest) ← readQuoted '"' rest
  let rest ← expect ") GROUP BY ".toList rest
  let (groupBy, rest) ← readList rest
  if rest = ")".toList then some ⟨columns, function, values, groupBy⟩ else none

/-- What `PIVOT` uses of DuckDB: the text of a value as the name of a column, the names of the
columns of a result, of which a later one gets another name where an earlier one differs from it in
case at most, the function of a name on the cells of a group, which may be empty, where it takes
the type of the column, and what comes of a query that takes a column twice or whose pivot column
has no values. -/
structure Pivots (α : Type) where
  cast : ColumnType → α → Text
  names : List Text → List Text
  names_append : ∀ front back, (front.map fold).Nodup →
    ∃ renamed, names (front ++ back) = front ++ renamed ∧ renamed.length = back.length
  names_distinct : ∀ columns, ((names columns).map fold).Nodup
  aggregate : Text → ColumnType → Option (List (Option α) → Option α)
  irregular : Text → TypedTable α → Option (WideTable α)

section Query

variable (A : Pivots α) (D : Engine α)

section Rows

variable (t : TypedTable α) (index : List (Fin t.width)) (columns values : Fin t.width)

/-- The values of the pivot column other than null. -/
def listed : List α := (t.rows.filterMap fun r => r columns).dedup

def duckdbNames : List Text :=
  A.names (index.map t.columns ++ (listed t columns).map (A.cast (t.types columns)))

def duckdbKeys : List (List (Option α)) := Groups.keys (fun r : t.Row => index.map r) t.rows

/-- The function on the cells of a group. -/
def duckdbValue (f : List (Option α) → Option α) (k : List (Option α)) (x : α) : Option α :=
  f (groupCells (fun r : t.Row => index.map r) (fun r => r columns) (fun r => r values) t.rows k x)

def duckdbCells (f : List (Option α) → Option α) (k : List (Option α)) : List (Option α) :=
  (listed t columns).map (duckdbValue t index columns values f k)

def pivoted (f : List (Option α) → Option α) : WideTable α :=
  ⟨duckdbNames A t index columns, (duckdbKeys t index).map fun k =>
    rowOf (duckdbNames A t index columns) (k ++ duckdbCells t index columns values f k)⟩

end Rows

/-- The query on a registered table: a row for each key, nulls among them. -/
def runQuery (t : TypedTable α) (sql : Text) (query : PivotQuery) : Option (WideTable α) :=
  (query.groupBy.mapM (lookup t.toTable)).bind fun index =>
    (lookup t.toTable query.columns).bind fun columns =>
      (lookup t.toTable query.values).bind fun values =>
        (A.aggregate query.function (t.types values)).bind fun f =>
          if (index ++ [columns, values]).Nodup ∧ listed t columns ≠ [] then
            some (pivoted A t index columns values f)
          else A.irregular sql t

/-- The pivot step in DuckDB. -/
def duckdbPivot (t : TypedTable α) (config : PivotStepConfig) : Option (WideTable α) :=
  (buildPivotSql (sqlConfig config)).bind fun sql =>
    (readPivot sql).bind (runQuery A (registerTyped D t) sql)

end Query

/-! ### What the query says -/

section Query

variable {config : PivotStepConfig}

def queryText (config : PivotStepConfig) : Text :=
  "SELECT * FROM (PIVOT __input__ ON ".toList ++ (quote '"' config.columns ++
    (" USING ".toList ++ (config.aggfunc ++ ("(".toList ++ (quote '"' config.values ++
      (") GROUP BY ".toList ++ (nameList config.index ++ ")".toList)))))))

theorem empty_mem_roles : [] ∈ config.roles ↔
    (config.columns = [] ∨ config.values = []) ∨ [] ∈ config.index := by
  rw [PivotStepConfig.roles, List.mem_append, List.mem_pair, @eq_comm _ [] config.columns,
    @eq_comm _ [] config.values, or_comm]

theorem buildPivotSql_eq (hindex : config.index ≠ []) :
    buildPivotSql (sqlConfig config) =
      if [] ∈ config.roles then none
      else (simpleName config.aggfunc).map fun _ => queryText config := by
  unfold buildPivotSql
  simp only [sqlConfig, quoteIdentifiers_eq]
  by_cases hempty : config.columns = [] ∨ config.values = []
  · rw [if_pos hempty, if_pos (empty_mem_roles.mpr (Or.inl hempty))]
  rw [if_neg hempty, if_congr (empty_mem_roles.trans (or_iff_right hempty)) rfl rfl]
  rw [not_or] at hempty
  cases simpleName config.aggfunc with
  | none => simp
  | some function =>
    by_cases hnames : [] ∈ config.index
    · rw [if_pos hnames, if_pos hnames, Option.bind_some, Option.bind_none]
    · rw [if_neg hnames, if_neg hnames, Option.bind_some, Option.bind_some,
        quoteIdentifier_of_ne hempty.1, Option.bind_some, quoteIdentifier_of_ne hempty.2,
        Option.map_some, Option.map_some, commaJoin_quote]
      simp only [hindex, if_false]
      have hassoc : ∀ a b c d e f g h i j : Text, a ++ b ++ c ++ (d ++ e) ++ f ++ g ++ (h ++ i) ++ j =
          a ++ (b ++ (c ++ (d ++ (e ++ (f ++ ((g ++ h) ++ (i ++ j))))))) := by
        intros
        simp only [List.append_assoc]
      exact congrArg some (hassoc ..)

/-- No parenthesis is in a simple name. -/
theorem paren_notMem_of_simpleName {text function : Text} (h : simpleName text = some function) :
    ∀ c ∈ text, c ≠ '(' := by
  unfold simpleName at h
  generalize hread : (if text.getLast? = some '\n' then text.dropLast else text) = name at h
  have hname : ∀ c ∈ name, c ≠ '(' := by
    cases name with
    | nil => cases h
    | cons first rest =>
      dsimp only at h
      by_cases hchars : StepSql.nameStart first ∧ rest.all StepSql.nameRest
      · rw [List.forall_mem_cons]
        constructor
        · rintro rfl
          exact absurd hchars.1 (by decide)
        · rintro c hc rfl
          exact absurd (List.all_eq_true.mp hchars.2 _ hc) (by decide)
      · rw [if_neg hchars] at h
        cases h
  by_cases hlast : text.getLast? = some '\n'
  · rw [if_pos hlast] at hread
    intro c hc
    rw [← List.dropLast_append_getLast? _ hlast, List.mem_append, hread] at hc
    cases hc with
    | inl hc => exact hname c hc
    | inr hc =>
      rw [List.mem_singleton.mp hc]
      decide
  · rw [if_neg hlast] at hread
    exact hread ▸ hname

theorem readPivot_queryText (hindex : config.index ≠ []) {function : Text}
    (hfunction : simpleName config.aggfunc = some function) :
    readPivot (queryText config) =
      some ⟨config.columns, function, config.values, config.index⟩ := by
  have hall : ∀ c ∈ config.aggfunc, decide (c ≠ '(') = true := fun c hc =>
    decide_eq_true (paren_notMem_of_simpleName hfunction c hc)
  have hcall : ∀ rest, (config.aggfunc ++ ("(".toList ++ rest)).takeWhile (fun c => c ≠ '(') =
      config.aggfunc := by
    intro rest
    rw [List.takeWhile_append_of_pos hall]
    exact List.append_nil _
  have hrest : ∀ rest, (config.aggfunc ++ ("(".toList ++ rest)).dropWhile (fun c => c ≠ '(') =
      "(".toList ++ rest := by
    intro rest
    rw [List.dropWhile_append_of_pos hall]
    rfl
  have hcolumns := fun rest => readQuoted_quote '"' config.columns (" USING ".toList ++ rest)
    (by simp)
  have hvalues := fun rest => readQuoted_quote '"' config.values (") GROUP BY ".toList ++ rest)
    (by simp)
  have hlist : readList (nameList config.index ++ ")".toList) = some (config.index, ")".toList) :=
    readList_nameList hindex (by decide) (by decide)
  unfold readPivot queryText
  simp only [bind, expect_append, Option.bind_some, hcolumns, hcall, hrest, hfunction, hvalues,
    hlist, if_true]

end Query

/-! ### When the two agree -/

section Agreement

/-- The same columns, and the same rows as often. -/
def SameTable (w w' : WideTable α) : Prop :=
  (∀ n, n ∈ w.columns ↔ n ∈ w'.columns) ∧ w.rows.Perm w'.rows

/-- Both engines raise, or both yield the same table. -/
def SameResult : Option (WideTable α) → Option (WideTable α) → Prop
  | some w, some w' => SameTable w w'
  | none, none => True
  | _, _ => False

variable (P : PandasPivot α) (R : Reading α) (A : Pivots α) (D : Engine α) (t : TypedTable α)
  (config : PivotStepConfig)

/-- Pandas pivots with the aggregate `f`, and fills the new columns so. -/
structure PandasPivots (f : List (Option α) → Option α)
    (filled : List (α × (Option α → Option α))) : Prop where
  columns : ∀ column ∈ config.roles, column ∈ t.names
  distinct : config.roles.Nodup
  aggregate : pandasAggregate P R t config = some f
  newColumns : (config.index ++ newColumns P R t config f).Nodup
  fills : fills P R t config f = some filled

/-- A column has two roles, and pandas takes that. -/
structure PandasIrregular (w : WideTable α) : Prop where
  columns : ∀ column ∈ config.roles, column ∈ t.names
  repeated : ¬config.roles.Nodup
  index : config.index.Nodup
  width : t.width ≤ config.roles.length
  table : P.irregular t config = some w

/-- The query is built, and its columns and its function are found. -/
structure Binds (index : List (Fin t.width)) (columns values : Fin t.width)
    (g : List (Option α) → Option α) : Prop where
  names : [] ∉ config.roles
  function : ∃ function, simpleName config.aggfunc = some function ∧
    A.aggregate function (t.types values) = some g
  index : config.index.mapM (lookup (D.register t.toTable)) = some index
  columns : lookup (D.register t.toTable) config.columns = some columns
  values : lookup (D.register t.toTable) config.values = some values

/-- No column is taken twice, and the pivot column has a value. -/
def Regular (index : List (Fin t.width)) (columns values : Fin t.width) : Prop :=
  (index ++ [columns, values]).Nodup ∧ listed t columns ≠ []

instance (index : List (Fin t.width)) (columns values : Fin t.width) :
    Decidable (Regular t index columns values) := inferInstanceAs (Decidable (_ ∧ _))

/-- The columns that the values of the pivot column become in DuckDB. -/
def duckdbColumns (index : List (Fin t.width)) (columns : Fin t.width) : List (α × Text) :=
  (listed t columns).zip
    ((duckdbNames A (registerTyped D t) index columns).drop index.length)

/-- What has to hold of the groups for the tables to be the same. The index columns keep their
names; the key of every row is, as pandas reads it, that of a group with a value, so that no null is
in it, and all such groups are there; and each new column is one of DuckDB under its name, where
the filled value of each group is that of the function, also for the groups without rows. -/
structure SamePivot (f : List (Option α) → Option α) (filled : List (α × (Option α → Option α)))
    (index : List (Fin t.width)) (columns values : Fin t.width)
    (g : List (Option α) → Option α) : Prop where
  names : index.map (D.names t.columns) = config.index
  keys : ∀ r ∈ t.rows, ∃ x, pandasValue R t config f (index.map r) x ≠ none
  groups : ∀ r ∈ presentRows R t config, ∀ x,
    pandasValue R t config f (key t.toTable config.index r) x ≠ none →
      ∃ r' ∈ t.rows, index.map r' = key t.toTable config.index r
  matched : ∀ e ∈ filled, ∃ d ∈ duckdbColumns A D t index columns,
    d.2 = P.text (t.dtypeOf config.columns) e.1 ∧ ∀ r ∈ t.rows,
      e.2 (pandasValue R t config f (index.map r) e.1) =
        duckdbValue t index columns values g (index.map r) d.1
  others : ∀ d ∈ duckdbColumns A D t index columns, ∃ e ∈ filled,
    d.2 = P.text (t.dtypeOf config.columns) e.1

/-- When the engines agree. What DuckDB makes of a column that is taken twice or of a pivot column
without values is up to it. -/
def PivotAgrees : Prop :=
  ((∀ f filled, ¬PandasPivots P R t config f filled) ∧ (∀ w, ¬PandasIrregular P t config w) ∧
      ∀ index columns values g, Binds A D t config index columns values g →
        ¬Regular t index columns values ∧
          A.irregular (queryText config) (registerTyped D t) = none) ∨
    (∃ f filled index columns values g, PandasPivots P R t config f filled ∧
      Binds A D t config index columns values g ∧
        if Regular t index columns values then
          SamePivot P R A D t config f filled index columns values g
        else ∃ w, A.irregular (queryText config) (registerTyped D t) = some w ∧
          SameTable (unstacked P R t config f filled) w) ∨
    ∃ w index columns values g, PandasIrregular P t config w ∧
      Binds A D t config index columns values g ∧
        ∃ w', A.irregular (queryText config) (registerTyped D t) = some w' ∧ SameTable w w'

variable {P R A D t config}

omit [DecidableEq α] in
theorem sameResult_iff {a b : Option (WideTable α)} : SameResult a b ↔
    (a = none ∧ b = none) ∨ ∃ w w', a = some w ∧ b = some w' ∧ SameTable w w' := by
  cases a <;> cases b <;> simp [SameResult]

/-! What each engine yields. -/

theorem pivotTable_eq_some {w : WideTable α} :
    (pivotTable P R t config).toOption = some w ↔ ∃ f filled,
      pandasAggregate P R t config = some f ∧
        (config.index ++ newColumns P R t config f).Nodup ∧
          fills P R t config f = some filled ∧ unstacked P R t config f filled = w := by
  rw [pivotTable]
  cases pandasAggregate P R t config with
  | none => simp [Except.toOption]
  | some f =>
    dsimp only
    by_cases hnodup : (config.index ++ newColumns P R t config f).Nodup
    · rw [if_pos hnodup]
      cases hfills : fills P R t config f with
      | none => simp [Except.toOption, hfills]
      | some filled => simp [Except.toOption, hfills, hnodup]
    · rw [if_neg hnodup]
      simp [Except.toOption, hnodup]

theorem executePivot_toOption : (executePivot P R t config).toOption =
    if ∀ column ∈ config.roles, column ∈ t.names then
      if config.roles.Nodup then (pivotTable P R t config).toOption
      else if config.roles.length < t.width ∨ ¬config.index.Nodup then none
      else P.irregular t config
    else none := by
  rw [executePivot]
  cases hforM : config.roles.forM (validateColumnExists t.toTable) with
  | error e =>
    have hcolumns : ¬∀ column ∈ config.roles, column ∈ t.names := by
      rw [← forM_validate, hforM]
      rintro ⟨⟩
    rw [if_neg hcolumns]
    rfl
  | ok u =>
    rw [if_pos (forM_validate.mp hforM)]
    change (if config.roles.Nodup then _ else _ : Except FrameError (WideTable α)).toOption = _
    rw [apply_ite Except.toOption, apply_ite Except.toOption]
    cases P.irregular t config <;> rfl

theorem executePivot_eq_some {w : WideTable α} :
    (executePivot P R t config).toOption = some w ↔
      (∃ f filled, PandasPivots P R t config f filled ∧ unstacked P R t config f filled = w) ∨
        PandasIrregular P t config w := by
  rw [executePivot_toOption]
  by_cases hcolumns : ∀ column ∈ config.roles, column ∈ t.names
  · rw [if_pos hcolumns]
    by_cases hdistinct : config.roles.Nodup
    · rw [if_pos hdistinct, pivotTable_eq_some]
      constructor
      · rintro ⟨f, filled, haggregate, hnodup, hfills, hw⟩
        exact .inl ⟨f, filled, ⟨hcolumns, hdistinct, haggregate, hnodup, hfills⟩, hw⟩
      · rintro (⟨f, filled, h, hw⟩ | h)
        · exact ⟨f, filled, h.aggregate, h.newColumns, h.fills, hw⟩
        · exact absurd hdistinct h.repeated
    · rw [if_neg hdistinct]
      by_cases hraises : config.roles.length < t.width ∨ ¬config.index.Nodup
      · rw [if_pos hraises]
        refine iff_of_false (by rintro ⟨⟩) ?_
        rintro (⟨f, filled, h, -⟩ | h)
        · exact hdistinct h.distinct
        · rcases hraises with hwidth | hindex
          · exact absurd h.width (Nat.not_le.mpr hwidth)
          · exact hindex h.index
      · rw [if_neg hraises]
        rw [not_or, Nat.not_lt, not_not] at hraises
        constructor
        · intro hw
          exact .inr ⟨hcolumns, hdistinct, hraises.2, hraises.1, hw⟩
        · rintro (⟨f, filled, h, -⟩ | h)
          · exact absurd h.distinct hdistinct
          · exact h.table
  · rw [if_neg hcolumns]
    refine iff_of_false (by rintro ⟨⟩) ?_
    rintro (⟨f, filled, h, -⟩ | h)
    · exact hcolumns h.columns
    · exact hcolumns h.columns

theorem duckdbPivot_eq_some (hindex : config.index ≠ []) {w : WideTable α} :
    duckdbPivot A D t config = some w ↔ ∃ index columns values g,
      Binds A D t config index columns values g ∧
        (if Regular t index columns values then
            some (pivoted A (registerTyped D t) index columns values g)
          else A.irregular (queryText config) (registerTyped D t)) = some w := by
  rw [duckdbPivot, buildPivotSql_eq hindex]
  by_cases hnames : [] ∈ config.roles
  · rw [if_pos hnames]
    refine iff_of_false (by rintro ⟨⟩) ?_
    rintro ⟨index, columns, values, g, h, -⟩
    exact h.names hnames
  rw [if_neg hnames]
  cases hfunction : simpleName config.aggfunc with
  | none =>
    refine iff_of_false (by rintro ⟨⟩) ?_
    rintro ⟨index, columns, values, g, h, -⟩
    obtain ⟨function, hname, -⟩ := h.function
    cases hfunction.symm.trans hname
  | some function =>
    rw [Option.map_some, Option.bind_some, readPivot_queryText hindex hfunction, Option.bind_some]
    simp only [runQuery, Option.bind_eq_some_iff]
    constructor
    · rintro ⟨index, hi, columns, hc, values, hv, g, hg, hw⟩
      exact ⟨index, columns, values, g, ⟨hnames, ⟨function, hfunction, hg⟩, hi, hc, hv⟩, hw⟩
    · rintro ⟨index, columns, values, g, h, hw⟩
      obtain ⟨function', hname, hg⟩ := h.function
      cases hfunction.symm.trans hname
      exact ⟨index, h.index, columns, h.columns, values, h.values, g, hg, hw⟩

/-! The tables, as lists of new columns. -/

section Tables

variable {f : List (Option α) → Option α} {filled : List (α × (Option α → Option α))}
  {index : List (Fin t.width)} {columns values : Fin t.width} {g : List (Option α) → Option α}

/-- The name of a new column of pandas. -/
def nameOf (P : PandasPivot α) (t : TypedTable α) (config : PivotStepConfig)
    (e : α × (Option α → Option α)) : Text := P.text (t.dtypeOf config.columns) e.1

theorem newColumns_eq (h : fills P R t config f = some filled) :
    newColumns P R t config f = filled.map (nameOf P t config) := by
  rw [newColumns]
  refine map_eq_of_forall₂ (mapM_some_iff.mp h) fun x e he => ?_
  obtain ⟨g, -, rfl⟩ := Option.map_eq_some_iff.mp he
  rfl

theorem duckdbNames_split (hregular : Regular t index columns values) : ∃ renamed,
    duckdbNames A (registerTyped D t) index columns = index.map (D.names t.columns) ++ renamed ∧
      renamed.length = (listed t columns).length ∧
        duckdbColumns A D t index columns = (listed t columns).zip renamed := by
  have hfront : ((index.map (D.names t.columns)).map fold).Nodup := by
    rw [List.map_map]
    exact (List.nodup_append.mp hregular.1).1.map (D.names_injective t.columns)
  obtain ⟨renamed, hnames, hlength⟩ := A.names_append _
    ((listed t columns).map (A.cast (t.types columns))) hfront
  have hduck : duckdbNames A (registerTyped D t) index columns =
      index.map (D.names t.columns) ++ renamed := hnames
  rw [List.length_map] at hlength
  refine ⟨renamed, hduck, hlength, ?_⟩
  rw [duckdbColumns, hduck, List.drop_left' (List.length_map _)]

theorem duckdbNames_eq (hregular : Regular t index columns values) :
    duckdbNames A (registerTyped D t) index columns =
      index.map (D.names t.columns) ++ (duckdbColumns A D t index columns).map Prod.snd := by
  obtain ⟨renamed, hnames, hlength, hcolumns⟩ := duckdbNames_split hregular
  rw [hnames, hcolumns, List.map_snd_zip (Nat.le_of_eq hlength)]

theorem duckdbCells_eq (hregular : Regular t index columns values) (k : List (Option α)) :
    duckdbCells t index columns values g k =
      (duckdbColumns A D t index columns).map fun d =>
        duckdbValue t index columns values g k d.1 := by
  obtain ⟨renamed, -, hlength, hcolumns⟩ := duckdbNames_split hregular
  have hfst : (duckdbColumns A D t index columns).map Prod.fst = listed t columns := by
    rw [hcolumns, List.map_fst_zip (Nat.le_of_eq hlength.symm)]
  rw [duckdbCells, ← hfst, List.map_map]
  rfl

/-- A group with a value has a row. -/
theorem exists_of_pandasValue {k : List (Option α)} {x : α}
    (h : pandasValue R t config f k x ≠ none) :
    ∃ r ∈ presentRows R t config, key t.toTable config.index r = k ∧
      t.cell r config.columns = some x := by
  have hcells : pandasCells R t config k x ≠ [] := by
    intro hnil
    rw [pandasValue, if_pos hnil] at h
    exact h rfl
  obtain ⟨cell, hcell⟩ := List.exists_mem_of_ne_nil _ hcells
  obtain ⟨r, hr, -⟩ := List.mem_map.mp hcell
  rw [List.mem_filter, decide_eq_true_iff] at hr
  exact ⟨r, hr⟩

theorem mem_rowKeys {k : List (Option α)} :
    k ∈ rowKeys R t config f ↔ ∃ x, pandasValue R t config f k x ≠ none := by
  rw [rowKeys, List.mem_dedup, List.mem_map]
  constructor
  · rintro ⟨⟨k, x⟩, hg, rfl⟩
    exact ⟨x, Option.isSome_iff_ne_none.mp (List.mem_filter.mp hg).2⟩
  · rintro ⟨x, hx⟩
    refine ⟨(k, x), List.mem_filter.mpr ⟨?_, Option.isSome_iff_ne_none.mpr hx⟩, rfl⟩
    obtain ⟨r, hr, hkey, hcell⟩ := exists_of_pandasValue hx
    rw [pandasGroups, List.mem_dedup, List.mem_filterMap]
    exact ⟨r, hr, by rw [hcell, hkey]; rfl⟩

theorem mem_duckdbKeys {k : List (Option α)} :
    k ∈ duckdbKeys t index ↔ ∃ r ∈ t.rows, index.map r = k := Groups.mem_keys

/-- The keys are the same. -/
theorem keys_perm_iff : (rowKeys R t config f).Perm (duckdbKeys t index) ↔
    (∀ r ∈ t.rows, ∃ x, pandasValue R t config f (index.map r) x ≠ none) ∧
      ∀ r ∈ presentRows R t config, ∀ x,
        pandasValue R t config f (key t.toTable config.index r) x ≠ none →
          ∃ r' ∈ t.rows, index.map r' = key t.toTable config.index r := by
  have hrowKeys : (rowKeys R t config f).Nodup := List.nodup_dedup _
  have hduckdbKeys : (duckdbKeys t index).Nodup := List.nodup_dedup _
  rw [List.perm_ext_iff_of_nodup hrowKeys hduckdbKeys]
  constructor
  · intro h
    constructor
    · intro r hr
      rw [← mem_rowKeys, h]
      exact mem_duckdbKeys.mpr ⟨r, hr, rfl⟩
    · intro r _ x hx
      rw [← mem_duckdbKeys, ← h]
      exact mem_rowKeys.mpr ⟨x, hx⟩
  · rintro ⟨hrows, hgroups⟩ k
    constructor
    · intro hk
      obtain ⟨x, hx⟩ := mem_rowKeys.mp hk
      obtain ⟨r, hr, rfl, -⟩ := exists_of_pandasValue hx
      exact mem_duckdbKeys.mpr (hgroups r hr x hx)
    · intro hk
      obtain ⟨r, hr, rfl⟩ := mem_duckdbKeys.mp hk
      exact mem_rowKeys.mpr (hrows r hr)

/-- The index columns keep their names when these are names of columns in DuckDB. -/
theorem index_names (h : Binds A D t config index columns values g)
    (hregular : Regular t index columns values)
    (hnames : ∀ column ∈ config.index,
      column ∈ duckdbNames A (registerTyped D t) index columns) :
    index.map (D.names t.columns) = config.index := by
  have hdistinct : ((duckdbNames A (registerTyped D t) index columns).map fold).Nodup :=
    A.names_distinct _
  have hlookups := mapM_some_iff.mp h.index
  have hname : ∀ column ∈ config.index, ∀ i, lookup (D.register t.toTable) column = some i →
      column = D.names t.columns i := by
    intro column hc i hi
    have hmem : D.names t.columns i ∈ duckdbNames A (registerTyped D t) index columns := by
      obtain ⟨i', hi', hlookup⟩ := forall₂_mem_left hlookups hc
      cases hi.symm.trans hlookup
      rw [duckdbNames_eq hregular]
      exact List.mem_append_left _ (List.mem_map_of_mem hi')
    exact List.inj_on_of_nodup_map hdistinct (hnames column hc) hmem
      ((lookup_eq_some caseDistinct_register).mp hi).symm
  have heq := map_eq_of_forall₂ (forall₂_imp_of_mem hlookups hname) (f := id)
    (g := D.names t.columns) fun _ _ h => h
  rw [List.map_id] at heq
  exact heq.symm

theorem length_rowKeys {k : List (Option α)} (hk : k ∈ rowKeys R t config f) :
    k.length = config.index.length := by
  obtain ⟨x, hx⟩ := mem_rowKeys.mp hk
  obtain ⟨r, -, rfl, -⟩ := exists_of_pandasValue hx
  exact List.length_map _

theorem length_duckdbKeys (h : Binds A D t config index columns values g) {k : List (Option α)}
    (hk : k ∈ duckdbKeys t index) : k.length = config.index.length := by
  obtain ⟨r, -, rfl⟩ := mem_duckdbKeys.mp hk
  rw [List.length_map]
  exact (mapM_some_iff.mp h.index).length_eq.symm

theorem mem_append_iff {front back back' : List Text} (h : (front ++ back).Nodup)
    (h' : (front ++ back').Nodup) :
    (∀ n, n ∈ front ++ back ↔ n ∈ front ++ back') ↔ ∀ n, n ∈ back ↔ n ∈ back' := by
  have hback := List.disjoint_of_nodup_append h
  have hback' := List.disjoint_of_nodup_append h'
  constructor
  · intro hsame n
    by_cases hn : n ∈ front
    · exact iff_of_false (hback hn) (hback' hn)
    · have hn' := hsame n
      rwa [List.mem_append, List.mem_append, or_iff_right hn, or_iff_right hn] at hn'
  · intro hsame n
    rw [List.mem_append, List.mem_append, hsame]

theorem columns_iff (hp : PandasPivots P R t config f filled)
    (hregular : Regular t index columns values)
    (hnames : index.map (D.names t.columns) = config.index) :
    (∀ n, n ∈ (unstacked P R t config f filled).columns ↔
        n ∈ (pivoted A (registerTyped D t) index columns values g).columns) ↔
      ∀ n, n ∈ filled.map (nameOf P t config) ↔
        n ∈ (duckdbColumns A D t index columns).map Prod.snd := by
  have hnew := hp.newColumns
  have hdistinct : (duckdbNames A (registerTyped D t) index columns).Nodup :=
    List.Nodup.of_map _ (A.names_distinct _)
  rw [newColumns_eq hp.fills] at hnew
  rw [duckdbNames_eq hregular, hnames] at hdistinct
  have hcolumns : (pivoted A (registerTyped D t) index columns values g).columns =
      config.index ++ (duckdbColumns A D t index columns).map Prod.snd := by
    rw [← hnames, ← duckdbNames_eq hregular]
    rfl
  rw [← mem_append_iff hnew hdistinct, hcolumns, unstacked, newColumns_eq hp.fills]

theorem rows_iff (hp : PandasPivots P R t config f filled)
    (hb : Binds A D t config index columns values g) (hregular : Regular t index columns values)
    (hnames : index.map (D.names t.columns) = config.index)
    (hsame : ∀ n, n ∈ filled.map (nameOf P t config) ↔
      n ∈ (duckdbColumns A D t index columns).map Prod.snd) :
    (unstacked P R t config f filled).rows.Perm
        (pivoted A (registerTyped D t) index columns values g).rows ↔
      (rowKeys R t config f).Perm (duckdbKeys t index) ∧
        ∀ k ∈ rowKeys R t config f, ∀ e ∈ filled, ∀ d ∈ duckdbColumns A D t index columns,
          d.2 = nameOf P t config e →
            e.2 (pandasValue R t config f k e.1) = duckdbValue t index columns values g k d.1 := by
  have hnew := hp.newColumns
  have hdistinct : (duckdbNames A (registerTyped D t) index columns).Nodup :=
    List.Nodup.of_map _ (A.names_distinct _)
  rw [newColumns_eq hp.fills] at hnew
  rw [duckdbNames_eq hregular, hnames] at hdistinct
  have hindex := (List.nodup_append.mp hnew).1
  have hrows : (pivoted A (registerTyped D t) index columns values g).rows =
      (duckdbKeys t index).map fun k =>
        rowOf (config.index ++ (duckdbColumns A D t index columns).map Prod.snd)
          (k ++ (duckdbColumns A D t index columns).map fun d =>
            duckdbValue t index columns values g k d.1) := by
    rw [← hnames, ← duckdbNames_eq hregular]
    apply List.map_congr_left
    intro k _
    rw [← duckdbCells_eq hregular]
    rfl
  rw [hrows, unstacked, newColumns_eq hp.fills]
  rw [rows_perm_iff hindex (fun _ => length_rowKeys) fun _ => length_duckdbKeys hb]
  apply and_congr_right'
  apply forall₂_congr
  intro k hk
  rw [← rowOf_map_eq_iff (List.nodup_append.mp hnew).2.1 (List.nodup_append.mp hdistinct).2.1 hsame]
  constructor
  · intro h n
    by_cases hn : n ∈ config.index
    · rw [rowOf_of_notMem (List.disjoint_of_nodup_append hnew hn),
        rowOf_of_notMem (List.disjoint_of_nodup_append hdistinct hn)]
    · exact h n hn
  · exact fun h n _ => h n

/-- The main comparison: the tables are the same when the groups are so. -/
theorem sameTable_iff (hp : PandasPivots P R t config f filled)
    (hb : Binds A D t config index columns values g) (hregular : Regular t index columns values) :
    SameTable (unstacked P R t config f filled)
        (pivoted A (registerTyped D t) index columns values g) ↔
      SamePivot P R A D t config f filled index columns values g := by
  constructor
  · rintro ⟨hcolumns, hrows⟩
    have hnames := index_names hb hregular fun column hc =>
      (hcolumns column).mp (List.mem_append_left _ hc)
    have hsame := (columns_iff hp hregular hnames).mp hcolumns
    obtain ⟨hkeys, hcells⟩ := (rows_iff hp hb hregular hnames hsame).mp hrows
    obtain ⟨hpresent, hgroups⟩ := keys_perm_iff.mp hkeys
    refine ⟨hnames, hpresent, hgroups, ?_, ?_⟩
    · intro e he
      obtain ⟨d, hd, hname⟩ := List.mem_map.mp ((hsame _).mp (List.mem_map_of_mem he))
      refine ⟨d, hd, hname, fun r hr => hcells _ ?_ e he d hd hname⟩
      exact mem_rowKeys.mpr (hpresent r hr)
    · intro d hd
      obtain ⟨e, he, hname⟩ := List.mem_map.mp ((hsame _).mpr (List.mem_map_of_mem hd))
      exact ⟨e, he, hname.symm⟩
  · rintro ⟨hnames, hpresent, hgroups, hmatched, hothers⟩
    have hsame : ∀ n, n ∈ filled.map (nameOf P t config) ↔
        n ∈ (duckdbColumns A D t index columns).map Prod.snd := by
      intro n
      constructor
      · intro hn
        obtain ⟨e, he, rfl⟩ := List.mem_map.mp hn
        obtain ⟨d, hd, hname, -⟩ := hmatched e he
        exact List.mem_map.mpr ⟨d, hd, hname⟩
      · intro hn
        obtain ⟨d, hd, rfl⟩ := List.mem_map.mp hn
        obtain ⟨e, he, hname⟩ := hothers d hd
        exact List.mem_map.mpr ⟨e, he, hname.symm⟩
    refine ⟨(columns_iff hp hregular hnames).mpr hsame, ?_⟩
    apply (rows_iff hp hb hregular hnames hsame).mpr
    refine ⟨keys_perm_iff.mpr ⟨hpresent, hgroups⟩, ?_⟩
    intro k hk e he d hd hname
    obtain ⟨x, hx⟩ := mem_rowKeys.mp hk
    obtain ⟨r₀, hr₀, rfl, -⟩ := exists_of_pandasValue hx
    obtain ⟨r, hr, hkey⟩ := hgroups r₀ hr₀ x hx
    obtain ⟨d', hd', hname', hvalue⟩ := hmatched e he
    have hdistinct : ((duckdbColumns A D t index columns).map Prod.snd).Nodup := by
      have hall : (duckdbNames A (registerTyped D t) index columns).Nodup :=
        List.Nodup.of_map _ (A.names_distinct _)
      rw [duckdbNames_eq hregular] at hall
      exact (List.nodup_append.mp hall).2.1
    cases List.inj_on_of_nodup_map hdistinct hd hd' (hname.trans hname'.symm)
    rw [← hkey]
    exact hvalue r hr

end Tables

/-- A column in two roles is taken twice. -/
theorem roles_nodup {index : List (Fin t.width)} {columns values : Fin t.width}
    {g : List (Option α) → Option α} (h : Binds A D t config index columns values g)
    (hregular : Regular t index columns values) : config.roles.Nodup := by
  have hlookups : config.roles.map (lookup (D.register t.toTable)) =
      (index ++ [columns, values]).map some := by
    rw [PivotStepConfig.roles, List.map_append, List.map_append, map_eq_of_mapM h.index]
    simp only [List.map_cons, List.map_nil, h.columns, h.values]
    rfl
  apply List.Nodup.of_map (lookup (D.register t.toTable))
  rw [hlookups]
  exact hregular.1.map (Option.some_injective _)

theorem executePivot_eq_none : (executePivot P R t config).toOption = none ↔
    (∀ f filled, ¬PandasPivots P R t config f filled) ∧ ∀ w, ¬PandasIrregular P t config w := by
  rw [Option.eq_none_iff_forall_ne_some]
  constructor
  · intro h
    constructor
    · intro f filled hp
      exact h _ (executePivot_eq_some.mpr (.inl ⟨f, filled, hp, rfl⟩))
    · intro w hp
      exact h w (executePivot_eq_some.mpr (.inr hp))
  · rintro ⟨hpivots, hirregular⟩ w hw
    cases executePivot_eq_some.mp hw with
    | inl h =>
      obtain ⟨f, filled, hp, -⟩ := h
      exact hpivots f filled hp
    | inr h => exact hirregular w h

theorem duckdbPivot_eq_none (hindex : config.index ≠ []) : duckdbPivot A D t config = none ↔
    ∀ index columns values g, Binds A D t config index columns values g →
      ¬Regular t index columns values ∧
        A.irregular (queryText config) (registerTyped D t) = none := by
  rw [Option.eq_none_iff_forall_ne_some]
  constructor
  · intro h index columns values g hb
    by_cases hregular : Regular t index columns values
    · refine absurd ?_ (h (pivoted A (registerTyped D t) index columns values g))
      exact (duckdbPivot_eq_some hindex).mpr ⟨index, columns, values, g, hb, if_pos hregular⟩
    · refine ⟨hregular, Option.eq_none_iff_forall_ne_some.mpr fun w hw => h w ?_⟩
      refine (duckdbPivot_eq_some hindex).mpr ⟨index, columns, values, g, hb, ?_⟩
      rw [if_neg hregular, hw]
  · intro h w hw
    obtain ⟨index, columns, values, g, hb, hw⟩ := (duckdbPivot_eq_some hindex).mp hw
    obtain ⟨hregular, hirregular⟩ := h index columns values g hb
    rw [if_neg hregular, hirregular] at hw
    cases hw

omit [DecidableEq α] in
/-- Tables that are the same have the same cells under each name. -/
theorem SameResult.cells {a b : Option (WideTable α)} (h : SameResult a b) (n : Text) :
    (a.elim [] fun w => w.rows.map fun row => row n).Perm
      (b.elim [] fun w => w.rows.map fun row => row n) := by
  obtain ⟨rfl, rfl⟩ | ⟨w, w', rfl, rfl, hsame⟩ := sameResult_iff.mp h
  · rfl
  · exact hsame.2.map fun row => row n

/-- No row has a null in an index column where the tables are the same. -/
theorem SamePivot.present {f : List (Option α) → Option α}
    {filled : List (α × (Option α → Option α))} {index : List (Fin t.width)}
    {columns values : Fin t.width} {g : List (Option α) → Option α}
    (h : SamePivot P R A D t config f filled index columns values g) {r : t.Row} (hr : r ∈ t.rows)
    {i : Fin t.width} (hi : i ∈ index) : r i ≠ none := by
  obtain ⟨x, hx⟩ := h.keys r hr
  obtain ⟨r', hr', hkey, -⟩ := exists_of_pandasValue hx
  have hmem : r i ∈ key t.toTable config.index r' := by
    rw [hkey]
    exact List.mem_map_of_mem hi
  obtain ⟨column, hc, hcell⟩ := List.mem_map.mp hmem
  have hall := List.all_eq_true.mp (List.mem_filter.mp hr').2 column (List.mem_append_left _ hc)
  rw [← hcell]
  exact Option.isSome_iff_ne_none.mp hall

/-- A combination of a key and a column that has no rows is filled with what the function of
DuckDB makes of no rows. -/
theorem SamePivot.missing {f : List (Option α) → Option α}
    {filled : List (α × (Option α → Option α))} {index : List (Fin t.width)}
    {columns values : Fin t.width} {g : List (Option α) → Option α}
    (h : SamePivot P R A D t config f filled index columns values g) {r : t.Row} (hr : r ∈ t.rows)
    {e : α × (Option α → Option α)} (he : e ∈ filled)
    (hcells : pandasCells R t config (index.map r) e.1 = []) :
    ∃ d ∈ duckdbColumns A D t index columns, d.2 = nameOf P t config e ∧
      e.2 none = duckdbValue t index columns values g (index.map r) d.1 := by
  obtain ⟨d, hd, hname, hvalue⟩ := h.matched e he
  refine ⟨d, hd, hname, ?_⟩
  rw [← hvalue r hr, pandasValue, if_pos hcells]

end Agreement

/-! ### Sums of whole numbers -/

section Sums

def sumPandas : PandasPivot Int where
  text _ n := (toString n).toList
  aggregate function _ _ :=
    if function = "sum".toList then some fun cells => some (cells.filterMap id).sum else none
  fill value _ _ := match value with
    | some (.int n) => some fun cell => some (cell.getD n)
    | _ => none
  irregular _ _ := none

/-- The names of a result, where one that is taken gives way to underscores. -/
def unlike : List Text → List Text → List Text
  | _, [] => []
  | seen, name :: names =>
    let kept := if fold name ∈ seen then List.replicate (seen.flatten.length + 1) '_' else name
    kept :: unlike (fold kept :: seen) names

theorem fold_kept_notMem (seen : List Text) (name : Text) :
    fold (if fold name ∈ seen then List.replicate (seen.flatten.length + 1) '_' else name) ∉
      seen := by
  by_cases hname : fold name ∈ seen
  · rw [if_pos hname]
    intro hmem
    have hlength := (List.sublist_flatten_of_mem hmem).length_le
    rw [fold, List.length_map, List.length_replicate] at hlength
    omega
  · rwa [if_neg hname]

theorem unlike_distinct (seen names : List Text) :
    ((unlike seen names).map fold).Nodup ∧ ∀ n ∈ (unlike seen names).map fold, n ∉ seen := by
  induction names generalizing seen with
  | nil => exact ⟨List.nodup_nil, by simp [unlike]⟩
  | cons name names ih =>
    rw [unlike]
    have hkept := fold_kept_notMem seen name
    generalize (if fold name ∈ seen then _ else name : Text) = kept at hkept ⊢
    obtain ⟨hnodup, hfresh⟩ := ih (fold kept :: seen)
    rw [List.map_cons, List.nodup_cons, List.forall_mem_cons]
    refine ⟨⟨fun hmem => hfresh _ hmem List.mem_cons_self, hnodup⟩, hkept, fun n hn hseen => ?_⟩
    exact hfresh n hn (List.mem_cons_of_mem _ hseen)

theorem length_unlike (seen names : List Text) : (unlike seen names).length = names.length := by
  induction names generalizing seen with
  | nil => rfl
  | cons name names ih => rw [unlike, List.length_cons, ih, List.length_cons]

theorem unlike_append {seen front : List Text} (back : List Text) (hnodup : (front.map fold).Nodup)
    (hseen : ∀ name ∈ front, fold name ∉ seen) :
    ∃ renamed, unlike seen (front ++ back) = front ++ renamed ∧ renamed.length = back.length := by
  induction front generalizing seen with
  | nil => exact ⟨unlike seen back, rfl, length_unlike seen back⟩
  | cons name front ih =>
    rw [List.map_cons, List.nodup_cons] at hnodup
    rw [List.forall_mem_cons] at hseen
    obtain ⟨renamed, hrest, hlength⟩ := @ih (fold name :: seen) hnodup.2 fun n hn hmem => by
      cases List.mem_cons.mp hmem with
      | inl heq => exact hnodup.1 (heq ▸ List.mem_map_of_mem hn)
      | inr hmem => exact hseen.2 n hn hmem
    refine ⟨renamed, ?_, hlength⟩
    rw [List.cons_append, unlike, if_neg hseen.1, List.cons_append, hrest]

def sumPivots : Pivots Int where
  cast _ n := (toString n).toList
  names := unlike []
  names_append _ back h := unlike_append back h fun _ _ => List.not_mem_nil
  names_distinct columns := (unlike_distinct [] columns).1
  aggregate function _ := if function = "sum".toList then some fun cells =>
      if cells.filterMap id = [] then none else some (cells.filterMap id).sum
    else none
  irregular _ _ := none

/-- Two rows that share neither a key nor a value of the pivot column. -/
def diagonal : TypedTable Int where
  width := 3
  columns := ![("i".toList), "c".toList, "v".toList]
  distinct := List.nodup_ofFn.mp (by decide)
  rows := [![some 1, some 10, some 5], ![some 2, some 20, some 7]]
  types _ := .int

def pivotDiagonal : PivotStepConfig where
  index := ["i".toList]
  columns := "c".toList
  values := "v".toList

theorem pivotDiagonal_validated : pivotDiagonal.Validated :=
  ⟨by decide, by decide, by decide⟩

/-- A combination without rows is zero in pandas and null in DuckDB. -/
theorem diagonal_differs : ¬SameResult (executePivot sumPandas readAsIs diagonal pivotDiagonal).toOption
    (duckdbPivot sumPivots numbering diagonal pivotDiagonal) := by
  intro h
  exact absurd (h.cells "20".toList) (by decide +kernel)

end Sums

end PipelineIQ.Execution.PivotRouting
