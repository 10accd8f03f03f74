import Mathlib.Data.Fin.VecNotation
import PipelineIQ.Execution.QuerySql
import PipelineIQ.Lib.Traverse

namespace PipelineIQ.Execution.UnpivotRouting

open PipelineIQ.Lib PipelineIQ.Lib.Strings PipelineIQ.Lib.Sql PipelineIQ.Lib.SqlReader
open PipelineIQ.Lib.Duplicates PipelineIQ.Lib.Traverse PipelineIQ.Pipeline.Frames
open PipelineIQ.Pipeline.Filter (ColumnType)
open PipelineIQ.Pipeline.Steps (Table TypedTable Result)
open PipelineIQ.Execution.StepSql (buildUnpivotSql)
open PipelineIQ.Execution.FilterSql PipelineIQ.Execution.QuerySql

/-! ### The query -/

structure UnpivotQuery where
  source : List Text
  columns : List Text
  varName : Text
  valueName : Text

def readUnpivot (sql : Text) : Option UnpivotQuery := do
  let rest ← expect "SELECT * FROM (UNPIVOT (SELECT ".toList sql
  let (source, rest) ← readList rest
  let rest ← expect " FROM __input__) ON ".toList rest
  let (columns, rest) ← readList rest
  let rest ← expect " INTO NAME ".toList rest
  let (varName, rest) ← readQuoted '"' rest
  let rest ← expect " VALUE ".toList rest
  let (valueName, rest) ← readQuoted '"' rest
  if rest = ")".toList then some ⟨source, columns, varName, valueName⟩ else none

def sqlConfig (config : UnpivotStepConfig) : StepSql.UnpivotStepConfig where
  idVars := config.idVars
  valueVars := config.valueVars
  varName := config.varName
  valueName := config.valueName

section Engine

variable {α : Type} (K : Concat α)

/-- What `UNPIVOT` uses of DuckDB: the cast of columns to a common type, of whose values pandas
makes what it makes of the values themselves, and what becomes of a query that takes a column twice
or whose result has two columns of one name; those get different names. -/
structure Unpivots where
  cast : List ColumnType → Option (α → α)
  value_cast : ∀ columns f g, K.value columns = some f → cast (columns.map Prod.fst) = some g →
    ∀ v, f (g v) = f v
  irregular : Text → TypedTable α → Option (Result α)
  irregular_columns : ∀ sql t result, irregular sql t = some result →
    (result.columns.map fold).Nodup

variable {K} (U : Unpivots K) (D : Engine α) (text : Text → α)

/-- The columns that the query does not name after `ON`. -/
def UnpivotQuery.ids (query : UnpivotQuery) : List Text :=
  query.source.filter fun column => fold column ∉ query.columns.map fold

def UnpivotQuery.names (query : UnpivotQuery) : List Text :=
  query.ids ++ [query.varName, query.valueName]

def UnpivotQuery.Regular (query : UnpivotQuery) : Prop :=
  (query.source.map fold).Nodup ∧ (query.columns.map fold).Nodup ∧ (query.names.map fold).Nodup

instance (query : UnpivotQuery) : Decidable query.Regular :=
  inferInstanceAs (Decidable (_ ∧ _))

/-- The query on a registered table; a null has no row. -/
def runQuery (t : TypedTable α) (sql : Text) (query : UnpivotQuery) : Option (Result α) :=
  (query.source.mapM (lookup t.toTable)).bind fun _ =>
    (query.ids.mapM (lookup t.toTable)).bind fun ids =>
      (query.columns.mapM (lookup t.toTable)).bind fun columns =>
        if query.Regular then
          (U.cast (columns.map t.types)).map fun g =>
            ⟨ids.map t.columns ++ [query.varName, query.valueName],
              Reshape.unpivot (fun r i => (r i).map fun v =>
                ids.map r ++ [some (text (t.columns i)), some (g v)]) t.rows columns⟩
        else U.irregular sql t

/-- The unpivot step in DuckDB. -/
def duckdbUnpivot (t : TypedTable α) (config : UnpivotStepConfig) : Option (Result α) :=
  (buildUnpivotSql (sqlConfig config)).bind fun sql =>
    (readUnpivot sql).bind (runQuery U text (registerTyped D t) sql)

end Engine

/-! ### What the query says -/

section Query

variable {config : UnpivotStepConfig}

/-- The names that the builder quotes. -/
def namesOf (config : UnpivotStepConfig) : List Text :=
  config.idVars ++ config.valueVars ++ [config.varName, config.valueName]

def queryText (config : UnpivotStepConfig) : Text :=
  "SELECT * FROM (UNPIVOT (SELECT ".toList ++ (nameList (config.idVars ++ config.valueVars) ++
    (" FROM __input__) ON ".toList ++ (nameList config.valueVars ++ (" INTO NAME ".toList ++
      (quote '"' config.varName ++ (" VALUE ".toList ++ (quote '"' config.valueName ++
        ")".toList)))))))

theorem empty_mem_namesOf : [] ∈ namesOf config ↔
    [] ∈ config.idVars ++ config.valueVars ∨ config.varName = [] ∨ config.valueName = [] := by
  rw [namesOf, List.mem_append, List.mem_pair, @eq_comm _ [] config.varName,
    @eq_comm _ [] config.valueName]

theorem buildUnpivotSql_eq (config : UnpivotStepConfig) :
    buildUnpivotSql (sqlConfig config) =
      if config.valueVars = [] ∨ [] ∈ namesOf config then none else some (queryText config) := by
  unfold buildUnpivotSql
  simp only [sqlConfig, quoteIdentifiers_eq]
  by_cases hvalues : config.valueVars = []
  · rw [if_pos hvalues, if_pos (Or.inl hvalues)]
  rw [if_neg hvalues]
  by_cases hnames : [] ∈ namesOf config
  · rw [if_pos (Or.inr hnames)]
    rcases empty_mem_namesOf.mp hnames with h | h | h
    · rw [if_pos h, Option.bind_none]
    · simp [h, quoteIdentifier]
    · simp [h, quoteIdentifier]
  · rw [if_neg (not_or.mpr ⟨hvalues, hnames⟩)]
    rw [empty_mem_namesOf, not_or, not_or] at hnames
    obtain ⟨hsource, hvar, hvalue⟩ := hnames
    rw [if_neg hsource, if_neg fun h => hsource (List.mem_append_right _ h)]
    rw [Option.bind_some, Option.bind_some, quoteIdentifier_of_ne hvar, Option.bind_some,
      quoteIdentifier_of_ne hvalue, Option.map_some, commaJoin_quote, commaJoin_quote]
    have hassoc : ∀ a b c d e f g h i : Text, a ++ b ++ c ++ d ++ e ++ f ++ g ++ h ++ i =
        a ++ (b ++ (c ++ (d ++ (e ++ (f ++ (g ++ (h ++ i))))))) := by
      intros
      simp only [List.append_assoc]
    exact congrArg some (hassoc ..)

theorem readUnpivot_queryText (h : config.valueVars ≠ []) :
    readUnpivot (queryText config) = some
      ⟨config.idVars ++ config.valueVars, config.valueVars, config.varName, config.valueName⟩ := by
  have hsource : config.idVars ++ config.valueVars ≠ [] := by simp [h]
  have hlist : ∀ {columns : List Text} (s : String) (rest : Text), columns ≠ [] →
      s.toList.head? = some ' ' →
        readList (nameList columns ++ (s.toList ++ rest)) = some (columns, s.toList ++ rest) := by
    intro columns s rest hne hs
    have hhead : (s.toList ++ rest).head? = some ' ' := by rw [List.head?_append, hs, Option.some_or]
    exact readList_nameList hne (by rw [hhead]; decide) (by rw [hhead]; decide)
  have hvar := readQuoted_quote '"' config.varName (" VALUE ".toList ++
    (quote '"' config.valueName ++ ")".toList)) (by simp)
  have hvalue := readQuoted_quote '"' config.valueName ")".toList (by decide)
  unfold readUnpivot queryText
  simp only [bind, expect_append, Option.bind_some,
    hlist " FROM __input__) ON " _ hsource (head_toList rfl),
    hlist " INTO NAME " _ h (head_toList rfl), hvar, hvalue, if_true]

end Query

/-! ### When the two agree -/

section Agreement

variable {α : Type} (R : Reading α) {K : Concat α} (U : Unpivots K) (D : Engine α)
  (text : Text → α) (t : TypedTable α) (config : UnpivotStepConfig)

def columnsOut (config : UnpivotStepConfig) : List Text :=
  config.idVars ++ [config.varName, config.valueName]

/-- The step gives the same rows in both engines, and as many as the planner says. -/
def UnpivotExact : Prop :=
  (executeUnpivot R K text t config).toOption = duckdbUnpivot U D text t config ∧
    ∀ result, (executeUnpivot R K text t config).toOption = some result →
      result.rows.card = t.rows.length * config.valueVars.length ∧
        unpivotRowsOut t.rows.length config = result.rows.card

/-- A column is missing or has both roles, the value name is a column of the table, two columns of
the result have one name, or the values have no type in common. -/
def PandasRaises (K : Concat α) : Prop :=
  (∃ column ∈ config.idVars ++ config.valueVars, column ∉ t.names) ∨
    (∃ column ∈ config.idVars, column ∈ config.valueVars) ∨ config.valueName ∈ t.names ∨
      ¬(columnsOut config).Nodup ∨
        concatenated K t config.valueColumns = none

def queryOf (config : UnpivotStepConfig) : UnpivotQuery :=
  ⟨config.idVars ++ config.valueVars, config.valueVars, config.varName, config.valueName⟩

/-- The builder raises, a column is not found, or the engine refuses the query: the columns have
no type in common, or it takes no such query. -/
def DuckdbRaises : Prop :=
  let s := registerTyped D t
  config.valueVars = [] ∨ [] ∈ namesOf config ∨
    (∃ column ∈ config.idVars ++ config.valueVars, lookup s.toTable column = none) ∨
    if (queryOf config).Regular then
      ∀ positions, config.valueVars.mapM (lookup s.toTable) = some positions →
        U.cast (positions.map s.types) = none
    else U.irregular (queryText config) s = none

/-- Ids are read as they are, and the value columns have no nulls and are made the same of. -/
def CellsAgree : Prop :=
  ∃ g, U.cast (config.valueVars.map fun c => (columnCells t c).1) = some g ∧
    ∀ f, K.value (config.valueVars.map (columnCells t)) = some f → ∀ r ∈ t.rows,
      key t.toTable config.idVars (R.row t.toTable r) = key t.toTable config.idVars r ∧
        ∀ column ∈ config.valueVars, ∃ v, t.cell r column = some v ∧ f v = some (g v)

def UnpivotAgrees : Prop :=
  (PandasRaises t config K ∧ DuckdbRaises U D t config) ∨
    (¬PandasRaises t config K ∧ config.valueVars ≠ [] ∧ [] ∉ namesOf config ∧
      (∀ column ∈ config.idVars ++ config.valueVars, Resolves D t.toTable column) ∧
        if config.valueVars.Nodup then
          ((columnsOut config).map fold).Nodup ∧ CellsAgree R U t config
        else t.rows = [] ∧ U.irregular (queryText config) (registerTyped D t) =
          some ⟨columnsOut config, 0⟩)

variable {R U D text t config}

theorem melt_toOption : (melt R K text t config).toOption =
    if config.valueName ∈ t.names ∨ ¬(columnsOut config).Nodup then none
    else (concatenated K t config.valueColumns).map fun f =>
      ⟨columnsOut config,
        Reshape.melt (meltedRow R text t config.idVars f) t.rows config.valueColumns⟩ := by
  unfold melt
  dsimp only
  by_cases hvalue : config.valueName ∈ t.names
  · rw [if_pos hvalue, if_pos (Or.inl hvalue)]
    rfl
  rw [if_neg hvalue, if_congr (or_iff_right hvalue) rfl rfl]
  cases hfind : (config.idVars.zip (seenBefore [] config.idVars)).find? (·.2) with
  | some e =>
    have hnodup : ¬(columnsOut config).Nodup := by
      intro hnodup
      have hids := (List.nodup_append.mp hnodup).1
      rw [find_seenBefore_eq_none.mpr ⟨hids, by simp⟩] at hfind
      cases hfind
    rw [if_pos hnodup]
    rfl
  | none =>
    dsimp only
    by_cases hnodup : (columnsOut config).Nodup
    · rw [if_neg (not_not.mpr hnodup)]
      unfold columnsOut at hnodup ⊢
      rw [if_pos hnodup]
      cases concatenated K t config.valueColumns <;> rfl
    · rw [if_pos hnodup]
      unfold columnsOut at hnodup
      rw [if_neg hnodup]
      rfl

theorem executeUnpivot_toOption : (executeUnpivot R K text t config).toOption =
    if (∃ column ∈ config.idVars ++ config.valueVars, column ∉ t.names) ∨
      ∃ column ∈ config.idVars, column ∈ config.valueVars then none
    else (melt R K text t config).toOption := by
  unfold executeUnpivot
  by_cases hmissing : ∃ column ∈ config.idVars ++ config.valueVars, column ∉ t.names
  · rw [if_pos (Or.inl hmissing)]
    cases hforM : (config.idVars ++ config.valueVars).forM (validateColumnExists t.toTable) with
    | error e => rfl
    | ok u =>
      obtain ⟨column, hc, hnot⟩ := hmissing
      exact absurd (forM_validate.mp hforM column hc) hnot
  · rw [if_congr (or_iff_right hmissing) rfl rfl, forM_validate.mpr (by simpa using hmissing)]
    simp only [bind, Except.bind]
    have hoverlap : config.idVars.filter (· ∈ config.valueVars) ≠ [] ↔
        ∃ column ∈ config.idVars, column ∈ config.valueVars := by
      simp [List.filter_eq_nil_iff]
    by_cases h : ∃ column ∈ config.idVars, column ∈ config.valueVars
    · rw [if_pos (hoverlap.mpr h), if_pos h]
      rfl
    · rw [if_neg (mt hoverlap.mp h), if_neg h]

theorem pandas_none_iff :
    (executeUnpivot R K text t config).toOption = none ↔ PandasRaises t config K := by
  rw [executeUnpivot_toOption, melt_toOption, PandasRaises]
  by_cases hmissing : ∃ column ∈ config.idVars ++ config.valueVars, column ∉ t.names
  · simp only [hmissing, true_or, if_true]
  by_cases hoverlap : ∃ column ∈ config.idVars, column ∈ config.valueVars
  · simp only [hoverlap, true_or, or_true, if_true]
  rw [if_neg (not_or.mpr ⟨hmissing, hoverlap⟩), or_iff_right hmissing, or_iff_right hoverlap]
  by_cases hvalue : config.valueName ∈ t.names
  · simp only [hvalue, true_or, if_true]
  by_cases hnodup : (columnsOut config).Nodup
  · simp only [hvalue, hnodup, not_true_eq_false, or_self, if_false, Option.map_eq_none_iff,
      false_or]
  · simp only [hnodup, not_false_eq_true, true_or, or_true, if_true]

theorem pandas_some (h : ¬PandasRaises t config K) :
    ∃ f, concatenated K t config.valueColumns = some f ∧
      (executeUnpivot R K text t config).toOption = some ⟨columnsOut config,
        Reshape.melt (meltedRow R text t config.idVars f) t.rows config.valueColumns⟩ := by
  simp only [PandasRaises, not_or] at h
  obtain ⟨hmissing, hoverlap, hvalue, hnodup, hconcat⟩ := h
  obtain ⟨f, hf⟩ := Option.ne_none_iff_exists'.mp hconcat
  refine ⟨f, hf, ?_⟩
  rw [executeUnpivot_toOption, if_neg (not_or.mpr ⟨hmissing, hoverlap⟩), melt_toOption,
    if_neg (not_or.mpr ⟨hvalue, hnodup⟩), hf, Option.map_some]

theorem duckdbUnpivot_eq : duckdbUnpivot U D text t config =
    if config.valueVars = [] ∨ [] ∈ namesOf config then none
    else runQuery U text (registerTyped D t) (queryText config) (queryOf config) := by
  rw [duckdbUnpivot, buildUnpivotSql_eq]
  split
  · rfl
  next h =>
    rw [not_or] at h
    rw [Option.bind_some, readUnpivot_queryText h.1, Option.bind_some, queryOf]

section Run

variable {s : TypedTable α} {sql : Text} {query : UnpivotQuery}

theorem mapM_lookup_eq_some {columns : List Text} {t : Table α}
    (h : ∀ column ∈ columns, lookup t column ≠ none) :
    ∃ positions, columns.mapM (lookup t) = some positions := by
  rw [← Option.isSome_iff_exists, mapM_isSome_iff]
  exact fun column hc => Option.isSome_iff_ne_none.mpr (h column hc)

theorem runQuery_none_iff (hquery : ∀ column ∈ query.columns, column ∈ query.source) :
    runQuery U text s sql query = none ↔
      (∃ column ∈ query.source, lookup s.toTable column = none) ∨
        if query.Regular then
          ∀ positions, query.columns.mapM (lookup s.toTable) = some positions →
            U.cast (positions.map s.types) = none
        else U.irregular sql s = none := by
  unfold runQuery
  by_cases hmissing : ∃ column ∈ query.source, lookup s.toTable column = none
  · have hnone : query.source.mapM (lookup s.toTable) = none := by
      obtain ⟨column, hc, hnone⟩ := hmissing
      rw [← Option.not_isSome_iff_eq_none, mapM_isSome_iff]
      exact fun hall => Option.isSome_iff_ne_none.mp (hall column hc) hnone
    simp only [hnone, Option.bind_none, hmissing, true_or]
  · have hfound : ∀ column ∈ query.source, lookup s.toTable column ≠ none := by
      simpa using hmissing
    obtain ⟨source, hsource⟩ := mapM_lookup_eq_some hfound
    have hidsFound : ∀ column ∈ query.ids, lookup s.toTable column ≠ none :=
      fun column hc => hfound column (List.mem_filter.mp hc).1
    have hcolumnsFound : ∀ column ∈ query.columns, lookup s.toTable column ≠ none :=
      fun column hc => hfound column (hquery column hc)
    obtain ⟨ids, hids⟩ := mapM_lookup_eq_some hidsFound
    obtain ⟨columns, hcolumns⟩ := mapM_lookup_eq_some hcolumnsFound
    rw [hsource, Option.bind_some, hids, Option.bind_some, hcolumns, Option.bind_some,
      or_iff_right hmissing]
    split
    · simp only [Option.map_eq_none_iff, Option.some.injEq, forall_eq']
    · rfl

end Run

theorem duckdb_none_iff :
    duckdbUnpivot U D text t config = none ↔ DuckdbRaises U D t config := by
  rw [duckdbUnpivot_eq, DuckdbRaises, ← or_assoc]
  by_cases hbuilder : config.valueVars = [] ∨ [] ∈ namesOf config
  · simp only [hbuilder, if_true, true_or]
  rw [if_neg hbuilder, or_iff_right hbuilder]
  exact runQuery_none_iff fun column hc => List.mem_append_right _ hc

/-! ### Columns that resolve -/

section Resolved

variable (hresolves : ∀ column ∈ config.idVars ++ config.valueVars, Resolves D t.toTable column)
  (hapart : ∀ column ∈ config.idVars, column ∉ config.valueVars)
include hresolves hapart

theorem ids_queryOf : (queryOf config).ids = config.idVars := by
  unfold UnpivotQuery.ids queryOf
  have hids : ∀ column ∈ config.idVars, fold column ∉ config.valueVars.map fold := by
    intro column hc hmem
    obtain ⟨column', hc', hfold⟩ := List.mem_map.mp hmem
    have hsame := fold_inj_of_resolves (hresolves column' (List.mem_append_right _ hc'))
      (hresolves column (List.mem_append_left _ hc)) hfold
    exact hapart column hc (hsame ▸ hc')
  rw [List.filter_append, List.filter_eq_self.mpr fun column hc => decide_eq_true (hids column hc),
    List.filter_eq_nil_iff.mpr fun column hc => ?_, List.append_nil]
  simpa using ⟨column, hc, rfl⟩

theorem regular_iff (hids : config.idVars.Nodup) :
    (queryOf config).Regular ↔
      config.valueVars.Nodup ∧ ((columnsOut config).map fold).Nodup := by
  have hinj : ∀ c ∈ config.idVars ++ config.valueVars, ∀ c' ∈ config.idVars ++ config.valueVars,
      fold c = fold c' → c = c' := fun c hc c' hc' =>
    fold_inj_of_resolves (hresolves c hc) (hresolves c' hc')
  rw [UnpivotQuery.Regular, UnpivotQuery.names, ids_queryOf hresolves hapart]
  change ((config.idVars ++ config.valueVars).map fold).Nodup ∧ (config.valueVars.map fold).Nodup ∧
    ((columnsOut config).map fold).Nodup ↔ _
  constructor
  · rintro ⟨-, hcolumns, hnames⟩
    exact ⟨hcolumns.of_map fold, hnames⟩
  · rintro ⟨hvalues, hnames⟩
    have hsource : (config.idVars ++ config.valueVars).Nodup :=
      List.nodup_append.mpr ⟨hids, hvalues, fun c hc c' hc' h => hapart c hc (h ▸ hc')⟩
    refine ⟨(List.nodup_map_iff_inj_on hsource).mpr hinj,
      (List.nodup_map_iff_inj_on hvalues).mpr fun c hc c' hc' => ?_, hnames⟩
    exact hinj c (List.mem_append_right _ hc) c' (List.mem_append_right _ hc')

/-- The row that a cell becomes in DuckDB. -/
def unpivotedRow (text : Text → α) (t : TypedTable α) (idVars : List Text) (g : α → α)
    (r : t.Row) (column : Text) : Option (List (Option α)) :=
  (t.cell r column).map fun v => key t.toTable idVars r ++ [some (text column), some (g v)]

/-- The query takes the columns that it names. -/
theorem runQuery_resolved {sql : Text} :
    runQuery U text (registerTyped D t) sql (queryOf config) =
      if (queryOf config).Regular then
        (U.cast (config.valueVars.map fun c => (columnCells t c).1)).map fun g =>
          ⟨columnsOut config,
            Reshape.unpivot (unpivotedRow text t config.idVars g) t.rows config.valueVars⟩
      else U.irregular sql (registerTyped D t) := by
  obtain ⟨source, hsource, -⟩ := lookups_of_resolves hresolves
  obtain ⟨ids, hids, hidsAll⟩ := lookups_of_resolves fun column hc =>
    hresolves column (List.mem_append_left config.valueVars hc)
  obtain ⟨columns, hcolumns, hcolumnsAll⟩ := lookups_of_resolves fun column hc =>
    hresolves column (List.mem_append_right config.idVars hc)
  have hnames : ids.map (D.register t.toTable).columns = config.idVars :=
    (map_eq_of_forall₂ hidsAll fun c i h => h.2.symm).symm.trans (List.map_id _)
  have hcell : ∀ (r : t.Row) (c : Text) (i : Fin t.width), t.columns i = c → t.cell r c = r i := by
    intro r c i h
    rw [Table.cell, Table.find_eq_some.mpr h, Option.bind_some]
  have hkey : ∀ r : t.Row, ids.map r = key t.toTable config.idVars r := fun r =>
    (map_eq_of_forall₂ hidsAll fun c i h => hcell r c i h.1).symm
  have htypes : columns.map t.types = config.valueVars.map fun c => (columnCells t c).1 :=
    (map_eq_of_forall₂ hcolumnsAll fun c i h => by
      rw [columnCells, Table.find_eq_some.mpr h.1]
      rfl).symm
  have hrows : ∀ g, Reshape.unpivot (fun (r : t.Row) i => (r i).map fun v => ids.map r ++
      [some (text ((D.register t.toTable).columns i)), some (g v)]) t.rows columns =
        Reshape.unpivot (unpivotedRow text t config.idVars g) t.rows config.valueVars := by
    intro g
    unfold Reshape.unpivot
    refine List.flatMap_congr fun r _ => ?_
    refine (filterMap_eq_of_forall₂ hcolumnsAll fun c i h => ?_).symm
    rw [unpivotedRow, hcell r c i h.1]
    dsimp only
    rw [hkey r, h.2]
  unfold runQuery
  have hids' := ids_queryOf hresolves hapart
  rw [hids']
  change (Option.bind (List.mapM (lookup (D.register t.toTable))
      (config.idVars ++ config.valueVars)) fun _ =>
    Option.bind (List.mapM (lookup (D.register t.toTable)) config.idVars) fun ids =>
      Option.bind (List.mapM (lookup (D.register t.toTable)) config.valueVars) fun columns => _) = _
  rw [hsource, hids, hcolumns]
  change (if (queryOf config).Regular then (U.cast (columns.map t.types)).map fun g =>
      (Result.mk (ids.map (D.register t.toTable).columns ++ [config.varName, config.valueName])
        (Reshape.unpivot (fun (r : t.Row) i => (r i).map fun v => ids.map r ++
          [some (text ((D.register t.toTable).columns i)), some (g v)]) t.rows columns : List _))
    else U.irregular sql (registerTyped D t)) = _
  rw [hnames, htypes]
  simp only [hrows, columnsOut]

end Resolved

/-! ### The rows -/

/-- The rows are the same when no cell is null and each is made the same of. -/
theorem rows_iff {f : α → Option α} {g : α → α} (hvalues : config.valueVars ≠ [])
    (hf : K.value (config.valueVars.map (columnCells t)) = some f)
    (hg : U.cast (config.valueVars.map fun c => (columnCells t c).1) = some g) :
    (Reshape.melt (meltedRow R text t config.idVars f) t.rows config.valueVars).Perm
        (Reshape.unpivot (unpivotedRow text t config.idVars g) t.rows config.valueVars) ↔
      ∀ r ∈ t.rows,
        key t.toTable config.idVars (R.row t.toTable r) = key t.toTable config.idVars r ∧
          ∀ column ∈ config.valueVars, ∃ v, t.cell r column = some v ∧ f v = some (g v) := by
  have hcast : ∀ v, f (g v) = f v := by
    refine U.value_cast _ f g hf ?_
    rwa [List.map_map]
  have hlength : ∀ r s : t.Row, (key t.toTable config.idVars r).length =
      (key t.toTable config.idVars s).length := by
    intro r s
    rw [key, key, List.length_map, List.length_map]
  have hentry : ∀ (r s : t.Row) (c c' : Text),
      unpivotedRow text t config.idVars g s c' = some (meltedRow R text t config.idVars f r c) ↔
        key t.toTable config.idVars s = key t.toTable config.idVars (R.row t.toTable r) ∧
          text c' = text c ∧ ∃ v, t.cell s c' = some v ∧ some (g v) = (t.cell r c).bind f := by
    intro r s c c'
    rw [unpivotedRow, meltedRow, Option.map_eq_some_iff]
    constructor
    · rintro ⟨v, hv, hrow⟩
      obtain ⟨hkey, hrest⟩ := List.append_inj hrow (hlength _ _)
      obtain ⟨htext, hvalue⟩ := List.cons.inj hrest
      exact ⟨hkey, Option.some.inj htext, v, hv, (List.cons.inj hvalue).1⟩
    · rintro ⟨hkey, htext, v, hv, hvalue⟩
      exact ⟨v, hv, by rw [hkey, htext, hvalue]⟩
  rw [Reshape.melt_perm_unpivot_iff]
  · constructor
    · intro h r hr
      have hcells : ∀ column ∈ config.valueVars, ∃ v, t.cell r column = some v ∧
          f v = some (g v) := by
        intro column hc
        obtain ⟨-, -, v, hv, hvalue⟩ := (hentry r r column column).mp (h r hr column hc)
        rw [hv, Option.bind_some] at hvalue
        exact ⟨v, hv, hvalue.symm⟩
      obtain ⟨column, hc⟩ := List.exists_mem_of_ne_nil _ hvalues
      exact ⟨((hentry r r column column).mp (h r hr column hc)).1.symm, hcells⟩
    · intro h r hr column hc
      obtain ⟨hids, hcells⟩ := h r hr
      obtain ⟨v, hv, hvalue⟩ := hcells column hc
      exact (hentry r r column column).mpr ⟨hids.symm, rfl, v, hv, by rw [hv, Option.bind_some, hvalue]⟩
  · intro r s c _ c' _ hsame
    obtain ⟨hkey, htext, v, hv, hvalue⟩ := (hentry r s c c').mp hsame
    obtain ⟨w, hw, hfw⟩ := Option.bind_eq_some_iff.mp hvalue.symm
    have hread : key t.toTable config.idVars (R.row t.toTable s) =
        key t.toTable config.idVars (R.row t.toTable r) := by
      have hrow := key_row (R := R) hkey
      rwa [exact_row r] at hrow
    have hfv : f v = some (g v) := by
      rw [← hcast v]
      exact K.value_value _ f w (g v) hf hfw
    rw [meltedRow, meltedRow, hread, htext, hv, hw, Option.bind_some, Option.bind_some, hfv, hfw]

/-! ### The step -/

theorem unpivotRowsOut_eq (hvalues : config.valueVars ≠ []) (rowsIn : Nat) :
    unpivotRowsOut rowsIn config = rowsIn * config.valueVars.length := by
  have hlength := List.length_pos_of_ne_nil hvalues
  rw [unpivotRowsOut, Nat.max_eq_right hlength]

theorem concatenated_eq (hvalues : config.valueVars ≠ []) (hnodup : config.valueVars.Nodup) :
    concatenated K t config.valueColumns = K.value (config.valueVars.map (columnCells t)) := by
  rw [UnpivotStepConfig.valueColumns, survivors_of_nodup hnodup (by simp), concatenated,
    if_neg hvalues]

section Step

variable (hpandas : ¬PandasRaises t config K) (hvalues : config.valueVars ≠ [])
  (hnames : [] ∉ namesOf config)
  (hresolves : ∀ column ∈ config.idVars ++ config.valueVars, Resolves D t.toTable column)
include hpandas hvalues hnames hresolves

theorem duckdb_resolved : duckdbUnpivot U D text t config =
    if config.valueVars.Nodup ∧ ((columnsOut config).map fold).Nodup then
      (U.cast (config.valueVars.map fun c => (columnCells t c).1)).map fun g =>
        ⟨columnsOut config,
          Reshape.unpivot (unpivotedRow text t config.idVars g) t.rows config.valueVars⟩
    else U.irregular (queryText config) (registerTyped D t) := by
  simp only [PandasRaises, not_or] at hpandas
  obtain ⟨-, hoverlap, -, hcolumns, -⟩ := hpandas
  have hapart : ∀ column ∈ config.idVars, column ∉ config.valueVars := by simpa using hoverlap
  have hids : config.idVars.Nodup := (List.nodup_append.mp (not_not.mp hcolumns)).1
  rw [duckdbUnpivot_eq, if_neg (not_or.mpr ⟨hvalues, hnames⟩), runQuery_resolved hresolves hapart]
  exact if_congr (regular_iff hresolves hapart hids) rfl rfl

theorem exact_iff_of_nodup (hnodup : config.valueVars.Nodup) :
    UnpivotExact R U D text t config ↔
      ((columnsOut config).map fold).Nodup ∧ CellsAgree R U t config := by
  obtain ⟨f, hconcat, hsome⟩ := @pandas_some _ R K text t config hpandas
  rw [concatenated_eq hvalues hnodup] at hconcat
  have hcolumns : config.valueColumns = config.valueVars := survivors_of_nodup hnodup (by simp)
  have hcount : ∀ result, (executeUnpivot R K text t config).toOption = some result →
      result.rows.card = t.rows.length * config.valueVars.length ∧
        unpivotRowsOut t.rows.length config = result.rows.card := by
    intro result hresult
    rw [hsome] at hresult
    obtain rfl := Option.some.inj hresult
    rw [unpivotRowsOut_eq hvalues, hcolumns, Multiset.coe_card, Reshape.length_melt]
    exact ⟨rfl, rfl⟩
  rw [UnpivotExact, and_iff_left hcount, hsome, hcolumns,
    duckdb_resolved hpandas hvalues hnames hresolves, CellsAgree]
  by_cases hfold : ((columnsOut config).map fold).Nodup
  · rw [if_pos ⟨hnodup, hfold⟩]
    cases hg : U.cast (config.valueVars.map fun c => (columnCells t c).1) with
    | none => simp
    | some g =>
      simp only [Option.map_some, Option.some.injEq, Result.mk.injEq, true_and, hfold,
        Multiset.coe_eq_coe, rows_iff hvalues hconcat hg, hconcat, forall_eq', exists_eq_left']
  · rw [if_neg fun h => hfold h.2]
    refine iff_of_false (fun h => hfold ?_) fun h => hfold h.1
    exact U.irregular_columns _ _ _ h.symm

theorem exact_iff_of_repeated (hnodup : ¬config.valueVars.Nodup) :
    UnpivotExact R U D text t config ↔ t.rows = [] ∧
      U.irregular (queryText config) (registerTyped D t) = some ⟨columnsOut config, 0⟩ := by
  obtain ⟨f, -, hsome⟩ := @pandas_some _ R K text t config hpandas
  have hless : config.valueColumns.length < config.valueVars.length := by
    refine lt_of_le_of_ne ?_ (mt length_survivors_eq_iff.mp hnodup)
    exact (survivors_perm_dedup (by decide) config.valueVars).length_eq.trans_le
      (List.dedup_sublist _).length_le
  rw [UnpivotExact, hsome, duckdb_resolved hpandas hvalues hnames hresolves,
    if_neg fun h => hnodup h.1]
  constructor
  · rintro ⟨heq, hcount⟩
    obtain ⟨hcard, -⟩ := hcount _ rfl
    rw [Multiset.coe_card, Reshape.length_melt] at hcard
    have hrows : t.rows = [] := by
      by_contra hne
      exact absurd (Nat.eq_of_mul_eq_mul_left (List.length_pos_of_ne_nil hne) hcard) hless.ne
    refine ⟨hrows, heq.symm.trans ?_⟩
    rw [hrows, Reshape.melt_nil]
    rfl
  · rintro ⟨hrows, hirregular⟩
    rw [hirregular, unpivotRowsOut_eq hvalues, hrows, Reshape.melt_nil]
    refine ⟨rfl, ?_⟩
    intro result hresult
    obtain rfl := Option.some.inj hresult
    simp

end Step

/-- The step gives the same rows in both engines, one for each row and value column as the planner
says, when both refuse it, or both take it, no cell of a value column is null, and pandas reads the
ids as they are and the values as they are cast; and, unless two columns differ in case only, in
no other case. -/
theorem unpivot_exact_iff (R : Reading α) (U : Unpivots K) (D : Engine α) (text : Text → α)
    (t : TypedTable α) (config : UnpivotStepConfig) :
    (UnpivotAgrees R U D t config → UnpivotExact R U D text t config) ∧
      (CaseDistinct t.toTable → UnpivotExact R U D text t config →
        UnpivotAgrees R U D t config) := by
  constructor
  · rintro (⟨hpandas, hduckdb⟩ | ⟨hpandas, hvalues, hnames, hresolves, hagree⟩)
    · have hnone := (@pandas_none_iff _ R K text t config).mpr hpandas
      rw [UnpivotExact, hnone, duckdb_none_iff.mpr hduckdb]
      exact ⟨rfl, by simp⟩
    · split at hagree
      next hnodup => exact (exact_iff_of_nodup hpandas hvalues hnames hresolves hnodup).mpr hagree
      next hnodup =>
        exact (exact_iff_of_repeated hpandas hvalues hnames hresolves hnodup).mpr hagree
  · intro hcase hexact
    by_cases hpandas : PandasRaises t config K
    · refine Or.inl ⟨hpandas, ?_⟩
      have hduckdb : duckdbUnpivot U D text t config = none := by
        rw [← hexact.1]
        exact pandas_none_iff.mpr hpandas
      exact duckdb_none_iff.mp hduckdb
    · have hsome : duckdbUnpivot U D text t config ≠ none := by
        rw [← hexact.1]
        exact mt pandas_none_iff.mp hpandas
      have hbuilder : ¬(config.valueVars = [] ∨ [] ∈ namesOf config) := by
        intro hbuilder
        rw [duckdbUnpivot_eq, if_pos hbuilder] at hsome
        exact hsome rfl
      rw [not_or] at hbuilder
      have hfound : ∀ column ∈ config.idVars ++ config.valueVars, column ∈ t.names := by
        rw [PandasRaises, not_or] at hpandas
        simpa using hpandas.1
      have hresolves : ∀ column ∈ config.idVars ++ config.valueVars, Resolves D t.toTable column :=
        fun column hc => resolves_of_caseDistinct hcase (hfound column hc)
      refine Or.inr ⟨hpandas, hbuilder.1, hbuilder.2, hresolves, ?_⟩
      split
      next hnodup =>
        exact (exact_iff_of_nodup hpandas hbuilder.1 hbuilder.2 hresolves hnodup).mp hexact
      next hnodup =>
        exact (exact_iff_of_repeated hpandas hbuilder.1 hbuilder.2 hresolves hnodup).mp hexact

end Agreement

/-- Columns that need no conversion. -/
def sameType : Concat Nat where
  value _ := some some
  value_value := by
    rintro _ _ v w ⟨⟩ ⟨⟩
    rfl

def castNone : Unpivots sameType where
  cast _ := some id
  value_cast := by
    rintro _ _ _ ⟨⟩ ⟨⟩ v
    rfl
  irregular _ _ := none
  irregular_columns := by simp

/-- One row with an id, a null and a value. -/
def halfNull : TypedTable Nat where
  width := 3
  columns := ![("id".toList), ("a".toList), ("b".toList)]
  distinct := List.nodup_ofFn.mp (by decide)
  rows := [![some 1, none, some 2]]
  types := fun _ => .int

/-- pandas has a row for the null, DuckDB has none. -/
theorem null_dropped : ¬UnpivotExact readAsIs castNone numbering List.length halfNull
    { idVars := ["id".toList], valueVars := ["a".toList, "b".toList] } := by
  intro h
  have hrows := congrArg (Option.map fun result => result.rows.card) h.1
  exact absurd hrows (by decide +kernel)

end PipelineIQ.Execution.UnpivotRouting
