import Mathlib.Data.Fin.VecNotation
import PipelineIQ.Execution.AggregateSql

namespace PipelineIQ.Execution.AggregateRouting

open PipelineIQ.Lib PipelineIQ.Lib.Strings PipelineIQ.Lib.Joins PipelineIQ.Pipeline.Steps
open PipelineIQ.Execution.JoinSql PipelineIQ.Execution.AggregateSql

variable {α : Type} (isna : α → Bool) {C : Calculation α} (A : Aggregates isna C)

/-! ### When the two agree -/

/-- The aggregations in the order of the dictionary, which has those of a column together. -/
def aggDict (config : AggregateStepConfig) : AggDict :=
  config.aggregations.foldl (fun aggDict agg => aggDict.push agg.column agg.function) ∅

def reordered (config : AggregateStepConfig) : List (Text × AggregationFunction) :=
  Dict.pairs (aggDict config).entries

def pairs (config : AggregateStepConfig) : List (Text × AggregationFunction) :=
  config.aggregations.map fun agg => (agg.column, agg.function)

structure PandasRuns (t : TypedTable α) (config : AggregateStepConfig) : Prop where
  grouped : config.groupBy ≠ []
  aggregated : config.aggregations ≠ []
  groupColumns : ∀ column ∈ config.groupBy, column ∈ t.names
  columns : ∀ agg ∈ config.aggregations, agg.column ∈ t.names
  numeric : ∀ agg ∈ config.aggregations, agg.function ∈ numericFuncs →
    (t.dtypeOf agg.column).isNumeric = true
  distinct : (config.groupBy ++ (pairs config).map flatName).Nodup

structure DuckdbRuns (t : TypedTable α) (config : AggregateStepConfig) : Prop where
  aggregated : config.aggregations ≠ []
  groupNames : ∀ column ∈ config.groupBy, column ≠ []
  columnNames : ∀ agg ∈ config.aggregations, agg.column ≠ []
  outputNames : ∀ name ∈ outputNames config, name ≠ []
  binds : bindsQuery A t config = true

/-- What the nulls of a group must be like: a sum needs a value, and a first or last cell that is
null needs all to be. -/
def NullsAgree (function : AggregationFunction) (cells : List (Option α)) : Prop :=
  match function with
  | .sum => ∃ c ∈ cells, c ≠ none
  | .first => cells.head? = some none → ∀ c ∈ cells, c = none
  | .last => cells.getLast? = some none → ∀ c ∈ cells, c = none
  | _ => True

def NoNan (cells : List (Option α)) : Prop := ∀ c ∈ cells, ∀ v ∈ c, isna v = false

/-- Whether the aggregation `x` of pandas has the value of the aggregation `y` of the query on the
cells of a group. -/
def Aligned (x y : Text × AggregationFunction) (cells : Text → List (Option α)) : Prop :=
  (x = y ∧ NoNan isna (cells x.1) → NullsAgree x.2 (cells x.1)) ∧
    (¬ (x = y ∧ NoNan isna (cells x.1)) →
      C.pandasValue x.2 ((cells x.1).map (Option.filter fun v => !isna v)) =
        A.value y.2 (cells y.1))

section Agreement

variable (t : TypedTable α) (config : AggregateStepConfig)

/-- Every grouping column has a value in every row. -/
def KeysPresent : Prop :=
  ∀ r ∈ t.rows, ∀ column ∈ config.groupBy, ∃ v ∈ t.cell r column, isna v = false

/-- The cells of a column in the rows of a group. -/
def groupCells [DecidableEq α] (r : t.Row) (column : Text) : List (Option α) :=
  (Groups.group (fun r : t.Row => config.groupBy.map (t.cell r)) t.rows
    (config.groupBy.map (t.cell r))).map fun r => t.cell r column

structure SameTable [DecidableEq α] : Prop where
  names : (reordered config).map flatName = outputNames config
  keys : KeysPresent isna t config
  values : ∀ r ∈ t.rows, ∀ p ∈ (reordered config).zip (pairs config),
    Aligned isna A p.1 p.2 (groupCells t config r)

def AggregateAgrees [DecidableEq α] : Prop :=
  (PandasRuns t config ↔ DuckdbRuns isna A t config) ∧
    (PandasRuns t config → SameTable isna A t config)

end Agreement

/-! ### The dictionary -/

theorem reordered_perm (config : AggregateStepConfig) : (reordered config).Perm (pairs config) :=
  Dict.pairs_foldl_push (fun agg : Aggregation => (agg.column, agg.function)) config.aggregations ∅

/-! ### The step in pandas -/

section Pandas

variable (t : TypedTable α)

theorem validateColumns (columns : List Text) :
    (columns.forM (validateColumnExists t)).toOption =
      if ∀ column ∈ columns, column ∈ t.names then some () else none := by
  induction columns with
  | nil => simp [Except.toOption, pure, Except.pure]
  | cons column columns ih =>
    rw [List.forM, validateColumnExists]
    by_cases h : column ∈ t.names
    · simp only [List.forall_mem_cons, h, true_and, if_true]
      exact ih
    · simp only [List.forall_mem_cons, h, false_and, if_false]
      rfl

theorem buildAggregationDict_toOption (aggregations : List Aggregation) (dict : AggDict) :
    (aggregations.foldlM (fun aggDict agg => do
      validateColumnExists t agg.column
      pure (aggDict.push agg.column agg.function)) dict : Except AggregateError _).toOption =
      if ∀ agg ∈ aggregations, agg.column ∈ t.names then
        some (aggregations.foldl
          (fun aggDict agg => aggDict.push agg.column agg.function) dict)
      else none := by
  induction aggregations generalizing dict with
  | nil => simp [Except.toOption, pure, Except.pure]
  | cons agg rest ih =>
    rw [List.foldlM_cons, validateColumnExists]
    by_cases h : agg.column ∈ t.names
    · simp only [bind, Except.bind, pure, Except.pure, List.forall_mem_cons, h, true_and,
        List.foldl_cons]
      exact ih _
    · simp only [bind, Except.bind, List.forall_mem_cons, h, false_and, if_false]
      rfl

theorem find_isSome {column : Text} : (t.find column).isSome ↔ column ∈ t.names := by
  rw [Option.isSome_iff_exists]
  simp only [Table.find_eq_some, Table.names, List.mem_map, List.mem_finRange, true_and]

variable (config : AggregateStepConfig)

/-- What the check of the types lets through. -/
theorem numeric_iff :
    ((reordered config).find? fun e =>
      decide (e.2 ∈ numericFuncs) && !(t.dtypeOf e.1).isNumeric) = none ↔
      ∀ agg ∈ config.aggregations, agg.function ∈ numericFuncs →
        (t.dtypeOf agg.column).isNumeric = true := by
  have hmem : ∀ p : Text × AggregationFunction → Prop,
      (∀ e ∈ reordered config, p e) ↔ ∀ agg ∈ config.aggregations, p (agg.column, agg.function) := by
    intro p
    rw [← List.forall_mem_map (P := p) (f := fun agg : Aggregation => (agg.column, agg.function))]
    exact ⟨fun h e he => h e ((reordered_perm config).mem_iff.mpr he),
      fun h e he => h e ((reordered_perm config).mem_iff.mp he)⟩
  rw [List.find?_eq_none, hmem]
  refine forall₂_congr fun agg _ => ?_
  simp

theorem columns_nodup :
    (config.groupBy ++ (reordered config).map flatName).Nodup ↔
      (config.groupBy ++ (pairs config).map flatName).Nodup :=
  (((reordered_perm config).map flatName).append_left _).nodup_iff

theorem reordered_eq_nil : reordered config = [] ↔ config.aggregations = [] := by
  rw [← List.length_eq_zero_iff, (reordered_perm config).length_eq, pairs, List.length_map,
    List.length_eq_zero_iff]

open Classical in
theorem performAggregation_toOption [DecidableEq α]
    (hgroup : ∀ column ∈ config.groupBy, column ∈ t.names)
    (hcolumns : ∀ agg ∈ config.aggregations, agg.column ∈ t.names) :
    (performAggregation isna t C config (aggDict config)).toOption =
      if PandasRuns t config then
        some ⟨config.groupBy ++ (reordered config).map flatName,
          (groupRows isna t C config.groupBy (reordered config)).map fun e => e.1 ++ e.2⟩
      else none := by
  have hnumeric := numeric_iff t config
  have hreordered : Dict.pairs (aggDict config).entries = reordered config := rfl
  unfold performAggregation
  dsimp only
  rw [hreordered]
  cases hfind : (reordered config).find? fun e =>
      decide (e.2 ∈ numericFuncs) && !(t.dtypeOf e.1).isNumeric with
  | some e =>
    have hnot : ¬ PandasRuns t config := by
      intro hruns
      rw [hnumeric.mpr hruns.numeric] at hfind
      cases hfind
    rw [if_neg hnot]
    rfl
  | none =>
    by_cases hgrouped : config.groupBy = []
    · have hnot : ¬ PandasRuns t config := fun hruns => hruns.grouped hgrouped
      simp only [if_pos hgrouped, if_neg hnot]
      rfl
    by_cases haggregated : reordered config = []
    · have hnot : ¬ PandasRuns t config :=
        fun hruns => hruns.aggregated ((reordered_eq_nil config).mp haggregated)
      simp only [if_neg hgrouped, if_pos haggregated, if_neg hnot]
      rfl
    by_cases hdistinct : (config.groupBy ++ (reordered config).map flatName).Nodup
    · have hruns : PandasRuns t config :=
        ⟨hgrouped, fun hnil => haggregated ((reordered_eq_nil config).mpr hnil), hgroup, hcolumns,
          hnumeric.mp hfind, (columns_nodup config).mp hdistinct⟩
      simp only [if_neg hgrouped, if_neg haggregated, if_pos hdistinct, if_pos hruns]
      rfl
    · have hnot : ¬ PandasRuns t config :=
        fun hruns => hdistinct ((columns_nodup config).mpr hruns.distinct)
      simp only [if_neg hgrouped, if_neg haggregated, if_neg hdistinct, if_neg hnot]
      rfl

open Classical in
/-- The step yields a table exactly when nothing raises. -/
theorem executeAggregate_toOption [DecidableEq α] :
    (executeAggregate isna t C config).toOption =
      if PandasRuns t config then
        some ⟨config.groupBy ++ (reordered config).map flatName,
          (groupRows isna t C config.groupBy (reordered config)).map fun e => e.1 ++ e.2⟩
      else none := by
  have hvalidate := validateColumns t config.groupBy
  have hdict := buildAggregationDict_toOption t config.aggregations ∅
  unfold executeAggregate
  cases hforM : config.groupBy.forM (validateColumnExists t) with
  | error e =>
    rw [hforM] at hvalidate
    rw [if_neg fun hruns => ?_]
    · rfl
    · rw [if_pos hruns.groupColumns] at hvalidate
      cases hvalidate
  | ok =>
    have hgroup : ∀ column ∈ config.groupBy, column ∈ t.names := by
      by_contra hnot
      rw [hforM, if_neg hnot] at hvalidate
      cases hvalidate
    cases hbuild : buildAggregationDict t config with
    | error e =>
      rw [buildAggregationDict] at hbuild
      rw [hbuild] at hdict
      rw [if_neg fun hruns => ?_]
      · rfl
      · rw [if_pos hruns.columns] at hdict
        cases hdict
    | ok dict =>
      have hcolumns : ∀ agg ∈ config.aggregations, agg.column ∈ t.names := by
        by_contra hnot
        rw [if_neg hnot] at hdict
        rw [buildAggregationDict] at hbuild
        rw [hbuild] at hdict
        cases hdict
      have hdict' : dict = aggDict config := by
        rw [if_pos hcolumns] at hdict
        rw [buildAggregationDict] at hbuild
        rw [hbuild] at hdict
        exact Option.some.inj hdict
      rw [← performAggregation_toOption isna t config hgroup hcolumns, ← hdict']
      rfl

end Pandas

/-! ### The query -/

section Query

variable {t : TypedTable α} {config : AggregateStepConfig} {A}

theorem duckdbRuns_iff : DuckdbRuns isna A t config ↔
    (StepSql.buildAggregateSql (sqlConfig config)).isSome ∧ bindsQuery A t config = true := by
  rw [buildAggregateSql_isSome]
  constructor
  · rintro ⟨haggregated, hgroup, hcolumns, hnames, hbinds⟩
    exact ⟨⟨haggregated, hgroup, hcolumns, hnames⟩, hbinds⟩
  · rintro ⟨⟨haggregated, hgroup, hcolumns, hnames⟩, hbinds⟩
    exact ⟨haggregated, hgroup, hcolumns, hnames, hbinds⟩

open Classical in
theorem duckdbAggregate_eq [DecidableEq α] (D : Duckdb) :
    duckdbAggregate A t config D =
      if DuckdbRuns isna A t config then
        some ⟨D.names (config.groupBy ++ outputNames config),
          (queryRows A t config).map fun e => e.1 ++ e.2⟩
      else none := by
  simp only [duckdbRuns_iff, duckdbAggregate]
  cases StepSql.buildAggregateSql (sqlConfig config) with
  | none => rfl
  | some sql => simp

end Query

/-! ### The names -/

section Names

theorem getLast_value (function : AggregationFunction) :
    ∃ c, function.value.toList.getLast? = some c ∧ c ≠ '_' ∧ c.isDigit = false := by
  cases function <;> exact ⟨_, rfl, by decide, by decide⟩

theorem getLast_flatName (e : Text × AggregationFunction) :
    (flatName e).getLast? = e.2.value.toList.getLast? := by
  obtain ⟨c, hc, -⟩ := getLast_value e.2
  unfold flatName
  split
  next => rw [List.getLast?_append, List.getLast?_cons, hc]; rfl
  next h => rw [not_not.mp h]

/-- No name of pandas is one that DuckDB has numbered. -/
theorem flatName_ne (e : Text × AggregationFunction) (column digits : Text)
    (hdigits : ∀ d ∈ digits, d.isDigit) : flatName e ≠ column ++ '_' :: digits := by
  intro h
  obtain ⟨c, hc, hne, hdigit⟩ := getLast_value e.2
  have hlast := congrArg List.getLast? h
  rw [getLast_flatName, hc, List.getLast?_append, List.getLast?_cons, Option.some_or] at hlast
  have hlast := Option.some.inj hlast
  cases hd : digits.getLast? with
  | none =>
    rw [hd] at hlast
    exact hne hlast
  | some d =>
    rw [hd] at hlast
    have := hdigits d (List.mem_of_getLast? hd)
    rw [hlast] at hdigit
    exact absurd (this.symm.trans hdigit) Bool.noConfusion

theorem names_of_repeated {names : List Text} {es : List (Text × AggregationFunction)}
    (h : List.Forall₂ (fun column name => name = column ∨
      ∃ digits : Text, name = column ++ '_' :: digits ∧ ∀ d ∈ digits, d.isDigit) names
        (es.map flatName)) : es.map flatName = names := by
  induction es generalizing names with
  | nil => cases h; rfl
  | cons e es ih =>
    cases h with
    | cons hname hrest =>
      rw [List.map_cons, ih hrest]
      obtain hname | ⟨digits, hname, hdigits⟩ := hname
      · rw [hname]
      · exact absurd hname (flatName_ne e _ _ hdigits)

theorem names_iff (D : Duckdb) {config : AggregateStepConfig}
    (hdistinct : (config.groupBy ++ (reordered config).map flatName).Nodup) :
    config.groupBy ++ (reordered config).map flatName =
      D.names (config.groupBy ++ outputNames config) ↔
        (reordered config).map flatName = outputNames config := by
  constructor
  · intro h
    have hrepeated := D.names_repeated (config.groupBy ++ outputNames config)
    rw [← h] at hrepeated
    have hdrop := List.forall₂_drop config.groupBy.length hrepeated
    rw [List.drop_left, List.drop_left] at hdrop
    exact names_of_repeated hdrop
  · intro h
    rw [h] at hdistinct ⊢
    exact (D.names_distinct _ hdistinct).symm

end Names

/-! ### The values -/

section Values

variable {isna A} {cells : List (Option α)}

theorem filterMap_eq_nil : cells.filterMap id = [] ↔ ∀ c ∈ cells, c = none :=
  List.filterMap_eq_nil_iff

theorem filter_map_eq (h : NoNan isna cells) :
    cells.map (Option.filter fun v => !isna v) = cells := by
  refine (List.map_congr_left fun c hc => ?_).trans (List.map_id cells)
  cases c with
  | none => rfl
  | some v => simp [Option.filter, h _ hc v rfl]

theorem calculate_eq (h : NoNan isna cells) (function : AggregationFunction) :
    A.calculate function (cells.filterMap id) =
      some (C.calculate function (cells.filterMap id)) := by
  refine A.calculate_eq function _ fun v hv => ?_
  obtain ⟨c, hc, hv⟩ := List.mem_filterMap.mp hv
  exact h c hc v hv

theorem first_iff :
    (cells.filterMap id).head? = cells.head?.join ↔
      (cells.head? = some none → ∀ c ∈ cells, c = none) := by
  cases cells with
  | nil => simp
  | cons c cells =>
    cases c with
    | some v => simp
    | none => simp

theorem last_iff :
    (cells.filterMap id).getLast? = cells.getLast?.join ↔
      (cells.getLast? = some none → ∀ c ∈ cells, c = none) := by
  have h : (cells.reverse.filterMap id).head? = cells.reverse.head?.join ↔
      (cells.reverse.head? = some none → ∀ c ∈ cells.reverse, c = none) := first_iff
  simpa [List.filterMap_reverse, List.head?_reverse] using h

/-- On the same cells the two functions differ only in what they make of nulls. -/
theorem nullsAgree_iff (hnan : NoNan isna cells) (function : AggregationFunction) :
    C.pandasValue function cells = A.value function cells ↔ NullsAgree function cells := by
  cases function with
  | count => exact iff_of_true rfl trivial
  | first => exact first_iff
  | last => exact last_iff
  | sum =>
    simp only [Calculation.pandasValue, Aggregates.value, calculate_eq hnan, NullsAgree,
      filterMap_eq_nil]
    split
    next h => simpa using h
    next h => simpa using h
  | mean | min | max | median | std | var =>
    simp only [Calculation.pandasValue, Aggregates.value, calculate_eq hnan, NullsAgree]

theorem aligned_iff {x y : Text × AggregationFunction} {cells : Text → List (Option α)} :
    Aligned isna A x y cells ↔
      C.pandasValue x.2 ((cells x.1).map (Option.filter fun v => !isna v)) =
        A.value y.2 (cells y.1) := by
  unfold Aligned
  by_cases h : x = y ∧ NoNan isna (cells x.1)
  · obtain ⟨rfl, hnan⟩ := h
    rw [filter_map_eq hnan, nullsAgree_iff hnan]
    simp [hnan]
  · simp [h]

end Values

/-! ### The rows -/

section Rows

variable {isna A} (t : TypedTable α) (config : AggregateStepConfig)

theorem cell_toPandas (r : t.Row) (column : Text) :
    t.cell (toPandas isna r) column = (t.cell r column).filter fun v => !isna v := by
  unfold Table.cell
  cases t.find column <;> rfl

theorem filter_isSome {c : Option α} :
    (c.filter fun v => !isna v).isSome = true ↔ ∃ v ∈ c, isna v = false := by
  cases c with
  | none => simp
  | some v => cases h : isna v <;> simp [Option.filter, h]

variable (isna) in
def present (r : t.Row) : Bool :=
  config.groupBy.all fun column => (t.cell (toPandas isna r) column).isSome

theorem present_iff (r : t.Row) : present isna t config r = true ↔
    ∀ column ∈ config.groupBy, ∃ v ∈ t.cell r column, isna v = false := by
  simp only [present, List.all_eq_true, cell_toPandas, filter_isSome]

variable [DecidableEq α]

/-- The groups of pandas are groups of the rows without a null key. -/
theorem groupRows_eq (es : List (Text × AggregationFunction)) :
    groupRows isna t C config.groupBy es =
      Groups.groupBy (fun r : t.Row => config.groupBy.map (t.cell r))
        (fun rows => es.map fun e => C.pandasValue e.2
          ((rows.map fun r => t.cell r e.1).map (Option.filter fun v => !isna v)))
        (t.rows.filter (present isna t config)) := by
  rw [groupRows, List.filter_map,
    Groups.groupBy_map fun r : t.Row => config.groupBy.map (t.cell r)]
  · congr 1
    funext rows
    refine List.map_congr_left fun e _ => ?_
    rw [List.map_map, List.map_map]
    congr 2
    funext r
    exact cell_toPandas t r e.1
  · intro r hr
    have hpresent := (present_iff t config r).mp (List.mem_filter.mp hr).2
    refine List.map_congr_left fun column hc => ?_
    obtain ⟨v, hv, hclean⟩ := hpresent column hc
    rw [cell_toPandas, Option.mem_def.mp hv]
    simp [Option.filter, hclean]

omit [DecidableEq α] in
theorem present_congr {r r' : t.Row}
    (h : config.groupBy.map (t.cell r) = config.groupBy.map (t.cell r')) :
    present isna t config r = present isna t config r' := by
  rw [Bool.eq_iff_iff, present_iff, present_iff]
  have hcells := List.map_inj_left.mp h
  exact forall₂_congr fun column hc => by rw [hcells column hc]

theorem map_eq_map_iff {β γ δ : Type} {f : β → δ} {g : γ → δ} {xs : List β} {ys : List γ}
    (h : xs.length = ys.length) :
    xs.map f = ys.map g ↔ ∀ p ∈ xs.zip ys, f p.1 = g p.2 := by
  induction xs generalizing ys with
  | nil => cases ys <;> simp_all
  | cons x xs ih =>
    cases ys with
    | nil => simp at h
    | cons y ys => simp [ih (Nat.succ.inj h)]

theorem rows_iff (hgrouped : config.groupBy ≠ []) :
    ((groupRows isna t C config.groupBy (reordered config)).map fun e => e.1 ++ e.2).Perm
        ((queryRows A t config).map fun e => e.1 ++ e.2) ↔
      KeysPresent isna t config ∧ ∀ r ∈ t.rows, ∀ p ∈ (reordered config).zip (pairs config),
        Aligned isna A p.1 p.2 (groupCells t config r) := by
  have hlength : ∀ {f : List t.Row → List (Option α)} {rows : List t.Row},
      ∀ p ∈ Groups.groupBy (fun r : t.Row => config.groupBy.map (t.cell r)) f rows,
        p.1.length = config.groupBy.length := by
    intro f rows p hp
    obtain ⟨k, hk, rfl⟩ := List.mem_map.mp hp
    obtain ⟨r, -, rfl⟩ := Groups.mem_keys.mp hk
    exact List.length_map _
  have hquery : queryRows A t config =
      Groups.groupBy (fun r : t.Row => config.groupBy.map (t.cell r))
        (fun rows => (pairs config).map fun e => A.value e.2 (rows.map fun r => t.cell r e.1))
        t.rows := by
    rw [queryRows, if_neg hgrouped]
    simp only [pairs, List.map_map]
    rfl
  have hpresent : (∀ r ∈ t.rows, present isna t config r = true) ↔ KeysPresent isna t config :=
    forall₂_congr fun r _ => present_iff t config r
  rw [groupRows_eq, hquery, append_perm_iff hlength hlength, Groups.groupBy_perm_iff,
    Groups.keys_filter_perm_iff fun r r' => present_congr t config, hpresent]
  refine and_congr_right fun hkeys => ?_
  rw [List.filter_eq_self.mpr (hpresent.mpr hkeys)]
  have hzip : (reordered config).length = (pairs config).length := (reordered_perm config).length_eq
  simp only [Groups.mem_keys, forall_exists_index, and_imp, forall_apply_eq_imp_iff₂,
    map_eq_map_iff hzip, aligned_iff, groupCells]

end Rows

/-! ### The step -/

section Step

variable [DecidableEq α] {isna A} {t : TypedTable α} {config : AggregateStepConfig} {D : Duckdb}

theorem executeAggregate_eq_duckdbAggregate_iff :
    (executeAggregate isna t C config).toOption = duckdbAggregate A t config D ↔
      AggregateAgrees isna A t config := by
  classical
  rw [executeAggregate_toOption, duckdbAggregate_eq, AggregateAgrees]
  by_cases hpandas : PandasRuns t config
  · by_cases hduckdb : DuckdbRuns isna A t config
    · rw [if_pos hpandas, if_pos hduckdb, Option.some.injEq, Result.mk.injEq, Multiset.coe_eq_coe,
        names_iff D ((columns_nodup config).mpr hpandas.distinct),
        rows_iff t config hpandas.grouped]
      constructor
      · rintro ⟨hnames, hkeys, hvalues⟩
        exact ⟨iff_of_true hpandas hduckdb, fun _ => ⟨hnames, hkeys, hvalues⟩⟩
      · rintro ⟨-, hsame⟩
        obtain ⟨hnames, hkeys, hvalues⟩ := hsame hpandas
        exact ⟨hnames, hkeys, hvalues⟩
    · simp [hpandas, hduckdb]
  · by_cases hduckdb : DuckdbRuns isna A t config
    · simp [hpandas, hduckdb]
    · simp [hpandas, hduckdb]

end Step

/-- Functions that agree with the real ones on one number. -/
def totals : Calculation Nat := ⟨id, fun _ values => values.sum⟩

def totalsInDuckdb : Aggregates (fun _ => false) totals where
  binds _ _ := true
  calculate _ values := some values.sum
  calculate_eq _ _ _ := rfl

/-- A table whose only row has no key. -/
def unkeyedRow : TypedTable Nat where
  width := 2
  columns := ![['k'], ['v']]
  distinct := by simp [Function.Injective, Fin.forall_fin_two]
  rows := [![none, some 5]]
  types := ![.int, .int]

end PipelineIQ.Execution.AggregateRouting
