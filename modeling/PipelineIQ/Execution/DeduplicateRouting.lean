import Mathlib.Data.Fin.VecNotation
import PipelineIQ.Execution.QuerySql
import PipelineIQ.Lib.Traverse

namespace PipelineIQ.Execution.DeduplicateRouting

open PipelineIQ.Lib.Strings PipelineIQ.Lib.Duplicates
open PipelineIQ.Lib.SqlReader PipelineIQ.Lib.Traverse PipelineIQ.Pipeline.Frames
open PipelineIQ.Pipeline.Steps (Table Result)
open PipelineIQ.Execution.StepSql (buildDeduplicateSql deduplicateFrame quoteIdentifiers)
open PipelineIQ.Execution.FilterSql PipelineIQ.Execution.QuerySql

/-! ### The query -/

inductive DeduplicateQuery where
  | distinct
  | partitioned (keep : Keep) (columns : List Text)

def keepWord : Keep → String
  | .first => "first"
  | .last => "last"
  | .none => "none"

/-- The texts around the columns of a partition. -/
def keepFrame (keep : Keep) : String × String :=
  (deduplicateFrame (keepWord keep).toList).getD ("", "")

def readPartitioned (sql : Text) (keep : Keep) : Option DeduplicateQuery :=
  (expect (keepFrame keep).1.toList sql).bind fun rest =>
    (readList rest).bind fun read =>
      if read.2 = (keepFrame keep).2.toList then some (.partitioned keep read.1) else none

def readDeduplicate (sql : Text) : Option DeduplicateQuery :=
  if sql = "SELECT DISTINCT * FROM __input__".toList then some .distinct
  else [Keep.first, .last, .none].findSome? (readPartitioned sql)

/-- The names that the query adds and excludes. -/
def ownNames : Keep → List Text
  | .first | .last => ["__rowid__".toList, "__rn".toList]
  | .none => ["__rowid__".toList, "__cnt".toList]

def KeepOption.str : KeepOption → Text
  | .word text => text
  | .bool b => (if b then "True" else "False").toList

/-- What the builder makes of the option. -/
def KeepOption.sql (keep : KeepOption) : Option Keep :=
  let word := lowerCase (KeepOption.str keep)
  if word = "first".toList then some .first
  else if word = "last".toList then some .last
  else if word = "none".toList ∨ word = "false".toList then some .none
  else none

def sqlConfig (config : DeduplicateStepConfig) : StepSql.DeduplicateStepConfig where
  subset := config.subset.getD []
  keep := KeepOption.str config.keep

section Engine

variable {α : Type} [DecidableEq α] (D : Engine α) (t : Table α)

/-- The query on a registered table. -/
def runQuery (sql : Text) : DeduplicateQuery → Option (Result α)
  | .distinct => some ⟨t.names, (t.rows.map (cells t)).dedup⟩
  | .partitioned keep columns =>
    (columns.mapM (lookup t)).bind fun positions =>
      if Shadows t (ownNames keep) then D.shadowed sql (ownNames keep) t
      else some ⟨t.names, (numberOne keep (fun r => positions.map r) t.rows).map (cells t)⟩

/-- A table without columns is not registered. -/
def executeQuery (sql : Text) (query : DeduplicateQuery) : Option (Result α) :=
  if t.width = 0 then none else runQuery D (D.register t) sql query

/-- The deduplicate step in DuckDB. -/
def duckdbDeduplicate (config : DeduplicateStepConfig) : Option (Result α) :=
  (buildDeduplicateSql (sqlConfig config)).bind fun sql =>
    (readDeduplicate sql).bind (executeQuery D t sql)

end Engine

/-! ### What the query says -/

theorem deduplicateFrame_eq (keep : KeepOption) :
    deduplicateFrame (lowerCase (KeepOption.str keep)) = (KeepOption.sql keep).map keepFrame := by
  unfold deduplicateFrame KeepOption.sql
  dsimp only
  split
  · rfl
  · split
    · rfl
    · split <;> rfl

set_option maxRecDepth 4000 in
theorem keepFrame_tail : (keepFrame .last).2.toList ≠ (keepFrame .first).2.toList :=
  toList_ne rfl rfl (by decide)

set_option maxRecDepth 4000 in
theorem expect_head_none {keep : Keep} (h : keep ≠ .none) (rest : Text) :
    expect (keepFrame keep).1.toList ((keepFrame .none).1.toList ++ rest) = none := by
  cases keep with
  | first | last => exact expect_literal_ne rfl rfl 102 (by decide) (by decide) rest
  | none => exact absurd rfl h

set_option maxRecDepth 4000 in
theorem keepFrame_heads (keep : Keep) : (keepFrame keep).1.toList.head? = some 'W' ∧
    (keepFrame keep).2.toList.head? ≠ some '"' ∧ (keepFrame keep).2.toList.head? ≠ some ',' := by
  have htail : (keepFrame keep).2.toList.head? = some (if keep = .none then ')' else ' ') := by
    cases keep <;> exact head_toList rfl
  rw [htail]
  refine ⟨?_, ?_, ?_⟩
  · cases keep <;> exact head_toList rfl
  · cases keep <;> decide
  · cases keep <;> decide

theorem readPartitioned_same (keep : Keep) {columns : List Text} (hne : columns ≠ []) :
    readPartitioned ((keepFrame keep).1.toList ++ (nameList columns ++ (keepFrame keep).2.toList))
      keep = some (.partitioned keep columns) := by
  obtain ⟨-, hquote, hcomma⟩ := keepFrame_heads keep
  rw [readPartitioned, expect_append, Option.bind_some, readList_nameList hne hquote hcomma,
    Option.bind_some, if_pos rfl]

/-- The query with a partition is read back. -/
theorem readDeduplicate_partitioned (keep : Keep) {columns : List Text} (hne : columns ≠ []) :
    readDeduplicate ((keepFrame keep).1.toList ++ (nameList columns ++ (keepFrame keep).2.toList)) =
      some (.partitioned keep columns) := by
  obtain ⟨hhead, hquote, hcomma⟩ := keepFrame_heads keep
  have hdistinct : (keepFrame keep).1.toList ++ (nameList columns ++ (keepFrame keep).2.toList) ≠
      "SELECT DISTINCT * FROM __input__".toList := by
    intro h
    have hW := congrArg List.head? h
    rw [List.head?_append, hhead, Option.some_or] at hW
    exact absurd hW (by decide)
  have hsame := readPartitioned_same keep hne
  rw [readDeduplicate, if_neg hdistinct, List.findSome?_cons]
  cases keep with
  | first => rw [hsame]
  | last =>
    have hfirst : readPartitioned ((keepFrame .last).1.toList ++
        (nameList columns ++ (keepFrame .last).2.toList)) .first = none := by
      rw [readPartitioned, show (keepFrame .last).1 = (keepFrame .first).1 from rfl, expect_append,
        Option.bind_some, readList_nameList hne hquote hcomma, Option.bind_some,
        if_neg keepFrame_tail]
    rw [hfirst, List.findSome?_cons, hsame]
  | none =>
    have hother : ∀ keep, keep ≠ Keep.none → readPartitioned ((keepFrame .none).1.toList ++
        (nameList columns ++ (keepFrame .none).2.toList)) keep = none := by
      intro keep hkeep
      rw [readPartitioned, expect_head_none hkeep, Option.bind_none]
    rw [hother .first (by decide), List.findSome?_cons, hother .last (by decide),
      List.findSome?_cons, hsame]

theorem sql_eq_none_iff {keep : KeepOption} : KeepOption.sql keep = some .none ↔
    lowerCase (KeepOption.str keep) = "none".toList ∨
      lowerCase (KeepOption.str keep) = "false".toList := by
  unfold KeepOption.sql
  dsimp only
  split
  next h => simp [h]
  next =>
    split
    next h => simp [h]
    next => split <;> simp_all

theorem buildDeduplicateSql_eq (config : DeduplicateStepConfig) :
    buildDeduplicateSql (sqlConfig config) =
      if config.subset.getD [] = [] then
        if KeepOption.sql config.keep = some .none then none
        else some "SELECT DISTINCT * FROM __input__".toList
      else if [] ∈ config.subset.getD [] then none
      else (KeepOption.sql config.keep).map fun keep => (keepFrame keep).1.toList ++
        (nameList (config.subset.getD []) ++ (keepFrame keep).2.toList) := by
  unfold buildDeduplicateSql
  simp only [sqlConfig, deduplicateFrame_eq, quoteIdentifiers_eq, ← sql_eq_none_iff]
  split
  · rfl
  · split
    · rfl
    · rw [Option.bind_some, Option.map_map]
      refine congrArg (Option.map · _) (funext fun keep => ?_)
      rw [Function.comp_apply, List.append_assoc, commaJoin_quote]

/-- A mode of pandas is the one that the builder makes of the option. -/
theorem sql_of_pandas {option : KeepOption} {keep : Keep} (h : option.pandas = some keep) :
    KeepOption.sql option = some keep := by
  cases option with
  | word text =>
    simp only [KeepOption.pandas] at h
    split at h
    next ht =>
      cases h
      subst ht
      decide +kernel
    next =>
      split at h
      next ht =>
        cases h
        subst ht
        decide +kernel
      next =>
        split at h
        next ht =>
          cases h
          subst ht
          decide +kernel
        next => cases h
  | bool b =>
    cases b with
    | false =>
      cases h
      decide +kernel
    | true => cases h

/-! ### When the two agree -/

variable {α : Type} (R : Reading α) (D : Engine α) (t : Table α)

/-- A column is missing, or the option is none of pandas and the frame is not empty. -/
def PandasRaises (config : DeduplicateStepConfig) : Prop :=
  (∃ column ∈ config.subset.getD [], column ∉ t.names) ∨
    (t.rows ≠ [] ∧ t.width ≠ 0 ∧ config.keep.pandas = none)

def BuilderRaises (config : DeduplicateStepConfig) : Prop :=
  if config.subset.getD [] = [] then KeepOption.sql config.keep = some .none
  else [] ∈ config.subset.getD [] ∨ KeepOption.sql config.keep = none

/-- The builder raises, or the engine takes no table without columns, finds no column of a name,
or refuses a query whose own names the table has. -/
def DuckdbRaises (config : DeduplicateStepConfig) : Prop :=
  BuilderRaises config ∨ t.width = 0 ∨ config.subset.getD [] ≠ [] ∧
    ((∃ column ∈ config.subset.getD [], lookup (D.register t) column = none) ∨
      ∀ keep ∈ KeepOption.sql config.keep, Shadows (D.register t) (ownNames keep) ∧
        ∀ sql, buildDeduplicateSql (sqlConfig config) = some sql →
          D.shadowed sql (ownNames keep) (D.register t) = none)

/-- Every row that stays by its values in some columns is read as it is, and stays by what is
read. -/
def SurvivorsExact (keep : Keep) (columns : List Text) : Prop :=
  ∀ left r right, t.rows = left ++ r :: right →
    key t columns r ∉ (keep.rivals left right).map (key t columns) →
      R.Exact t r ∧
        key t columns (R.row t r) ∉ (keep.rivals left right).map fun s => key t columns (R.row t s)

def DeduplicateAgrees (config : DeduplicateStepConfig) : Prop :=
  (PandasRaises t config ∧ DuckdbRaises D t config) ∨
    (¬PandasRaises t config ∧ ¬BuilderRaises config ∧ t.width ≠ 0 ∧ CaseDistinct t ∧
      if config.subset.getD [] = [] then ∀ r ∈ t.rows, R.Exact t r
      else ∀ keep ∈ KeepOption.sql config.keep, ¬Shadows t (ownNames keep) ∧
        SurvivorsExact R t keep (config.subset.getD []))

section Raises

variable [DecidableEq α] {R D t} {config : DeduplicateStepConfig}

theorem executeDeduplicate_of_missing (h : ∃ column ∈ config.subset.getD [], column ∉ t.names) :
    (executeDeduplicate R t config).toOption = none := by
  unfold executeDeduplicate
  cases hforM : (config.subset.getD []).forM (validateColumnExists t) with
  | error e => rfl
  | ok u =>
    obtain ⟨column, hc, hmissing⟩ := h
    exact absurd (forM_validate.mp hforM column hc) hmissing

/-- The columns that rows are compared by. -/
def comparedColumns (t : Table α) (config : DeduplicateStepConfig) : List Text :=
  if config.subset.getD [] = [] then t.names else config.subset.getD []

theorem executeDeduplicate_of_found (h : ∀ column ∈ config.subset.getD [], column ∈ t.names) :
    (executeDeduplicate R t config).toOption =
      if t.rows = [] ∨ t.width = 0 then some (fromPandas t (R.frame t))
      else config.keep.pandas.map fun keep => fromPandas t
        (survivors keep (key t (comparedColumns t config)) [] (R.frame t)) := by
  have hcolumns : (if config.subset = some [] then none else config.subset).getD t.names =
      comparedColumns t config := by
    unfold comparedColumns
    cases config.subset with
    | none => rfl
    | some subset => cases subset <;> rfl
  have hempty : ((R.frame t).isEmpty ∨ t.width = 0) ↔ t.rows = [] ∨ t.width = 0 := by
    rw [List.isEmpty_iff, Reading.frame, List.map_eq_nil_iff]
  unfold executeDeduplicate dropDuplicates
  rw [forM_validate.mpr h]
  simp only [bind, Except.bind, hcolumns, hempty, unmarked_duplicated]
  by_cases hrows : t.rows = [] ∨ t.width = 0
  · rw [if_pos hrows, if_pos hrows]
    rfl
  · rw [if_neg hrows, if_neg hrows]
    cases config.keep.pandas <;> rfl

theorem pandas_none_iff :
    (executeDeduplicate R t config).toOption = none ↔ PandasRaises t config := by
  unfold PandasRaises
  by_cases h : ∃ column ∈ config.subset.getD [], column ∉ t.names
  · simp only [executeDeduplicate_of_missing h, h, true_or]
  · have hfound : ∀ column ∈ config.subset.getD [], column ∈ t.names := by
      simpa using h
    rw [executeDeduplicate_of_found hfound, or_iff_right h]
    split
    next hempty =>
      rcases hempty with hempty | hempty <;> simp [hempty]
    next hempty =>
      rw [not_or] at hempty
      simp [hempty]

theorem duckdbDeduplicate_eq : duckdbDeduplicate D t config =
    if config.subset.getD [] = [] then
      if KeepOption.sql config.keep = some .none then none
      else executeQuery D t "SELECT DISTINCT * FROM __input__".toList .distinct
    else if [] ∈ config.subset.getD [] then none
    else (KeepOption.sql config.keep).bind fun keep =>
      (buildDeduplicateSql (sqlConfig config)).bind fun sql =>
        executeQuery D t sql (.partitioned keep (config.subset.getD [])) := by
  unfold duckdbDeduplicate
  rw [buildDeduplicateSql_eq]
  split
  next => split <;> rfl
  next hne =>
    split
    · rfl
    · cases KeepOption.sql config.keep with
      | none => rfl
      | some keep =>
        simp only [Option.map_some, Option.bind_some, readDeduplicate_partitioned keep hne]

theorem duckdb_none_iff : duckdbDeduplicate D t config = none ↔ DuckdbRaises D t config := by
  rw [duckdbDeduplicate_eq]
  unfold DuckdbRaises BuilderRaises
  by_cases hsubset : config.subset.getD [] = []
  · simp only [if_pos hsubset]
    split
    next h => simp [h]
    next h => simp [h, executeQuery, runQuery, hsubset]
  · simp only [if_neg hsubset, buildDeduplicateSql_eq]
    by_cases hempty : [] ∈ config.subset.getD []
    · simp [hempty]
    · cases hkeep : KeepOption.sql config.keep with
      | none => simp
      | some keep =>
        simp only [hempty, hsubset, Option.map_some, Option.bind_some, executeQuery, runQuery,
          reduceCtorEq, or_false, false_or, Option.mem_some, forall_eq', if_false, ne_eq,
          not_false_eq_true, true_and]
        by_cases hwidth : t.width = 0
        · simp [hwidth]
        rw [if_neg hwidth, or_iff_right hwidth]
        by_cases hfound : ∃ column ∈ config.subset.getD [], lookup (D.register t) column = none
        · have hnone : (config.subset.getD []).mapM (lookup (D.register t)) = none := by
            rw [← Option.not_isSome_iff_eq_none, mapM_isSome_iff]
            obtain ⟨column, hc, hmissing⟩ := hfound
            intro hall
            have := hall column hc
            rw [hmissing] at this
            cases this
          simp [hnone, hfound]
        · have hsome : ((config.subset.getD []).mapM (lookup (D.register t))).isSome := by
            rw [mapM_isSome_iff]
            intro column hc
            rw [Option.isSome_iff_ne_none]
            exact fun hmissing => hfound ⟨column, hc, hmissing⟩
          obtain ⟨positions, hpositions⟩ := Option.isSome_iff_exists.mp hsome
          rw [hpositions, Option.bind_some, or_iff_right hfound]
          split
          next hshadows => simp [hshadows]
          next hshadows => simp [hshadows]

end Raises

section Rows

variable [DecidableEq α] {R D t}

theorem distinct_iff {keep : Keep} (h : keep ≠ .none) :
    ((survivors keep (key t t.names) [] (R.frame t)).map (cells t)).Perm
        (t.rows.map (cells t)).dedup ↔ ∀ r ∈ t.rows, R.Exact t r := by
  have hcells : (survivors keep (cells t) [] (R.frame t)).map (cells t) =
      survivors keep id [] ((R.frame t).map (cells t)) := by
    symm
    exact survivors_map (cells t) [] (R.frame t)
  rw [key_names, hcells, (survivors_perm_dedup h _).congr_left]
  constructor
  · intro hperm r hr
    have hmem := hperm.symm.subset (List.mem_dedup.mpr (List.mem_map_of_mem hr))
    obtain ⟨s, hs, hsr⟩ := List.mem_map.mp (List.mem_dedup.mp hmem)
    exact cells_injective hsr ▸ exact_of_mem_frame hs
  · intro hexact
    have hframe : R.frame t = t.rows := (List.map_congr_left hexact).trans (List.map_id _)
    rw [hframe]

theorem partitioned_iff {keep : Keep} {columns : List Text} :
    ((survivors keep (key t columns) [] (R.frame t)).map (cells t)).Perm
        ((survivors keep (key t columns) [] t.rows).map (cells t)) ↔
      SurvivorsExact R t keep columns := by
  rw [List.map_perm_map_iff cells_injective]
  exact survivors_map_perm_iff exact_row fun _ _ => key_row

theorem runQuery_partitioned (hcase : CaseDistinct t) {columns : List Text}
    (hcolumns : ∀ column ∈ columns, column ∈ t.names) (sql : Text) (keep : Keep) :
    runQuery D t sql (.partitioned keep columns) =
      if Shadows t (ownNames keep) then D.shadowed sql (ownNames keep) t
      else some ⟨t.names, (survivors keep (key t columns) [] t.rows).map (cells t)⟩ := by
  obtain ⟨positions, hpositions, hkey⟩ := lookups_eq_some hcase hcolumns
  have hsame : (fun r : t.Row => positions.map r) = key t columns := funext hkey
  rw [runQuery, hpositions, Option.bind_some, numberOne_eq, hsame]

theorem ownNames_undigited (keep : Keep) : Undigited (ownNames keep) :=
  undigited_of (by cases keep <;> decide)

end Rows

section Step

variable {R D t} {config : DeduplicateStepConfig}

/-- The mode of pandas is the builder's. -/
theorem pandas_of_sql (h : ¬PandasRaises t config) (hwidth : t.width ≠ 0) (hrows : t.rows ≠ []) :
    ∃ keep, config.keep.pandas = some keep ∧ KeepOption.sql config.keep = some keep := by
  rw [PandasRaises, not_or] at h
  obtain ⟨keep, hkeep⟩ := Option.ne_none_iff_exists'.mp fun hnone => h.2 ⟨hrows, hwidth, hnone⟩
  exact ⟨keep, hkeep, sql_of_pandas hkeep⟩

variable [DecidableEq α]

theorem pandas_some (h : ¬PandasRaises t config) (hwidth : t.width ≠ 0) {keep : Keep}
    (hkeep : t.rows ≠ [] → config.keep.pandas = some keep) :
    (executeDeduplicate R t config).toOption = some (fromPandas t
      (survivors keep (key t (comparedColumns t config)) [] (R.frame t))) := by
  rw [PandasRaises, not_or] at h
  rw [executeDeduplicate_of_found (by simpa using h.1)]
  by_cases hrows : t.rows = []
  · rw [if_pos (Or.inl hrows), Reading.frame, hrows]
    rfl
  · rw [if_neg (not_or.mpr ⟨hrows, hwidth⟩), hkeep hrows, Option.map_some]

/-- The columns of a result tell whether names were changed. -/
theorem caseDistinct_of_result {sql : Text} {query : DeduplicateQuery}
    {rows : Multiset (List (Option α))}
    (h : executeQuery D t sql query = some ⟨t.names, rows⟩) : CaseDistinct t := by
  unfold executeQuery at h
  split at h
  · cases h
  · cases query with
    | distinct => exact register_names.mp (congrArg Result.columns (Option.some.inj h))
    | partitioned keep columns =>
      obtain ⟨positions, -, h⟩ := Option.bind_eq_some_iff.mp h
      split at h
      next hshadows => exact absurd h (shadowed_ne (ownNames_undigited keep) hshadows)
      next => exact register_names.mp (congrArg Result.columns (Option.some.inj h))

theorem agrees_distinct (h : ¬PandasRaises t config) (hbuilder : ¬BuilderRaises config)
    (hwidth : t.width ≠ 0) (hsubset : config.subset.getD [] = []) :
    (executeDeduplicate R t config).toOption = duckdbDeduplicate D t config ↔
      CaseDistinct t ∧ ∀ r ∈ t.rows, R.Exact t r := by
  rw [BuilderRaises, if_pos hsubset] at hbuilder
  obtain ⟨keep, hkeep, hne⟩ : ∃ keep, (t.rows ≠ [] → config.keep.pandas = some keep) ∧
      keep ≠ .none := by
    by_cases hrows : t.rows = []
    · exact ⟨.first, fun hrows' => absurd hrows hrows', by decide⟩
    · obtain ⟨keep, hpandas, hsql⟩ := pandas_of_sql h hwidth hrows
      exact ⟨keep, fun _ => hpandas, fun hnone => hbuilder (hnone ▸ hsql)⟩
  rw [pandas_some h hwidth hkeep, duckdbDeduplicate_eq, if_pos hsubset, if_neg hbuilder,
    comparedColumns, if_pos hsubset, ← distinct_iff hne]
  constructor
  · intro heq
    have hcase := caseDistinct_of_result heq.symm
    rw [executeQuery, if_neg hwidth, register_eq hcase, runQuery] at heq
    exact ⟨hcase, Multiset.coe_eq_coe.mp (congrArg Result.rows (Option.some.inj heq))⟩
  · rintro ⟨hcase, hperm⟩
    rw [executeQuery, if_neg hwidth, register_eq hcase, runQuery]
    exact congrArg (fun rows => some (Result.mk t.names rows)) (Multiset.coe_eq_coe.mpr hperm)

theorem agrees_partitioned (h : ¬PandasRaises t config) (hbuilder : ¬BuilderRaises config)
    (hwidth : t.width ≠ 0) (hsubset : config.subset.getD [] ≠ []) :
    (executeDeduplicate R t config).toOption = duckdbDeduplicate D t config ↔
      CaseDistinct t ∧ ∀ keep ∈ KeepOption.sql config.keep, ¬Shadows t (ownNames keep) ∧
        SurvivorsExact R t keep (config.subset.getD []) := by
  have hfound : ∀ column ∈ config.subset.getD [], column ∈ t.names := by
    rw [PandasRaises, not_or] at h
    simpa using h.1
  rw [BuilderRaises, if_neg hsubset, not_or] at hbuilder
  obtain ⟨keep, hsql⟩ := Option.ne_none_iff_exists'.mp hbuilder.2
  have hkeep : t.rows ≠ [] → config.keep.pandas = some keep := by
    intro hrows
    obtain ⟨keep', hpandas, hsql'⟩ := pandas_of_sql h hwidth hrows
    rw [hpandas, ← hsql', hsql]
  have hsqltext : buildDeduplicateSql (sqlConfig config) = some ((keepFrame keep).1.toList ++
      (nameList (config.subset.getD []) ++ (keepFrame keep).2.toList)) := by
    rw [buildDeduplicateSql_eq, if_neg hsubset, if_neg hbuilder.1, hsql, Option.map_some]
  rw [pandas_some h hwidth hkeep, duckdbDeduplicate_eq, if_neg hsubset, if_neg hbuilder.1, hsql,
    Option.bind_some, hsqltext, Option.bind_some, comparedColumns, if_neg hsubset]
  simp only [Option.mem_some, forall_eq', ← partitioned_iff]
  constructor
  · intro heq
    have hcase := caseDistinct_of_result heq.symm
    rw [executeQuery, if_neg hwidth, register_eq hcase, runQuery_partitioned hcase hfound] at heq
    split at heq
    next hshadows =>
      obtain ⟨i, hi⟩ := hshadows
      exact absurd hi (D.shadowed_excludes _ _ _ _ heq.symm (t.columns i)
        (List.mem_map_of_mem (List.mem_finRange i)))
    next hshadows =>
      exact ⟨hcase, hshadows, Multiset.coe_eq_coe.mp (congrArg Result.rows (Option.some.inj heq))⟩
  · rintro ⟨hcase, hshadows, hperm⟩
    rw [executeQuery, if_neg hwidth, register_eq hcase, runQuery_partitioned hcase hfound,
      if_neg hshadows]
    exact congrArg (fun rows => some (Result.mk t.names rows)) (Multiset.coe_eq_coe.mpr hperm)

/-- Both engines make the same of a deduplication exactly when both refuse it, or both take it, no
two names differ in case only, no column has a name of the query, and the rows that stay by their
values are the ones that stay by what pandas reads, which is those values. -/
theorem deduplicate_routing_iff (R : Reading α) (D : Engine α) (t : Table α)
    (config : DeduplicateStepConfig) :
    (executeDeduplicate R t config).toOption = duckdbDeduplicate D t config ↔
      DeduplicateAgrees R D t config := by
  unfold DeduplicateAgrees
  by_cases hpandas : PandasRaises t config
  · rw [pandas_none_iff.mpr hpandas, eq_comm, duckdb_none_iff]
    simp only [hpandas, true_and, not_true_eq_false, false_and, or_false]
  · simp only [hpandas, false_and, false_or, not_false_eq_true, true_and]
    have hsome : duckdbDeduplicate D t config = none →
        ¬(executeDeduplicate R t config).toOption = duckdbDeduplicate D t config := by
      intro hnone heq
      exact hpandas (pandas_none_iff.mp (heq.trans hnone))
    by_cases hbuilder : BuilderRaises config
    · have hnone := duckdb_none_iff.mpr (Or.inl hbuilder : DuckdbRaises D t config)
      simp only [hsome hnone, hbuilder, not_true_eq_false, false_and]
    · by_cases hwidth : t.width = 0
      · have hnone := duckdb_none_iff.mpr (Or.inr (Or.inl hwidth) : DuckdbRaises D t config)
        simp only [hsome hnone, hwidth, ne_eq, not_true_eq_false, false_and, and_false]
      · simp only [hbuilder, hwidth, ne_eq, not_false_eq_true, true_and]
        split
        next hsubset => exact agrees_distinct hpandas hbuilder hwidth hsubset
        next hsubset => exact agrees_partitioned hpandas hbuilder hwidth hsubset

end Step

/-- A table of one column. -/
def single (values : List Nat) : Table Nat where
  width := 1
  columns := ![("id".toList)]
  distinct := Function.injective_of_subsingleton _
  rows := values.map fun v => ![some v]

/-- Without a subset pandas keeps the lone rows, and the builder refuses to. -/
theorem keep_none_refused :
    (executeDeduplicate readAsIs (single [1, 1, 2]) ⟨none, .word "none".toList⟩).toOption ≠
      duckdbDeduplicate numbering (single [1, 1, 2]) ⟨none, .word "none".toList⟩ := by
  intro h
  have hrows := congrArg (Option.map fun result => result.rows.card) h
  exact absurd hrows (by decide +kernel)

end PipelineIQ.Execution.DeduplicateRouting
