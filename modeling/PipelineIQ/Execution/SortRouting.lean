import Mathlib.Data.Fin.VecNotation
import PipelineIQ.Execution.QuerySql
import PipelineIQ.Lib.SortKeys
import PipelineIQ.Lib.Traverse
import PipelineIQ.Lib.Yaml

namespace PipelineIQ.Execution.SortRouting

open PipelineIQ.Lib.Strings PipelineIQ.Lib.Sql PipelineIQ.Lib.SqlReader PipelineIQ.Lib.SortKeys
open PipelineIQ.Lib.Traverse PipelineIQ.Pipeline.Frames
open PipelineIQ.Pipeline.Steps (Table)
open PipelineIQ.Execution.StepSql (buildSortSql directions direction)
open PipelineIQ.Execution.FilterSql PipelineIQ.Execution.QuerySql
open PipelineIQ.Lib.Yaml (Node)
open PipelineIQ.Lib.SqlTokens (commaJoin)

/-! ### The step -/

/-- A value that is taken for the list of it. -/
inductive OneOrMany (β : Type) where
  | one (b : β)
  | many (bs : List β)

def OneOrMany.toList {β : Type} : OneOrMany β → List β
  | .one b => [b]
  | .many bs => bs

structure SortStepConfig where
  by' : OneOrMany Text
  order : Text := "asc".toList
  ascending : Option (OneOrMany Node) := none

def byCols (config : SortStepConfig) : List Text :=
  config.by'.toList.filter fun c => strip c ≠ []

/-- The list `ascending` of `sort_values`, `none` where its length is wrong. -/
def pandasDirections (config : SortStepConfig) (count : Nat) : Option (List Bool) :=
  match config.ascending with
  | none => some (List.replicate count (config.order = "asc".toList))
  | some asc =>
    let vals := asc.toList
    let vals := if vals.length = 1 ∧ 1 < count then (List.replicate count vals).flatten else vals
    if vals.length ≠ count then none else some (vals.map (·.truthy))

/-- What a sort yields: the names of the columns, and the rows in their order. -/
structure Ordered (α : Type) where
  columns : List Text
  rows : List (List (Option α))

variable {α : Type} [LinearOrder α]

def executeSort (R : Reading α) (S : Sorter) (t : Table α) (config : SortStepConfig) :
    Except FrameError (Ordered α) := do
  let by' := byCols config
  by'.forM (validateColumnExists t)
  match pandasDirections config by'.length with
  | none => throw (.value "Sort 'ascending' length must match 'by' columns".toList)
  | some ascending =>
    pure ⟨t.names, (S.sort (fun r s => keyLe ascending (key t by' r) (key t by' s))
      (R.frame t)).map (cells t)⟩

/-! ### The query -/

def sqlConfig (config : SortStepConfig) : StepSql.SortStepConfig where
  byColumns := config.by'.toList
  order := config.order
  ascending := config.ascending.map fun asc => asc.toList.map (·.truthy)

def readDirection (text : Text) : Option (Bool × Text) :=
  match expect " ASC".toList text with
  | some rest => some (true, rest)
  | none => (expect " DESC".toList text).map fun rest => (false, rest)

/-- At most so many columns with their directions, up to the end of the query. -/
def readOrdering : Nat → Text → Option (List (Text × Bool))
  | 0, _ => none
  | n + 1, text => (readQuoted '"' text).bind fun r =>
    (readDirection r.2).bind fun d =>
      match d.2 with
      | [] => some [(r.1, d.1)]
      | ',' :: ' ' :: rest => (readOrdering n rest).map fun ordering => (r.1, d.1) :: ordering
      | _ => none

def readSort (sql : Text) : Option (List (Text × Bool)) :=
  (expect "SELECT * FROM __input__ ORDER BY ".toList sql).bind fun rest =>
    readOrdering rest.length rest

/-- The query on a registered table. -/
def runQuery (S : Sorter) (t : Table α) (query : List (Text × Bool)) : Option (Ordered α) :=
  ((query.map Prod.fst).mapM (lookup t)).map fun positions =>
    ⟨t.names, (S.sort (fun r s => keyLe (query.map Prod.snd) (positions.map r) (positions.map s))
      t.rows).map (cells t)⟩

/-- The sort step in DuckDB. -/
def duckdbSort (D : Engine α) (S : Sorter) (t : Table α) (config : SortStepConfig) :
    Option (Ordered α) :=
  (buildSortSql (sqlConfig config)).bind fun sql =>
    (readSort sql).bind (runQuery S (D.register t))

/-! ### What the query says -/

def orderingText (ordering : List (Text × Bool)) : Text :=
  commaJoin (ordering.map fun e => quote '"' e.1 ++ direction e.2)

theorem orderingText_singleton (e : Text × Bool) :
    orderingText [e] = quote '"' e.1 ++ (direction e.2 ++ []) := by
  rw [orderingText, List.map_singleton, commaJoin, List.intercalate_singleton, List.append_nil]

theorem orderingText_cons_cons (e e' : Text × Bool) (ordering : List (Text × Bool)) :
    orderingText (e :: e' :: ordering) =
      quote '"' e.1 ++ (direction e.2 ++ (", ".toList ++ orderingText (e' :: ordering))) := by
  rw [orderingText, List.map_cons, List.map_cons, commaJoin, List.intercalate_cons_cons,
    List.append_assoc, List.append_assoc]
  rfl

theorem readDirection_direction (up : Bool) (rest : Text) :
    readDirection (direction up ++ rest) = some (up, rest) := by
  cases up with
  | true => rw [readDirection, show direction true = " ASC".toList from rfl, expect_append]
  | false =>
    have hother : expect " ASC".toList (" DESC".toList ++ rest) = none := rfl
    rw [readDirection, show direction false = " DESC".toList from rfl, hother, expect_append]
    rfl

theorem head?_direction (up : Bool) (rest : Text) :
    (direction up ++ rest).head? = some ' ' := by
  cases up <;> rfl

theorem readOrdering_orderingText {ordering : List (Text × Bool)} (hne : ordering ≠ []) {n : Nat}
    (hn : ordering.length ≤ n) : readOrdering n (orderingText ordering) = some ordering := by
  induction ordering generalizing n with
  | nil => exact absurd rfl hne
  | cons e ordering ih =>
    obtain ⟨n, rfl⟩ := Nat.exists_eq_succ_of_ne_zero (Nat.ne_zero_of_lt hn)
    have hread : ∀ rest, readQuoted '"' (quote '"' e.1 ++ (direction e.2 ++ rest)) =
        some (e.1, direction e.2 ++ rest) := by
      intro rest
      apply readQuoted_quote
      rw [head?_direction]
      decide
    cases ordering with
    | nil =>
      rw [orderingText_singleton, readOrdering, hread, Option.bind_some, readDirection_direction, Option.bind_some]
    | cons e' ordering =>
      have hrest := ih (List.cons_ne_nil _ _) (Nat.le_of_succ_le_succ hn)
      rw [orderingText_cons_cons, readOrdering, hread, Option.bind_some, readDirection_direction, Option.bind_some]
      simp only [show ", ".toList = [',', ' '] from rfl, List.cons_append, List.nil_append, hrest,
        Option.map_some]

theorem length_le_orderingText (ordering : List (Text × Bool)) :
    ordering.length ≤ (orderingText ordering).length := by
  induction ordering with
  | nil => exact Nat.zero_le _
  | cons e ordering ih =>
    have hquote : 1 ≤ (quote '"' e.1).length := Nat.succ_le_succ (Nat.zero_le _)
    cases ordering with
    | nil =>
      rw [orderingText_singleton, List.length_append, List.length_singleton]
      omega
    | cons e' ordering =>
      rw [orderingText_cons_cons, List.length_append, List.length_append, List.length_append,
        List.length_cons]
      omega

theorem readSort_text {ordering : List (Text × Bool)} (hne : ordering ≠ []) :
    readSort ("SELECT * FROM __input__ ORDER BY ".toList ++ orderingText ordering) =
      some ordering := by
  rw [readSort, expect_append, Option.bind_some]
  exact readOrdering_orderingText hne (length_le_orderingText ordering)

theorem mapM_quote {ordering : List (Text × Bool)} (h : ∀ e ∈ ordering, e.1 ≠ []) :
    (ordering.mapM fun e => (quoteIdentifier e.1).map fun quoted => quoted ++ direction e.2) =
      some (ordering.map fun e => quote '"' e.1 ++ direction e.2) := by
  induction ordering with
  | nil => rfl
  | cons e ordering ih =>
    rw [List.mapM_cons, quoteIdentifier_of_ne (h e List.mem_cons_self),
      ih fun e' he' => h e' (List.mem_cons_of_mem _ he')]
    rfl

/-! ### When the two agree -/

/-- The key that a row of a result has under some of its columns. -/
def outputKey (result : Ordered α) (columns : List Text) (row : List (Option α)) :
    List (Option α) :=
  columns.map fun column => ((result.columns.zip row).find? (·.1 == column)).bind Prod.snd

/-- Both refuse the step, or both yield the same rows with the same keys in the same order. -/
def Same (columns : List Text) : Option (Ordered α) → Option (Ordered α) → Prop
  | none, none => True
  | some a, some b => a.columns = b.columns ∧ a.rows.Perm b.rows ∧
      a.rows.map (outputKey a columns) = b.rows.map (outputKey b columns)
  | _, _ => False

/-- The order is taken for a descending one by pandas, and for an ascending one by the builder. -/
def Opposed (config : SortStepConfig) : Prop :=
  config.ascending = none ∧ config.order ≠ "asc".toList ∧
    lowerCase config.order ≠ "desc".toList

/-- The number of directions is wrong; or no two names differ in case only, all rows are read as
they are, and an order that is neither `asc` nor `desc` puts the rows in the same order when it is
turned round. -/
def SortSafe (R : Reading α) (t : Table α) (config : SortStepConfig) : Prop :=
  let by' := config.by'.toList
  pandasDirections config by'.length = none ∨
    (CaseDistinct t ∧ (∀ r ∈ t.rows, R.Exact t r) ∧
      (Opposed config → ∀ r ∈ t.rows, ∀ s ∈ t.rows,
        keyLe (by'.map fun _ => false) (key t by' r) (key t by' s) = true →
          keyLe (by'.map fun _ => true) (key t by' r) (key t by' s) = true))

section Directions

variable {config : SortStepConfig} {count : Nat}

theorem length_pandasDirections {ups : List Bool} (h : pandasDirections config count = some ups) :
    ups.length = count := by
  rw [pandasDirections] at h
  cases hasc : config.ascending with
  | none =>
    rw [hasc] at h
    rw [← Option.some.inj h, List.length_replicate]
  | some asc =>
    rw [hasc] at h
    dsimp only at h
    generalize (if asc.toList.length = 1 ∧ 1 < count then
      (List.replicate count asc.toList).flatten else asc.toList) = vals at h
    split at h
    · cases h
    · next hlength =>
      rw [← Option.some.inj h, List.length_map]
      exact not_not.mp hlength

/-- Given directions are the same for both. -/
theorem directions_of_given {asc : OneOrMany Node} (h : config.ascending = some asc) :
    directions (sqlConfig config) count = pandasDirections config count := by
  rw [directions, pandasDirections, sqlConfig, h, Option.map_some]
  dsimp only
  rw [List.length_map]
  split
  · next hone =>
    rw [List.length_flatten, List.map_replicate, List.length_flatten, List.map_replicate,
      List.length_map]
    split
    · rfl
    · rw [List.map_flatten, List.map_replicate]
  · rw [List.length_map]

theorem directions_of_order (h : config.ascending = none) :
    pandasDirections config count = some (List.replicate count (decide (config.order = "asc".toList))) ∧
      directions (sqlConfig config) count =
        some (List.replicate count (decide (lowerCase config.order ≠ "desc".toList))) := by
  rw [pandasDirections, directions, sqlConfig, h]
  exact ⟨rfl, rfl⟩

/-- The two have the same directions unless they take the order for different ones. -/
theorem directions_eq (h : ¬ Opposed config) :
    directions (sqlConfig config) count = pandasDirections config count := by
  cases hasc : config.ascending with
  | some asc => exact directions_of_given hasc
  | none =>
    obtain ⟨hpandas, hsql⟩ := @directions_of_order config count hasc
    rw [hpandas, hsql]
    by_cases horder : config.order = "asc".toList
    · rw [horder]
      rfl
    · have hdesc : lowerCase config.order = "desc".toList := by
        by_contra hne
        exact h ⟨hasc, horder, hne⟩
      rw [decide_eq_false horder, decide_eq_false (not_not_intro hdesc)]

theorem directions_of_opposed (h : Opposed config) :
    pandasDirections config count = some (List.replicate count false) ∧
      directions (sqlConfig config) count = some (List.replicate count true) := by
  obtain ⟨hpandas, hsql⟩ := @directions_of_order config count h.1
  rw [hpandas, hsql, decide_eq_false h.2.1, decide_eq_true h.2.2]
  exact ⟨rfl, rfl⟩

theorem length_directions {ups : List Bool} (h : directions (sqlConfig config) count = some ups) :
    ups.length = count := by
  by_cases hopposed : Opposed config
  · rw [(directions_of_opposed hopposed).2] at h
    rw [← Option.some.inj h, List.length_replicate]
  · rw [directions_eq hopposed] at h
    exact length_pandasDirections h

end Directions

section Agreement

variable {R : Reading α} {D : Engine α} {S S' : Sorter} {t : Table α} {config : SortStepConfig}

omit [LinearOrder α] in
theorem frame_perm_iff : (R.frame t).Perm t.rows ↔ ∀ r ∈ t.rows, R.Exact t r := by
  constructor
  · intro h r hr
    exact exact_of_mem_frame (h.symm.subset hr)
  · intro h
    rw [Reading.frame, List.map_congr_left h]
    exact List.Perm.of_eq (List.map_id t.rows)

omit [LinearOrder α] in
theorem outputKey_cells (rows : List (List (Option α))) (columns : List Text) (r : t.Row) :
    outputKey ⟨t.names, rows⟩ columns (cells t r) = key t columns r := by
  apply List.map_congr_left
  intro column _
  rw [Table.names, cells, List.zip_map', List.find?_map, Table.cell, Table.find]
  exact Option.bind_map

section Columns

variable (hby : ∀ c ∈ config.by'.toList, c ∈ t.names ∧ strip c ≠ [])
include hby

omit [LinearOrder α] in
theorem byCols_eq : byCols config = config.by'.toList := by
  rw [byCols, List.filter_eq_self]
  exact fun c hc => decide_eq_true (hby c hc).2

theorem executeSort_eq : (executeSort R S t config).toOption =
    (pandasDirections config config.by'.toList.length).map fun ups =>
      ⟨t.names, (S.sort (fun r s => keyLe ups (key t config.by'.toList r)
        (key t config.by'.toList s)) (R.frame t)).map (cells t)⟩ := by
  have hfound : config.by'.toList.forM (validateColumnExists t) = .ok () :=
    forM_validate.mpr fun c hc => (hby c hc).1
  rw [executeSort, byCols_eq hby, hfound]
  cases pandasDirections config config.by'.toList.length <;> rfl

theorem duckdbSort_eq (hne : config.by'.toList ≠ []) : duckdbSort D S t config =
    (directions (sqlConfig config) config.by'.toList.length).bind fun ups =>
      runQuery S (D.register t) (config.by'.toList.zip ups) := by
  have hnames : ∀ c ∈ config.by'.toList, c ≠ [] := by
    rintro c hc rfl
    exact (hby [] hc).2 rfl
  have hfilter : (sqlConfig config).byColumns.filter (· ≠ []) = config.by'.toList := by
    rw [sqlConfig, List.filter_eq_self]
    exact fun c hc => decide_eq_true (hnames c hc)
  rw [duckdbSort, buildSortSql, hfilter, if_neg hne, Option.bind_assoc]
  cases hups : directions (sqlConfig config) config.by'.toList.length with
  | none => rfl
  | some ups =>
    have hlength := length_directions hups
    have hzip : config.by'.toList.zip ups ≠ [] := by
      intro hnil
      have hzero := congrArg List.length hnil
      rw [List.length_zip, hlength, Nat.min_self] at hzero
      exact hne (List.length_eq_zero_iff.mp hzero)
    rw [Option.bind_some, Option.bind_some,
      mapM_quote fun e he => hnames e.1 (List.of_mem_zip he).1, Option.map_some, Option.bind_some,
      ← orderingText, readSort_text hzip, Option.bind_some]

theorem runQuery_register (hcase : CaseDistinct t) {ups : List Bool}
    (hlength : ups.length = config.by'.toList.length) :
    runQuery S (D.register t) (config.by'.toList.zip ups) =
      some ⟨t.names, (S.sort (fun r s => keyLe ups (key t config.by'.toList r)
        (key t config.by'.toList s)) t.rows).map (cells t)⟩ := by
  obtain ⟨positions, hpositions, hkey⟩ := lookups_eq_some hcase fun c hc => (hby c hc).1
  rw [register_eq hcase, runQuery, List.map_fst_zip hlength.ge, List.map_snd_zip hlength.le,
    hpositions, Option.map_some]
  simp only [hkey]

omit hby in
/-- Rows of two sorts are the same with the same keys when all rows are read as they are and the
directions agree on them. -/
theorem same_sorts_iff {ups ups' : List Bool} (hlength : ups.length = config.by'.toList.length)
    (hlength' : ups'.length = config.by'.toList.length) :
    Same config.by'.toList
        (some ⟨t.names, (S.sort (fun r s => keyLe ups (key t config.by'.toList r)
          (key t config.by'.toList s)) (R.frame t)).map (cells t)⟩)
        (some ⟨t.names, (S'.sort (fun r s => keyLe ups' (key t config.by'.toList r)
          (key t config.by'.toList s)) t.rows).map (cells t)⟩) ↔
      (∀ r ∈ t.rows, R.Exact t r) ∧ ∀ r ∈ t.rows, ∀ s ∈ t.rows,
        keyLe ups (key t config.by'.toList r) (key t config.by'.toList s) = true →
          keyLe ups' (key t config.by'.toList r) (key t config.by'.toList s) = true := by
  have hkeys : ∀ rows : List t.Row, ∀ all, (rows.map (cells t)).map
      (outputKey ⟨t.names, all⟩ config.by'.toList) = rows.map (key t config.by'.toList) := by
    intro rows all
    rw [List.map_map]
    exact List.map_congr_left fun r _ => outputKey_cells all config.by'.toList r
  have hlen : ∀ r : t.Row, (key t config.by'.toList r).length = ups.length := by
    intro r
    rw [key, List.length_map, hlength]
  have hlen' : ∀ r : t.Row, (key t config.by'.toList r).length = ups'.length := by
    intro r
    rw [key, List.length_map, hlength']
  rw [Same, eq_self, true_and, List.map_perm_map_iff cells_injective, hkeys, hkeys,
    (S.perm _ _).congr_left, (S'.perm _ _).congr_right, frame_perm_iff]
  apply and_congr_right
  intro hexact
  have hframe : R.frame t = t.rows := by
    rw [Reading.frame, List.map_congr_left hexact]
    exact List.map_id t.rows
  rw [hframe, S.map_eq_iff S' _ hlen hlen' (List.Perm.refl _)]

omit hby in
theorem exists_directions {ups : List Bool}
    (h : pandasDirections config config.by'.toList.length = some ups) :
    ∃ ups', directions (sqlConfig config) config.by'.toList.length = some ups' ∧
      ((∀ r ∈ t.rows, ∀ s ∈ t.rows,
          keyLe ups (key t config.by'.toList r) (key t config.by'.toList s) = true →
            keyLe ups' (key t config.by'.toList r) (key t config.by'.toList s) = true) ↔
        (Opposed config → ∀ r ∈ t.rows, ∀ s ∈ t.rows,
          keyLe (config.by'.toList.map fun _ => false) (key t config.by'.toList r)
              (key t config.by'.toList s) = true →
            keyLe (config.by'.toList.map fun _ => true) (key t config.by'.toList r)
              (key t config.by'.toList s) = true)) := by
  by_cases hopposed : Opposed config
  · obtain ⟨hpandas, hsql⟩ := @directions_of_opposed config config.by'.toList.length hopposed
    obtain rfl := Option.some.inj (h.symm.trans hpandas)
    refine ⟨_, hsql, ?_⟩
    rw [List.map_const', List.map_const']
    exact ⟨fun halike _ => halike, fun halike => halike hopposed⟩
  · refine ⟨ups, (directions_eq hopposed).trans h, ?_⟩
    exact ⟨fun _ hopposed' => absurd hopposed' hopposed, fun _ _ _ _ _ hle => hle⟩

end Columns

end Agreement

/-- Both engines sort alike, for columns of the table that are not blank, exactly when both refuse
the directions, or no two names differ in case only and pandas reads all rows as they are; an order
other than `asc` and `desc` has to put the rows in the same order when it is turned round. -/
theorem sort_routing_iff (R : Reading α) (D : Engine α) (S S' : Sorter) (t : Table α)
    (config : SortStepConfig) (hne : config.by'.toList ≠ [])
    (hby : ∀ c ∈ config.by'.toList, c ∈ t.names ∧ strip c ≠ []) :
    Same config.by'.toList (executeSort R S t config).toOption (duckdbSort D S' t config) ↔
      SortSafe R t config := by
  rw [executeSort_eq hby, duckdbSort_eq hby hne, SortSafe]
  cases hups : pandasDirections config config.by'.toList.length with
  | none =>
    have hopposed : ¬ Opposed config := by
      intro hopposed
      rw [(directions_of_opposed hopposed).1] at hups
      cases hups
    rw [directions_eq hopposed, hups]
    exact ⟨fun _ => .inl rfl, fun _ => trivial⟩
  | some ups =>
    obtain ⟨ups', hups', halike⟩ := @exists_directions _ _ t _ _ hups
    have hlength := length_pandasDirections hups
    have hlength' := length_directions hups'
    rw [hups', Option.map_some, Option.bind_some, or_iff_right (Option.some_ne_none _), ← halike]
    constructor
    · intro hsame
      cases hrun : runQuery S' (D.register t) (config.by'.toList.zip ups') with
      | none =>
        rw [hrun] at hsame
        exact hsame.elim
      | some result =>
        have hcase : CaseDistinct t := by
          rw [hrun] at hsame
          obtain ⟨positions, -, rfl⟩ := Option.map_eq_some_iff.mp hrun
          exact register_names.mp hsame.1.symm
        rw [runQuery_register hby hcase hlength', same_sorts_iff hlength hlength'] at hsame
        exact ⟨hcase, hsame⟩
    · rintro ⟨hcase, hexact⟩
      rw [runQuery_register hby hcase hlength', same_sorts_iff hlength hlength']
      exact hexact

section Examples

/-- A table of one column. -/
def single {β : Type} (values : List (Option β)) : Table β where
  width := 1
  columns := ![("x".toList)]
  distinct := Function.injective_of_subsingleton _
  rows := values.map fun v => ![v]

theorem caseDistinct_single {β : Type} (values : List (Option β)) : CaseDistinct (single values) := by
  intro i j _
  exact @Subsingleton.elim (Fin 1) _ i j

def descending : SortStepConfig where
  by' := .one "x".toList
  order := "desc".toList

/-- A null and a tie. -/
theorem sort_routing_iff_ties : Same ["x".toList]
    (executeSort readAsIs mergeSorter (single [some 2, none, some 2, some 1]) descending).toOption
    (duckdbSort numbering mergeSorter (single [some 2, none, some 2, some 1]) descending) := by
  apply (sort_routing_iff readAsIs numbering mergeSorter mergeSorter
    (single [some 2, none, some 2, some 1]) descending (List.cons_ne_nil _ _) (by decide)).mpr
  refine .inr ⟨caseDistinct_single _, fun r _ => ?_, fun h => ?_⟩
  · funext i
    exact Option.bind_fun_some (r i)
  · exact absurd h.2.2 (not_not_intro (by decide +kernel))

/-- The greatest value stands for NaN. -/
def readNaN : Reading (WithTop Nat) where
  value _ v := if v = ⊤ then none else some v
  value_value _ v w h := by
    split at h
    · cases h
    · next hv =>
      cases h
      exact if_neg hv

/-- NaN comes last as a null, or first as the greatest number. -/
theorem nan_sorted_apart : ¬ Same ["x".toList]
    (executeSort readNaN mergeSorter (single [some 1, some ⊤]) descending).toOption
    (duckdbSort numbering mergeSorter (single [some 1, some ⊤]) descending) := by
  have hby : ∀ c ∈ descending.by'.toList,
      c ∈ (single [some (1 : WithTop Nat), some ⊤]).names ∧ strip c ≠ [] := by
    decide
  have hpandas : pandasDirections descending 1 = some [false] := by decide +kernel
  have hsql : directions (sqlConfig descending) 1 = some [false] := by decide +kernel
  rw [executeSort_eq hby, duckdbSort_eq hby (List.cons_ne_nil _ _),
    show descending.by'.toList.length = 1 from rfl, hpandas, hsql, Option.map_some,
    Option.bind_some, runQuery_register hby (caseDistinct_single _) rfl]
  intro hsame
  have hexact := ((same_sorts_iff rfl rfl).mp hsame).1 ![some ⊤]
    (List.mem_cons_of_mem _ List.mem_cons_self)
  exact absurd (congrFun hexact (0 : Fin 1)) (by decide)

end Examples

end PipelineIQ.Execution.SortRouting
