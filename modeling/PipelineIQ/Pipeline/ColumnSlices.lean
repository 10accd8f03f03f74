import PipelineIQ.Execution.AggregateRouting
import PipelineIQ.Execution.SortRouting
import PipelineIQ.Pipeline.ColumnFlow
import PipelineIQ.Pipeline.FillNullsStep
import PipelineIQ.Pipeline.SampleStep

namespace PipelineIQ.Pipeline.ColumnSlices

open PipelineIQ.Lib PipelineIQ.Lib.Strings PipelineIQ.Lib.Traverse
open PipelineIQ.Lib.SortKeys PipelineIQ.Services.PipelineValidation
open PipelineIQ.Pipeline.ColumnFlow
open PipelineIQ.Pipeline.Steps (Table TypedTable Result suffixed)
open PipelineIQ.Pipeline.Frames (FrameError Reading)

variable {α ε ρ : Type}

/-! ### Executors and their columns -/

/-- An executor that does to its columns what `onColumns` says: it returns a table only with the
columns of the slice, and it names the first column that is looked for and missing. -/
structure Sliced (result : Except ε ρ) (columns : ρ → List Text) (notFound : Text → ε)
    (names : List Text) (config : Config) : Prop where
  returned : ∀ r, result = .ok r → onColumns false [] names config = .ok (columns r)
  missing : ∀ column, (validated config).find? (· ∉ names) = some column →
    result = .error (notFound column)

theorem forM_found {names requested : List Text} (h : ∀ c ∈ requested, c ∈ names) :
    requested.forM (ColumnFlow.validateColumnExists names) = .ok () := by
  induction requested with
  | nil => rfl
  | cons c requested ih =>
    rw [List.forall_mem_cons] at h
    change (ColumnFlow.validateColumnExists names c >>= fun _ => _) = _
    rw [ColumnFlow.validateColumnExists, if_pos h.1]
    exact ih h.2

theorem onColumns_of_found {names unread : List Text} {config : Config} {fails : Bool}
    (h : ∀ c ∈ validated config, c ∈ names) :
    onColumns fails unread names config = finish fails (returnedColumns unread names config) := by
  rw [onColumns, forM_found h]
  rfl

/-- Checks of columns fail at the first one that is missing. -/
theorem forM_missing {check : Text → Except ε Unit} {notFound : Text → ε} {names : List Text}
    (hcheck : ∀ c, check c = if c ∈ names then .ok () else .error (notFound c))
    {requested : List Text} {column : Text}
    (h : requested.find? (· ∉ names) = some column) :
    requested.forM check = .error (notFound column) := by
  induction requested with
  | nil => cases h
  | cons c requested ih =>
    change (check c >>= fun _ => _) = _
    rw [hcheck]
    by_cases hc : c ∈ names
    · rw [if_pos hc]
      rw [List.find?_cons_of_neg (by simpa using hc)] at h
      exact ih h
    · rw [List.find?_cons_of_pos (by simpa using hc), Option.some.injEq] at h
      rw [if_neg hc, h]
      rfl

theorem checks_frame (t : Table α) (c : Text) : Frames.validateColumnExists t c =
    if c ∈ t.names then .ok () else .error (.columnNotFound c t.names) := rfl

/-- An executor that looks for its columns first. -/
theorem sliced_of_checked {t : Table α} {config : Config} {columns : ρ → List Text}
    {result : Except FrameError ρ} {work : Except FrameError ρ}
    (hresult : result = ((validated config).forM (Frames.validateColumnExists t) >>= fun _ => work))
    (h : ∀ r, work = .ok r → returnedColumns [] t.names config = some (columns r)) :
    Sliced result columns (.columnNotFound · t.names) t.names config := by
  refine ⟨fun r hr => ?_, fun column hcolumn => ?_⟩
  · obtain ⟨u, hchecks, hwork⟩ := bind_ok (hresult ▸ hr)
    rw [onColumns_of_found (Frames.forM_validate.mp hchecks), h r hwork]
    rfl
  · rw [hresult, forM_missing (checks_frame t) hcolumn]
    rfl

/-! ### The executors -/

theorem executeSort_sliced [LinearOrder α] (R : Reading α) (S : Sorter) (t : Table α)
    (config : Execution.SortRouting.SortStepConfig) :
    Sliced (Execution.SortRouting.executeSort R S t config) Execution.SortRouting.Ordered.columns
      (.columnNotFound · t.names) t.names (.sort config.by'.toList) := by
  refine sliced_of_checked rfl fun r hr => ?_
  split at hr
  · cases hr
  · cases hr
    rfl

theorem executeDeduplicate_sliced [DecidableEq α] (R : Reading α) (t : Table α)
    (config : Frames.DeduplicateStepConfig) :
    Sliced (Frames.executeDeduplicate R t config) Result.columns (.columnNotFound · t.names) t.names
      (.deduplicate (config.subset.getD [])) := by
  refine sliced_of_checked rfl fun r hr => ?_
  obtain ⟨rows, -, hrows⟩ := bind_ok hr
  cases hrows
  rfl

theorem executeUnpivot_sliced (R : Reading α) (K : Frames.Concat α) (text : Text → α)
    (t : TypedTable α) (config : Frames.UnpivotStepConfig) :
    Sliced (Frames.executeUnpivot R K text t config) Result.columns (.columnNotFound · t.names)
      t.names (.unpivot config.idVars config.valueVars config.varName config.valueName) := by
  refine sliced_of_checked rfl fun r hr => ?_
  dsimp only at hr
  split at hr
  · cases hr
  · next hoverlap =>
    have hdisjoint : ¬ config.idVars.any (· ∈ config.valueVars) = true := by
      intro hany
      obtain ⟨c, hc, hmem⟩ := List.any_eq_true.mp hany
      exact hoverlap (List.ne_nil_of_mem (List.mem_filter.mpr ⟨hc, hmem⟩))
    change Frames.melt R K text t config = .ok r at hr
    rw [Frames.melt] at hr
    split at hr
    · cases hr
    · next hvalue =>
      split at hr
      · cases hr
      · split at hr
        · next hnodup =>
          split at hr
          · cases hr
            rw [returnedColumns, if_neg (not_or.mpr ⟨hdisjoint, hvalue⟩), distinct, if_pos hnodup]
          · cases hr
        · cases hr

theorem executeFillNulls_sliced [DecidableEq α] {R : Reading α} (F : FillNullsStep.Fillers R)
    (t : TypedTable α) (config : FillNullsStep.FillNullsStepConfig) :
    Sliced (FillNullsStep.executeFillNulls F t config) (List.map Prod.fst)
      (.columnNotFound · t.names) t.names (.fillNulls config.columns) := by
  refine sliced_of_checked rfl fun r hr => ?_
  obtain ⟨frame, -, hframe⟩ := bind_ok hr
  cases hframe
  rw [List.map_map]
  rfl

/-- The size of a sample is what validation has checked before. -/
theorem executeSample_sliced [LinearOrder α] (S : SampleStep.Sampler α) (R : Reading α)
    (t : Table α) (config : SampleStep.SampleStepConfig)
    (hsize : ¬ (config.n = none ∧ config.fraction = none))
    (hone : ¬ (config.n ≠ none ∧ config.fraction ≠ none)) :
    Sliced (SampleStep.executeSample S R t config) Result.columns (.columnNotFound · t.names)
      t.names (.sample (config.stratifyBy.getD [])) := by
  have hstratum : config.stratum.forM (Frames.validateColumnExists t) =
      (validated (.sample (config.stratifyBy.getD []))).forM (Frames.validateColumnExists t) := by
    rw [SampleStep.SampleStepConfig.stratum, validated]
    cases config.stratifyBy with
    | none => rfl
    | some column =>
      rw [Option.getD_some]
      by_cases hempty : column = []
      · rw [if_pos hempty, hempty]
        rfl
      · rw [if_neg hempty, Option.filter_some_pos (by simpa using hempty)]
        exact (bind_pure _).symm
  have hresult : SampleStep.executeSample S R t config =
      ((validated (.sample (config.stratifyBy.getD []))).forM (Frames.validateColumnExists t) >>=
        fun _ => SampleStep.sampledRows S R t config >>= fun rows =>
          pure (Frames.fromPandas t rows)) := by
    rw [← hstratum, SampleStep.executeSample, if_neg hsize, if_neg hone]
  refine sliced_of_checked hresult fun r hr => ?_
  obtain ⟨rows, -, hrows⟩ := bind_ok hr
  cases hrows
  rfl

/-! ### Filter -/

def filterNames (t : Filter.Table) : List Text := (List.finRange t.width).map fun i => (t.columns i).1

theorem executeFilter_sliced (py : Filter.Python) (P : Filter.Pandas) (t : Filter.Table)
    (config : Filter.FilterStepConfig) :
    Sliced (Filter.executeFilter py P t config) (fun _ => filterNames t)
      (fun _ => Filter.FilterError.columnNotFound) (filterNames t) (.filter config.column) := by
  have hfind : t.find config.column = none ↔ config.column ∉ filterNames t := by
    rw [Filter.Table.find, List.find?_eq_none, filterNames, List.mem_map, not_exists]
    simp only [List.mem_finRange, true_and, beq_iff_eq, true_implies]
  refine ⟨fun r hr => ?_, fun column hcolumn => ?_⟩
  · have hfound : config.column ∈ filterNames t := by
      by_contra hmissing
      rw [Filter.executeFilter, hfind.mpr hmissing] at hr
      cases hr
    rw [onColumns_of_found (by simpa only [validated, List.forall_mem_singleton] using hfound)]
    rfl
  · have hmissing := List.find?_some hcolumn
    rw [validated, List.find?_singleton] at hcolumn
    split at hcolumn
    · next hnot =>
      rw [Filter.executeFilter, hfind.mpr (by simpa using hnot)]
    · cases hcolumn

/-! ### Aggregate -/

section Aggregate

open PipelineIQ.Pipeline.Steps (AggregateStepConfig AggregationFunction AggregateError Calculation)

def spelled (e : Text × AggregationFunction) : Text × Text := (e.1, e.2.value.toList)

/-- The step as the runner has it, with the functions as texts. -/
def aggregateConfig (config : AggregateStepConfig) : Config :=
  .aggregate config.groupBy
    (config.aggregations.map fun agg => spelled (agg.column, agg.function))

theorem assign_map {K V W : Type} [DecidableEq K] (f : V → W) (k : K) (v : V)
    (entries : List (K × V)) :
    (Dict.assign k v entries).map (fun e => (e.1, f e.2)) =
      Dict.assign k (f v) (entries.map fun e => (e.1, f e.2)) := by
  induction entries with
  | nil => rfl
  | cons e entries ih =>
    obtain ⟨a, w⟩ := e
    rw [Dict.assign, List.map_cons, Dict.assign]
    by_cases ha : a = k
    · rw [if_pos ha, if_pos ha, List.map_cons]
    · rw [if_neg ha, if_neg ha, List.map_cons, ih]

theorem find_map {K V W : Type} [DecidableEq K] (f : V → W) (k : K) (entries : List (K × V)) :
    Dict.find k (entries.map fun e => (e.1, f e.2)) = (Dict.find k entries).map f := by
  induction entries with
  | nil => rfl
  | cons e entries ih =>
    obtain ⟨a, w⟩ := e
    rw [List.map_cons, Dict.find, Dict.find, ih]
    split <;> rfl

/-- Spelling the functions out keeps the order of the dictionary. -/
theorem pairs_spelled (config : AggregateStepConfig) :
    Dict.pairs (ColumnFlow.aggDict (config.aggregations.map fun agg =>
      spelled (agg.column, agg.function))).entries =
        (Execution.AggregateRouting.reordered config).map spelled := by
  have hentries : ∀ (aggregations : List Steps.Aggregation) (d : Steps.AggDict)
      (d' : Dict Text (List Text)),
      d'.entries = d.entries.map (fun e => (e.1, e.2.map fun f => f.value.toList)) →
      ((aggregations.map fun agg => spelled (agg.column, agg.function)).foldl
        (fun d a => d.push a.1 a.2) d').entries =
        (aggregations.foldl (fun d agg => d.push agg.column agg.function) d).entries.map
          fun e => (e.1, e.2.map fun f => f.value.toList) := by
    intro aggregations
    induction aggregations with
    | nil => exact fun d d' h => h
    | cons agg aggregations ih =>
      intro d d' h
      rw [List.map_cons, List.foldl_cons, List.foldl_cons]
      apply ih
      have hget : d'.get? agg.column =
          (d.get? agg.column).map (List.map fun f => f.value.toList) := by
        rw [Dict.get?, h, find_map]
        rfl
      change Dict.assign agg.column ((d'.get? agg.column).getD [] ++ _) d'.entries =
        (Dict.assign agg.column ((d.get? agg.column).getD [] ++ [agg.function]) d.entries).map _
      rw [assign_map (List.map fun f : AggregationFunction => f.value.toList), h, hget]
      cases d.get? agg.column with
      | none => rfl
      | some functions => rw [Option.map_some, Option.getD_some, Option.getD_some, List.map_append]; rfl
  rw [ColumnFlow.aggDict, hentries config.aggregations ∅ ∅ rfl, Dict.pairs, List.flatMap_map,
    Execution.AggregateRouting.reordered, Dict.pairs, List.map_flatMap]
  refine List.flatMap_congr fun e _ => ?_
  rw [List.map_map, List.map_map]
  rfl

theorem checks_group (t : TypedTable α) (c : Text) : Steps.validateColumnExists t c =
    if c ∈ t.names then .ok () else .error (.columnNotFound c t.names) := rfl

theorem aggregationChecks_missing {t : TypedTable α} {aggregations : List Steps.Aggregation}
    {column : Text} (d : Steps.AggDict)
    (h : (aggregations.map Steps.Aggregation.column).find? (· ∉ t.names) = some column) :
    (aggregations.foldlM (fun aggDict agg => do
      Steps.validateColumnExists t agg.column
      pure (aggDict.push agg.column agg.function)) d : Except AggregateError _) =
        .error (.columnNotFound column t.names) := by
  induction aggregations generalizing d with
  | nil => cases h
  | cons agg aggregations ih =>
    rw [List.foldlM_cons, Steps.validateColumnExists]
    by_cases hc : agg.column ∈ t.names
    · rw [if_pos hc]
      rw [List.map_cons, List.find?_cons_of_neg (by simpa using hc)] at h
      exact ih _ h
    · rw [List.map_cons, List.find?_cons_of_pos (by simpa using hc), Option.some.injEq] at h
      rw [if_neg hc, h]
      rfl

theorem executeAggregate_sliced [DecidableEq α] (isna : α → Bool) (C : Calculation α)
    (t : TypedTable α) (config : AggregateStepConfig) :
    Sliced (Steps.executeAggregate isna t C config) Result.columns (.columnNotFound · t.names)
      t.names (aggregateConfig config) := by
  refine ⟨fun r hr => ?_, fun column hcolumn => ?_⟩
  · have hsome := Execution.AggregateRouting.executeAggregate_toOption isna t (C := C) config
    rw [hr] at hsome
    split at hsome
    · next hruns =>
      cases hsome
      rw [onColumns_of_found, aggregateConfig, returnedColumns, if_neg, pairs_spelled,
        List.map_map]
      · have hflat : flatColumn ∘ spelled = Steps.flatName := rfl
        rw [hflat, distinct, if_pos ((Execution.AggregateRouting.columns_nodup config).mpr
          hruns.distinct)]
        rfl
      · rw [List.map_eq_nil_iff, not_or]
        exact ⟨hruns.grouped, hruns.aggregated⟩
      · intro c hc
        obtain hc | hc := List.mem_append.mp hc
        · exact hruns.groupColumns c hc
        · rw [List.map_map] at hc
          obtain ⟨agg, hagg, rfl⟩ := List.mem_map.mp hc
          exact hruns.columns agg hagg
    · cases hsome
  · rw [aggregateConfig, validated, List.find?_append, List.map_map] at hcolumn
    rw [Steps.executeAggregate]
    cases hgroup : config.groupBy.find? (· ∉ t.names) with
    | some c =>
      rw [hgroup] at hcolumn
      cases hcolumn
      rw [forM_missing (checks_group t) hgroup]
      rfl
    | none =>
      rw [hgroup, Option.none_or] at hcolumn
      have hchecks : config.groupBy.forM (Steps.validateColumnExists t) = .ok () := by
        have hsome := Execution.AggregateRouting.validateColumns t config.groupBy
        rw [if_pos (by simpa using hgroup)] at hsome
        cases hforM : config.groupBy.forM (Steps.validateColumnExists t) with
        | ok u => rfl
        | error e =>
          rw [hforM] at hsome
          cases hsome
      rw [hchecks]
      change (Steps.buildAggregationDict t config >>= _) = _
      rw [Steps.buildAggregationDict, aggregationChecks_missing ∅ hcolumn]
      rfl

end Aggregate

/-! ### Join -/

theorem others_eq (t : Table α) (key : Fin t.width) :
    (t.others key).map t.columns = t.names.filter (· ≠ t.columns key) := by
  rw [Table.others, Table.names, List.filter_map]
  congr 1
  refine List.filter_congr fun i _ => ?_
  rw [Function.comp_apply, decide_eq_decide, ne_eq, ne_eq, t.distinct.eq_iff]

theorem find_eq_none {t : Table α} {name : Text} : t.find name = none ↔ name ∉ t.names := by
  rw [Table.find, List.find?_eq_none, Table.names, List.mem_map, not_exists]
  simp only [List.mem_finRange, true_and, beq_iff_eq, true_implies]

/-- A join does to its columns what `onJoin` says. -/
theorem executeJoin_sliced [DecidableEq α] (isna : α → Bool) (left right : Table α)
    (config : Steps.JoinStepConfig) :
    (∀ r, Steps.executeJoin isna left right config = .ok r →
      onJoin false config.on left.names right.names = .ok r.columns) ∧
    ∀ joinKey side columns, onJoin false config.on left.names right.names =
        .error (.keyMissing joinKey side columns) →
      Steps.executeJoin isna left right config = .error (.keyMissing joinKey side columns) := by
  rw [Steps.executeJoin, onJoin, Steps.validateJoinKey, validateJoinKey]
  cases hleft : left.find config.on with
  | none =>
    rw [if_neg (find_eq_none.mp hleft)]
    refine ⟨fun r hr => (by cases hr), fun joinKey side columns h => ?_⟩
    cases h
    rfl
  | some leftKey =>
    have hleftName := Table.find_eq_some.mp hleft
    rw [if_pos (hleftName ▸ List.mem_map_of_mem (List.mem_finRange leftKey))]
    rw [Steps.validateJoinKey, validateJoinKey]
    cases hright : right.find config.on with
    | none =>
      rw [if_neg (find_eq_none.mp hright)]
      refine ⟨fun r hr => (by cases hr), fun joinKey side columns h => ?_⟩
      cases h
      rfl
    | some rightKey =>
      have hrightName := Table.find_eq_some.mp hright
      have hcolumns : Steps.mergedColumns left right rightKey =
          joinedColumns config.on left.names right.names := by
        rw [Steps.mergedColumns, others_eq, hrightName]
        rfl
      rw [if_pos (hrightName ▸ List.mem_map_of_mem (List.mem_finRange rightKey))]
      refine ⟨fun r hr => ?_, fun joinKey side columns h => ?_⟩
      · change (if (Steps.mergedColumns left right rightKey).Nodup then _ else _) = _ at hr
        rw [hcolumns] at hr
        change finish false (distinct (joinedColumns config.on left.names right.names)) = _
        rw [distinct]
        split at hr
        · next hnodup =>
          cases hr
          rw [if_pos hnodup]
          rfl
        · cases hr
      · change finish false (distinct (joinedColumns config.on left.names right.names)) = _ at h
        rw [distinct] at h
        split at h <;> cases h

end PipelineIQ.Pipeline.ColumnSlices
