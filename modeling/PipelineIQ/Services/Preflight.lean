import PipelineIQ.Pipeline.ColumnFlow
import PipelineIQ.Pipeline.Turns

namespace PipelineIQ.Services.Preflight

open PipelineIQ.Lib PipelineIQ.Lib.Strings PipelineIQ.Lib.Traverse
open PipelineIQ.Services.PipelineValidation PipelineIQ.Pipeline.ColumnFlow
open PipelineIQ.Pipeline.Parser (Python)
open PipelineIQ.Pipeline.Validation (ValidationError)
open PipelineIQ.Pipeline.Runner (State stateBefore stepInputs loopBody)
open PipelineIQ.Pipeline.Eviction PipelineIQ.Pipeline.Turns
open PipelineIQ.Pipeline.Steps (suffixed)

/-! ### Steps whose columns are known before the run -/

/-- The columns after the step do not hang on values, and what it names is what it looks for. -/
def PlainConfig (available : List Text) : Config → Prop
  | .sort by' => ∀ c ∈ by', strip c ≠ []
  | .aggregate _ aggregations => ∀ a ∈ aggregations, a.2 ≠ [] ∧ a.2 ≠ a.1
  | .wasmCompute _ outputColumn => outputColumn ≠ [] ∧ outputColumn ∉ available
  | .pivot _ _ _ | .sql | .transform | .streamConsume => False
  | _ => True

/-- A step of a pipeline with its fields filled, over files that are read as they are registered;
the inputs of a join have only the key in common. -/
def Plain (files : Text → Option (List Text)) (w : Surroundings) (schema : Schema) (step : Step) :
    Prop :=
  match step.config with
  | .load fileId => fileId ≠ [] ∧ ∃ columns, files fileId = some columns ∧
      columns.Perm (w.loaded fileId)
  | .join left right on => left ≠ [] ∧ right ≠ [] ∧ on ≠ [] ∧
      ∀ c ∈ schema.columns left, c ∈ schema.columns right → c = on
  | config => step.input ≠ [] ∧ (∀ e ∈ named config, e.2 ≠ []) ∧
      PlainConfig (schema.columns step.input) config

variable {py : Python} {files : Text → Option (List Text)} {w : Surroundings}
  {schema registry : Schema} {step : Step} {config : Config} {available columns out : List Text}

/-! ### Looking for columns -/

theorem distinct_eq_some : distinct columns = some out ↔ columns.Nodup ∧ columns = out := by
  rw [distinct]
  split
  · next h => rw [Option.some.injEq, and_iff_right h]
  · next h => exact ⟨fun hn => (by cases hn), fun hn => absurd hn.1 h⟩

theorem finish_missing {fails : Bool} {o : Option (List Text)} {e : StepError}
    (h : finish fails o = .error e) : e.missing = false := by
  cases o with
  | none =>
    cases h
    rfl
  | some columns =>
    rw [finish] at h
    split at h
    · cases h
      rfl
    · cases h

theorem finish_ok {fails : Bool} {o : Option (List Text)} (h : finish fails o = .ok out) :
    o = some out := by
  cases o with
  | none => cases h
  | some columns =>
    rw [finish] at h
    split at h
    · cases h
    · cases h
      rfl

/-- A step ends with a missing column exactly where it looks for one that is not there. -/
theorem checks_missing {requested : List Text} {work : Unit → Except StepError (List Text)}
    (hwork : ∀ u e, work u = .error e → e.missing = false) :
    (∃ e, (requested.forM (validateColumnExists columns) >>= work) = .error e ∧
      e.missing = true) ↔ ∃ c ∈ requested, c ∉ columns := by
  induction requested with
  | nil =>
    simp only [List.not_mem_nil, false_and, exists_false, iff_false]
    rintro ⟨e, he, hmissing⟩
    rw [hwork () e he] at hmissing
    cases hmissing
  | cons c requested ih =>
    rw [List.exists_mem_cons_iff]
    change (∃ e, ((validateColumnExists columns c >>= fun _ => _) >>= work) = .error e ∧ _) ↔ _
    rw [validateColumnExists]
    by_cases hc : c ∈ columns
    · rw [if_pos hc, or_iff_right (not_not_intro hc)]
      exact ih
    · rw [if_neg hc]
      exact iff_of_true ⟨_, rfl, rfl⟩ (.inl hc)

theorem checks_ok {requested : List Text} {work : Unit → Except StepError (List Text)}
    (h : (requested.forM (validateColumnExists columns) >>= work) = .ok out) :
    (∀ c ∈ requested, c ∈ columns) ∧ work () = .ok out := by
  induction requested with
  | nil => exact ⟨fun c hc => absurd hc List.not_mem_nil, h⟩
  | cons c requested ih =>
    change ((validateColumnExists columns c >>= fun _ => _) >>= work) = _ at h
    rw [validateColumnExists] at h
    by_cases hc : c ∈ columns
    · rw [if_pos hc] at h
      rw [List.forall_mem_cons, and_assoc]
      exact ⟨hc, ih h⟩
    · rw [if_neg hc] at h
      cases h

/-! ### The columns of a step -/

theorem replace_perm {l : List Text} {a b : Text} (h : a ∈ l) :
    (l.replace a b).Perm (b :: l.erase a) := by
  induction l with
  | nil => cases h
  | cons c l ih =>
    by_cases hc : c = a
    · rw [hc, List.replace_cons_self, List.erase_cons_head]
    · have hmem := (List.mem_cons.mp h).resolve_left (Ne.symm hc)
      rw [List.replace_cons, beq_false_of_ne (Ne.symm hc), List.erase_cons_tail (by simpa using hc)]
      exact ((ih hmem).cons c).trans (.swap b c _)

/-- Renaming in turn takes the old names away and adds the new ones, whatever names they share. -/
theorem renameColumns_perm {entries : List (Text × Text)} (hkeys : (entries.map Prod.fst).Nodup)
    {l kept extra : List Text} (hl : l.Perm (kept ++ extra)) (hkept : kept.Nodup)
    (hold : ∀ e ∈ entries, e.1 ∈ kept) :
    (renameColumns l entries).Perm
      (kept.filter (· ∉ entries.map Prod.fst) ++ (extra ++ entries.map Prod.snd)) := by
  induction entries generalizing l kept extra with
  | nil =>
    simpa only [renameColumns, List.foldl_nil, List.map_nil, List.not_mem_nil, not_false_eq_true,
      decide_true, List.filter_true, List.append_nil] using hl
  | cons e entries ih =>
    rw [List.map_cons, List.nodup_cons] at hkeys
    rw [List.forall_mem_cons] at hold
    have hmem : e.1 ∈ l := hl.mem_iff.mpr (List.mem_append_left extra hold.1)
    have hnext : (l.replace e.1 e.2).Perm (kept.erase e.1 ++ (extra ++ [e.2])) := by
      refine (replace_perm hmem).trans ?_
      rw [← List.append_assoc]
      refine (List.Perm.cons e.2 ?_).trans (List.perm_append_singleton e.2 _).symm
      rw [← List.erase_append_left _ hold.1]
      exact hl.erase e.1
    have hrest := ih hkeys.2 hnext (hkept.erase e.1) (by
      intro e' he'
      rw [hkept.mem_erase_iff]
      exact ⟨fun heq => hkeys.1 (heq ▸ List.mem_map_of_mem he'), hold.2 e' he'⟩)
    rw [renameColumns, List.foldl_cons, if_pos hmem]
    refine hrest.trans (.of_eq ?_)
    rw [hkept.erase_eq_filter, List.filter_filter, List.map_cons, List.map_cons,
      List.append_assoc, List.singleton_append]
    congr 1
    refine List.filter_congr fun c _ => ?_
    rw [Bool.eq_iff_iff, Bool.and_eq_true, decide_eq_true_iff, decide_eq_true_iff, bne_iff_ne,
      List.mem_cons, not_or, and_comm]

/-- Renaming all at once comes to the same columns. -/
theorem renamedColumns_perm {mapping : Dict Text Text} (hcolumns : columns.Nodup)
    (hold : ∀ k ∈ mapping.keys, k ∈ columns) :
    (renamedColumns mapping columns).Perm
      (columns.filter (· ∉ mapping.keys) ++ mapping.entries.map Prod.snd) := by
  have hsplit := (List.filter_append_perm (fun c => decide (c ∈ mapping.keys)) columns).symm
  have hkeys : (columns.filter fun c => decide (c ∈ mapping.keys)).Perm mapping.keys := by
    refine (List.perm_ext_iff_of_nodup (hcolumns.filter _) mapping.nodup).mpr fun c => ?_
    rw [List.mem_filter, decide_eq_true_iff]
    exact and_iff_right_of_imp (hold c)
  have hvalues : mapping.keys.map (fun c => (mapping.get? c).getD c) =
      mapping.entries.map Prod.snd := by
    rw [Dict.keys, List.map_map]
    refine List.map_congr_left fun e he => ?_
    rw [Function.comp_apply, (mapping.get?_eq_some_iff e.1 e.2).mpr he, Option.getD_some]
  have hothers : (columns.filter fun c => !decide (c ∈ mapping.keys)).map
      (fun c => (mapping.get? c).getD c) = columns.filter (· ∉ mapping.keys) := by
    have heq : (columns.filter fun c => !decide (c ∈ mapping.keys)) =
        columns.filter (· ∉ mapping.keys) :=
      List.filter_congr fun c _ => (decide_not).symm
    rw [heq]
    refine (List.map_congr_left fun c hc => ?_).trans (List.map_id _)
    rw [(mapping.get?_eq_none_iff c).mpr (by simpa using (List.mem_filter.mp hc).2)]
    rfl
  have hmap := (hsplit.map fun c => (mapping.get? c).getD c)
  rw [List.map_append, hothers] at hmap
  refine hmap.trans (List.perm_append_comm.trans (List.Perm.append_left _ ?_))
  exact (hkeys.map _).trans (.of_eq hvalues)

theorem aggregated_perm {groupBy : List Text} {aggregations : List (Text × Text)}
    (hgroup : ∀ c ∈ groupBy, c ∈ available)
    (hcolumns : ∀ a ∈ aggregations, a.1 ≠ [] ∧ a.1 ∈ available)
    (hplain : ∀ a ∈ aggregations, a.2 ≠ [] ∧ a.2 ≠ a.1) :
    (groupBy.filter (· ∈ available) ++ aggregations.flatMap (aggregatedColumn available)).Perm
      (groupBy ++ (Dict.pairs (aggDict aggregations).entries).map flatColumn) := by
  have hnames : aggregations.flatMap (aggregatedColumn available) =
      aggregations.map flatColumn := by
    rw [← List.flatMap_singleton' (aggregations.map flatColumn), List.flatMap_map]
    refine List.flatMap_congr fun a ha => ?_
    rw [aggregatedColumn, if_pos ⟨(hcolumns a ha).1, (hplain a ha).1, (hcolumns a ha).2⟩,
      flatColumn, if_pos (hplain a ha).2]
  have hpairs : (Dict.pairs (aggDict aggregations).entries).Perm aggregations := by
    have hpush := Dict.pairs_foldl_push (fun a : Text × Text => a) aggregations ∅
    rw [List.map_id'] at hpush
    exact hpush
  rw [hnames, List.filter_eq_self.mpr (by simpa using hgroup)]
  exact ((hpairs.map flatColumn).symm).append_left groupBy

/-- Two inputs with only the key in common are put side by side. -/
theorem mergedColumns_eq {left right : List Text} {joinKey : Text} (hright : right.Nodup)
    (hcommon : ∀ c ∈ right, c ∈ left → c = joinKey) :
    mergedColumns left right joinKey = left ++ right.filter (· ≠ joinKey) := by
  rw [mergedColumns]
  induction right generalizing left with
  | nil => rw [List.foldl_nil, List.filter_nil, List.append_nil]
  | cons c right ih =>
    rw [List.nodup_cons] at hright
    rw [List.forall_mem_cons] at hcommon
    rw [List.foldl_cons]
    by_cases hc : c = joinKey
    · rw [if_neg fun h => h.2 hc, List.filter_cons_of_neg (by simpa using hc)]
      exact ih hright.2 hcommon.2
    · rw [if_pos ⟨fun hmem => hc (hcommon.1 hmem), hc⟩, List.filter_cons_of_pos (by simpa using hc),
        ih hright.2, List.append_assoc, List.singleton_append]
      intro d hd hmem
      obtain hmem | hmem := List.mem_append.mp hmem
      · exact hcommon.2 d hd hmem
      · rw [List.mem_singleton.mp hmem] at hd
        exact absurd hd hright.1

theorem joinedColumns_eq {left right : List Text} {joinKey : Text}
    (hcommon : ∀ c ∈ right, c ∈ left → c = joinKey) :
    joinedColumns joinKey left right = left ++ right.filter (· ≠ joinKey) := by
  rw [joinedColumns]
  congr 1
  · refine (List.map_congr_left fun c hc => ?_).trans (List.map_id left)
    rw [suffixed, if_neg]
    · rfl
    · intro hmem
      rw [List.mem_filter, decide_eq_true_iff] at hmem
      exact hmem.2 (hcommon c hmem.1 hc)
  · refine (List.map_congr_left fun c hc => ?_).trans (List.map_id _)
    rw [List.mem_filter, decide_eq_true_iff] at hc
    rw [suffixed, if_neg fun hmem => hc.2 (hcommon c hc.1 hmem)]
    rfl

/-! ### One step -/

/-- What the simulation checks of a step with one input, without the columns of rules. -/
def checked (config : Config) : List Text :=
  ((named config).filter fun e => e.1 ≠ "rules.column").map Prod.snd

theorem columns_of_field (field : String) (h : field ≠ "rules.column") (cs : List Text) :
    ((cs.map (field, ·)).filter fun e => e.1 ≠ "rules.column").map Prod.snd = cs := by
  rw [List.filter_eq_self.mpr, List.map_map]
  · exact List.map_id cs
  · intro e he
    obtain ⟨c, -, rfl⟩ := List.mem_map.mp he
    exact decide_eq_true h

/-- A step with one input looks for what the simulation checks of it, but not for the columns of
its rules. -/
theorem checked_eq_validated (hplain : PlainConfig available config) :
    checked config = validated config := by
  cases config with
  | filter column => rfl
  | select columns => exact columns_of_field _ (by decide) columns
  | rename mapping => exact columns_of_field _ (by decide) mapping.keys
  | aggregate groupBy aggregations =>
    have haggregations := columns_of_field "aggregations.column" (by decide)
      (aggregations.map Prod.fst)
    rw [List.map_map] at haggregations
    rw [checked, named, List.filter_append, List.map_append, columns_of_field _ (by decide)]
    exact congrArg _ haggregations
  | sort by' =>
    rw [validated, List.filter_eq_self.mpr fun c hc => decide_eq_true (hplain c hc)]
    exact columns_of_field _ (by decide) by'
  | validate rules =>
    rw [checked, named, List.filter_eq_nil_iff.mpr]
    · rfl
    · intro e he
      obtain ⟨c, -, rfl⟩ := List.mem_map.mp he
      rw [decide_eq_true_iff]
      exact not_not_intro rfl
  | pivot index columns values => cases hplain
  | unpivot idVars valueVars varName valueName =>
    exact columns_of_field _ (by decide) (idVars ++ valueVars)
  | deduplicate subset => exact columns_of_field _ (by decide) subset
  | fillNulls columns => exact columns_of_field _ (by decide) columns
  | sample stratifyBy =>
    rw [checked, named, validated]
    split <;> rfl
  | wasmCompute inputColumns outputColumn => exact columns_of_field _ (by decide) inputColumns
  | load fileId | join left right on | save | sql | transform | streamConsume | streamPublish => rfl

/-- The errors of a step with one input, those about rules apart. -/
theorem exists_missing_error {step : Step} {available : List Text}
    (hfilled : ∀ e ∈ named config, e.2 ≠ []) :
    (∃ e ∈ (named config).flatMap fun e => appendMissingColumnError py step e.1 e.2 available,
      e.field ≠ "rules.column") ↔ ∃ c ∈ checked config, c ∉ available := by
  constructor
  · rintro ⟨e, he, hfield⟩
    obtain ⟨⟨field, c⟩, hnamed, he⟩ := List.mem_flatMap.mp he
    rw [appendMissingColumnError] at he
    split at he
    · next hmissing =>
      rw [List.mem_singleton.mp he] at hfield
      refine ⟨c, List.mem_map.mpr ⟨(field, c), ?_, rfl⟩, hmissing.2⟩
      exact List.mem_filter.mpr ⟨hnamed, decide_eq_true hfield⟩
    · cases he
  · rintro ⟨c, hc, hmissing⟩
    obtain ⟨⟨field, c'⟩, hmem, rfl⟩ := List.mem_map.mp hc
    obtain ⟨hnamed, hfield⟩ := List.mem_filter.mp hmem
    have herror : appendMissingColumnError py step field c' available = [_] :=
      if_pos ⟨hfilled _ hnamed, hmissing⟩
    exact ⟨_, List.mem_flatMap.mpr ⟨(field, c'), hnamed, herror ▸ List.mem_singleton_self _⟩,
      of_decide_eq_true hfield⟩

/-- The table of a step with one input has the simulated columns. -/
theorem outputColumns_perm {unread : List Text} (hplain : PlainConfig available config)
    (hfilled : ∀ e ∈ named config, e.2 ≠ []) (hsame : available.Perm columns)
    (hdistinct : columns.Nodup) (hfound : ∀ c ∈ validated config, c ∈ columns)
    (h : returnedColumns unread columns config = some out) :
    out.Nodup ∧ (outputColumns available config).Perm out := by
  have havailable : ∀ c ∈ validated config, c ∈ available :=
    fun c hc => hsame.mem_iff.mpr (hfound c hc)
  cases config with
  | select requested =>
    obtain ⟨hnodup, rfl⟩ := distinct_eq_some.mp h
    refine ⟨hnodup, .of_eq ?_⟩
    exact List.filter_eq_self.mpr fun c hc => decide_eq_true (havailable c hc)
  | rename mapping =>
    rw [returnedColumns] at h
    split at h
    · obtain ⟨hnodup, rfl⟩ := distinct_eq_some.mp h
      have hsplit : available.Perm (columns ++ []) := by rwa [List.append_nil]
      have hturn := renameColumns_perm mapping.nodup hsplit hdistinct
        fun e he => hfound e.1 (List.mem_map_of_mem he)
      exact ⟨hnodup, hturn.trans (renamedColumns_perm hdistinct hfound).symm⟩
    · cases h
  | aggregate groupBy aggregations =>
    rw [returnedColumns] at h
    split at h
    · cases h
    · obtain ⟨hnodup, rfl⟩ := distinct_eq_some.mp h
      refine ⟨hnodup, aggregated_perm (fun c hc => ?_) (fun a ha => ⟨?_, ?_⟩) hplain⟩
      · exact havailable c (List.mem_append_left _ hc)
      · exact hfilled ("aggregations.column", a.1)
          (List.mem_append_right _ (List.mem_map_of_mem ha))
      · exact havailable a.1 (List.mem_append_right _ (List.mem_map_of_mem ha))
  | unpivot idVars valueVars varName valueName =>
    rw [returnedColumns] at h
    split at h
    · cases h
    · obtain ⟨hnodup, rfl⟩ := distinct_eq_some.mp h
      refine ⟨hnodup, .of_eq ?_⟩
      rw [outputColumns, List.filter_eq_self.mpr]
      exact fun c hc => decide_eq_true (havailable c (List.mem_append_left _ hc))
  | wasmCompute inputColumns outputColumn =>
    obtain ⟨hfilledOut, hfresh⟩ := hplain
    rw [returnedColumns, if_neg fun hmem => hfresh (hsame.mem_iff.mpr hmem)] at h
    split at h
    · cases h
    · cases h
      rw [outputColumns, if_neg hfilledOut]
      refine ⟨?_, hsame.append_right _⟩
      exact List.nodup_append.mpr ⟨hdistinct, List.nodup_singleton _, fun a ha b hb hab =>
        hfresh (hsame.mem_iff.mpr (List.mem_singleton.mp hb ▸ hab ▸ ha))⟩
  | pivot index columns values | sql | transform | streamConsume => cases hplain
  | load fileId | join left right on | filter column | sort by' | save | validate rules
  | deduplicate subset | fillNulls columns | sample stratifyBy | streamPublish =>
    cases h
    exact ⟨hdistinct, hsame⟩

/-- The registry has a table under a name, with the columns of the schema. -/
def Tracks (schema registry : Schema) (ref : Text) : Prop :=
  ∃ columns, registry.get? ref = some columns ∧ columns.Nodup ∧ (schema.columns ref).Perm columns

theorem field_on : "on" ≠ "rules.column" := by decide

theorem joinKeyError_iff {joinKey : Text} {side : String} {ref : Text} (hkey : joinKey ≠ []) :
    (∃ e ∈ joinKeyError py step joinKey side ref columns, e.field ≠ "rules.column") ↔
      joinKey ∉ columns := by
  rw [joinKeyError]
  by_cases hmem : joinKey ∈ columns
  · rw [if_neg fun h => h.2 hmem]
    exact iff_of_false (fun ⟨e, he, _⟩ => absurd he List.not_mem_nil) (not_not_intro hmem)
  · rw [if_pos ⟨hkey, hmem⟩]
    exact iff_of_true ⟨_, List.mem_singleton_self _, field_on⟩ hmem

theorem onJoin_missing {fails : Bool} {joinKey : Text} {left right : List Text} :
    (∃ e, onJoin fails joinKey left right = .error e ∧ e.missing = true) ↔
      joinKey ∉ left ∨ joinKey ∉ right := by
  rw [onJoin, validateJoinKey, validateJoinKey]
  by_cases hleft : joinKey ∈ left
  · rw [if_pos hleft, or_iff_right (not_not_intro hleft)]
    by_cases hright : joinKey ∈ right
    · rw [if_pos hright]
      refine iff_of_false ?_ (not_not_intro hright)
      rintro ⟨e, he, hmissing⟩
      rw [finish_missing he] at hmissing
      cases hmissing
    · rw [if_neg hright]
      exact iff_of_true ⟨_, rfl, rfl⟩ hright
  · rw [if_neg hleft]
    exact iff_of_true ⟨_, rfl, rfl⟩ (.inl hleft)

theorem onJoin_ok {fails : Bool} {joinKey : Text} {left right : List Text}
    (h : onJoin fails joinKey left right = .ok out) :
    distinct (joinedColumns joinKey left right) = some out := by
  rw [onJoin] at h
  obtain ⟨-, -, h⟩ := bind_ok h
  obtain ⟨-, -, h⟩ := bind_ok h
  exact finish_ok h

theorem resolve_of_tracks {ref : Text} (h : registry.get? ref = some columns) :
    resolve registry ref = .ok columns := by
  rw [resolve, h]
  rfl

theorem mem_stepInputs_input (h : step.input ≠ []) :
    step.input ∈ stepInputs (runnerStep step) := by
  refine List.mem_filter.mpr ⟨List.mem_filterMap.mpr ⟨_, List.mem_cons_self, rfl⟩, ?_⟩
  cases hinput : step.input with
  | nil => exact absurd hinput h
  | cons c t => rfl

/-- What a step with one input does over a table as it is simulated. -/
theorem oneInput_exact
    (hexecute : executeStep w registry step = resolve registry step.input >>= fun columns =>
      onColumns (w.fails step registry) (w.unread step registry) columns config)
    (herrors : errorsOf py files schema step = (named config).flatMap fun e =>
      appendMissingColumnError py step e.1 e.2 (PipelineValidation.available schema step))
    (hcolumns : columnsOf files schema step =
      outputColumns (PipelineValidation.available schema step) config)
    (hinput : step.input ≠ []) (hfilled : ∀ e ∈ named config, e.2 ≠ [])
    (hplain : PlainConfig (schema.columns step.input) config)
    (htracks : ∀ ref ∈ stepInputs (runnerStep step), Tracks schema registry ref) :
    ((∃ e, executeStep w registry step = .error e ∧ e.missing = true) ↔
      ∃ e ∈ errorsOf py files schema step, e.field ≠ "rules.column") ∧
    ∀ out, executeStep w registry step = .ok out →
      out.Nodup ∧ (columnsOf files schema step).Perm out := by
  obtain ⟨columns, hget, hdistinct, hsame⟩ := htracks step.input (mem_stepInputs_input hinput)
  have hrun : executeStep w registry step =
      onColumns (w.fails step registry) (w.unread step registry) columns config := by
    rw [hexecute, resolve_of_tracks hget]
    rfl
  rw [hrun, herrors, hcolumns, PipelineValidation.available, if_neg hinput]
  constructor
  · rw [exists_missing_error hfilled, checked_eq_validated hplain, onColumns,
      checks_missing fun _ _ => finish_missing]
    simp only [hsame.mem_iff]
  · intro out hout
    obtain ⟨hfound, hfinish⟩ := checks_ok hout
    exact outputColumns_perm hplain hfilled hsame hdistinct hfound (finish_ok hfinish)

/-- What a join does over tables as they are simulated. -/
theorem join_exact {left right on : Text} (hconfig : step.config = .join left right on)
    (hplain : Plain files w schema step)
    (htracks : ∀ ref ∈ stepInputs (runnerStep step), Tracks schema registry ref) :
    ((∃ e, executeStep w registry step = .error e ∧ e.missing = true) ↔
      ∃ e ∈ errorsOf py files schema step, e.field ≠ "rules.column") ∧
    ∀ out, executeStep w registry step = .ok out →
      out.Nodup ∧ (columnsOf files schema step).Perm out := by
  rw [Plain, hconfig] at hplain
  obtain ⟨hleft, hright, hon, hcommon⟩ := hplain
  have hmem : ∀ ref : Text, ref ≠ [] → ref = left ∨ ref = right →
      ref ∈ stepInputs (runnerStep step) := by
    intro ref href hside
    refine List.mem_filter.mpr ⟨List.mem_filterMap.mpr ⟨some ref, ?_, rfl⟩, ?_⟩
    · rw [runnerStep, hconfig]
      obtain rfl | rfl := hside
      · exact List.mem_cons_of_mem _ List.mem_cons_self
      · exact List.mem_cons_of_mem _ (List.mem_cons_of_mem _ (List.mem_singleton_self _))
    · cases ref with
      | nil => exact absurd rfl href
      | cons c t => rfl
  obtain ⟨leftColumns, hgetLeft, hleftDistinct, hleftSame⟩ := htracks left (hmem left hleft (.inl rfl))
  obtain ⟨rightColumns, hgetRight, hrightDistinct, hrightSame⟩ :=
    htracks right (hmem right hright (.inr rfl))
  have hrun : executeStep w registry step =
      onJoin (w.fails step registry) on leftColumns rightColumns := by
    rw [executeStep, hconfig]
    dsimp only
    rw [resolve_of_tracks hgetLeft, resolve_of_tracks hgetRight]
    rfl
  rw [hrun]
  constructor
  · rw [onJoin_missing, ← hleftSame.mem_iff, ← hrightSame.mem_iff, errorsOf, hconfig]
    simp only [List.mem_append, or_and_right, exists_or]
    rw [joinKeyError_iff hon, joinKeyError_iff hon]
  · intro out hout
    obtain ⟨hnodup, hout⟩ := distinct_eq_some.mp (onJoin_ok hout)
    refine ⟨hout ▸ hnodup, ?_⟩
    have hcommonSame : ∀ c ∈ rightColumns, c ∈ leftColumns → c = on := fun c hc hc' =>
      hcommon c (hleftSame.mem_iff.mpr hc') (hrightSame.mem_iff.mpr hc)
    rw [columnsOf, hconfig]
    dsimp only
    rw [← hout, joinedColumns_eq hcommonSame, mergedColumns_eq
      (hrightSame.nodup_iff.mpr hrightDistinct) fun c hc hc' => hcommon c hc' hc]
    exact hleftSame.append (hrightSame.filter _)

/-- A load of a file that is read as it is registered. -/
theorem load_exact {fileId : Text} (hconfig : step.config = .load fileId)
    (hplain : Plain files w schema step) :
    ((∃ e, executeStep w registry step = .error e ∧ e.missing = true) ↔
      ∃ e ∈ errorsOf py files schema step, e.field ≠ "rules.column") ∧
    ∀ out, executeStep w registry step = .ok out →
      out.Nodup ∧ (columnsOf files schema step).Perm out := by
  rw [Plain, hconfig] at hplain
  obtain ⟨hfile, columns, hcolumns, hsame⟩ := hplain
  have hrun : executeStep w registry step =
      finish (w.fails step registry) (distinct (w.loaded fileId)) := by
    rw [executeStep, hconfig]
  have herrors : errorsOf py files schema step = [] := by
    rw [errorsOf, hconfig]
    exact if_neg fun h => Option.some_ne_none columns (hcolumns.symm.trans h.2)
  have hsimulated : columnsOf files schema step = columns := by
    rw [columnsOf, hconfig]
    dsimp only
    rw [if_neg hfile, hcolumns, Option.getD_some]
  rw [hrun, herrors, hsimulated]
  constructor
  · refine iff_of_false ?_ (fun ⟨e, he, _⟩ => absurd he List.not_mem_nil)
    rintro ⟨e, he, hmissing⟩
    rw [finish_missing he] at hmissing
    cases hmissing
  · intro out hout
    obtain ⟨hnodup, rfl⟩ := distinct_eq_some.mp (finish_ok hout)
    exact ⟨hnodup, hsame⟩

/-- A step over tables as they are simulated misses a column exactly where the simulation reports
one, and its table is as simulated. -/
theorem step_exact (py : Python) (hplain : Plain files w schema step)
    (htracks : ∀ ref ∈ stepInputs (runnerStep step), Tracks schema registry ref) :
    ((∃ e, executeStep w registry step = .error e ∧ e.missing = true) ↔
      ∃ e ∈ errorsOf py files schema step, e.field ≠ "rules.column") ∧
    ∀ out, executeStep w registry step = .ok out →
      out.Nodup ∧ (columnsOf files schema step).Perm out := by
  obtain ⟨name, input, config⟩ := step
  cases config with
  | load fileId => exact load_exact rfl hplain
  | join left right on => exact join_exact rfl hplain htracks
  | pivot index columns values | sql | transform | streamConsume => cases hplain.2.2
  | filter column | select columns | rename mapping | aggregate groupBy aggregations | sort by'
  | save | validate rules | unpivot idVars valueVars varName valueName | deduplicate subset
  | fillNulls columns | sample stratifyBy | wasmCompute inputColumns outputColumn
  | streamPublish =>
    exact oneInput_exact rfl rfl rfl hplain.1 hplain.2.1 hplain.2.2 htracks

/-! ### The whole run -/

theorem mem_collectFrom {e : ValidationError} {steps : List Step} :
    e ∈ collectFrom py files schema steps ↔ ∃ i, ∃ hi : i < steps.length,
      e ∈ errorsOf py files ((steps.take i).foldl (simulate files) schema) steps[i] := by
  induction steps generalizing schema with
  | nil => exact iff_of_false List.not_mem_nil fun ⟨i, hi, _⟩ => absurd hi (Nat.not_lt_zero i)
  | cons step steps ih =>
    rw [collectFrom, List.mem_append, ih]
    constructor
    · rintro (h | ⟨i, hi, h⟩)
      · exact ⟨0, Nat.succ_pos _, h⟩
      · exact ⟨i + 1, Nat.succ_lt_succ hi, h⟩
    · rintro ⟨i, hi, h⟩
      cases i with
      | zero => exact .inl h
      | succ i => exact .inr ⟨i, Nat.lt_of_succ_lt_succ hi, h⟩

theorem stepName_of_mem {e : ValidationError} (h : e ∈ errorsOf py files schema step) :
    e.stepName = .text step.name := by
  have hmissing : ∀ {field : String} {c : Text} {available : List Text},
      e ∈ appendMissingColumnError py step field c available → e.stepName = .text step.name := by
    intro field c available hmem
    rw [appendMissingColumnError] at hmem
    split at hmem
    · rw [List.mem_singleton.mp hmem]
    · cases hmem
  have hkey : ∀ {joinKey ref : Text} {side : String} {columns : List Text},
      e ∈ joinKeyError py step joinKey side ref columns → e.stepName = .text step.name := by
    intro joinKey ref side columns hmem
    rw [joinKeyError] at hmem
    split at hmem
    · rw [List.mem_singleton.mp hmem]
    · cases hmem
  rw [errorsOf] at h
  split at h
  · split at h
    · rw [List.mem_singleton.mp h]
    · cases h
  · obtain h | h := List.mem_append.mp h
    · exact hkey h
    · exact hkey h
  · obtain ⟨e', -, h⟩ := List.mem_flatMap.mp h
    exact hmissing h

section Run

variable {Violation : Type}
  {contract : Pipeline.Runner.Step Text → List Text → Option (List Violation)} {steps : List Step}
  {s : State Text (List Text) Violation} {i : Nat}

theorem schemaBefore_succ (hi : i < steps.length) :
    schemaBefore files steps (i + 1) = simulate files (schemaBefore files steps i) steps[i] := by
  rw [schemaBefore, List.take_succ_eq_append_getElem hi, List.foldl_append]
  rfl

theorem columns_simulate (schema : Schema) (step : Step) (ref : Text) :
    (simulate files schema step).columns ref =
      if ref = step.name then columnsOf files schema step else schema.columns ref := by
  rw [simulate, Schema.columns, Dict.get?_set]
  split <;> rfl

/-- The schema keeps the columns of every step before. -/
theorem columns_schemaBefore (hnames : (steps.map Step.name).Nodup) (hi : i ≤ steps.length) {j : Nat}
    (hj : j < i) : (schemaBefore files steps i).columns steps[j].name =
      columnsOf files (schemaBefore files steps j) steps[j] := by
  induction i with
  | zero => omega
  | succ i ih =>
    rw [schemaBefore_succ (by omega), columns_simulate]
    by_cases hij : j = i
    · subst hij
      rw [if_pos rfl]
    · rw [if_neg, ih (by omega) (by omega)]
      intro heq
      have hstep := List.inj_on_of_nodup_map hnames (List.getElem_mem _) (List.getElem_mem _) heq
      exact hij ((hnames.of_map _).getElem_inj_iff.mp hstep)

theorem find_step (hnames : (steps.map Step.name).Nodup) (hi : i < steps.length) :
    steps.find? (fun step => step.name = steps[i].name) = some steps[i] := by
  cases hfind : steps.find? (fun step => step.name = steps[i].name) with
  | none =>
    have hnot := List.find?_eq_none.mp hfind steps[i] (List.getElem_mem hi)
    exact absurd (decide_eq_true rfl) hnot
  | some step =>
    have hname := List.find?_some hfind
    rw [decide_eq_true_iff] at hname
    rw [List.inj_on_of_nodup_map hnames (List.mem_of_find?_eq_some hfind) (List.getElem_mem hi) hname]

/-- A turn of the loop takes the table of the executor. -/
theorem loopBody_executed {total index : Nat} {r : Pipeline.Runner.Step Text}
    {env : Pipeline.Runner.Env Text (List Text) Violation} {t : State Text (List Text) Violation}
    (h : loopBody env total index r s = .ok t) :
    ∃ result, env.execute s.tableRegistry r = .returned result ∧
      t.stepResults.map (·.outputTable) = s.stepResults.map (·.outputTable) ++ [result.outputTable] := by
  unfold loopBody Pipeline.Runner.executeSingleStep at h
  cases he : env.execute s.tableRegistry r with
  | stepError message => simp [Pipeline.Runner.emit, he, bind, Except.bind] at h
  | otherError message => simp [Pipeline.Runner.emit, he, bind, Except.bind] at h
  | returned result =>
    simp only [Pipeline.Runner.emit, he, bind, Except.bind, pure, Except.pure,
      Except.ok.injEq] at h
    subst h
    refine ⟨result, rfl, ?_⟩
    rw [List.map_append]
    rfl

theorem execute_columnEnv (hnames : (steps.map Step.name).Nodup) (hi : i < steps.length)
    (registry : Schema) : (columnEnv w Violation contract steps).execute registry
      (runnerStep steps[i]) = outcome w Violation registry steps[i] := by
  change (steps.find? fun step => step.name = steps[i].name).elim _ _ = _
  rw [find_step hnames hi, Option.elim_some]

theorem executeStep_of_returned {result : Pipeline.Runner.StepExecutionResult Text (List Text) Violation}
    (h : outcome w Violation registry step = .returned result) :
    executeStep w registry step = .ok result.outputTable := by
  rw [outcome] at h
  split at h
  · next columns hcolumns =>
    cases h
    exact hcolumns
  · split at h <;> cases h

variable (hnames : (steps.map Step.name).Nodup) (hback : RefersBack (steps.map runnerStep))

/-- The tables of the steps before have the simulated columns. -/
def TablesAsSimulated (files : Text → Option (List Text)) (steps : List Step) (i : Nat)
    (s : State Text (List Text) Violation) : Prop :=
  ∀ j (hj : j < i) (hlen : j < steps.length), ∃ table,
    (s.stepResults.map (·.outputTable))[j]? = some table ∧ table.Nodup ∧
      (columnsOf files (schemaBefore files steps j) steps[j]).Perm table

include hnames hback in
/-- The inputs of the next step are in the registry, as they are simulated. -/
theorem tracks_of_run (hi : i < steps.length)
    (hrun : stateBefore (columnEnv w Violation contract steps) (steps.map runnerStep) i = .ok s)
    (htables : TablesAsSimulated files steps i s) :
    ∀ ref ∈ stepInputs (runnerStep steps[i]),
      Tracks (schemaBefore files steps i) s.tableRegistry ref := by
  intro ref href
  have hlen : i < (steps.map runnerStep).length := by rwa [List.length_map]
  have hnamesRun : ((steps.map runnerStep).map Pipeline.Runner.Step.name).Nodup := by
    rwa [List.map_map]
  have hresident := resident_stateBefore hnamesRun hback (Nat.le_of_lt hlen) hrun
  obtain ⟨j, hj, table, hname, htable, hget⟩ := hresident.input hback hlen
    (by rwa [List.getElem_map])
  obtain ⟨table', htable', hnodup, hsame⟩ := htables j hj (by omega)
  rw [List.getElem?_map, htable, Option.some.injEq] at htable'
  subst htable'
  rw [List.getElem_map] at hname
  refine ⟨table, hget, hnodup, ?_⟩
  rw [← hname]
  exact (List.Perm.of_eq (columns_schemaBefore hnames (Nat.le_of_lt hi) hj)).trans hsame

include hnames hback in
theorem tables_of_run
    (hplain : ∀ i (hi : i < steps.length), Plain files w (schemaBefore files steps i) steps[i])
    (hi : i ≤ steps.length)
    (hrun : stateBefore (columnEnv w Violation contract steps) (steps.map runnerStep) i = .ok s) :
    TablesAsSimulated files steps i s := by
  induction i generalizing s with
  | zero => exact fun j hj => absurd hj (Nat.not_lt_zero j)
  | succ i ih =>
    have hlen : i < (steps.map runnerStep).length := by rw [List.length_map]; omega
    rw [stateBefore_succ hlen] at hrun
    obtain ⟨u, hu, hturn⟩ := bind_ok hrun
    have htables := ih (by omega) hu
    obtain ⟨result, hresult, hresults⟩ := loopBody_executed hturn
    rw [List.getElem_map, execute_columnEnv hnames hi] at hresult
    have hstep := (step_exact ⟨fun _ => []⟩ (hplain i hi)
      (tracks_of_run hnames hback hi hu htables)).2 _ (executeStep_of_returned hresult)
    have hcount : (u.stepResults.map (·.outputTable)).length = i := by
      rw [List.length_map]
      exact (resident_stateBefore (by rwa [List.map_map]) hback (Nat.le_of_lt hlen) hu).length
    intro j hj hjlen
    rw [hresults]
    by_cases hji : j = i
    · subst hji
      exact ⟨_, by rw [List.getElem?_append_right (by omega), hcount, Nat.sub_self]; rfl, hstep⟩
    · obtain ⟨table, htable, hrest⟩ := htables j (by omega) hjlen
      exact ⟨table, by rw [List.getElem?_append_left (by omega), htable], hrest⟩

end Run

section Examples

def salesFiles (fileId : Text) : Option (List Text) :=
  if fileId = "f1".toList then some ["id".toList, "amount".toList]
  else if fileId = "f2".toList then some ["name".toList, "id".toList]
  else none

def quietRun : Surroundings where
  loaded fileId := (salesFiles fileId).getD []
  fails _ _ := false
  unread _ _ := []
  reported _ := true
  describe _ := ""
  rows _ _ := (0, 0)
  durationMs _ := 0

def amountToTotal : Dict Text Text where
  entries := [("amount".toList, "total".toList)]
  nodup := List.nodup_singleton _

/-- A filter by a column that was renamed two steps before. -/
def staleFilter : List Step :=
  [{ name := "sales".toList, config := .load "f1".toList },
   { name := "users".toList, config := .load "f2".toList },
   { name := "joined".toList, config := .join "sales".toList "users".toList "id".toList },
   { name := "renamed".toList, input := "joined".toList, config := .rename amountToTotal },
   { name := "kept".toList, input := "renamed".toList, config := .filter "amount".toList }]

theorem plain_staleFilter : ∀ i (hi : i < staleFilter.length),
    Plain salesFiles quietRun (schemaBefore salesFiles staleFilter i) staleFilter[i] := by
  intro i hi
  obtain _ | _ | _ | _ | _ | i := i
  · exact ⟨by decide, _, rfl, .refl _⟩
  · exact ⟨by decide, _, rfl, .refl _⟩
  · exact ⟨by decide, by decide, by decide, by decide⟩
  · exact ⟨List.cons_ne_nil _ _, List.forall_mem_singleton.mpr (List.cons_ne_nil _ _), trivial⟩
  · exact ⟨List.cons_ne_nil _ _, List.forall_mem_singleton.mpr (List.cons_ne_nil _ _), trivial⟩
  · change i + 5 < 5 at hi
    omega

end Examples

end PipelineIQ.Services.Preflight
