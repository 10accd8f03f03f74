import PipelineIQ.Frontend.FieldKinds
import PipelineIQ.Frontend.YamlToGraph

namespace PipelineIQ.Frontend.SettledConfigs

open PipelineIQ.Lib PipelineIQ.Lib.Strings PipelineIQ.Lib.Yaml PipelineIQ.Pipeline.Parser
open PipelineIQ.Frontend.StepNames PipelineIQ.Frontend.YamlGraph PipelineIQ.Frontend.EmittedSteps
open PipelineIQ.Frontend.FieldKinds PipelineIQ.Frontend.YamlToGraph

/-! ### The fields of every type -/

/-- The fields that a type is always written with. -/
def configFields : StepType → List (String × FieldKind)
  | .load => [("file_id", .text)]
  | .filter => [("column", .text), ("operator", .textOr "equals"), ("value", .any (str ""))]
  | .join => [("on", .text), ("how", .textOr "inner")]
  | .aggregate => [("group_by", .texts), ("aggregations", .aggregations)]
  | .sort => [("by", .text), ("order", .textOr "asc")]
  | .select => [("columns", .texts)]
  | .transform => [("column", .text), ("expression", .text)]
  | .validate => [("rules", .rules)]
  | .save => [("filename", .textOr "output")]
  | .pivot => [("index", .texts), ("columns", .text), ("values", .text), ("aggfunc", .textOr "sum"),
      ("fill_value", .any (.int 0))]
  | .unpivot => [("id_vars", .texts), ("value_vars", .texts), ("var_name", .textOr "variable"),
      ("value_name", .textOr "value")]
  | .deduplicate => [("subset", .optionalTexts), ("keep", .textOr "first")]
  | .rename => [("mapping", .mapping)]
  | .sql => [("query", .textOr "SELECT *\nFROM \x7b\x7binput\x7d\x7d\nLIMIT 100")]
  | .wasmCompute => [("wasm_file_id", .text), ("function", .text), ("input_columns", .texts),
      ("output_column", .textOr "result")]
  | .streamConsume => [("topic", .text), ("consumer_group", .textOr "pipelineiq-analytics"),
      ("batch_size", .number 1000), ("batch_timeout_ms", .number 5000), ("deserialize", .textOr "json")]
  | .streamPublish => [("topic", .text), ("serialize", .textOr "json"), ("key_column", .optionalText)]
  | .fillNulls => []
  | .sample => []

variable {config : Entries} {t : StepType} {stepName : Text} {refs : List (String × Yaml.Node)}

theorem configFields_proper (t : StepType) : ∀ f ∈ configFields t, f.2.Proper := by
  cases t <;> decide

theorem configFields_nodup (t : StepType) : ((configFields t).map Prod.fst).Nodup := by
  cases t <;> decide

theorem normalizeConfigForYaml_eq (config : Entries) (hfill : t ≠ .fillNulls) (hsample : t ≠ .sample) :
    normalizeConfigForYaml config t =
      record ((configFields t).map fun f => (f.1, f.2.write (field config f.1))) := by
  cases t <;> first
    | exact absurd rfl hfill
    | exact absurd rfl hsample
    | rfl

/-- The configuration that a step is written with. -/
def written (config : Entries) (t : StepType) : Entries :=
  sanitizeConfig (normalizeConfigForYaml config t)

theorem written_eq (config : Entries) (hfill : t ≠ .fillNulls) (hsample : t ≠ .sample) :
    written config t =
      record ((configFields t).map fun f => (f.1, f.2.emit (field config f.1))) := by
  rw [written, normalizeConfigForYaml_eq config hfill hsample, sanitizeConfig_eq_map, record, record,
    List.map_map, List.map_map, List.map_map]
  rfl

/-! ### The configuration of a step that is opened again -/

theorem nodup_keys_written (config : Entries) (t : StepType) :
    ((written config t).map Prod.fst).Nodup := by
  rw [written, keys_sanitizeConfig]
  by_cases hfill : t = .fillNulls
  · subst hfill
    rw [normalizeConfigForYaml, normalizeFillNullsConfigForYaml, keys_record,
      List.nodup_map_iff key_injective]
    split <;> simp
  by_cases hsample : t = .sample
  · subst hsample
    rw [normalizeConfigForYaml, normalizeSampleConfigForYaml, keys_record,
      List.nodup_map_iff key_injective]
    have hpart : ∀ (c : Prop) [Decidable c] (f : String × Yaml.Node),
        ((if c then [f] else []).map Prod.fst).Sublist [f.1] := by
      intro c _ f
      split <;> simp
    have hlast : ∀ (c : Prop) [Decidable c] (f : String × Yaml.Node),
        ((if c then [] else [f]).map Prod.fst).Sublist [f.1] := by
      intro c _ f
      split <;> simp
    simp only [List.map_append]
    exact List.Nodup.sublist ((((hpart _ _).append (hpart _ _)).append (List.Sublist.refl _)).append
      (hlast _ _)) (by simp)
  · rw [normalizeConfigForYaml_eq config hfill hsample, keys_record, List.nodup_map_iff key_injective,
      List.map_map]
    exact configFields_nodup t

theorem own_not_mem_written (config : Entries) (t : StepType) {name : String}
    (h : name ∈ ownFields) : key name ∉ (written config t).map Prod.fst := by
  rw [written, keys_sanitizeConfig]
  exact ownField_not_mem config t h

theorem assignAll_eq_append {step config : Entries} (hnodup : (config.map Prod.fst).Nodup)
    (hfresh : ∀ k ∈ config.map Prod.fst, k ∉ step.map Prod.fst) :
    assignAll step config = step ++ config := by
  unfold assignAll
  induction config generalizing step with
  | nil => rw [List.foldl_nil, List.append_nil]
  | cons e config ih =>
    rw [List.map_cons, List.nodup_cons] at hnodup
    rw [List.map_cons, List.forall_mem_cons] at hfresh
    have hset : step.set e.1 e.2 = step ++ [e] := Dict.assign_of_not_mem _ _ _ hfresh.1
    rw [List.foldl_cons, hset, ih hnodup.2, List.append_assoc, List.singleton_append]
    intro k hk
    rw [List.map_append, List.mem_append, not_or]
    refine ⟨hfresh.2 k hk, ?_⟩
    rw [List.map_singleton, List.mem_singleton]
    rintro rfl
    exact hnodup.1 hk

/-- The fields of its own stand before the configuration. -/
theorem emitStep_eq (hrefs : ∀ ref ∈ refs, ref.1 ∈ ownFields) :
    emitStep stepName t refs config =
      record ([("name", .text stepName), ("type", str t.value)] ++ refs) ++ written config t := by
  apply assignAll_eq_append (nodup_keys_written config t)
  intro k hk hmem
  rw [keys_record] at hmem
  obtain ⟨name, hname, rfl⟩ := List.mem_map.mp hmem
  refine own_not_mem_written config t ?_ hk
  simp only [List.cons_append, List.nil_append, List.map_cons, List.mem_cons, List.mem_map] at hname
  obtain rfl | rfl | ⟨ref, href, rfl⟩ := hname
  · decide
  · decide
  · exact hrefs ref href

theorem ownConfig_eq_filter (step : Entries) :
    ownConfig step = step.filter fun e => decide (e.1 ∉ ownFields.map key) := by
  simp only [ownConfig, delete, List.foldl_cons, List.foldl_nil, List.filter_filter]
  apply List.filter_congr
  intro e _
  simp only [ownFields, List.map_cons, List.map_nil, List.mem_cons, List.not_mem_nil, or_false, not_or,
    ne_eq, Bool.decide_and]
  ac_rfl

theorem ownConfig_emitStep (hrefs : ∀ ref ∈ refs, ref.1 ∈ ownFields) :
    ownConfig (emitStep stepName t refs config) = written config t := by
  have hown : (record ([("name", .text stepName), ("type", str t.value)] ++ refs)).filter
      (fun e => decide (e.1 ∉ ownFields.map key)) = [] := by
    rw [List.filter_eq_nil_iff]
    intro e he
    rw [decide_eq_true_eq, not_not]
    obtain ⟨field, hfield, rfl⟩ := List.mem_map.mp he
    refine List.mem_map_of_mem ?_
    simp only [List.cons_append, List.nil_append, List.mem_cons] at hfield
    obtain rfl | rfl | href := hfield
    · exact List.mem_cons_self
    · exact List.mem_cons_of_mem _ List.mem_cons_self
    · exact hrefs field href
  have hkept : (written config t).filter (fun e => decide (e.1 ∉ ownFields.map key)) =
      written config t := by
    rw [List.filter_eq_self]
    intro e he
    rw [decide_eq_true_eq]
    intro hmem
    obtain ⟨name, hname, hkey⟩ := List.mem_map.mp hmem
    exact own_not_mem_written config t hname (hkey ▸ List.mem_map_of_mem he)
  rw [emitStep_eq hrefs, ownConfig_eq_filter, List.filter_append, hown, hkept, List.nil_append]

/-! ### Configurations that are written the same again -/

theorem field_written (hfill : t ≠ .fillNulls) (hsample : t ≠ .sample) {f : String × FieldKind}
    (hf : f ∈ configFields t) : field (written config t) f.1 = some (f.2.emit (field config f.1)) := by
  rw [written_eq config hfill hsample, field_record, Dict.find_eq_some_iff]
  · exact List.mem_map_of_mem hf
  · rw [List.map_map]
    exact configFields_nodup t

theorem record_injective : Function.Injective record := by
  apply List.map_injective_iff.mpr
  rintro ⟨name, v⟩ ⟨name', v'⟩ h
  rw [Prod.mk.injEq] at h ⊢
  exact ⟨key_injective h.1, h.2⟩

theorem settled_fields (config : Entries) (hfill : t ≠ .fillNulls) (hsample : t ≠ .sample) :
    (∀ f ∈ configFields t, f.2.Settled (field config f.1)) ↔
      written (written config t) t = written config t := by
  rw [written_eq (written config t) hfill hsample]
  conv_rhs => rw [written_eq config hfill hsample]
  rw [record_injective.eq_iff, List.map_inj_left]
  refine forall₂_congr fun f hf => ?_
  rw [← written_eq config hfill hsample, field_written hfill hsample hf, Prod.mk.injEq,
    FieldKind.settled_iff (configFields_proper t f hf)]
  exact (and_iff_right rfl).symm

/-- What a filling step needs to be written the same again. A strategy that is only written as
`constant` gets a value from then on. -/
structure SettledFillNulls (config : Entries) : Prop where
  strategy : (FieldKind.textOr "constant").Settled (field config "strategy")
  columns : FieldKind.texts.Settled (field config "columns")
  constant : sanitizeYamlValue (asString (field config "strategy")) = "constant".toList →
    asString (field config "strategy") = "constant".toList
  value : asString (field config "strategy") ∈ [[], "constant".toList] →
    (FieldKind.any (str "")).Settled (field config "constant_value")

def SettledConfig (config : Entries) : StepType → Prop
  | .fillNulls => SettledFillNulls config
  | .sample => SettledText (asString (field config "stratify_by"))
  | t => ∀ f ∈ configFields t, f.2.Settled (field config f.1)

/-- The fields of a sample, with what it is stratified by. -/
def sampleFields (n fraction randomState : Option Yaml.Node) (stratifyBy : Text) :
    List (String × Yaml.Node) :=
  (if isNumber n && !isNumber fraction then [("n", n.getD .null)] else []) ++
    (if isNumber fraction then [("fraction", fraction.getD .null)] else []) ++
    [("random_state", if isNumber randomState then randomState.getD .null else .int 42)] ++
    if trim stratifyBy = [] then [] else [("stratify_by", .text (sanitizeYamlValue stratifyBy))]

theorem sanitizeValue_getD {v : Option Yaml.Node} (h : isNumber v = true) :
    sanitizeValue (v.getD .null) = v.getD .null := by
  cases v with
  | none => cases h
  | some v => exact sanitizeValue_number h

theorem written_sample (config : Entries) : written config .sample =
    record (sampleFields (field config "n") (field config "fraction") (field config "random_state")
      (asString (field config "stratify_by"))) := by
  rw [written, normalizeConfigForYaml, normalizeSampleConfigForYaml, sampleFields, sanitizeConfig_eq_map]
  generalize field config "n" = n, field config "fraction" = fraction,
    field config "random_state" = randomState, asString (field config "stratify_by") = stratifyBy
  cases hn : isNumber n <;> cases hf : isNumber fraction <;> cases hr : isNumber randomState <;>
    by_cases hs : trim stratifyBy = [] <;>
    simp [hn, hf, hr, hs, record, sanitizeValue_getD, sanitizeValue, sanitizeYamlValue_trim]

theorem isNumber_getD {v : Option Yaml.Node} (h : isNumber v = true) :
    isNumber (some (v.getD .null)) = true := by
  cases v with
  | none => cases h
  | some v => exact h

theorem sampleFields_again (n fraction randomState : Option Yaml.Node) (stratifyBy : Text) :
    let fields := record (sampleFields n fraction randomState stratifyBy)
    sampleFields (field fields "n") (field fields "fraction") (field fields "random_state")
        (asString (field fields "stratify_by")) =
      sampleFields n fraction randomState
        (if trim stratifyBy = [] then [] else sanitizeYamlValue stratifyBy) := by
  have hnone : isNumber none = false := rfl
  have hint : isNumber (some (.int 42)) = true := rfl
  have habsent : asString none = [] := rfl
  dsimp only
  simp only [field_record]
  cases hn : isNumber n <;> cases hf : isNumber fraction <;> cases hr : isNumber randomState <;>
    by_cases hs : trim stratifyBy = [] <;>
    simp [sampleFields, hn, hf, hr, hs, Dict.find, hnone, hint, habsent, asString_text, isNumber_getD]

theorem settled_sample (config : Entries) : SettledText (asString (field config "stratify_by")) ↔
    written (written config .sample) .sample = written config .sample := by
  rw [written_sample (written config .sample), written_sample config, sampleFields_again,
    record_injective.eq_iff, sampleFields, sampleFields, List.append_cancel_left_eq]
  generalize asString (field config "stratify_by") = stratifyBy
  by_cases hs : trim stratifyBy = []
  · rw [if_pos hs, if_pos hs]
    exact iff_of_true (settledText_of_trim hs) rfl
  · rw [if_neg hs, if_neg hs, settledText_iff]
    by_cases hblank : trim (sanitizeYamlValue stratifyBy) = []
    · rw [if_pos hblank, sanitizeYamlValue_eq_nil.mpr hblank]
      refine iff_of_false ?_ (by rintro ⟨⟩)
      intro h
      exact hs (sanitizeYamlValue_eq_nil.mp h.symm)
    · rw [if_neg hblank]
      simp only [List.cons.injEq, Prod.mk.injEq, true_and, Yaml.Node.text.injEq, and_true]

/-- The fields of a filling step. -/
def fillFields (strategy columns value : Option Yaml.Node) : List (String × Yaml.Node) :=
  [("method", (FieldKind.textOr "constant").emit strategy), ("columns", FieldKind.texts.emit columns)] ++
    if asString strategy ∈ [[], "constant".toList] then [("value", (FieldKind.any (str "")).emit value)]
    else []

theorem same_constant_iff (strategy : Option Yaml.Node) :
    (orText (asString strategy) "constant").same (str "constant") = true ↔
      asString strategy ∈ [[], "constant".toList] := by
  have hkey : (str "constant").toKey = some (.text "constant".toList) := rfl
  rw [orText, Yaml.Node.same, hkey, beq_iff_eq, Option.some.injEq, Key.text.injEq, List.mem_cons,
    List.mem_singleton]
  split
  · next h => exact iff_of_true rfl (.inl h)
  · next h => rw [eq_comm, or_iff_right h]

theorem written_fillNulls (config : Entries) : written config .fillNulls =
    record (fillFields (field config "strategy") (field config "columns")
      (field config "constant_value")) := by
  rw [written, normalizeConfigForYaml, normalizeFillNullsConfigForYaml, sanitizeConfig_eq_map, fillFields]
  simp only [same_constant_iff]
  split <;> rfl

theorem emit_textOr (fallback : String) (v : Option Yaml.Node) : (FieldKind.textOr fallback).emit v =
    .text (sanitizeYamlValue (if asString v = [] then fallback.toList else asString v)) := by
  rw [FieldKind.emit, FieldKind.write, orText, sanitizeValue]

theorem field_delete (config : Entries) (name name' : String) :
    field (delete config name) name' = if name' = name then none else field config name' := by
  have hfind := Dict.find_filter (fun k => decide (k ≠ key name)) (key name') config
  rw [field, delete, Entries.get?, hfind]
  by_cases hname : name' = name
  · rw [if_pos hname, hname, if_neg]
    rw [decide_eq_true_eq, not_not]
  · rw [if_neg hname, if_pos]
    · rfl
    · rw [decide_eq_true_eq]
      exact fun h => hname (key_injective h)

theorem field_set (config : Entries) (name name' : String) (v : Yaml.Node) :
    field (config.set (key name) v) name' = if name' = name then some v else field config name' := by
  rw [field, Entries.get?_set]
  by_cases hname : name' = name
  · rw [if_pos (congrArg key hname), if_pos hname]
  · rw [if_neg fun h => hname (key_injective h), if_neg hname]
    rfl

/-- The method becomes the strategy again, and the value the constant. -/
theorem fields_normalizeFillNulls {step : Entries} {method : Text}
    (hmethod : field (ownConfig step) "method" = some (.text method))
    (hconstant : field (ownConfig step) "constant_value" = none) :
    let opened := normalizeFillNullsConfigForUi step
    field opened "strategy" = some (.text method) ∧
      field opened "columns" = field (ownConfig step) "columns" ∧
      field opened "constant_value" = field (ownConfig step) "value" := by
  dsimp only [normalizeFillNullsConfigForUi]
  rw [hmethod]
  dsimp only
  cases hvalue : field (ownConfig step) "value" <;>
    simp only [field_delete, field_set, hvalue, hconstant, String.reduceEq, reduceIte, and_self]

theorem field_fillFields (strategy columns value : Option Yaml.Node) :
    let fields := record (fillFields strategy columns value)
    field fields "method" = some ((FieldKind.textOr "constant").emit strategy) ∧
      field fields "columns" = some (FieldKind.texts.emit columns) ∧
      field fields "value" = (if asString strategy ∈ [[], "constant".toList] then
        some ((FieldKind.any (str "")).emit value) else none) ∧
      field fields "constant_value" = none := by
  dsimp only
  simp only [field_record, fillFields]
  by_cases hconstant : asString strategy ∈ [[], "constant".toList]
  · rw [if_pos hconstant, if_pos hconstant]
    exact ⟨rfl, rfl, rfl, rfl⟩
  · rw [if_neg hconstant, if_neg hconstant]
    exact ⟨rfl, rfl, rfl, rfl⟩

theorem written_opened_fillNulls (hrefs : ∀ ref ∈ refs, ref.1 ∈ ownFields) (config : Entries) :
    written (normalizeFillNullsConfigForUi (emitStep stepName .fillNulls refs config)) .fillNulls =
      record (fillFields (some ((FieldKind.textOr "constant").emit (field config "strategy")))
        (some (FieldKind.texts.emit (field config "columns")))
        (if asString (field config "strategy") ∈ [[], "constant".toList] then
          some ((FieldKind.any (str "")).emit (field config "constant_value")) else none)) := by
  have hown : ownConfig (emitStep stepName .fillNulls refs config) = _ :=
    (ownConfig_emitStep hrefs).trans (written_fillNulls config)
  obtain ⟨hmethod, hcolumns, hvalue, hconstant⟩ := field_fillFields (field config "strategy")
    (field config "columns") (field config "constant_value")
  rw [← hown] at hmethod hcolumns hvalue hconstant
  rw [emit_textOr] at hmethod
  obtain ⟨hs, hc, hv⟩ := fields_normalizeFillNulls hmethod hconstant
  rw [written_fillNulls, hs, hc, hv, hcolumns, hvalue, emit_textOr]

theorem emit_constant {strategy : Option Yaml.Node}
    (h : asString strategy ∈ [[], "constant".toList]) :
    (FieldKind.textOr "constant").emit strategy = str "constant" := by
  have hwritten : (if asString strategy = [] then "constant".toList else asString strategy) =
      "constant".toList := by
    rw [List.mem_cons, List.mem_singleton] at h
    cases h with
    | inl h => rw [if_pos h]
    | inr h => rw [h, if_neg (by decide)]
  have hclean : sanitizeYamlValue "constant".toList = "constant".toList := by decide
  rw [emit_textOr, hwritten, hclean, str]

theorem emit_other {strategy : Option Yaml.Node}
    (h : asString strategy ∉ [[], "constant".toList]) :
    (FieldKind.textOr "constant").emit strategy = .text (sanitizeYamlValue (asString strategy)) := by
  rw [List.mem_cons, not_or] at h
  rw [emit_textOr, if_neg h.1]

theorem settled_fillNulls (hrefs : ∀ ref ∈ refs, ref.1 ∈ ownFields) (config : Entries) :
    SettledFillNulls config ↔
      written (normalizeFillNullsConfigForUi (emitStep stepName .fillNulls refs config)) .fillNulls =
        written config .fillNulls := by
  have hstrategy := @FieldKind.settled_iff (.textOr "constant") (by decide) (field config "strategy")
  have hcolumns := @FieldKind.settled_iff .texts trivial (field config "columns")
  have hvalue := @FieldKind.settled_iff (.any (str "")) (by decide) (field config "constant_value")
  rw [written_opened_fillNulls hrefs, written_fillNulls, record_injective.eq_iff, fillFields, fillFields,
    List.cons_append, List.cons_append, List.cons_append, List.cons_append, List.cons.injEq,
    List.cons.injEq, Prod.mk.injEq, Prod.mk.injEq, List.nil_append, List.nil_append, ← hstrategy,
    ← hcolumns]
  by_cases hconstant : asString (field config "strategy") ∈ [[], "constant".toList]
  · rw [emit_constant hconstant, if_pos hconstant, if_pos hconstant, if_pos (by decide),
      List.cons.injEq, Prod.mk.injEq, ← hvalue]
    constructor
    · exact fun h => ⟨⟨rfl, h.strategy⟩, ⟨rfl, h.columns⟩, ⟨rfl, h.value hconstant⟩, rfl⟩
    · rintro ⟨⟨-, hs⟩, ⟨-, hc⟩, ⟨-, hv⟩, -⟩
      refine ⟨hs, hc, ?_, fun _ => hv⟩
      intro hclean
      rw [List.mem_cons, List.mem_singleton] at hconstant
      cases hconstant with
      | inl h =>
        rw [h] at hclean
        cases hclean
      | inr h => exact h
  · rw [emit_other hconstant, if_neg hconstant, if_neg hconstant, asString_text]
    constructor
    · intro h
      refine ⟨⟨rfl, h.strategy⟩, ⟨rfl, h.columns⟩, if_neg ?_⟩
      rw [List.mem_cons, List.mem_singleton, not_or] at hconstant ⊢
      refine ⟨?_, fun hclean => hconstant.2 (h.constant hclean)⟩
      rw [sanitizeYamlValue_eq_nil]
      exact (h.strategy hconstant.1).1
    · rintro ⟨⟨-, hs⟩, ⟨-, hc⟩, hsame⟩
      refine ⟨hs, hc, ?_, fun h => absurd h hconstant⟩
      intro hclean
      rw [if_pos (hclean ▸ List.mem_cons_of_mem _ List.mem_cons_self)] at hsame
      cases hsame

theorem delete_of_not_mem {config : Entries} {name : String} (h : key name ∉ config.map Prod.fst) :
    delete config name = config := by
  rw [delete, List.filter_eq_self]
  intro e he
  rw [decide_eq_true_eq]
  rintro heq
  exact h (heq ▸ List.mem_map_of_mem he)

/-- Nothing is made of the order of a sort that was written. -/
theorem normalizeSort_written (hrefs : ∀ ref ∈ refs, ref.1 ∈ ownFields) (config : Entries) :
    normalizeSortConfigForUi (emitStep stepName .sort refs config) = written config .sort := by
  have hwritten : written config .sort = record
      [("by", .text (sanitizeYamlValue (asString (field config "by")))),
        ("order", .text (sanitizeYamlValue (if asString (field config "order") = [] then "asc".toList
          else asString (field config "order"))))] := by
    rw [written_eq config (by decide) (by decide), configFields, List.map_cons, List.map_cons,
      List.map_nil, emit_textOr, FieldKind.emit, FieldKind.write, sanitizeValue]
  dsimp only [normalizeSortConfigForUi]
  rw [ownConfig_emitStep hrefs, hwritten]
  simp only [field_record, Dict.find, reduceIte, String.reduceEq]
  have habsent : ∀ by' order : Yaml.Node,
      key "ascending" ∉ (record [("by", by'), ("order", order)]).map Prod.fst := by
    intro by' order
    rw [key_mem_record]
    simp
  cases jsTruthy (some (Yaml.Node.text (sanitizeYamlValue (if asString (field config "order") = []
    then "asc".toList else asString (field config "order"))))) <;>
    exact delete_of_not_mem (habsent _ _)

theorem normalizeSample_written (hrefs : ∀ ref ∈ refs, ref.1 ∈ ownFields) (config : Entries) :
    normalizeSampleConfigForUi (emitStep stepName .sample refs config) = written config .sample := by
  have habsent : key "frac" ∉ (written config .sample).map Prod.fst := by
    rw [written_sample, key_mem_record, sampleFields]
    simp only [List.map_append, List.mem_append, not_or]
    refine ⟨⟨⟨?_, ?_⟩, by simp⟩, ?_⟩
    all_goals split <;> simp
  have hnone : field (written config .sample) "frac" = none := Dict.find_eq_none habsent
  dsimp only [normalizeSampleConfigForUi]
  rw [ownConfig_emitStep hrefs, hnone]
  exact delete_of_not_mem habsent

/-- A configuration is written the same again, once it has been opened, exactly where it is
settled. -/
theorem settledConfig_iff (hrefs : ∀ ref ∈ refs, ref.1 ∈ ownFields) (config : Entries) :
    SettledConfig config t ↔
      written (extractConfigForUi t.value.toList (emitStep stepName t refs config)) t =
        written config t := by
  have htype : StepType.ofNode (.text t.value.toList) = some t := ofNode_value t
  rw [extractConfigForUi, htype]
  by_cases hfill : t = .fillNulls
  · subst hfill
    exact settled_fillNulls hrefs config
  by_cases hsample : t = .sample
  · subst hsample
    dsimp only
    rw [normalizeSample_written hrefs]
    exact settled_sample config
  have hsettled := settled_fields config hfill hsample
  by_cases hsort : t = .sort
  · subst hsort
    dsimp only
    rw [normalizeSort_written hrefs]
    exact hsettled
  · cases t <;> first
      | exact absurd rfl hfill
      | exact absurd rfl hsample
      | exact absurd rfl hsort
      | (dsimp only
         rw [ownConfig_emitStep hrefs]
         exact hsettled)

end PipelineIQ.Frontend.SettledConfigs
