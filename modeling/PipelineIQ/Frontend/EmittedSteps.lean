import PipelineIQ.Frontend.YamlGraph
import PipelineIQ.Pipeline.ReferenceSoundness

namespace PipelineIQ.Frontend.EmittedSteps

open PipelineIQ.Lib PipelineIQ.Lib.Strings PipelineIQ.Lib.Yaml PipelineIQ.Lib.Traverse
open PipelineIQ.Pipeline PipelineIQ.Pipeline.Parser PipelineIQ.Pipeline.Validation PipelineIQ.Pipeline.ReferenceSoundness
open PipelineIQ.Frontend.PipelineEditor PipelineIQ.Frontend.StepNames PipelineIQ.Frontend.YamlGraph

/-! ### The fields of a step -/

theorem key_injective : Function.Injective key := by
  intro a b h
  exact String.toList_injective (Key.text.inj h)

theorem find_record (fields : List (String × Yaml.Node)) (name : String) :
    Dict.find (key name) (record fields) = Dict.find name fields := by
  induction fields with
  | nil => rfl
  | cons f fields ih =>
    obtain ⟨n, v⟩ := f
    rw [record, List.map_cons, Dict.find, Dict.find]
    by_cases hn : n = name
    · rw [if_pos (congrArg key hn), if_pos hn]
    · rw [if_neg fun h => hn (key_injective h), if_neg hn]
      exact ih

theorem getD_record (fields : List (String × Yaml.Node)) (name : String) (default : Yaml.Node) :
    Entries.getD (record fields) (key name) default = (Dict.find name fields).getD default := by
  rw [Entries.getD, find_record]

theorem keys_record (fields : List (String × Yaml.Node)) :
    (record fields).map Prod.fst = (fields.map Prod.fst).map key := by
  rw [record, List.map_map, List.map_map]
  rfl

theorem key_mem_record {fields : List (String × Yaml.Node)} {name : String} :
    key name ∈ (record fields).map Prod.fst ↔ name ∈ fields.map Prod.fst := by
  rw [keys_record, List.mem_map_of_injective key_injective]

theorem keys_sanitizeConfig (config : Entries) :
    (sanitizeConfig config).map Prod.fst = config.map Prod.fst := by
  induction config with
  | nil => rfl
  | cons entry rest ih =>
    obtain ⟨k, v⟩ := entry
    rw [sanitizeConfig, List.map_cons, List.map_cons, ih]

/-- The fields of a step that no configuration has. -/
def ownFields : List String := ["name", "type", "input", "left", "right"]

theorem ownField_not_mem (config : Entries) (t : StepType) {name : String} (h : name ∈ ownFields) :
    key name ∉ (normalizeConfigForYaml config t).map Prod.fst := by
  simp only [ownFields, List.mem_cons, List.not_mem_nil, or_false] at h
  cases t
  case sample =>
    rw [normalizeConfigForYaml, normalizeSampleConfigForYaml, key_mem_record]
    rcases h with rfl | rfl | rfl | rfl | rfl <;>
      (simp only [List.map_append, List.mem_append, not_or]
       refine ⟨⟨⟨?_, ?_⟩, by simp⟩, ?_⟩ <;> split <;> simp)
  case fillNulls =>
    rw [normalizeConfigForYaml, normalizeFillNullsConfigForYaml, key_mem_record]
    rcases h with rfl | rfl | rfl | rfl | rfl <;>
      (simp only [List.map_append, List.mem_append, not_or]
       refine ⟨by simp, ?_⟩
       split <;> simp)
  all_goals
    simp only [normalizeConfigForYaml, normalizeJoinConfigForYaml, normalizeAggregateConfigForYaml,
      normalizePivotConfigForYaml, normalizeUnpivotConfigForYaml, normalizeRenameConfigForYaml,
      normalizeValidateConfigForYaml, key_mem_record, List.map_cons, List.map_nil]
    rcases h with rfl | rfl | rfl | rfl | rfl <;> simp

theorem get?_assignAll {step config : Entries} {k : Key} (h : k ∉ config.map Prod.fst) :
    (assignAll step config).get? k = step.get? k := by
  unfold assignAll
  induction config generalizing step with
  | nil => rfl
  | cons entry rest ih =>
    rw [List.map_cons, List.mem_cons, not_or] at h
    rw [List.foldl_cons, ih h.2, Entries.get?_set, if_neg h.1]

/-- The configuration changes none of the step's own fields. -/
theorem field_emitStep (stepName : Text) (t : StepType) (refs : List (String × Yaml.Node))
    (config : Entries) {name : String} (h : name ∈ ownFields) :
    field (emitStep stepName t refs config) name =
      Dict.find name ([("name", .text stepName), ("type", str t.value)] ++ refs) := by
  have hkeys : key name ∉ (sanitizeConfig (normalizeConfigForYaml config t)).map Prod.fst := by
    rw [keys_sanitizeConfig]
    exact ownField_not_mem config t h
  rw [field, emitStep, get?_assignAll hkeys]
  exact find_record _ name

/-! ### Steps in order -/

/-- The fields that name another step. -/
def refFields (t : StepType) : List String :=
  if t = .join then ["left", "right"] else if 0 < maxInputs t then ["input"] else []

/-- A step as it is written after steps of other names. -/
inductive Emitted (before : List Text) : Text → Entries → Prop where
  | mk {stepName : Text} {t : StepType} {refs : List (String × Yaml.Node)} (config : Entries)
      (isName : IsName stepName) (isNew : stepName ∉ before)
      (shape : refs.map Prod.fst = refFields t)
      (known : ∀ ref ∈ refs, ∃ name ∈ before, ref.2 = .text name) :
      Emitted before stepName (emitStep stepName t refs config)

inductive EmittedAll : List Text → List Entries → Prop where
  | nil (before : List Text) : EmittedAll before []
  | cons {before : List Text} {stepName : Text} {step : Entries} {steps : List Entries}
      (h : Emitted before stepName step) (hrest : EmittedAll (stepName :: before) steps) :
      EmittedAll before (step :: steps)

def nameOf (step : Entries) : Text := asString (field step "name")

def refsOf (step : Entries) : List Yaml.Node := ["input", "left", "right"].filterMap (field step)

variable {before : List Text} {stepName : Text} {step : Entries} {steps : List Entries}

theorem Emitted.nameOf_eq (h : Emitted before stepName step) : nameOf step = stepName := by
  obtain ⟨config, -, -, -, -⟩ := h
  rw [nameOf, field_emitStep _ _ _ _ (by decide)]
  rfl

theorem Emitted.known (h : Emitted before stepName step) :
    ∀ ref ∈ refsOf step, ∃ name ∈ before, ref = .text name := by
  obtain ⟨config, -, -, -, hknown⟩ := h
  intro ref href
  obtain ⟨name, hname, hfield⟩ := List.mem_filterMap.mp href
  have hown : name ∈ ownFields ∧ name ≠ "name" ∧ name ≠ "type" := by
    simp only [List.mem_cons, List.not_mem_nil, or_false] at hname
    rcases hname with rfl | rfl | rfl <;> decide
  rw [field_emitStep _ _ _ _ hown.1, List.cons_append, List.cons_append, List.nil_append, Dict.find,
    if_neg hown.2.1.symm, Dict.find, if_neg hown.2.2.symm] at hfield
  exact hknown (name, ref) (Dict.mem_of_find hfield)

/-- The names are new, each to the names before it. -/
theorem EmittedAll.names (h : EmittedAll before steps) :
    (steps.map nameOf).Nodup ∧ (∀ name ∈ steps.map nameOf, name ∉ before) ∧
      ∀ name ∈ steps.map nameOf, IsName name := by
  induction h with
  | nil => simp
  | cons hstep _ ih =>
    obtain ⟨hnodup, hnew, hnames⟩ := ih
    have hname := hstep.nameOf_eq
    obtain ⟨config, isName, isNew, -, -⟩ := hstep
    rw [List.map_cons, hname, List.nodup_cons]
    refine ⟨⟨fun hmem => hnew _ hmem List.mem_cons_self, hnodup⟩, ?_, ?_⟩
    · intro name hmem
      rcases List.mem_cons.mp hmem with rfl | hmem
      · exact isNew
      · exact fun hbefore => hnew name hmem (List.mem_cons_of_mem _ hbefore)
    · intro name hmem
      rcases List.mem_cons.mp hmem with rfl | hmem
      · exact isName
      · exact hnames name hmem

/-- Every reference is the name of a step before. -/
theorem EmittedAll.references (h : EmittedAll before steps) {earlier later : List Entries}
    (heq : steps = earlier ++ step :: later) :
    ∀ ref ∈ refsOf step, ∃ name, (name ∈ earlier.map nameOf ∨ name ∈ before) ∧ ref = .text name := by
  induction h generalizing earlier with
  | nil => exact absurd heq.symm (List.append_ne_nil_of_right_ne_nil _ (List.cons_ne_nil _ _))
  | cons hstep _ ih =>
    intro ref href
    cases earlier with
    | nil =>
      cases heq
      obtain ⟨name, hname, rfl⟩ := hstep.known ref href
      exact ⟨name, .inr hname, rfl⟩
    | cons first earlier =>
      rw [List.cons_append, List.cons.injEq] at heq
      obtain ⟨rfl, heq⟩ := heq
      obtain ⟨name, hname, rfl⟩ := ih heq ref href
      refine ⟨name, ?_, rfl⟩
      rw [List.map_cons, hstep.nameOf_eq, List.mem_cons]
      rw [List.mem_cons] at hname
      tauto

/-! ### What the parser makes of them -/

variable (py : Python)

theorem find_readFields {raw : Entries} {fs : List Field} {es : List (String × Yaml.Node)}
    (h : fs.mapM (readField raw) = .ok es) (name : String) :
    Dict.find name es =
      (fs.find? fun f => decide (f.name = name)).bind fun f => f.convert (f.value raw) := by
  rw [mapM_ok_iff] at h
  induction h with
  | nil => rfl
  | @cons f e fs es hread _ ih =>
    unfold readField at hread
    split at hread
    · next v hv =>
      cases hread
      rw [Dict.find, List.find?_cons]
      by_cases hname : f.name = name
      · rw [if_pos hname, decide_eq_true hname, Option.bind_some, hv]
      · rw [if_neg hname, decide_eq_false hname]
        exact ih
    · cases hread

theorem ofNode_value (t : StepType) : StepType.ofNode (str t.value) = some t := by
  cases t <;> decide

/-- A number is read as an integer. -/
theorem int_of_isNumber {v : Option Yaml.Node} (h : isNumber v = true) :
    ∃ w, int (v.getD .null) = some w := by
  cases v with
  | none => cases h
  | some v =>
    cases v with
    | int n => exact ⟨.int n, rfl⟩
    | float q => exact ⟨_, rfl⟩
    | _ => cases h

theorem sanitizeValue_number {v : Yaml.Node} (h : isNumber (some v) = true) :
    sanitizeValue v = v := by
  cases v with
  | int n => rw [sanitizeValue]
  | float q => rw [sanitizeValue]
  | _ => cases h

/-- The sizes of a stream's batches are numbers. -/
theorem batch_isNumber (stepName : Text) (refs : List (String × Yaml.Node)) (config : Entries)
    {name : String} (hname : name = "batch_size" ∨ name = "batch_timeout_ms") :
    isNumber (field (emitStep stepName .streamConsume refs config) name) = true := by
  have hnumber : ∀ (v : Option Yaml.Node) (n : Int),
      isNumber (some (sanitizeValue (if isNumber v then v.getD .null else .int n))) = true := by
    intro v n
    by_cases hv : isNumber v = true
    · rw [if_pos hv]
      cases v with
      | none => cases hv
      | some v =>
        rw [Option.getD_some, sanitizeValue_number hv]
        exact hv
    · rw [if_neg hv, sanitizeValue]
      rfl
  rcases hname with rfl | rfl <;>
    simp only [field, emitStep, assignAll, normalizeConfigForYaml, record, sanitizeConfig,
      List.map_cons, List.map_nil, List.foldl_cons, List.foldl_nil, Entries.get?_set,
      key_injective.eq_iff, String.reduceEq, reduceIte]
  · exact hnumber (field config "batch_size") 1000
  · exact hnumber (field config "batch_timeout_ms") 5000

/-- Only the sizes of a stream's batches are converted. -/
theorem convert_total {t : StepType} (h : t ≠ .streamConsume) :
    ∀ f ∈ buildTypedStep py t, ∀ v, ∃ w, f.convert v = some w := by
  cases t <;> first
    | exact absurd rfl h
    | simp [buildTypedStep, input, rawGet, rawGetWith, onField]

/-- Every field of a written step is read. -/
theorem exists_readFields (stepName : Text) (t : StepType) (refs : List (String × Yaml.Node))
    (config : Entries) :
    ∃ es, (buildTypedStep py t).mapM (readField (emitStep stepName t refs config)) = .ok es := by
  apply exists_mapM_ok
  have hread : ∀ {f : Field} {raw : Entries}, (∃ v, f.convert (f.value raw) = some v) →
      ∃ e, readField raw f = .ok e := by
    rintro f raw ⟨v, hv⟩
    exact ⟨(f.name, v), by rw [readField, hv]⟩
  have hbatch : ∀ name default, name = "batch_size" ∨ name = "batch_timeout_ms" →
      ∃ e, readField (emitStep stepName .streamConsume refs config)
        (rawGetWith name default int) = .ok e := by
    intro name default hname
    obtain ⟨v, hv⟩ : ∃ v, field (emitStep stepName .streamConsume refs config) name = some v := by
      have hnumber := batch_isNumber stepName refs config hname
      cases hfield : field (emitStep stepName .streamConsume refs config) name with
      | none =>
        rw [hfield] at hnumber
        cases hnumber
      | some v => exact ⟨v, rfl⟩
    have hnumber := batch_isNumber stepName refs config hname
    obtain ⟨w, hw⟩ := int_of_isNumber hnumber
    refine hread ⟨w, ?_⟩
    rw [hv] at hw
    change int ((field (emitStep stepName .streamConsume refs config) name).getD default) = some w
    rw [hv]
    exact hw
  by_cases ht : t = .streamConsume
  · subst ht
    intro f hf
    simp only [buildTypedStep, List.mem_cons, List.not_mem_nil, or_false] at hf
    rcases hf with rfl | rfl | rfl | rfl | rfl
    · exact hread ⟨_, rfl⟩
    · exact hread ⟨_, rfl⟩
    · exact hbatch _ _ (.inl rfl)
    · exact hbatch _ _ (.inr rfl)
    · exact hread ⟨_, rfl⟩
  · exact fun f hf => hread (convert_total py ht f hf _)

/-- What a step of the pipeline's own gets for a step as it is written. -/
structure Accepted (before : List Text) (stepName : Text) (config : StepConfig) : Prop where
  name : config.name = .text stepName
  isName : IsName stepName
  isNew : stepName ∉ before
  references : ∀ ref ∈ refsToCheck config, ∃ name ∈ before, ref.2 = .text name

theorem getattr_emitted {stepName : Text} {t : StepType} {refs : List (String × Yaml.Node)}
    {config : Entries} {es : List (String × Yaml.Node)} {c : StepConfig} {name : String}
    (hes : (buildTypedStep py t).mapM (readField (emitStep stepName t refs config)) = .ok es)
    (hc : c.fields = es)
    (hfind : ((buildTypedStep py t).find? fun f => decide (f.name = name)) =
      some (rawGet name (str "")))
    (hname : name = "input" ∨ name = "left" ∨ name = "right") (href : name ∈ refs.map Prod.fst) :
    ∃ ref ∈ refs, ref.1 = name ∧ getattr c name = ref.2 := by
  have hown : name ∈ ownFields := by
    rcases hname with rfl | rfl | rfl <;> decide
  have hraw : field (emitStep stepName t refs config) name = Dict.find name refs := by
    rw [field_emitStep _ _ _ _ hown]
    rcases hname with rfl | rfl | rfl <;> rfl
  obtain ⟨v, hv⟩ := Option.isSome_iff_exists.mp (Dict.find_isSome href)
  refine ⟨(name, v), Dict.mem_of_find hv, rfl, ?_⟩
  rw [getattr, hc, find_readFields hes name, hfind, Option.bind_some]
  change (some ((field (emitStep stepName t refs config) name).getD (str ""))).getD .null = v
  rw [hraw, hv]
  rfl

theorem refsToCheck_of_ne_join {c : StepConfig} {t : StepType} (h : c.stepType = .inl t)
    (ht : t ≠ .join) : refsToCheck c = match getattr c "input" with
      | .text t => [("input", .text t)]
      | _ => [] := by
  rw [refsToCheck, h]
  cases t <;> first | exact absurd rfl ht | rfl

/-- The references that the parser checks are those that the step was written with. -/
theorem references_known {t : StepType} {refs : List (String × Yaml.Node)} {config : Entries}
    {es : List (String × Yaml.Node)} {c : StepConfig}
    (hes : (buildTypedStep py t).mapM (readField (emitStep stepName t refs config)) = .ok es)
    (hfields : c.fields = es) (htype : c.stepType = .inl t)
    (shape : refs.map Prod.fst = refFields t)
    (known : ∀ ref ∈ refs, ∃ name ∈ before, ref.2 = .text name) :
    ∀ ref ∈ refsToCheck c, ∃ name ∈ before, ref.2 = .text name := by
  have hget : ∀ name, ((buildTypedStep py t).find? fun f => decide (f.name = name)) =
      some (rawGet name (str "")) → name = "input" ∨ name = "left" ∨ name = "right" →
      name ∈ refFields t → ∃ n ∈ before, getattr c name = .text n := by
    intro name hfind hside hmem
    obtain ⟨r, hr, -, heq⟩ := getattr_emitted py hes hfields hfind hside (shape ▸ hmem)
    obtain ⟨n, hn, htext⟩ := known r hr
    exact ⟨n, hn, heq.trans htext⟩
  intro ref href
  by_cases hjoin : t = .join
  · subst hjoin
    rw [refsToCheck, htype] at href
    rcases List.mem_cons.mp href with rfl | href
    · exact hget "left" rfl (.inr (.inl rfl)) (by decide)
    · rw [List.mem_singleton.mp href]
      exact hget "right" rfl (.inr (.inr rfl)) (by decide)
  · rw [refsToCheck_of_ne_join htype hjoin] at href
    by_cases hmax : 0 < maxInputs t
    · have hinput : ((buildTypedStep py t).find? fun f => decide (f.name = "input")) =
          some (rawGet "input" (str "")) := by
        cases t <;> simp [maxInputs, buildTypedStep, input, rawGet] at hjoin hmax ⊢
      obtain ⟨n, hn, heq⟩ := hget "input" hinput (.inl rfl) (by
        rw [refFields, if_neg hjoin, if_pos hmax]
        exact List.mem_singleton.mpr rfl)
      rw [heq] at href
      rw [List.mem_singleton.mp href]
      exact ⟨n, hn, rfl⟩
    · have habsent : "input" ∉ (buildTypedStep py t).map Field.name := by
        cases t <;> simp [maxInputs, buildTypedStep, rawGet, rawGetWith] at hjoin hmax ⊢
      rw [getattr_null (by rw [hfields]; exact names_of_fields hes) habsent] at href
      cases href

/-- A written step is read with its name and its references. -/
theorem Emitted.parse (h : Emitted before stepName step) :
    ∃ config, parseStep py (.map step) = .ok config ∧ Accepted before stepName config := by
  obtain @⟨t, refs, config, isName, isNew, shape, known⟩ := h
  obtain ⟨es, hes⟩ := exists_readFields py stepName t refs config
  have htype : StepType.ofNode
      (Entries.getD (emitStep stepName t refs config) (key "type") (str "")) = some t := by
    have hfield := field_emitStep stepName t refs config (show "type" ∈ ownFields by decide)
    change StepType.ofNode ((field (emitStep stepName t refs config) "type").getD (str "")) = some t
    rw [hfield]
    exact ofNode_value t
  have hname : Entries.getD (emitStep stepName t refs config) (key "name") (str "") =
      .text stepName := by
    have hfield := field_emitStep stepName t refs config (show "name" ∈ ownFields by decide)
    change (field (emitStep stepName t refs config) "name").getD (str "") = .text stepName
    rw [hfield]
    rfl
  refine ⟨⟨.text stepName, .inl t,
    Entries.getD (emitStep stepName t refs config) (key "contract") .null, es⟩, ?_, rfl, isName, isNew,
    references_known py hes rfl rfl shape known⟩
  rw [parseStep, ParserErrors.parseMapping_known htype, hes, hname]
  rfl

/-! ### The checks of the names and of the references -/

inductive AcceptedAll : List Text → List StepConfig → Prop where
  | nil (before : List Text) : AcceptedAll before []
  | cons {before : List Text} {stepName : Text} {config : StepConfig} {configs : List StepConfig}
      (h : Accepted before stepName config) (hrest : AcceptedAll (stepName :: before) configs) :
      AcceptedAll before (config :: configs)

theorem EmittedAll.parse (h : EmittedAll before steps) :
    ∃ configs, (steps.map Yaml.Node.map).mapM (parseStep py) = .ok configs ∧
      AcceptedAll before configs := by
  induction h with
  | nil before => exact ⟨[], rfl, .nil before⟩
  | cons hstep _ ih =>
    obtain ⟨configs, hconfigs, hall⟩ := ih
    obtain ⟨config, hconfig, haccepted⟩ := hstep.parse py
    refine ⟨config :: configs, ?_, .cons haccepted hall⟩
    rw [List.map_cons, List.mapM_cons, hconfig, hconfigs]
    rfl

variable {configs : List StepConfig}

theorem stepNameFormat_nil {config : StepConfig} (h : Accepted before stepName config) :
    stepNameFormat py config = some [] := by
  have htruthy : (Yaml.Node.text stepName).truthy = true := by
    rw [Yaml.Node.truthy, Bool.not_eq_true', List.isEmpty_eq_false_iff]
    exact h.isName.ne_nil
  have hvalid : isValidIdentifier (.text stepName) = some true := by
    rw [isValidIdentifier, Yaml.Node.asText, Option.map_some, h.isName.isIdentifier]
  rw [stepNameFormat, h.name, htruthy, hvalid]
  rfl

theorem validateStepReference_nil {config : StepConfig} {names : List Yaml.Node}
    (h : Accepted before stepName config) (hnames : ∀ name ∈ before, .text name ∈ names) :
    validateStepReference py names config = some [] := by
  rw [validateStepReference, collect_nil_iff, List.forall_mem_map]
  intro ref href
  obtain ⟨name, hname, htext⟩ := h.references ref href
  have hknown : (names.any fun n => n.same ref.2) = true := by
    rw [List.any_eq_true]
    refine ⟨.text name, hnames name hname, ?_⟩
    rw [htext, Yaml.Node.same]
    exact beq_self_eq_true _
  rw [unknownReference, hknown, Bool.not_true, Bool.and_false]
  rfl

theorem AcceptedAll.formats (h : AcceptedAll before configs) :
    ∀ config ∈ configs, stepNameFormat py config = some [] := by
  induction h with
  | nil => exact fun config hmem => nomatch hmem
  | cons hstep _ ih =>
    intro config hmem
    rcases List.mem_cons.mp hmem with rfl | hmem
    · exact stepNameFormat_nil py hstep
    · exact ih config hmem

theorem AcceptedAll.references {names : List Yaml.Node} (h : AcceptedAll before configs)
    (hnames : ∀ name ∈ before, .text name ∈ names) :
    ∀ checked ∈ checkStepReferencesFrom py names configs, checked = some [] := by
  induction h generalizing names with
  | nil => exact fun checked hmem => nomatch hmem
  | cons hstep _ ih =>
    intro checked hmem
    rw [checkStepReferencesFrom] at hmem
    rcases List.mem_cons.mp hmem with rfl | hmem
    · exact validateStepReference_nil py hstep hnames
    · refine ih ?_ checked hmem
      intro name hname
      rcases List.mem_cons.mp hname with rfl | hname
      · rw [hstep.name]
        exact List.mem_append_right _ (List.mem_singleton.mpr rfl)
      · exact List.mem_append_left _ (hnames name hname)

/-- Names are counted once each. -/
theorem AcceptedAll.counted (seen : List (Key × Yaml.Node × Nat)) (h : AcceptedAll before configs)
    (hseen : ∀ e ∈ seen, e.2.2 = 1 ∧ ∃ name ∈ before, e.1 = .text name) :
    ∃ counts, (configs.map StepConfig.name).foldlM countName seen = some counts ∧
      ∀ e ∈ counts, e.2.2 = 1 := by
  induction h generalizing seen with
  | nil => exact ⟨seen, rfl, fun e he => (hseen e he).1⟩
  | @cons before stepName config configs hstep _ ih =>
    have hfresh : Key.text stepName ∉ seen.map Prod.fst := by
      intro hmem
      obtain ⟨e, he, hkey⟩ := List.mem_map.mp hmem
      obtain ⟨-, name, hname, heq⟩ := hseen e he
      cases hkey.symm.trans heq
      exact hstep.isNew hname
    have hcount : countName seen config.name = some (seen ++ [(.text stepName, .text stepName, 1)]) := by
      rw [countName, hstep.name, Yaml.Node.toKey, Option.map_some, Dict.find_eq_none hfresh]
      dsimp only
      rw [Dict.assign_of_not_mem _ _ _ hfresh]
    rw [List.map_cons, List.foldlM_cons, hcount]
    apply ih
    intro e he
    rcases List.mem_append.mp he with he | he
    · obtain ⟨hone, name, hname, heq⟩ := hseen e he
      exact ⟨hone, name, List.mem_cons_of_mem _ hname, heq⟩
    · rw [List.mem_singleton.mp he]
      exact ⟨rfl, stepName, List.mem_cons_self, rfl⟩

/-- The steps of a pipeline that are all accepted have no problem with names or references. -/
structure NamesAccepted (py : Python) (config : PipelineConfig) : Prop where
  unique : checkDuplicateStepNames py config = some []
  format : forSteps (stepNameFormat py) config = some []
  references : checkStepReferences py config = some []

theorem AcceptedAll.namesAccepted {config : PipelineConfig} (h : AcceptedAll [] config.steps) :
    NamesAccepted py config := by
  refine ⟨?_, ?_, ?_⟩
  · obtain ⟨counts, hcounts, hone⟩ := h.counted [] (by rintro e ⟨⟩)
    have hnone : (counts.filter fun e => decide (1 < e.2.2)) = [] := by
      rw [List.filter_eq_nil_iff]
      intro e he
      simp [hone e he]
    rw [checkDuplicateStepNames, hcounts]
    change some ((counts.filter fun e => decide (1 < e.2.2)).map _) = some []
    rw [hnone, List.map_nil]
  · rw [forSteps, collect_nil_iff, List.forall_mem_map]
    exact h.formats py
  · rw [checkStepReferences, collect_nil_iff]
    exact h.references py (by rintro name ⟨⟩)

/-- The document of written steps is parsed, and its names and references are accepted. -/
theorem EmittedAll.accepted (h : EmittedAll [] steps) (pipelineName : Text) :
    ∃ config, buildPipelineConfig py (graphDocument pipelineName steps) = .ok config ∧
      NamesAccepted py config := by
  obtain ⟨configs, hconfigs, hall⟩ := h.parse py
  have hname : (orText (trim pipelineName) "my_pipeline").truthy = true := by
    rw [orText, Yaml.Node.truthy, Bool.not_eq_true', List.isEmpty_eq_false_iff]
    split
    · decide
    · next hne => exact hne
  refine ⟨⟨orText (trim pipelineName) "my_pipeline", .null, configs⟩, ?_, hall.namesAccepted py⟩
  have hpipeline : pipelineOf (graphDocument pipelineName steps) = some (record
      [("name", orText (trim pipelineName) "my_pipeline"), ("steps", .seq (steps.map .map))]) := by
    rw [pipelineOf, graphDocument, Entries.get?, find_record]
    rfl
  rw [buildPipelineConfig, hpipeline]
  simp only [getD_record, Dict.find, reduceIte, Option.getD_some, String.reduceEq, Option.getD_none,
    hname, Bool.not_true, Bool.false_eq_true, hconfigs]
  rfl

end PipelineIQ.Frontend.EmittedSteps
