import PipelineIQ.Pipeline.Eviction
import PipelineIQ.Pipeline.ParserErrors

namespace PipelineIQ.Pipeline.ReferenceSoundness

open PipelineIQ.Lib PipelineIQ.Lib.Strings PipelineIQ.Lib.Yaml PipelineIQ.Lib.Traverse
open PipelineIQ.Pipeline.Parser PipelineIQ.Pipeline.Validation PipelineIQ.Pipeline.ParserErrors
open PipelineIQ.Pipeline.Runner PipelineIQ.Pipeline.Eviction PipelineIQ.Execution.SqlBuilder

/-! ### The steps as the runner reads them -/

instance : Truthy Key where
  truthy
    | .null => false
    | .number q => q != 0
    | .text t => !t.isEmpty

/-- A reference of `_step_inputs`; `none` where counting it raises, because it is unhashable. -/
def reference (v : Node) : Option (Option Key) :=
  if v.truthy then v.toKey.map some else some none

def runnerStep (step : StepConfig) : Option (Step Key) := do
  let name ← step.name.toKey
  let input ← reference (getattr step "input")
  let left ← reference (getattr step "left")
  let right ← reference (getattr step "right")
  some { name, input, left, right }

/-- The references that the executor of a step looks up in the registry. -/
def resolved (step : StepConfig) : List Node :=
  match step.stepType with
  | .inl .load | .inl .streamConsume => []
  | .inl .join => [getattr step "left", getattr step "right"]
  | .inl _ => [getattr step "input"]
  | .inr _ => []

/-- In every run of the steps, whatever the executors do, a reference that a step resolves is
the name of a step before it, with its output in the registry. -/
def ReferencesSound (config : PipelineConfig) : Prop :=
  ∃ steps, config.steps.mapM runnerStep = some steps ∧
    ∀ (Table Violation : Type) (env : Env Key Table Violation) (i : Nat)
      (hi : i < config.steps.length) (s : State Key Table Violation),
      stateBefore env steps i = .ok s → ∀ v ∈ resolved config.steps[i], ∃ k, v.toKey = some k ∧
        (∃ j, ∃ hj : j < i, config.steps[j].name.toKey = some k) ∧ (s.tableRegistry.get? k).isSome

variable {py : Python} {u : Unicode} {maxPipelineSteps : Nat} {registeredFileIds : List Text}
  {config : PipelineConfig} {step : StepConfig} {v : Node}

/-! ### What a clean validation says -/

theorem forSteps_nil {check : StepConfig → Checked} :
    forSteps check config = some [] ↔ ∀ step ∈ config.steps, check step = some [] := by
  rw [forSteps, collect_nil_iff, List.forall_mem_map]

/-- A validation without errors is one where every check reported nothing. -/
theorem checks_nil {result : ValidationResult}
    (h : validate py u maxPipelineSteps registeredFileIds config = some result)
    (he : result.errors = []) :
    ∀ check ∈ checks py u maxPipelineSteps registeredFileIds, check config = some [] := by
  rw [← List.forall_mem_map (P := fun c : Checked => c = some []), ← collect_nil_iff]
  rw [validate] at h
  cases hc : collect ((checks py u maxPipelineSteps registeredFileIds).map fun check => check config) with
  | none =>
    rw [hc] at h
    cases h
  | some errors =>
    rw [hc] at h
    cases h
    exact congrArg some he

def occurrences (seen : List (Key × Node × Nat)) (k : Key) : Nat :=
  ((Dict.find k seen).map fun e => e.2).getD 0

theorem occurrences_countName {seen seen' : List (Key × Node × Nat)} {name : Node} {k : Key}
    (hk : name.toKey = some k) (h : countName seen name = some seen') (j : Key) :
    occurrences seen' j = occurrences seen j + if j = k then 1 else 0 := by
  rw [countName, hk, Option.map_some, Option.some.injEq] at h
  subst h
  unfold occurrences
  cases hf : Dict.find k seen with
  | none =>
    dsimp only
    rw [Dict.find_assign]
    by_cases hj : j = k
    · subst hj
      simp [hf]
    · simp [hj]
  | some e =>
    dsimp only
    rw [Dict.find_assign]
    by_cases hj : j = k
    · subst hj
      simp [hf]
    · simp [hj]

theorem occurrences_foldlM {names : List Node} {keys : List Key}
    {seen seen' : List (Key × Node × Nat)} (hkeys : names.mapM Node.toKey = some keys)
    (h : names.foldlM countName seen = some seen') (j : Key) :
    occurrences seen' j = occurrences seen j + keys.count j := by
  rw [mapM_some_iff] at hkeys
  induction hkeys generalizing seen with
  | nil =>
    cases h
    rfl
  | @cons name k names keys hk _ ih =>
    rw [List.foldlM_cons] at h
    cases hc : countName seen name with
    | none =>
      rw [hc] at h
      cases h
    | some seen₁ =>
      rw [hc] at h
      rw [ih h, occurrences_countName hk hc, List.count_cons]
      simp only [beq_iff_eq, eq_comm (a := k)]
      omega

theorem names_nodup_of_valid (h : checkDuplicateStepNames py config = some []) :
    ∃ keys, (config.steps.map StepConfig.name).mapM Node.toKey = some keys ∧ keys.Nodup := by
  obtain ⟨keys, hkeys⟩ : ∃ keys, (config.steps.map StepConfig.name).mapM Node.toKey = some keys := by
    rw [← Option.isSome_iff_exists, mapM_isSome_iff, List.forall_mem_map]
    exact checkDuplicateStepNames_isSome.mp (by rw [h]; rfl)
  refine ⟨keys, hkeys, List.nodup_iff_count_le_one.mpr fun k => ?_⟩
  rw [checkDuplicateStepNames] at h
  cases hs : (config.steps.map StepConfig.name).foldlM countName [] with
  | none =>
    rw [hs] at h
    cases h
  | some seen =>
    rw [hs] at h
    have hempty : (seen.filter fun e => 1 < e.2.2) = [] := by simpa using h
    have hcount : occurrences seen k = keys.count k := by
      rw [occurrences_foldlM hkeys hs]
      simp [occurrences, Dict.find]
    rw [← hcount, occurrences]
    cases hf : Dict.find k seen with
    | none => simp
    | some e =>
      have hle := List.filter_eq_nil_iff.mp hempty _ (Dict.mem_of_find hf)
      simpa using hle

theorem text_of_isBlank (h : isBlank v = some false) : ∃ t, v = .text t ∧ t ≠ [] := by
  unfold isBlank at h
  split at h
  · next ht =>
    cases v with
    | text t =>
      refine ⟨t, rfl, ?_⟩
      rintro rfl
      cases ht
    | _ => cases h
  · cases h

theorem failWhen_nil {stepName : Node} {field : String} {message : Text} {bad : Bool}
    (h : failWhen stepName field message bad = []) : bad = false := by
  cases bad with
  | false => rfl
  | true => cases h

theorem mustFill_nil {field message : String} (h : mustFill step field message = some []) :
    ∃ t, getattr step field = .text t ∧ t ≠ [] := by
  rw [mustFill, Option.map_eq_some_iff] at h
  obtain ⟨blank, hblank, hfail⟩ := h
  rw [failWhen_nil hfail] at hblank
  exact text_of_isBlank hblank

theorem requiredInput_nil {t : Text} (h : requiredInput step = some [])
    (ht : getattr step "input" = .text t) : t ≠ [] := by
  rw [requiredInput, ht] at h
  have hfail := failWhen_nil (Option.some.inj h)
  rintro rfl
  cases hfail

theorem isBlank_of_required (h : requiredStepFields py step = some []) :
    isBlank step.name = some false := by
  cases hb : isBlank step.name with
  | none =>
    rw [requiredStepFields, hb] at h
    cases h
  | some blank =>
    cases blank with
    | false => rfl
    | true =>
      rw [requiredStepFields, hb] at h
      cases failWhen_nil (Option.some.inj h)

theorem type_of_known (h : stepTypeKnown py step = some []) : ∃ t, step.stepType = .inl t := by
  unfold stepTypeKnown at h
  cases htype : step.stepType with
  | inl t => exact ⟨t, rfl⟩
  | inr v =>
    rw [htype, Option.map_eq_some_iff] at h
    obtain ⟨suggestion, -, hcons⟩ := h
    cases hcons

theorem names_of_fields {raw : Entries} {fs : List Field} {es : List (String × Node)}
    (h : fs.mapM (readField raw) = .ok es) : es.map Prod.fst = fs.map Field.name := by
  rw [mapM_ok_iff] at h
  induction h with
  | nil => rfl
  | cons hread _ ih =>
    rw [List.map_cons, List.map_cons, ih]
    unfold readField at hread
    split at hread
    · cases hread
      rfl
    · cases hread

/-- The fields that a parsed step has are those of its type. -/
theorem fields_of_parse {raw : Node} (h : parseStep py raw = .ok step) {t : StepType}
    (ht : step.stepType = .inl t) :
    step.fields.map Prod.fst = (buildTypedStep py t).map Field.name := by
  cases raw with
  | map entries =>
    rw [parseStep] at h
    cases htype : StepType.ofNode (Entries.getD entries (key "type") (str "")) with
    | none =>
      unfold parseMapping at h
      dsimp only at h
      rw [htype] at h
      cases h
      cases ht
    | some t' =>
      rw [parseMapping_known htype] at h
      cases hfields : (buildTypedStep py t').mapM (readField entries) with
      | error e =>
        rw [hfields] at h
        cases h
      | ok fields =>
        rw [hfields] at h
        cases h
        cases ht
        exact names_of_fields hfields
  | _ => cases h

theorem parsed_step {yaml : PyYaml} {isWord : Char → Bool} {text : Text}
    (h : parse yaml isWord py text = .ok config) (hs : step ∈ config.steps) :
    ∃ raw, parseStep py raw = .ok step := by
  unfold parse at h
  cases hd : parseYaml yaml isWord text with
  | error e =>
    rw [hd] at h
    cases h
  | ok document =>
    rw [hd] at h
    change buildPipelineConfig py document = .ok config at h
    unfold buildPipelineConfig at h
    split at h
    · cases h
    · dsimp only at h
      split at h
      · cases h
      · split at h
        · next rawSteps _ =>
          cases hsteps : rawSteps.mapM (parseStep py) with
          | error e =>
            rw [hsteps] at h
            cases h
          | ok steps =>
            rw [hsteps] at h
            cases h
            obtain ⟨raw, -, hok⟩ := forall₂_mem_right (mapM_ok_iff.mp hsteps) hs
            exact ⟨raw, hok⟩
        · cases h

/-- Only a join has a left and a right side, and a source no input. -/
theorem getattr_null {t : StepType} {name : String}
    (hfields : step.fields.map Prod.fst = (buildTypedStep py t).map Field.name)
    (hname : name ∉ (buildTypedStep py t).map Field.name) : getattr step name = .null := by
  rw [getattr, Dict.find_eq_none (hfields ▸ hname)]
  rfl

theorem sides_absent (py : Python) {t : StepType} (h : t ≠ .join) :
    "left" ∉ (buildTypedStep py t).map Field.name ∧ "right" ∉ (buildTypedStep py t).map Field.name := by
  cases t <;> first | exact absurd rfl h | (constructor <;> simp [buildTypedStep, input, rawGet, rawGetWith])

theorem input_absent {t : StepType} (h : t = .load ∨ t = .streamConsume ∨ t = .join) :
    "input" ∉ (buildTypedStep py t).map Field.name := by
  rcases h with rfl | rfl | rfl <;> simp [buildTypedStep, rawGet, rawGetWith, onField]

/-! ### References of a validated pipeline -/

theorem eq_of_same_text {t : Text} (h : v.same (.text t) = true) : v = .text t := by
  cases v with
  | text t' =>
    rw [Node.same] at h
    have ht := eq_of_beq h
    rw [Node.toKey, Option.some.injEq, Key.text.injEq] at ht
    rw [ht]
  | seq items => cases h
  | map entries => cases h
  | null => cases h
  | bool b =>
    rw [Node.same] at h
    cases eq_of_beq h
  | int n =>
    rw [Node.same] at h
    cases eq_of_beq h
  | float q =>
    rw [Node.same] at h
    cases eq_of_beq h

theorem known_of_reference {names : List Node} {field : String} {t : Text}
    (h : unknownReference py names step (field, .text t) = some []) (ht : t ≠ []) :
    .text t ∈ names := by
  have htruthy : (Node.text t).truthy = true := by
    cases t with
    | nil => exact absurd rfl ht
    | cons c t => rfl
  unfold unknownReference at h
  cases hany : names.any fun name => name.same (.text t) with
  | true =>
    obtain ⟨name, hname, hsame⟩ := List.any_eq_true.mp hany
    exact eq_of_same_text hsame ▸ hname
  | false =>
    rw [htruthy, hany] at h
    simp only [Bool.not_false, Bool.and_self, ↓reduceIte, Option.map_eq_some_iff, List.cons_ne_nil,
      and_false, exists_false] at h

/-- The facts about one step that a clean validation leaves, with the names before it. -/
structure ValidatedStep (py : Python) (names : List Node) (step : StepConfig) : Prop where
  required : requiredStepFields py step = some []
  known : stepTypeKnown py step = some []
  references : validateStepReference py names step = some []

theorem validated_steps {result : ValidationResult}
    (h : validate py u maxPipelineSteps registeredFileIds config = some result)
    (he : result.errors = []) {before after : List StepConfig}
    (hsteps : config.steps = before ++ step :: after) :
    ValidatedStep py (before.map StepConfig.name) step := by
  have hchecks := checks_nil h he
  simp only [checks, List.forall_mem_cons] at hchecks
  obtain ⟨-, -, -, -, -, hknown, hrequired, hrefs, -⟩ := hchecks
  have hs : step ∈ config.steps := by
    rw [hsteps]
    exact List.mem_append_right before List.mem_cons_self
  refine ⟨forSteps_nil.mp hrequired step hs, forSteps_nil.mp hknown step hs, ?_⟩
  exact collect_nil_iff.mp hrefs _ (mem_checkStepReferencesFrom.mpr ⟨before, step, after, hsteps, rfl⟩)

theorem ValidatedStep.name {names : List Node} (h : ValidatedStep py names step) :
    ∃ t, step.name = .text t := by
  obtain ⟨t, ht, -⟩ := text_of_isBlank (isBlank_of_required h.required)
  exact ⟨t, ht⟩

theorem ValidatedStep.fields {names : List Node} (h : ValidatedStep py names step) {t : StepType}
    (ht : step.stepType = .inl t) : ∀ c ∈ requiredFields py step t, c = some [] := by
  have hr := h.required
  rw [requiredStepFields_named (isBlank_of_required h.required), ht] at hr
  exact collect_nil_iff.mp hr

theorem ValidatedStep.reference {names : List Node} (h : ValidatedStep py names step)
    (field : String) {t : Text} (hm : (field, .text t) ∈ refsToCheck step) (ht : t ≠ []) :
    .text t ∈ names :=
  known_of_reference (collect_nil_iff.mp h.references _ (List.mem_map_of_mem hm)) ht

theorem requiredInput_mem {t : StepType} (ht : t ≠ .load ∧ t ≠ .join ∧ t ≠ .streamConsume) :
    requiredInput step ∈ requiredFields py step t := by
  obtain ⟨hl, hj, hs⟩ := ht
  cases t with
  | load => exact absurd rfl hl
  | join => exact absurd rfl hj
  | streamConsume => exact absurd rfl hs
  | _ => exact List.mem_cons_self

/-- A text that a validated step resolves is the name of an earlier step. -/
theorem ValidatedStep.resolved {names : List Node} (h : ValidatedStep py names step)
    (hv : v ∈ resolved step) (htext : v.isText = true) :
    ∃ t, v = .text t ∧ t ≠ [] ∧ .text t ∈ names := by
  obtain ⟨type, htype⟩ := type_of_known h.known
  have hfields := h.fields htype
  unfold ReferenceSoundness.resolved at hv
  rw [htype] at hv
  by_cases hj : type = .join
  · subst hj
    simp only [requiredFields, List.forall_mem_cons] at hfields
    obtain ⟨hleft, hright, -⟩ := hfields
    rcases List.mem_cons.mp hv with rfl | hv
    · obtain ⟨t, ht, hne⟩ := mustFill_nil hleft
      refine ⟨t, ht, hne, h.reference "left" ?_ hne⟩
      simp only [refsToCheck, htype, ht, List.mem_cons, true_or]
    · rw [List.mem_singleton] at hv
      subst hv
      obtain ⟨t, ht, hne⟩ := mustFill_nil hright
      refine ⟨t, ht, hne, h.reference "right" ?_ hne⟩
      simp only [refsToCheck, htype, ht, List.mem_cons, true_or, or_true]
  · by_cases hsource : type = .load ∨ type = .streamConsume
    · rcases hsource with rfl | rfl <;> cases hv
    · have hin : v = getattr step "input" := by
        cases type with
        | load => exact absurd (.inl rfl) hsource
        | streamConsume => exact absurd (.inr rfl) hsource
        | join => exact absurd rfl hj
        | _ => exact List.mem_singleton.mp hv
      subst hin
      cases hi : getattr step "input" with
      | text t =>
        have hne := requiredInput_nil (hfields _ (requiredInput_mem ⟨fun h => hsource (.inl h), hj,
          fun h => hsource (.inr h)⟩)) hi
        refine ⟨t, rfl, hne, h.reference "input" ?_ hne⟩
        unfold refsToCheck
        rw [htype]
        split
        · next he =>
          cases he
          exact absurd rfl hj
        · rw [hi]
          exact List.mem_singleton.mpr rfl
      | _ =>
        rw [hi] at htext
        cases htext

/-! ### The run -/

theorem reference_null : reference .null = some none := rfl

theorem reference_text {t : Text} (ht : t ≠ []) : reference (.text t) = some (some (.text t)) := by
  cases t with
  | nil => exact absurd rfl ht
  | cons c t => rfl

theorem truthy_text {t : Text} (ht : t ≠ []) : Truthy.truthy (Key.text t) = true := by
  cases t with
  | nil => exact absurd rfl ht
  | cons c t => rfl

/-- A step whose references are texts is read by the runner with exactly these references. -/
theorem runnerStep_of_texts {names : List Node} (h : ValidatedStep py names step) {raw : Node}
    (hparse : parseStep py raw = .ok step) (hr : ∀ v ∈ resolved step, v.isText = true) :
    ∃ s, runnerStep step = some s ∧ step.name.toKey = some s.name ∧
      ∀ k, k ∈ stepInputs s ↔ ∃ v ∈ resolved step, v.toKey = some k := by
  obtain ⟨n, hn⟩ := h.name
  obtain ⟨type, htype⟩ := type_of_known h.known
  have hfields := fields_of_parse hparse htype
  have hres : ∀ v ∈ resolved step, ∃ t, v = .text t ∧ t ≠ [] := by
    intro v hv
    obtain ⟨t, ht, hne, -⟩ := h.resolved hv (hr v hv)
    exact ⟨t, ht, hne⟩
  have hname : step.name.toKey = some (.text n) := by
    rw [hn]
    rfl
  by_cases hj : type = .join
  · subst hj
    have hin := getattr_null hfields (input_absent (.inr (.inr rfl)))
    have hrefs : resolved step = [getattr step "left", getattr step "right"] := by
      rw [resolved, htype]
    obtain ⟨l, hl, hlne⟩ := hres (getattr step "left") (by simp only [hrefs, List.mem_cons, true_or])
    obtain ⟨r, hr', hrne⟩ := hres (getattr step "right")
      (by simp only [hrefs, List.mem_cons, true_or, or_true])
    refine ⟨⟨.text n, none, some (.text l), some (.text r)⟩, ?_, hname, fun k => ?_⟩
    · rw [runnerStep, hname, hin, hl, hr', reference_null, reference_text hlne, reference_text hrne]
      rfl
    · rw [hrefs, hl, hr']
      simp [stepInputs, truthy_text hlne, truthy_text hrne, Node.toKey, eq_comm]
  · obtain ⟨hleft, hright⟩ := sides_absent py hj
    have hl := getattr_null hfields hleft
    have hr' := getattr_null hfields hright
    by_cases hsource : type = .load ∨ type = .streamConsume
    · have hin := getattr_null hfields (input_absent (hsource.imp_right .inl))
      have hrefs : resolved step = [] := by
        rcases hsource with rfl | rfl <;> rw [resolved, htype]
      refine ⟨⟨.text n, none, none, none⟩, ?_, hname, fun k => ?_⟩
      · rw [runnerStep, hname, hin, hl, hr', reference_null]
        rfl
      · rw [hrefs]
        simp [stepInputs]
    · have hrefs : resolved step = [getattr step "input"] := by
        rw [resolved, htype]
        cases type with
        | load => exact absurd (.inl rfl) hsource
        | streamConsume => exact absurd (.inr rfl) hsource
        | join => exact absurd rfl hj
        | _ => rfl
      obtain ⟨t, ht, hne⟩ := hres (getattr step "input") (by rw [hrefs]; exact List.mem_cons_self)
      refine ⟨⟨.text n, some (.text t), none, none⟩, ?_, hname, fun k => ?_⟩
      · rw [runnerStep, hname, ht, hl, hr', reference_null, reference_text hne]
        rfl
      · rw [hrefs, ht]
        simp [stepInputs, truthy_text hne, Node.toKey, eq_comm]

/-- An executor that always returns. -/
def returningEnv : Env Key Unit Unit where
  execute _ step := .returned
    { stepName := step.name, outputTable := (), rowsIn := 0, rowsOut := 0, durationMs := 0 }
  validateStepContract _ _ := some []

theorem loop_returning (total index : Nat) (steps : List (Step Key)) (s : State Key Unit Unit) :
    ∃ t, loop returningEnv total index steps s = .ok t := by
  induction steps generalizing index s with
  | nil => exact ⟨s, rfl⟩
  | cons step steps ih =>
    obtain ⟨u, hu⟩ : ∃ u, loopBody returningEnv total index step s = .ok u := ⟨_, rfl⟩
    obtain ⟨t, ht⟩ := ih (index + 1) u
    refine ⟨t, ?_⟩
    rw [loop, hu]
    exact ht

/-- References that resolve in every run are names of earlier steps, so they are texts. -/
theorem text_of_sound {result : ValidationResult}
    (hvalid : validate py u maxPipelineSteps registeredFileIds config = some result)
    (herrors : result.errors = []) (hsound : ReferencesSound config) :
    ∀ step ∈ config.steps, ∀ v ∈ resolved step, v.isText = true := by
  obtain ⟨steps, -, hrun⟩ := hsound
  intro step hs v hv
  obtain ⟨i, hi, rfl⟩ := List.getElem_of_mem hs
  obtain ⟨s, hloop⟩ := loop_returning steps.length 0 (steps.take i) (initial steps)
  obtain ⟨k, hk, ⟨j, hj, hname⟩, -⟩ := hrun Unit Unit returningEnv i hi s hloop v hv
  have hsplit : config.steps = config.steps.take j ++ config.steps[j] :: config.steps.drop (j + 1) := by
    rw [← List.drop_eq_getElem_cons (by omega), List.take_append_drop]
  obtain ⟨t, ht⟩ := (validated_steps hvalid herrors hsplit).name
  rw [ht, Node.toKey, Option.some.injEq] at hname
  subst hname
  cases v with
  | text t' => rfl
  | _ => cases hk

/-- What the runner makes of the steps of a validated pipeline whose references are texts. -/
theorem runnerSteps_of_valid {yaml : PyYaml} {isWord : Char → Bool} {text : Text}
    {result : ValidationResult} (hparse : parse yaml isWord py text = .ok config)
    (hvalid : validate py u maxPipelineSteps registeredFileIds config = some result)
    (herrors : result.errors = [])
    (htexts : ∀ step ∈ config.steps, ∀ v ∈ resolved step, v.isText = true) :
    ∃ steps, config.steps.mapM runnerStep = some steps ∧ (steps.map Step.name).Nodup ∧
      RefersBack steps ∧ ∀ (i : Nat) (hi : i < config.steps.length) (hi' : i < steps.length),
        config.steps[i].name.toKey = some steps[i].name ∧
          ∀ k, k ∈ stepInputs steps[i] ↔ ∃ v ∈ resolved config.steps[i], v.toKey = some k := by
  have hsplit : ∀ i (hi : i < config.steps.length), config.steps =
      config.steps.take i ++ config.steps[i] :: config.steps.drop (i + 1) := by
    intro i hi
    rw [← List.drop_eq_getElem_cons hi, List.take_append_drop]
  have hone : ∀ i (hi : i < config.steps.length), ∃ s, runnerStep config.steps[i] = some s ∧
      config.steps[i].name.toKey = some s.name ∧
        ∀ k, k ∈ stepInputs s ↔ ∃ v ∈ resolved config.steps[i], v.toKey = some k := by
    intro i hi
    have hmem := List.getElem_mem hi
    obtain ⟨raw, hraw⟩ := parsed_step hparse hmem
    exact runnerStep_of_texts (validated_steps hvalid herrors (hsplit i hi)) hraw
      (htexts _ hmem)
  obtain ⟨steps, hsteps⟩ : ∃ steps, config.steps.mapM runnerStep = some steps := by
    rw [← Option.isSome_iff_exists, mapM_isSome_iff]
    intro step hs
    obtain ⟨i, hi, rfl⟩ := List.getElem_of_mem hs
    obtain ⟨s, hs, -⟩ := hone i hi
    rw [hs]
    rfl
  have hall := mapM_some_iff.mp hsteps
  have hlen := hall.length_eq
  have hread : ∀ (i : Nat) (hi : i < config.steps.length) (hi' : i < steps.length),
      config.steps[i].name.toKey = some steps[i].name ∧
        ∀ k, k ∈ stepInputs steps[i] ↔ ∃ v ∈ resolved config.steps[i], v.toKey = some k := by
    intro i hi hi'
    obtain ⟨s, hs, hfacts⟩ := hone i hi
    have hget := hall.get hi hi'
    rw [List.get_eq_getElem, List.get_eq_getElem, hs, Option.some.injEq] at hget
    exact hget ▸ hfacts
  refine ⟨steps, hsteps, ?_, ?_, hread⟩
  · obtain ⟨keys, hkeys, hnodup⟩ := names_nodup_of_valid
      (checks_nil hvalid herrors (checkDuplicateStepNames py) (by simp [checks]))
    have hnames : steps.map Step.name = keys := by
      have hk := mapM_some_iff.mp hkeys
      have hklen : steps.length = keys.length := by
        rw [← hk.length_eq, List.length_map, hlen]
      apply List.ext_getElem (by rw [List.length_map, hklen])
      intro i h1 h2
      rw [List.length_map] at h1
      have hkey := hk.get (by rw [List.length_map, hlen]; exact h1) h2
      rw [List.get_eq_getElem, List.get_eq_getElem, List.getElem_map,
        (hread i (by omega) h1).1, Option.some.injEq] at hkey
      rw [List.getElem_map]
      exact hkey
    rw [hnames]
    exact hnodup
  · intro k hk ref href
    have hk' : k < config.steps.length := by omega
    obtain ⟨v, hv, hkey⟩ := ((hread k hk' hk).2 ref).mp href
    obtain ⟨t, rfl, -, hbefore⟩ := (validated_steps hvalid herrors (hsplit k hk')).resolved hv
      (htexts _ (List.getElem_mem hk') v hv)
    obtain ⟨step, hstep, hname⟩ := List.mem_map.mp hbefore
    obtain ⟨j, hj, rfl⟩ := List.getElem_of_mem hstep
    rw [List.length_take] at hj
    rw [List.getElem_take] at hname
    have hjk := (hread j (by omega) (by omega)).1
    rw [hname, hkey, Option.some.injEq] at hjk
    rw [List.mem_map]
    exact ⟨steps[j], List.mem_take_iff_getElem.mpr ⟨j, by omega, rfl⟩, hjk.symm⟩

/-- For a pipeline text that parses and validates without errors, all references of every run
resolve exactly when no step that reads an input has something other than a text there. -/
theorem validated_references_sound (yaml : PyYaml) (isWord : Char → Bool) (py : Python)
    (u : Unicode) (maxPipelineSteps : Nat) (registeredFileIds : List Text) (text : Text)
    (config : PipelineConfig) (result : ValidationResult)
    (hparse : parse yaml isWord py text = .ok config)
    (hvalid : validate py u maxPipelineSteps registeredFileIds config = some result)
    (herrors : result.errors = []) :
    ReferencesSound config ↔ ∀ step ∈ config.steps, ∀ v ∈ resolved step, v.isText = true := by
  constructor
  · exact text_of_sound hvalid herrors
  · intro htexts
    obtain ⟨steps, hsteps, hnodup, hback, hread⟩ :=
      runnerSteps_of_valid hparse hvalid herrors htexts
    have hlen := (mapM_some_iff.mp hsteps).length_eq
    refine ⟨steps, hsteps, ?_⟩
    intro Table Violation env i hi s hs v hv
    have hi' : i < steps.length := by omega
    have hres := resident_stateBefore hnodup hback (Nat.le_of_lt hi') hs
    obtain ⟨k, hk⟩ : ∃ k, v.toKey = some k := by
      have ht := htexts _ (List.getElem_mem hi) v hv
      cases v with
      | text t => exact ⟨.text t, rfl⟩
      | _ => cases ht
    obtain ⟨j, hj, table, hname, -, htable⟩ :=
      hres.input hback hi' (((hread i hi hi').2 k).mpr ⟨v, hv, hk⟩)
    refine ⟨k, hk, ⟨j, hj, ?_⟩, ?_⟩
    · rw [(hread j (by omega) (by omega)).1, hname]
    · rw [htable]
      rfl

section Examples

def saveText (reference : String) : Text :=
  ("name: p\nsteps:\n  - name: raw\n    type: load\n    file_id: f1\n  - name: out\n    type: save\n" ++
    "    input: " ++ reference ++ "\n    filename: out.csv\n").toList

def saveDocument (reference : Node) : Entries :=
  [(key "name", str "p"), (key "steps", .seq
    [.map [(key "name", str "raw"), (key "type", str "load"), (key "file_id", str "f1")],
     .map [(key "name", str "out"), (key "type", str "save"), (key "input", reference),
       (key "filename", str "out.csv")]])]

def saveConfig (reference : Node) : PipelineConfig :=
  ⟨str "p", .null,
    [⟨str "raw", .inl .load, .null, [("file_id", str "f1"), ("alias", .null)]⟩,
     ⟨str "out", .inl .save, .null, [("input", reference), ("filename", str "out.csv")]⟩]⟩

def clean : ValidationResult := ⟨true, [], []⟩

/-- An input that is a number passes the validation and no run can resolve it. -/
theorem number_reference_unsound :
    parse (reading (saveDocument (.int 5))).toPyYaml Char.isAlphanum numberPython (saveText "5") =
        .ok (saveConfig (.int 5)) ∧
      (∀ u, validate numberPython u 50 ["f1".toList] (saveConfig (.int 5)) = some clean) ∧
      ¬ ReferencesSound (saveConfig (.int 5)) := by
  have hvalid : ∀ u, validate numberPython u 50 ["f1".toList] (saveConfig (.int 5)) = some clean :=
    fun u => rfl
  refine ⟨rfl, hvalid, ?_⟩
  rintro ⟨steps, hsteps, hrun⟩
  cases hsteps
  obtain ⟨s, hs⟩ := loop_returning 2 0 _ (initial _)
  obtain ⟨k, hk, ⟨j, hj, hname⟩, -⟩ :=
    hrun Unit Unit returningEnv 1 (by decide) s hs (.int 5) (List.mem_singleton.mpr rfl)
  cases hk
  obtain rfl : j = 0 := by omega
  cases hname

theorem toLower_beq (p c : Char) (h : c.toLower = p) : (c.toLower == p) = true :=
  beq_iff_eq.mpr h

def asciiText : Unicode where
  isWord c := c.isAlphanum || c == '_'
  isFold p c := c.toLower == p
  isWord_ascii _ _ := rfl
  isFold_toLower := toLower_beq

theorem validated_references_sound_save : ReferencesSound (saveConfig (str "raw")) := by
  refine (validated_references_sound (reading (saveDocument (str "raw"))).toPyYaml Char.isAlphanum
    numberPython asciiText 50 ["f1".toList] (saveText "raw") (saveConfig (str "raw")) clean rfl rfl
    rfl).mpr ?_
  intro step hs v hv
  rcases List.mem_cons.mp hs with rfl | hs
  · cases hv
  · rw [List.mem_singleton] at hs
    subst hs
    rw [List.mem_singleton.mp hv]
    rfl

end Examples

end PipelineIQ.Pipeline.ReferenceSoundness
