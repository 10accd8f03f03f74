import PipelineIQ.Healing.Lockstep
import PipelineIQ.Pipeline.Turns

namespace PipelineIQ.Healing.Fidelity

open PipelineIQ.Lib PipelineIQ.Lib.Strings PipelineIQ.Lib.Yaml PipelineIQ.Lib.Traverse
open PipelineIQ.Pipeline.Parser PipelineIQ.Pipeline.Validation PipelineIQ.Pipeline.ParserErrors
open PipelineIQ.Pipeline.ReferenceSoundness PipelineIQ.Execution.SqlBuilder
open PipelineIQ.Healing.Sandbox PipelineIQ.Healing.Lockstep PipelineIQ.Pipeline.Turns
open PipelineIQ.Pipeline
open PipelineIQ.Pipeline.Runner (Truthy)
open PipelineIQ.Pipeline.Eviction (uses_drop)

variable {Table Violation : Type}

/-- The step types with an entry in the dispatch table of the runner's executor. -/
def hasExecutor (step : StepConfig) : Bool :=
  match step.stepType with
  | .inl .transform | .inl .streamConsume | .inr _ => false
  | .inl _ => true

/-- A lookup of a reference in the registry. A save of the sandbox that does not find its input
takes the last result instead. -/
def Resolves (registry : Dict Key Table) (v : Node) : Prop :=
  ∃ k, v.toKey = some k ∧ (registry.get? k).isSome

/-- An executor returns only for a type it has and with the step's references found. -/
def Executes (config : PipelineConfig) (env : Runner.Env Key Table Violation) : Prop :=
  ∀ step ∈ config.steps, ∀ s, runnerStep step = some s → ∀ registry result,
    env.execute registry s = .returned result →
      hasExecutor step = true ∧ ∀ v ∈ resolved step, Resolves registry v

/-- Whatever the executors of both do: at a step that both loops reach, the same references
resolve, and where the runner gets to the end no missing input stops the sandbox. -/
structure SandboxFaithful (config : PipelineConfig) : Prop where
  resolves : ∀ (Table Violation : Type) (env : Runner.Env Key Table Violation)
    (engine : Engine Table) (sampledTables : Key → Option Table) (steps : List (Runner.Step Key)),
    config.steps.mapM runnerStep = some steps → Executes config env →
    ∀ (i : Nat) (hi : i < config.steps.length) (s : Runner.State Key Table Violation)
      (b : State Table), Runner.stateBefore env steps i = .ok s →
      stateBefore engine sampledTables config.steps i = .ok b → ∀ v ∈ resolved config.steps[i],
        Resolves s.tableRegistry v ↔ Resolves b.tableRegistry v
  accepts : ∀ (Table Violation : Type) (env : Runner.Env Key Table Violation)
    (engine : Engine Table) (sampledTables : Key → Option Table) (steps : List (Runner.Step Key)),
    config.steps.mapM runnerStep = some steps → Executes config env →
    ∀ s, Runner.stateBefore env steps steps.length = .ok s → ∀ stepName inputName,
      runPipelineInSandbox engine sampledTables config ≠ .error (.notAvailable stepName inputName)

/-- What a run can get to: an executor and texts as references in all steps before. -/
def Reached (config : PipelineConfig) (i : Nat) : Prop :=
  ∀ step ∈ config.steps.take i, hasExecutor step = true ∧ ∀ v ∈ resolved step, v.isText = true

/-- No step that a run can get to reads the output of a save. -/
def ReadsNoSave (config : PipelineConfig) : Prop :=
  ∀ steps, config.steps.mapM runnerStep = some steps → ∀ i (hi : i < config.steps.length),
    Reached config i → ∀ v ∈ resolved config.steps[i], ∀ save ∈ config.steps,
      isSave save = true → v ≠ save.name

/-! ### What a validated pipeline gives -/

section Validated

variable {py : Python} {u : Unicode} {maxPipelineSteps : Nat} {registeredFileIds : List Text}
  {config : PipelineConfig} {result : ValidationResult} {yaml : PyYaml} {isWord : Char → Bool}
  {text : Text} {steps : List (Runner.Step Key)} {v : Node} {k : Key} {step : StepConfig}
  {r : Runner.Step Key} {s : Runner.State Key Table Violation} {b : State Table}
  {env : Runner.Env Key Table Violation} {engine : Engine Table}
  {sampledTables : Key → Option Table}

theorem truthy_key (h : v.toKey = some k) : Truthy.truthy k = v.truthy := by
  cases v with
  | null => cases h; rfl
  | text t => cases h; cases t <;> rfl
  | int n =>
    cases h
    rw [Bool.eq_iff_iff]
    simp [Truthy.truthy, Node.truthy]
  | bool c =>
    cases h
    cases c <;> rfl
  | float q =>
    cases h
    rfl
  | seq items => cases h
  | map entries => cases h

theorem reference_keys {o : Option Key} (h : reference v = some o) :
    ([v].filter Node.truthy).mapM Node.toKey = some (o.toList.filter Truthy.truthy) := by
  unfold reference at h
  split at h
  · next htrue =>
    obtain ⟨k, hk, rfl⟩ := Option.map_eq_some_iff.mp h
    simp [htrue, hk, truthy_key hk]
  · next hfalse =>
    cases h
    simp [hfalse]

theorem filter_getattrOrEmpty (step : StepConfig) (name : String) :
    [getattrOrEmpty step name].filter Node.truthy = [getattr step name].filter Node.truthy := by
  unfold getattrOrEmpty getattr
  cases Dict.find name step.fields with
  | none => rfl
  | some v => rfl

theorem mapM_append {xs ys : List Node} {ks ls : List Key} (hx : xs.mapM Node.toKey = some ks)
    (hy : ys.mapM Node.toKey = some ls) : (xs ++ ys).mapM Node.toKey = some (ks ++ ls) := by
  rw [List.mapM_append, hx, hy]
  rfl

/-- Both loops count and release the same references. -/
theorem dependencies_of_runnerStep {type : StepType} (htype : step.stepType = .inl type)
    (hfields : step.fields.map Prod.fst = (buildTypedStep py type).map Field.name)
    (h : runnerStep step = some r) :
    step.name.toKey = some r.name ∧
      (stepDependencies step).mapM Node.toKey = some (Runner.stepInputs r) := by
  obtain ⟨name, hname, h⟩ := Option.bind_eq_some_iff.mp h
  obtain ⟨input, hinput, h⟩ := Option.bind_eq_some_iff.mp h
  obtain ⟨left, hleft, h⟩ := Option.bind_eq_some_iff.mp h
  obtain ⟨right, hright, h⟩ := Option.bind_eq_some_iff.mp h
  cases h
  refine ⟨hname, ?_⟩
  have hinputs : Runner.stepInputs (⟨name, input, left, right⟩ : Runner.Step Key) =
      input.toList.filter Truthy.truthy ++
        (left.toList.filter Truthy.truthy ++ right.toList.filter Truthy.truthy) := by
    rw [← List.filter_append, ← List.filter_append]
    cases input <;> cases left <;> cases right <;> rfl
  rw [hinputs]
  by_cases hjoin : type = .join
  · subst hjoin
    rw [getattr_null hfields (input_absent (.inr (.inr rfl))), reference_null] at hinput
    cases hinput
    have hdeps : stepDependencies step = [getattr step "left"].filter Node.truthy ++
        [getattr step "right"].filter Node.truthy := by
      rw [stepDependencies, htype, ← filter_getattrOrEmpty, ← filter_getattrOrEmpty,
        ← List.filter_append]
      rfl
    rw [hdeps]
    exact (mapM_append (reference_keys hleft) (reference_keys hright) :)
  · obtain ⟨hl, hr⟩ := sides_absent py hjoin
    rw [getattr_null hfields hl, reference_null] at hleft
    rw [getattr_null hfields hr, reference_null] at hright
    cases hleft
    cases hright
    have hdeps : stepDependencies step = [getattr step "input"].filter Node.truthy := by
      rw [stepDependencies, htype]
      cases type with
      | join => exact absurd rfl hjoin
      | load =>
        rw [getattr_null hfields (input_absent (.inl rfl))]
        rfl
      | _ => exact filter_getattrOrEmpty step "input"
    rw [hdeps]
    exact (reference_keys hinput).trans (by simp)

theorem getattrOrEmpty_of_truthy {name : String} (h : (getattrOrEmpty step name).truthy = true) :
    getattrOrEmpty step name = getattr step name := by
  unfold getattrOrEmpty getattr at *
  cases hf : Dict.find name step.fields with
  | none =>
    rw [hf] at h
    cases h
  | some v => rfl

theorem resolved_of_dependency {type : StepType} (htype : step.stepType = .inl type)
    (hfields : step.fields.map Prod.fst = (buildTypedStep py type).map Field.name)
    (hv : v ∈ stepDependencies step) : v ∈ resolved step := by
  rw [stepDependencies, htype] at hv
  rw [resolved, htype]
  have hinput (h : v ∈ [getattrOrEmpty step "input"].filter Node.truthy) :
      v.truthy = true ∧ v = getattr step "input" := by
    obtain ⟨hmem, htrue⟩ := List.mem_filter.mp h
    rw [List.mem_singleton] at hmem
    subst hmem
    exact ⟨htrue, getattrOrEmpty_of_truthy htrue⟩
  cases type with
  | load => cases hv
  | join =>
    obtain ⟨hmem, htrue⟩ := List.mem_filter.mp hv
    simp only [List.mem_cons, List.not_mem_nil, or_false] at hmem ⊢
    rcases hmem with rfl | rfl
    · exact .inl (getattrOrEmpty_of_truthy htrue)
    · exact .inr (getattrOrEmpty_of_truthy htrue)
  | streamConsume =>
    obtain ⟨htrue, rfl⟩ := hinput hv
    rw [getattr_null hfields (input_absent (.inr (.inl rfl)))] at htrue
    cases htrue
  | _ => exact List.mem_singleton.mpr (hinput hv).2

theorem names_inj (hvalid : validate py u maxPipelineSteps registeredFileIds config = some result)
    (herrors : result.errors = []) {i j : Nat} (hi : i < config.steps.length)
    (hj : j < config.steps.length) (h : config.steps[i].name.toKey = config.steps[j].name.toKey) :
    i = j := by
  obtain ⟨keys, hkeys, hnodup⟩ := names_nodup_of_valid
    (checks_nil hvalid herrors (checkDuplicateStepNames py) (by simp [checks]))
  have hall := mapM_some_iff.mp hkeys
  have hlen := hall.length_eq
  rw [List.length_map] at hlen
  have hget (i : Nat) (hi : i < config.steps.length) :
      config.steps[i].name.toKey = some (keys.get ⟨i, hlen ▸ hi⟩) := by
    have hkey := hall.get (by rw [List.length_map]; exact hi) (hlen ▸ hi)
    rw [List.get_eq_getElem, List.getElem_map] at hkey
    exact hkey
  rw [hget i hi, hget j hj, Option.some.injEq] at h
  exact Fin.mk.inj (hnodup.injective_get h)

/-- The names of the saves. -/
def saveNames (config : PipelineConfig) : List Key :=
  (config.steps.filter isSave).filterMap fun step => step.name.toKey

theorem mem_saveNames : k ∈ saveNames config ↔
    ∃ save ∈ config.steps, isSave save = true ∧ save.name.toKey = some k := by
  simp only [saveNames, List.mem_filterMap, List.mem_filter, and_assoc]

/-- A reference of a step that is a text names a step before it. -/
theorem earlier_of_text (hvalid : validate py u maxPipelineSteps registeredFileIds config = some result)
    (herrors : result.errors = []) {i : Nat} (hi : i < config.steps.length)
    (hv : v ∈ resolved config.steps[i]) (htext : v.isText = true) :
    ∃ t, v = .text t ∧ t ≠ [] ∧ ∃ j, ∃ _ : j < config.steps.length, j < i ∧ config.steps[j].name = .text t := by
  have hsplit : config.steps = config.steps.take i ++ config.steps[i] :: config.steps.drop (i + 1) := by
    rw [← List.drop_eq_getElem_cons hi, List.take_append_drop]
  obtain ⟨t, ht, hne, hmem⟩ := (validated_steps hvalid herrors hsplit).resolved hv htext
  obtain ⟨step, hstep, hname⟩ := List.mem_map.mp hmem
  obtain ⟨j, hj, rfl⟩ := List.getElem_of_mem hstep
  rw [List.length_take] at hj
  rw [List.getElem_take] at hname
  exact ⟨t, ht, hne, j, by omega, by omega, hname⟩

theorem name_of_valid (hvalid : validate py u maxPipelineSteps registeredFileIds config = some result)
    (herrors : result.errors = []) (hmem : step ∈ config.steps) :
    (∃ t, step.name = .text t) ∧ ∃ type, step.stepType = .inl type := by
  obtain ⟨before, after, hsplit⟩ := List.append_of_mem hmem
  have h := validated_steps hvalid herrors hsplit
  exact ⟨h.name, type_of_known h.known⟩

theorem reads_of_valid (hparse : parse yaml isWord py text = .ok config)
    (hvalid : validate py u maxPipelineSteps registeredFileIds config = some result)
    (herrors : result.errors = []) (hsteps : config.steps.mapM runnerStep = some steps) :
    List.Forall₂ (Reads (saveNames config)) config.steps steps := by
  rw [mapM_some_iff] at hsteps
  rw [List.forall₂_iff_get] at hsteps ⊢
  refine ⟨hsteps.1, fun i hi hi' => ?_⟩
  have hstep := hsteps.2 i hi hi'
  rw [List.get_eq_getElem, List.get_eq_getElem] at hstep ⊢
  have hmem := List.getElem_mem hi
  obtain ⟨⟨t, ht⟩, type, htype⟩ := name_of_valid hvalid herrors hmem
  obtain ⟨raw, hraw⟩ := parsed_step hparse hmem
  have hfields := fields_of_parse hraw htype
  obtain ⟨hname, hdeps⟩ := dependencies_of_runnerStep htype hfields hstep
  have hkey : steps[i].name = .text t := by
    rw [ht] at hname
    exact (Option.some.inj hname).symm
  refine ⟨hname, hdeps, ?_, ?_⟩
  · intro hown
    obtain ⟨v, hv, hk⟩ := forall₂_mem_right (mapM_some_iff.mp hdeps) hown
    rw [hkey] at hk
    obtain rfl := Node.text_of_toKey hk
    obtain ⟨t', ht', -, j, hlt, hj, hj'⟩ := earlier_of_text hvalid herrors hi
      (resolved_of_dependency htype hfields hv) rfl
    cases ht'
    have hij := names_inj hvalid herrors hi hlt (by rw [ht, hj'])
    omega
  · rw [mem_saveNames]
    constructor
    · rintro ⟨save, hsave, his, hsname⟩
      obtain ⟨j, hj, rfl⟩ := List.getElem_of_mem hsave
      have hij := names_inj hvalid herrors hi hj (by rw [hname, hsname])
      subst hij
      exact his
    · intro his
      exact ⟨_, hmem, his, hname⟩

theorem dependency_of_resolved (hv : v ∈ resolved step) (htrue : v.truthy = true) :
    v ∈ stepDependencies step := by
  have hget {name : String} (h : v = getattr step name) : v = getattrOrEmpty step name := by
    subst h
    unfold getattr at htrue
    unfold getattr getattrOrEmpty
    cases hf : Dict.find name step.fields with
    | none =>
      rw [hf] at htrue
      cases htrue
    | some w => rfl
  unfold resolved at hv
  unfold stepDependencies
  split at hv
  · cases hv
  · cases hv
  · next htype =>
    simp only [List.mem_cons, List.not_mem_nil, or_false] at hv
    rw [htype]
    refine List.mem_filter.mpr ⟨?_, htrue⟩
    rcases hv with h | h
    · exact List.mem_cons.mpr (.inl (hget h))
    · exact List.mem_cons_of_mem _ (List.mem_singleton.mpr (hget h))
  · next type hload hstream hjoin htype =>
    have hmem : v ∈ [getattrOrEmpty step "input"].filter Node.truthy :=
      List.mem_filter.mpr ⟨List.mem_singleton.mpr (hget (List.mem_singleton.mp hv)), htrue⟩
    split
    · next h => exact absurd (Sum.inl.inj (htype.symm.trans h)) hload
    · next h => exact absurd (Sum.inl.inj (htype.symm.trans h)) hjoin
    · exact hmem
  · cases hv

theorem truthy_of_text {t : Text} (ht : t ≠ []) : (Node.text t).truthy = true := by
  cases t with
  | nil => exact absurd rfl ht
  | cons c t => rfl

/-- The facts about a validated pipeline with hashable references. -/
structure Valid (config : PipelineConfig) (steps : List (Runner.Step Key)) : Prop where
  reads : List.Forall₂ (Reads (saveNames config)) config.steps steps
  runner : List.Forall₂ (fun step s => runnerStep step = some s) config.steps steps
  names : ∀ i j (hi : i < config.steps.length) (hj : j < config.steps.length),
    config.steps[i].name.toKey = config.steps[j].name.toKey → i = j
  text : ∀ step ∈ config.steps, ∃ t, step.name = .text t
  type : ∀ step ∈ config.steps, ∃ type, step.stepType = .inl type ∧
    (type = .load → ∃ t, getattr step "file_id" = .text t) ∧
    (type ≠ .load → type ≠ .join → type ≠ .streamConsume →
      getattrOrEmpty step "input" = getattr step "input")
  earlier : ∀ i (hi : i < config.steps.length), ∀ v ∈ resolved config.steps[i], v.isText = true →
    ∃ t, v = .text t ∧ t ≠ [] ∧ ∃ j, ∃ _ : j < config.steps.length, j < i ∧ config.steps[j].name = .text t

theorem valid_of (hparse : parse yaml isWord py text = .ok config)
    (hvalid : validate py u maxPipelineSteps registeredFileIds config = some result)
    (herrors : result.errors = []) (hsteps : config.steps.mapM runnerStep = some steps) :
    Valid config steps := by
  refine ⟨reads_of_valid hparse hvalid herrors hsteps, mapM_some_iff.mp hsteps,
    fun i j hi hj => names_inj hvalid herrors hi hj,
    fun step hmem => (name_of_valid hvalid herrors hmem).1, fun step hmem => ?_,
    fun i hi v hv htext => earlier_of_text hvalid herrors hi hv htext⟩
  obtain ⟨-, type, htype⟩ := name_of_valid hvalid herrors hmem
  obtain ⟨raw, hraw⟩ := parsed_step hparse hmem
  have hfields := fields_of_parse hraw htype
  refine ⟨type, htype, ?_, ?_⟩
  · rintro rfl
    obtain ⟨before, after, hsplit⟩ := List.append_of_mem hmem
    have hrequired := (validated_steps hvalid herrors hsplit).fields htype
    obtain ⟨t, ht, -⟩ := mustFill_nil (hrequired _ List.mem_cons_self)
    exact ⟨t, ht⟩
  · intro hload hjoin hstream
    have hmem : "input" ∈ step.fields.map Prod.fst := by
      rw [hfields]
      cases type with
      | load => exact absurd rfl hload
      | join => exact absurd rfl hjoin
      | streamConsume => exact absurd rfl hstream
      | _ => exact List.mem_cons_self
    unfold getattrOrEmpty getattr
    cases hf : Dict.find "input" step.fields with
    | none =>
      have := Dict.find_isSome hmem
      rw [hf] at this
      cases this
    | some w => rfl

/-! ### Runs of a validated pipeline -/

theorem Valid.runner_step (h : Valid config steps) {i : Nat} (hi : i < config.steps.length) :
    ∃ hi' : i < steps.length, runnerStep config.steps[i] = some steps[i] ∧
      Reads (saveNames config) config.steps[i] steps[i] := by
  have hi' : i < steps.length := h.runner.length_eq ▸ hi
  exact ⟨hi', h.runner.get hi hi', h.reads.get hi hi'⟩

theorem Valid.not_save (h : Valid config steps) (hk : v.toKey = some k) :
    k ∈ saveNames config ↔ ∃ save ∈ config.steps, isSave save = true ∧ v = save.name := by
  rw [mem_saveNames]
  constructor
  · rintro ⟨save, hmem, his, hname⟩
    obtain ⟨t, ht⟩ := h.text save hmem
    rw [ht] at hname
    cases hname
    exact ⟨save, hmem, his, by rw [Node.text_of_toKey hk, ht]⟩
  · rintro ⟨save, hmem, his, rfl⟩
    exact ⟨save, hmem, his, hk⟩

/-- The runner turns only at steps with an executor whose references it finds. -/
theorem Valid.turn (h : Valid config steps) (hexec : Executes config env) {i : Nat}
    (hi : i < config.steps.length) (hi' : i < steps.length) {total : Nat}
    {t : Runner.State Key Table Violation} (hturn : Runner.loopBody env total i steps[i] s = .ok t) :
    hasExecutor config.steps[i] = true ∧ ∀ v ∈ resolved config.steps[i], Resolves s.tableRegistry v := by
  obtain ⟨_, hread, -⟩ := h.runner_step hi
  cases he : env.execute s.tableRegistry steps[i] with
  | returned result => exact hexec _ (List.getElem_mem hi) _ hread _ _ he
  | stepError message =>
    unfold Runner.loopBody Runner.executeSingleStep at hturn
    simp [Runner.emit, he, bind, Except.bind] at hturn
  | otherError message =>
    unfold Runner.loopBody Runner.executeSingleStep at hturn
    simp [Runner.emit, he, bind, Except.bind] at hturn

/-- A reference found in the runner's registry is a text. -/
theorem Valid.text_of_resolves (h : Valid config steps) {i : Nat} (hi : i ≤ steps.length)
    (hs : Runner.stateBefore env steps i = .ok s) (hv : Resolves s.tableRegistry v) :
    v.isText = true := by
  obtain ⟨k, hk, hfound⟩ := hv
  obtain ⟨r, hr, rfl⟩ := List.mem_map.mp ((held_stateBefore hi hs).names k hfound)
  obtain ⟨j, hj, rfl⟩ := List.getElem_of_mem hr
  rw [List.length_take] at hj
  rw [List.getElem_take] at hk
  have hj' : j < config.steps.length := by
    rw [h.runner.length_eq]
    omega
  obtain ⟨t, ht⟩ := h.text _ (List.getElem_mem hj')
  obtain ⟨_, -, hread⟩ := h.runner_step hj'
  have hname := hread.name
  rw [ht] at hname
  rw [← Option.some.inj hname] at hk
  rw [Node.text_of_toKey hk]
  rfl

theorem Valid.reached (h : Valid config steps) (hexec : Executes config env) {i : Nat}
    (hi : i ≤ config.steps.length) (hs : Runner.stateBefore env steps i = .ok s) :
    Reached config i := by
  intro step hstep
  obtain ⟨j, hj, rfl⟩ := List.getElem_of_mem hstep
  rw [List.length_take] at hj
  have hlen := h.runner.length_eq
  obtain ⟨t, t', ht, hturn⟩ := turn_of_run (by omega) hs (j := j) (by omega)
  rw [List.getElem_take]
  obtain ⟨hexecutor, hfound⟩ := h.turn hexec (i := j) (by omega) (by omega) hturn
  exact ⟨hexecutor, fun v hv => h.text_of_resolves (i := j) (by omega) ht (hfound v hv)⟩

theorem Valid.resolves_iff (h : Valid config steps) {i : Nat}
    (hs : Runner.stateBefore env steps i = .ok s)
    (hb : stateBefore engine sampledTables config.steps i = .ok b) (v : Node) :
    Resolves b.tableRegistry v ↔ Resolves s.tableRegistry v ∧
      ¬ ∃ save ∈ config.steps, isSave save = true ∧ v = save.name := by
  have hsim := sim_stateBefore h.reads hs hb
  constructor
  · rintro ⟨k, hk, hfound⟩
    obtain ⟨hfound, hnot⟩ := (hsim.tables k).mp hfound
    exact ⟨⟨k, hk, hfound⟩, fun hsave => hnot ((h.not_save hk).mpr hsave)⟩
  · rintro ⟨⟨k, hk, hfound⟩, hnot⟩
    exact ⟨k, hk, (hsim.tables k).mpr ⟨hfound, fun hmem => hnot ((h.not_save hk).mp hmem)⟩⟩

theorem requireInputTable_error {stepName inputName : Node} {registry : Dict Key Table}
    {rejection : Rejection} (h : requireInputTable stepName inputName registry = .error rejection) :
    ¬ Resolves registry inputName := by
  rintro ⟨k, hk, hfound⟩
  obtain ⟨table, ht⟩ := Option.isSome_iff_exists.mp hfound
  rw [requireInputTable, hashed, hk] at h
  simp only [bind, Except.bind, ht] at h
  cases h

theorem attempt_error {α : Type} {x : Except Text α} {stepName inputName : Node} :
    attempt x ≠ .error (.notAvailable stepName inputName) := by
  cases x <;> exact fun h => nomatch h

theorem hashed_error {stepName inputName : Node} :
    hashed v ≠ .error (.notAvailable stepName inputName) := by
  unfold hashed
  split <;> exact fun h => nomatch h

/-- Only a missing reference makes the output of a step unavailable. -/
theorem computeStep_error {type : StepType} (htype : step.stepType = .inl type)
    (hinput : type ≠ .load → type ≠ .join → type ≠ .streamConsume →
      getattrOrEmpty step "input" = getattr step "input")
    (hload : type ≠ .load) (hstream : type ≠ .streamConsume) {stepName inputName : Node}
    (h : computeStep engine step b.tableRegistry = .error (.notAvailable stepName inputName)) :
    ∃ v ∈ resolved step, ¬ Resolves b.tableRegistry v := by
  by_cases hjoin : type = .join
  · subst hjoin
    rw [computeStep, htype] at h
    rw [resolved, htype]
    rcases bind_error h with hleft | ⟨left, -, h⟩
    · exact ⟨_, List.mem_cons_self, requireInputTable_error hleft⟩
    · rcases bind_error h with hright | ⟨right, -, h⟩
      · exact ⟨_, List.mem_cons_of_mem _ List.mem_cons_self, requireInputTable_error hright⟩
      · exact absurd h attempt_error
  · have hres : resolved step = [getattr step "input"] := by
      rw [resolved, htype]
      cases type with
      | load => exact absurd rfl hload
      | join => exact absurd rfl hjoin
      | streamConsume => exact absurd rfl hstream
      | _ => rfl
    have hrequire : ∃ rejection, requireInputTable step.name (getattrOrEmpty step "input")
        b.tableRegistry = .error rejection := by
      unfold computeStep at h
      split at h
      · next hj => exact absurd (Sum.inl.inj (htype.symm.trans hj)) hjoin
      · rcases bind_error h with he | ⟨input, -, h⟩
        · exact ⟨_, he⟩
        · exact absurd h attempt_error
      · exact ⟨_, h⟩
      · rcases bind_error h with he | ⟨input, -, h⟩
        · exact ⟨_, he⟩
        · exact absurd h attempt_error
    obtain ⟨rejection, hrejection⟩ := hrequire
    rw [hinput hload hjoin hstream] at hrejection
    rw [hres]
    exact ⟨_, List.mem_singleton.mpr rfl, requireInputTable_error hrejection⟩

/-- The missing input of a step is one of its references. -/
theorem Valid.missing (h : Valid config steps) {i : Nat} (hi : i < config.steps.length)
    (hexecutor : hasExecutor config.steps[i] = true) {stepName inputName : Node}
    (hb : loopBody engine sampledTables b config.steps[i] = .error (.notAvailable stepName inputName)) :
    ∃ v ∈ resolved config.steps[i], ¬ Resolves b.tableRegistry v := by
  obtain ⟨type, htype, -, hinput⟩ := h.type _ (List.getElem_mem hi)
  obtain ⟨_, -, hreads⟩ := h.runner_step hi
  have hstream : type ≠ .streamConsume := by
    rintro rfl
    rw [hasExecutor, htype] at hexecutor
    cases hexecutor
  unfold loopBody at hb
  split at hb
  · rcases bind_error hb with he | ⟨fileId, -, hb⟩
    · exact absurd he hashed_error
    · split at hb
      · cases hb
      · rw [store_eq hreads] at hb
        cases hb
  · rcases bind_error hb with he | ⟨k, -, hb⟩
    · exact absurd he hashed_error
    · obtain ⟨b', hb'⟩ := releaseDependencies_eq hreads
        { b with lastResult := (b.tableRegistry.get? k).or b.lastResult }
      rw [hb'] at hb
      cases hb
  · next hload hsave =>
    rcases bind_error hb with he | ⟨table, -, hb⟩
    · refine computeStep_error htype hinput ?_ hstream he
      rintro rfl
      exact hload htype
    · rw [store_eq hreads] at hb
      obtain ⟨b', hb'⟩ := releaseDependencies_eq hreads
        { b with tableRegistry := b.tableRegistry.set (steps[i]).name table, lastResult := some table }
      change releaseDependencies _ _ = _ at hb
      rw [hb'] at hb
      cases hb

theorem faithful_of_readsNoSave (h : ∀ steps, config.steps.mapM runnerStep = some steps →
    Valid config steps) (hread : ReadsNoSave config) : SandboxFaithful config := by
  have hresolves : ∀ (Table Violation : Type) (env : Runner.Env Key Table Violation)
      (engine : Engine Table) (sampledTables : Key → Option Table) (steps : List (Runner.Step Key)),
      config.steps.mapM runnerStep = some steps → Executes config env →
      ∀ (i : Nat) (hi : i < config.steps.length) (s : Runner.State Key Table Violation)
        (b : State Table), Runner.stateBefore env steps i = .ok s →
        stateBefore engine sampledTables config.steps i = .ok b → ∀ v ∈ resolved config.steps[i],
          Resolves s.tableRegistry v ↔ Resolves b.tableRegistry v := by
    intro Table Violation env engine sampledTables steps hsteps hexec i hi s b hs hb v hv
    have hvalid := h steps hsteps
    have hreached := hvalid.reached hexec (Nat.le_of_lt hi) hs
    rw [hvalid.resolves_iff hs hb, iff_self_and]
    rintro - ⟨save, hmem, his, hname⟩
    exact hread steps hsteps i hi hreached v hv save hmem his hname
  refine ⟨hresolves, ?_⟩
  intro Table Violation env engine sampledTables steps hsteps hexec s hs stepName inputName hrun
  have hvalid := h steps hsteps
  have hlen := hvalid.runner.length_eq
  rcases bind_error hrun with hstate | ⟨b, -, hlast⟩
  · rw [stateBefore, dependencyCounts_eq hvalid.reads] at hstate
    obtain ⟨i, hi, b, hb, hstop⟩ := foldlM_error hstate
    rw [List.length_take, Nat.min_self] at hi
    rw [List.take_take, Nat.min_eq_left (by omega)] at hb
    rw [List.getElem_take] at hstop
    obtain ⟨t, t', ht, hturn⟩ := turn_of_run (Nat.le_refl _) hs (j := i) (by omega)
    obtain ⟨hexecutor, hfound⟩ := hvalid.turn hexec hi (by omega) hturn
    obtain ⟨v, hv, hmissing⟩ := hvalid.missing hi hexecutor hstop
    have hb' : stateBefore engine sampledTables config.steps i = .ok b := by
      rw [stateBefore, dependencyCounts_eq hvalid.reads]
      exact hb
    exact hmissing ((hresolves _ _ env engine sampledTables steps hsteps hexec i hi t b ht hb' v hv).mp
      (hfound v hv))
  · split at hlast <;> cases hlast

/-! ### A save that is read -/

instance (registry : Dict Key Table) (v : Node) : Decidable (Resolves registry v) :=
  decidable_of_iff ((v.toKey.bind registry.get?).isSome = true) (by
    unfold Resolves
    cases v.toKey with
    | none => simp
    | some k => simp)

/-- Executors that return wherever they can. -/
def resolvingEnv (config : PipelineConfig) : Runner.Env Key Unit Unit where
  execute registry r :=
    if ∀ step ∈ config.steps, step.name.toKey = some r.name →
        hasExecutor step = true ∧ ∀ v ∈ resolved step, Resolves registry v then
      .returned { stepName := r.name, outputTable := (), rowsIn := 0, rowsOut := 0, durationMs := 0 }
    else .otherError "KeyError"
  validateStepContract _ _ := some []

theorem executes_resolvingEnv (h : Valid config steps) :
    Executes config (resolvingEnv config) := by
  intro step hstep r hr registry result he
  unfold resolvingEnv at he
  dsimp only at he
  split at he
  · next hall =>
    obtain ⟨r', hr', hread⟩ := forall₂_mem_left h.runner hstep
    obtain ⟨name, hname, hrest⟩ := Option.bind_eq_some_iff.mp hr
    obtain ⟨input, -, hrest⟩ := Option.bind_eq_some_iff.mp hrest
    obtain ⟨left, -, hrest⟩ := Option.bind_eq_some_iff.mp hrest
    obtain ⟨right, -, hrest⟩ := Option.bind_eq_some_iff.mp hrest
    cases hrest
    exact hall step hstep hname
  · cases he

/-- An engine on which every step works. -/
def workingEngine : Engine Unit where
  rename _ _ := .ok ()
  executeStep _ _ _ := .ok ()

/-- A text reference of a step that a run gets to is found there. -/
theorem Valid.present (h : Valid config steps) {i : Nat} (hi : i < config.steps.length)
    (hs : Runner.stateBefore env steps i = .ok s) (hv : v ∈ resolved config.steps[i])
    (htext : v.isText = true) : Resolves s.tableRegistry v := by
  obtain ⟨hi', -, hreads⟩ := h.runner_step hi
  obtain ⟨t, rfl, hne, j, hlt, hj, hname⟩ := h.earlier i hi v hv htext
  obtain ⟨hj', -, hreads'⟩ := h.runner_step hlt
  have hkey := hreads'.name
  rw [hname] at hkey
  obtain ⟨k, hk, hkt⟩ := forall₂_mem_left (mapM_some_iff.mp hreads.dependencies)
    (dependency_of_resolved hv (truthy_of_text hne))
  refine ⟨k, hkt, (held_stateBefore (Nat.le_of_lt hi') hs).kept k ?_ ?_⟩
  · rw [hkt, Option.some.injEq] at hkey
    rw [hkey]
    exact List.mem_map_of_mem (List.mem_take_iff_getElem.mpr ⟨j, by omega, rfl⟩)
  · rw [uses_drop steps i hi' k]
    exact Nat.add_pos_left (List.count_pos_iff.mpr hk) _

theorem requireInputTable_ok (stepName : Node) {inputName : Node} {registry : Dict Key Table}
    (h : Resolves registry inputName) :
    ∃ table, requireInputTable stepName inputName registry = .ok table := by
  obtain ⟨k, hk, hfound⟩ := h
  obtain ⟨table, ht⟩ := Option.isSome_iff_exists.mp hfound
  refine ⟨table, ?_⟩
  rw [requireInputTable, hashed, hk]
  simp only [bind, Except.bind, ht]

theorem computeStep_working {type : StepType} {b : State Unit} (htype : step.stepType = .inl type)
    (hinput : type ≠ .load → type ≠ .join → type ≠ .streamConsume →
      getattrOrEmpty step "input" = getattr step "input")
    (hload : type ≠ .load) (hstream : type ≠ .streamConsume)
    (hfound : ∀ v ∈ resolved step, Resolves b.tableRegistry v) :
    ∃ table, computeStep workingEngine step b.tableRegistry = .ok table := by
  rw [resolved, htype] at hfound
  by_cases hjoin : type = .join
  · subst hjoin
    obtain ⟨left, hleft⟩ := requireInputTable_ok step.name
      (hfound _ List.mem_cons_self)
    obtain ⟨right, hright⟩ := requireInputTable_ok step.name
      (hfound _ (List.mem_cons_of_mem _ List.mem_cons_self))
    refine ⟨(), ?_⟩
    rw [computeStep, htype]
    dsimp only
    rw [hleft, hright]
    rfl
  · have hres : Resolves b.tableRegistry (getattrOrEmpty step "input") := by
      rw [hinput hload hjoin hstream]
      refine hfound _ ?_
      cases type with
      | load => exact absurd rfl hload
      | join => exact absurd rfl hjoin
      | streamConsume => exact absurd rfl hstream
      | _ => exact List.mem_cons_self
    obtain ⟨table, ht⟩ := requireInputTable_ok step.name hres
    refine ⟨(), ?_⟩
    unfold computeStep
    split
    · next hj => exact absurd (Sum.inl.inj (htype.symm.trans hj)) hjoin
    · rw [ht]
      rfl
    · exact ht
    · rw [ht]
      rfl

theorem Valid.sandbox_turn (h : Valid config steps) {i : Nat} (hi : i < config.steps.length)
    (hexecutor : hasExecutor config.steps[i] = true) (b : State Unit)
    (hfound : ∀ v ∈ resolved config.steps[i], Resolves b.tableRegistry v) :
    ∃ b', loopBody workingEngine (fun _ => some ()) b config.steps[i] = .ok b' := by
  obtain ⟨type, htype, hfile, hinput⟩ := h.type _ (List.getElem_mem hi)
  obtain ⟨_, -, hreads⟩ := h.runner_step hi
  have hstream : type ≠ .streamConsume := by
    rintro rfl
    rw [hasExecutor, htype] at hexecutor
    cases hexecutor
  unfold loopBody
  split
  · next hload =>
    obtain ⟨t, ht⟩ := hfile (Sum.inl.inj (htype.symm.trans hload))
    rw [ht]
    exact ⟨_, store_eq hreads () b⟩
  · next hsave =>
    rw [resolved, hsave] at hfound
    obtain ⟨k, hk, -⟩ := hfound _ (List.mem_singleton.mpr rfl)
    rw [hashed, hk]
    exact releaseDependencies_eq hreads _
  · next hload _ =>
    obtain ⟨table, ht⟩ := computeStep_working (b := b) htype hinput
      (by rintro rfl; exact hload htype) hstream hfound
    rw [ht]
    change ∃ b', (store _ table b >>= _) = _
    rw [store_eq hreads]
    exact releaseDependencies_eq hreads _

theorem Valid.runner_turn (h : Valid config steps) {i : Nat} (hi : i < config.steps.length)
    (hexecutor : hasExecutor config.steps[i] = true) (s : Runner.State Key Unit Unit)
    (hfound : ∀ v ∈ resolved config.steps[i], Resolves s.tableRegistry v) :
    ∃ s', Runner.loopBody (resolvingEnv config) steps.length i
      (steps.get ⟨i, h.runner.length_eq ▸ hi⟩) s = .ok s' := by
  obtain ⟨hi', -, hreads⟩ := h.runner_step hi
  have hcond : ∀ step ∈ config.steps, step.name.toKey = some steps[i].name →
      hasExecutor step = true ∧ ∀ v ∈ resolved step, Resolves s.tableRegistry v := by
    intro step hstep hname
    obtain ⟨j, hj, rfl⟩ := List.getElem_of_mem hstep
    obtain rfl := h.names j i hj hi (by rw [hname, hreads.name])
    exact ⟨hexecutor, hfound⟩
  exact loopBody_returned (if_pos hcond)

theorem readsNoSave_of_faithful (h : ∀ steps, config.steps.mapM runnerStep = some steps →
    Valid config steps) (hfaithful : SandboxFaithful config) : ReadsNoSave config := by
  intro steps hsteps i
  have hvalid := h steps hsteps
  have hlen := hvalid.runner.length_eq
  have hexec := executes_resolvingEnv hvalid
  induction i using Nat.strong_induction_on with
  | _ i ih =>
    intro hi hreached v hv save hmem his hname
    -- both loops get to the step, since those before it read no save
    have hstates (m : Nat) (hm : m ≤ i) : ∃ s b,
        Runner.stateBefore (resolvingEnv config) steps m = .ok s ∧
          stateBefore workingEngine (fun _ => some ()) config.steps m = .ok b := by
      induction m with
      | zero =>
        refine ⟨Runner.initial steps,
          { tableRegistry := ∅, downstreamCounts := Runner.computeConsumerCounts steps }, rfl, ?_⟩
        rw [stateBefore, dependencyCounts_eq hvalid.reads]
        rfl
      | succ m ihm =>
        obtain ⟨s, b, hs, hb⟩ := ihm (by omega)
        have hm' : m < config.steps.length := by omega
        obtain ⟨hexecutor, htexts⟩ := hreached config.steps[m]
          (List.mem_take_iff_getElem.mpr ⟨m, by omega, rfl⟩)
        have hfound : ∀ v ∈ resolved config.steps[m], Resolves s.tableRegistry v :=
          fun v hv => hvalid.present hm' hs hv (htexts v hv)
        have hbefore : Reached config m := fun step hstep =>
          hreached step (List.take_subset_take_left _ (by omega) hstep)
        have hfound' : ∀ v ∈ resolved config.steps[m], Resolves b.tableRegistry v := by
          intro v hv
          refine (hvalid.resolves_iff hs hb v).mpr ⟨hfound v hv, ?_⟩
          rintro ⟨save, hmem, his, hname⟩
          exact ih m (by omega) hm' hbefore v hv save hmem his hname
        obtain ⟨b', hb'⟩ := hvalid.sandbox_turn hm' hexecutor b hfound'
        obtain ⟨s', hs'⟩ := hvalid.runner_turn hm' hexecutor s hfound
        refine ⟨s', b', ?_, ?_⟩
        · rw [Turns.stateBefore_succ (by omega), hs]
          exact hs'
        · rw [sandbox_stateBefore_succ hm', hb]
          exact hb'
    obtain ⟨s, b, hs, hb⟩ := hstates i (Nat.le_refl i)
    obtain ⟨t, ht⟩ := hvalid.text save hmem
    have hpresent := hvalid.present hi hs hv (by rw [hname, ht]; rfl)
    have hfound := (hfaithful.resolves _ _ _ _ _ steps hsteps hexec i hi s b hs hb v hv).mp hpresent
    exact ((hvalid.resolves_iff hs hb v).mp hfound).2 ⟨save, hmem, his, hname⟩

end Validated

/-- For a pipeline text that parses and validates without errors, the sandbox resolves the
references that the runner resolves exactly when no step that a run can get to reads the output
of a save. -/
theorem sandbox_faithful_iff (yaml : PyYaml) (isWord : Char → Bool) (py : Python) (u : Unicode)
    (maxPipelineSteps : Nat) (registeredFileIds : List Text) (text : Text)
    (config : PipelineConfig) (result : ValidationResult)
    (hparse : parse yaml isWord py text = .ok config)
    (hvalid : validate py u maxPipelineSteps registeredFileIds config = some result)
    (herrors : result.errors = []) : SandboxFaithful config ↔ ReadsNoSave config := by
  have h : ∀ steps, config.steps.mapM runnerStep = some steps → Valid config steps :=
    fun steps hsteps => valid_of hparse hvalid herrors hsteps
  exact ⟨readsNoSave_of_faithful h, faithful_of_readsNoSave h⟩

section Examples

def chainText (reference : String) : Text :=
  ("name: p\nsteps:\n  - name: raw\n    type: load\n    file_id: f1\n  - name: out\n    type: save\n" ++
    "    input: raw\n    filename: out.csv\n  - name: unique\n    type: deduplicate\n    input: " ++
    reference ++
    "\n").toList

def chainDocument (reference : String) : Entries :=
  [(key "name", str "p"), (key "steps", .seq
    [.map [(key "name", str "raw"), (key "type", str "load"), (key "file_id", str "f1")],
     .map [(key "name", str "out"), (key "type", str "save"), (key "input", str "raw"),
       (key "filename", str "out.csv")],
     .map [(key "name", str "unique"), (key "type", str "deduplicate"),
       (key "input", str reference)]])]

def chainConfig (reference : String) : PipelineConfig :=
  ⟨str "p", .null,
    [⟨str "raw", .inl .load, .null, [("file_id", str "f1"), ("alias", .null)]⟩,
     ⟨str "out", .inl .save, .null, [("input", str "raw"), ("filename", str "out.csv")]⟩,
     ⟨str "unique", .inl .deduplicate, .null,
      [("input", str reference), ("subset", .seq []), ("keep", str "first")]⟩]⟩

/-- A step after a save that reads it. -/
theorem save_output_not_in_sandbox :
    parse (reading (chainDocument "out")).toPyYaml Char.isAlphanum numberPython (chainText "out") =
        .ok (chainConfig "out") ∧
      (∀ u, validate numberPython u 50 ["f1".toList] (chainConfig "out") = some clean) ∧
      ¬ SandboxFaithful (chainConfig "out") := by
  have hparse : parse (reading (chainDocument "out")).toPyYaml Char.isAlphanum numberPython
      (chainText "out") = .ok (chainConfig "out") := rfl
  have hvalid : ∀ u, validate numberPython u 50 ["f1".toList] (chainConfig "out") = some clean :=
    fun u => rfl
  refine ⟨hparse, hvalid, fun hfaithful => ?_⟩
  have hread := readsNoSave_of_faithful
    (fun steps hsteps => valid_of hparse (hvalid asciiText) rfl hsteps) hfaithful
  refine hread _ rfl 2 (by decide) ?_ (str "out") (List.mem_singleton.mpr rfl) _
    (List.mem_cons_of_mem _ List.mem_cons_self) rfl rfl
  intro step hstep
  rcases List.mem_cons.mp hstep with rfl | hstep
  · exact ⟨rfl, fun v hv => nomatch hv⟩
  · rw [List.mem_singleton.mp hstep]
    exact ⟨rfl, fun v hv => by rw [List.mem_singleton.mp hv]; rfl⟩

theorem sandbox_faithful_iff_chain : SandboxFaithful (chainConfig "raw") := by
  refine (sandbox_faithful_iff (reading (chainDocument "raw")).toPyYaml Char.isAlphanum numberPython
    asciiText 50 ["f1".toList] (chainText "raw") (chainConfig "raw") clean rfl rfl rfl).mpr ?_
  intro steps hsteps i hi hreached v hv save hsave his
  have hname : save.name = str "out" := by
    rcases List.mem_cons.mp hsave with rfl | hsave
    · cases his
    · rcases List.mem_cons.mp hsave with rfl | hsave
      · rfl
      · rw [List.mem_singleton.mp hsave] at his
        cases his
  have hv' : v = str "raw" := by
    have hmem := List.getElem_mem hi
    rcases List.mem_cons.mp hmem with he | hmem
    · rw [he] at hv
      cases hv
    · rcases List.mem_cons.mp hmem with he | hmem
      · rw [he] at hv
        exact List.mem_singleton.mp hv
      · rw [List.mem_singleton.mp hmem] at hv
        exact List.mem_singleton.mp hv
  rw [hname, hv']
  exact fun h => nomatch h

end Examples

end PipelineIQ.Healing.Fidelity
