import PipelineIQ.Pipeline.Validation

namespace PipelineIQ.Pipeline.ParserErrors

open PipelineIQ.Lib PipelineIQ.Lib.Strings PipelineIQ.Lib.Yaml PipelineIQ.Lib.Traverse
open PipelineIQ.Pipeline.Parser PipelineIQ.Pipeline.Validation PipelineIQ.Execution.SqlBuilder

/-! ### What the parser raises -/

/-- The errors that `parse` documents, and all others. -/
inductive Raised where
  | invalidYAMLError
  | missingRequiredFieldError (field : String)
  | other
  deriving DecidableEq

def Raised.Documented (e : Raised) : Prop := e ≠ .other

def raised : ParseError → Raised
  | .invalidYaml => .invalidYAMLError
  | .missingRequiredField field => .missingRequiredFieldError field
  | .conversion _ => .other

/-- A reader that on some texts raises an error of a value constructor instead of a
`YAMLError`: a timestamp with a thirteenth month raises `ValueError`. -/
structure Loader extends PyYaml where
  escapes : Text → Bool

section Parse

variable (loader : Loader) (isWord : Char → Bool) (py : Python)

/-- The reader is called on the text, and on the repaired text where the first call fails. -/
def loaderEscapes (text : Text) : Bool :=
  let cleaned := strip (stripDiffMarkers text)
  loader.escapes cleaned ||
    (loader.safeLoad cleaned).isNone && loader.escapes (repairQuotedValues isWord cleaned)

/-- `PipelineParser.parse` with everything it can raise. -/
def parseText (text : Text) : Except Raised PipelineConfig :=
  if loaderEscapes loader isWord text then .error .other
  else (parse loader.toPyYaml isWord py text).mapError raised

/-- Both sizes of a `stream_consume` step are numbers to `int`. -/
def Convertible (raw : Entries) : Prop :=
  StepType.ofNode (raw.getD (key "type") (str "")) = some .streamConsume →
    (int (raw.getD (key "batch_size") (.int 1000))).isSome ∧
      (int (raw.getD (key "batch_timeout_ms") (.int 5000))).isSome

/-- The steps that are read before one that is no mapping ends the parse have sizes that are
numbers. -/
def StepsConvertible (document : Entries) : Prop :=
  ∀ pipelineRaw rawSteps, pipelineOf document = some pipelineRaw →
    (pipelineRaw.getD (key "name") (str "")).truthy = true →
      pipelineRaw.getD (key "steps") (.seq []) = .seq rawSteps →
        ∀ raw, .map raw ∈ rawSteps.takeWhile Node.isMap → Convertible raw

end Parse

variable {py : Python}

theorem readField_conversion {raw : Entries} {f : Field} {e : ParseError} :
    readField raw f = .error e ↔ f.convert (f.value raw) = none ∧ e = .conversion f.name := by
  unfold readField
  cases f.convert (f.value raw) <;> simp [eq_comm]

theorem mapM_error {α β ε : Type} {f : α → Except ε β} {xs : List α} {e : ε}
    (h : xs.mapM f = .error e) : ∃ x ∈ xs, f x = .error e := by
  induction xs with
  | nil => cases h
  | cons x xs ih =>
    rw [List.mapM_cons] at h
    cases hx : f x with
    | error e' =>
      rw [hx] at h
      cases h
      exact ⟨x, List.mem_cons_self, hx⟩
    | ok y =>
      cases hxs : xs.mapM f with
      | error e' =>
        rw [hx, hxs] at h
        cases h
        obtain ⟨z, hz, he⟩ := ih hxs
        exact ⟨z, List.mem_cons_of_mem x hz, he⟩
      | ok ys =>
        rw [hx, hxs] at h
        cases h

/-- Only the two sizes of a `stream_consume` step can fail to convert. -/
theorem fields_convert (py : Python) {t : StepType} {raw : Entries} :
    (∀ f ∈ buildTypedStep py t, (f.convert (f.value raw)).isSome) ↔
      (t = .streamConsume → (int (raw.getD (key "batch_size") (.int 1000))).isSome ∧
        (int (raw.getD (key "batch_timeout_ms") (.int 5000))).isSome) := by
  cases t <;> simp [buildTypedStep, input, rawGet, rawGetWith, onField]

theorem parseMapping_unknown (py : Python) {raw : Entries}
    (h : StepType.ofNode (raw.getD (key "type") (str "")) = none) :
    ∃ c, parseMapping py raw = .ok c := by
  unfold parseMapping
  dsimp only
  rw [h]
  exact ⟨_, rfl⟩

theorem parseMapping_known {raw : Entries} {t : StepType}
    (h : StepType.ofNode (raw.getD (key "type") (str "")) = some t) :
    parseMapping py raw = ((buildTypedStep py t).mapM (readField raw)).map fun fields =>
      ⟨raw.getD (key "name") (str ""), .inl t, raw.getD (key "contract") .null, fields⟩ := by
  unfold parseMapping
  dsimp only
  rw [h]
  cases hfields : (buildTypedStep py t).mapM (readField raw) <;>
    simp [hfields, Except.map, bind, Except.bind, pure, Except.pure]

theorem parseMapping_error {raw : Entries} {e : ParseError} (h : parseMapping py raw = .error e) :
    ∃ field, e = .conversion field := by
  cases htype : StepType.ofNode (raw.getD (key "type") (str "")) with
  | none =>
    obtain ⟨c, hc⟩ := parseMapping_unknown py htype
    rw [hc] at h
    cases h
  | some t =>
    rw [parseMapping_known htype] at h
    cases hfields : (buildTypedStep py t).mapM (readField raw) with
    | ok fields =>
      rw [hfields] at h
      cases h
    | error e' =>
      rw [hfields] at h
      cases h
      obtain ⟨f, -, hf⟩ := mapM_error hfields
      exact ⟨f.name, (readField_conversion.mp hf).2⟩

theorem parseMapping_ok (py : Python) {raw : Entries} :
    (∃ c, parseMapping py raw = .ok c) ↔ Convertible raw := by
  unfold Convertible
  cases htype : StepType.ofNode (raw.getD (key "type") (str "")) with
  | none =>
    refine iff_of_true (parseMapping_unknown py htype) ?_
    intro h
    cases h
  | some t =>
    rw [parseMapping_known htype, Option.some.injEq, ← fields_convert py]
    cases hfields : (buildTypedStep py t).mapM (readField raw) with
    | ok fields =>
      refine iff_of_true ⟨_, rfl⟩ ?_
      intro f hf
      obtain ⟨y, -, hy⟩ := forall₂_mem_left (mapM_ok_iff.mp hfields) hf
      by_contra hnone
      rw [Option.not_isSome_iff_eq_none] at hnone
      rw [readField_conversion.mpr ⟨hnone, rfl⟩] at hy
      cases hy
    | error e =>
      obtain ⟨f, hf, he⟩ := mapM_error hfields
      refine iff_of_false ?_ ?_
      · rintro ⟨c, hc⟩
        cases hc
      · intro hall
        have hs := hall f hf
        rw [(readField_conversion.mp he).1] at hs
        cases hs

theorem parseSteps_documented (py : Python) {rawSteps : List Node} :
    (∀ e, rawSteps.mapM (parseStep py) = .error e → (raised e).Documented) ↔
      ∀ raw, .map raw ∈ rawSteps.takeWhile Node.isMap → Convertible raw := by
  induction rawSteps with
  | nil => simp [pure, Except.pure]
  | cons item rawSteps ih =>
    rw [List.mapM_cons]
    by_cases hitem : ∃ raw, item = .map raw
    · obtain ⟨raw, rfl⟩ := hitem
      rw [List.takeWhile_cons_of_pos rfl]
      simp only [List.mem_cons, Node.map.injEq, forall_eq_or_imp, parseStep]
      rw [← ih, ← parseMapping_ok py]
      cases hc : parseMapping py raw with
      | error e =>
        obtain ⟨field, rfl⟩ := parseMapping_error hc
        refine iff_of_false ?_ ?_
        · intro h
          exact h _ rfl rfl
        · rintro ⟨⟨c, hc'⟩, -⟩
          cases hc'
      | ok c =>
        cases hrest : rawSteps.mapM (parseStep py) with
        | ok cs => simp [bind, Except.bind, pure, Except.pure]
        | error e => simp [bind, Except.bind]
    · have hmap : item.isMap = false := by
        cases item with
        | map raw => exact absurd ⟨raw, rfl⟩ hitem
        | _ => rfl
      have hstep : parseStep py item = .error (.missingRequiredField "step") := by
        cases item with
        | map raw => exact absurd ⟨raw, rfl⟩ hitem
        | _ => rfl
      rw [List.takeWhile_cons_of_neg (by simp [hmap]), hstep]
      refine iff_of_true ?_ ?_
      · intro e he
        cases he
        intro h
        cases h
      · intro raw hraw
        cases hraw

theorem buildPipelineConfig_documented (py : Python) {document : Entries} :
    (∀ e, buildPipelineConfig py document = .error e → (raised e).Documented) ↔
      StepsConvertible document := by
  unfold buildPipelineConfig StepsConvertible
  cases hpipeline : pipelineOf document with
  | none => simp [raised, Raised.Documented]
  | some pipelineRaw =>
    simp only [Option.some.injEq]
    cases hname : (pipelineRaw.getD (key "name") (str "")).truthy with
    | false =>
      refine iff_of_true ?_ ?_
      · intro e he
        simp at he
        subst he
        intro h
        cases h
      · rintro _ rawSteps rfl ht
        rw [hname] at ht
        cases ht
    | true =>
      cases hsteps : pipelineRaw.getD (key "steps") (.seq []) with
      | seq rawSteps =>
        rw [show (∀ p rs, pipelineRaw = p → (p.getD (key "name") (str "")).truthy = true →
          p.getD (key "steps") (.seq []) = .seq rs → ∀ raw, .map raw ∈ rs.takeWhile Node.isMap →
            Convertible raw) ↔ ∀ raw, .map raw ∈ rawSteps.takeWhile Node.isMap → Convertible raw
          from ?_, ← parseSteps_documented py]
        · cases hc : rawSteps.mapM (parseStep py) with
          | ok steps => simp [hc, bind, Except.bind, pure, Except.pure]
          | error e => simp [hc, bind, Except.bind]
        · constructor
          · intro h
            exact h _ _ rfl hname hsteps
          · rintro h p rs rfl - hrs
            rw [hsteps] at hrs
            cases hrs
            exact h
      | _ =>
        refine iff_of_true ?_ ?_
        · intro e he
          simp at he
          subst he
          intro h
          cases h
        · rintro p rs rfl - hrs
          rw [hsteps] at hrs
          cases hrs

/-- The documented errors are all that `parse` raises exactly when the reader raises nothing
of its own and the sizes of the steps that are read are numbers. -/
theorem parseText_documented {loader : Loader} {isWord : Char → Bool} {text : Text} :
    (∀ e, parseText loader isWord py text = .error e → e.Documented) ↔
      loaderEscapes loader isWord text = false ∧
        ∀ document, parseYaml loader.toPyYaml isWord text = .ok document →
          StepsConvertible document := by
  unfold parseText
  cases hescapes : loaderEscapes loader isWord text with
  | true => simp [Raised.Documented]
  | false =>
    simp only [true_and, parse]
    cases hload : parseYaml loader.toPyYaml isWord text with
    | error e =>
      have he : e = .invalidYaml := by
        unfold parseYaml at hload
        dsimp only at hload
        split at hload
        · cases hload
        · cases hload
          rfl
      subst he
      simp [Except.bind, Except.mapError, raised, Raised.Documented]
    | ok document =>
      simp only [Except.ok.injEq, forall_eq']
      rw [← buildPipelineConfig_documented py]
      simp only [Except.bind]
      cases buildPipelineConfig py document with
      | ok config => simp [Except.mapError]
      | error e => simp [Except.mapError]

/-! ### What the validation can answer -/

def TextOrFalsy (v : Node) : Prop := v.truthy = true → v.isText = true

/-- The fields of a type that the required-field check strips. -/
def strippedFields : StepType → List String
  | .load => ["file_id"]
  | .join => ["left", "right"]
  | .filter => ["column"]
  | .pivot => ["columns", "values"]
  | .wasmCompute => ["wasm_file_id", "function", "output_column"]
  | .transform => ["expression"]
  | .streamConsume | .streamPublish => ["topic"]
  | _ => []

/-- A reference that names no earlier step is compared with the names of the earlier steps,
which have to be texts; the reference is a text, or a list of scalars, or a mapping that
`difflib` happens to get through. -/
def Comparable (ref : Node) (names : List Node) : Prop :=
  (∀ name ∈ names, name.isText = true) ∧
    match ref with
    | .text _ => True
    | .seq items => ∀ item ∈ items, item.toKey.isSome
    | .map _ => (findClosestColumn ref names).isSome
    | _ => False

/-- The shapes of values that no check of a step raises on. -/
structure StepAnswerable (step : StepConfig) : Prop where
  name : TextOrFalsy step.name
  hashable : step.name.toKey.isSome
  stripped : ∀ t, step.stepType = .inl t → isBlank step.name = some false →
    ∀ field ∈ strippedFields t, TextOrFalsy (getattr step field)
  query : step.stepType = .inl .sql → isBlank step.name = some false →
    (getattr step "query").isText = true
  fileId : step.stepType = .inl .load → TextOrFalsy (getattr step "file_id")
  aggregations : step.stepType = .inl .aggregate →
    ∃ items, (getattr step "aggregations").iterate = some items ∧
      ∀ entries, .map entries ∈ items →
        (Entries.getD entries (key "function") (str "")).toKey.isSome
  filename : step.stepType = .inl .save → (getattr step "filename").truthy = true →
    (getattr step "filename").iterate.isSome
  rules : step.stepType = .inl .validate →
    ∃ rules, (getattr step "rules").iterate = some rules ∧
      ∀ rule ∈ rules, ∃ entries, rule = .map entries ∧
        (Entries.getD entries (key "check") (str "")).toKey.isSome

structure Answerable (config : PipelineConfig) : Prop where
  name : TextOrFalsy config.name
  steps : ∀ step ∈ config.steps, StepAnswerable step
  references : ∀ before step after, config.steps = before ++ step :: after →
    ∀ ref ∈ refsToCheck step, ref.2.truthy = true →
      (∀ name ∈ before.map StepConfig.name, name.same ref.2 = false) →
        Comparable ref.2 (before.map StepConfig.name)

variable {step : StepConfig} {v : Node} {config : PipelineConfig} {u : Unicode}
  {maxPipelineSteps : Nat} {registeredFileIds : List Text}

theorem asText_isSome : v.asText.isSome = v.isText := by
  cases v <;> rfl

theorem isBlank_isSome : (isBlank v).isSome ↔ TextOrFalsy v := by
  unfold isBlank TextOrFalsy
  split
  · next h => simp [h, asText_isSome]
  · next h => simp [h]

theorem sequence_ofList (items : List Key) (j : Nat) :
    ((Difflib.Sequence.ofList items).subscript j).isSome := rfl

theorem findClosestColumn_none {ref : Node} {names : List Node} (h : asSequence ref = none) :
    findClosestColumn ref names = none := by
  rw [findClosestColumn, h]
  rfl

theorem findClosestColumn_isSome {ref : Node} {names : List Node} :
    (findClosestColumn ref names).isSome ↔ Comparable ref names := by
  have htexts : (names.mapM Node.asText).isSome ↔ ∀ name ∈ names, name.isText = true := by
    simp only [mapM_isSome_iff, asText_isSome]
  have hword : ∀ word : Difflib.Sequence Key, (∀ j, (word.subscript j).isSome) →
      asSequence ref = some word →
        ((findClosestColumn ref names).isSome ↔ ∀ name ∈ names, name.isText = true) := by
    intro word hsub hs
    rw [← htexts, findClosestColumn, hs]
    cases names.mapM Node.asText with
    | none => rfl
    | some texts =>
      simp only [Option.bind_eq_bind, Option.bind_some]
      exact iff_of_true (Difflib.closeMatch_isSome hsub _ _ _ texts) rfl
  unfold Comparable
  cases ref with
  | text t =>
    rw [and_true]
    exact hword _ (sequence_ofList _) rfl
  | seq items =>
    cases hitems : items.mapM Node.toKey with
    | none =>
      have hnot : ¬ ∀ item ∈ items, item.toKey.isSome := by
        rw [← mapM_isSome_iff, hitems]
        exact Bool.false_ne_true
      rw [findClosestColumn_none (by rw [asSequence, hitems]; rfl)]
      exact iff_of_false Bool.false_ne_true fun h => hnot h.2
    | some keys =>
      have hall : ∀ item ∈ items, item.toKey.isSome := by
        rw [← mapM_isSome_iff, hitems]
        rfl
      rw [and_iff_left hall]
      exact hword (.ofList keys) (sequence_ofList keys) (by rw [asSequence, hitems]; rfl)
  | map entries =>
    refine ⟨fun h => ⟨?_, h⟩, And.right⟩
    rw [← htexts]
    cases hm : names.mapM Node.asText with
    | none =>
      rw [findClosestColumn, hm] at h
      cases h
    | some texts => rfl
  | _ =>
    rw [findClosestColumn_none rfl]
    exact iff_of_false Bool.false_ne_true And.right

theorem forSteps_isSome {check : StepConfig → Checked} :
    (forSteps check config).isSome ↔ ∀ step ∈ config.steps, (check step).isSome := by
  rw [forSteps, collect_isSome_iff, List.forall_mem_map]

/-! ### One check at a time -/

theorem foldlM_countName_isSome (names : List Node) (seen : List (Key × Node × Nat)) :
    (names.foldlM countName seen).isSome ↔ ∀ name ∈ names, name.toKey.isSome := by
  induction names generalizing seen with
  | nil => simp [pure]
  | cons name names ih =>
    rw [List.foldlM_cons, List.forall_mem_cons]
    cases hk : name.toKey with
    | none => simp [countName, hk]
    | some k => simp [countName, hk, ih]

theorem checkDuplicateStepNames_isSome :
    (checkDuplicateStepNames py config).isSome ↔ ∀ step ∈ config.steps, step.name.toKey.isSome := by
  have h := foldlM_countName_isSome (config.steps.map StepConfig.name) []
  rw [List.forall_mem_map] at h
  rw [← h, checkDuplicateStepNames]
  cases (config.steps.map StepConfig.name).foldlM countName [] <;> simp

theorem stepNameFormat_isSome : (stepNameFormat py step).isSome ↔ TextOrFalsy step.name := by
  unfold stepNameFormat TextOrFalsy isValidIdentifier
  cases step.name.truthy <;> simp [asText_isSome]

theorem stepTypeKnown_isSome : (stepTypeKnown py step).isSome := by
  unfold stepTypeKnown
  cases step.stepType with
  | inl t => rfl
  | inr v =>
    rw [Option.isSome_map, findClosestColumn_isSome]
    exact ⟨by decide, trivial⟩

theorem mustFill_isSome {field message : String} :
    (mustFill step field message).isSome ↔ TextOrFalsy (getattr step field) := by
  rw [mustFill, Option.isSome_map, isBlank_isSome]

theorem mustHave_isSome {field message : String} : (mustHave step field message).isSome = true :=
  rfl

theorem requiredInput_isSome : (requiredInput step).isSome = true := by
  unfold requiredInput
  split <;> rfl

theorem filterValue_isSome : (filterValue step).isSome = true := rfl

theorem sortBy_isSome : (sortBy py step).isSome = true := rfl

theorem sortOrderKnown_isSome : (sortOrderKnown step).isSome = true := rfl

theorem constantValue_isSome : (constantValue step).isSome = true := rfl

theorem sampleSize_isSome : (sampleSize step).isSome = true := rfl

theorem sqlQuery_isSome : (sqlQuery step).isSome ↔ (getattr step "query").isText = true := by
  rw [sqlQuery, Option.isSome_map, asText_isSome]

theorem requiredFields_isSome {t : StepType} :
    (∀ c ∈ requiredFields py step t, c.isSome) ↔
      (∀ field ∈ strippedFields t, TextOrFalsy (getattr step field)) ∧
        (t = .sql → (getattr step "query").isText = true) := by
  cases t
  all_goals simp only [requiredFields, strippedFields, List.forall_mem_cons, List.not_mem_nil,
    false_imp_iff, implies_true, and_true, true_and, reduceCtorEq, forall_const,
    requiredInput_isSome, mustHave_isSome, mustFill_isSome, sqlQuery_isSome, filterValue_isSome,
    sortBy_isSome, sortOrderKnown_isSome, constantValue_isSome, sampleSize_isSome]

theorem requiredStepFields_named (h : isBlank step.name = some false) :
    requiredStepFields py step = match step.stepType with
      | .inl t => collect (requiredFields py step t)
      | .inr _ => some [] := by
  unfold requiredStepFields
  rw [h]
  rfl

theorem requiredStepFields_unnamed (h : isBlank step.name = some true) :
    (requiredStepFields py step).isSome = true := by
  unfold requiredStepFields
  rw [h]
  rfl

theorem requiredStepFields_isSome (hname : TextOrFalsy step.name) :
    (requiredStepFields py step).isSome ↔
      (∀ t, step.stepType = .inl t → isBlank step.name = some false →
        ∀ field ∈ strippedFields t, TextOrFalsy (getattr step field)) ∧
      (step.stepType = .inl .sql → isBlank step.name = some false →
        (getattr step "query").isText = true) := by
  obtain ⟨blank, hblank⟩ := Option.isSome_iff_exists.mp (isBlank_isSome.mpr hname)
  cases blank with
  | true =>
    simp only [hblank, Option.some.injEq, Bool.true_eq_false, false_imp_iff, implies_true,
      requiredStepFields_unnamed hblank, and_self]
  | false =>
    rw [requiredStepFields_named hblank]
    cases htype : step.stepType with
    | inr v => simp
    | inl t => simp [hblank, collect_isSome_iff, requiredFields_isSome]

theorem loadFileId_isSome :
    (loadFileId py registeredFileIds step).isSome ↔
      (step.stepType = .inl .load → TextOrFalsy (getattr step "file_id")) := by
  unfold loadFileId
  split
  · next h => simp [h, isBlank_isSome]
  · next h => exact iff_of_true rfl fun hl => (h hl).elim

theorem filterOperator_isSome : (filterOperator py step).isSome := by
  unfold filterOperator
  split <;> rfl

theorem joinConfig_isSome : (joinConfig py step).isSome := by
  unfold joinConfig
  split <;> rfl

theorem aggregationFunction_isSome {agg : Node} :
    (aggregationFunction py step agg).isSome ↔ ∀ entries, agg = .map entries →
      (Entries.getD entries (key "function") (str "")).toKey.isSome := by
  rw [aggregationFunction, Option.isSome_map]
  cases agg <;> simp [functionName, Node.toKey]

theorem aggregateConfig_isSome :
    (aggregateConfig py step).isSome ↔ (step.stepType = .inl .aggregate →
      ∃ items, (getattr step "aggregations").iterate = some items ∧
        ∀ entries, .map entries ∈ items →
          (Entries.getD entries (key "function") (str "")).toKey.isSome) := by
  unfold aggregateConfig
  split
  · next h =>
    simp only [h, forall_const]
    cases hitems : (getattr step "aggregations").iterate with
    | none => simp
    | some items =>
      simp only [Option.bind_eq_bind, Option.bind_some, collect_isSome_iff, List.forall_mem_cons,
        List.forall_mem_map, aggregationFunction_isSome, Option.isSome_some, true_and,
        Option.some.injEq, exists_eq_left']
      exact ⟨fun hall entries hm => hall _ hm entries rfl,
        fun hall _ hm entries he => hall _ (he ▸ hm)⟩
  · next h => exact iff_of_true rfl fun ha => (h ha).elim

theorem isSafeFilename_isSome (h : v.truthy = true) :
    (isSafeFilename v).isSome = v.iterate.isSome := by
  unfold isSafeFilename
  rw [h]
  cases v <;> rfl

theorem saveFilename_isSome :
    (saveFilename py step).isSome ↔ (step.stepType = .inl .save →
      (getattr step "filename").truthy = true → (getattr step "filename").iterate.isSome) := by
  unfold saveFilename
  split
  · next h =>
    cases ht : (getattr step "filename").truthy with
    | false => simp [ht]
    | true => simp [h, ht, isSafeFilename_isSome ht]
  · next h => exact iff_of_true rfl fun hs => (h hs).elim

theorem ruleCheck_isSome {rule : Node} :
    (ruleCheck py step rule).isSome ↔ ∃ entries, rule = .map entries ∧
      (Entries.getD entries (key "check") (str "")).toKey.isSome := by
  unfold ruleCheck
  cases rule with
  | map entries =>
    cases hk : (Entries.getD entries (key "check") (str "")).toKey <;> simp [Node.asMap, hk]
  | _ => simp [Node.asMap]

theorem validateRules_isSome :
    (validateRules py step).isSome ↔ (step.stepType = .inl .validate →
      ∃ rules, (getattr step "rules").iterate = some rules ∧
        ∀ rule ∈ rules, ∃ entries, rule = .map entries ∧
          (Entries.getD entries (key "check") (str "")).toKey.isSome) := by
  unfold validateRules
  split
  · next h =>
    simp only [h, forall_const]
    cases (getattr step "rules").iterate with
    | none => simp
    | some rules => simp [collect_isSome_iff, ruleCheck_isSome]
  · next h => exact iff_of_true rfl fun hv => (h hv).elim

theorem sqlStep_isSome : (sqlStep u step).isSome := by
  unfold sqlStep
  split
  · dsimp only
    split <;> rfl
  · rfl

theorem unsupportedRuntimeStep_isSome : (unsupportedRuntimeStep step).isSome := by
  unfold unsupportedRuntimeStep
  split <;> rfl

theorem mem_checkStepReferencesFrom {seenSteps : List Node} {steps : List StepConfig} {c : Checked} :
    c ∈ checkStepReferencesFrom py seenSteps steps ↔
      ∃ before step after, steps = before ++ step :: after ∧
        c = validateStepReference py (seenSteps ++ before.map StepConfig.name) step := by
  induction steps generalizing seenSteps with
  | nil => simp [checkStepReferencesFrom]
  | cons step steps ih =>
    rw [checkStepReferencesFrom, List.mem_cons, ih]
    constructor
    · rintro (rfl | ⟨before, s, after, rfl, rfl⟩)
      · exact ⟨[], step, steps, rfl, by simp⟩
      · exact ⟨step :: before, s, after, rfl, by simp⟩
    · rintro ⟨before, s, after, hsteps, rfl⟩
      cases before with
      | nil =>
        cases hsteps
        exact .inl (by simp)
      | cons b before =>
        cases hsteps
        exact .inr ⟨before, s, after, rfl, by simp⟩

theorem unknownReference_isSome {names : List Node} {ref : String × Node} :
    (unknownReference py names step ref).isSome ↔
      (ref.2.truthy = true → (∀ name ∈ names, name.same ref.2 = false) → Comparable ref.2 names) := by
  unfold unknownReference
  cases ht : ref.2.truthy with
  | false => simp
  | true =>
    cases hany : names.any fun name => name.same ref.2 with
    | true =>
      have hknown : ¬ ∀ name ∈ names, name.same ref.2 = false := by simpa using hany
      simp [hknown]
    | false =>
      have hunknown : ∀ name ∈ names, name.same ref.2 = false := by simpa using hany
      simp only [Bool.not_false, Bool.and_self, ↓reduceIte, Option.isSome_map,
        findClosestColumn_isSome, forall_const]
      exact ⟨fun h _ => h, fun h => h hunknown⟩

theorem checkStepReferences_isSome :
    (checkStepReferences py config).isSome ↔
      ∀ before step after, config.steps = before ++ step :: after →
        ∀ ref ∈ refsToCheck step, ref.2.truthy = true →
          (∀ name ∈ before.map StepConfig.name, name.same ref.2 = false) →
            Comparable ref.2 (before.map StepConfig.name) := by
  have hstep : ∀ names step, (validateStepReference py names step).isSome ↔
      ∀ ref ∈ refsToCheck step, ref.2.truthy = true →
        (∀ name ∈ names, name.same ref.2 = false) → Comparable ref.2 names := by
    intro names step
    rw [validateStepReference, collect_isSome_iff, List.forall_mem_map]
    exact forall₂_congr fun ref _ => unknownReference_isSome
  rw [checkStepReferences, collect_isSome_iff]
  constructor
  · intro h before step after hsteps
    exact (hstep _ step).mp (h _ (mem_checkStepReferencesFrom.mpr ⟨before, step, after, hsteps, rfl⟩))
  · intro h c hc
    obtain ⟨before, step, after, hsteps, rfl⟩ := mem_checkStepReferencesFrom.mp hc
    exact (hstep _ step).mpr (h before step after hsteps)

/-- No check raises exactly when every value has a shape that its checks expect. -/
theorem validate_isSome :
    (validate py u maxPipelineSteps registeredFileIds config).isSome ↔ Answerable config := by
  have hvalidate : (validate py u maxPipelineSteps registeredFileIds config).isSome ↔
      ∀ check ∈ checks py u maxPipelineSteps registeredFileIds, (check config).isSome := by
    rw [← List.forall_mem_map (P := fun c : Checked => c.isSome = true), ← collect_isSome_iff,
      validate]
    cases collect ((checks py u maxPipelineSteps registeredFileIds).map fun check => check config) <;>
      rfl
  rw [hvalidate]
  simp only [checks, List.forall_mem_cons, List.not_mem_nil, false_imp_iff, implies_true, and_true,
    forSteps_isSome, checkDuplicateStepNames_isSome, stepNameFormat_isSome, stepTypeKnown_isSome,
    checkStepReferences_isSome, loadFileId_isSome, filterOperator_isSome, joinConfig_isSome,
    aggregateConfig_isSome, saveFilename_isSome, validateRules_isSome, sqlStep_isSome,
    unsupportedRuntimeStep_isSome, true_and]
  constructor
  · rintro ⟨hname, -, -, hhash, hformat, hrequired, hrefs, hfile, hagg, hsave, hrules⟩
    have hpipeline : TextOrFalsy config.name := by
      rw [checkPipelineName, Option.isSome_map] at hname
      exact isBlank_isSome.mp hname
    refine ⟨hpipeline, fun step hs => ?_, hrefs⟩
    obtain ⟨hstripped, hquery⟩ := (requiredStepFields_isSome (hformat step hs)).mp (hrequired step hs)
    exact ⟨hformat step hs, hhash step hs, hstripped, hquery, hfile step hs, hagg step hs,
      hsave step hs, hrules step hs⟩
  · intro h
    refine ⟨?_, rfl, rfl, fun s hs => (h.steps s hs).hashable, fun s hs => (h.steps s hs).name,
      fun s hs => ?_, h.references, fun s hs => (h.steps s hs).fileId,
      fun s hs => (h.steps s hs).aggregations, fun s hs => (h.steps s hs).filename,
      fun s hs => (h.steps s hs).rules⟩
    · rw [checkPipelineName, Option.isSome_map]
      exact isBlank_isSome.mpr h.name
    · exact (requiredStepFields_isSome (h.steps s hs).name).mpr
        ⟨(h.steps s hs).stripped, (h.steps s hs).query⟩

/-- The parser raises its documented errors only exactly when the reader raises nothing of its
own and the sizes of a stream are numbers; the validation of a parsed pipeline answers exactly
when every value has a shape that its checks expect. -/
theorem parser_answers (loader : Loader) (isWord : Char → Bool) (py : Python) (u : Unicode)
    (maxPipelineSteps : Nat) (registeredFileIds : List Text) (text : Text) :
    ((∀ e, parseText loader isWord py text = .error e → e.Documented) ↔
      loaderEscapes loader isWord text = false ∧
        ∀ document, parseYaml loader.toPyYaml isWord text = .ok document →
          StepsConvertible document) ∧
      ∀ config, parseText loader isWord py text = .ok config →
        ((validate py u maxPipelineSteps registeredFileIds config).isSome ↔ Answerable config) :=
  ⟨parseText_documented, fun _ _ => validate_isSome⟩

section Examples

/-- A reader on a text that stands for the document. -/
def reading (document : Entries) : Loader where
  safeLoad _ := some (.map document)
  safeDump _ := []
  escapes _ := false

def numberPython : Python where
  print
    | .int n => (toString n).toList
    | _ => []

def streamText : Text :=
  "name: p\nsteps:\n  - name: source\n    type: stream_consume\n    batch_size: all\n".toList

def streamDocument : Entries :=
  [(key "name", str "p"), (key "steps", .seq [.map [(key "name", str "source"),
    (key "type", str "stream_consume"), (key "batch_size", str "all")]])]

def queryText : Text :=
  "name: p\nsteps:\n  - name: report\n    type: sql\n    query: 5\n".toList

def queryDocument : Entries :=
  [(key "name", str "p"), (key "steps", .seq [.map [(key "name", str "report"),
    (key "type", str "sql"), (key "query", .int 5)]])]

def queryConfig : PipelineConfig :=
  ⟨str "p", .null, [⟨str "report", .inl .sql, .null, [("input", str ""), ("query", .int 5)]⟩]⟩

/-- A batch size that is no number escapes from `parse` as a `ValueError`, and a query that is
a number makes `validate` raise. -/
theorem parser_raises :
    parseText (reading streamDocument) Char.isAlphanum numberPython streamText = .error .other ∧
      parseText (reading queryDocument) Char.isAlphanum numberPython queryText =
        .ok queryConfig ∧
      ∀ u, validate numberPython u 50 [] queryConfig = none := by
  refine ⟨rfl, rfl, fun u => ?_⟩
  rw [← Option.not_isSome_iff_eq_none, validate_isSome]
  intro h
  have hquery := (h.steps _ List.mem_cons_self).query rfl rfl
  cases hquery

end Examples

end PipelineIQ.Pipeline.ParserErrors
