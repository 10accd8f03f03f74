import PipelineIQ.Pipeline.ReferenceSoundness

namespace PipelineIQ.Streaming.BatchRegistry

open PipelineIQ.Lib PipelineIQ.Lib.Strings PipelineIQ.Lib.Yaml PipelineIQ.Lib.Traverse
open PipelineIQ.Pipeline.Parser PipelineIQ.Pipeline.Validation PipelineIQ.Pipeline.ParserErrors
open PipelineIQ.Pipeline.ReferenceSoundness PipelineIQ.Execution.SqlBuilder

/-! ### A batch of the daemon -/

/-- The steps that the daemon does not hand to the executor. -/
def isMiddle (step : StepConfig) : Bool :=
  match step.stepType with
  | .inl t => !decide (t ∈ [.streamConsume, .streamPublish, .load, .save])
  | .inr _ => true

def middleSteps (config : PipelineConfig) : List StepConfig := config.steps.filter isMiddle

def streamInput : Text := "_stream_input".toList

variable {Table : Type}

/-- The registry of a batch before its first step. -/
def initial (table : Table) : Dict Key Table := (∅ : Dict Key Table).set (.text streamInput) table

/-- The loop over the middle steps, `none` where it raises. -/
def runSteps (execute : Dict Key Table → StepConfig → Option Table) :
    List StepConfig → Dict Key Table → Option (Dict Key Table)
  | [], registry => some registry
  | step :: steps, registry => (execute registry step).bind fun table =>
    step.name.toKey.bind fun name => runSteps execute steps (registry.set name table)

/-- In every batch, whatever the executor does, a reference that a middle step resolves is in the
registry when the step's turn comes. -/
def ReferencesResolve (config : PipelineConfig) : Prop :=
  ∀ (Table : Type) (execute : Dict Key Table → StepConfig → Option Table) (table : Table)
    (before after : List StepConfig) (step : StepConfig) (registry : Dict Key Table),
    middleSteps config = before ++ step :: after →
    runSteps execute before (initial table) = some registry →
      ∀ v ∈ resolved step, ∃ k, v.toKey = some k ∧ (registry.get? k).isSome

/-- Every reference of a middle step names the stream's table or a middle step. -/
def StaysInside (config : PipelineConfig) : Prop :=
  ∀ step ∈ middleSteps config, ∀ v ∈ resolved step,
    v = .text streamInput ∨ ∃ source ∈ middleSteps config, source.name = v

/-! ### The registry -/

variable {execute : Dict Key Table → StepConfig → Option Table} {steps : List StepConfig}
  {registry registry' : Dict Key Table} {k : Key}

theorem get?_initial (table : Table) (k : Key) :
    ((initial table).get? k).isSome ↔ k = .text streamInput := by
  rw [initial, Dict.get?_set]
  split
  · next h => exact iff_of_true rfl h
  · next h => exact iff_of_false (by simp) h

/-- The steps add their names to the registry and take nothing away. -/
theorem get?_runSteps (h : runSteps execute steps registry = some registry') :
    (registry'.get? k).isSome ↔
      (registry.get? k).isSome ∨ ∃ step ∈ steps, step.name.toKey = some k := by
  induction steps generalizing registry with
  | nil =>
    cases h
    simp
  | cons step steps ih =>
    obtain ⟨table, -, h⟩ := Option.bind_eq_some_iff.mp h
    obtain ⟨name, hname, hrest⟩ := Option.bind_eq_some_iff.mp h
    rw [ih hrest, Dict.get?_set, List.exists_mem_cons_iff, hname, Option.some.injEq]
    by_cases hk : k = name
    · subst hk
      simp
    · simp [hk, Ne.symm hk]

theorem runSteps_returning (table : Table) (registry : Dict Key Table)
    (h : ∀ step ∈ steps, ∃ t, step.name = .text t) :
    ∃ registry', runSteps (fun _ _ => some table) steps registry = some registry' := by
  induction steps generalizing registry with
  | nil => exact ⟨registry, rfl⟩
  | cons step steps ih =>
    obtain ⟨t, ht⟩ := h step List.mem_cons_self
    obtain ⟨registry', hrest⟩ := ih (registry.set (.text t) table) fun s hs =>
      h s (List.mem_cons_of_mem step hs)
    refine ⟨registry', ?_⟩
    rw [runSteps, ht]
    exact hrest

/-! ### Validated pipelines -/

section Validated

variable {py : Python} {u : Unicode} {maxPipelineSteps : Nat} {registeredFileIds : List Text}
  {config : PipelineConfig} {result : ValidationResult}

theorem names_nodup (h : checkDuplicateStepNames py config = some []) :
    (config.steps.map StepConfig.name).Nodup := by
  obtain ⟨keys, hkeys, hnodup⟩ := names_nodup_of_valid h
  apply List.Nodup.of_map Node.toKey
  rw [map_eq_of_mapM hkeys]
  exact hnodup.map (Option.some_injective Key)

/-- A middle step of a config with what stands before it. -/
theorem middle_split {before after : List StepConfig} {step : StepConfig}
    (h : middleSteps config = before ++ step :: after) :
    ∃ front back, config.steps = front ++ step :: back ∧ front.filter isMiddle = before := by
  obtain ⟨front, rest, hsteps, hfront, hrest⟩ := List.filter_eq_append_iff.mp h
  obtain ⟨skipped, back, rfl, hskipped, -, -⟩ := List.filter_eq_cons_iff.mp hrest
  refine ⟨front ++ skipped, back, by rw [hsteps, List.append_assoc], ?_⟩
  rw [List.filter_append, hfront, List.filter_eq_nil_iff.mpr hskipped, List.append_nil]

theorem resolve_of_staysInside
    (hvalid : validate py u maxPipelineSteps registeredFileIds config = some result)
    (herrors : result.errors = []) (hinside : StaysInside config) : ReferencesResolve config := by
  intro Table execute table before after step registry hsplit hrun v hv
  have hstep : step ∈ middleSteps config := by
    rw [hsplit]
    exact List.mem_append_right before List.mem_cons_self
  have hregistry := fun k => get?_runSteps (k := k) hrun
  rcases hinside step hstep v hv with rfl | ⟨source, hsource, rfl⟩
  · refine ⟨.text streamInput, rfl, (hregistry _).mpr (.inl ?_)⟩
    exact (get?_initial table _).mpr rfl
  · obtain ⟨front, back, hsteps, hfront⟩ := middle_split hsplit
    have hfacts := validated_steps hvalid herrors hsteps
    obtain ⟨hmem, hmiddle⟩ := List.mem_filter.mp hsource
    have hname : ∃ t, source.name = .text t := by
      obtain ⟨as, bs, hs⟩ := List.append_of_mem hmem
      exact (validated_steps hvalid herrors hs).name
    obtain ⟨t, ht⟩ := hname
    obtain ⟨t', ht', -, hearlier⟩ := hfacts.resolved hv (by rw [ht]; rfl)
    rw [← ht'] at hearlier
    -- names are unique, so the earlier step of this name is the middle step
    obtain ⟨source', hsource', hsame⟩ := List.mem_map.mp hearlier
    have hnodup := names_nodup (checks_nil hvalid herrors (checkDuplicateStepNames py)
      (by simp [checks]))
    have hmem' : source' ∈ config.steps := by
      rw [hsteps]
      exact List.mem_append_left _ hsource'
    obtain rfl := List.inj_on_of_nodup_map hnodup hmem' hmem hsame
    refine ⟨.text t, by rw [ht]; rfl, (hregistry _).mpr (.inr ⟨source', ?_, by rw [ht]; rfl⟩)⟩
    rw [← hfront]
    exact List.mem_filter.mpr ⟨hsource', hmiddle⟩

theorem staysInside_of_resolve
    (hvalid : validate py u maxPipelineSteps registeredFileIds config = some result)
    (herrors : result.errors = []) (hresolve : ReferencesResolve config) : StaysInside config := by
  intro step hstep v hv
  obtain ⟨before, after, hsplit⟩ := List.append_of_mem hstep
  have hnames : ∀ source ∈ before, ∃ t, source.name = .text t := by
    intro source hsource
    have hmem : source ∈ middleSteps config := by
      rw [hsplit]
      exact List.mem_append_left _ hsource
    obtain ⟨front, back, hs⟩ := List.append_of_mem (List.mem_filter.mp hmem).1
    exact (validated_steps hvalid herrors hs).name
  obtain ⟨registry, hrun⟩ := runSteps_returning () (initial ()) hnames
  obtain ⟨k, hk, hfound⟩ := hresolve Unit _ () before after step registry hsplit hrun v hv
  rcases (get?_runSteps hrun).mp hfound with hinitial | ⟨source, hsource, hname⟩
  · rw [(get?_initial () k).mp hinitial] at hk
    exact .inl (Node.text_of_toKey hk)
  · obtain ⟨t, ht⟩ := hnames source hsource
    rw [ht, Node.toKey, Option.some.injEq] at hname
    subst hname
    refine .inr ⟨source, ?_, ht.trans (Node.text_of_toKey hk).symm⟩
    rw [hsplit]
    exact List.mem_append_left _ hsource

/-- In every batch of a validated pipeline all references resolve exactly when no middle step
reads the output of a step that is none, unless that step is named like the stream's table. -/
theorem batch_references_resolve (py : Python) (u : Unicode) (maxPipelineSteps : Nat)
    (registeredFileIds : List Text) (config : PipelineConfig) (result : ValidationResult)
    (hvalid : validate py u maxPipelineSteps registeredFileIds config = some result)
    (herrors : result.errors = []) : ReferencesResolve config ↔ StaysInside config :=
  ⟨staysInside_of_resolve hvalid herrors, resolve_of_staysInside hvalid herrors⟩

end Validated

section Examples

def feedText (feed : String) : Text :=
  ("name: p\nsteps:\n  - name: " ++ feed ++ "\n    type: stream_consume\n    topic: orders\n" ++
    "  - name: kept\n    type: select\n    input: " ++ feed ++ "\n    columns: [id]\n" ++
    "  - name: out\n    type: stream_publish\n    input: kept\n    topic: ids\n").toList

def feedDocument (feed : String) : Entries :=
  [(key "name", str "p"), (key "steps", .seq
    [.map [(key "name", str feed), (key "type", str "stream_consume"), (key "topic", str "orders")],
     .map [(key "name", str "kept"), (key "type", str "select"), (key "input", str feed),
       (key "columns", .seq [str "id"])],
     .map [(key "name", str "out"), (key "type", str "stream_publish"), (key "input", str "kept"),
       (key "topic", str "ids")]])]

def consumeStep (feed : String) : StepConfig :=
  ⟨str feed, .inl .streamConsume, .null, [("topic", str "orders"), ("consumer_group", str ""),
    ("batch_size", .int 1000), ("batch_timeout_ms", .int 5000), ("deserialize", str "json")]⟩

def selectStep (feed : String) : StepConfig :=
  ⟨str "kept", .inl .select, .null, [("input", str feed), ("columns", .seq [str "id"])]⟩

def publishStep : StepConfig :=
  ⟨str "out", .inl .streamPublish, .null, [("input", str "kept"), ("topic", str "ids"),
    ("serialize", str "json"), ("key_column", .null)]⟩

def feedConfig (feed : String) : PipelineConfig :=
  ⟨str "p", .null, [consumeStep feed, selectStep feed, publishStep]⟩

theorem staysInside_feedConfig (feed : String) :
    StaysInside (feedConfig feed) ↔ str feed = .text streamInput ∨ str "kept" = str feed := by
  have hmiddle : middleSteps (feedConfig feed) = [selectStep feed] := rfl
  have hresolved : resolved (selectStep feed) = [str feed] := rfl
  unfold StaysInside
  rw [hmiddle, List.forall_mem_singleton, hresolved, List.forall_mem_singleton,
    List.exists_mem_cons_iff]
  simp [selectStep]

/-- A step that reads the stream by the name of its consume step. -/
theorem stream_reference_missing :
    parse (reading (feedDocument "feed")).toPyYaml Char.isAlphanum numberPython
        (feedText "feed") = .ok (feedConfig "feed") ∧
      (∀ u, validate numberPython u 50 [] (feedConfig "feed") = some clean) ∧
      ¬ ReferencesResolve (feedConfig "feed") := by
  have hvalid : ∀ u, validate numberPython u 50 [] (feedConfig "feed") = some clean :=
    fun u => rfl
  refine ⟨rfl, hvalid, fun hresolve => ?_⟩
  have hinside := staysInside_of_resolve (hvalid asciiText) rfl hresolve
  rcases (staysInside_feedConfig "feed").mp hinside with h | h
  · injection h with h
    exact absurd h (by decide)
  · injection h with h
    exact absurd h (by decide)

/-- A consume step that is named like the stream's table. -/
theorem batch_references_resolve_streamInput : ReferencesResolve (feedConfig "_stream_input") :=
  (batch_references_resolve numberPython asciiText 50 [] (feedConfig "_stream_input") clean rfl
    rfl).mpr ((staysInside_feedConfig "_stream_input").mpr (.inl rfl))

end Examples

end PipelineIQ.Streaming.BatchRegistry
