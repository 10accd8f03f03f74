import PipelineIQ.Pipeline.Parser
import Mathlib.Data.List.Forall2

namespace PipelineIQ.Pipeline.VersionDiff

open PipelineIQ.Lib PipelineIQ.Lib.Strings PipelineIQ.Lib.Yaml PipelineIQ.Pipeline.Parser

/-! ### The diff of two versions -/

structure StepDiff where
  stepName : Key
  changeType : String
  oldConfig : Entries
  newConfig : Entries
  changedFields : List Text

structure PipelineDiff where
  versionA : Nat
  versionB : Nat
  pipelineName : Node
  stepsAdded : List Key
  stepsRemoved : List Key
  stepsModified : List StepDiff
  hasChanges : Bool
  unifiedDiff : Text
  changeSummary : Text

/-- `yaml.safe_load(text) or {}`, which has to be a mapping for what follows. -/
def loadConfig (yaml : PyYaml) (text : Text) : Option Entries :=
  (yaml.safeLoad text).bind fun v => if v.truthy then v.asMap else some []

/-- A step under its name; a step without a name raises. -/
def keyedStep (step : Node) : Option (Key × Entries) := do
  let raw ← step.asMap
  let name ← raw.get? (key "name")
  let k ← name.toKey
  some (k, raw)

/-- The steps by name, of several the last one. -/
def stepsByName (pipeline : Entries) : Option (Dict Key Entries) := do
  let items ← (pipeline.getD (key "steps") (.seq [])).iterate
  let keyed ← items.mapM keyedStep
  some (.ofList keyed)

def same (a b : Entries) : Bool := (Node.map a).same (.map b)

section Diff

variable (py : Python)

/-- `sorted(keys, key=str)`. -/
def sortedKeys (keys : List Key) : List Key :=
  keys.mergeSort fun a b => !decide (py.str b.toNode < py.str a.toNode)

def changedFields (old new : Entries) : List Text :=
  ((sortedKeys py (old.map Prod.fst ++
    (new.map Prod.fst).filter fun k => decide (k ∉ old.map Prod.fst))).filter fun k =>
      !(Entries.getD old k .null).same (Entries.getD new k .null)).map fun k => py.str k.toNode

def stepDiff (stepsA stepsB : Dict Key Entries) (name : Key) : Option StepDiff :=
  match stepsA.get? name, stepsB.get? name with
  | some old, some new =>
    if same old new then none
    else some
      { stepName := name
        changeType := "modified"
        oldConfig := old
        newConfig := new
        changedFields := changedFields py old new }
  | _, _ => none

def summaryPart (n : Nat) (change : String) : Option Text :=
  if n = 0 then none else some ((toString n).toList ++ " steps ".toList ++ change.toList)

/-- `diff_pipelines`, `none` where it raises. `unified` is the diff of the lines of two texts. -/
def diffPipelines (yaml : PyYaml) (unified : Text → Text → Nat → Nat → Text) (yamlA yamlB : Text)
    (versionA versionB : Nat) : Option PipelineDiff := do
  let pipelineA ← pipelineOf (← loadConfig yaml yamlA)
  let pipelineB ← pipelineOf (← loadConfig yaml yamlB)
  let stepsA ← stepsByName pipelineA
  let stepsB ← stepsByName pipelineB
  let stepsAdded := sortedKeys py (stepsB.keys.filter fun k => decide (k ∉ stepsA.keys))
  let stepsRemoved := sortedKeys py (stepsA.keys.filter fun k => decide (k ∉ stepsB.keys))
  let stepsModified := (sortedKeys py (stepsA.keys.filter fun k => decide (k ∈ stepsB.keys))).filterMap
    (stepDiff py stepsA stepsB)
  let parts := [summaryPart stepsAdded.length "added", summaryPart stepsRemoved.length "removed",
    summaryPart stepsModified.length "modified"].filterMap id
  some
    { versionA
      versionB
      pipelineName := pipelineB.getD (key "name") (str "unknown")
      stepsAdded
      stepsRemoved
      stepsModified
      hasChanges := !(stepsAdded.isEmpty && stepsRemoved.isEmpty && stepsModified.isEmpty)
      unifiedDiff := unified yamlA yamlB versionA versionB
      changeSummary := if parts.isEmpty then "No changes".toList else ", ".toList.intercalate parts }

end Diff

/-! ### What an exact diff is -/

/-- Equal steps, their values compared as objects. -/
structure StepAlike (s t : StepConfig) : Prop where
  name : s.name.same t.name = true
  stepType : match s.stepType, t.stepType with
    | .inl a, .inl b => a = b
    | .inr a, .inr b => a.same b = true
    | _, _ => False
  contract : s.contract.same t.contract = true
  fields : List.Forall₂ (fun f g => f.1 = g.1 ∧ f.2.same g.2 = true) s.fields t.fields

structure ConfigAlike (c d : PipelineConfig) : Prop where
  name : c.name.same d.name = true
  description : c.description.same d.description = true
  steps : List.Forall₂ StepAlike c.steps d.steps

/-- The steps of a name; `none` for a name that is no key. -/
def stepsNamed (config : PipelineConfig) (name : Option Key) : List StepConfig :=
  config.steps.filter fun s => decide (s.name.toKey = name)

def Reported (diff : PipelineDiff) (name : Option Key) : Prop :=
  ∃ k, name = some k ∧ (k ∈ diff.stepsAdded ∨ k ∈ diff.stepsRemoved ∨
    ∃ d ∈ diff.stepsModified, d.stepName = k)

/-- The steps of one pipeline, changed as a diff says, are those of another one: name by name, with
the new mapping of a modified step, and one step of each added name. -/
structure Yields (py : Python) (diff : PipelineDiff) (a b : PipelineConfig) : Prop where
  removed : ∀ k ∈ diff.stepsRemoved, stepsNamed b (some k) = []
  added : ∀ k ∈ diff.stepsAdded, stepsNamed a (some k) = [] ∧ (stepsNamed b (some k)).length = 1
  modified : ∀ d ∈ diff.stepsModified, ∃ s t, parseMapping py d.newConfig = .ok s ∧
    stepsNamed b (some d.stepName) = [t] ∧ StepAlike s t
  kept : ∀ name, ¬ Reported diff name →
    List.Forall₂ StepAlike (stepsNamed a name) (stepsNamed b name)

structure Exact (py : Python) (diff : PipelineDiff) (a b : PipelineConfig) : Prop where
  unchanged : diff.hasChanges = false → ConfigAlike a b
  yields : Yields py diff a b

/-! ### What the diff reads -/

/-- The steps by name of a text as it is. -/
def readSteps (yaml : PyYaml) (text : Text) : Option (Dict Key Entries) := do
  stepsByName (← pipelineOf (← loadConfig yaml text))

/-- A step of a name is added, removed or changed. -/
def Differs (stepsA stepsB : Dict Key Entries) (k : Key) : Prop :=
  match stepsA.get? k, stepsB.get? k with
  | none, none => False
  | some old, some new => same old new = false
  | _, _ => True

/-- The steps of a name are accounted for by the last one that each text has of it. -/
def Accounted (py : Python) (stepsA stepsB : Dict Key Entries) (a b : PipelineConfig) (k : Key) :
    Prop :=
  match stepsA.get? k, stepsB.get? k with
  | none, none => List.Forall₂ StepAlike (stepsNamed a (some k)) (stepsNamed b (some k))
  | none, some _ => stepsNamed a (some k) = [] ∧ (stepsNamed b (some k)).length = 1
  | some _, none => stepsNamed b (some k) = []
  | some old, some new =>
    if same old new then
      List.Forall₂ StepAlike (stepsNamed a (some k)) (stepsNamed b (some k))
    else ∃ s t, parseMapping py new = .ok s ∧ stepsNamed b (some k) = [t] ∧ StepAlike s t

section Reports

variable {py : Python} {yaml : PyYaml} {unified : Text → Text → Nat → Nat → Text}
  {yamlA yamlB : Text} {versionA versionB : Nat} {stepsA stepsB : Dict Key Entries} {k : Key}
  {diff : PipelineDiff} {a b : PipelineConfig}

/-- What a diff reports of the steps that it read. -/
structure Reports (stepsA stepsB : Dict Key Entries) (diff : PipelineDiff) : Prop where
  added : ∀ k, k ∈ diff.stepsAdded ↔ stepsA.get? k = none ∧ ∃ new, stepsB.get? k = some new
  removed : ∀ k, k ∈ diff.stepsRemoved ↔ stepsB.get? k = none ∧ ∃ old, stepsA.get? k = some old
  modified : ∀ d ∈ diff.stepsModified, stepsA.get? d.stepName = some d.oldConfig ∧
    stepsB.get? d.stepName = some d.newConfig ∧ same d.oldConfig d.newConfig = false
  mentioned : ∀ k old new, stepsA.get? k = some old → stepsB.get? k = some new →
    same old new = false → ∃ d ∈ diff.stepsModified, d.stepName = k ∧ d.newConfig = new
  hasChanges : diff.hasChanges = false ↔
    diff.stepsAdded = [] ∧ diff.stepsRemoved = [] ∧ diff.stepsModified = []

theorem mem_sortedKeys {keys : List Key} : k ∈ sortedKeys py keys ↔ k ∈ keys := List.mem_mergeSort

theorem mem_only :
    k ∈ sortedKeys py (stepsB.keys.filter fun k => decide (k ∉ stepsA.keys)) ↔
      stepsA.get? k = none ∧ ∃ new, stepsB.get? k = some new := by
  rw [mem_sortedKeys, List.mem_filter, decide_eq_true_iff, Dict.mem_keys_iff, Dict.mem_keys_iff,
    not_exists, Option.eq_none_iff_forall_ne_some]
  exact and_comm

theorem stepDiff_eq_some {d : StepDiff} (h : stepDiff py stepsA stepsB k = some d) :
    d.stepName = k ∧ stepsA.get? k = some d.oldConfig ∧ stepsB.get? k = some d.newConfig ∧
      same d.oldConfig d.newConfig = false := by
  unfold stepDiff at h
  split at h
  · next old new hold hnew =>
    split at h
    · nomatch h
    · next hsame =>
      rw [← Option.some.inj h]
      exact ⟨rfl, hold, hnew, Bool.eq_false_iff.mpr hsame⟩
  · nomatch h

theorem exists_stepDiff {old new : Entries} (hold : stepsA.get? k = some old)
    (hnew : stepsB.get? k = some new) (hsame : same old new = false) :
    ∃ d, stepDiff py stepsA stepsB k = some d ∧ d.stepName = k ∧ d.newConfig = new := by
  unfold stepDiff
  rw [hold, hnew]
  exact ⟨_, if_neg (Bool.eq_false_iff.mp hsame), rfl, rfl⟩

theorem reports_of_diffPipelines
    (h : diffPipelines py yaml unified yamlA yamlB versionA versionB = some diff) :
    ∃ stepsA stepsB, readSteps yaml yamlA = some stepsA ∧ readSteps yaml yamlB = some stepsB ∧
      Reports stepsA stepsB diff := by
  unfold diffPipelines at h
  obtain ⟨configA, hconfigA, h⟩ := Option.bind_eq_some_iff.mp h
  obtain ⟨pipelineA, hpipelineA, h⟩ := Option.bind_eq_some_iff.mp h
  obtain ⟨configB, hconfigB, h⟩ := Option.bind_eq_some_iff.mp h
  obtain ⟨pipelineB, hpipelineB, h⟩ := Option.bind_eq_some_iff.mp h
  obtain ⟨stepsA, hstepsA, h⟩ := Option.bind_eq_some_iff.mp h
  obtain ⟨stepsB, hstepsB, h⟩ := Option.bind_eq_some_iff.mp h
  refine ⟨stepsA, stepsB, ?_, ?_, ?_⟩
  · exact Option.bind_eq_some_iff.mpr ⟨configA, hconfigA,
      Option.bind_eq_some_iff.mpr ⟨pipelineA, hpipelineA, hstepsA⟩⟩
  · exact Option.bind_eq_some_iff.mpr ⟨configB, hconfigB,
      Option.bind_eq_some_iff.mpr ⟨pipelineB, hpipelineB, hstepsB⟩⟩
  · rw [← Option.some.inj h]
    constructor
    · exact fun k => mem_only
    · exact fun k => mem_only
    · intro d hd
      obtain ⟨k, -, hk⟩ := List.mem_filterMap.mp hd
      obtain ⟨rfl, hold, hnew, hsame⟩ := stepDiff_eq_some hk
      exact ⟨hold, hnew, hsame⟩
    · intro k old new hold hnew hsame
      obtain ⟨d, hd, hname, hconfig⟩ := @exists_stepDiff py _ _ _ _ _ hold hnew hsame
      refine ⟨d, List.mem_filterMap.mpr ⟨k, mem_sortedKeys.mpr (List.mem_filter.mpr ⟨?_, ?_⟩), hd⟩,
        hname, hconfig⟩
      · exact (stepsA.mem_keys_iff k).mpr ⟨old, hold⟩
      · exact decide_eq_true ((stepsB.mem_keys_iff k).mpr ⟨new, hnew⟩)
    · dsimp only
      rw [Bool.not_eq_false', Bool.and_eq_true, Bool.and_eq_true, List.isEmpty_iff,
        List.isEmpty_iff, List.isEmpty_iff, and_assoc]

theorem exists_diffPipelines (hA : readSteps yaml yamlA = some stepsA)
    (hB : readSteps yaml yamlB = some stepsB) :
    ∃ diff, diffPipelines py yaml unified yamlA yamlB versionA versionB = some diff := by
  obtain ⟨configA, hconfigA, hA⟩ := Option.bind_eq_some_iff.mp hA
  obtain ⟨pipelineA, hpipelineA, hA⟩ := Option.bind_eq_some_iff.mp hA
  obtain ⟨configB, hconfigB, hB⟩ := Option.bind_eq_some_iff.mp hB
  obtain ⟨pipelineB, hpipelineB, hB⟩ := Option.bind_eq_some_iff.mp hB
  simp only [diffPipelines, hconfigA, hpipelineA, hconfigB, hpipelineB, hA, hB, Option.bind_eq_bind,
    Option.bind_some]
  exact ⟨_, rfl⟩

theorem reported_iff (h : Reports stepsA stepsB diff) :
    Reported diff (some k) ↔ Differs stepsA stepsB k := by
  constructor
  · rintro ⟨name, hk, hin⟩
    obtain rfl := Option.some.inj hk
    obtain hadded | hremoved | ⟨d, hd, rfl⟩ := hin
    · obtain ⟨hold, new, hnew⟩ := (h.added k).mp hadded
      simp only [Differs, hold, hnew]
    · obtain ⟨hnew, old, hold⟩ := (h.removed k).mp hremoved
      simp only [Differs, hold, hnew]
    · obtain ⟨hold, hnew, hsame⟩ := h.modified d hd
      simp only [Differs, hold, hnew, hsame]
  · intro hdiffers
    refine ⟨k, rfl, ?_⟩
    cases hold : stepsA.get? k with
    | none =>
      cases hnew : stepsB.get? k with
      | none => simp only [Differs, hold, hnew] at hdiffers
      | some new => exact .inl ((h.added k).mpr ⟨hold, new, hnew⟩)
    | some old =>
      cases hnew : stepsB.get? k with
      | none => exact .inr (.inl ((h.removed k).mpr ⟨hnew, old, hold⟩))
      | some new =>
        simp only [Differs, hold, hnew] at hdiffers
        obtain ⟨d, hd, hname, -⟩ := h.mentioned k old new hold hnew hdiffers
        exact .inr (.inr ⟨d, hd, hname⟩)

theorem hasChanges_iff (h : Reports stepsA stepsB diff) :
    diff.hasChanges = false ↔ ¬ ∃ k, Differs stepsA stepsB k := by
  rw [h.hasChanges]
  constructor
  · rintro ⟨hadded, hremoved, hmodified⟩ ⟨k, hk⟩
    obtain ⟨name, _, hin | hin | ⟨d, hd, _⟩⟩ := (reported_iff h).mpr hk
    · exact List.not_mem_nil (hadded ▸ hin)
    · exact List.not_mem_nil (hremoved ▸ hin)
    · exact List.not_mem_nil (hmodified ▸ hd)
  · intro hnone
    have hunreported : ∀ k, ¬ Reported diff (some k) := fun k hk =>
      hnone ⟨k, (reported_iff h).mp hk⟩
    refine ⟨?_, ?_, ?_⟩ <;> rw [List.eq_nil_iff_forall_not_mem]
    · exact fun k hk => hunreported k ⟨k, rfl, .inl hk⟩
    · exact fun k hk => hunreported k ⟨k, rfl, .inr (.inl hk)⟩
    · exact fun d hd => hunreported d.stepName ⟨d.stepName, rfl, .inr (.inr ⟨d, hd, rfl⟩)⟩

theorem accounted_of_yields (h : Reports stepsA stepsB diff) (hyields : Yields py diff a b) (k : Key) :
    Accounted py stepsA stepsB a b k := by
  have hkept : ¬ Differs stepsA stepsB k →
      List.Forall₂ StepAlike (stepsNamed a (some k)) (stepsNamed b (some k)) := fun hdiffers =>
    hyields.kept (some k) fun hreported => hdiffers ((reported_iff h).mp hreported)
  cases hold : stepsA.get? k with
  | none =>
    cases hnew : stepsB.get? k with
    | none =>
      simp only [Accounted, hold, hnew]
      exact hkept fun hdiffers => by simp only [Differs, hold, hnew] at hdiffers
    | some new =>
      simp only [Accounted, hold, hnew]
      exact hyields.added k ((h.added k).mpr ⟨hold, new, hnew⟩)
  | some old =>
    cases hnew : stepsB.get? k with
    | none =>
      simp only [Accounted, hold, hnew]
      exact hyields.removed k ((h.removed k).mpr ⟨hnew, old, hold⟩)
    | some new =>
      simp only [Accounted, hold, hnew]
      cases hsame : same old new with
      | true =>
        rw [if_pos rfl]
        refine hkept fun hdiffers => ?_
        simp only [Differs, hold, hnew] at hdiffers
        exact Bool.false_ne_true (hdiffers.symm.trans hsame)
      | false =>
        rw [if_neg Bool.false_ne_true]
        obtain ⟨d, hd, rfl, rfl⟩ := h.mentioned k old new hold hnew hsame
        exact hyields.modified d hd

theorem yields_of_accounted (h : Reports stepsA stepsB diff)
    (hall : ∀ k, Accounted py stepsA stepsB a b k)
    (hnone : List.Forall₂ StepAlike (stepsNamed a none) (stepsNamed b none)) :
    Yields py diff a b := by
  constructor
  · intro k hk
    obtain ⟨hnew, old, hold⟩ := (h.removed k).mp hk
    have hacc := hall k
    simp only [Accounted, hold, hnew] at hacc
    exact hacc
  · intro k hk
    obtain ⟨hold, new, hnew⟩ := (h.added k).mp hk
    have hacc := hall k
    simp only [Accounted, hold, hnew] at hacc
    exact hacc
  · intro d hd
    obtain ⟨hold, hnew, hsame⟩ := h.modified d hd
    have hacc := hall d.stepName
    simp only [Accounted, hold, hnew, hsame, Bool.false_eq_true, ↓reduceIte] at hacc
    exact hacc
  · intro name hname
    cases name with
    | none => exact hnone
    | some k =>
      have hdiffers : ¬ Differs stepsA stepsB k := fun hk => hname ((reported_iff h).mpr hk)
      have hacc := hall k
      cases hold : stepsA.get? k <;> cases hnew : stepsB.get? k <;>
        simp only [Differs, Accounted, hold, hnew, not_true_eq_false] at hdiffers hacc
      · exact hacc
      · rw [if_pos (eq_true_of_ne_false hdiffers)] at hacc
        exact hacc

end Reports

section Examples

def versionText (description : String) : Text :=
  ("name: p\ndescription: " ++ description ++ "\nsteps:\n  - name: orders\n    type: load\n" ++
    "    file_id: f1\n").toList

def ordersStep : Entries :=
  [(key "name", str "orders"), (key "type", str "load"), (key "file_id", str "f1")]

def versionDocument (description : String) : Entries :=
  [(key "name", str "p"), (key "description", str description),
    (key "steps", .seq [.map ordersStep])]

def versionConfig (description : String) : PipelineConfig :=
  ⟨str "p", str description, [⟨str "orders", .inl .load, .null,
    [("file_id", str "f1"), ("alias", .null)]⟩]⟩

/-- A reader of the two texts, of which one alone has a `w`. -/
def versionYaml : PyYaml where
  safeLoad text := some (.map (versionDocument (if 'w' ∈ text then "weekly" else "daily")))
  safeDump _ := []

theorem not_differs_self (k : Key) : ¬ Differs (.ofList [(key "orders", ordersStep)])
    (.ofList [(key "orders", ordersStep)]) k := by
  unfold Differs
  cases h : (Dict.ofList [(key "orders", ordersStep)]).get? k with
  | none => exact not_false
  | some old =>
    obtain ⟨-, rfl⟩ := Prod.mk.inj (List.mem_singleton.mp (Dict.mem_of_find h))
    exact fun hsame => Bool.false_ne_true (hsame.symm.trans rfl)

end Examples

end PipelineIQ.Pipeline.VersionDiff
