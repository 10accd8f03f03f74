import Mathlib.Logic.Function.Basic
import PipelineIQ.Lib.Machine
import PipelineIQ.Pipeline.Versioning

namespace PipelineIQ.Pipeline.SaveVersion

open PipelineIQ.Lib.Machine PipelineIQ.Pipeline.Versioning

/-! ### Concurrent saves -/

/-- Where a save stands: before the query of an attempt, with a version added and not committed, or
at its end. -/
inductive Phase (Yaml : Type) where
  | reading (attempt : Nat)
  | adding (attempt : Nat) (version : PipelineVersion Yaml)
  | returned (version : PipelineVersion Yaml)
  | raised

/-- A call of the function, in a session of its own. -/
structure Save (Yaml : Type) where
  pipelineName : String
  yamlConfig : Yaml
  runId : Option Nat
  maxRetries : Nat := 5
  phase : Phase Yaml

/-- The committed rows in the order of their commits, each with the save that wrote it. -/
structure Database (Id Yaml : Type) where
  versions : List (Id × PipelineVersion Yaml) := []
  saves : Id → Option (Save Yaml) := fun _ => none

/-- What goes wrong at a commit: the rows of the session violate another constraint, or the database
fails before or after it has stored them. -/
inductive Fault where
  | integrity
  | unstored
  | unacknowledged

inductive Outcome where
  | stored | refused | failed | unacknowledged
  deriving DecidableEq

variable {Id Yaml : Type} [DecidableEq Id]

def Database.rows (db : Database Id Yaml) : List (PipelineVersion Yaml) := db.versions.map Prod.snd

/-- The constraint on the name and the number. -/
def taken (rows : List (PipelineVersion Yaml)) (version : PipelineVersion Yaml) : Bool :=
  rows.any fun v => decide (v.pipelineName = version.pipelineName) &&
    decide (v.versionNumber = version.versionNumber)

def commitOutcome (rows : List (PipelineVersion Yaml)) (version : PipelineVersion Yaml) :
    Option Fault → Outcome
  | none => if taken rows version then .refused else .stored
  | some .integrity => .refused
  | some .unstored => .failed
  | some .unacknowledged => if taken rows version then .refused else .unacknowledged

/-- After an integrity error the session is rolled back, and all but the last attempt go on. -/
def retry (maxRetries attempt : Nat) : Phase Yaml :=
  if attempt = maxRetries - 1 then .raised else .reading (attempt + 1)

def Database.enter (db : Database Id Yaml) (id : Id) (save : Save Yaml) (phase : Phase Yaml) :
    Database Id Yaml :=
  { db with saves := Function.update db.saves id (some { save with phase }) }

def Database.store (db : Database Id Yaml) (id : Id) (version : PipelineVersion Yaml) :
    Database Id Yaml :=
  { db with versions := db.versions ++ [(id, version)] }

def commit (db : Database Id Yaml) (id : Id) (save : Save Yaml) (attempt : Nat)
    (version : PipelineVersion Yaml) (fault : Option Fault) : Database Id Yaml :=
  match commitOutcome db.rows version fault with
  | .stored => (db.store id version).enter id save (.returned version)
  | .refused => db.enter id save (retry save.maxRetries attempt)
  | .failed => db.enter id save .raised
  | .unacknowledged => (db.store id version).enter id save .raised

/-- The version that an attempt adds, from the rows that its query sees. -/
def versionOf (rows : List (PipelineVersion Yaml)) (save : Save Yaml) : PipelineVersion Yaml where
  pipelineName := save.pipelineName
  versionNumber := nextVersion rows save.pipelineName
  yamlConfig := save.yamlConfig
  runId := save.runId

/-- A query sees the rows of some moment, which may be as old as the transaction of its session. An
exception of the query or of the diff ends the save before anything is added. -/
inductive Act (Yaml : Type) where
  | call (pipelineName : String) (yamlConfig : Yaml) (runId : Option Nat) (maxRetries : Nat)
  | query (seen : Nat)
  | raise
  | commit (fault : Option Fault)

def step (db : Database Id Yaml) : Id × Act Yaml → Option (Database Id Yaml)
  | (id, .call pipelineName yamlConfig runId maxRetries) =>
    match db.saves id with
    | some _ => none
    | none =>
      let phase := if maxRetries < 1 then .raised else .reading 0
      some (db.enter id ⟨pipelineName, yamlConfig, runId, maxRetries, phase⟩ phase)
  | (id, .query seen) => (db.saves id).bind fun save => match save.phase with
    | .reading attempt =>
      some (db.enter id save (.adding attempt (versionOf (db.rows.take seen) save)))
    | _ => none
  | (id, .raise) => (db.saves id).bind fun save => match save.phase with
    | .reading _ => some (db.enter id save .raised)
    | _ => none
  | (id, .commit fault) => (db.saves id).bind fun save => match save.phase with
    | .adding attempt version => some (commit db id save attempt version fault)
    | _ => none

/-! ### The numbers of a name -/

def numbers (rows : List (PipelineVersion Yaml)) (pipelineName : String) : List Nat :=
  (rows.filter fun v => decide (v.pipelineName = pipelineName)).map PipelineVersion.versionNumber

def rowsOf (db : Database Id Yaml) (id : Id) : List (PipelineVersion Yaml) :=
  (db.versions.filter fun r => decide (r.1 = id)).map Prod.snd

/-- The numbers of every name are `1` to `n`. -/
def Numbered (rows : List (PipelineVersion Yaml)) : Prop :=
  ∀ pipelineName, ∃ n, numbers rows pipelineName = List.range' 1 n

/-- The numbers of every name are `1` to `n`, and a save that returns has written the row that it
returns and no other. -/
structure Contiguous (db : Database Id Yaml) : Prop where
  numbered : Numbered db.rows
  single : ∀ id save version, db.saves id = some save → save.phase = .returned version →
    rowsOf db id = [version] ∧ version.pipelineName = save.pipelineName ∧
      version.yamlConfig = save.yamlConfig ∧ version.runId = save.runId

variable {rows : List (PipelineVersion Yaml)} {version : PipelineVersion Yaml} {name : String}
  {db : Database Id Yaml}

theorem numbers_append_singleton : numbers (rows ++ [version]) name =
    if version.pipelineName = name then numbers rows name ++ [version.versionNumber]
    else numbers rows name := by
  unfold numbers
  rw [List.filter_append, List.map_append]
  split
  next h => simp [h]
  next h => simp [h]

/-- Of rows numbered from `1` on, the last one has the highest number. -/
theorem latestVersion_eq {n : Nat} (h : numbers rows name = List.range' 1 n) :
    latestVersion rows name = (rows.filter fun v => decide (v.pipelineName = name)).getLast? := by
  unfold numbers at h
  unfold latestVersion
  generalize hl : (rows.filter fun v => decide (v.pipelineName = name)) = l at h ⊢
  clear hl
  induction n generalizing l with
  | zero =>
    rw [List.range'_zero, List.map_eq_nil_iff] at h
    subst h
    rfl
  | succ n ih =>
    rw [List.range'_1_concat] at h
    obtain ⟨earlier, last, rfl, hearlier, hlast⟩ := List.map_eq_append_iff.mp h
    obtain ⟨v, rfl, hv⟩ := List.map_eq_singleton_iff.mp hlast
    rw [List.foldl_append, ih _ hearlier, List.getLast?_append]
    cases hprev : earlier.getLast? with
    | none => rfl
    | some prev =>
      have hmem : prev.versionNumber ∈ List.range' 1 n := by
        rw [← hearlier]
        exact List.mem_map_of_mem (List.mem_of_getLast? hprev)
      rw [List.mem_range'_1] at hmem
      have hlt : prev.versionNumber < v.versionNumber := by omega
      simp [hlt]

theorem nextVersion_eq {n : Nat} (h : numbers rows name = List.range' 1 n) :
    nextVersion rows name = n + 1 := by
  rw [nextVersion, latestVersion_eq h]
  cases n with
  | zero =>
    rw [List.range'_zero, numbers, List.map_eq_nil_iff] at h
    rw [h]
    rfl
  | succ n =>
    rw [List.range'_1_concat, numbers] at h
    obtain ⟨earlier, last, hsplit, -, hlast⟩ := List.map_eq_append_iff.mp h
    obtain ⟨v, rfl, hv⟩ := List.map_eq_singleton_iff.mp hlast
    rw [hsplit, List.getLast?_concat]
    exact congrArg (· + 1) (hv.trans (Nat.add_comm 1 n))

/-- A query that sees the rows of an earlier moment counts on from what they hold. -/
theorem nextVersion_take {n : Nat} (h : numbers rows name = List.range' 1 n) (seen : Nat) :
    ∃ k ≤ n, nextVersion (rows.take seen) name = k + 1 := by
  have hprefix : numbers (rows.take seen) name <+: List.range' 1 n := by
    rw [← h]
    exact ((List.take_prefix seen rows).filter _).map _
  obtain ⟨later, hlater⟩ := hprefix
  obtain ⟨k, hk, hnumbers, -⟩ := List.range'_eq_append_iff.mp hlater.symm
  exact ⟨k, hk, nextVersion_eq hnumbers⟩

/-- A number that is free and at most one past the highest is one past the highest. -/
theorem numbers_concat {n : Nat} (h : numbers rows version.pipelineName = List.range' 1 n)
    (hpos : 1 ≤ version.versionNumber) (hle : version.versionNumber ≤ n + 1)
    (hfree : taken rows version = false) :
    numbers (rows ++ [version]) version.pipelineName = List.range' 1 (n + 1) := by
  have hnew : version.versionNumber ∉ List.range' 1 n := by
    rw [← h]
    intro hmem
    obtain ⟨v, hv, hsame⟩ := List.mem_map.mp hmem
    obtain ⟨hrow, hname⟩ := List.mem_filter.mp hv
    have := List.any_eq_false.mp hfree v hrow
    simp only [hname, hsame, decide_true, Bool.and_self, not_true] at this
  rw [List.mem_range'_1] at hnew
  have hnumber : version.versionNumber = 1 + n := by omega
  rw [numbers_append_singleton, if_pos rfl, h, hnumber, List.range'_1_concat]

/-! ### The invariant -/

/-- The version belongs to the save. -/
def IsVersionOf (save : Save Yaml) (version : PipelineVersion Yaml) : Prop :=
  version.pipelineName = save.pipelineName ∧ version.yamlConfig = save.yamlConfig ∧
    version.runId = save.runId

/-- The number was free at some moment: it is taken, or it is the one past the highest. -/
def AtMostNext (rows : List (PipelineVersion Yaml)) (version : PipelineVersion Yaml) : Prop :=
  1 ≤ version.versionNumber ∧
    version.versionNumber ≤ (numbers rows version.pipelineName).length + 1

/-- What the database holds of a save in a phase. -/
def PhaseOk (db : Database Id Yaml) (id : Id) (save : Save Yaml) : Phase Yaml → Prop
  | .reading _ => rowsOf db id = []
  | .adding _ version => rowsOf db id = [] ∧ IsVersionOf save version ∧ AtMostNext db.rows version
  | .returned version => rowsOf db id = [version] ∧ IsVersionOf save version
  | .raised => True

structure Inv (db : Database Id Yaml) : Prop where
  numbered : Numbered db.rows
  unused : ∀ id, db.saves id = none → rowsOf db id = []
  phases : ∀ id save, db.saves id = some save → PhaseOk db id save save.phase

variable {id other : Id} {save : Save Yaml} {phase : Phase Yaml}

omit [DecidableEq Id] in
theorem rows_store : (db.store id version).rows = db.rows ++ [version] := by
  rw [Database.rows, Database.store, List.map_append]
  rfl

theorem rowsOf_store_self : rowsOf (db.store id version) id = rowsOf db id ++ [version] := by
  simp [rowsOf, Database.store]

theorem rowsOf_store_ne (h : other ≠ id) : rowsOf (db.store id version) other = rowsOf db other := by
  simp [rowsOf, Database.store, h.symm]

theorem saves_enter_self :
    (db.enter id save phase).saves id = some { save with phase } :=
  Function.update_self ..

theorem saves_enter_ne (h : other ≠ id) : (db.enter id save phase).saves other = db.saves other :=
  Function.update_of_ne h ..

theorem atMostNext_append {v : PipelineVersion Yaml} (h : AtMostNext rows v) :
    AtMostNext (rows ++ [version]) v := by
  refine ⟨h.1, Nat.le_trans h.2 (Nat.succ_le_succ ?_)⟩
  rw [numbers_append_singleton]
  split
  · rw [List.length_append]
    exact Nat.le_add_right _ _
  · exact Nat.le_refl _

/-- A row of another save changes nothing for a save. -/
theorem phaseOk_store (h : PhaseOk db other save phase) (hne : other ≠ id) :
    PhaseOk (db.store id version) other save phase := by
  cases phase with
  | reading attempt => exact (rowsOf_store_ne hne).trans h
  | adding attempt v =>
    refine ⟨(rowsOf_store_ne hne).trans h.1, h.2.1, ?_⟩
    rw [rows_store]
    exact atMostNext_append h.2.2
  | returned v => exact ⟨(rowsOf_store_ne hne).trans h.1, h.2⟩
  | raised => trivial

theorem inv_enter (h : Inv db) (hphase : PhaseOk db id save phase) :
    Inv (db.enter id save phase) where
  numbered := h.numbered
  unused other hnone := by
    by_cases hsame : other = id
    · rw [hsame, saves_enter_self] at hnone
      cases hnone
    · rw [saves_enter_ne hsame] at hnone
      exact h.unused other hnone
  phases other save' hsave' := by
    by_cases hsame : other = id
    · subst hsame
      rw [saves_enter_self] at hsave'
      cases hsave'
      exact hphase
    · rw [saves_enter_ne hsame] at hsave'
      exact h.phases other save' hsave'

omit [DecidableEq Id] in
/-- A version with a free number is stored under the number past the highest. -/
theorem numbered_store (h : Numbered db.rows) (hnext : AtMostNext db.rows version)
    (hfree : taken db.rows version = false) : Numbered (db.store id version).rows := by
  intro name
  rw [rows_store]
  by_cases hname : version.pipelineName = name
  · subst hname
    obtain ⟨n, hn⟩ := h version.pipelineName
    have hle := hnext.2
    rw [hn, List.length_range'] at hle
    exact ⟨n + 1, numbers_concat hn hnext.1 hle hfree⟩
  · rw [numbers_append_singleton, if_neg hname]
    exact h name

theorem inv_store (h : Inv db) (hsave : db.saves id = some save) {attempt : Nat}
    (hadding : save.phase = .adding attempt version) (hfree : taken db.rows version = false)
    (hphase : phase = .returned version ∨ phase = .raised) :
    Inv ((db.store id version).enter id save phase) := by
  obtain ⟨hrows, hof, hnext⟩ : PhaseOk db id save (.adding attempt version) :=
    hadding ▸ h.phases id save hsave
  constructor
  · exact numbered_store h.numbered hnext hfree
  · intro other hnone
    by_cases hsame : other = id
    · rw [hsame, saves_enter_self] at hnone
      cases hnone
    · rw [saves_enter_ne hsame] at hnone
      exact (rowsOf_store_ne hsame).trans (h.unused other hnone)
  · intro other save' hsave'
    by_cases hsame : other = id
    · subst hsame
      rw [saves_enter_self] at hsave'
      cases hsave'
      rcases hphase with rfl | rfl
      · refine ⟨?_, hof⟩
        exact rowsOf_store_self.trans (congrArg (· ++ [version]) hrows)
      · trivial
    · rw [saves_enter_ne hsame] at hsave'
      exact phaseOk_store (h.phases other save' hsave') hsame

theorem phaseOk_retry {maxRetries attempt : Nat} (h : rowsOf db id = []) :
    PhaseOk db id save (retry maxRetries attempt) := by
  unfold retry
  split
  · trivial
  · exact h

theorem commitOutcome_free {fault : Option Fault}
    (h : commitOutcome rows version fault = .stored ∨
      commitOutcome rows version fault = .unacknowledged) : taken rows version = false := by
  unfold commitOutcome at h
  split at h
  · split at h
    next htaken => simp at h
    next hfree => simpa using hfree
  · simp at h
  · simp at h
  · split at h
    next htaken => simp at h
    next hfree => simpa using hfree

theorem inv_commit {attempt : Nat} {fault : Option Fault} (h : Inv db)
    (hsave : db.saves id = some save) (hadding : save.phase = .adding attempt version) :
    Inv (commit db id save attempt version fault) := by
  have hok : PhaseOk db id save (.adding attempt version) := hadding ▸ h.phases id save hsave
  unfold commit
  split
  next hstored => exact inv_store h hsave hadding (commitOutcome_free (.inl hstored)) (.inl rfl)
  next => exact inv_enter h (phaseOk_retry hok.1)
  next => exact inv_enter h trivial
  next hlost => exact inv_store h hsave hadding (commitOutcome_free (.inr hlost)) (.inr rfl)

theorem atMostNext_versionOf (h : Numbered rows) (seen : Nat) (save : Save Yaml) :
    AtMostNext rows (versionOf (rows.take seen) save) := by
  obtain ⟨n, hn⟩ := h save.pipelineName
  obtain ⟨k, hk, hnext⟩ := nextVersion_take hn seen
  have hlength : (numbers rows save.pipelineName).length = n := by rw [hn, List.length_range']
  simp only [AtMostNext, versionOf, hnext, hlength]
  omega

theorem inv_step {e : Id × Act Yaml} {t : Database Id Yaml} (h : Inv db)
    (hstep : step db e = some t) : Inv t := by
  obtain ⟨id, act⟩ := e
  cases act with
  | call pipelineName yamlConfig runId maxRetries =>
    rw [step] at hstep
    split at hstep
    · cases hstep
    next hnone =>
      cases hstep
      refine inv_enter h ?_
      split
      · trivial
      · exact h.unused id hnone
  | query seen =>
    obtain ⟨save, hsave, hphase⟩ := Option.bind_eq_some_iff.mp hstep
    split at hphase
    next attempt hreading =>
      cases hphase
      have hok : PhaseOk db id save (.reading attempt) := hreading ▸ h.phases id save hsave
      exact inv_enter h ⟨hok, ⟨rfl, rfl, rfl⟩, atMostNext_versionOf h.numbered seen save⟩
    · cases hphase
  | raise =>
    obtain ⟨save, -, hphase⟩ := Option.bind_eq_some_iff.mp hstep
    split at hphase
    · cases hphase
      exact inv_enter h trivial
    · cases hphase
  | commit fault =>
    obtain ⟨save, hsave, hphase⟩ := Option.bind_eq_some_iff.mp hstep
    split at hphase
    next attempt version hadding =>
      cases hphase
      exact inv_commit h hsave hadding
    · cases hphase

theorem inv_nil : Inv ({} : Database Id Yaml) where
  numbered _ := ⟨0, rfl⟩
  unused _ _ := rfl
  phases _ _ h := nomatch h

theorem Inv.contiguous (h : Inv db) : Contiguous db where
  numbered := h.numbered
  single id save version hsave hreturned := by
    have hok : PhaseOk db id save (.returned version) := hreturned ▸ h.phases id save hsave
    exact hok

theorem step_call (hnone : db.saves id = none) (yaml : Yaml) (runId : Option Nat) :
    step db (id, .call name yaml runId 5) =
      some (db.enter id ⟨name, yaml, runId, 5, .reading 0⟩ (.reading 0)) := by
  simp [step, hnone]

theorem step_query {attempt : Nat} (hsave : db.saves id = some save)
    (hreading : save.phase = .reading attempt) (seen : Nat) :
    step db (id, .query seen) =
      some (db.enter id save (.adding attempt (versionOf (db.rows.take seen) save))) := by
  simp only [step, hsave, Option.bind_some, hreading]

theorem step_commit {attempt : Nat} (hsave : db.saves id = some save)
    (hadding : save.phase = .adding attempt version) (hfree : taken db.rows version = false) :
    step db (id, .commit none) = some ((db.store id version).enter id save (.returned version)) := by
  simp [step, hsave, hadding, commit, commitOutcome, hfree]

theorem taken_next (h : Numbered rows) (save : Save Yaml) : taken rows (versionOf rows save) = false := by
  obtain ⟨n, hn⟩ := h save.pipelineName
  rw [taken, List.any_eq_false]
  intro v hv htaken
  rw [Bool.and_eq_true, decide_eq_true_eq, decide_eq_true_eq] at htaken
  have hmem : v.versionNumber ∈ numbers rows save.pipelineName :=
    List.mem_map_of_mem (List.mem_filter.mpr ⟨hv, decide_eq_true htaken.1⟩)
  have hnumber : v.versionNumber = n + 1 := htaken.2.trans (nextVersion_eq hn)
  rw [hn, List.mem_range'_1, hnumber] at hmem
  omega

/-- A save that meets no other one is the save of the sequential model. -/
theorem save_alone (h : Numbered db.rows) (hnone : db.saves id = none) (yaml : Yaml)
    (runId : Option Nat) :
    ∃ t, run step db [(id, .call name yaml runId 5), (id, .query db.rows.length),
      (id, .commit none)] = some t ∧ t.rows = saveVersion db.rows name yaml runId := by
  let save : Save Yaml := ⟨name, yaml, runId, 5, .reading 0⟩
  let called := db.enter id save (.reading 0)
  have hversion : versionOf (called.rows.take db.rows.length) save = versionOf db.rows save :=
    congrArg (versionOf · save) List.take_length
  let queried := called.enter id save (.adding 0 (versionOf db.rows save))
  have hquery : step called (id, .query db.rows.length) = some queried :=
    (step_query saves_enter_self rfl _).trans (hversion ▸ rfl)
  obtain ⟨t, hcommit, hrows⟩ : ∃ t, step queried (id, .commit none) = some t ∧
      t.rows = queried.rows ++ [versionOf db.rows save] :=
    ⟨_, step_commit saves_enter_self rfl (taken_next h save), rows_store⟩
  refine ⟨t, ?_, hrows⟩
  refine run_cons_iff.mpr ⟨called, step_call hnone yaml runId, ?_⟩
  refine run_cons_iff.mpr ⟨queried, hquery, ?_⟩
  exact run_cons_iff.mpr ⟨t, hcommit, rfl⟩

/-- However concurrent saves interleave, the committed numbers of every name are `1` to `n` in the
order of their commits, and each save that returns has written one row. -/
theorem versions_contiguous (events : List (Id × Act Yaml)) :
    Always step Contiguous ({} : Database Id Yaml) events := by
  intro earlier later _ db h
  exact (invariant_reachable (fun _ _ _ => inv_step) inv_nil h).contiguous

end PipelineIQ.Pipeline.SaveVersion
