import PipelineIQ.Lib.Session
import PipelineIQ.Lifecycle.Absorbing
import PipelineIQ.Sse.Publishers

namespace PipelineIQ.Tasks.CatalogRegistration

open PipelineIQ.Models PipelineIQ.Lib.Session
open PipelineIQ.Lifecycle.Actors (Summary ContractVerdict persistResults)
open PipelineIQ.Lifecycle.Absorbing (Deserves persistResults_eq_some_iff exists_persistResults)
open PipelineIQ.Sse.Publishers (TerminalType Event)

/-- What becomes of a registration in the course of a run. Once a step is completed the graph has
nodes, so there is at least the statement for the pipeline. -/
structure Registration where
  pipeline : Option Fault
  assets : List (Option Fault)
  commit : Option Fault

/-- One execution of the pipeline and what follows it: a healing, where there is one. The events are
in order: those of the steps, those that follow before the session is used again, and those after it.
The statements that follow leave a status. -/
structure Phase where
  steps : List Event
  registrations : List Registration
  next : List Event
  healing : List Event
  status : PipelineStatus
  unfailed : status ≠ .FAILED

/-- A run of the task. A `cancelled` run is cancelled before its end; `downstream` is the number of
schedules that a block of the contract moves. -/
structure Run (Step Error Violation : Type) where
  phases : List Phase
  cancelled : Bool
  summary : Summary Error Violation
  appliedAttempts : Nat
  verdict : Option ContractVerdict
  downstream : Nat
  results : List Step
  final : List (Option Fault)
  errorMessage : String
  exceptionMessage : String

/-- What the database holds of a run. -/
structure Rows (Step : Type) where
  status : PipelineStatus
  results : List Step

structure Outcome (Step : Type) where
  rows : Rows Step
  events : List Event

variable {Step Error Violation : Type}

/-- `_register_graph_assets` in the callback of the lineage, and the commit after it. Whatever is
raised is logged. -/
def lineageCallback (health : Health) (r : Registration) : Health :=
  match sendAll health (r.pipeline :: r.assets) with
  | (health, true) => (commit false health r.commit).1
  | (health, false) => health

/-- The handler of the task marks the run as failed, where the session still can. -/
def failTask (run : Run Step Error Violation) (health : Health) (rows : Rows Step)
    (events : List Event) : Outcome Step where
  rows := if health = .good then { rows with status := .FAILED } else rows
  events := events ++ [.terminal .pipelineFailed .FAILED run.exceptionMessage]

def loaded (run : Run Step Error Violation) (status : PipelineStatus) : PipelineStatus :=
  if run.cancelled then .CANCELLED else status

def eventType (run : Run Step Error Violation) (status : PipelineStatus) : TerminalType :=
  if loaded run status = .CANCELLED then .pipelineCancelled
  else if run.summary.status = .COMPLETED then .pipelineCompleted
  else .pipelineFailed

/-- The rows that `_persist_results` writes. -/
def written (run : Run Step Error Violation) (status : PipelineStatus) : Rows Step where
  status := (persistResults (loaded run status) run.summary run.appliedAttempts run.verdict).getD
    (loaded run status)
  results := run.results

/-- The contract blocks the run and moves schedules, which commits everything so far. -/
def CommitsEarly (run : Run Step Error Violation) (status : PipelineStatus) : Prop :=
  0 < run.downstream ∧
    persistResults (loaded run status) run.summary run.appliedAttempts none ≠
      some .CONTRACT_VIOLATION ∧
    persistResults (loaded run status) run.summary run.appliedAttempts run.verdict =
      some .CONTRACT_VIOLATION

instance (run : Run Step Error Violation) (status : PipelineStatus) :
    Decidable (CommitsEarly run status) :=
  inferInstanceAs (Decidable (_ ∧ _ ∧ _))

/-- `_persist_results`, from the row as the executions have left it. -/
def persist (run : Run Step Error Violation) (status : PipelineStatus) (events : List Event) :
    Outcome Step :=
  let early := decide (CommitsEarly run status)
  match commit (!early) (sendAll .good run.final).1 none with
  | (_, true) =>
    { rows := written run status
      events := events ++
        [.terminal (eventType run status) (written run status).status run.errorMessage] }
  | (health, false) =>
    failTask run health (if early then written run status else ⟨loaded run status, []⟩) events

/-- The executions one after the other. What follows an execution begins with a statement. -/
def execute (run : Run Step Error Violation) :
    List Phase → PipelineStatus → List Event → Outcome Step
  | [], status, events => persist run status events
  | phase :: phases, status, events =>
    let health := phase.registrations.foldl lineageCallback .good
    if health = .good then
      execute run phases phase.status
        (events ++ phase.steps ++ phase.next ++ phase.healing)
    else failTask run health ⟨loaded run status, []⟩ (events ++ phase.steps ++ phase.next)

/-- The task, from the mark that it is running. -/
def executePipelineTask (run : Run Step Error Violation) : Outcome Step :=
  execute run run.phases .RUNNING []

/-! ### As if every registration had succeeded -/

def succeed (statements : List (Option Fault)) : List (Option Fault) := statements.map fun _ => none

def Registration.succeeding (r : Registration) : Registration where
  pipeline := none
  assets := succeed r.assets
  commit := none

def Phase.succeeding (phase : Phase) : Phase :=
  { phase with registrations := phase.registrations.map Registration.succeeding }

def Run.succeeding (run : Run Step Error Violation) : Run Step Error Violation :=
  { run with
    phases := run.phases.map Phase.succeeding
    final := succeed run.final }

def NonFatal (run : Run Step Error Violation) : Prop :=
  executePipelineTask run = executePipelineTask run.succeeding

/-- Neither a statement of the registration nor its commit is refused or loses the connection. -/
structure Registration.Spared (r : Registration) : Prop where
  statements : Harmless (r.pipeline :: r.assets)
  commit : firstFault (r.pipeline :: r.assets) = none → r.commit = none ∨ r.commit = some .raised

/-- The status that the executions leave. -/
def lastStatus (phases : List Phase) (status : PipelineStatus) : PipelineStatus :=
  phases.foldl (fun _ phase => phase.status) status

/-- No registration in the course of the run does harm to the session; and the last one neither,
unless it is refused after everything was committed. -/
structure Spared (run : Run Step Error Violation) : Prop where
  callbacks : ∀ phase ∈ run.phases, ∀ r ∈ phase.registrations, r.Spared
  final : Harmless run.final ∨
    CommitsEarly run (lastStatus run.phases .RUNNING) ∧ firstFault run.final = some .refused

/-! ### Sessions -/

section Sessions

variable {r : Registration} {registrations : List Registration}

theorem lineageCallback_good_iff : lineageCallback .good r = .good ↔ r.Spared := by
  unfold lineageCallback
  cases hfault : firstFault (r.pipeline :: r.assets) with
  | none =>
    rw [sendAll_good, hfault]
    dsimp only
    rw [commit_health_iff]
    constructor
    · intro hcommit
      exact ⟨.inl hfault, fun _ => hcommit⟩
    · intro hspared
      exact hspared.commit hfault
  | some fault =>
    have hhealth := @sendAll_health_iff (r.pipeline :: r.assets)
    rw [sendAll_good, hfault] at hhealth ⊢
    dsimp only at hhealth ⊢
    rw [hhealth]
    constructor
    · intro hharmless
      exact ⟨hharmless, fun hnone => by rw [hfault] at hnone; cases hnone⟩
    · exact Registration.Spared.statements

theorem lineageCallback_of_ne_good {health : Health} (h : health ≠ .good) :
    lineageCallback health r = health := by
  unfold lineageCallback
  rw [sendAll_cons_of_ne_good h]

/-- A session that a callback has spoilt stays so. -/
theorem callbacks_of_ne_good {health : Health} (h : health ≠ .good) :
    registrations.foldl lineageCallback health = health := by
  induction registrations with
  | nil => rfl
  | cons r registrations ih =>
    rw [List.foldl_cons, lineageCallback_of_ne_good h]
    exact ih

theorem callbacks_good_iff :
    registrations.foldl lineageCallback .good = .good ↔ ∀ r ∈ registrations, r.Spared := by
  induction registrations with
  | nil => simp
  | cons r registrations ih =>
    rw [List.foldl_cons, List.forall_mem_cons, ← lineageCallback_good_iff]
    by_cases hr : lineageCallback .good r = .good
    · rw [hr, ih]
      exact (and_iff_right rfl).symm
    · rw [callbacks_of_ne_good hr]
      exact iff_of_false hr fun h => hr h.1

theorem firstFault_succeed (statements : List (Option Fault)) :
    firstFault (succeed statements) = none := by
  induction statements with
  | nil => rfl
  | cons statement statements ih => exact ih

theorem spared_succeeding (r : Registration) : r.succeeding.Spared where
  statements := .inl (firstFault_succeed (r.pipeline :: r.assets))
  commit _ := .inl rfl

theorem callbacks_succeeding (phase : Phase) :
    phase.succeeding.registrations.foldl lineageCallback .good = .good := by
  rw [callbacks_good_iff]
  intro r hr
  obtain ⟨r, -, rfl⟩ := List.mem_map.mp hr
  exact spared_succeeding r

end Sessions

/-! ### Runs -/

section Runs

variable {run : Run Step Error Violation} {status : PipelineStatus} {events : List Event}

/-- The outcome of a run that `_persist_results` gets to the end of. -/
def persisted (run : Run Step Error Violation) (status : PipelineStatus) (events : List Event) :
    Outcome Step where
  rows := written run status
  events := events ++
    [.terminal (eventType run status) (written run status).status run.errorMessage]

theorem loaded_ne_failed (h : status ≠ .FAILED) : loaded run status ≠ .FAILED := by
  unfold loaded
  split
  · decide
  · exact h

theorem failTask_ne_persisted {health : Health} {rows : Rows Step} {events' : List Event}
    (hhealth : health ≠ .good) (hrows : rows.status ≠ .FAILED) :
    failTask run health rows events' ≠ persisted run status events := by
  intro h
  have hevents := congrArg Outcome.events h
  have hstatus := congrArg (fun o => o.rows.status) h
  unfold failTask persisted at hevents hstatus
  dsimp only at hevents hstatus
  rw [if_neg hhealth] at hstatus
  obtain ⟨-, hlast⟩ := List.append_inj' hevents rfl
  rw [List.singleton_inj] at hlast
  obtain ⟨-, hwritten, -⟩ := Event.terminal.inj hlast
  exact hrows (hstatus.trans hwritten.symm)

theorem written_of_commitsEarly (h : CommitsEarly run status) :
    (written run status).status = .CONTRACT_VIOLATION := by
  unfold written
  rw [h.2.2]
  rfl

theorem persist_of_harmless (h : Harmless run.final) :
    persist run status events = persisted run status events := by
  unfold persist
  rw [sendAll_good]
  rcases h with h | h
  · rw [h]
    rfl
  · rw [h]
    rfl

theorem persist_eq_iff (hstatus : status ≠ .FAILED) :
    persist run status events = persisted run status events ↔
      Harmless run.final ∨ CommitsEarly run status ∧ firstFault run.final = some .refused := by
  have hfail : ∀ early, early = decide (CommitsEarly run status) → ∀ health, health ≠ .good →
      failTask run health (if early = true then written run status else ⟨loaded run status, []⟩)
        events ≠ persisted run status events := by
    intro early hearly health hhealth
    refine failTask_ne_persisted hhealth ?_
    split
    next h =>
      rw [written_of_commitsEarly (of_decide_eq_true (hearly.symm.trans h))]
      decide
    next => exact loaded_ne_failed hstatus
  unfold Harmless persist
  rw [sendAll_good]
  cases hfault : firstFault run.final with
  | none => exact iff_of_true rfl (.inl (.inl rfl))
  | some fault =>
    cases fault with
    | raised => exact iff_of_true rfl (.inl (.inr rfl))
    | refused =>
      by_cases hearly : CommitsEarly run status
      · rw [decide_eq_true hearly]
        exact iff_of_true rfl (.inr ⟨hearly, rfl⟩)
      · refine iff_of_false ?_ (by simp [hearly])
        have hne := hfail _ rfl .invalid nofun
        rw [decide_eq_false hearly] at hne ⊢
        exact hne
    | disconnected =>
      refine iff_of_false ?_ (by simp)
      exact hfail _ rfl .invalid nofun

theorem execute_succeeding (run : Run Step Error Violation) (phases : List Phase) (status : PipelineStatus) (events : List Event) :
    ∃ events', execute run.succeeding (phases.map Phase.succeeding) status events =
      persisted run (lastStatus phases status) events' := by
  induction phases generalizing status events with
  | nil =>
    refine ⟨events, ?_⟩
    have hharmless : Harmless run.succeeding.final := .inl (firstFault_succeed run.final)
    exact persist_of_harmless hharmless
  | cons phase phases ih =>
    rw [List.map_cons, execute, if_pos (callbacks_succeeding phase)]
    exact ih phase.status (events ++ phase.steps ++ phase.next ++ phase.healing)

/-- Through the phases, a registration is either spared or ends the task. -/
theorem execute_eq_iff (run : Run Step Error Violation) (phases : List Phase) (hstatus : status ≠ .FAILED) (events : List Event) :
    execute run phases status events =
        execute run.succeeding (phases.map Phase.succeeding) status events ↔
      (∀ phase ∈ phases, ∀ r ∈ phase.registrations, r.Spared) ∧ (Harmless run.final ∨
        CommitsEarly run (lastStatus phases status) ∧ firstFault run.final = some .refused) := by
  induction phases generalizing status events with
  | nil =>
    have hsucceed : execute run.succeeding [] status events = persisted run status events := by
      have hharmless : Harmless run.succeeding.final := .inl (firstFault_succeed run.final)
      exact persist_of_harmless hharmless
    rw [List.map_nil, hsucceed, execute, persist_eq_iff hstatus]
    exact (and_iff_right fun _ h => nomatch h).symm
  | cons phase phases ih =>
    have hsucceed : execute run.succeeding ((phase :: phases).map Phase.succeeding) status events =
        execute run.succeeding (phases.map Phase.succeeding) phase.status
          (events ++ phase.steps ++ phase.next ++ phase.healing) := by
      rw [List.map_cons, execute]
      exact if_pos (callbacks_succeeding phase)
    rw [hsucceed, List.forall_mem_cons, ← callbacks_good_iff, and_assoc]
    by_cases hcallbacks : phase.registrations.foldl lineageCallback .good = .good
    · rw [execute, if_pos hcallbacks, ih phase.unfailed]
      exact (and_iff_right hcallbacks).symm
    · obtain ⟨events', hpersisted⟩ := execute_succeeding run phases phase.status
        (events ++ phase.steps ++ phase.next ++ phase.healing)
      rw [execute, if_neg hcallbacks, hpersisted]
      refine iff_of_false ?_ fun h => hcallbacks h.1
      exact failTask_ne_persisted hcallbacks (loaded_ne_failed hstatus)

/-- What a run leaves behind is what it would have left behind had every registration succeeded,
exactly when its registrations are spared. -/
theorem nonFatal_iff (run : Run Step Error Violation) : NonFatal run ↔ Spared run := by
  have hrunning : PipelineStatus.RUNNING ≠ .FAILED := by decide
  have hiff := execute_eq_iff run run.phases hrunning []
  constructor
  · intro h
    obtain ⟨hcallbacks, hfinal⟩ := hiff.mp h
    exact ⟨hcallbacks, hfinal⟩
  · intro h
    exact hiff.mpr ⟨h.callbacks, h.final⟩

end Runs

section Examples

/-- A run of one load step; the name of a column is too long for the catalog. -/
def longName : Run String Unit Unit where
  phases := [
    { steps := []
      registrations := [{ pipeline := none, assets := [none, some .refused], commit := none }]
      next := []
      healing := []
      status := .RUNNING
      unfailed := by decide }]
  cancelled := false
  summary := { status := .COMPLETED }
  appliedAttempts := 0
  verdict := none
  downstream := 0
  results := ["load"]
  final := [none, none, some .refused]
  errorMessage := ""
  exceptionMessage := "current transaction is aborted"

/-- The run stays running for ever, without a result, and is announced as failed. -/
theorem long_name_fatal :
    executePipelineTask longName = {
      rows := { status := .RUNNING, results := [] }
      events := [.terminal .pipelineFailed .FAILED "current transaction is aborted"] } ∧
    executePipelineTask longName.succeeding = {
      rows := { status := .COMPLETED, results := ["load"] }
      events := [.terminal .pipelineCompleted .COMPLETED ""] } ∧
    ¬ NonFatal longName := by
  refine ⟨rfl, rfl, ?_⟩
  intro h
  exact absurd (congrArg (fun o => o.rows.results) h) (by decide)

end Examples

end PipelineIQ.Tasks.CatalogRegistration
