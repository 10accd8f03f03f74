import PipelineIQ.Pipeline.Failures

namespace PipelineIQ.Pipeline.Progress

open PipelineIQ.Lib PipelineIQ.Lib.Strings PipelineIQ.Pipeline.Failures
open PipelineIQ.Pipeline.Runner hiding executeSingleStep loopBody loop execute stateBefore

variable {K Table Violation : Type}

/-! ### The protocol -/

/-- What an event says: which step, and what becomes of it. -/
abbrev Mark (K : Type) := Nat × K × StepStatus

def marks (events : List (StepProgressEvent K Violation)) : List (Mark K) :=
  events.map fun e => (e.stepIndex, e.stepName, e.status)

/-- A step that runs and ends. -/
def stepMarks (index : Nat) (step : Step K) (ending : StepStatus) : List (Mark K) :=
  [(index, step.name, .RUNNING), (index, step.name, ending)]

/-- Steps that run and complete, one after the other. -/
def completed : Nat → List (Step K) → List (Mark K)
  | _, [] => []
  | index, step :: rest => stepMarks index step .COMPLETED ++ completed (index + 1) rest

/-- Some first steps complete, in order; after them nothing happens, or the next step fails. -/
def Protocol (steps : List (Step K)) (events : List (StepProgressEvent K Violation)) : Prop :=
  ∃ done rest, steps = done ++ rest ∧ (marks events = completed 0 done ∨
    ∃ step later, rest = step :: later ∧
      marks events = completed 0 done ++ stepMarks done.length step .FAILED)

variable [DecidableEq K] [Truthy K] (print : K → Text) (x : Executor K Table Violation)

/-- The events follow the protocol, and a run that a step's exception stops has a failed summary
with that exception and the name of the step. -/
structure Reported (steps : List (Step K)) (run : Execution K Table Violation) : Prop where
  protocol : Protocol steps run.events
  summary : ∀ i failure, StopsAt print x steps i failure →
    ∃ summary, run.outcome = .ok summary ∧ summary.status = .FAILED ∧
      ∃ error, summary.error = some error ∧ error.failure = failure ∧
        (steps[i]?).map Step.name = some error.stepName

/-! ### What a run does -/

variable {print x} {step : Step K} {steps xs ys : List (Step K)} {s t : State K Table Violation}
  {total index : Nat} {e : Raised K} {failure : Failure}

omit [DecidableEq K] [Truthy K] in
theorem completed_append (index : Nat) (xs ys : List (Step K)) :
    completed index (xs ++ ys) = completed index xs ++ completed (index + xs.length) ys := by
  induction xs generalizing index with
  | nil => rfl
  | cons step xs ih =>
    rw [List.cons_append, completed, completed, ih, List.append_assoc, List.length_cons,
      Nat.add_assoc, Nat.add_comm 1]

omit [DecidableEq K] [Truthy K] in
theorem marks_append (xs ys : List (StepProgressEvent K Violation)) :
    marks (xs ++ ys) = marks xs ++ marks ys :=
  List.map_append

/-- How the marks of a step end that lets an exception out. -/
def failedMarks (index : Nat) (step : Step K) (failure : Failure) : List (Mark K) :=
  if failure.isStepError then stepMarks index step .FAILED else [(index, step.name, .RUNNING)]

variable (print x) in
/-- All that one turn of the loop can do. -/
theorem loopBody_cases (total index : Nat) (step : Step K) (s : State K Table Violation) :
    (∃ result t, x.execute s.tableRegistry step = .returned result ∧
      loopBody print x total index step s = .ok t ∧
      marks t.events = marks s.events ++ stepMarks index step .COMPLETED) ∨
    ∃ failure t, x.execute s.tableRegistry step = .raised failure ∧
      loopBody print x total index step s = .error (⟨step.name, failure⟩, t) ∧
      marks t.events = marks s.events ++ failedMarks index step failure := by
  cases hx : x.execute s.tableRegistry step with
  | returned result =>
    refine .inl ⟨result, ?_⟩
    unfold loopBody executeSingleStep
    simp only [emit, hx]
    refine ⟨_, trivial, rfl, ?_⟩
    rw [List.append_assoc, marks_append]
    rfl
  | raised failure =>
    refine .inr ⟨failure, ?_⟩
    unfold loopBody executeSingleStep
    cases failure with
    | step errorClass detail =>
      simp only [emit, hx]
      refine ⟨_, trivial, rfl, ?_⟩
      rw [List.append_assoc, marks_append]
      rfl
    | other className message =>
      simp only [emit, hx]
      refine ⟨_, trivial, rfl, ?_⟩
      rw [marks_append]
      rfl

variable (print x) in
theorem loop_append (total index : Nat) (xs ys : List (Step K)) (s : State K Table Violation) :
    loop print x total index (xs ++ ys) s =
      (loop print x total index xs s).bind (loop print x total (index + xs.length) ys) := by
  induction xs generalizing index s with
  | nil => rfl
  | cons step xs ih =>
    rw [List.cons_append, loop, loop]
    cases loopBody print x total index step s with
    | error e => rfl
    | ok t =>
      change loop print x total (index + 1) (xs ++ ys) t =
        (loop print x total (index + 1) xs t).bind _
      rw [ih, List.length_cons, Nat.add_assoc, Nat.add_comm 1]

/-- Steps that all return are reported as completed. -/
theorem loop_ok (h : loop print x total index steps s = .ok t) :
    marks t.events = marks s.events ++ completed index steps := by
  induction steps generalizing index s with
  | nil =>
    cases h
    exact (List.append_nil _).symm
  | cons step steps ih =>
    rw [loop] at h
    rcases loopBody_cases print x total index step s with
      ⟨result, u, -, hu, hmarks⟩ | ⟨failure, u, -, hu, -⟩
    · rw [hu] at h
      rw [ih h, hmarks, completed, List.append_assoc]
    · rw [hu] at h
      cases h

/-- A run stops at the first step that lets an exception out. -/
theorem loop_error (h : loop print x total index steps s = .error (e, t)) :
    ∃ done step later u, steps = done ++ step :: later ∧
      loop print x total index done s = .ok u ∧
      x.execute u.tableRegistry step = .raised e.failure ∧ e.stepName = step.name ∧
      marks t.events =
        marks s.events ++ completed index done ++ failedMarks (index + done.length) step e.failure := by
  induction steps generalizing index s with
  | nil => cases h
  | cons step steps ih =>
    rw [loop] at h
    rcases loopBody_cases print x total index step s with
      ⟨result, u, -, hu, hmarks⟩ | ⟨failure, u, hx, hu, hmarks⟩
    · rw [hu] at h
      obtain ⟨done, step', later, v, rfl, hdone, hx, hname, hrest⟩ := ih h
      refine ⟨step :: done, step', later, v, rfl, ?_, hx, hname, ?_⟩
      · rw [loop, hu]
        exact hdone
      · rw [hrest, hmarks, completed, List.length_cons, List.append_assoc (marks s.events),
          Nat.add_assoc, Nat.add_comm 1]
    · rw [hu] at h
      cases h
      exact ⟨[], step, steps, s, rfl, rfl, hx, rfl, by rw [hmarks, completed, List.append_nil]; rfl⟩

/-- Where a run stops, the whole loop ends in the exception. -/
theorem loop_of_stopsAt {i : Nat} (h : StopsAt print x steps i failure) :
    ∃ (hi : i < steps.length) (t : State K Table Violation),
      loop print x steps.length 0 steps (initial steps) = .error (⟨steps[i].name, failure⟩, t) := by
  obtain ⟨hi, s, hs, hx⟩ := h
  refine ⟨hi, ?_⟩
  have hsplit : steps = steps.take i ++ steps[i] :: steps.drop (i + 1) := by
    rw [← List.drop_eq_getElem_cons hi, List.take_append_drop]
  have hloop : loop print x steps.length 0 steps (initial steps) =
      loop print x steps.length (0 + (steps.take i).length) (steps[i] :: steps.drop (i + 1)) s := by
    have happend := loop_append print x steps.length 0 (steps.take i)
      (steps[i] :: steps.drop (i + 1)) (initial steps)
    rw [← hsplit] at happend
    rw [happend]
    change (stateBefore print x steps i).bind _ = _
    rw [hs]
    rfl
  rw [hloop, loop]
  rcases loopBody_cases print x steps.length (0 + (steps.take i).length) steps[i] s
    with ⟨result, t, hreturned, -, -⟩ | ⟨failure', t, hraised, hbody, -⟩
  · rw [hx] at hreturned
    cases hreturned
  · rw [hx] at hraised
    cases hraised
    rw [hbody]
    exact ⟨t, rfl⟩

theorem protocol_of_step_errors
    (h : ∀ i failure, StopsAt print x steps i failure → failure.isStepError = true) :
    Protocol steps (execute print x steps).events := by
  unfold execute
  cases hloop : loop print x steps.length 0 steps (initial steps) with
  | ok t => exact ⟨steps, [], (List.append_nil steps).symm, .inl (loop_ok hloop)⟩
  | error v =>
    obtain ⟨e, t⟩ := v
    obtain ⟨done, step, later, u, hsplit, hdone, hx, -, hmarks⟩ := loop_error hloop
    have hlt : done.length < steps.length := by
      rw [hsplit, List.length_append, List.length_cons]
      omega
    have hstep : steps[done.length] = step := by
      simp only [hsplit, List.getElem_append_right (Nat.le_refl _), Nat.sub_self, List.getElem_cons_zero]
    have htake : steps.take done.length = done := by
      rw [hsplit, List.take_left]
    have hstops : StopsAt print x steps done.length e.failure := by
      refine ⟨hlt, u, ?_, ?_⟩
      · rw [stateBefore, htake]
        exact hdone
      · rw [hstep]
        exact hx
    refine ⟨done, step :: later, hsplit, .inr ⟨step, later, rfl, ?_⟩⟩
    rw [hmarks, failedMarks, if_pos (h _ _ hstops), Nat.zero_add]
    rfl

/-- Where a run stops on an exception of the step family, its summary has it. -/
theorem outcome_of_stopsAt {i : Nat} (h : StopsAt print x steps i failure)
    (hstep : failure.isStepError = true) :
    ∃ (hi : i < steps.length) (summary : Summary K Table Violation),
      (execute print x steps).outcome = .ok summary ∧ summary.status = .FAILED ∧
        summary.error = some ⟨steps[i].name, failure⟩ := by
  obtain ⟨hi, t, hloop⟩ := loop_of_stopsAt h
  unfold execute
  rw [hloop]
  dsimp only
  rw [if_pos hstep]
  exact ⟨hi, _, rfl, rfl, rfl⟩

/-- Where a run stops on any other exception, the exception leaves the runner. -/
theorem escapes_of_stopsAt {i : Nat} (h : StopsAt print x steps i failure)
    (hother : failure.isStepError = false) :
    ∃ error, (execute print x steps).outcome = .error error := by
  obtain ⟨hi, t, hloop⟩ := loop_of_stopsAt h
  unfold execute
  rw [hloop]
  dsimp only
  rw [if_neg (by rw [hother]; exact Bool.false_ne_true)]
  exact ⟨_, rfl⟩

theorem not_reported_of_stopsAt {i : Nat} (h : StopsAt print x steps i failure)
    (hother : failure.isStepError = false) :
    ¬ Reported print x steps (execute print x steps) := by
  intro hreported
  obtain ⟨summary, hsummary, -⟩ := hreported.summary i failure h
  obtain ⟨error, herror⟩ := escapes_of_stopsAt h hother
  rw [herror] at hsummary
  cases hsummary

/-- For every list of steps and every behaviour of them: the progress events follow the protocol
and every exception of a step ends in a failed summary that names it, exactly when no step that
the run starts lets out an exception other than a `StepExecutionError`. -/
theorem progress_reported_iff (print : K → Text) (x : Executor K Table Violation)
    (steps : List (Step K)) :
    Reported print x steps (execute print x steps) ↔
      ∀ i failure, StopsAt print x steps i failure → failure.isStepError = true := by
  constructor
  · intro h i failure hstops
    by_contra hother
    exact not_reported_of_stopsAt hstops (Bool.not_eq_true _ |>.mp hother) h
  · intro h
    refine ⟨protocol_of_step_errors h, ?_⟩
    intro i failure hstops
    obtain ⟨hi, summary, hsummary, hstatus, herror⟩ := outcome_of_stopsAt hstops (h i failure hstops)
    refine ⟨summary, hsummary, hstatus, _, herror, rfl, ?_⟩
    rw [List.getElem?_eq_getElem hi]
    rfl

section Examples

/-- A step that fills nulls with the mean of a column of texts. -/
def meanOfTexts : Executor String Unit Unit where
  execute _ step :=
    if step.name = "filled" then
      .raised (.other "ValueError".toList "Strategy 'mean' requires numeric column".toList)
    else .returned
      { stepName := step.name, outputTable := (), rowsIn := 2, rowsOut := 2, durationMs := 1 }
  validateStepContract _ _ := some []

def meanSteps : List (Step String) := [{ name := "raw" }, { name := "filled", input := some "raw" }]

/-- The step's events end while it runs, and no summary is made. -/
theorem value_error_unreported :
    marks (execute String.toList meanOfTexts meanSteps).events =
        [(0, "raw", .RUNNING), (0, "raw", .COMPLETED), (1, "filled", .RUNNING)] ∧
      ¬ Reported String.toList meanOfTexts meanSteps
        (execute String.toList meanOfTexts meanSteps) := by
  refine ⟨rfl, not_reported_of_stopsAt (i := 1) ⟨by decide, _, rfl, rfl⟩ rfl⟩

end Examples

end PipelineIQ.Pipeline.Progress
