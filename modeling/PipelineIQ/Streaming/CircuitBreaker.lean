import PipelineIQ.Lib.Machine

namespace PipelineIQ.Streaming.CircuitBreaker

open PipelineIQ.Lib

inductive CircuitState where
  | CLOSED | OPEN | HALF_OPEN
  deriving DecidableEq, Repr

/-- Clock values are whole numbers of one unit of time. -/
structure Breaker where
  failureThreshold : Nat
  recoveryTimeout : Int
  state : CircuitState := .CLOSED
  failureCount : Nat := 0
  lastFailureTime : Int := 0
  totalFailures : Nat := 0

namespace Breaker

/-- Reading the state may change it. -/
def readState (now : Int) (cb : Breaker) : Breaker :=
  if cb.state = .OPEN ∧ cb.recoveryTimeout ≤ now - cb.lastFailureTime then
    { cb with state := .HALF_OPEN }
  else cb

def isOpen (now : Int) (cb : Breaker) : Bool × Breaker :=
  ((cb.readState now).state = .OPEN, cb.readState now)

def recordSuccess (cb : Breaker) : Breaker :=
  { cb with
    failureCount := 0
    state := if cb.state = .HALF_OPEN then .CLOSED else cb.state }

def recordFailure (now : Int) (cb : Breaker) : Breaker :=
  { cb with
    failureCount := cb.failureCount + 1
    totalFailures := cb.totalFailures + 1
    lastFailureTime := now
    state := if cb.failureThreshold ≤ cb.failureCount + 1 ∧ cb.state ≠ .OPEN then .OPEN
      else cb.state }

section Fields

variable (now : Int) (cb : Breaker)

@[simp] theorem readState_failureThreshold :
    (cb.readState now).failureThreshold = cb.failureThreshold := by
  unfold readState
  split <;> rfl

@[simp] theorem readState_failureCount : (cb.readState now).failureCount = cb.failureCount := by
  unfold readState
  split <;> rfl

@[simp] theorem recordSuccess_failureThreshold :
    cb.recordSuccess.failureThreshold = cb.failureThreshold := rfl

@[simp] theorem recordSuccess_failureCount : cb.recordSuccess.failureCount = 0 := rfl

@[simp] theorem recordFailure_failureThreshold :
    (cb.recordFailure now).failureThreshold = cb.failureThreshold := rfl

@[simp] theorem recordFailure_failureCount :
    (cb.recordFailure now).failureCount = cb.failureCount + 1 := rfl

theorem readState_of_halfOpen (h : cb.state = .HALF_OPEN) : cb.readState now = cb := by
  unfold readState
  rw [if_neg]
  rw [h]
  exact fun hopen => CircuitState.noConfusion hopen.1

end Fields

/-- A success closes a half-open breaker. -/
theorem recordSuccess_of_halfOpen {cb : Breaker} (h : cb.state = .HALF_OPEN) :
    cb.recordSuccess.state = .CLOSED := if_pos h

/-- A failure opens a half-open breaker again where it completes the count. -/
theorem recordFailure_of_halfOpen {now : Int} {cb : Breaker} (h : cb.state = .HALF_OPEN) :
    (cb.recordFailure now).state = .OPEN ↔ cb.failureThreshold ≤ cb.failureCount + 1 := by
  have hne : cb.state ≠ .OPEN := by
    rw [h]
    decide
  change (if _ then CircuitState.OPEN else cb.state) = .OPEN ↔ _
  constructor
  · intro hstate
    by_contra hcount
    rw [if_neg fun hboth => hcount hboth.1] at hstate
    exact hne hstate
  · intro hcount
    exact if_pos ⟨hcount, hne⟩

end Breaker

/-! ### Callers of one breaker -/

variable {C : Type} [DecidableEq C]

inductive Event (C : Type) where
  | ask (caller : C)
  | succeed (caller : C)
  | fail (caller : C)
  | read
  | advance (seconds : Int)

/-- The breaker with the callers that were admitted and have not reported yet. Of the past it
keeps the outcomes, the last one first, and how many callers were admitted since the breaker
became half-open. -/
structure State (C : Type) where
  breaker : Breaker
  now : Int := 0
  pending : List C := []
  outcomes : List Bool := []
  testCalls : Nat := 0

def initial (failureThreshold : Nat) (recoveryTimeout : Int) : State C :=
  { breaker := { failureThreshold, recoveryTimeout } }

/-- The callers that count as test calls, none where the breaker is not half-open. -/
def whileHalfOpen (cb : Breaker) (calls : Nat) : Nat :=
  if cb.state = .HALF_OPEN then calls else 0

def step (s : State C) : Event C → Option (State C)
  | .ask caller =>
    let (refused, breaker) := s.breaker.isOpen s.now
    if refused then some { s with breaker, testCalls := 0 }
    else some { s with
      breaker
      pending := s.pending ++ [caller]
      testCalls := whileHalfOpen breaker (s.testCalls + 1) }
  | .succeed caller =>
    if caller ∈ s.pending then
      some { s with
        breaker := s.breaker.recordSuccess
        pending := s.pending.erase caller
        outcomes := true :: s.outcomes
        testCalls := whileHalfOpen s.breaker.recordSuccess s.testCalls }
    else none
  | .fail caller =>
    if caller ∈ s.pending then
      some { s with
        breaker := s.breaker.recordFailure s.now
        pending := s.pending.erase caller
        outcomes := false :: s.outcomes
        testCalls := whileHalfOpen (s.breaker.recordFailure s.now) s.testCalls }
    else none
  | .read => some { s with breaker := s.breaker.readState s.now }
  | .advance seconds => if 0 ≤ seconds then some { s with now := s.now + seconds } else none

/-- How many failures were reported in a row up to now. -/
def inARow (s : State C) : Nat := (s.outcomes.takeWhile (· = false)).length

/-! ### The contract -/

/-- At most one test call, and its outcome decides where a half-open breaker goes. -/
def Contract (s : State C) (e : Event C) : Prop :=
  ∀ t, step s e = some t → t.testCalls ≤ 1 ∧
    (s.breaker.state = .HALF_OPEN → match e with
      | .succeed _ => t.breaker.state = .CLOSED
      | .fail _ => t.breaker.state = .OPEN
      | _ => True)

/-- Nobody asks a half-open breaker that has admitted a caller, and a failure that a half-open
breaker hears of is one of as many in a row as its threshold. -/
def Orderly (s : State C) : Event C → Prop
  | .ask _ => (s.breaker.readState s.now).state = .HALF_OPEN → s.testCalls = 0
  | .fail _ => s.breaker.state = .HALF_OPEN → s.breaker.failureThreshold ≤ inARow s + 1
  | _ => True

instance (s : State C) : ∀ e, Decidable (Orderly s e)
  | .ask _ | .fail _ => inferInstanceAs (Decidable (_ → _))
  | .succeed _ | .read | .advance _ => .isTrue trivial

/-- The failure counter is the number of failures in a row, and test calls belong to a half-open
breaker. -/
structure Counted (s : State C) : Prop where
  failures : s.breaker.failureCount = inARow s
  calls : s.breaker.state ≠ .HALF_OPEN → s.testCalls = 0
  atMostOne : s.testCalls ≤ 1

variable {s t : State C} {e : Event C}

omit [DecidableEq C] in
theorem initial_counted (failureThreshold : Nat) (recoveryTimeout : Int) :
    Counted (initial failureThreshold recoveryTimeout : State C) :=
  ⟨rfl, fun _ => rfl, Nat.zero_le 1⟩

theorem whileHalfOpen_le {cb : Breaker} {calls bound : Nat} (h : calls ≤ bound) :
    whileHalfOpen cb calls ≤ bound := by
  unfold whileHalfOpen
  split
  · exact h
  · exact Nat.zero_le bound

theorem whileHalfOpen_of_ne {cb : Breaker} {calls : Nat} (h : cb.state ≠ .HALF_OPEN) :
    whileHalfOpen cb calls = 0 := if_neg h

/-- A caller is admitted as a second test call exactly where there is a first one. -/
theorem contract_ask_iff {caller : C} :
    Contract s (.ask caller) ↔ Orderly s (.ask caller) := by
  unfold Contract Orderly step Breaker.isOpen whileHalfOpen
  cases hstate : (s.breaker.readState s.now).state with
  | CLOSED => simp [hstate]
  | OPEN => simp
  | HALF_OPEN => simp [hstate]

theorem contract_succeed {caller : C} (hs : Counted s) : Contract s (.succeed caller) := by
  intro t h
  rw [step] at h
  split at h
  · cases h
    exact ⟨whileHalfOpen_le hs.atMostOne, fun hhalf => Breaker.recordSuccess_of_halfOpen hhalf⟩
  · cases h

theorem contract_fail_iff {caller : C} (hs : Counted s) (hcaller : caller ∈ s.pending) :
    Contract s (.fail caller) ↔ Orderly s (.fail caller) := by
  have hreopens : s.breaker.state = .HALF_OPEN →
      ((s.breaker.recordFailure s.now).state = .OPEN ↔
        s.breaker.failureThreshold ≤ inARow s + 1) := by
    intro hhalf
    rw [← hs.failures]
    exact Breaker.recordFailure_of_halfOpen hhalf
  unfold Contract Orderly
  rw [step, if_pos hcaller]
  constructor
  · intro h hhalf
    exact (hreopens hhalf).mp ((h _ rfl).2 hhalf)
  · rintro h t ht
    cases ht
    exact ⟨whileHalfOpen_le hs.atMostOne, fun hhalf => (hreopens hhalf).mpr (h hhalf)⟩

theorem contract_of_quiet (hs : Counted s) (hquiet : e = .read ∨ ∃ seconds, e = .advance seconds) :
    Contract s e := by
  intro t h
  rcases hquiet with rfl | ⟨seconds, rfl⟩
  · cases h
    exact ⟨hs.atMostOne, fun _ => trivial⟩
  · rw [step] at h
    split at h
    · cases h
      exact ⟨hs.atMostOne, fun _ => trivial⟩
    · cases h

/-- What one step does where the counters are right. -/
theorem contract_iff (hs : Counted s) (h : step s e = some t) : Contract s e ↔ Orderly s e := by
  cases e with
  | ask caller => exact contract_ask_iff
  | succeed caller => exact iff_of_true (contract_succeed hs) trivial
  | fail caller =>
    refine contract_fail_iff hs ?_
    by_contra hcaller
    rw [step, if_neg hcaller] at h
    cases h
  | read => exact iff_of_true (contract_of_quiet hs (.inl rfl)) trivial
  | advance seconds => exact iff_of_true (contract_of_quiet hs (.inr ⟨seconds, rfl⟩)) trivial

/-- A step that keeps the contract keeps the counters right. -/
theorem step_counted (hs : Counted s) (hc : Contract s e) (h : step s e = some t) :
    Counted t := by
  have hone := (hc t h).1
  cases e with
  | ask caller =>
    rw [step] at h
    unfold Breaker.isOpen at h
    dsimp only at h
    split at h
    · cases h
      exact ⟨(Breaker.readState_failureCount ..).trans hs.failures, fun _ => rfl, hone⟩
    · cases h
      exact ⟨(Breaker.readState_failureCount ..).trans hs.failures, whileHalfOpen_of_ne, hone⟩
  | succeed caller =>
    rw [step] at h
    split at h
    · cases h
      exact ⟨rfl, whileHalfOpen_of_ne, hone⟩
    · cases h
  | fail caller =>
    rw [step] at h
    split at h
    · cases h
      refine ⟨?_, whileHalfOpen_of_ne, hone⟩
      rw [Breaker.recordFailure_failureCount, hs.failures]
      rfl
    · cases h
  | read =>
    cases h
    refine ⟨(Breaker.readState_failureCount ..).trans hs.failures, ?_, hone⟩
    intro hne
    refine hs.calls fun hhalf => hne ?_
    rw [Breaker.readState_of_halfOpen _ _ hhalf, hhalf]
  | advance seconds =>
    rw [step] at h
    split at h
    · cases h
      exact ⟨hs.failures, hs.calls, hone⟩
    · cases h

theorem along_contract_iff {events : List (Event C)} (hs : Counted s)
    (h : Machine.run step s events = some t) :
    Machine.Along step Contract s events ↔ Machine.Along step Orderly s events := by
  induction events generalizing s with
  | nil => exact Iff.rfl
  | cons e events ih =>
    obtain ⟨u, hu, ht⟩ := Machine.run_cons_iff.mp h
    have hone := contract_iff hs hu
    constructor
    · rintro ⟨hc, hrest⟩
      exact Machine.along_cons (hone.mp hc) hu ((ih (step_counted hs hc hu) ht).mp (hrest u hu))
    · rintro ⟨ho, hrest⟩
      have hc := hone.mpr ho
      exact Machine.along_cons hc hu ((ih (step_counted hs hc hu) ht).mpr (hrest u hu))

/-- A run of callers, outcomes and clock values meets the half-open contract exactly when no
caller asks while a test call is out, and every failure reported to the half-open breaker is one
of as many in a row as the threshold. -/
theorem half_open_contract (failureThreshold : Nat) (recoveryTimeout : Int)
    (events : List (Event C)) (t : State C)
    (h : Machine.run step (initial failureThreshold recoveryTimeout) events = some t) :
    Machine.Along step Contract (initial failureThreshold recoveryTimeout) events ↔
      Machine.Along step Orderly (initial failureThreshold recoveryTimeout) events :=
  along_contract_iff (initial_counted failureThreshold recoveryTimeout) h

section Examples

/-- Three failures open the breaker, and half a minute later a test call closes it. -/
def recovery : List (Event Nat) :=
  [.ask 0, .ask 1, .ask 2, .fail 0, .fail 1, .fail 2, .ask 3, .advance 30, .ask 4, .succeed 4]

theorem half_open_contract_recovery :
    Machine.Along step Contract (initial 3 30) recovery :=
  (half_open_contract 3 30 recovery _ rfl).mpr (by decide)

/-- A success that arrives late, while the breaker is open. -/
def lateSuccess : List (Event Nat) :=
  [.ask 0, .ask 1, .ask 2, .ask 3, .fail 1, .fail 2, .fail 3, .succeed 0, .advance 30, .ask 4]

/-- A half-open breaker admits two callers, and after a late success a failure leaves it
half-open. -/
theorem half_open_contract_broken :
    (∃ s, Machine.run step (initial 3 30) (lateSuccess ++ [.ask 5]) = some s ∧
      s.breaker.state = .HALF_OPEN ∧ s.pending = [4, 5] ∧
      ¬ Machine.Along step Contract (initial 3 30) (lateSuccess ++ [.ask 5])) ∧
    ∃ s, Machine.run step (initial 3 30) (lateSuccess ++ [.fail 4]) = some s ∧
      s.breaker.state = .HALF_OPEN ∧
      ¬ Machine.Along step Contract (initial 3 30) (lateSuccess ++ [.fail 4]) := by
  have horderly : ∀ e, e = .ask 5 ∨ e = .fail 4 →
      ¬ Machine.Along step Orderly (initial 3 30) (lateSuccess ++ [e]) := by
    rintro e (rfl | rfl)
    · decide
    · decide
  refine ⟨⟨_, rfl, rfl, rfl, fun h => ?_⟩, ⟨_, rfl, rfl, fun h => ?_⟩⟩
  · exact horderly _ (.inl rfl) ((along_contract_iff (initial_counted 3 30) rfl).mp h)
  · exact horderly _ (.inr rfl) ((along_contract_iff (initial_counted 3 30) rfl).mp h)

end Examples

end PipelineIQ.Streaming.CircuitBreaker
