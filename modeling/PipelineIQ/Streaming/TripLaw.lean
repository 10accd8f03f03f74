import Mathlib.Data.List.Infix
import PipelineIQ.Streaming.CircuitBreaker

namespace PipelineIQ.Streaming.TripLaw

open PipelineIQ.Lib PipelineIQ.Streaming.CircuitBreaker

/-- `reset`. -/
def reset (cb : Breaker) : Breaker :=
  { cb with
    state := .CLOSED
    failureCount := 0
    lastFailureTime := 0 }

/-! ### Histories -/

/-- The calls, each with the clock that it reads. -/
inductive Event where
  | isOpen (now : Int)
  | recordSuccess
  | recordFailure (now : Int)
  | reset

/-- The breaker, the last reading of the clock, and the outcomes since the last reset, the last one
first: a failure with its time, and `none` for a success. -/
structure State where
  breaker : Breaker
  now : Int
  outcomes : List (Option Int) := []

def initial (failureThreshold : Nat) (recoveryTimeout start : Int) : State :=
  { breaker := { failureThreshold, recoveryTimeout }, now := start }

/-- A call, which reads no earlier time than the calls before it. -/
def step (s : State) : Event → Option State
  | .isOpen now =>
    if s.now ≤ now then some { s with breaker := (s.breaker.isOpen now).2, now } else none
  | .recordSuccess =>
    some { s with breaker := s.breaker.recordSuccess, outcomes := none :: s.outcomes }
  | .recordFailure now =>
    if s.now ≤ now then
      some { breaker := s.breaker.recordFailure now, now, outcomes := some now :: s.outcomes }
    else none
  | .reset => some { s with breaker := reset s.breaker, outcomes := [] }

/-- The last so many outcomes were all failures. -/
def LastFailed (n : Nat) (outcomes : List (Option Int)) : Prop :=
  n ≤ outcomes.length ∧ ∀ o ∈ outcomes.take n, o.isSome = true

/-- So many failures in a row were recorded at some point. -/
def OnceFailed (n : Nat) (outcomes : List (Option Int)) : Prop :=
  ∃ earlier, earlier <:+ outcomes ∧ LastFailed n earlier

def lastFailure (outcomes : List (Option Int)) : Option Int := outcomes.findSome? id

/-- What the next call of `is_open` answers. -/
structure Law (s : State) (now : Int) : Prop where
  trips : LastFailed s.breaker.failureThreshold s.outcomes → ∀ t, s.outcomes.head? = some (some t) →
    now - t < s.breaker.recoveryTimeout → (s.breaker.isOpen now).1 = true
  tripped : (s.breaker.isOpen now).1 = true →
    (∃ t, lastFailure s.outcomes = some t ∧ now - t < s.breaker.recoveryTimeout) ∧
      OnceFailed s.breaker.failureThreshold s.outcomes

/-! ### The invariant -/

/-- How many failures were recorded in a row up to now. -/
def inARow (outcomes : List (Option Int)) : Nat := (outcomes.takeWhile Option.isSome).length

theorem lastFailed_iff {n : Nat} {outcomes : List (Option Int)} :
    LastFailed n outcomes ↔ n ≤ inARow outcomes := by
  induction outcomes generalizing n with
  | nil => simp [LastFailed, inARow]
  | cons o outcomes ih =>
    cases n with
    | zero => simp [LastFailed]
    | succ n =>
      have hrest := @ih n
      cases o with
      | none => simp [LastFailed, inARow]
      | some t => simpa [LastFailed, inARow] using hrest

theorem OnceFailed.cons {n : Nat} {outcomes : List (Option Int)} (h : OnceFailed n outcomes)
    (o : Option Int) : OnceFailed n (o :: outcomes) := by
  obtain ⟨earlier, hsuffix, hfailed⟩ := h
  exact ⟨earlier, hsuffix.trans (List.suffix_cons o outcomes), hfailed⟩

/-- The counter is the number of failures in a row, and the time that of the last one. A breaker
that heard of enough of them is open until its timeout is over, and an open breaker heard of
enough of them once. -/
structure Tracked (s : State) : Prop where
  count : s.breaker.failureCount = inARow s.outcomes
  time : ∀ t, lastFailure s.outcomes = some t → s.breaker.lastFailureTime = t ∧ t ≤ s.now
  trips : ∀ t, s.outcomes.head? = some (some t) → s.breaker.failureThreshold ≤ inARow s.outcomes →
    s.breaker.state = .OPEN ∨ s.breaker.recoveryTimeout ≤ s.now - t
  tripped : s.breaker.state = .OPEN → (lastFailure s.outcomes).isSome = true ∧
    OnceFailed s.breaker.failureThreshold s.outcomes

section Fields

variable (now : Int) (cb : Breaker)

theorem readState_recoveryTimeout : (cb.readState now).recoveryTimeout = cb.recoveryTimeout := by
  rw [Breaker.readState]
  split <;> rfl

theorem readState_lastFailureTime : (cb.readState now).lastFailureTime = cb.lastFailureTime := by
  rw [Breaker.readState]
  split <;> rfl

/-- Reading leaves a breaker open exactly while its timeout is not over. -/
theorem readState_open_iff : (cb.readState now).state = .OPEN ↔
    cb.state = .OPEN ∧ now - cb.lastFailureTime < cb.recoveryTimeout := by
  rw [Breaker.readState]
  split
  · next hover =>
    apply iff_of_false
    · exact CircuitState.noConfusion
    · exact fun h => absurd hover.2 (Int.not_le.mpr h.2)
  · next hwithin =>
    constructor
    · intro h
      exact ⟨h, Int.not_le.mp fun hover => hwithin ⟨h, hover⟩⟩
    · exact And.left

end Fields

variable {s t : State} {e : Event}

theorem initial_tracked (failureThreshold : Nat) (recoveryTimeout start : Int) :
    Tracked (initial failureThreshold recoveryTimeout start) := by
  constructor
  · rfl
  · exact nofun
  · exact nofun
  · exact nofun

theorem isOpen_tracked (hs : Tracked s) {now : Int} (hnow : s.now ≤ now) :
    Tracked { s with breaker := s.breaker.readState now, now } := by
  constructor <;> dsimp only
  · rw [Breaker.readState_failureCount]
    exact hs.count
  · intro t ht
    rw [readState_lastFailureTime]
    exact ⟨(hs.time t ht).1, Int.le_trans (hs.time t ht).2 hnow⟩
  · intro t ht hcount
    rw [Breaker.readState_failureThreshold] at hcount
    rw [readState_open_iff, readState_recoveryTimeout]
    have htime : s.breaker.lastFailureTime = t := by
      obtain ⟨rest, hrest⟩ := List.head?_eq_some_iff.mp ht
      exact (hs.time t (hrest ▸ rfl)).1
    cases hs.trips t ht hcount with
    | inl hopen =>
      by_cases hwithin : now - t < s.breaker.recoveryTimeout
      · exact .inl ⟨hopen, htime ▸ hwithin⟩
      · exact .inr (Int.not_lt.mp hwithin)
    | inr hover => exact .inr (by omega)
  · intro hopen
    rw [Breaker.readState_failureThreshold]
    exact hs.tripped ((readState_open_iff now s.breaker).mp hopen).1

theorem recordSuccess_tracked (hs : Tracked s) :
    Tracked { s with breaker := s.breaker.recordSuccess, outcomes := none :: s.outcomes } := by
  constructor
  · rfl
  · exact hs.time
  · exact nofun
  · intro hopen
    have hbefore : s.breaker.state = .OPEN := by
      change (if s.breaker.state = .HALF_OPEN then CircuitState.CLOSED else s.breaker.state) =
        .OPEN at hopen
      split at hopen
      · cases hopen
      · exact hopen
    exact ⟨(hs.tripped hbefore).1, (hs.tripped hbefore).2.cons none⟩

theorem recordFailure_state (now : Int) (cb : Breaker) : (cb.recordFailure now).state = .OPEN ↔
    cb.failureThreshold ≤ cb.failureCount + 1 ∨ cb.state = .OPEN := by
  change (if _ then CircuitState.OPEN else cb.state) = .OPEN ↔ _
  by_cases hopen : cb.state = .OPEN
  · simp [hopen]
  · by_cases hcount : cb.failureThreshold ≤ cb.failureCount + 1
    · simp [hopen, hcount]
    · simp [hopen, hcount]

theorem recordFailure_tracked (hs : Tracked s) (now : Int) :
    Tracked { breaker := s.breaker.recordFailure now, now, outcomes := some now :: s.outcomes } := by
  have hcount : s.breaker.failureCount + 1 = inARow (some now :: s.outcomes) := by
    rw [hs.count]
    rfl
  constructor <;> dsimp only
  · exact hcount
  · intro t ht
    cases ht
    exact ⟨rfl, Int.le_refl _⟩
  · intro t _ hthreshold
    apply Or.inl
    rw [recordFailure_state, hcount]
    exact .inl hthreshold
  · intro hopen
    refine ⟨rfl, ?_⟩
    cases (recordFailure_state now s.breaker).mp hopen with
    | inl hthreshold =>
      exact ⟨_, List.suffix_rfl, lastFailed_iff.mpr (hcount ▸ hthreshold)⟩
    | inr hbefore => exact (hs.tripped hbefore).2.cons (some now)

theorem reset_tracked (s : State) :
    Tracked { s with breaker := reset s.breaker, outcomes := [] } := by
  constructor
  · rfl
  · exact nofun
  · exact nofun
  · exact nofun

theorem step_tracked (hs : Tracked s) (h : step s e = some t) : Tracked t := by
  cases e with
  | isOpen now =>
    rw [step] at h
    split at h
    · next hnow => exact Option.some.inj h ▸ isOpen_tracked hs hnow
    · cases h
  | recordSuccess => exact Option.some.inj h ▸ recordSuccess_tracked hs
  | recordFailure now =>
    rw [step] at h
    split at h
    · exact Option.some.inj h ▸ recordFailure_tracked hs now
    · cases h
  | reset => exact Option.some.inj h ▸ reset_tracked s

theorem Tracked.law (hs : Tracked s) {now : Int} (hnow : s.now ≤ now) : Law s now := by
  constructor
  · intro hfailed t ht hwithin
    obtain ⟨rest, hrest⟩ := List.head?_eq_some_iff.mp ht
    have htime : s.breaker.lastFailureTime = t := (hs.time t (hrest ▸ rfl)).1
    have hopen : s.breaker.state = .OPEN := by
      apply (hs.trips t ht (lastFailed_iff.mp hfailed)).resolve_right
      omega
    apply decide_eq_true
    rw [readState_open_iff, htime]
    exact ⟨hopen, hwithin⟩
  · intro hanswer
    obtain ⟨hopen, hwithin⟩ := (readState_open_iff now s.breaker).mp (of_decide_eq_true hanswer)
    obtain ⟨hsome, honce⟩ := hs.tripped hopen
    obtain ⟨t, ht⟩ := Option.isSome_iff_exists.mp hsome
    exact ⟨⟨t, ht, (hs.time t ht).1 ▸ hwithin⟩, honce⟩

/-- After every sequence of calls with a clock that does not go back, a reading of the clock that is
no earlier answers by the law. -/
theorem trip_law (failureThreshold : Nat) (recoveryTimeout start : Int) (events : List Event)
    (s : State)
    (h : Machine.run step (initial failureThreshold recoveryTimeout start) events = some s)
    (now : Int) (hnow : s.now ≤ now) : Law s now := by
  have htracked : Tracked s :=
    Machine.invariant_reachable (fun _ _ _ hs hstep => step_tracked hs hstep)
      (initial_tracked failureThreshold recoveryTimeout start) h
  exact htracked.law hnow

/-- Three failures, a reading while they are recent, a success, and one long after. -/
theorem trip_law_recovery : Law
    { breaker := ⟨3, 30, .HALF_OPEN, 0, 2, 3⟩, now := 40, outcomes := [none, some 2, some 1, some 0] }
    41 :=
  trip_law 3 30 0 [.recordFailure 0, .recordFailure 1, .recordFailure 2, .isOpen 5, .recordSuccess,
    .isOpen 40] _ rfl 41 (by decide)

end PipelineIQ.Streaming.TripLaw
