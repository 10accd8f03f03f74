import Mathlib.Algebra.BigOperators.Group.List.Basic
import Mathlib.Algebra.GroupWithZero.Nat
import PipelineIQ.Lib.Dict
import PipelineIQ.Lib.Machine

namespace PipelineIQ.Ai.TokenBudget

open PipelineIQ.Lib PipelineIQ.Lib.Machine

/-! ### The commands on the counters -/

/-- The counter of each window, under the number of the window. -/
abbrev Counters := Dict Nat Int

def TOKEN_BUDGET_PER_MINUTE : Int := 900000

def usage (counters : Counters) (window : Nat) : Int := (counters.get? window).getD 0

def incrby (counters : Counters) (window : Nat) (n : Int) : Counters :=
  counters.set window (usage counters window + n)

/-- The script `_TOKEN_BUDGET_LUA`. -/
def reserveScript (counters : Counters) (window : Nat) (requested limit : Int) : Int × Counters :=
  if limit < usage counters window + requested then (-1, counters)
  else (usage counters window + requested, incrby counters window requested)

/-- How a command of Redis comes back: with its answer, with an error and no effect, or with an
error after its effect. -/
inductive Reply where
  | answered | refused | timedOut
  deriving DecidableEq, Repr

/-! ### One call of the model -/

/-- Where a call is. `reserved` is the `try` block before the adjustment and `adjusted` the rest of
it; `failing` is the handler before its release, with the actual tokens if they were booked. -/
inductive Stage where
  | ready
  | keyed (window : Nat)
  | reserved (window : Nat)
  | adjusted (window : Nat) (actualTokens : Nat)
  | failing (window : Nat) (actualTokens : Option Nat)
  | settled (window : Nat) (actualTokens : Nat)
  | gone
  deriving DecidableEq, Repr

structure Call where
  estimatedTotalTokens : Nat
  stage : Stage := .ready

/-- A call of `call_gemini_task`; a description has 100 output tokens. -/
def newCall (promptLength maxOutputTokens : Nat) : Call where
  estimatedTotalTokens := promptLength / 4 + maxOutputTokens

/-- What a call does next, and how that comes out. `fail` is an exception in the `try` block,
`kill` the end of the process or an exception outside the block. -/
inductive Action where
  | key
  | reserve (reply : Reply)
  | adjust (actualTokens : Nat) (reply : Reply)
  | finish
  | fail
  | release (reply : Reply)
  | kill
  deriving DecidableEq, Repr

/-- The end of a call: booked tokens stay booked. -/
def Stage.over : Stage → Stage
  | .adjusted window actualTokens | .failing window (some actualTokens) =>
    .settled window actualTokens
  | _ => .gone

def callStep (now : Nat) (counters : Counters) (c : Call) (action : Action) :
    Option (Counters × Call) :=
  match action, c.stage with
  | .key, .ready => some (counters, { c with stage := .keyed now })
  | .reserve reply, .keyed window =>
    let (reservedUsage, updated) :=
      reserveScript counters window c.estimatedTotalTokens TOKEN_BUDGET_PER_MINUTE
    match reply with
    | .refused => some (counters, { c with stage := .gone })
    | .timedOut => some (updated, { c with stage := .gone })
    | .answered =>
      -- a negative answer ends the call with a retry, which is a call of its own
      if reservedUsage < 0 then some (updated, { c with stage := .gone })
      else some (updated, { c with stage := .reserved window })
  | .adjust actualTokens reply, .reserved window =>
    let adjustment : Int := actualTokens - c.estimatedTotalTokens
    if adjustment = 0 then some (counters, { c with stage := .adjusted window actualTokens })
    else match reply with
    | .refused => some (counters, { c with stage := .failing window none })
    | .timedOut => some (incrby counters window adjustment,
        { c with stage := .failing window (some actualTokens) })
    | .answered => some (incrby counters window adjustment,
        { c with stage := .adjusted window actualTokens })
  | .finish, .adjusted .. => some (counters, { c with stage := c.stage.over })
  | .fail, .reserved window => some (counters, { c with stage := .failing window none })
  | .fail, .adjusted window actualTokens =>
    some (counters, { c with stage := .failing window (some actualTokens) })
  | .release reply, .failing window _ =>
    some (if reply = .refused then counters
      else incrby counters window (-c.estimatedTotalTokens), { c with stage := c.stage.over })
  | .kill, .settled .. | .kill, .gone => none
  | .kill, _ => some (counters, { c with stage := c.stage.over })
  | _, _ => none

/-! ### All calls -/

/-- The calls so far, the counters and the window that the clock is in. -/
structure State where
  now : Nat := 0
  counters : Counters := ∅
  calls : List Call := []

/-- An event: a call begins, does something, the next window begins, or the key of an old window
expires. -/
inductive Event where
  | call (promptLength maxOutputTokens : Nat)
  | act (index : Nat) (action : Action)
  | advance
  | expire (window : Nat)
  deriving DecidableEq, Repr

/-- The tokens of an expired key are forgotten with it. -/
def Stage.forget (window : Nat) : Stage → Stage
  | .adjusted w n => .adjusted w (if w = window then 0 else n)
  | .failing w (some n) => .failing w (some (if w = window then 0 else n))
  | .settled w n => .settled w (if w = window then 0 else n)
  | stage => stage

def Call.forget (window : Nat) (c : Call) : Call := { c with stage := c.stage.forget window }

def step (s : State) : Event → Option State
  | .call promptLength maxOutputTokens =>
    some { s with calls := s.calls ++ [newCall promptLength maxOutputTokens] }
  | .act index action => do
    let c ← s.calls[index]?
    let (counters, c) ← callStep s.now s.counters c action
    return { s with counters, calls := s.calls.set index c }
  | .advance => some { s with now := s.now + 1 }
  | .expire window =>
    if window < s.now then
      some { s with counters := s.counters.erase window, calls := s.calls.map (·.forget window) }
    else none

/-! ### What the counters are for -/

/-- What a call in flight holds of a window: its estimate until it is settled or released. -/
def Call.reservation (window : Nat) (c : Call) : Nat :=
  match c.stage with
  | .reserved w | .failing w none => if w = window then c.estimatedTotalTokens else 0
  | _ => 0

/-- The actual tokens of a settled call. -/
def Call.settlement (window : Nat) (c : Call) : Nat :=
  match c.stage with
  | .adjusted w n | .failing w (some n) | .settled w n => if w = window then n else 0
  | _ => 0

def State.reservedTokens (s : State) (window : Nat) : Nat :=
  (s.calls.map (Call.reservation window)).sum

def State.settledTokens (s : State) (window : Nat) : Nat :=
  (s.calls.map (Call.settlement window)).sum

/-- Every counter is right, not negative, and the reservations are within the budget. -/
structure Accurate (s : State) : Prop where
  counter : ∀ window, usage s.counters window = s.settledTokens window + s.reservedTokens window
  nonneg : ∀ window, 0 ≤ usage s.counters window
  budget : ∀ window, s.reservedTokens window ≤ TOKEN_BUDGET_PER_MINUTE

/-- What must not happen to a call with a reservation of more than no tokens: an error after the
reservation was made, an end before the release or without it, a release after the settlement. -/
def CleanAction (counters : Counters) (c : Call) : Action → Prop
  | .reserve .timedOut => match c.stage with
    | .keyed window => c.estimatedTotalTokens = 0 ∨
        TOKEN_BUDGET_PER_MINUTE < usage counters window + c.estimatedTotalTokens
    | _ => True
  | .release reply => match c.stage with
    | .failing _ none => c.estimatedTotalTokens = 0 ∨ reply ≠ .refused
    | .failing _ (some _) => c.estimatedTotalTokens = 0 ∨ reply = .refused
    | _ => True
  | .kill => match c.stage with
    | .reserved _ | .failing _ none => c.estimatedTotalTokens = 0
    | _ => True
  | _ => True

/-- Nor may a key expire with reservations in its window. -/
def Clean (s : State) : Event → Prop
  | .act index action => ∀ c, s.calls[index]? = some c → CleanAction s.counters c action
  | .expire window => s.reservedTokens window = 0
  | _ => True

/-! ### One step -/

section Step

variable {s t : State} {counters counters' : Counters} {c c' : Call} {window w now : Nat}

@[simp] theorem usage_incrby (n : Int) : usage (incrby counters w n) window =
    usage counters window + if window = w then n else 0 := by
  unfold usage incrby
  rw [Dict.get?_set]
  split
  · next h => rw [h, Option.getD_some, usage]
  · rw [Int.add_zero]

@[simp] theorem usage_erase : usage (counters.erase w) window =
    if window = w then 0 else usage counters window := by
  unfold usage
  rw [Dict.get?_erase]
  split <;> rfl

theorem sum_map_set {α : Type} (f : α → Nat) {xs : List α} {i : Nat} {x : α} (y : α)
    (h : xs[i]? = some x) : ((xs.set i y).map f).sum + f x = (xs.map f).sum + f y := by
  induction xs generalizing i with
  | nil => cases h
  | cons a xs ih =>
    cases i with
    | zero =>
      cases h
      rw [List.set_cons_zero, List.map_cons, List.map_cons, List.sum_cons, List.sum_cons]
      omega
    | succ i =>
      rw [List.set_cons_succ, List.map_cons, List.map_cons, List.sum_cons, List.sum_cons]
      have := ih (i := i) h
      omega

/-- The tokens of a call in the counter of a window. -/
def Call.charge (window : Nat) (c : Call) : Nat := c.settlement window + c.reservation window

section Charges

variable (estimate n : Nat)

@[simp] theorem charge_ready : Call.charge window ⟨estimate, .ready⟩ = 0 := rfl

@[simp] theorem charge_keyed : Call.charge window ⟨estimate, .keyed w⟩ = 0 := rfl

@[simp] theorem charge_gone : Call.charge window ⟨estimate, .gone⟩ = 0 := rfl

@[simp] theorem charge_reserved :
    Call.charge window ⟨estimate, .reserved w⟩ = if w = window then estimate else 0 :=
  Nat.zero_add _

@[simp] theorem charge_failing :
    Call.charge window ⟨estimate, .failing w none⟩ = if w = window then estimate else 0 :=
  Nat.zero_add _

@[simp] theorem charge_adjusted :
    Call.charge window ⟨estimate, .adjusted w n⟩ = if w = window then n else 0 := rfl

@[simp] theorem charge_booked :
    Call.charge window ⟨estimate, .failing w (some n)⟩ = if w = window then n else 0 := rfl

@[simp] theorem charge_settled :
    Call.charge window ⟨estimate, .settled w n⟩ = if w = window then n else 0 := rfl

end Charges

/-- A counter changes by as much as what the call holds of it. -/
def Balanced (counters counters' : Counters) (c c' : Call) : Prop :=
  ∀ window, usage counters' window + c.charge window = usage counters window + c'.charge window

/-- A step that touches one window is balanced when it is so there. -/
theorem balanced_at (w : Nat) (h : ∀ window, window ≠ w → usage counters' window = usage counters window ∧
      c.charge window = c'.charge window) :
    Balanced counters counters' c c' ↔
      usage counters' w + c.charge w = usage counters w + c'.charge w := by
  refine ⟨fun hbalanced => hbalanced w, fun hw window => ?_⟩
  by_cases hwindow : window = w
  · rw [hwindow]
    exact hw
  · rw [(h window hwindow).1, (h window hwindow).2]

theorem balanced_same (h : ∀ window, c.charge window = c'.charge window) :
    Balanced counters counters c c' := by
  intro window
  rw [h window]

theorem balanced_reserve {estimate : Nat} {reply : Reply} (hnonneg : 0 ≤ usage counters w)
    (h : callStep now counters ⟨estimate, .keyed w⟩ (.reserve reply) = some (counters', c')) :
    Balanced counters counters' ⟨estimate, .keyed w⟩ c' ↔
      CleanAction counters ⟨estimate, .keyed w⟩ (.reserve reply) := by
  have hother (n : Int) (window : Nat) (hne : window ≠ w) :
      usage (incrby counters w n) window = usage counters window := by
    rw [usage_incrby, if_neg hne, Int.add_zero]
  unfold callStep reserveScript at h
  by_cases hover : TOKEN_BUDGET_PER_MINUTE < usage counters w + estimate
  · simp only [if_pos hover] at h
    cases reply with
    | refused =>
      cases h
      exact iff_of_true (balanced_same fun _ => rfl) trivial
    | timedOut =>
      cases h
      exact iff_of_true (balanced_same fun _ => rfl) (.inr hover)
    | answered =>
      cases h
      exact iff_of_true (balanced_same fun _ => rfl) trivial
  · simp only [if_neg hover] at h
    cases reply with
    | refused =>
      cases h
      exact iff_of_true (balanced_same fun _ => rfl) trivial
    | timedOut =>
      cases h
      rw [balanced_at w fun window hne => ⟨hother _ window hne, ?_⟩, usage_incrby, if_pos rfl]
      · simp only [charge_keyed, charge_gone, CleanAction, hover, or_false]
        omega
      · rw [charge_keyed, charge_gone]
    | answered =>
      rw [if_neg (by omega)] at h
      cases h
      refine iff_of_true ((balanced_at w fun window hne => ⟨hother _ window hne, ?_⟩).mpr ?_) trivial
      · rw [charge_keyed, charge_reserved, if_neg (Ne.symm hne)]
      · rw [usage_incrby, if_pos rfl, charge_keyed, charge_reserved, if_pos rfl]
        omega

theorem balanced_adjust {estimate actualTokens : Nat} {reply : Reply}
    (h : callStep now counters ⟨estimate, .reserved w⟩ (.adjust actualTokens reply) =
      some (counters', c')) : Balanced counters counters' ⟨estimate, .reserved w⟩ c' := by
  unfold callStep at h
  dsimp only at h
  split at h
  · next hsame =>
    cases h
    refine balanced_same fun window => ?_
    rw [charge_reserved, charge_adjusted, show actualTokens = estimate by omega]
  · have hbooked (c' : Call) (hcharge : ∀ window, c'.charge window =
        if w = window then actualTokens else 0) : Balanced counters
          (incrby counters w (actualTokens - estimate)) ⟨estimate, .reserved w⟩ c' := by
      intro window
      rw [usage_incrby, charge_reserved, hcharge]
      by_cases hw : w = window
      · rw [if_pos hw, if_pos hw, if_pos hw.symm]
        omega
      · rw [if_neg hw, if_neg hw, if_neg (Ne.symm hw), Int.add_zero]
    cases reply with
    | refused =>
      cases h
      exact balanced_same fun window => by rw [charge_reserved, charge_failing]
    | timedOut =>
      cases h
      exact hbooked _ fun window => charge_booked estimate actualTokens
    | answered =>
      cases h
      exact hbooked _ fun window => charge_adjusted estimate actualTokens

theorem balanced_release {estimate : Nat} {actualTokens : Option Nat} {reply : Reply}
    (h : callStep now counters ⟨estimate, .failing w actualTokens⟩ (.release reply) =
      some (counters', c')) : Balanced counters counters' ⟨estimate, .failing w actualTokens⟩ c' ↔
      CleanAction counters ⟨estimate, .failing w actualTokens⟩ (.release reply) := by
  unfold callStep at h
  have hother (window : Nat) (hne : window ≠ w) :
      usage (if reply = .refused then counters else incrby counters w (-estimate)) window =
        usage counters window := by
    split
    · rfl
    · rw [usage_incrby, if_neg hne, Int.add_zero]
  have hself : usage (if reply = .refused then counters else incrby counters w (-estimate)) w =
      usage counters w - if reply = .refused then 0 else (estimate : Int) := by
    split
    · rw [Int.sub_zero]
    · rw [usage_incrby, if_pos rfl, Int.sub_eq_add_neg]
  cases actualTokens with
  | none =>
    cases h
    rw [balanced_at w fun window hne => ⟨hother window hne, ?_⟩, hself]
    · simp only [charge_failing, Stage.over, charge_gone, CleanAction, ↓reduceIte]
      by_cases hreply : reply = .refused
      · simp only [hreply, ↓reduceIte, ne_eq, not_true_eq_false, or_false]
        omega
      · simp only [hreply, ↓reduceIte, ne_eq, not_false_eq_true, or_true, iff_true]
        omega
    · rw [charge_failing, if_neg (Ne.symm hne)]
      rfl
  | some n =>
    cases h
    rw [balanced_at w fun window hne => ⟨hother window hne, ?_⟩, hself]
    · simp only [charge_booked, Stage.over, charge_settled, CleanAction, ↓reduceIte]
      by_cases hreply : reply = .refused
      · simp only [hreply, ↓reduceIte, or_true, iff_true]
        omega
      · simp only [hreply, ↓reduceIte, or_false]
        omega
    · rw [charge_booked]
      rfl

theorem balanced_kill (h : callStep now counters c .kill = some (counters', c')) :
    Balanced counters counters' c c' ↔ CleanAction counters c .kill := by
  obtain ⟨estimate, stage⟩ := c
  have hlost (w : Nat) (c : Call) (hcharge : ∀ window, c.charge window = if w = window then estimate else 0) :
      Balanced counters counters c ⟨estimate, .gone⟩ ↔ estimate = 0 := by
    constructor
    · intro hbalanced
      have := hbalanced w
      rw [hcharge, if_pos rfl, charge_gone] at this
      omega
    · rintro rfl
      refine balanced_same fun window => ?_
      rw [hcharge, charge_gone, ite_self]
  cases stage with
  | ready =>
    cases h
    exact iff_of_true (balanced_same fun _ => rfl) trivial
  | keyed w =>
    cases h
    exact iff_of_true (balanced_same fun _ => rfl) trivial
  | reserved w =>
    cases h
    exact hlost w _ fun window => charge_reserved estimate
  | adjusted w n =>
    cases h
    exact iff_of_true (balanced_same fun _ => rfl) trivial
  | failing w actualTokens =>
    cases actualTokens with
    | none =>
      cases h
      exact hlost w _ fun window => charge_failing estimate
    | some n =>
      cases h
      exact iff_of_true (balanced_same fun _ => rfl) trivial
  | settled w n => cases h
  | gone => cases h

/-- An action is balanced exactly when it is clean. -/
theorem balanced_iff {action : Action} (hnonneg : ∀ window, 0 ≤ usage counters window)
    (h : callStep now counters c action = some (counters', c')) :
    Balanced counters counters' c c' ↔ CleanAction counters c action := by
  obtain ⟨estimate, stage⟩ := c
  cases action with
  | kill => exact balanced_kill h
  | reserve reply =>
    cases stage with
    | keyed w => exact balanced_reserve (hnonneg w) h
    | _ => cases h
  | adjust actualTokens reply =>
    cases stage with
    | reserved w => exact iff_of_true (balanced_adjust h) trivial
    | _ => cases h
  | release reply =>
    cases stage with
    | failing w actualTokens => exact balanced_release h
    | _ => cases h
  | key =>
    cases stage with
    | ready =>
      cases h
      exact iff_of_true (balanced_same fun _ => rfl) trivial
    | _ => cases h
  | finish =>
    cases stage with
    | adjusted w n =>
      cases h
      exact iff_of_true (balanced_same fun _ => rfl) trivial
    | _ => cases h
  | fail =>
    cases stage with
    | reserved w =>
      cases h
      refine iff_of_true (balanced_same fun window => ?_) trivial
      rw [charge_reserved, charge_failing]
    | adjusted w n =>
      cases h
      exact iff_of_true (balanced_same fun _ => rfl) trivial
    | _ => cases h

theorem reservation_over (stage : Stage) (estimate : Nat) :
    Call.reservation window ⟨estimate, stage.over⟩ = 0 := by
  cases stage with
  | failing w actualTokens => cases actualTokens <;> rfl
  | _ => rfl

/-- Only a reservation within the budget adds to what a call holds. -/
theorem reservation_step {action : Action}
    (h : callStep now counters c action = some (counters', c')) (window : Nat) :
    c'.reservation window ≤ c.reservation window ∨
      c.reservation window = 0 ∧
        usage counters window + c'.reservation window ≤ TOKEN_BUDGET_PER_MINUTE := by
  obtain ⟨estimate, stage⟩ := c
  have hzero {c' : Call} (h : c'.reservation window = 0) :
      c'.reservation window ≤ Call.reservation window ⟨estimate, stage⟩ := by
    rw [h]
    exact Nat.zero_le _
  cases action with
  | key =>
    cases stage with
    | ready =>
      cases h
      exact .inl (Nat.le_refl 0)
    | _ => cases h
  | reserve reply =>
    cases stage with
    | keyed w =>
      unfold callStep reserveScript at h
      by_cases hover : TOKEN_BUDGET_PER_MINUTE < usage counters w + estimate
      · simp only [if_pos hover] at h
        cases reply <;> cases h <;> exact .inl (hzero rfl)
      · simp only [if_neg hover] at h
        cases reply with
        | refused =>
          cases h
          exact .inl (hzero rfl)
        | timedOut =>
          cases h
          exact .inl (hzero rfl)
        | answered =>
          dsimp only at h
          split at h
          · cases h
            exact .inl (hzero rfl)
          · cases h
            by_cases hw : w = window
            · refine .inr ⟨rfl, ?_⟩
              have hself : Call.reservation w ⟨estimate, .reserved w⟩ = estimate := if_pos rfl
              rw [← hw, hself]
              omega
            · exact .inl (hzero (if_neg hw))
    | _ => cases h
  | adjust actualTokens reply =>
    cases stage with
    | reserved w =>
      unfold callStep at h
      dsimp only at h
      split at h
      · cases h
        exact .inl (hzero rfl)
      · cases reply with
        | refused =>
          cases h
          exact .inl (Nat.le_refl _)
        | timedOut =>
          cases h
          exact .inl (hzero rfl)
        | answered =>
          cases h
          exact .inl (hzero rfl)
    | _ => cases h
  | finish =>
    cases stage with
    | adjusted w n =>
      cases h
      exact .inl (hzero rfl)
    | _ => cases h
  | fail =>
    cases stage with
    | reserved w =>
      cases h
      exact .inl (Nat.le_refl _)
    | adjusted w n =>
      cases h
      exact .inl (hzero rfl)
    | _ => cases h
  | release reply =>
    cases stage with
    | failing w actualTokens =>
      cases h
      exact .inl (hzero (reservation_over _ _))
    | _ => cases h
  | kill =>
    cases stage with
    | settled w n => cases h
    | gone => cases h
    | _ =>
      cases h
      exact .inl (hzero (reservation_over _ _))

theorem settlement_forget (c : Call) : (c.forget w).settlement window =
    if window = w then 0 else c.settlement window := by
  have hone (v n : Nat) : (if v = window then if v = w then 0 else n else 0) =
      if window = w then 0 else if v = window then n else 0 := by
    by_cases hv : v = window
    · rw [if_pos hv, if_pos hv, hv]
    · rw [if_neg hv, if_neg hv, ite_self]
  obtain ⟨estimate, stage⟩ := c
  cases stage with
  | adjusted v n => exact hone v n
  | settled v n => exact hone v n
  | failing v actualTokens =>
    cases actualTokens with
    | none => exact (ite_self 0).symm
    | some n => exact hone v n
  | _ => exact (ite_self 0).symm

theorem reservation_forget (c : Call) : (c.forget w).reservation window = c.reservation window := by
  obtain ⟨estimate, stage⟩ := c
  cases stage with
  | failing v actualTokens => cases actualTokens <;> rfl
  | _ => rfl

theorem settledTokens_expire (s : State) (counters : Counters) (w window : Nat) :
    State.settledTokens { s with counters, calls := s.calls.map (·.forget w) } window =
      if window = w then 0 else s.settledTokens window := by
  unfold State.settledTokens
  rw [List.map_map]
  by_cases hw : window = w
  · rw [if_pos hw, List.sum_eq_zero]
    intro n hn
    obtain ⟨c, -, rfl⟩ := List.mem_map.mp hn
    exact (settlement_forget c).trans (if_pos hw)
  · rw [if_neg hw]
    congr 2
    funext c
    exact (settlement_forget c).trans (if_neg hw)

theorem reservedTokens_expire (s : State) (counters : Counters) (w window : Nat) :
    State.reservedTokens { s with counters, calls := s.calls.map (·.forget w) } window =
      s.reservedTokens window := by
  unfold State.reservedTokens
  rw [List.map_map]
  congr 2
  funext c
  exact reservation_forget c

theorem accurate_expire (hs : Accurate s) (w : Nat) :
    Accurate { s with counters := s.counters.erase w, calls := s.calls.map (·.forget w) } ↔
      s.reservedTokens w = 0 := by
  constructor
  · intro h
    have hcounter := h.counter w
    rw [settledTokens_expire, reservedTokens_expire, usage_erase, if_pos rfl, if_pos rfl] at hcounter
    omega
  · intro h
    refine ⟨fun window => ?_, fun window => ?_, fun window => ?_⟩
    · rw [settledTokens_expire, reservedTokens_expire, usage_erase]
      split
      · next hw =>
        rw [hw, h]
        rfl
      · exact hs.counter window
    · rw [usage_erase]
      split
      · exact Int.le_refl 0
      · exact hs.nonneg window
    · rw [reservedTokens_expire]
      exact hs.budget window

theorem accurate_act (hs : Accurate s) {index : Nat} {action : Action}
    (hc : s.calls[index]? = some c) (h : callStep s.now s.counters c action = some (counters', c')) :
    Accurate { s with counters := counters', calls := s.calls.set index c' } ↔
      CleanAction s.counters c action := by
  rw [← balanced_iff hs.nonneg h]
  have hreserved (window : Nat) :
      State.reservedTokens { s with counters := counters', calls := s.calls.set index c' } window +
        c.reservation window = s.reservedTokens window + c'.reservation window :=
    sum_map_set (Call.reservation window) c' hc
  have hsettled (window : Nat) :
      State.settledTokens { s with counters := counters', calls := s.calls.set index c' } window +
        c.settlement window = s.settledTokens window + c'.settlement window :=
    sum_map_set (Call.settlement window) c' hc
  constructor
  · intro ht window
    have hafter := ht.counter window
    have hbefore := hs.counter window
    have hr := hreserved window
    have hse := hsettled window
    dsimp only at hafter
    unfold Call.charge
    omega
  · intro hbalanced
    have hcounter (window : Nat) : usage counters' window =
        State.settledTokens { s with counters := counters', calls := s.calls.set index c' } window +
        State.reservedTokens { s with counters := counters', calls := s.calls.set index c' } window := by
      have hafter := hbalanced window
      have hbefore := hs.counter window
      have hr := hreserved window
      have hse := hsettled window
      unfold Call.charge at hafter
      omega
    refine ⟨hcounter, fun window => ?_, fun window => ?_⟩
    · rw [hcounter window]
      omega
    · have hr := hreserved window
      have hbefore := hs.counter window
      have hbudget := hs.budget window
      rcases reservation_step h window with hle | ⟨hnone, hle⟩
      · omega
      · omega

theorem accurate_step (hs : Accurate s) {e : Event} (h : step s e = some t) :
    Accurate t ↔ Clean s e := by
  cases e with
  | call promptLength maxOutputTokens =>
    cases h
    refine iff_of_true ⟨fun window => ?_, hs.nonneg, fun window => ?_⟩ trivial
    · have hcounter := hs.counter window
      unfold State.settledTokens State.reservedTokens at *
      rw [List.map_append, List.map_append, List.sum_append, List.sum_append]
      exact hcounter
    · have hbudget := hs.budget window
      unfold State.reservedTokens at *
      rw [List.map_append, List.sum_append]
      exact hbudget
  | act index action =>
    obtain ⟨c, hc, h⟩ := Option.bind_eq_some_iff.mp h
    obtain ⟨⟨counters', c'⟩, hstep, h⟩ := Option.bind_eq_some_iff.mp h
    cases h
    rw [accurate_act hs hc hstep, Clean]
    constructor
    · intro hclean d hd
      rw [hc] at hd
      cases hd
      exact hclean
    · exact fun hclean => hclean c hc
  | advance =>
    cases h
    exact iff_of_true ⟨hs.counter, hs.nonneg, hs.budget⟩ trivial
  | expire window =>
    rw [step] at h
    split at h
    · cases h
      exact accurate_expire hs window
    · cases h

end Step

theorem accurate_initial : Accurate {} := by
  have hbudget : (0 : Int) ≤ TOKEN_BUDGET_PER_MINUTE := by decide
  exact ⟨fun window => rfl, fun window => Int.le_refl 0, fun window => hbudget⟩

/-- For every run of any number of calls: the counters are accurate in all of its states exactly
when all of its events are clean. -/
theorem token_budget_iff (events : List Event) (s : State) (h : run step {} events = some s) :
    Always step Accurate {} events ↔ Along step Clean {} events :=
  always_iff_along (I := fun _ => True) (fun _ _ _ _ _ => trivial)
    (fun _ _ _ _ hs h => accurate_step hs h) trivial accurate_initial h

section Examples

/-- A call that answers with fewer tokens than estimated. -/
def oneCall (ending : List Action) : List Event :=
  [.call 400 2000, .act 0 .key, .act 0 (.reserve .answered), .act 0 (.adjust 1500 .answered)] ++
    ending.map (.act 0)

/-- The response cannot be cached, so the handler releases what the call no longer holds. -/
theorem settled_call_released :
    ∃ s, run step {} (oneCall [.fail, .release .answered]) = some s ∧
      usage s.counters 0 = -600 ∧
        ¬ Always step Accurate {} (oneCall [.fail, .release .answered]) := by
  refine ⟨_, rfl, by decide, fun h => ?_⟩
  have hnonneg := (h _ [] (List.append_nil _).symm _ rfl).nonneg 0
  exact absurd hnonneg (by decide)

theorem token_budget_iff_finish : Always step Accurate {} (oneCall [.finish]) := by
  refine (token_budget_iff (oneCall [.finish]) _ rfl).mpr ?_
  refine ⟨trivial, fun s h => ?_⟩
  cases h
  refine ⟨fun c hc => trivial, fun s h => ?_⟩
  cases h
  refine ⟨fun c hc => trivial, fun s h => ?_⟩
  cases h
  refine ⟨fun c hc => trivial, fun s h => ?_⟩
  cases h
  exact ⟨fun c hc => trivial, fun s h => trivial⟩

end Examples

end PipelineIQ.Ai.TokenBudget
