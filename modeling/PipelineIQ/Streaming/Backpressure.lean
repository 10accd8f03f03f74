import Mathlib.Algebra.BigOperators.Group.List.Basic
import Mathlib.Algebra.GroupWithZero.Nat
import Mathlib.Logic.Function.Basic
import PipelineIQ.Lib.Machine
import PipelineIQ.Models
import PipelineIQ.Streaming.Daemon

namespace PipelineIQ.Streaming.Backpressure

open PipelineIQ.Lib.Machine PipelineIQ.Models PipelineIQ.Streaming.Daemon

def backpressureLagThreshold : Nat := 50000

/-! ### The loop with its broker -/

/-- The daemon of a run, the stored status, and the broker: the high watermark and the committed
offset of each partition. `consumes` counts the calls of the consumer, and `gateClosed` tells whether
the last iteration was ended by the lag. -/
structure World (Bytes : Type) where
  daemon : State Bytes := {}
  status : PipelineStatus := .STREAMING_ACTIVE
  high : Nat → Nat := fun _ => 0
  committed : Nat → Option Nat := fun _ => none
  assignment : List Nat := []
  consumes : Nat := 0
  gateClosed : Bool := false

/-- What fails in one iteration: the query of the status, the call for the assignment, or the
queries about some partitions. -/
structure Faults where
  status : Bool := false
  assignment : Bool := false
  partitions : List Nat := []

/-- Which of the calls behind the lag can fail. The committed offset of a partition whose queries
can fail may also be lost. -/
structure Unreliable where
  assignment : Bool
  partitions : Nat → Bool

def Faults.allowed (faults : Faults) (u : Unreliable) : Bool :=
  (!faults.assignment || u.assignment) && faults.partitions.all u.partitions

variable {Bytes Record Frame Row : Type}

def partitionLag (w : World Bytes) (p : Nat) : Nat :=
  match w.committed p with
  | some offset => w.high p - offset
  | none => 0

/-- The lag over the assigned partitions, without those whose queries fail. -/
def computeConsumerLag (w : World Bytes) (faults : Faults) : Nat :=
  if faults.assignment then 0
  else ((w.assignment.filter fun p => decide (p ∉ faults.partitions)).map (partitionLag w)).sum

/-- The status that keeps the loop going. -/
def streaming (status : PipelineStatus) : Bool :=
  decide (status = .STREAMING_ACTIVE) || decide (status = .STREAMING_PAUSED)

/-- A paused run waits for its resumption after every tenth batch. -/
def waits (w : World Bytes) : Bool :=
  decide (w.daemon.stats.batches % 10 = 0) && decide (0 < w.daemon.stats.batches) &&
    decide (w.status = .STREAMING_PAUSED)

inductive Event (Bytes Frame : Type) where
  | produce (partition count : Nat)
  | loseOffset (partition : Nat)
  | pause | resume | stop
  | iterate (faults : Faults) (assignment : List Nat) (messages : List (Delivery Bytes))
      (answers : Answers Frame)

/-- What the consumer can deliver: messages of assigned partitions that are on the broker. -/
def deliverable (cfg : Config Bytes Record Frame Row) (w : World Bytes) (assignment : List Nat)
    (messages : List (Delivery Bytes)) : Bool :=
  (validMessages messages).all fun m => decide (m.topic = cfg.topic) &&
    decide (m.part ∈ assignment) && decide (m.offset < w.high m.part)

/-- The committed offset is the one after the message. -/
def commitOffset (committed : Nat → Option Nat) : Option (Message Bytes) → Nat → Option Nat
  | some m => Function.update committed m.part (some (m.offset + 1))
  | none => committed

/-- Consuming also brings the assignment up to date. -/
def consume (cfg : Config Bytes Record Frame Row) (w : World Bytes) (assignment : List Nat)
    (messages : List (Delivery Bytes)) (answers : Answers Frame) : Option (World Bytes) :=
  if deliverable cfg w assignment messages then
    (pass cfg w.daemon (.poll messages answers)).map fun daemon => { w with
      daemon, assignment, gateClosed := false
      committed := commitOffset w.committed daemon.committed
      consumes := w.consumes + 1 }
  else none

/-- One iteration of the loop. -/
def iterate (cfg : Config Bytes Record Frame Row) (w : World Bytes) (faults : Faults)
    (assignment : List Nat) (messages : List (Delivery Bytes)) (answers : Answers Frame) :
    Option (World Bytes) :=
  if faults.status || !streaming w.status then
    (pass cfg w.daemon .stop).map fun daemon => { w with daemon, gateClosed := false }
  else if waits w then some { w with gateClosed := false }
  else if computeConsumerLag w faults > backpressureLagThreshold then
    (pass cfg w.daemon .backpressure).map fun daemon => { w with daemon, gateClosed := true }
  else consume cfg w assignment messages answers

def step (cfg : Config Bytes Record Frame Row) (u : Unreliable) (w : World Bytes) :
    Event Bytes Frame → Option (World Bytes)
  | .produce partition count =>
    some { w with high := Function.update w.high partition (w.high partition + count) }
  | .loseOffset partition =>
    if u.partitions partition then
      some { w with committed := Function.update w.committed partition none }
    else none
  | .pause => if w.status = .STREAMING_ACTIVE then some { w with status := .STREAMING_PAUSED } else none
  | .resume => if w.status = .STREAMING_PAUSED then some { w with status := .STREAMING_ACTIVE } else none
  | .stop => if streaming w.status then some { w with status := .STREAMING_STOPPED } else none
  | .iterate faults assignment messages answers =>
    if faults.allowed u then iterate cfg w faults assignment messages answers else none

/-! ### The gate -/

/-- Consumption is suspended because of the lag. -/
structure Suspended (w : World Bytes) : Prop where
  running : w.daemon.phase = .running
  status : streaming w.status = true
  closed : w.gateClosed = true

/-- A continuation of the loop consumes again. -/
def CanConsume (cfg : Config Bytes Record Frame Row) (u : Unreliable) (w : World Bytes) : Prop :=
  ∃ events t, run (step cfg u) w events = some t ∧ w.consumes < t.consumes

/-- The lag over the partitions whose queries never fail. -/
def reliableLag (u : Unreliable) (w : World Bytes) : Nat :=
  ((w.assignment.filter fun p => !u.partitions p).map (partitionLag w)).sum

variable {cfg : Config Bytes Record Frame Row} {u : Unreliable} {w t : World Bytes}
  {faults : Faults} {e : Event Bytes Frame}

theorem sum_filter_mono {l : List Nat} {p q : Nat → Bool} {f g : Nat → Nat}
    (hpq : ∀ x ∈ l, p x = true → q x = true) (hfg : ∀ x ∈ l, p x = true → f x ≤ g x) :
    ((l.filter p).map f).sum ≤ ((l.filter q).map g).sum := by
  induction l with
  | nil => exact Nat.le_refl _
  | cons x l ih =>
    have hrest := ih (fun y hy => hpq y (List.mem_cons_of_mem x hy))
      (fun y hy => hfg y (List.mem_cons_of_mem x hy))
    by_cases hx : p x = true
    · have hle := hfg x List.mem_cons_self hx
      rw [List.filter_cons_of_pos hx, List.filter_cons_of_pos (hpq x List.mem_cons_self hx)]
      simp only [List.map_cons, List.sum_cons]
      omega
    · rw [List.filter_cons_of_neg hx]
      by_cases hq : q x = true
      · rw [List.filter_cons_of_pos hq, List.map_cons, List.sum_cons]
        exact Nat.le_trans hrest (Nat.le_add_left _ _)
      · rw [List.filter_cons_of_neg hq]
        exact hrest

/-- Every reading that can be made counts the partitions whose queries never fail. -/
theorem reliableLag_le (hallowed : faults.allowed u = true) (hassignment : u.assignment = false) :
    reliableLag u w ≤ computeConsumerLag w faults := by
  rw [Faults.allowed, hassignment, Bool.or_false, Bool.and_eq_true, Bool.not_eq_true'] at hallowed
  rw [computeConsumerLag, hallowed.1, reliableLag]
  refine sum_filter_mono (fun p _ hp => decide_eq_true fun hmem => ?_) fun _ _ _ => Nat.le_refl _
  rw [List.all_eq_true.mp hallowed.2 p hmem] at hp
  cases hp

/-- While nothing is consumed, the assignment stays, and so do the committed offsets of the
partitions whose queries never fail, whose watermarks only grow. -/
structure Held (u : Unreliable) (w t : World Bytes) : Prop where
  consumes : t.consumes = w.consumes
  assignment : t.assignment = w.assignment
  committed : ∀ p, u.partitions p = false → t.committed p = w.committed p
  high : ∀ p, w.high p ≤ t.high p

theorem Held.reliableLag_le (h : Held u w t) : reliableLag u w ≤ reliableLag u t := by
  unfold reliableLag
  rw [h.assignment]
  refine sum_filter_mono (fun _ _ hp => hp) fun p _ hp => ?_
  rw [partitionLag, partitionLag, h.committed p (by simpa using hp)]
  cases w.committed p with
  | none => exact Nat.le_refl _
  | some offset => exact Nat.sub_le_sub_right (h.high p) offset

theorem Held.refl : Held u w w := ⟨rfl, rfl, fun _ _ => rfl, fun _ => Nat.le_refl _⟩

theorem Held.trans {v : World Bytes} (h : Held u w t) (h' : Held u t v) : Held u w v where
  consumes := h'.consumes.trans h.consumes
  assignment := h'.assignment.trans h.assignment
  committed p hp := (h'.committed p hp).trans (h.committed p hp)
  high p := Nat.le_trans (h.high p) (h'.high p)

theorem held_of_eq (hconsumes : t.consumes = w.consumes) (hassignment : t.assignment = w.assignment)
    (hcommitted : t.committed = w.committed) (hhigh : t.high = w.high) : Held u w t :=
  ⟨hconsumes, hassignment, fun _ _ => hcommitted ▸ rfl, fun _ => hhigh ▸ Nat.le_refl _⟩

/-- Above the threshold, no step consumes. -/
theorem held_step (hassignment : u.assignment = false)
    (hlag : backpressureLagThreshold < reliableLag u w) (hstep : step cfg u w e = some t) :
    Held u w t := by
  cases e with
  | produce partition count =>
    cases hstep
    refine ⟨rfl, rfl, fun _ _ => rfl, fun p => ?_⟩
    show w.high p ≤ Function.update w.high partition (w.high partition + count) p
    rw [Function.update_apply]
    split
    next hp =>
      subst hp
      exact Nat.le_add_right _ _
    next => exact Nat.le_refl _
  | loseOffset partition =>
    rw [step] at hstep
    split at hstep
    next hunreliable =>
      cases hstep
      refine ⟨rfl, rfl, fun p hp => ?_, fun _ => Nat.le_refl _⟩
      refine Function.update_of_ne ?_ ..
      rintro rfl
      exact absurd (hunreliable.symm.trans hp) (by decide)
    next => cases hstep
  | pause | resume | stop =>
    rw [step] at hstep
    split at hstep
    · cases hstep
      exact held_of_eq rfl rfl rfl rfl
    · cases hstep
  | iterate faults assignment messages answers =>
    rw [step] at hstep
    split at hstep
    next hallowed =>
      unfold iterate at hstep
      split at hstep
      · obtain ⟨daemon, -, rfl⟩ := Option.map_eq_some_iff.mp hstep
        exact held_of_eq rfl rfl rfl rfl
      · split at hstep
        · cases hstep
          exact held_of_eq rfl rfl rfl rfl
        · split at hstep
          · obtain ⟨daemon, -, rfl⟩ := Option.map_eq_some_iff.mp hstep
            exact held_of_eq rfl rfl rfl rfl
          next hopen =>
            exact absurd (Nat.lt_of_lt_of_le hlag (reliableLag_le hallowed hassignment)) hopen
    next => cases hstep

/-- Above the threshold, no continuation consumes. -/
theorem held_run {events : List (Event Bytes Frame)} (hassignment : u.assignment = false)
    (hlag : backpressureLagThreshold < reliableLag u w)
    (hrun : run (step cfg u) w events = some t) : Held u w t := by
  have hboth : Held u w t ∧ backpressureLagThreshold < reliableLag u t := by
    refine invariant_reachable
      (I := fun v => Held u w v ∧ backpressureLagThreshold < reliableLag u v) ?_ ⟨.refl, hlag⟩ hrun
    rintro v e v' ⟨hheld, hv⟩ hstep
    have hstep := held_step hassignment hv hstep
    exact ⟨hheld.trans hstep, Nat.lt_of_lt_of_le hv hstep.reliableLag_le⟩
  exact hboth.1

/-- The worst faults that can happen. -/
def allFaults (u : Unreliable) (w : World Bytes) : Faults where
  assignment := u.assignment
  partitions := w.assignment.filter u.partitions

theorem allFaults_allowed : (allFaults u w).allowed u = true := by
  rw [Faults.allowed, Bool.and_eq_true]
  constructor
  · cases h : u.assignment <;> simp [allFaults, h]
  · exact List.all_eq_true.mpr fun p hp => (List.mem_filter.mp hp).2

theorem computeConsumerLag_allFaults (h : u.assignment = true ∨ reliableLag u w ≤ backpressureLagThreshold) :
    computeConsumerLag w (allFaults u w) ≤ backpressureLagThreshold := by
  unfold computeConsumerLag
  split
  · exact Nat.zero_le _
  next hassignment =>
    refine Nat.le_trans (sum_filter_mono (fun p hp hnot => ?_) fun _ _ _ => Nat.le_refl _)
      (h.resolve_left hassignment)
    cases hu : u.partitions p with
    | false => rfl
    | true => exact absurd (List.mem_filter.mpr ⟨hp, hu⟩) (of_decide_eq_true hnot)

/-- An active loop whose reading is low enough consumes. -/
theorem canConsume_of_active (hrunning : w.daemon.phase = .running)
    (hstatus : w.status = .STREAMING_ACTIVE)
    (h : u.assignment = true ∨ reliableLag u w ≤ backpressureLagThreshold) : CanConsume cfg u w := by
  have hpass : ∃ daemon, Daemon.pass cfg w.daemon (.poll [] ⟨.ok, none, none, none, false⟩) =
      some daemon := by
    unfold Daemon.pass
    rw [hrunning]
    exact ⟨_, rfl⟩
  obtain ⟨daemon, hpass⟩ := hpass
  have hiterate : iterate cfg w (allFaults u w) w.assignment [] ⟨.ok, none, none, none, false⟩ =
      consume cfg w w.assignment [] ⟨.ok, none, none, none, false⟩ := by
    unfold iterate
    rw [if_neg (by simp [allFaults, streaming, hstatus]), if_neg (by simp [waits, hstatus]),
      if_neg (Nat.not_lt.mpr (computeConsumerLag_allFaults h))]
  obtain ⟨t, hstep, hconsumes⟩ : ∃ t, step cfg u w
      (.iterate (allFaults u w) w.assignment [] ⟨.ok, none, none, none, false⟩) = some t ∧
        t.consumes = w.consumes + 1 := by
    have hdeliverable : deliverable cfg w w.assignment [] = true := rfl
    rw [step, if_pos allFaults_allowed, hiterate, consume, if_pos hdeliverable, hpass]
    exact ⟨_, rfl, rfl⟩
  refine ⟨_, t, run_cons_iff.mpr ⟨t, hstep, run_nil⟩, ?_⟩
  rw [hconsumes]
  exact Nat.lt_succ_self _

theorem canConsume_of_suspended (hsuspended : Suspended w)
    (h : u.assignment = true ∨ reliableLag u w ≤ backpressureLagThreshold) : CanConsume cfg u w := by
  have hstatus := hsuspended.status
  rw [streaming, Bool.or_eq_true, decide_eq_true_eq, decide_eq_true_eq] at hstatus
  rcases hstatus with hactive | hpaused
  · exact canConsume_of_active hsuspended.running hactive h
  · have hresumed : CanConsume cfg u { w with status := .STREAMING_ACTIVE } :=
      canConsume_of_active hsuspended.running rfl h
    obtain ⟨events, t, hrun, hlt⟩ := hresumed
    exact ⟨.resume :: events, t, run_cons_iff.mpr ⟨_, if_pos hpaused, hrun⟩, hlt⟩

/-- A suspended loop can consume again exactly when the calls behind the lag can fail so far that
what is left is below the threshold. -/
theorem canConsume_iff (hsuspended : Suspended w) : CanConsume cfg u w ↔
    u.assignment = true ∨ reliableLag u w ≤ backpressureLagThreshold := by
  refine ⟨fun ⟨events, t, hrun, hlt⟩ => ?_, canConsume_of_suspended hsuspended⟩
  by_contra hnot
  rw [not_or, Bool.not_eq_true, Nat.not_le] at hnot
  have hheld := held_run hnot.1 hnot.2 hrun
  rw [hheld.consumes] at hlt
  exact Nat.lt_irrefl _ hlt

/-- Of the states that a loop comes through, the suspended ones that can consume again are those
whose lag on the partitions that always answer is not above the threshold. -/
theorem suspended_canConsume_iff (cfg : Config Bytes Record Frame Row) (u : Unreliable)
    (events : List (Event Bytes Frame)) :
    Always (step cfg u) (fun w => Suspended w → (CanConsume cfg u w ↔
      u.assignment = true ∨ reliableLag u w ≤ backpressureLagThreshold)) {} events :=
  fun _ _ _ _ _ hsuspended => canConsume_iff hsuspended

section Examples

/-- A pipeline that consumes numbers and publishes nothing. -/
def numbers : Config Nat Nat (List Nat) Nat where
  topic := "in"
  publishStep := none
  decode := .ok
  emptyFrame := []
  dataFrame := .ok
  isEmpty := List.isEmpty
  rows := id
  rowKey _ _ := none
  rowValue := id
  listSet := id

def quietly : Answers (List Nat) := ⟨.ok, none, none, none, false⟩

/-- A broker that always answers. -/
def reliable : Unreliable := ⟨false, fun _ => false⟩

/-- A message is consumed, and then so many are produced that the next iteration closes the gate. -/
def backlog : List (Event Nat (List Nat)) :=
  [.produce 0 1, .iterate {} [0] [⟨⟨"in", 0, 0, none, some 7⟩, none⟩] quietly, .produce 0 60000,
    .iterate {} [0] [] quietly]

/-- With a broker that always answers, the gate stays closed for good. -/
theorem backlog_wedges :
    ∃ w, run (step numbers reliable) {} backlog = some w ∧ Suspended w ∧
      ¬ CanConsume numbers reliable w := by
  obtain ⟨w, hrun, hsuspended, hlag⟩ : ∃ w, run (step numbers reliable) {} backlog = some w ∧
      Suspended w ∧ backpressureLagThreshold < reliableLag reliable w :=
    ⟨_, rfl, ⟨rfl, rfl, rfl⟩, by decide⟩
  refine ⟨w, hrun, hsuspended, fun ⟨events, t, ht, hlt⟩ => ?_⟩
  rw [(held_run rfl hlag ht).consumes] at hlt
  exact Nat.lt_irrefl _ hlt

end Examples

end PipelineIQ.Streaming.Backpressure
