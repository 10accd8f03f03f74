import Mathlib.Algebra.BigOperators.Group.List.Basic
import Mathlib.Algebra.GroupWithZero.Nat
import PipelineIQ.Streaming.OffsetWindow

namespace PipelineIQ.Streaming.DeadLetters

open PipelineIQ.Lib PipelineIQ.Lib.Fresh PipelineIQ.Streaming.Daemon
open PipelineIQ.Streaming.Conservation PipelineIQ.Streaming.OffsetWindow

deriving instance DecidableEq for Message

variable {Bytes Record Frame Row : Type}

/-! ### A topic, its daemon and the replays of its dead letters -/

/-- A call that sends dead letters again: how many it has read so far from the first one on, and
whether a poll has found nothing more. -/
structure Replay where
  limit : Nat
  replayed : Nat := 0
  ended : Bool := false

/-- The topic of a run in the order of writing, its daemon with the dead letters, and the replays
of these. -/
structure World (Bytes : Type) where
  log : List (Message Bytes) := []
  daemon : State Bytes := {}
  replays : List Replay := []

/-- The broker gives a message the next offset of its partition. -/
def append (topic : String) (log : List (Message Bytes)) (part : Nat) (key value : Option Bytes) :
    List (Message Bytes) :=
  log ++ [⟨topic, part, log.countP (·.part = part), key, value⟩]

/-- Each letter goes to the partition that the producer chooses for it. -/
def produceAgain (topic : String) (place : Nat → Nat) :
    List (DeadLetter Bytes) → List (Message Bytes) → List (Message Bytes)
  | [], log => log
  | letter :: letters, log => produceAgain topic place letters
      (append topic log (place log.length) letter.message.key letter.message.value)

/-- What a poll of a replay hands out, so many letters at most. -/
def Replay.batch (r : Replay) (handed : Nat) (letters : List (DeadLetter Bytes)) :
    List (DeadLetter Bytes) :=
  (letters.drop r.replayed).take (min handed (min (r.limit - r.replayed) 100))

inductive Event (Bytes Frame : Type) where
  | write (part : Nat) (key value : Option Bytes)
  | pass (p : Pass Bytes Frame)
  | replayDlq (limit : Nat)
  | replayDlqPoll (index handed : Nat) (place : Nat → Nat)

/-- A turn of the loop of a replay; a replay is left in any turn, once its 30 seconds are over. -/
def replayDlqPoll (topic : String) (handed : Nat) (place : Nat → Nat) (w : World Bytes)
    (index : Nat) (r : Replay) : Option (World Bytes) :=
  if r.ended ∨ r.limit ≤ r.replayed then none
  else
    let batch := r.batch handed w.daemon.deadLetters
    let r := { r with replayed := r.replayed + batch.length, ended := batch.isEmpty }
    some { w with
      log := produceAgain topic place batch w.log
      replays := w.replays.set index r }

/-- A poll of the daemon hands out messages of the topic. -/
def step [DecidableEq Bytes] (cfg : Config Bytes Record Frame Row) (w : World Bytes) :
    Event Bytes Frame → Option (World Bytes)
  | .write part key value => some { w with log := append cfg.topic w.log part key value }
  | .pass p =>
    if ∀ m ∈ polled p, m ∈ w.log then
      (Daemon.pass cfg w.daemon p).map fun daemon => { w with daemon }
    else none
  | .replayDlq limit => some { w with replays := w.replays ++ [{ limit }] }
  | .replayDlqPoll index handed place =>
    w.replays[index]?.bind (replayDlqPoll cfg.topic handed place w index)

/-- What a poll hands out again is still remembered, and no step of the pipeline raises. -/
def Smooth (s : State Bytes) : Pass Bytes Frame → Prop
  | .poll messages answers =>
    (∀ m ∈ validMessages messages, m.offsetKey ∈ s.consumed.map Message.offsetKey →
      m.offsetKey ∈ s.processedOffsets) ∧ ∀ df, ∃ out, answers.steps df = .ok out
  | _ => True

/-- Every pass among the events is smooth. -/
def SmoothPass (w : World Bytes) : Event Bytes Frame → Prop
  | .pass p => Smooth w.daemon p
  | _ => True

/-- The daemon has processed the whole topic. -/
def CaughtUp (w : World Bytes) : Prop :=
  w.daemon.phase = .running ∧ ∀ m ∈ w.log, m.offsetKey ∈ w.daemon.consumed.map Message.offsetKey

/-- A message whose value does not decode. -/
def malformed (cfg : Config Bytes Record Frame Row) (m : Message Bytes) : Bool :=
  m.value.any fun v => !(cfg.decode v).isOk

/-- A message from outside whose value does not decode. -/
def malformedWrite (cfg : Config Bytes Record Frame Row) : Event Bytes Frame → Bool
  | .write _ _ value => value.any fun v => !(cfg.decode v).isOk
  | _ => false

/-- How many letters the replays have sent again. -/
def resent (w : World Bytes) : Nat := (w.replays.map Replay.replayed).sum

variable {cfg : Config Bytes Record Frame Row} {answers : Answers Frame} {s t : State Bytes}
  {batch : List (Message Bytes)} {w v : World Bytes} {e : Event Bytes Frame}

/-! ### What a pass adds to the dead letters -/

theorem deserialize_malformed (batch : List (Message Bytes)) :
    (deserialize cfg batch).2.map Prod.fst = batch.filter (malformed cfg) := by
  induction batch with
  | nil => rfl
  | cons m batch ih =>
    rw [deserialize, List.filter_cons, malformed]
    cases hv : m.value with
    | none => exact ih
    | some v =>
      cases hd : cfg.decode v with
      | ok record =>
        simp only [Option.any_some, hd, Except.isOk, Except.toBool, Bool.not_true,
          Bool.false_eq_true, ↓reduceIte]
        exact ih
      | error e =>
        simp only [Option.any_some, hd, Except.isOk, Except.toBool, Bool.not_false, ↓reduceIte,
          List.map_cons]
        exact congrArg _ ih

theorem commit_deadLetters : (commit answers batch s).deadLetters = s.deadLetters := by
  rw [commit]
  split <;> rfl

theorem publishOutput_deadLetters (df : Frame) :
    (publishOutput cfg answers batch df s).deadLetters = s.deadLetters := by
  rw [publishOutput]
  split
  · rfl
  · split
    · rfl
    · split
      · next hpub => exact congrArg (fun r => r.1.deadLetters) hpub.symm
      · next hpub => exact congrArg (fun r => r.1.deadLetters) hpub.symm

theorem finishBatch_deadLetters (df : Frame) :
    (finishBatch cfg answers batch df s).deadLetters = s.deadLetters := by
  rw [finishBatch, commit_deadLetters]
  exact publishOutput_deadLetters df

/-- Letters that are added are of malformed messages. -/
def AddsMalformed (cfg : Config Bytes Record Frame Row) (s t : State Bytes) : Prop :=
  ∃ letters, t.deadLetters = s.deadLetters ++ letters ∧
    ∀ letter ∈ letters, malformed cfg letter.message = true

theorem AddsMalformed.of_eq (h : t.deadLetters = s.deadLetters) : AddsMalformed cfg s t :=
  ⟨[], by rw [h, List.append_nil], List.forall_mem_nil _⟩

theorem produceAll_subset {α : Type} (raises : Option Nat) (xs : List α) :
    (produceAll raises xs).1 ⊆ xs := by
  cases raises with
  | none => exact List.Subset.refl _
  | some n =>
    by_cases hlt : n < xs.length
    · simp only [produceAll, hlt, ↓reduceIte]
      exact List.take_subset _ _
    · simp only [produceAll, hlt, ↓reduceIte]
      exact List.Subset.refl _

theorem addsMalformed_sendDlq {raises : Option Nat} {messages : List (Message Bytes)}
    {error : String} {ok : Bool} (hmessages : ∀ m ∈ messages, malformed cfg m = true)
    (h : sendDlq cfg raises messages error s = (t, ok)) : AddsMalformed cfg s t := by
  have ht : (sendDlq cfg raises messages error s).1 = t := congrArg Prod.fst h
  rw [← ht]
  refine ⟨_, rfl, fun letter hletter => ?_⟩
  obtain ⟨m, hm, rfl⟩ := List.mem_map.mp hletter
  exact hmessages m (produceAll_subset _ _ hm)

/-- A batch whose steps do not raise leaves its malformed messages; all of them, where it does not
end the daemon. -/
theorem processBatch_deadLetters (hsteps : ∀ df, ∃ out, answers.steps df = .ok out)
    (h : processBatch cfg answers batch s = t) :
    AddsMalformed cfg s t ∧ (t.phase = .running → t.deadLetters.map DeadLetter.message =
      s.deadLetters.map DeadLetter.message ++ batch.filter (malformed cfg)) := by
  have hmalformed : ∀ m ∈ (deserialize cfg batch).2.map Prod.fst, malformed cfg m = true := by
    rw [deserialize_malformed]
    exact fun m hm => (List.mem_filter.mp hm).2
  rw [processBatch] at h
  dsimp only at h
  split at h
  · subst h
    exact ⟨.of_eq rfl, fun hrun => by cases hrun⟩
  · next df hdf =>
    split at h
    · next u hsend =>
      subst h
      obtain ⟨letters, hletters, hall⟩ := addsMalformed_sendDlq hmalformed hsend
      exact ⟨⟨letters, hletters, hall⟩, fun hrun => by cases hrun⟩
    · next u hsend =>
      have hadds := addsMalformed_sendDlq hmalformed hsend
      obtain ⟨letters, hletters, rfl⟩ := sendDlq_ok hsend
      obtain ⟨out, hout⟩ := hsteps df
      have hmap : (s.deadLetters ++ letters).map DeadLetter.message =
          s.deadLetters.map DeadLetter.message ++ batch.filter (malformed cfg) := by
        rw [List.map_append, hletters, deserialize_malformed]
      have hsame : t.deadLetters = s.deadLetters ++ letters := by
        rw [hout] at h
        split at h
        · rw [← h, commit_deadLetters]
        · dsimp only at h
          rw [← h, finishBatch_deadLetters]
      rw [AddsMalformed, hsame]
      exact ⟨hadds, fun _ => hmap⟩

/-- The messages that a pass processes. -/
def processed (s : State Bytes) : Pass Bytes Frame → List (Message Bytes)
  | .poll messages _ => deduped s messages
  | _ => []

theorem pass_deadLetters {p : Pass Bytes Frame} (hsmooth : Smooth s p)
    (h : Daemon.pass cfg s p = some t) :
    AddsMalformed cfg s t ∧ (t.phase = .running → t.deadLetters.map DeadLetter.message =
      s.deadLetters.map DeadLetter.message ++ (processed s p).filter (malformed cfg)) := by
  rw [Daemon.pass, (pass_spec h).1] at h
  cases p with
  | stop =>
    cases h
    exact ⟨.of_eq rfl, fun hrun => by cases hrun⟩
  | backpressure =>
    cases h
    exact ⟨.of_eq rfl, fun _ => (List.append_nil _).symm⟩
  | poll messages answers =>
    dsimp only at h
    rw [processed]
    split at h
    · next hnil =>
      cases h
      change deduped s messages = [] at hnil
      rw [hnil]
      exact ⟨.of_eq rfl, fun _ => (List.append_nil _).symm⟩
    · have hbatch := processBatch_deadLetters hsmooth.2 (Option.some.inj h)
      exact hbatch

/-! ### The invariant -/

/-- Offsets are given once, what is remembered was processed, only malformed messages are among the
dead letters, each one that a running daemon processed once, and no replay has read too far. -/
structure Kept (cfg : Config Bytes Record Frame Row) (w : World Bytes) : Prop where
  below : ∀ m ∈ w.log, m.topic = cfg.topic ∧ m.offset < w.log.countP (·.part = m.part)
  written : (w.log.map Message.offsetKey).Nodup
  once : (w.daemon.consumed.map Message.offsetKey).Nodup
  remembered : ∀ k ∈ w.daemon.processedOffsets, k ∈ w.daemon.consumed.map Message.offsetKey
  delivered : ∀ m ∈ w.daemon.consumed, m ∈ w.log
  poison : ∀ letter ∈ w.daemon.deadLetters, malformed cfg letter.message = true
  letters : w.daemon.phase = .running → (w.daemon.deadLetters.map DeadLetter.message).Perm
    (w.daemon.consumed.filter (malformed cfg))
  read : ∀ r ∈ w.replays, r.replayed ≤ r.limit ∧ r.replayed ≤ w.daemon.deadLetters.length

theorem kept_start : Kept cfg ({} : World Bytes) where
  below := List.forall_mem_nil _
  written := .nil
  once := .nil
  remembered := List.forall_mem_nil _
  delivered := List.forall_mem_nil _
  poison := List.forall_mem_nil _
  letters _ := .nil
  read := List.forall_mem_nil _

theorem Kept.append (h : Kept cfg w) (part : Nat) (key value : Option Bytes) :
    Kept cfg { w with log := append cfg.topic w.log part key value } := by
  have hcount : ∀ part', w.log.countP (·.part = part') ≤
      (DeadLetters.append cfg.topic w.log part key value).countP (·.part = part') := fun part' =>
    (List.sublist_append_left _ _).countP_le
  refine { h with below := ?_, written := ?_, delivered := ?_ }
  · intro m hm
    rw [DeadLetters.append, List.mem_append, List.mem_singleton] at hm
    obtain hold | rfl := hm
    · exact ⟨(h.below m hold).1, Nat.lt_of_lt_of_le (h.below m hold).2 (hcount m.part)⟩
    · refine ⟨rfl, ?_⟩
      rw [DeadLetters.append, List.countP_append, List.countP_singleton,
        if_pos (decide_eq_true rfl)]
      exact Nat.lt_succ_self _
  · rw [DeadLetters.append, List.map_append, List.map_singleton, List.nodup_append]
    refine ⟨h.written, List.nodup_singleton _, ?_⟩
    rintro k hk k' hk' rfl
    obtain ⟨m, hm, rfl⟩ := List.mem_map.mp hk
    rw [List.mem_singleton, Message.offsetKey, Message.offsetKey, Prod.mk.injEq,
      Prod.mk.injEq] at hk'
    obtain ⟨-, hpart, hoffset⟩ := hk'
    have hlt := (h.below m hm).2
    rw [hoffset, hpart] at hlt
    exact Nat.lt_irrefl _ hlt
  · exact fun m hm => List.mem_append_left _ (h.delivered m hm)

theorem Kept.produceAgain (h : Kept cfg w) (place : Nat → Nat) (letters : List (DeadLetter Bytes)) :
    Kept cfg { w with log := produceAgain cfg.topic place letters w.log } := by
  induction letters generalizing w with
  | nil => exact h
  | cons letter letters ih => exact ih (h.append _ _ _)

/-- With every redelivery remembered, a pass processes what was not processed before. -/
theorem processed_eq_fresh (hremembered : ∀ k ∈ s.processedOffsets,
    k ∈ s.consumed.map Message.offsetKey) {p : Pass Bytes Frame} (hsmooth : Smooth s p) :
    processed s p = fresh Message.offsetKey (s.consumed.map Message.offsetKey) (polled p) := by
  cases p with
  | stop => rfl
  | backpressure => rfl
  | poll messages answers =>
    apply fresh_congr
    exact fun m hm => ⟨hremembered _, hsmooth.1 m hm⟩

theorem Kept.pass (h : Kept cfg w) {p : Pass Bytes Frame} (hsmooth : Smooth w.daemon p)
    (hpolled : ∀ m ∈ polled p, m ∈ w.log) (hpass : Daemon.pass cfg w.daemon p = some t) :
    Kept cfg { w with daemon := t } := by
  obtain ⟨hrun, hoffsets, hconsumed⟩ := pass_spec hpass
  obtain ⟨⟨letters, happend, hmalformed⟩, hletters⟩ := pass_deadLetters hsmooth hpass
  have hprocessed := processed_eq_fresh h.remembered hsmooth
  refine { h with
    once := ?_, remembered := ?_, delivered := ?_, poison := ?_, letters := ?_, read := ?_ }
  · rw [hconsumed, List.map_append]
    exact nodup_append_fresh h.once _
  · intro k hk
    dsimp only at hk ⊢
    rw [hoffsets] at hk
    rw [hconsumed, List.map_append, ← hprocessed, List.mem_append]
    cases p with
    | stop | backpressure => exact .inl (h.remembered k hk)
    | poll messages answers =>
      obtain hold | hnew := List.mem_append.mp (mem_trim hk)
      · exact .inl (h.remembered k hold)
      · exact .inr hnew
  · intro m hm
    rw [hconsumed, List.mem_append] at hm
    obtain hold | hnew := hm
    · exact h.delivered m hold
    · exact hpolled m (mem_of_mem_fresh hnew).1
  · intro letter hletter
    rw [happend, List.mem_append] at hletter
    exact hletter.elim (h.poison letter) (hmalformed letter)
  · intro hrunning
    rw [hletters hrunning, hconsumed, List.filter_append, ← hprocessed]
    exact (h.letters hrun).append_right _
  · intro r hr
    dsimp only
    rw [happend, List.length_append]
    exact ⟨(h.read r hr).1, Nat.le_add_right_of_le (h.read r hr).2⟩

theorem Replay.length_batch_le (r : Replay) (handed : Nat) (letters : List (DeadLetter Bytes)) :
    (r.batch handed letters).length ≤ min (r.limit - r.replayed) (letters.length - r.replayed) := by
  rw [Replay.batch, List.length_take, List.length_drop]
  omega

/-! ### The growth of the dead letters -/

/-- A daemon that has caught up has sent each malformed message of the topic to the dead letters
once, whoever wrote it. -/
theorem Kept.letters_perm (h : Kept cfg w) (hcaught : CaughtUp w) :
    (w.daemon.deadLetters.map DeadLetter.message).Perm (w.log.filter (malformed cfg)) := by
  have hall : w.daemon.consumed.Perm w.log := by
    rw [List.perm_ext_iff_of_nodup (.of_map _ h.once) (.of_map _ h.written)]
    refine fun m => ⟨h.delivered m, fun hm => ?_⟩
    obtain ⟨c, hc, hkey⟩ := List.mem_map.mp (hcaught.2 m hm)
    rw [← List.inj_on_of_nodup_map h.written (h.delivered c hc) hm hkey]
    exact hc
  exact (h.letters hcaught.1).trans (hall.filter _)

theorem Kept.length_letters (h : Kept cfg w) (hcaught : CaughtUp w) :
    w.daemon.deadLetters.length = w.log.countP (malformed cfg) := by
  have hlen := (h.letters_perm hcaught).length_eq
  rwa [List.length_map, ← List.countP_eq_length_filter] at hlen

theorem countP_produceAgain (place : Nat → Nat) {letters : List (DeadLetter Bytes)}
    (hletters : ∀ letter ∈ letters, malformed cfg letter.message = true)
    (log : List (Message Bytes)) :
    (produceAgain cfg.topic place letters log).countP (malformed cfg) =
      log.countP (malformed cfg) + letters.length := by
  induction letters generalizing log with
  | nil => rfl
  | cons letter letters ih =>
    rw [List.forall_mem_cons] at hletters
    have hletter : ∀ topic part offset key, malformed cfg
        (⟨topic, part, offset, key, letter.message.value⟩ : Message Bytes) = true :=
      fun _ _ _ _ => hletters.1
    rw [produceAgain, ih hletters.2, DeadLetters.append, List.countP_append,
      List.countP_singleton, if_pos (hletter _ _ _ _), List.length_cons]
    omega

/-- A poll of a replay sends as many malformed messages again as it counts. -/
theorem countP_replayDlqPoll (h : Kept cfg w) {index handed : Nat} {place : Nat → Nat} {r : Replay}
    (hr : w.replays[index]? = some r)
    (hpoll : replayDlqPoll cfg.topic handed place w index r = some v) :
    v.log.countP (malformed cfg) + resent w = w.log.countP (malformed cfg) + resent v := by
  rw [replayDlqPoll] at hpoll
  split at hpoll
  · cases hpoll
  · cases hpoll
    obtain ⟨hlt, rfl⟩ := List.getElem?_eq_some_iff.mp hr
    have hbatch : ∀ letter ∈ w.replays[index].batch handed w.daemon.deadLetters,
        malformed cfg letter.message = true := fun letter hletter =>
      h.poison letter (List.mem_of_mem_drop (List.mem_of_mem_take hletter))
    have hold := congrArg List.sum (congrArg (List.map Replay.replayed)
      (List.set_getElem_self hlt))
    rw [countP_produceAgain place hbatch, resent, resent, ← hold, List.map_set, List.map_set,
      List.sum_set, List.sum_set]
    simp only [List.length_map, hlt, ↓reduceIte]
    omega

theorem Kept.replayDlqPoll (h : Kept cfg w) {index handed : Nat} {place : Nat → Nat} {r : Replay}
    (hr : w.replays[index]? = some r)
    (hpoll : replayDlqPoll cfg.topic handed place w index r = some v) : Kept cfg v := by
  rw [DeadLetters.replayDlqPoll] at hpoll
  split at hpoll
  · cases hpoll
  · next hgoing =>
    cases hpoll
    refine { h.produceAgain place (r.batch handed w.daemon.deadLetters) with read := ?_ }
    intro r' hr'
    obtain hold | rfl := List.mem_or_eq_of_mem_set hr'
    · exact h.read r' hold
    · have hread := h.read r (List.mem_of_getElem? hr)
      have hlength := r.length_batch_le handed w.daemon.deadLetters
      dsimp only
      omega

variable [DecidableEq Bytes]

theorem kept_step (h : Kept cfg w) (hsmooth : SmoothPass w e) (hstep : step cfg w e = some v) :
    Kept cfg v := by
  cases e with
  | write part key value =>
    cases hstep
    exact h.append part key value
  | pass p =>
    rw [step] at hstep
    split at hstep
    · next hpolled =>
      obtain ⟨t, hpass, rfl⟩ := Option.map_eq_some_iff.mp hstep
      exact h.pass hsmooth hpolled hpass
    · cases hstep
  | replayDlq limit =>
    cases hstep
    refine { h with read := fun r hr => ?_ }
    obtain hold | rfl := List.mem_append.mp hr |>.imp_right List.mem_singleton.mp
    · exact h.read r hold
    · exact ⟨Nat.zero_le _, Nat.zero_le _⟩
  | replayDlqPoll index handed place =>
    obtain ⟨r, hr, hpoll⟩ := Option.bind_eq_some_iff.mp hstep
    exact h.replayDlqPoll hr hpoll

/-- What a step adds to the malformed messages of the topic is written from outside or sent
again. -/
theorem countP_step (h : Kept cfg w) (hstep : step cfg w e = some v) :
    v.log.countP (malformed cfg) + resent w =
      w.log.countP (malformed cfg) + resent v + [e].countP (malformedWrite cfg) := by
  cases e with
  | write part key value =>
    cases hstep
    have hone : [(.write part key value : Event Bytes Frame)].countP (malformedWrite cfg) =
        [(⟨cfg.topic, part, w.log.countP (·.part = part), key, value⟩ : Message Bytes)].countP
          (malformed cfg) := by
      rw [List.countP_singleton, List.countP_singleton]
      rfl
    rw [hone, DeadLetters.append, List.countP_append]
    exact Nat.add_right_comm _ _ _
  | pass p =>
    rw [step] at hstep
    split at hstep
    · obtain ⟨t, -, rfl⟩ := Option.map_eq_some_iff.mp hstep
      rfl
    · cases hstep
  | replayDlq limit =>
    cases hstep
    have hzero : resent { w with replays := w.replays ++ [{ limit }] } = resent w := by
      rw [resent, List.map_append, List.sum_append]
      rfl
    rw [hzero]
    rfl
  | replayDlqPoll index handed place =>
    obtain ⟨r, hr, hpoll⟩ := Option.bind_eq_some_iff.mp hstep
    exact countP_replayDlqPoll h hr hpoll

theorem countP_run {events : List (Event Bytes Frame)} (h : Kept cfg w)
    (hsmooth : Machine.Along (step cfg) SmoothPass w events)
    (hrun : Machine.run (step cfg) w events = some v) :
    v.log.countP (malformed cfg) + resent w =
      w.log.countP (malformed cfg) + resent v + events.countP (malformedWrite cfg) := by
  induction events generalizing w with
  | nil =>
    cases hrun
    rfl
  | cons e events ih =>
    obtain ⟨u, hu, hrest⟩ := Machine.run_cons_iff.mp hrun
    have hstep := countP_step h hu
    have hlater := ih (kept_step h hsmooth.1 hu) (hsmooth.2 u hu) hrest
    rw [← List.singleton_append, List.countP_append]
    omega

/-- In every sequence of writes, passes whose steps do not raise, and replays that are polled
between them: whenever the daemon has caught up, its dead letters are the malformed messages of the
topic, each one once; there are as many as were written from outside and sent again; and no replay
has sent more than its limit or more than there are. -/
theorem dead_letters_accounted (cfg : Config Bytes Record Frame Row)
    (events : List (Event Bytes Frame)) (hsmooth : Machine.Along (step cfg) SmoothPass {} events)
    (hrun : Machine.run (step cfg) {} events = some w) (hcaught : CaughtUp w) :
    (w.daemon.deadLetters.map DeadLetter.message).Perm (w.log.filter (malformed cfg)) ∧
      w.daemon.deadLetters.length = events.countP (malformedWrite cfg) + resent w ∧
      ∀ r ∈ w.replays, r.replayed ≤ min r.limit w.daemon.deadLetters.length := by
  have hkept : Kept cfg w :=
    Machine.invariant_run (fun _ _ _ h hs hstep => kept_step h hs hstep) kept_start hsmooth hrun
  have hcount := countP_run kept_start hsmooth hrun
  refine ⟨hkept.letters_perm hcaught, ?_, fun r hr => Nat.le_min.mpr (hkept.read r hr)⟩
  have hstart : resent ({} : World Bytes) = 0 := rfl
  rw [hstart, Nat.add_zero, List.countP_nil, Nat.zero_add] at hcount
  rw [hkept.length_letters hcaught, hcount, Nat.add_comm]

section Examples

/-- A poll of a value that does not decode. -/
def zero (offset : Nat) : Pass Nat (List Nat) :=
  .poll [delivery offset 0] { steps := .ok }

theorem smooth_zero {s : State Nat} {offset : Nat}
    (h : ("orders", 0, offset) ∉ s.consumed.map Message.offsetKey) : Smooth s (zero offset) := by
  refine ⟨fun m hm hold => ?_, fun df => ⟨df, rfl⟩⟩
  obtain ⟨d, hd, rfl⟩ := List.mem_map.mp hm
  rw [List.mem_singleton.mp (List.mem_filter.mp hd).1] at hold
  exact absurd hold h

/-- A replay that goes on while the daemon runs reads the letter that it has caused. -/
def chase : List (Event Nat (List Nat)) :=
  [.write 0 none (some 0), .pass (zero 0), .replayDlq 100, .replayDlqPoll 0 100 fun _ => 0,
    .pass (zero 1), .replayDlqPoll 0 100 fun _ => 0, .pass (zero 2)]

def chased : World Nat := (Machine.run (step copying) {} chase).getD {}

theorem dead_letters_accounted_chased :
    chased.daemon.deadLetters.length = chase.countP (malformedWrite copying) + resent chased := by
  have hsmooth : Machine.Along (step copying) SmoothPass {} chase := by
    refine Machine.along_cons trivial rfl (Machine.along_cons (smooth_zero ?_) rfl
      (Machine.along_cons trivial rfl (Machine.along_cons trivial rfl
        (Machine.along_cons (smooth_zero ?_) rfl (Machine.along_cons trivial rfl
          (Machine.along_cons (smooth_zero ?_) rfl trivial))))))
    all_goals decide
  exact (dead_letters_accounted copying chase hsmooth rfl ⟨rfl, by decide⟩).2.1

end Examples

end PipelineIQ.Streaming.DeadLetters
