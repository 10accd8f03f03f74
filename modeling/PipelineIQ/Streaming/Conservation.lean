import Mathlib.Data.List.Perm.Basic
import PipelineIQ.Lib.Machine
import PipelineIQ.Streaming.Daemon

namespace PipelineIQ.Streaming.Conservation

open PipelineIQ.Lib PipelineIQ.Lib.Fresh PipelineIQ.Streaming.Daemon

variable {Bytes Record Frame Row : Type} {cfg : Config Bytes Record Frame Row}
  {answers : Answers Frame} {s t : State Bytes} {batch : List (Message Bytes)}

/-- The messages handed to the output producer or to the dead letters, as often as
they were. -/
def handledKeys (s : State Bytes) : List OffsetKey :=
  (s.handedOver ++ s.deadLetters.map DeadLetter.message).map Message.offsetKey

/-- What a commit of this message's offset has to guarantee. -/
def Conserved (s : State Bytes) (m : Message Bytes) : Prop :=
  (∀ c ∈ s.consumed, c.topic = m.topic → c.part = m.part → c.offset ≤ m.offset →
    (handledKeys s).count c.offsetKey = 1) ∧
  s.stats.messages + s.stats.failed = s.consumed.length

/-- Everything consumed is handled once and counted. -/
structure Balanced (s : State Bytes) : Prop where
  nodup : (s.consumed.map Message.offsetKey).Nodup
  remembered : ∀ k ∈ s.processedOffsets, k ∈ s.consumed.map Message.offsetKey
  handled : (handledKeys s).Perm (s.consumed.map Message.offsetKey)
  counted : s.stats.messages + s.stats.failed = s.consumed.length

/-- Everything consumed but the batch in work is handled once and counted. -/
structure Pending (s : State Bytes) (batch : List (Message Bytes)) : Prop where
  nodup : (s.consumed.map Message.offsetKey).Nodup
  remembered : ∀ k ∈ s.processedOffsets, k ∈ s.consumed.map Message.offsetKey
  handled : (handledKeys s ++ batch.map Message.offsetKey).Perm
    (s.consumed.map Message.offsetKey)
  counted : s.stats.messages + s.stats.failed + batch.length = s.consumed.length
  uncommitted : s.committed = none

/-- A pass ends balanced, or ends the loop without a commit. -/
def Settled (s : State Bytes) : Prop :=
  s.phase ≠ .running ∧ s.committed = none ∨ Balanced s

theorem Balanced.conserved (h : Balanced s) (m : Message Bytes) : Conserved s m := by
  refine ⟨?_, h.counted⟩
  intro c hc _ _ _
  rw [h.handled.count_eq]
  exact List.count_eq_one_of_mem h.nodup (List.mem_map.mpr ⟨c, hc, rfl⟩)

/-- Handling and counting the batch settles what was pending. -/
theorem Pending.balanced (h : Pending s batch) (hc : t.consumed = s.consumed)
    (hp : t.processedOffsets = s.processedOffsets)
    (hh : (handledKeys t).Perm (handledKeys s ++ batch.map Message.offsetKey))
    (hn : t.stats.messages + t.stats.failed =
      s.stats.messages + s.stats.failed + batch.length) : Balanced t := by
  refine ⟨?_, ?_, ?_, ?_⟩
  · rw [hc]
    exact h.nodup
  · rw [hc, hp]
    exact h.remembered
  · rw [hc]
    exact hh.trans h.handled
  · rw [hc, hn, h.counted]

theorem produceAll_of_ok {α : Type} {raises : Option Nat} {xs : List α}
    (h : (produceAll raises xs).2 = true) : (produceAll raises xs).1 = xs := by
  cases raises with
  | none => rfl
  | some n =>
    by_cases hlt : n < xs.length
    · simp [produceAll, hlt] at h
    · simp [produceAll, hlt]

/-- The dead letters of a batch that went through, and nothing else. -/
theorem sendDlq_ok {raises : Option Nat} {messages : List (Message Bytes)} {error : String}
    (h : sendDlq cfg raises messages error s = (t, true)) :
    ∃ letters : List (DeadLetter Bytes), letters.map DeadLetter.message = messages ∧
      t = { s with deadLetters := s.deadLetters ++ letters } := by
  have hok : (produceAll raises messages).2 = true := congrArg Prod.snd h
  have ht := congrArg Prod.fst h
  simp only [sendDlq, produceAll_of_ok hok] at ht
  refine ⟨_, ?_, ht.symm⟩
  rw [List.map_map]
  exact List.map_id messages

theorem sendDlq_failed {raises : Option Nat} {messages : List (Message Bytes)} {error : String}
    (h : sendDlq cfg raises messages error s = (t, false)) : t.committed = s.committed := by
  have ht : (sendDlq cfg raises messages error s).1 = t := congrArg Prod.fst h
  rw [← ht]
  rfl

theorem handled_append_deadLetters (letters : List (DeadLetter Bytes)) :
    handledKeys { s with deadLetters := s.deadLetters ++ letters } =
      handledKeys s ++ (letters.map DeadLetter.message).map Message.offsetKey := by
  simp only [handledKeys, List.map_append, List.append_assoc]

theorem handled_append_handedOver (messages : List (Message Bytes)) :
    (handledKeys { s with handedOver := s.handedOver ++ messages }).Perm
      (handledKeys s ++ messages.map Message.offsetKey) := by
  simp only [handledKeys, List.map_append, List.append_assoc]
  exact List.Perm.append_left _ List.perm_append_comm

theorem settled_commit (h : Balanced s) (hc : s.committed = none) :
    Settled (commit answers batch s) := by
  rw [commit]
  split
  · exact .inl ⟨by simp, hc⟩
  · exact .inr ⟨h.nodup, h.remembered, h.handled, h.counted⟩

/-- The messages a frame is built from and the malformed ones are the batch, when
every message has a value. -/
theorem decoded_append_malformed (batch : List (Message Bytes)) (h : ∀ m ∈ batch, m.value ≠ none) :
    (decodedMessages cfg batch ++ (deserialize cfg batch).2.map Prod.fst).Perm batch := by
  induction batch with
  | nil => exact .refl []
  | cons m batch ih =>
    have hrest := ih fun a ha => h a (List.mem_cons_of_mem m ha)
    obtain ⟨v, hv⟩ := Option.ne_none_iff_exists'.mp (h m (List.mem_cons_self ..))
    cases hd : cfg.decode v with
    | ok record =>
      have hdec : decodedMessages cfg (m :: batch) = m :: decodedMessages cfg batch := by
        simp [decodedMessages, hv, hd, Except.isOk, Except.toBool]
      have hmal : (deserialize cfg (m :: batch)).2 = (deserialize cfg batch).2 := by
        simp only [deserialize, hv, hd]
      rw [hdec, hmal]
      exact hrest.cons m
    | error e =>
      have hdec : decodedMessages cfg (m :: batch) = decodedMessages cfg batch := by
        simp [decodedMessages, hv, hd, Except.isOk, Except.toBool]
      have hmal : (deserialize cfg (m :: batch)).2 = (m, e) :: (deserialize cfg batch).2 := by
        simp only [deserialize, hv, hd]
      rw [hdec, hmal, List.map_cons]
      exact List.perm_middle.trans (hrest.cons m)

/-- The steps failed and nothing of the batch was handled yet. -/
theorem settled_failBatch (h : Pending s batch) (error : String) :
    Settled (failBatch cfg answers batch error s) := by
  rw [failBatch]
  split
  · next u hsend => exact .inl ⟨by simp, (sendDlq_failed hsend).trans h.uncommitted⟩
  · next u hsend =>
    obtain ⟨letters, hl, rfl⟩ := sendDlq_ok hsend
    have hb : ∀ v : State Bytes, v.consumed = s.consumed → v.processedOffsets = s.processedOffsets →
        v.handedOver = s.handedOver → v.deadLetters = s.deadLetters ++ letters →
        v.stats.messages = s.stats.messages → v.stats.failed = s.stats.failed + batch.length →
        Balanced v := by
      intro v hc hp ho hd hm hf
      apply h.balanced hc hp
      · have hv : handledKeys v = handledKeys { s with deadLetters := s.deadLetters ++ letters } := by
          simp only [handledKeys, ho, hd]
        rw [hv, handled_append_deadLetters, hl]
      · omega
    dsimp only
    split
    · exact .inr (hb _ rfl rfl rfl rfl rfl rfl)
    · apply settled_commit
      · exact hb _ rfl rfl rfl rfl rfl rfl
      · exact h.uncommitted

/-- What it takes for a batch to be conserved: its frame is not empty; if its steps
raise, no message of it is malformed; if they return, every message has a value and
their output is published, or is empty. -/
def CleanBatch (cfg : Config Bytes Record Frame Row) (answers : Answers Frame)
    (batch : List (Message Bytes)) : Prop :=
  ∀ df, buildFrame cfg (deserialize cfg batch).1 = .ok df →
    cfg.isEmpty df = false ∧
    (∀ e, answers.steps df = .error e → (deserialize cfg batch).2 = []) ∧
    ∀ out, answers.steps df = .ok out → (∀ m ∈ batch, m.value ≠ none) ∧
      (∃ step, cfg.publishStep = some step) ∧
      (cfg.isEmpty out = true ∨ ∀ n, answers.publishRaises = some n → (cfg.rows out).length ≤ n)

/-- A batch is clean, and what is delivered again is still remembered. -/
def Clean (cfg : Config Bytes Record Frame Row) (s : State Bytes) : Pass Bytes Frame → Prop
  | .stop | .backpressure => True
  | .poll messages answers =>
    (∀ m ∈ validMessages messages, m.offsetKey ∈ s.consumed.map Message.offsetKey →
      m.offsetKey ∈ s.processedOffsets) ∧
    (deduped s messages ≠ [] → CleanBatch cfg answers (deduped s messages))

/-- A published output hands over the decoded messages of its batch. -/
theorem publishOutput_ok (batch : List (Message Bytes)) (s : State Bytes) {out : Frame}
    {step : PublishStep} (hstep : cfg.publishStep = some step)
    (hout : cfg.isEmpty out = true ∨
      ∀ n, answers.publishRaises = some n → (cfg.rows out).length ≤ n) :
    ∃ produced, publishOutput cfg answers batch out s =
      { s with produced, handedOver := s.handedOver ++ decodedMessages cfg batch } := by
  rw [publishOutput, hstep]
  dsimp only
  split
  · exact ⟨s.produced, rfl⟩
  · next hne =>
    have hraises := hout.resolve_left hne
    have hok : produceAll answers.publishRaises (cfg.rows out) = (cfg.rows out, true) := by
      cases hn : answers.publishRaises with
      | none => rfl
      | some n => rw [produceAll, if_neg (Nat.not_lt.mpr (hraises n hn))]
    simp only [publish, hok]
    exact ⟨_, rfl⟩

theorem settled_finishBatch {letters : List (DeadLetter Bytes)} (h : Pending s batch)
    (hl : letters.map DeadLetter.message = (deserialize cfg batch).2.map Prod.fst)
    (hc : t.consumed = s.consumed) (hp : t.processedOffsets = s.processedOffsets)
    (hho : t.handedOver = s.handedOver) (hd : t.deadLetters = s.deadLetters ++ letters)
    (hm : t.stats.messages = s.stats.messages) (hf : t.stats.failed = s.stats.failed)
    (hu : t.committed = none) {out : Frame} {step : PublishStep}
    (hvalues : ∀ m ∈ batch, m.value ≠ none) (hstep : cfg.publishStep = some step)
    (hout : cfg.isEmpty out = true ∨
      ∀ n, answers.publishRaises = some n → (cfg.rows out).length ≤ n) :
    Settled (finishBatch cfg answers batch out t) := by
  obtain ⟨produced, hpub⟩ := publishOutput_ok batch t hstep hout
  rw [finishBatch, hpub]
  apply settled_commit
  · apply h.balanced
    · exact hc
    · exact hp
    · have hmid : (handledKeys { t with handedOver := t.handedOver ++ decodedMessages cfg batch }).Perm
          (handledKeys t ++ (decodedMessages cfg batch).map Message.offsetKey) :=
        handled_append_handedOver _
      have ht : handledKeys t = handledKeys s ++
          ((deserialize cfg batch).2.map Prod.fst).map Message.offsetKey := by
        rw [← hl, ← handled_append_deadLetters]
        simp only [handledKeys, hho, hd]
      have hbatch : ((decodedMessages cfg batch).map Message.offsetKey ++
          ((deserialize cfg batch).2.map Prod.fst).map Message.offsetKey).Perm
            (batch.map Message.offsetKey) := by
        rw [← List.map_append]
        exact (decoded_append_malformed batch hvalues).map Message.offsetKey
      rw [ht, List.append_assoc] at hmid
      exact hmid.trans ((List.perm_append_comm.trans hbatch).append_left _)
    · dsimp only
      omega
  · exact hu

/-- A clean batch settles. -/
theorem settled_processBatch (h : Pending s batch) (hclean : CleanBatch cfg answers batch) :
    Settled (processBatch cfg answers batch s) := by
  rw [processBatch]
  dsimp only
  split
  · exact .inl ⟨by simp, h.uncommitted⟩
  · next df hdf =>
    obtain ⟨hne, herror, hok⟩ := hclean df hdf
    split
    · next u hsend => exact .inl ⟨by simp, (sendDlq_failed hsend).trans h.uncommitted⟩
    · next u hsend =>
      obtain ⟨letters, hl, rfl⟩ := sendDlq_ok hsend
      rw [if_neg (by rw [hne]; exact Bool.false_ne_true)]
      split
      · next e he =>
        have hnone := herror e he
        rw [hnone, List.map_nil, List.map_eq_nil_iff] at hl
        subst hl
        apply settled_failBatch
        exact ⟨h.nodup, h.remembered, by simpa [handledKeys] using h.handled, h.counted, h.uncommitted⟩
      · next out ho =>
        obtain ⟨hvalues, ⟨step, hstep⟩, hout⟩ := hok out ho
        apply settled_finishBatch h hl
        case hvalues => exact hvalues
        case hstep => exact hstep
        case hout => exact hout
        case hu => exact h.uncommitted
        all_goals rfl

theorem mem_trim {keys : List OffsetKey} {k : OffsetKey} (h : k ∈ trim cfg keys) : k ∈ keys := by
  rw [trim] at h
  split at h
  · exact (List.mem_filter.mp h).1
  · exact h

/-- With every redelivery remembered, the batch is what is consumed anew. -/
theorem pending_remember (h : Balanced s) (hc : s.committed = none) {messages : List (Delivery Bytes)}
    (hseen : ∀ m ∈ validMessages messages, m.offsetKey ∈ s.consumed.map Message.offsetKey →
      m.offsetKey ∈ s.processedOffsets) :
    Pending (remember cfg messages s) (deduped s messages) := by
  have hnew : deduped s messages = fresh Message.offsetKey (s.consumed.map Message.offsetKey)
      (validMessages messages) := by
    apply fresh_congr
    intro m hm
    exact ⟨h.remembered _, hseen m hm⟩
  have hcons : (remember cfg messages s).consumed = s.consumed ++ deduped s messages := by
    rw [hnew]
    rfl
  refine ⟨?_, ?_, ?_, ?_, hc⟩
  · rw [hcons, List.map_append, hnew]
    exact nodup_append_fresh h.nodup _
  · intro k hk
    rw [hcons, List.map_append]
    have hk' := mem_trim hk
    cases List.mem_append.mp hk' with
    | inl hold => exact List.mem_append_left _ (h.remembered k hold)
    | inr hbatch => exact List.mem_append_right _ hbatch
  · rw [hcons, List.map_append]
    exact h.handled.append_right _
  · rw [hcons, List.length_append, ← h.counted]
    rfl

/-- Between passes: a running daemon is balanced, and so is one that has just
committed. -/
def Sound (s : State Bytes) : Prop :=
  (s.phase = .running → Balanced s) ∧ ∀ m, s.committed = some m → Balanced s

theorem Settled.sound (h : Settled s) : Sound s := by
  cases h with
  | inl h => exact ⟨fun hr => absurd hr h.1, fun m hm => absurd (h.2.symm.trans hm) (by simp)⟩
  | inr h => exact ⟨fun _ => h, fun _ _ => h⟩

theorem sound_pass {p : Pass Bytes Frame} (hs : Sound s) (hclean : Clean cfg s p)
    (h : pass cfg s p = some t) : Sound t := by
  rw [Daemon.pass] at h
  split at h
  · cases h
  · cases h
  · next hrun =>
    have hb := hs.1 hrun
    have hb' : Balanced { s with committed := none } :=
      ⟨hb.nodup, hb.remembered, hb.handled, hb.counted⟩
    cases p with
    | stop =>
      cases h
      exact Settled.sound (.inl ⟨by simp, rfl⟩)
    | backpressure =>
      cases h
      exact Settled.sound (.inr hb')
    | poll messages answers =>
      have hpend : Pending (remember cfg messages { s with committed := none })
          (deduped { s with committed := none } messages) :=
        pending_remember hb' rfl hclean.1
      dsimp only at h
      split at h
      · next hnil =>
        cases h
        rw [hnil] at hpend
        apply Settled.sound
        right
        exact ⟨hpend.nodup, hpend.remembered, by simpa using hpend.handled, hpend.counted⟩
      · next hne =>
        cases h
        exact (settled_processBatch hpend (hclean.2 hne)).sound

/-- In every run of the daemon whose passes are clean, each commit finds every
consumed message at or below its offset handed over or dead-lettered exactly once,
and the counters count what was consumed. -/
theorem commit_conserves (cfg : Config Bytes Record Frame Row) (passes : List (Pass Bytes Frame))
    (s : State Bytes) (hclean : Machine.Along (pass cfg) (Clean cfg) {} passes)
    (h : Machine.run (pass cfg) {} passes = some s) (m : Message Bytes)
    (hm : s.committed = some m) : Conserved s m := by
  have hstart : Sound ({} : State Bytes) := by
    apply Settled.sound
    right
    exact ⟨List.nodup_nil, by simp, .refl _, rfl⟩
  have hs : Sound s := Machine.invariant_run (fun _ _ _ hs hg h => sound_pass hs hg h) hstart hclean h
  exact (hs.2 m hm).conserved m

/-- A pipeline over numbers that publishes what it reads; a zero does not decode. -/
def copying : Config Nat Nat (List Nat) Nat where
  topic := "orders"
  publishStep := some ⟨"copies", none⟩
  decode v := if v = 0 then .error "zero" else .ok v
  emptyFrame := []
  dataFrame records := .ok records
  isEmpty := List.isEmpty
  rows := id
  rowKey _ _ := none
  rowValue := id
  listSet := id

def delivery (offset value : Nat) : Delivery Nat :=
  ⟨⟨"orders", 0, offset, none, some value⟩, none⟩

/-- A good and a malformed message, a redelivery, and a batch whose steps raise. -/
def cleanPasses : List (Pass Nat (List Nat)) :=
  [.poll [delivery 0 7, delivery 1 0] { steps := .ok },
   .poll [delivery 1 0] { steps := .ok },
   .poll [delivery 2 5] { steps := fun _ => .error "bad column" }]

theorem commit_conserves_mixed :
    ∃ s m, Machine.run (pass copying) {} cleanPasses = some s ∧ s.committed = some m ∧
      m.offset = 2 ∧ Conserved s m := by
  have hclean : Machine.Along (pass copying) (Clean copying) {} cleanPasses := by
    refine ⟨?_, fun s h => ?_⟩
    · refine ⟨by decide, fun _ df hdf => ?_⟩
      cases hdf
      refine ⟨rfl, by simp, ?_⟩
      intro out _
      exact ⟨by decide, ⟨_, rfl⟩, .inr (by simp)⟩
    · cases h
      refine ⟨?_, fun s h => ?_⟩
      · exact ⟨by decide, fun hne => absurd rfl hne⟩
      · cases h
        refine ⟨?_, fun s h => trivial⟩
        refine ⟨by decide, fun _ df hdf => ?_⟩
        cases hdf
        exact ⟨rfl, fun _ _ => rfl, by simp⟩
  exact ⟨_, _, rfl, rfl, rfl, commit_conserves copying cleanPasses _ hclean rfl _ rfl⟩

/-- The producer raises on the first record; the batch's offset is committed with its
message in no topic. -/
theorem publish_failure_loses :
    ∃ s m, Machine.run (pass copying) {}
        [.poll [delivery 0 7] { steps := .ok, publishRaises := some 0 }] = some s ∧
      s.committed = some m ∧ m ∈ s.consumed ∧ s.produced = [] ∧ s.deadLetters = [] ∧
      ¬ Conserved s m := by
  refine ⟨_, _, rfl, rfl, List.mem_singleton_self _, rfl, rfl, ?_⟩
  intro h
  exact absurd (h.1 _ (List.mem_singleton_self _) rfl rfl (Nat.le_refl _)) (by decide)

end PipelineIQ.Streaming.Conservation
