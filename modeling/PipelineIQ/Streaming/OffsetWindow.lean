import PipelineIQ.Lib.Machine
import PipelineIQ.Streaming.Conservation

namespace PipelineIQ.Streaming.OffsetWindow

open PipelineIQ.Lib PipelineIQ.Lib.Fresh PipelineIQ.Streaming.Daemon

variable {Bytes Record Frame Row : Type}

/-! ### Runs with their history -/

/-- The daemon, and the offsets of the messages it has processed, the last one last. -/
structure History (Bytes : Type) where
  daemon : State Bytes := {}
  processed : List OffsetKey := []

/-- The offsets that a pass processes. -/
def newKeys (s : State Bytes) : Pass Bytes Frame → List OffsetKey
  | .poll messages _ => (deduped s messages).map Message.offsetKey
  | _ => []

/-- A pass, with the order in which the set of offsets lists its elements in the course of it. -/
abbrev Turn (Bytes Frame : Type) := (List OffsetKey → List OffsetKey) × Pass Bytes Frame

def turn (cfg : Config Bytes Record Frame Row) (h : History Bytes) (e : Turn Bytes Frame) :
    Option (History Bytes) :=
  (pass { cfg with listSet := e.1 } h.daemon e.2).map fun daemon =>
    { daemon, processed := h.processed ++ newKeys h.daemon e.2 }

/-- The last half of the offsets that are to be kept in memory. -/
def recentHalf (processed : List OffsetKey) : List OffsetKey :=
  processed.drop (processed.length - idempotentCacheTtl / 2)

/-- No poll processes a message again that was processed lately, or one message twice, or leaves out
one that was never polled before. -/
structure FilterExact (h : History Bytes) : Prop where
  once : ∀ messages, ∀ m ∈ deduped h.daemon messages, m.offsetKey ∉ recentHalf h.processed
  distinct : ∀ messages, ((deduped h.daemon messages).map Message.offsetKey).Nodup
  complete : ∀ messages, ∀ m ∈ validMessages messages,
    m.offsetKey ∉ h.daemon.consumed.map Message.offsetKey →
      m.offsetKey ∈ (deduped h.daemon messages).map Message.offsetKey

/-- Where a poll drops half of the offsets, the set lists none of the last ones in its first half. -/
def KeepsRecent (h : History Bytes) : Turn Bytes Frame → Prop
  | (listSet, .poll messages answers) =>
    let new := newKeys h.daemon (.poll messages answers)
    let remembered := h.daemon.processedOffsets ++ new
    h.daemon.phase = .running → idempotentCacheTtl < remembered.length →
      ∀ k ∈ recentHalf (h.processed ++ new), k ∉ (listSet remembered).take (remembered.length / 2)
  | _ => True

variable {cfg : Config Bytes Record Frame Row} {answers : Answers Frame} {s t : State Bytes}
  {batch : List (Message Bytes)} {h h' : History Bytes} {e : Turn Bytes Frame}

/-! ### What a pass does to the offsets -/

/-- The filter of the next poll looks at nothing else of a daemon. -/
structure SameFilter (s t : State Bytes) : Prop where
  processedOffsets : t.processedOffsets = s.processedOffsets
  consumed : t.consumed = s.consumed

theorem SameFilter.commit (h : SameFilter s t) : SameFilter s (commit answers batch t) := by
  rw [Daemon.commit]
  split <;> exact ⟨h.processedOffsets, h.consumed⟩

theorem SameFilter.sendDlq {raises : Option Nat} {messages : List (Message Bytes)} {error : String}
    {u : State Bytes} {ok : Bool} (h : SameFilter s t)
    (hu : sendDlq cfg raises messages error t = (u, ok)) : SameFilter s u := by
  have hfst : (Daemon.sendDlq cfg raises messages error t).1 = u := congrArg Prod.fst hu
  rw [← hfst]
  exact ⟨h.processedOffsets, h.consumed⟩

theorem SameFilter.publish {raises : Option Nat} {step : PublishStep} {df : Frame}
    {u : State Bytes} {ok : Bool} (h : SameFilter s t)
    (hu : publish cfg raises step df t = (u, ok)) : SameFilter s u := by
  have hfst : (Daemon.publish cfg raises step df t).1 = u := congrArg Prod.fst hu
  rw [← hfst]
  exact ⟨h.processedOffsets, h.consumed⟩

theorem SameFilter.publishOutput (df : Frame) (h : SameFilter s t) :
    SameFilter s (publishOutput cfg answers batch df t) := by
  rw [Daemon.publishOutput]
  split
  · exact h
  · split
    · exact ⟨h.processedOffsets, h.consumed⟩
    · split
      · next hu => exact ⟨(h.publish hu).processedOffsets, (h.publish hu).consumed⟩
      · next hu => exact h.publish hu

theorem SameFilter.failBatch (error : String) (h : SameFilter s t) :
    SameFilter s (failBatch cfg answers batch error t) := by
  rw [Daemon.failBatch]
  split
  · next hu => exact ⟨(h.sendDlq hu).processedOffsets, (h.sendDlq hu).consumed⟩
  · next hu =>
    have hsend := h.sendDlq hu
    dsimp only
    split
    · exact ⟨hsend.processedOffsets, hsend.consumed⟩
    · apply SameFilter.commit
      exact ⟨hsend.processedOffsets, hsend.consumed⟩

theorem SameFilter.finishBatch (df : Frame) (h : SameFilter s t) :
    SameFilter s (finishBatch cfg answers batch df t) := by
  have hout : SameFilter s (Daemon.publishOutput cfg answers batch df t) := h.publishOutput df
  apply SameFilter.commit
  exact ⟨hout.processedOffsets, hout.consumed⟩

theorem SameFilter.processBatch (h : SameFilter s t) :
    SameFilter s (processBatch cfg answers batch t) := by
  rw [Daemon.processBatch]
  dsimp only
  split
  · exact ⟨h.processedOffsets, h.consumed⟩
  · split
    · next hu => exact ⟨(h.sendDlq hu).processedOffsets, (h.sendDlq hu).consumed⟩
    · next u hu =>
      have hstats : SameFilter s { u with stats := { u.stats with
          dlq := u.stats.dlq + (deserialize cfg batch).2.length } } :=
        ⟨(h.sendDlq hu).processedOffsets, (h.sendDlq hu).consumed⟩
      split
      · exact hstats.commit
      · split
        · exact hstats.failBatch _
        · exact hstats.finishBatch _

/-- What is remembered after a pass. -/
def offsetsAfter (cfg : Config Bytes Record Frame Row) (s : State Bytes) :
    Pass Bytes Frame → List OffsetKey
  | .poll messages answers => trim cfg (s.processedOffsets ++ newKeys s (.poll messages answers))
  | _ => s.processedOffsets

/-- The messages of a pass. -/
def polled : Pass Bytes Frame → List (Message Bytes)
  | .poll messages _ => validMessages messages
  | _ => []

/-- Whatever becomes of a batch, it does not change the offsets. -/
theorem pass_spec {p : Pass Bytes Frame} (h : pass cfg s p = some t) :
    s.phase = .running ∧ t.processedOffsets = offsetsAfter cfg s p ∧
      t.consumed = s.consumed ++
        fresh Message.offsetKey (s.consumed.map Message.offsetKey) (polled p) := by
  rw [Daemon.pass] at h
  split at h
  · cases h
  · cases h
  · next hrun =>
    refine ⟨hrun, ?_⟩
    cases p with
    | stop =>
      cases h
      exact ⟨rfl, (List.append_nil _).symm⟩
    | backpressure =>
      cases h
      exact ⟨rfl, (List.append_nil _).symm⟩
    | poll messages answers =>
      have hsame : SameFilter (remember cfg messages { s with committed := none }) t := by
        dsimp only at h
        split at h
        · cases h
          exact ⟨rfl, rfl⟩
        · cases h
          exact SameFilter.processBatch ⟨rfl, rfl⟩
      exact ⟨hsame.processedOffsets, hsame.consumed⟩

/-! ### The filter -/

/-- What is remembered was polled. -/
def Remembered (h : History Bytes) : Prop :=
  ∀ k ∈ h.daemon.processedOffsets, k ∈ h.daemon.consumed.map Message.offsetKey

/-- The offsets of a pass were not remembered; those polled for the first time are among them. -/
theorem mem_consumed_of_newKeys {p : Pass Bytes Frame} {k : OffsetKey} (hk : k ∈ newKeys s p) :
    k ∈ s.consumed.map Message.offsetKey ∨
      k ∈ (fresh Message.offsetKey (s.consumed.map Message.offsetKey) (polled p)).map
        Message.offsetKey := by
  cases p with
  | stop => cases hk
  | backpressure => cases hk
  | poll messages answers =>
    obtain ⟨m, hm, rfl⟩ := List.mem_map.mp hk
    by_cases hold : m.offsetKey ∈ s.consumed.map Message.offsetKey
    · exact .inl hold
    · exact .inr (key_mem_fresh (mem_of_mem_fresh hm).1 hold)

theorem remembered_turn (hi : Remembered h) (hstep : turn cfg h e = some h') : Remembered h' := by
  obtain ⟨daemon, hpass, rfl⟩ := Option.map_eq_some_iff.mp hstep
  obtain ⟨-, hoffsets, hconsumed⟩ := pass_spec hpass
  have hall : ∀ k ∈ h.daemon.processedOffsets ++ newKeys h.daemon e.2,
      k ∈ daemon.consumed.map Message.offsetKey := by
    intro k hk
    rw [hconsumed, List.map_append, List.mem_append]
    cases List.mem_append.mp hk with
    | inl hold => exact .inl (hi k hold)
    | inr hnew => exact mem_consumed_of_newKeys hnew
  intro k hk
  rw [hoffsets] at hk
  obtain ⟨listSet, p⟩ := e
  cases p with
  | stop => exact hall k (List.mem_append_left _ hk)
  | backpressure => exact hall k (List.mem_append_left _ hk)
  | poll messages answers => exact hall k (Conservation.mem_trim hk)

/-- A message of a poll without an error. -/
def delivery (k : OffsetKey) : Delivery Bytes :=
  ⟨⟨k.1, k.2.1, k.2.2, none, none⟩, none⟩

/-- The filter is exact where it remembers the last half. -/
theorem filterExact_iff (hi : Remembered h) :
    FilterExact h ↔ ∀ k ∈ recentHalf h.processed, k ∈ h.daemon.processedOffsets := by
  constructor
  · intro hexact k hk
    by_contra hnot
    have hmem : (delivery k).message ∈ deduped h.daemon [delivery k] := by
      have hfresh : deduped h.daemon [delivery k] = [(delivery k).message] := if_neg hnot
      rw [hfresh]
      exact List.mem_singleton_self _
    exact hexact.once _ _ hmem hk
  · intro hrecent
    refine ⟨?_, fun messages => nodup_fresh _ _, ?_⟩
    · intro messages m hm hk
      exact (mem_of_mem_fresh hm).2 (hrecent _ hk)
    · intro messages m hm hnew
      exact key_mem_fresh hm fun hold => hnew (hi _ hold)

theorem recentHalf_append {old new : List OffsetKey} {k : OffsetKey}
    (hk : k ∈ recentHalf (old ++ new)) : k ∈ recentHalf old ∨ k ∈ new := by
  rw [recentHalf, List.drop_append, List.mem_append] at hk
  cases hk with
  | inl hold =>
    left
    have hlen : old.length - idempotentCacheTtl / 2 ≤
        (old ++ new).length - idempotentCacheTtl / 2 := by
      rw [List.length_append]
      omega
    exact List.drop_subset_drop_left old hlen hold
  | inr hnew => exact .inr (List.mem_of_mem_drop hnew)

/-- A pass leaves the filter exact if it keeps the last half. -/
theorem filterExact_turn_iff (hi : Remembered h) (hexact : FilterExact h)
    (hstep : turn cfg h e = some h') : FilterExact h' ↔ KeepsRecent h e := by
  have hi' := remembered_turn hi hstep
  obtain ⟨daemon, hpass, rfl⟩ := Option.map_eq_some_iff.mp hstep
  obtain ⟨hrun, hoffsets, -⟩ := pass_spec hpass
  rw [filterExact_iff hi] at hexact
  rw [filterExact_iff hi']
  have hall : ∀ k ∈ recentHalf (h.processed ++ newKeys h.daemon e.2),
      k ∈ h.daemon.processedOffsets ++ newKeys h.daemon e.2 := by
    intro k hk
    rw [List.mem_append]
    cases recentHalf_append hk with
    | inl hold => exact .inl (hexact k hold)
    | inr hnew => exact .inr hnew
  dsimp only
  rw [hoffsets]
  obtain ⟨listSet, p⟩ := e
  cases p with
  | stop =>
    refine iff_of_true ?_ trivial
    intro k hk
    change k ∈ recentHalf (h.processed ++ []) at hk
    rw [List.append_nil] at hk
    exact hexact k hk
  | backpressure =>
    refine iff_of_true ?_ trivial
    intro k hk
    change k ∈ recentHalf (h.processed ++ []) at hk
    rw [List.append_nil] at hk
    exact hexact k hk
  | poll messages answers =>
    rw [offsetsAfter, trim]
    dsimp only at hall ⊢
    split
    · next hlong =>
      constructor
      · intro hmem _ _ k hk
        exact of_decide_eq_true (List.mem_filter.mp (hmem k hk)).2
      · intro hkeeps k hk
        exact List.mem_filter.mpr ⟨hall k hk, decide_eq_true (hkeeps hrun hlong k hk)⟩
    · next hshort => exact iff_of_true hall fun _ hlong => absurd hlong hshort

theorem turn_poll_ne_none {listSet : List OffsetKey → List OffsetKey}
    {messages : List (Delivery Bytes)} (hrun : h.daemon.phase = .running) :
    turn cfg h (listSet, .poll messages answers) ≠ none := by
  intro hstep
  rw [turn, Option.map_eq_none_iff, Daemon.pass, hrun] at hstep
  dsimp only at hstep
  split at hstep <;> cases hstep

theorem keepsRecent_of_eq_none (hstep : turn cfg h e = none) : KeepsRecent h e := by
  obtain ⟨listSet, p⟩ := e
  cases p with
  | stop => trivial
  | backpressure => trivial
  | poll messages answers => exact fun hrun => absurd hstep (turn_poll_ne_none hrun)

theorem remembered_start : Remembered ({} : History Bytes) := fun _ hk => absurd hk List.not_mem_nil

theorem filterExact_start : FilterExact ({} : History Bytes) :=
  (filterExact_iff remembered_start).mpr fun _ hk => absurd (List.mem_of_mem_drop hk) List.not_mem_nil

/-- Over a run the filter is exact before every poll if and only if no trim drops one of the offsets
processed last. -/
theorem filter_exact_iff (cfg : Config Bytes Record Frame Row) (turns : List (Turn Bytes Frame)) :
    Machine.Always (turn cfg) FilterExact {} turns ↔
      Machine.Along (turn cfg) KeepsRecent {} turns :=
  Machine.always_iff_along_all (fun _ _ _ hi hstep => remembered_turn hi hstep)
    (fun _ _ hstep => keepsRecent_of_eq_none hstep)
    (fun _ _ _ hi hexact hstep => filterExact_turn_iff hi hexact hstep) remembered_start
    filterExact_start

/-! ### One poll beyond the bound -/

def ordersKeys : List OffsetKey := (List.range 10001).map fun i => ("orders", 0, i)

def ordersDeliveries : List (Delivery Nat) := ordersKeys.map delivery

def ordersPoll : Pass Nat (List Nat) := .poll ordersDeliveries { steps := .ok }

theorem newKeys_ordersPoll : newKeys {} ordersPoll = ordersKeys := by
  have hvalid : validMessages ordersDeliveries = ordersKeys.map fun k => (delivery k).message := by
    simp [validMessages, ordersDeliveries, delivery, List.filter_map, Function.comp_def]
  have hkeys : (validMessages ordersDeliveries).map Message.offsetKey = ordersKeys := by
    rw [hvalid, List.map_map]
    exact List.map_id _
  have hnodup : ordersKeys.Nodup :=
    List.Nodup.map (fun i j h => (Prod.mk.inj (Prod.mk.inj h).2).2) List.nodup_range
  change (fresh Message.offsetKey [] (validMessages ordersDeliveries)).map Message.offsetKey = _
  rw [fresh_of_nodup (by rwa [hkeys]) fun _ _ => List.not_mem_nil, hkeys]

/-- A set that lists its newest offsets first forgets them: the last message is processed again when
it is delivered again. -/
theorem newest_forgotten : ¬ Machine.Always (turn Conservation.copying) FilterExact {}
    [(List.reverse, ordersPoll)] := by
  have hlength : ordersKeys.length = 10001 := by rw [ordersKeys, List.length_map, List.length_range]
  have hlast : ordersKeys.getLast? = some ("orders", 0, 10000) := by
    simp [ordersKeys, List.getLast?_range]
  intro halways
  cases hstep : turn Conservation.copying {} (List.reverse, ordersPoll) with
  | none => exact turn_poll_ne_none rfl hstep
  | some h' =>
    have hexact := ((Machine.always_cons_iff hstep).mp halways).2.head
    have hkeeps := (filterExact_turn_iff remembered_start filterExact_start hstep).mp hexact
    have hrecent : ("orders", 0, 10000) ∈ recentHalf ordersKeys := by
      apply List.mem_of_getLast?
      rw [recentHalf, List.getLast?_drop, hlength, if_neg (by decide), hlast]
    have hfirst : ("orders", 0, 10000) ∈ ordersKeys.reverse.take (ordersKeys.length / 2) := by
      apply List.mem_of_head?
      rw [List.head?_take, if_neg (by rw [hlength]; decide), List.head?_reverse, hlast]
    have hkeys : newKeys ({} : History Nat).daemon ordersPoll = ordersKeys := newKeys_ordersPoll
    rw [ordersPoll, KeepsRecent, ← ordersPoll, hkeys] at hkeeps
    dsimp only at hkeeps
    rw [List.nil_append] at hkeeps
    exact hkeeps rfl (by rw [hlength]; decide) _ hrecent hfirst

end PipelineIQ.Streaming.OffsetWindow
