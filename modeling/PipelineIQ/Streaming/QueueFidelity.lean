import Mathlib.Data.List.Basic
import PipelineIQ.Streaming.FallbackQueue

namespace PipelineIQ.Streaming.QueueFidelity

open PipelineIQ.Lib PipelineIQ.Lib.Machine PipelineIQ.Lib.Utf8 PipelineIQ.Streaming.FallbackQueue

variable {Raw : Type} {codec : JsonCodec Raw} {s t : State} {m : Message} {drain : Nat}

/-! ### One message -/

theorem toUTF8_decodeReplace {b : ByteArray} :
    (decodeReplace b).toUTF8 = b ↔ b.IsValidUTF8 := by
  constructor
  · intro h
    rw [← h]
    exact (decodeReplace b).isValidUTF8
  · rintro h
    exact congrArg String.toUTF8 (decodeReplace_toUTF8 ⟨b, h⟩)

theorem decodeReplace_ne_empty {b : ByteArray} (h : b.size ≠ 0) : decodeReplace b ≠ "" := by
  intro hempty
  have hlist := congrArg String.toList hempty
  rw [decodeReplace, String.toList_ofList] at hlist
  obtain ⟨n, hn⟩ := Nat.exists_eq_succ_of_ne_zero h
  rw [hn, decodeFrom] at hlist
  split at hlist
  · cases hlist
  · rw [if_neg h] at hlist
    cases hlist

/-- The message that a drain makes of an item. -/
theorem restore_raw (item : Item) : restore codec (item.raw codec) = some
    { topic := item.message.topic
      value := (decodeReplace item.message.value).toUTF8
      key := if noKey item.message.key then none
        else item.message.key.map fun key => (decodeReplace key).toUTF8 } := by
  obtain ⟨⟨topic, value, key, headers⟩, enqueuedAt, entry⟩ := item
  rw [restore, Item.raw, codec.loads_dumps]
  cases key with
  | none => rfl
  | some key =>
    by_cases hkey : key.size = 0
    · have hno : noKey (some key) = true := decide_eq_true hkey
      simp only [fallbackItem, hno, ↓reduceIte]
      rfl
    · have hno : noKey (some key) = false := decide_eq_false hkey
      have hne := decodeReplace_ne_empty hkey
      simp only [fallbackItem, hno, Bool.false_eq_true, ↓reduceIte, Json.option]
      change some (Message.mk _ _ (if decodeReplace key = "" then none else _) _) = _
      rw [if_neg hne]
      rfl

variable (codec) in
theorem restore_eq_iff (item : Item) :
    restore codec (item.raw codec) = some item.message ↔ Representable item.message := by
  rw [restore_raw, Option.some.injEq]
  obtain ⟨⟨topic, value, key, headers⟩, enqueuedAt, entry⟩ := item
  dsimp only
  rw [Message.mk.injEq]
  constructor
  · rintro ⟨-, hvalue, hkey, hheaders⟩
    refine ⟨toUTF8_decodeReplace.mp hvalue, ?_, hheaders.symm⟩
    rintro k rfl
    by_cases hk : k.size = 0
    · have hno : noKey (some k) = true := decide_eq_true hk
      rw [hno] at hkey
      cases hkey
    · have hno : noKey (some k) = false := decide_eq_false hk
      rw [hno] at hkey
      exact ⟨hk, toUTF8_decodeReplace.mp (Option.some.inj hkey)⟩
  · rintro ⟨hvalue, hkey, hheaders⟩
    refine ⟨rfl, toUTF8_decodeReplace.mpr hvalue, ?_, hheaders.symm⟩
    cases key with
    | none => rfl
    | some k =>
      obtain ⟨hk, hvalid⟩ := hkey k rfl
      have hno : noKey (some k) = false := decide_eq_false hk
      rw [hno]
      exact congrArg some (toUTF8_decodeReplace.mpr hvalid)

/-! ### The batches -/

/-- No drain has two batches. -/
def OneBatch (s : State) : Prop := (s.hands.map Prod.fst).Nodup

theorem batchOf_append {pre post : List (Nat × List Item)} {batch : List Item}
    (h : drain ∉ pre.map Prod.fst) : batchOf drain (pre ++ (drain, batch) :: post) = batch := by
  unfold batchOf
  rw [List.find?_append, List.find?_eq_none.mpr, Option.none_or]
  · simp
  · intro hand hmem
    rw [decide_eq_true_eq]
    rintro rfl
    exact h (List.mem_map_of_mem hmem)

/-- A drain has no batch, or there is one place where it is. -/
theorem hands_cases (hands : List (Nat × List Item)) (hnodup : (hands.map Prod.fst).Nodup)
    (drain : Nat) : (drain ∉ hands.map Prod.fst) ∨ ∃ pre batch post,
      hands = pre ++ (drain, batch) :: post ∧ drain ∉ pre.map Prod.fst ∧
        drain ∉ post.map Prod.fst := by
  by_cases hmem : drain ∈ hands.map Prod.fst
  · obtain ⟨⟨d, batch⟩, hhand, rfl⟩ := List.mem_map.mp hmem
    obtain ⟨pre, post, rfl⟩ := List.append_of_mem hhand
    rw [List.map_append, List.map_cons, List.nodup_append] at hnodup
    obtain ⟨-, hpost, hdisjoint⟩ := hnodup
    refine .inr ⟨pre, batch, post, rfl, fun h => ?_, (List.nodup_cons.mp hpost).1⟩
    exact hdisjoint _ h _ List.mem_cons_self rfl
  · exact .inl hmem

theorem dropBatch_of_not_mem {hands : List (Nat × List Item)} (h : drain ∉ hands.map Prod.fst) :
    dropBatch drain hands = hands := by
  refine List.filter_eq_self.mpr fun hand hmem => ?_
  rw [decide_eq_true_eq]
  rintro rfl
  exact h (List.mem_map_of_mem hmem)

theorem dropBatch_append {pre post : List (Nat × List Item)} {batch : List Item}
    (hpre : drain ∉ pre.map Prod.fst) (hpost : drain ∉ post.map Prod.fst) :
    dropBatch drain (pre ++ (drain, batch) :: post) = pre ++ post := by
  unfold dropBatch
  rw [List.filter_append, List.filter_cons_of_neg (by simp)]
  exact congrArg₂ _ (dropBatch_of_not_mem hpre) (dropBatch_of_not_mem hpost)

theorem batchOf_of_not_mem {hands : List (Nat × List Item)} (h : drain ∉ hands.map Prod.fst) :
    batchOf drain hands = [] := by
  unfold batchOf
  rw [List.find?_eq_none.mpr]
  · rfl
  · intro hand hmem
    rw [decide_eq_true_eq]
    rintro rfl
    exact h (List.mem_map_of_mem hmem)

/-- What a drain drops is its batch. -/
theorem length_dropBatch (drain : Nat) {hands : List (Nat × List Item)} (hnodup : (hands.map Prod.fst).Nodup) :
    ((dropBatch drain hands).flatMap Prod.snd).length + (batchOf drain hands).length =
      (hands.flatMap Prod.snd).length := by
  rcases hands_cases hands hnodup drain with h | ⟨pre, batch, post, rfl, hpre, hpost⟩
  · rw [dropBatch_of_not_mem h, batchOf_of_not_mem h]
    rfl
  · rw [dropBatch_append hpre hpost, batchOf_append hpre]
    simp only [List.flatMap_append, List.flatMap_cons, List.length_append]
    omega

theorem flatMap_dropBatch {hands : List (Nat × List Item)} (hnodup : (hands.map Prod.fst).Nodup)
    (h : batchOf drain hands = []) :
    (dropBatch drain hands).flatMap Prod.snd = hands.flatMap Prod.snd := by
  rcases hands_cases hands hnodup drain with hmem | ⟨pre, batch, post, rfl, hpre, hpost⟩
  · rw [dropBatch_of_not_mem hmem]
  · rw [batchOf_append hpre] at h
    rw [dropBatch_append hpre hpost, h, List.flatMap_append, List.flatMap_append, List.flatMap_cons]
    rfl

theorem map_fst_dropBatch_nodup {hands : List (Nat × List Item)}
    (hnodup : (hands.map Prod.fst).Nodup) : ((dropBatch drain hands).map Prod.fst).Nodup :=
  hnodup.sublist (List.filter_sublist.map Prod.fst)

theorem not_mem_dropBatch (hands : List (Nat × List Item)) :
    drain ∉ (dropBatch drain hands).map Prod.fst := by
  intro h
  obtain ⟨hand, hmem, rfl⟩ := List.mem_map.mp h
  have := (List.mem_filter.mp hmem).2
  simp at this

/-! ### One step -/

theorem oneBatch_step {e : Event} (h : OneBatch s) (hstep : step codec s e = some t) :
    OneBatch t := by
  unfold OneBatch at *
  cases e with
  | call m enqueuedAt isOpen producing enqueuing =>
    cases hstep
    cases isOpen <;> cases producing <;> cases enqueuing <;> exact h
  | pop drain batchSize reply =>
    rw [step] at hstep
    split at hstep
    · cases reply with
      | refused =>
        cases hstep
        exact h
      | timedOut =>
        cases hstep
        exact h
      | answered =>
        cases hstep
        dsimp only
        rw [List.map_append, List.nodup_append]
        refine ⟨map_fst_dropBatch_nodup h, List.nodup_singleton drain, ?_⟩
        rintro d hd d' hd' rfl
        rw [List.map_singleton, List.mem_singleton] at hd'
        exact not_mem_dropBatch s.hands (hd' ▸ hd)
    · cases hstep
  | produce drain takes =>
    have hmap (rest : List Item) : (s.hands.map fun hand =>
        if hand.1 = drain then (drain, rest) else hand).map Prod.fst = s.hands.map Prod.fst := by
      rw [List.map_map]
      refine List.map_congr_left fun hand _ => ?_
      rw [Function.comp_apply]
      split
      · next hd => exact hd.symm
      · rfl
    rw [step] at hstep
    split at hstep
    · cases hstep
    · dsimp only at hstep
      split at hstep
      · cases hstep
        dsimp only
        rw [hmap]
        exact h
      · cases hstep
        dsimp only
        rw [hmap]
        exact h
  | stop drain =>
    cases hstep
    exact map_fst_dropBatch_nodup h

theorem length_of_order (h : Ordered s) :
    s.drained.length + s.pending.length = s.accepted.length := by
  have hlen := congrArg List.length h
  rw [List.length_append, List.length_map, List.length_zipIdx] at hlen
  exact hlen

/-- The answer of a call is right exactly where it is said to be. -/
theorem right_call (m : Message) (enqueuedAt : Json) (isOpen : Bool) (producing : Producing)
    (enqueuing : Enqueuing) (s : State) :
    ∃ c : CallRecord, (produceWithFallback m enqueuedAt isOpen producing enqueuing s).calls =
      s.calls ++ [c] ∧ (c.Right ↔ RightAnswer isOpen producing enqueuing) := by
  cases isOpen with
  | true =>
    cases enqueuing <;> exact ⟨_, rfl, by simp [CallRecord.Right, RightAnswer, Enqueuing.queues]⟩
  | false =>
    cases producing with
    | sent => exact ⟨_, rfl, by simp [CallRecord.Right, RightAnswer]⟩
    | _ =>
      cases enqueuing <;> exact ⟨_, rfl, by
        simp [CallRecord.Right, RightAnswer, Enqueuing.queues]⟩

/-- A push keeps the order where the queue has room. -/
theorem ordered_push (h : Ordered s) (enqueuedAt : Json) (m : Message) (keep : Nat) :
    Ordered { s with
      queue := (⟨m, enqueuedAt, s.accepted.length⟩ :: s.queue).take keep
      accepted := s.accepted ++ [m] } ↔ s.queue.length < keep := by
  constructor
  · intro hafter
    have hlen := length_of_order h
    have hlen' := length_of_order hafter
    simp only [State.pending, List.length_append, List.length_reverse, List.length_take,
      List.length_cons, List.length_nil] at hlen hlen'
    omega
  · intro hroom
    have htake := List.take_of_length_le (l := (⟨m, enqueuedAt, s.accepted.length⟩ : Item) :: s.queue)
      (i := keep) (by rw [List.length_cons]; omega)
    unfold Ordered State.pending at *
    dsimp only
    rw [htake, List.reverse_cons, ← List.append_assoc, List.map_append, ← List.append_assoc,
      List.zipIdx_append, h, Nat.zero_add]
    rfl

theorem ordered_enqueue (h : Ordered s) (enqueuedAt : Json) (m : Message) (enqueuing : Enqueuing) :
    Ordered (fallbackEnqueue m enqueuedAt enqueuing s).2 ↔
      (enqueuing = .trimmed ∨ enqueuing = .counted → s.queue.length < FALLBACK_MAX_SIZE) := by
  cases enqueuing with
  | unavailable =>
    refine iff_of_true h fun hor => ?_
    rcases hor with hor | hor <;> cases hor
  | pushed =>
    refine iff_of_true ?_ fun hor => ?_
    · have hpush := (ordered_push h enqueuedAt m (s.queue.length + 1)).mpr (Nat.lt_succ_self _)
      have htake : ((⟨m, enqueuedAt, s.accepted.length⟩ : Item) :: s.queue).take (s.queue.length + 1) =
          ⟨m, enqueuedAt, s.accepted.length⟩ :: s.queue :=
        List.take_of_length_le (Nat.le_of_eq List.length_cons)
      rw [htake] at hpush
      exact hpush
    · rcases hor with hor | hor <;> cases hor
  | trimmed =>
    exact (ordered_push h enqueuedAt m FALLBACK_MAX_SIZE).trans
      ⟨fun hroom _ => hroom, fun hroom => hroom (.inl rfl)⟩
  | counted =>
    exact (ordered_push h enqueuedAt m FALLBACK_MAX_SIZE).trans
      ⟨fun hroom _ => hroom, fun hroom => hroom (.inr rfl)⟩

theorem ordered_call (h : Ordered s) (m : Message) (enqueuedAt : Json) (isOpen : Bool)
    (producing : Producing) (enqueuing : Enqueuing) :
    Ordered (produceWithFallback m enqueuedAt isOpen producing enqueuing s) ↔
      ((isOpen = true ∨ producing ≠ .sent) → (enqueuing = .trimmed ∨ enqueuing = .counted) →
        s.queue.length < FALLBACK_MAX_SIZE) := by
  have henqueue := ordered_enqueue h enqueuedAt m enqueuing
  cases isOpen with
  | true => exact henqueue.trans ⟨fun hroom _ => hroom, fun hroom => hroom (.inl rfl)⟩
  | false =>
    cases producing with
    | sent =>
      refine iff_of_true h fun hor => ?_
      rcases hor with hor | hor
      · cases hor
      · exact absurd rfl hor
    | handedOver =>
      exact henqueue.trans ⟨fun hroom _ => hroom, fun hroom => hroom (.inr fun h => nomatch h)⟩
    | refused =>
      exact henqueue.trans ⟨fun hroom _ => hroom, fun hroom => hroom (.inr fun h => nomatch h)⟩

theorem faithful_call (hs : Faithful s) (m : Message) (enqueuedAt : Json) (isOpen : Bool)
    (producing : Producing) (enqueuing : Enqueuing) :
    Faithful (produceWithFallback m enqueuedAt isOpen producing enqueuing s) ↔
      Clean s (.call m enqueuedAt isOpen producing enqueuing) := by
  obtain ⟨c, hcalls, hright⟩ := right_call m enqueuedAt isOpen producing enqueuing s
  rw [Clean, ← hright, ← ordered_call hs.order m enqueuedAt isOpen producing enqueuing]
  constructor
  · intro ht
    refine ⟨ht.calls c ?_, ht.order⟩
    rw [hcalls]
    exact List.mem_append_right _ (List.mem_singleton.mpr rfl)
  · rintro ⟨hc, horder⟩
    refine ⟨horder, fun d hd => ?_⟩
    rw [hcalls, List.mem_append, List.mem_singleton] at hd
    rcases hd with hd | rfl
    · exact hs.calls d hd
    · exact hc

/-- Where the calls stay as they are, a step is about the order. -/
theorem faithful_iff_ordered (hs : Faithful s) (hcalls : t.calls = s.calls) :
    Faithful t ↔ Ordered t :=
  ⟨fun ht => ht.order, fun horder => ⟨horder, hcalls ▸ hs.calls⟩⟩

theorem faithful_pop (hone : OneBatch s) (hs : Faithful s) {batchSize : Nat} {reply : Reply}
    (h : step codec s (.pop drain batchSize reply) = some t) :
    Faithful t ↔ Clean s (.pop drain batchSize reply) := by
  rw [step] at h
  split at h
  · next hbatch =>
    have horder := hs.order
    unfold Ordered State.pending at horder
    cases reply with
    | refused =>
      cases h
      exact iff_of_true hs fun hreply => nomatch hreply
    | timedOut =>
      cases h
      refine (faithful_iff_ordered hs ?_).trans ⟨fun hafter _ => ?_, fun hempty => ?_⟩
      · rfl
      ·
        have hlen := length_of_order hs.order
        have hlen' := length_of_order hafter
        simp only [State.pending, List.length_append, List.length_reverse, List.length_drop]
          at hlen hlen'
        rw [← List.length_eq_zero_iff]
        omega
      · have hqueue : (s.queue.reverse.drop (min batchSize 50)).reverse = s.queue := by
          rcases hempty rfl with hzero | hnil
          · rw [hzero, Nat.zero_min, List.drop_zero, List.reverse_reverse]
          · rw [hnil]
            cases min batchSize 50 <;> rfl
        rw [hqueue]
        exact hs.order
    | answered =>
      cases h
      refine iff_of_true ((faithful_iff_ordered hs ?_).mpr ?_) fun hreply => nomatch hreply
      · rfl
      unfold Ordered State.pending
      dsimp only [rpop]
      rw [List.flatMap_append, flatMap_dropBatch hone hbatch, List.reverse_reverse,
        List.flatMap_singleton, List.append_assoc, List.take_append_drop]
      exact horder
  · cases h

theorem faithful_stop (hone : OneBatch s) (hs : Faithful s) :
    Faithful { s with hands := dropBatch drain s.hands } ↔ Clean s (.stop drain) := by
  refine (faithful_iff_ordered hs ?_).trans ⟨fun hafter => ?_, fun hempty => ?_⟩
  · rfl
  · have hlen := length_of_order hs.order
    have hlen' := length_of_order hafter
    have hdrop := length_dropBatch drain hone
    simp only [State.pending, List.length_append] at hlen hlen'
    rw [Clean, ← List.length_eq_zero_iff]
    omega
  · have horder := hs.order
    unfold Ordered State.pending at *
    rw [flatMap_dropBatch hone hempty]
    exact horder

theorem takeWhile_append {pre post : List (Nat × List Item)} {batch : List Item}
    (hpre : drain ∉ pre.map Prod.fst) :
    (pre ++ (drain, batch) :: post).takeWhile (fun hand => hand.1 ≠ drain) = pre := by
  rw [List.takeWhile_append_of_pos]
  · simp
  · intro hand hmem
    rw [decide_eq_true_eq]
    rintro rfl
    exact hpre (List.mem_map_of_mem hmem)

theorem map_batch (batch rest : List Item) {pre post : List (Nat × List Item)}
    (hpre : drain ∉ pre.map Prod.fst) (hpost : drain ∉ post.map Prod.fst) :
    ((pre ++ (drain, batch) :: post).map fun hand =>
      if hand.1 = drain then (drain, rest) else hand) = pre ++ (drain, rest) :: post := by
  have hkeep {hands : List (Nat × List Item)} (h : drain ∉ hands.map Prod.fst) :
      (hands.map fun hand => if hand.1 = drain then (drain, rest) else hand) = hands := by
    refine (List.map_congr_left fun hand hmem => if_neg ?_).trans (List.map_id hands)
    rintro rfl
    exact h (List.mem_map_of_mem hmem)
  rw [List.map_append, List.map_cons, hkeep hpre, hkeep hpost, if_pos rfl]

/-- An item is produced in its turn when no other is in front of it. -/
theorem in_turn (done front back : List (Message × Nat)) (m n : Message) (entry : Nat)
    {accepted : List Message} (h : done ++ (front ++ (m, entry) :: back) = accepted.zipIdx) :
    done ++ [(n, entry)] ++ (front ++ back) = accepted.zipIdx ↔ n = m ∧ front = [] := by
  constructor
  · intro hafter
    have hcancel : (n, entry) :: (front ++ back) = front ++ (m, entry) :: back := by
      rw [← h, List.append_assoc] at hafter
      exact List.append_cancel_left hafter
    cases front with
    | nil =>
      cases hcancel
      exact ⟨rfl, rfl⟩
    | cons x front =>
      -- the item in front would have the same number
      have hnodup : (accepted.zipIdx.map Prod.snd).Nodup := by
        rw [List.zipIdx_map_snd]
        exact List.nodup_range'
      rw [← h, List.map_append, List.nodup_append] at hnodup
      obtain ⟨rfl, -⟩ := List.cons.inj hcancel
      have hinner := hnodup.2.1
      simp at hinner
  · rintro ⟨rfl, rfl⟩
    rw [List.append_assoc]
    exact h

theorem faithful_produce (hone : OneBatch s) (hs : Faithful s) {takes : Bool}
    (h : step codec s (.produce drain takes) = some t) :
    Faithful t ↔ Clean s (.produce drain takes) := by
  rcases hands_cases s.hands hone drain with hmem | ⟨pre, batch, post, hhands, hpre, hpost⟩
  · rw [step, batchOf_of_not_mem hmem] at h
    cases h
  · have hbatch : batchOf drain s.hands = batch := by
      rw [hhands, batchOf_append hpre]
    rw [step, hbatch] at h
    cases batch with
    | nil => cases h
    | cons item rest =>
      have hmap := map_batch (item :: rest) rest hpre hpost
      rw [← hhands] at hmap
      dsimp only at h
      rw [hmap] at h
      have horder := hs.order
      unfold Ordered State.pending at horder
      rw [hhands, List.flatMap_append, List.flatMap_cons] at horder
      rw [Clean, hbatch, hhands, takeWhile_append hpre]
      cases takes with
      | false =>
        cases h
        refine (faithful_iff_ordered hs ?_).trans (iff_of_false ?_ ?_)
        · rfl
        · intro hafter
          have hlen := length_of_order hs.order
          have hlen' := length_of_order hafter
          rw [State.pending, hhands] at hlen
          simp only [State.pending, List.flatMap_append, List.flatMap_cons, List.length_append,
            List.length_cons] at hlen hlen'
          omega
        · rintro ⟨htakes, -⟩
          cases htakes
      | true =>
        have hrestore := restore_eq_iff codec item
        cases hr : restore codec (item.raw codec) with
        | none =>
          rw [restore_raw] at hr
          cases hr
        | some m =>
          rw [hr] at h hrestore
          cases h
          refine (faithful_iff_ordered hs ?_).trans ?_
          · rfl
          have hfront : (pre.flatMap Prod.snd).map Item.entered = [] ↔ ∀ hand ∈ pre, hand.2 = [] := by
            rw [List.map_eq_nil_iff, List.flatMap_eq_nil_iff]
          have hitem : s.drained ++ ((pre.flatMap Prod.snd).map Item.entered ++
              (item.message, item.entry) ::
                (rest ++ (post.flatMap Prod.snd ++ s.queue.reverse)).map Item.entered) =
              s.accepted.zipIdx := by
            rw [← horder]
            simp only [List.map_append, List.map_cons, List.append_assoc, List.cons_append,
              Item.entered]
          have hturn := in_turn _ _ _ _ m _ hitem
          rw [Option.some.injEq] at hrestore
          rw [hfront, hrestore] at hturn
          simp only [Option.mem_def, List.head?_cons, Option.some.injEq, forall_eq', true_and]
          rw [← hturn]
          unfold Ordered State.pending
          simp only [List.flatMap_append, List.flatMap_cons, List.map_append, List.append_assoc]

theorem faithful_step {e : Event} (hone : OneBatch s) (hs : Faithful s)
    (h : step codec s e = some t) : Faithful t ↔ Clean s e := by
  cases e with
  | call m enqueuedAt isOpen producing enqueuing =>
    cases h
    exact faithful_call hs m enqueuedAt isOpen producing enqueuing
  | pop drain batchSize reply => exact faithful_pop hone hs h
  | produce drain takes => exact faithful_produce hone hs h
  | stop drain =>
    cases h
    exact faithful_stop hone hs

theorem faithful_initial : Faithful {} := ⟨rfl, fun _ h => nomatch h⟩

/-- For every run of calls and drains: the queue is faithful and the answers are right in all of
its states exactly when all of its events are clean. -/
theorem fallback_queue_iff (codec : JsonCodec Raw) (events : List Event) (s : State)
    (h : run (step codec) {} events = some s) :
    Always (step codec) Faithful {} events ↔ Along (step codec) Clean {} events :=
  always_iff_along (I := OneBatch) (fun _ _ _ hone h => oneBatch_step hone h)
    (fun _ _ _ hone hs h => faithful_step hone hs h) List.nodup_nil faithful_initial h

section Examples

theorem some_id (document : Json) : some (id document) = some document := rfl

/-- Documents as they are. -/
def plainCodec : JsonCodec Json := ⟨id, some, some_id⟩

/-- A message that the broker refuses goes through the queue. -/
def detour (value : ByteArray) : List Event :=
  [.call { topic := "orders", value } .null false .refused .counted, .pop 0 100 .answered,
    .produce 0 true]

theorem detour_run (value : ByteArray) : run (step plainCodec) {} (detour value) = some
    { hands := [(0, [])]
      accepted := [{ topic := "orders", value }]
      drained := [({ topic := "orders", value := (decodeReplace value).toUTF8 }, 0)]
      calls := [⟨false, true, some false⟩] } := rfl

/-- A byte that is no UTF-8 is produced as a replacement character. -/
theorem bytes_replaced :
    ∃ s, run (step plainCodec) {} (detour ⟨#[0xFF]⟩) = some s ∧
      s.drained = [({ topic := "orders", value := ⟨#[0xEF, 0xBF, 0xBD]⟩ }, 0)] ∧
        ¬ Always (step plainCodec) Faithful {} (detour ⟨#[0xFF]⟩) := by
  have hdecode : (decodeReplace ⟨#[0xFF]⟩).toUTF8 = ⟨#[0xEF, 0xBF, 0xBD]⟩ := by decide +kernel
  refine ⟨_, detour_run _, by rw [hdecode], fun h => ?_⟩
  have horder := (h _ [] (List.append_nil _).symm _ (detour_run _)).order
  have hvalue : (⟨#[0xEF, 0xBF, 0xBD]⟩ : ByteArray) = ⟨#[0xFF]⟩ := by
    rw [← hdecode]
    exact congrArg Message.value (congrArg Prod.fst (List.cons.inj horder).1)
  cases hvalue

theorem fallback_queue_iff_text :
    Always (step plainCodec) Faithful {} (detour "42".toUTF8) := by
  refine (fallback_queue_iff plainCodec (detour "42".toUTF8) _ (detour_run _)).mpr ?_
  have hcall : Clean {} (.call { topic := "orders", value := "42".toUTF8 } .null false .refused .counted) :=
    ⟨.inr ⟨rfl, .inr rfl⟩, fun _ _ => Nat.zero_lt_succ _⟩
  refine ⟨hcall, fun s h => ?_⟩
  cases h
  refine ⟨(fun h => nomatch h), fun s h => ?_⟩
  cases h
  refine ⟨⟨rfl, fun item hitem => ?_, (fun hand hmem => nomatch hmem)⟩, fun s h => trivial⟩
  cases hitem
  exact ⟨"42".isValidUTF8, (fun key h => nomatch h), rfl⟩

end Examples

end PipelineIQ.Streaming.QueueFidelity
