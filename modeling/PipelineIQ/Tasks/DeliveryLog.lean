import Mathlib.Data.List.Nodup
import PipelineIQ.Lib.Machine
import PipelineIQ.Tasks.Webhooks

namespace PipelineIQ.Tasks.DeliveryLog

open PipelineIQ.Lib.Machine PipelineIQ.Tasks.Webhooks

/-- The task and the number of an attempt, as its row has them. -/
def attemptOf (e : Nat × WebhookDelivery) : Nat × Nat := (e.1, e.2.attemptNumber)

/-- The fan-out and the webhook of a delivery. -/
def target (e : Nat × Webhook) : Nat × Nat := (e.1, e.2.id)

/-- The rows are those of the attempts, one each, and no event reaches a webhook twice. -/
structure Accounted (w : World) : Prop where
  logged : (w.log.map attemptOf).Perm w.attempts
  once : (w.enqueued.map target).Nodup

/-- The outcomes of an attempt that leave one row: the address passes the first check, and then the
requests end with a success, a redirect that is blocked, or a request error. -/
structure LeavesOneRow (net : Net) (url : String) : Prop where
  passes : net.objection 0 url = none
  success : ∀ resp, postWithSafeRedirects net url = .response resp → succeeds resp = true
  handled : ∀ message, postWithSafeRedirects net url ≠ .raised (.other message)

/-- The condition of an event: an attempt has an outcome that leaves one row, and a try of a fan-out
enqueues no webhook that an earlier try has enqueued. -/
def Single (w : World) : Event → Prop
  | .deliver index net =>
    ∀ task, w.deliveries[index]? = some task → task.retries.isSome →
      ∀ webhook, (w.webhooks.find? fun wh => decide (wh.id = task.webhookId)) = some webhook →
        webhook.isActive → LeavesOneRow net webhook.url
  | .fanOut index _ fault =>
    ∀ task, w.fanOuts[index]? = some task → task.retries.isSome →
      ∀ wh ∈ enqueues w task fault, (index, wh.id) ∉ w.enqueued.map target
  | _ => True

/-- The webhooks have identifiers of their own. -/
structure Numbered (w : World) : Prop where
  nodup : (w.webhooks.map Webhook.id).Nodup
  below : ∀ wh ∈ w.webhooks, wh.id < w.nextWebhookId

variable {w t : World} {e : Event}

theorem numbered_of_sublist (h : Numbered w) (hsub : t.webhooks.Sublist w.webhooks)
    (hnext : t.nextWebhookId = w.nextWebhookId) : Numbered t where
  nodup := (hsub.map Webhook.id).nodup h.nodup
  below wh hwh := hnext ▸ h.below wh (hsub.subset hwh)

theorem deactivate_id (id : Nat) (wh : Webhook) : (deactivate id wh).id = wh.id := by
  unfold deactivate
  split <;> rfl

theorem deliverWebhook_webhooks (i : Nat) (task : DeliveryTask) (retries : Nat) (net : Net) :
    (deliverWebhook w i task retries net).webhooks = w.webhooks ∧
      (deliverWebhook w i task retries net).nextWebhookId = w.nextWebhookId ∧
        (deliverWebhook w i task retries net).enqueued = w.enqueued := by
  unfold deliverWebhook
  split
  · exact ⟨rfl, rfl, rfl⟩
  · split <;> exact ⟨rfl, rfl, rfl⟩

theorem numbered_step (h : Numbered w) (hstep : step w e = some t) : Numbered t := by
  cases e with
  | createRun name userId =>
    cases hstep
    exact ⟨h.nodup, h.below⟩
  | createWebhook userId url events =>
    cases hstep
    constructor
    · rw [List.map_append, List.nodup_append]
      refine ⟨h.nodup, List.nodup_singleton _, ?_⟩
      intro id hid id' hid'
      obtain ⟨wh, hwh, rfl⟩ := List.mem_map.mp hid
      rw [List.map_singleton, List.mem_singleton] at hid'
      exact hid' ▸ Nat.ne_of_lt (h.below wh hwh)
    · intro wh hwh
      rcases List.mem_append.mp hwh with hold | hnew
      · exact Nat.lt_succ_of_lt (h.below wh hold)
      · rw [List.mem_singleton.mp hnew]
        exact Nat.lt_succ_self _
  | deleteWebhook id =>
    cases hstep
    exact numbered_of_sublist h List.filter_sublist rfl
  | deactivateWebhook id =>
    cases hstep
    have hids : Webhook.id ∘ deactivate id = Webhook.id := funext fun wh => deactivate_id id wh
    constructor
    · rw [List.map_map, hids]
      exact h.nodup
    · intro wh hwh
      obtain ⟨old, hold, rfl⟩ := List.mem_map.mp hwh
      rw [deactivate_id]
      exact h.below old hold
  | deleteUser userId =>
    cases hstep
    exact numbered_of_sublist h List.filter_sublist rfl
  | finishRun runId summary =>
    obtain ⟨run, -, rfl⟩ := Option.map_eq_some_iff.mp hstep
    exact ⟨h.nodup, h.below⟩
  | fanOut index timestamp fault =>
    obtain ⟨task, -, hretries⟩ := Option.bind_eq_some_iff.mp hstep
    obtain ⟨retries, -, rfl⟩ := Option.map_eq_some_iff.mp hretries
    exact ⟨h.nodup, h.below⟩
  | deliver index net =>
    obtain ⟨task, -, hretries⟩ := Option.bind_eq_some_iff.mp hstep
    obtain ⟨retries, -, rfl⟩ := Option.map_eq_some_iff.mp hretries
    obtain ⟨hwebhooks, hnext, -⟩ := deliverWebhook_webhooks (w := w) index task retries net
    exact numbered_of_sublist h (hwebhooks ▸ List.Sublist.refl _) hnext

/-! ### The rows of an attempt -/

theorem attemptNumber_of_mem {net : Net} {webhook : Webhook} {payload : Payload} {k : Nat}
    {r : WebhookDelivery} (h : r ∈ (attempt net webhook payload k).1) : r.attemptNumber = k := by
  unfold attempt at h
  split at h
  · cases h
  · split at h
    · split at h
      · rw [List.mem_singleton.mp h]
        rfl
      · rcases List.mem_cons.mp h with rfl | h
        · rfl
        · rw [List.mem_singleton.mp h]
          rfl
    · rw [List.mem_singleton.mp h]
      rfl
    · rw [List.mem_singleton.mp h]
      rfl
    · cases h

theorem length_attempt_iff (net : Net) (webhook : Webhook) (payload : Payload) (k : Nat) :
    (attempt net webhook payload k).1.length = 1 ↔ LeavesOneRow net webhook.url := by
  unfold attempt
  split
  next hobjects =>
    refine iff_of_false (by simp) fun h => ?_
    rw [h.passes] at hobjects
    cases hobjects
  next hpasses =>
    have hpublic : net.objection 0 webhook.url = none := by simpa using hpasses
    split
    next resp hpost =>
      split
      next hsuccess =>
        refine iff_of_true rfl ⟨hpublic, fun resp' hresp => ?_, fun message hraised => ?_⟩
        · rw [hpost] at hresp
          cases hresp
          exact hsuccess
        · rw [hpost] at hraised
          cases hraised
      next hbad =>
        refine iff_of_false (by simp) fun h => hbad (h.success resp hpost)
    next message hpost =>
      refine iff_of_true rfl ⟨hpublic, fun resp hresp => ?_, fun message' hraised => ?_⟩
      · rw [hpost] at hresp
        cases hresp
      · rw [hpost] at hraised
        cases hraised
    next message hpost =>
      refine iff_of_true rfl ⟨hpublic, fun resp hresp => ?_, fun message' hraised => ?_⟩
      · rw [hpost] at hresp
        cases hresp
      · rw [hpost] at hraised
        cases hraised
    next message hpost =>
      exact iff_of_false (by simp) fun h => h.handled message hpost

/-- The rows of an attempt carry its number, so they account for it where there is one of them. -/
theorem logged_deliver_iff {w t : World} {i k : Nat} {rows : List WebhookDelivery}
    (h : (w.log.map attemptOf).Perm w.attempts) (hlog : t.log = w.log ++ rows.map fun r => (i, r))
    (hattempts : t.attempts = w.attempts ++ [(i, k)]) (hrows : ∀ r ∈ rows, r.attemptNumber = k) :
    (t.log.map attemptOf).Perm t.attempts ↔ rows.length = 1 := by
  constructor
  · intro hperm
    have hnew := hperm.length_eq
    have hold := h.length_eq
    rw [hlog, hattempts] at hnew
    simp only [List.length_map, List.length_append, List.length_singleton] at hnew hold
    omega
  · intro hone
    obtain ⟨r, rfl⟩ := List.length_eq_one_iff.mp hone
    rw [hlog, hattempts, List.map_append]
    have hr : attemptOf (i, r) = (i, k) := by
      rw [attemptOf, hrows r (List.mem_singleton_self r)]
    rw [List.map_singleton, List.map_singleton, hr]
    exact h.append_right _

/-- A delivery of an active webhook accounts for its attempt where the attempt leaves one row. -/
theorem accounted_deliver {i retries : Nat} {task : DeliveryTask} {net : Net} (h : Accounted w) :
    Accounted (deliverWebhook w i task retries net) ↔
      ∀ webhook, (w.webhooks.find? fun wh => decide (wh.id = task.webhookId)) = some webhook →
        webhook.isActive → LeavesOneRow net webhook.url := by
  unfold deliverWebhook
  split
  next hnone =>
    refine iff_of_true ⟨h.logged, h.once⟩ fun webhook hsome => ?_
    rw [hnone] at hsome
    cases hsome
  next webhook hsome =>
    split
    next hinactive =>
      refine iff_of_true ⟨h.logged, h.once⟩ fun webhook' hsome' hactive => ?_
      rw [hsome] at hsome'
      cases hsome'
      simp [hactive] at hinactive
    next hactive =>
      have hlogged := logged_deliver_iff (t := { w with
        deliveries := w.deliveries.set i { task with
          retries := nextRetries retries (attempt net webhook task.payload (retries + 1)).2 }
        attempts := w.attempts ++ [(i, retries + 1)]
        log := w.log ++ (attempt net webhook task.payload (retries + 1)).1.map fun r => (i, r) })
        h.logged rfl rfl fun r hr => attemptNumber_of_mem hr
      rw [length_attempt_iff] at hlogged
      constructor
      · intro hacc webhook' hsome' _
        rw [hsome] at hsome'
        cases hsome'
        exact hlogged.mp hacc.logged
      · intro hone
        have hwebhook : webhook.isActive = true := by simpa using hactive
        exact ⟨hlogged.mpr (hone webhook hsome hwebhook), h.once⟩

/-! ### The webhooks of a try -/

theorem enqueues_sublist {task : FanOutTask} {fault : Option Fault} :
    (enqueues w task fault).Sublist w.webhooks := by
  have hmatched : (matched w task).Sublist w.webhooks :=
    List.filter_sublist.trans List.filter_sublist
  cases fault with
  | none => exact hmatched
  | some fault =>
    cases fault with
    | query => exact List.nil_sublist _
    | enqueue done => exact (List.take_sublist done _).trans hmatched

/-- One try goes through every webhook at most once. -/
theorem targets_nodup {index : Nat} {task : FanOutTask} {fault : Option Fault} (h : Numbered w) :
    (((enqueues w task fault).map fun wh => (index, wh)).map target).Nodup := by
  have hids : ((enqueues w task fault).map Webhook.id).Nodup :=
    (enqueues_sublist.map Webhook.id).nodup h.nodup
  rw [List.map_map]
  have htarget : (target ∘ fun wh : Webhook => (index, wh)) = Prod.mk index ∘ Webhook.id := rfl
  rw [htarget, ← List.map_map]
  exact hids.map fun _ _ hpair => (Prod.mk.inj hpair).2

theorem accounted_fanOut {index retries : Nat} {task : FanOutTask} {timestamp : String}
    {fault : Option Fault} (hnum : Numbered w) (h : Accounted w) :
    Accounted (deliverWebhooksTask w index task retries timestamp fault) ↔
      ∀ wh ∈ enqueues w task fault, (index, wh.id) ∉ w.enqueued.map target := by
  have honce : ((w.enqueued ++ (enqueues w task fault).map fun wh => (index, wh)).map target).Nodup ↔
      ∀ wh ∈ enqueues w task fault, (index, wh.id) ∉ w.enqueued.map target := by
    rw [List.map_append, List.nodup_append']
    constructor
    · rintro ⟨-, -, hdisjoint⟩ wh hwh hold
      exact hdisjoint hold (List.mem_map_of_mem (List.mem_map_of_mem hwh))
    · intro hfresh
      refine ⟨h.once, targets_nodup hnum, fun pair hold hnew => ?_⟩
      obtain ⟨e, he, rfl⟩ := List.mem_map.mp hnew
      obtain ⟨wh, hwh, rfl⟩ := List.mem_map.mp he
      exact hfresh wh hwh hold
  exact ⟨fun hacc => honce.mp hacc.once, fun hfresh => ⟨h.logged, honce.mpr hfresh⟩⟩

/-! ### Runs -/

theorem single_of_eq_none (h : step w e = none) : Single w e := by
  cases e with
  | fanOut index timestamp fault =>
    intro task htask hretries
    obtain ⟨retries, hretries⟩ := Option.isSome_iff_exists.mp hretries
    rw [step, htask, Option.bind_some, hretries] at h
    cases h
  | deliver index net =>
    intro task htask hretries
    obtain ⟨retries, hretries⟩ := Option.isSome_iff_exists.mp hretries
    rw [step, htask, Option.bind_some, hretries] at h
    cases h
  | _ => trivial

/-- An event keeps the accounts exactly where it meets its condition. -/
theorem accounted_step (hnum : Numbered w) (h : Accounted w) (hstep : step w e = some t) :
    Accounted t ↔ Single w e := by
  cases e with
  | fanOut index timestamp fault =>
    obtain ⟨task, htask, hretries⟩ := Option.bind_eq_some_iff.mp hstep
    obtain ⟨retries, hsome, rfl⟩ := Option.map_eq_some_iff.mp hretries
    rw [accounted_fanOut hnum h]
    constructor
    · intro hfresh task' htask' _
      rw [htask] at htask'
      cases htask'
      exact hfresh
    · intro hsingle
      exact hsingle task htask (hsome ▸ rfl)
  | deliver index net =>
    obtain ⟨task, htask, hretries⟩ := Option.bind_eq_some_iff.mp hstep
    obtain ⟨retries, hsome, rfl⟩ := Option.map_eq_some_iff.mp hretries
    rw [accounted_deliver h]
    constructor
    · intro hone task' htask' _
      rw [htask] at htask'
      cases htask'
      exact hone
    · intro hsingle
      exact hsingle task htask (hsome ▸ rfl)
  | finishRun runId summary =>
    obtain ⟨run, -, rfl⟩ := Option.map_eq_some_iff.mp hstep
    exact iff_of_true ⟨h.logged, h.once⟩ trivial
  | _ =>
    cases hstep
    exact iff_of_true ⟨h.logged, h.once⟩ trivial

section Examples

def owner : Uuid := ⟨"u", by decide⟩

def answering (status : Nat) : Net where
  objection := fun _ _ => none
  send := fun _ _ _ => .ok ⟨status, "", none⟩
  urljoin := fun _ location => location

/-- A webhook answers its first delivery with an internal server error. -/
def serverError : List Event :=
  [.createWebhook owner "https://hook" ["pipeline_failed"], .createRun "orders" (some owner),
    .finishRun 0 ⟨"failed", 5, 1, 10⟩, .fanOut 0 "now" none, .deliver 0 (answering 500)]

/-- The second of two webhooks cannot be enqueued, and the fan-out is tried again. -/
def fanOutRetried : List Event :=
  [.createWebhook owner "https://one" ["pipeline_failed"],
    .createWebhook owner "https://two" ["pipeline_failed"], .createRun "orders" (some owner),
    .finishRun 0 ⟨"failed", 5, 1, 10⟩, .fanOut 0 "now" (some (.enqueue 1)), .fanOut 0 "later" none]

end Examples

end PipelineIQ.Tasks.DeliveryLog
