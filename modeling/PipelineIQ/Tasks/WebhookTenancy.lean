import PipelineIQ.Lib.Machine
import PipelineIQ.Tasks.Webhooks

namespace PipelineIQ.Tasks.WebhookTenancy

open PipelineIQ.Lib.Machine PipelineIQ.Tasks.Webhooks

/-- Every webhook that was enqueued for a run belongs to the owner that the run had when its event
was raised; a run without an owner has none. -/
def Tenant (w : World) : Prop :=
  ∀ e ∈ w.enqueued, ∃ task, w.fanOuts[e.1]? = some task ∧ task.owner = some e.2.userId

/-- The condition of an event: a run without an owner raises an event that no active webhook
subscribes to, or its fan-out raises before it enqueues anything. -/
def Owned (w : World) : Event → Prop
  | .fanOut index _ fault =>
    ∀ task, w.fanOuts[index]? = some task → task.retries.isSome → task.owner = none →
      (∀ wh ∈ w.webhooks, wh.isActive → eventTypeOf task.summary ∉ wh.events) ∨
        fault = some .query ∨ fault = some (.enqueue 0)
  | _ => True

/-- A queued fan-out carries the text of its owner. -/
def Addressed (w : World) : Prop := ∀ task ∈ w.fanOuts, task.userId = userIdText task.owner

variable {w t : World} {e : Event} {task : FanOutTask}

theorem uuid_ext {u v : Uuid} (h : u.text = v.text) : u = v := by
  cases u
  cases v
  cases h
  rfl

theorem userIdText_eq_empty {owner : Option Uuid} : userIdText owner = "" ↔ owner = none := by
  cases owner with
  | none => simp [userIdText]
  | some u => simp [userIdText, u.nonempty]

theorem mem_matched {wh : Webhook} : wh ∈ matched w task ↔ wh ∈ w.webhooks ∧ wh.isActive ∧
    (task.userId = "" ∨ wh.userId.text = task.userId) ∧ eventTypeOf task.summary ∈ wh.events := by
  simp only [matched, queried, List.mem_filter, Bool.and_eq_true, Bool.or_eq_true, beq_iff_eq,
    decide_eq_true_eq, and_assoc]

theorem enqueues_subset {fault : Option Fault} {wh : Webhook} (h : wh ∈ enqueues w task fault) :
    wh ∈ matched w task := by
  unfold enqueues at h
  split at h
  · exact h
  · cases h
  · exact List.mem_of_mem_take h

/-- A fan-out with an owner goes to the owner's webhooks. -/
theorem owner_of_enqueues {u : Uuid} {fault : Option Fault} {wh : Webhook}
    (haddress : task.userId = userIdText task.owner) (howner : task.owner = some u)
    (h : wh ∈ enqueues w task fault) : wh.userId = u := by
  rw [howner] at haddress
  obtain ⟨-, -, huser, -⟩ := mem_matched.mp (enqueues_subset h)
  rcases huser with hempty | hsame
  · exact absurd (haddress.symm.trans hempty) u.nonempty
  · exact uuid_ext (hsame.trans haddress)

/-- A fan-out without an owner goes to every active webhook of the event. -/
theorem enqueues_eq_nil_iff {fault : Option Fault}
    (haddress : task.userId = userIdText task.owner) (howner : task.owner = none) :
    enqueues w task fault = [] ↔
      (∀ wh ∈ w.webhooks, wh.isActive → eventTypeOf task.summary ∉ wh.events) ∨
        fault = some .query ∨ fault = some (.enqueue 0) := by
  have hmatched : matched w task = [] ↔
      ∀ wh ∈ w.webhooks, wh.isActive → eventTypeOf task.summary ∉ wh.events := by
    have hempty : task.userId = "" := by rw [haddress, userIdText_eq_empty, howner]
    rw [List.eq_nil_iff_forall_not_mem]
    simp only [mem_matched, hempty, true_or, true_and, not_and]
  rw [← hmatched]
  cases fault with
  | none => simp [enqueues]
  | some fault =>
    cases fault with
    | query => simp [enqueues]
    | enqueue done => simp [enqueues, List.take_eq_nil_iff, or_comm]

theorem addressed_step (h : Addressed w) (hstep : step w e = some t) : Addressed t := by
  cases e with
  | finishRun runId summary =>
    obtain ⟨run, -, rfl⟩ := Option.map_eq_some_iff.mp hstep
    intro task htask
    rcases List.mem_append.mp htask with hold | hnew
    · exact h task hold
    · rw [List.mem_singleton.mp hnew]
  | fanOut index timestamp fault =>
    obtain ⟨task, htask, hretries⟩ := Option.bind_eq_some_iff.mp hstep
    obtain ⟨retries, -, rfl⟩ := Option.map_eq_some_iff.mp hretries
    intro task' htask'
    rcases List.mem_or_eq_of_mem_set htask' with hold | rfl
    · exact h task' hold
    · exact h task (List.mem_of_getElem? htask)
  | deliver index net =>
    obtain ⟨task, -, hretries⟩ := Option.bind_eq_some_iff.mp hstep
    obtain ⟨retries, -, rfl⟩ := Option.map_eq_some_iff.mp hretries
    unfold deliverWebhook
    split
    · exact h
    · split <;> exact h
  | _ =>
    cases hstep
    exact h

/-- What was enqueued stays in order while the fan-outs keep their owners. -/
theorem tenant_of_owners (h : Tenant w) (henqueued : t.enqueued = w.enqueued)
    (howners : ∀ (i : Nat) (task : FanOutTask), w.fanOuts[i]? = some task →
      ∃ task', t.fanOuts[i]? = some task' ∧ task'.owner = task.owner) : Tenant t := by
  intro e he
  rw [henqueued] at he
  obtain ⟨task, htask, howner⟩ := h e he
  obtain ⟨task', htask', hsame⟩ := howners _ task htask
  exact ⟨task', htask', hsame.trans howner⟩

theorem tenant_fanOut {index retries : Nat} {timestamp : String} {fault : Option Fault}
    (h : Tenant w) (htask : w.fanOuts[index]? = some task) :
    Tenant (deliverWebhooksTask w index task retries timestamp fault) ↔
      ∀ wh ∈ enqueues w task fault, task.owner = some wh.userId := by
  have hlt : index < w.fanOuts.length := (List.getElem?_eq_some_iff.mp htask).1
  constructor
  · intro hnew wh hwh
    have hmem : (index, wh) ∈
        (deliverWebhooksTask w index task retries timestamp fault).enqueued :=
      List.mem_append_right _ (List.mem_map_of_mem hwh)
    obtain ⟨task', htask', howner⟩ := hnew _ hmem
    rw [deliverWebhooksTask, List.getElem?_set_self hlt] at htask'
    cases htask'
    exact howner
  · intro howned e he
    rcases List.mem_append.mp he with hold | hnew
    · obtain ⟨task', htask', howner⟩ := h e hold
      by_cases hindex : index = e.1
      · subst hindex
        rw [htask] at htask'
        cases htask'
        exact ⟨_, List.getElem?_set_self hlt, howner⟩
      · exact ⟨task', by rw [deliverWebhooksTask, List.getElem?_set_ne hindex, htask'], howner⟩
    · obtain ⟨wh, hwh, rfl⟩ := List.mem_map.mp hnew
      exact ⟨_, List.getElem?_set_self hlt, howned wh hwh⟩

theorem owned_of_eq_none (h : step w e = none) : Owned w e := by
  cases e with
  | fanOut index timestamp fault =>
    intro task htask hretries
    obtain ⟨retries, hretries⟩ := Option.isSome_iff_exists.mp hretries
    rw [step, htask, Option.bind_some, hretries] at h
    cases h
  | _ => trivial

/-- An event keeps the deliveries with the owners exactly where it meets its condition. -/
theorem tenant_step (haddress : Addressed w) (h : Tenant w) (hstep : step w e = some t) :
    Tenant t ↔ Owned w e := by
  cases e with
  | fanOut index timestamp fault =>
    obtain ⟨task, htask, hretries⟩ := Option.bind_eq_some_iff.mp hstep
    obtain ⟨retries, hsome, rfl⟩ := Option.map_eq_some_iff.mp hretries
    have hto := haddress task (List.mem_of_getElem? htask)
    rw [tenant_fanOut h htask]
    constructor
    · intro howned task' htask' _ howner
      rw [htask] at htask'
      cases htask'
      rw [← enqueues_eq_nil_iff hto howner, List.eq_nil_iff_forall_not_mem]
      intro wh hwh
      have := howned wh hwh
      rw [howner] at this
      cases this
    · intro hguard wh hwh
      cases howner : task.owner with
      | some u => rw [owner_of_enqueues hto howner hwh]
      | none =>
        have hnil := (enqueues_eq_nil_iff hto howner).mpr
          (hguard task htask (hsome ▸ rfl) howner)
        rw [hnil] at hwh
        cases hwh
  | finishRun runId summary =>
    obtain ⟨run, -, rfl⟩ := Option.map_eq_some_iff.mp hstep
    refine iff_of_true (tenant_of_owners h rfl fun i task htask => ?_) trivial
    have hlt : i < w.fanOuts.length := (List.getElem?_eq_some_iff.mp htask).1
    exact ⟨task, by rw [finishRun, List.getElem?_append_left hlt, htask], rfl⟩
  | deliver index net =>
    obtain ⟨task, -, hretries⟩ := Option.bind_eq_some_iff.mp hstep
    obtain ⟨retries, -, rfl⟩ := Option.map_eq_some_iff.mp hretries
    refine iff_of_true ?_ trivial
    unfold deliverWebhook
    split
    · exact h
    · split <;> exact h
  | _ =>
    cases hstep
    exact iff_of_true h trivial

/-- In a run of the system, every webhook gets deliveries for its user's runs only, exactly when
every event of the run meets its condition. -/
theorem webhooks_tenant_iff (events : List Event) :
    Always step Tenant {} events ↔ Along step Owned {} events := by
  apply always_iff_along_all (I := Addressed)
  · exact fun _ _ _ h hstep => addressed_step h hstep
  · exact fun _ _ hnone => owned_of_eq_none hnone
  · exact fun _ _ _ haddress h hstep => tenant_step haddress h hstep
  · exact fun _ h => nomatch h
  · exact fun _ h => nomatch h

section Examples

def alice : Uuid := ⟨"a", by decide⟩
def bob : Uuid := ⟨"b", by decide⟩

/-- The owner of a run is deleted before the run ends. -/
def ownerDeleted : List Event :=
  [.createWebhook bob "https://bob.example" ["pipeline_completed"], .createRun "orders" (some alice),
    .deleteUser alice, .finishRun 0 ⟨"completed", 5, 1, 10⟩, .fanOut 0 "now" none]

/-- The event of a run without an owner goes to a stranger. -/
theorem stranger_notified : ¬ Always step Tenant {} ownerDeleted := by
  intro h
  obtain ⟨task, htask, howner⟩ := h ownerDeleted [] rfl _ rfl
    (0, ⟨0, bob, "https://bob.example", ["pipeline_completed"], true⟩) (by decide)
  cases htask
  cases howner

end Examples

end PipelineIQ.Tasks.WebhookTenancy
