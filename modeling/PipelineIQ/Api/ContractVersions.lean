import PipelineIQ.Api.Contracts
import PipelineIQ.Lib.Machine
import PipelineIQ.Lib.Traverse

namespace PipelineIQ.Api.ContractVersions

open PipelineIQ.Lib.Machine PipelineIQ.Lib.Traverse PipelineIQ.Models PipelineIQ.Api.Contracts

variable {tables : Tables} {db t : Db} {currentUser : User} {pipelineName userId : String}
  {contractId version : Nat} {body : ContractRequest} {existing : PipelineContract} {call : Call}

/-! ### What an accepted call does -/

theorem createContract_ok : createContract tables db currentUser pipelineName body = .ok t ↔
    ensurePipelineContractAccess tables db currentUser pipelineName [.OWNER] true = .ok () ∧
      t = addContract db currentUser pipelineName (nextVersion db currentUser pipelineName) body := by
  unfold createContract
  cases ensurePipelineContractAccess tables db currentUser pipelineName [.OWNER] true with
  | error e => simp [bind, Except.bind]
  | ok u => simp [bind, Except.bind, pure, Except.pure, eq_comm]

theorem updateContract_ok :
    updateContract tables db currentUser pipelineName contractId body = .ok t ↔
    ensurePipelineContractAccess tables db currentUser pipelineName [.OWNER] false = .ok () ∧
      ∃ existing, findContract db currentUser pipelineName contractId = .ok existing ∧
        t = addContract { db with contracts := db.contracts.map (deactivate existing.id) } currentUser
          pipelineName (existing.version + 1) body := by
  unfold updateContract
  cases ensurePipelineContractAccess tables db currentUser pipelineName [.OWNER] false with
  | error e => simp [bind, Except.bind]
  | ok u =>
    cases findContract db currentUser pipelineName contractId with
    | error e => simp [bind, Except.bind]
    | ok c => simp [bind, Except.bind, pure, Except.pure, eq_comm]

theorem deleteContract_ok :
    deleteContract tables db currentUser pipelineName contractId = .ok t →
    ∃ contract : PipelineContract, t =
      { db with contracts := db.contracts.filter fun c => decide (c.id ≠ contract.id) } := by
  intro h
  unfold deleteContract at h
  obtain ⟨u, -, h⟩ := bind_ok h
  obtain ⟨contract, -, h⟩ := bind_ok h
  cases h
  exact ⟨contract, rfl⟩

/-- Only the contracts of the caller on the pipeline get a new one. -/
theorem own_add_of_ne {name user : String} (h : ¬ (pipelineName = name ∧ currentUser.id = user)) :
    own (addContract db currentUser pipelineName version body) name user = own db name user := by
  simp [own, addContract, h]

theorem own_add_self (db : Db) (currentUser : User) (pipelineName : String) (version : Nat)
    (body : ContractRequest) : ∃ c : PipelineContract, c.isActive = true ∧ c.version = version ∧
    own (addContract db currentUser pipelineName version body) pipelineName currentUser.id =
      own db pipelineName currentUser.id ++ [c] := by
  refine ⟨⟨db.nextId, pipelineName, version, body.yamlContent, body.severity, body.consumers,
    currentUser.id, true⟩, rfl, rfl, ?_⟩
  simp [own, addContract]

theorem deactivate_fields (c : PipelineContract) :
    (deactivate contractId c).id = c.id ∧ (deactivate contractId c).pipelineName = c.pipelineName ∧
      (deactivate contractId c).userId = c.userId ∧
        (deactivate contractId c).version = c.version := by
  unfold deactivate
  split <;> exact ⟨rfl, rfl, rfl, rfl⟩

theorem isActive_deactivate (c : PipelineContract) :
    (deactivate contractId c).isActive = true ↔ c.isActive = true ∧ c.id ≠ contractId := by
  unfold deactivate
  split
  next h => simp [h]
  next h => simp [h]

theorem own_deactivate : own { db with contracts := db.contracts.map (deactivate contractId) }
    pipelineName userId = (own db pipelineName userId).map (deactivate contractId) := by
  unfold own
  rw [List.filter_map]
  congr 2
  funext c
  simp [(deactivate_fields c).2.1, (deactivate_fields c).2.2.1]

/-! ### Versions and active contracts -/

theorem mem_contractQuery {c : PipelineContract} (hc : c ∈ db.contracts)
    (hu : c.userId = currentUser.id) : c ∈ contractQuery db currentUser := by
  unfold contractQuery
  split
  · exact hc
  · exact List.mem_filter.mpr ⟨hc, decide_eq_true hu⟩

theorem mem_own {c : PipelineContract} : c ∈ own db pipelineName userId ↔
    c ∈ db.contracts ∧ c.pipelineName = pipelineName ∧ c.userId = userId := by
  simp [own]

/-- A created contract has a version above all of the caller's. -/
theorem version_lt_nextVersion {c : PipelineContract}
    (hc : c ∈ own db pipelineName currentUser.id) :
    c.version < nextVersion db currentUser pipelineName := by
  obtain ⟨hmem, hname, huser⟩ := mem_own.mp hc
  have hin : c.version ∈ ((contractQuery db currentUser).filter fun c =>
      decide (c.pipelineName = pipelineName)).map PipelineContract.version :=
    List.mem_map_of_mem (List.mem_filter.mpr ⟨mem_contractQuery hmem huser, decide_eq_true hname⟩)
  unfold nextVersion
  cases hmax : (((contractQuery db currentUser).filter fun c =>
      decide (c.pipelineName = pipelineName)).map PipelineContract.version).max? with
  | none =>
    rw [List.max?_eq_none_iff] at hmax
    rw [hmax] at hin
    cases hin
  | some latest =>
    have hle := (List.max?_eq_some_iff.mp hmax).2 _ hin
    dsimp only
    omega

/-- Adding a contract keeps the rows apart exactly where no other one is active and none has its
version. -/
theorem exclusive_add (h : Exclusive db) :
    Exclusive (addContract db currentUser pipelineName version body) ↔
      ∀ c ∈ own db pipelineName currentUser.id, c.isActive = false ∧ c.version ≠ version := by
  obtain ⟨new, hactive, hversion, hself⟩ := own_add_self db currentUser pipelineName version body
  constructor
  · intro hnew c hc
    constructor
    · have hcount := hnew.active pipelineName currentUser.id
      rw [hself, List.countP_append, List.countP_singleton, if_pos hactive] at hcount
      have hzero : (own db pipelineName currentUser.id).countP PipelineContract.isActive = 0 := by
        omega
      exact Bool.eq_false_iff.mpr (List.countP_eq_zero.mp hzero c hc)
    · rintro rfl
      have hnodup := hnew.versions pipelineName currentUser.id
      rw [hself, List.map_append, List.nodup_append] at hnodup
      exact hnodup.2.2 _ (List.mem_map_of_mem hc) _ (List.mem_map_of_mem List.mem_cons_self)
        hversion.symm
  · intro hfree
    have hzero : (own db pipelineName currentUser.id).countP PipelineContract.isActive = 0 :=
      List.countP_eq_zero.mpr fun c hc => Bool.eq_false_iff.mp (hfree c hc).1
    constructor
    · intro name user
      by_cases hown : pipelineName = name ∧ currentUser.id = user
      · obtain ⟨rfl, rfl⟩ := hown
        rw [hself, List.countP_append, List.countP_singleton, if_pos hactive]
        omega
      · rw [own_add_of_ne hown]
        exact h.active name user
    · intro name user
      by_cases hown : pipelineName = name ∧ currentUser.id = user
      · obtain ⟨rfl, rfl⟩ := hown
        rw [hself, List.map_append, List.nodup_append]
        refine ⟨h.versions pipelineName currentUser.id, List.nodup_singleton _, ?_⟩
        intro v hv w hw
        obtain ⟨c, hc, rfl⟩ := List.mem_map.mp hv
        obtain rfl : w = new.version := List.mem_singleton.mp hw
        exact hversion ▸ (hfree c hc).2
      · rw [own_add_of_ne hown]
        exact h.versions name user

theorem exclusive_deactivate (h : Exclusive db) :
    Exclusive { db with contracts := db.contracts.map (deactivate contractId) } := by
  constructor
  · intro name user
    rw [own_deactivate, List.countP_map]
    refine Nat.le_trans (List.countP_mono_left ?_) (h.active name user)
    intro c _ hc
    exact ((isActive_deactivate c).mp hc).1
  · intro name user
    rw [own_deactivate, List.map_map]
    have hversion : PipelineContract.version ∘ deactivate contractId = PipelineContract.version :=
      funext fun c => (deactivate_fields c).2.2.2
    rw [hversion]
    exact h.versions name user

theorem exclusive_delete (h : Exclusive db) {keep : PipelineContract → Bool} :
    Exclusive { db with contracts := db.contracts.filter keep } := by
  have hsub : ∀ name user, (own { db with contracts := db.contracts.filter keep } name user).Sublist
      (own db name user) := fun name user => List.filter_sublist.filter _
  constructor
  · intro name user
    exact Nat.le_trans ((hsub name user).countP_le) (h.active name user)
  · intro name user
    exact ((hsub name user).map _).nodup (h.versions name user)

theorem exclusive_update (h : Exclusive db) :
    Exclusive (addContract { db with contracts := db.contracts.map (deactivate contractId) }
        currentUser pipelineName version body) ↔
      ∀ c ∈ own db pipelineName currentUser.id,
        (c.isActive → c.id = contractId) ∧ c.version ≠ version := by
  rw [exclusive_add (exclusive_deactivate h), own_deactivate, List.forall_mem_map]
  refine forall₂_congr fun c _ => and_congr ?_ ?_
  · rw [Bool.eq_false_iff, ne_eq, isActive_deactivate, not_and_not_right]
  · rw [(deactivate_fields c).2.2.2]

@[simp] theorem answer_create : answer db ⟨tables, currentUser, pipelineName, .create body⟩ =
    createContract tables db currentUser pipelineName body := rfl

@[simp] theorem answer_update :
    answer db ⟨tables, currentUser, pipelineName, .update contractId body⟩ =
      updateContract tables db currentUser pipelineName contractId body := rfl

@[simp] theorem answer_delete : answer db ⟨tables, currentUser, pipelineName, .delete contractId⟩ =
    deleteContract tables db currentUser pipelineName contractId := rfl

theorem step_ok (h : answer db call = .ok t) : step db call = some t := by
  rw [step, h]

theorem step_error {e : HTTPException} (h : answer db call = .error e) : step db call = some db := by
  rw [step, h]

theorem exclusive_create (h : Exclusive db)
    (hok : answer db ⟨tables, currentUser, pipelineName, .create body⟩ = .ok t) :
    Exclusive t ↔ Orderly db ⟨tables, currentUser, pipelineName, .create body⟩ := by
  obtain ⟨haccess, rfl⟩ := createContract_ok.mp hok
  rw [exclusive_add h]
  constructor
  · intro hfree _ c hc
    exact (hfree c hc).1
  · intro hfree c hc
    exact ⟨hfree haccess c hc, Nat.ne_of_lt (version_lt_nextVersion hc)⟩

theorem exclusive_replace (h : Exclusive db)
    (hok : answer db ⟨tables, currentUser, pipelineName, .update contractId body⟩ = .ok t) :
    Exclusive t ↔ Orderly db ⟨tables, currentUser, pipelineName, .update contractId body⟩ := by
  obtain ⟨haccess, existing, hfind, rfl⟩ := updateContract_ok.mp hok
  rw [exclusive_update h]
  constructor
  · intro hfree _ existing' hfind'
    rw [hfind] at hfind'
    cases hfind'
    exact hfree
  · intro hfree
    exact hfree haccess existing hfind

/-- A call that is refused has nothing to meet. -/
theorem orderly_of_error {e : HTTPException} (h : answer db call = .error e) : Orderly db call := by
  obtain ⟨tables, currentUser, pipelineName, request⟩ := call
  cases request with
  | create body =>
    intro haccess
    have hok : createContract tables db currentUser pipelineName body = .ok _ :=
      createContract_ok.mpr ⟨haccess, rfl⟩
    rw [answer_create, hok] at h
    cases h
  | update contractId body =>
    intro haccess existing hfind
    have hok : updateContract tables db currentUser pipelineName contractId body = .ok _ :=
      updateContract_ok.mpr ⟨haccess, existing, hfind, rfl⟩
    rw [answer_update, hok] at h
    cases h
  | delete contractId => trivial

/-- A call keeps the rows apart exactly where it meets its condition. -/
theorem exclusive_step (h : Exclusive db) (hstep : step db call = some t) :
    Exclusive t ↔ Orderly db call := by
  cases hanswer : answer db call with
  | error e =>
    rw [step_error hanswer] at hstep
    cases hstep
    exact iff_of_true h (orderly_of_error hanswer)
  | ok db' =>
    rw [step_ok hanswer] at hstep
    cases hstep
    obtain ⟨tables, currentUser, pipelineName, request⟩ := call
    cases request with
    | create body => exact exclusive_create h hanswer
    | update contractId body => exact exclusive_replace h hanswer
    | delete contractId =>
      obtain ⟨contract, rfl⟩ := deleteContract_ok hanswer
      exact iff_of_true (exclusive_delete h) trivial

theorem step_ne_none : step db call ≠ none := by
  cases hanswer : answer db call with
  | error e => simp [step_error hanswer]
  | ok t => simp [step_ok hanswer]

theorem exclusive_empty : Exclusive {} := by
  constructor
  · intro name user
    exact Nat.zero_le 1
  · intro name user
    exact List.nodup_nil

/-- In a sequence of calls, every pipeline and user has at most one active contract and no two of
one version throughout exactly when every call meets its condition. -/
theorem contracts_exclusive_iff (calls : List Call) :
    Always step Exclusive {} calls ↔ Along step Orderly {} calls := by
  apply always_iff_along_all (I := fun _ => True)
  · exact fun _ _ _ _ _ => trivial
  · exact fun _ _ hnone => absurd hnone step_ne_none
  · exact fun _ _ _ _ h hstep => exclusive_step h hstep
  · trivial
  · exact exclusive_empty

section Examples

def alice : User := ⟨"alice", "viewer"⟩

def created (yamlContent : String) : Call := ⟨{}, alice, "orders", .create ⟨yamlContent, .WARN, []⟩⟩

def updated (contractId : Nat) : Call :=
  ⟨{}, alice, "orders", .update contractId ⟨"b: 2", .WARN, []⟩⟩

/-- A second contract leaves the first one active, and a second update of the first version makes
its successor twice. -/
theorem contracts_collide : ¬ Always step Exclusive {} [created "a: 1", created "b: 2"] ∧
    ¬ Always step Exclusive {} [created "a: 1", updated 0, updated 0] := by
  constructor
  · intro h
    have hexclusive := h [created "a: 1", created "b: 2"] [] rfl _ rfl
    exact absurd (hexclusive.active "orders" "alice") (by decide)
  · intro h
    have hexclusive := h [created "a: 1", updated 0, updated 0] [] rfl _ rfl
    exact absurd (hexclusive.versions "orders" "alice") (by decide)

end Examples

end PipelineIQ.Api.ContractVersions
