import PipelineIQ.Api.NameAccess

namespace PipelineIQ.Api.NameConfinement

open PipelineIQ.Lib.Machine PipelineIQ.Lib.Traverse PipelineIQ.Models PipelineIQ.Api.NameAccess
open PipelineIQ.Api.Pipelines hiding Db PipelineContract
open PipelineIQ.Api.Contracts (PipelineContract Tables contractQuery findContract deactivate
  addContract ensurePipelineContractAccess)

variable {Yaml Steps : Type} {insiders : Set String} {name pipelineName : String} {user : User}
  {s t w : World Yaml}

/-! ### What an outsider is refused -/

section Refused

variable (h : Confined insiders name w) (hout : user.id ∉ insiders)
include h hout

theorem permission_outside : ∀ p ∈ w.permissions, ¬ (p.pipelineName = name ∧ p.userId = user.id) := by
  rintro p hp ⟨hname, huser⟩
  apply hout
  rw [← huser]
  exact h.view.permissions p (List.mem_filter.mpr ⟨hp, decide_eq_true hname⟩)

theorem contract_outside : ∀ c ∈ w.contracts.contracts,
    ¬ (c.pipelineName = name ∧ c.userId = user.id) := by
  rintro c hc ⟨hname, huser⟩
  apply hout
  rw [← huser]
  exact h.view.contracts c (List.mem_filter.mpr ⟨hc, decide_eq_true hname⟩)

theorem schedule_outside : ∀ x ∈ w.schedules, x.userId = user.id → x.pipelineName ≠ name := by
  rintro x hx huser hname
  apply hout
  rw [← huser]
  exact h.view.schedules x (List.mem_filter.mpr ⟨hx, decide_eq_true hname⟩)

variable (hrole : user.role ≠ "admin")
include hrole

theorem check_outside (levels : List PermissionLevel) (grantOwner : Bool) :
    checkPipelinePermission w.db user name levels grantOwner = .error notFound := by
  have hcontract : (w.db.contracts.any fun contract =>
      decide (contract.pipelineName = name ∧ contract.userId = user.id)) = false := by
    rw [List.any_eq_false]
    intro contract hc
    obtain ⟨c, hmem, rfl⟩ := List.mem_map.mp hc
    rw [decide_eq_true_eq]
    exact contract_outside h hout c hmem
  have hpermission : findPermission w.db user name = none := by
    rw [findPermission, List.find?_eq_none]
    intro p hp
    rw [concerns, decide_eq_true_eq]
    exact permission_outside h hout p hp
  have hused : nameInUse w.db name = true := by
    obtain ⟨r, hr, hname⟩ := h.used
    rw [nameInUse, Bool.or_eq_true, Bool.or_eq_true, List.any_eq_true]
    exact .inl (.inl ⟨r, hr, decide_eq_true hname⟩)
  have hfree : ¬ (grantOwner = true ∧ nameInUse w.db name = false) := by
    rw [hused]
    rintro ⟨-, ⟨⟩⟩
  rw [checkPipelinePermission, if_neg hrole, hcontract, hpermission]
  exact if_neg hfree

theorem access_outside (levels : List PermissionLevel) (allowNew : Bool) :
    ensurePipelineContractAccess w.tables w.contracts user name levels allowNew =
      .error Contracts.notAuthorized := by
  have hcontract : (w.contracts.contracts.any fun c =>
      decide (c.pipelineName = name ∧ c.userId = user.id)) = false := by
    rw [List.any_eq_false]
    intro c hc
    rw [decide_eq_true_eq]
    exact contract_outside h hout c hc
  have hpermission : (w.tables.permissions.find? fun p =>
      decide (p.pipelineName = name ∧ p.userId = user.id)) = none := by
    rw [List.find?_eq_none]
    intro p hp
    rw [decide_eq_true_eq]
    exact permission_outside h hout p hp
  have hused : decide (name ∈ w.tables.runs) = true := by
    obtain ⟨r, hr, hname⟩ := h.used
    exact decide_eq_true (List.mem_map.mpr ⟨r, hr, hname⟩)
  rw [ensurePipelineContractAccess, if_neg hrole, hcontract, hpermission, hused]
  simp

theorem isOwner_outside : isOwner w.db user name = false := by
  have hpermission : (w.db.permissions.any fun p =>
      decide (p.pipelineName = name ∧ p.userId = user.id ∧ p.permissionLevel = .OWNER)) = false := by
    rw [List.any_eq_false]
    intro p hp
    rw [decide_eq_true_eq]
    rintro ⟨hname, huser, -⟩
    exact permission_outside h hout p hp ⟨hname, huser⟩
  rw [isOwner, hpermission, Bool.or_false, beq_eq_false_iff_ne]
  exact hrole

end Refused

/-! ### What an accepted call adds -/

/-- A call that adds at most one row of its pipeline and its user to each table. -/
structure Adds (userId pipelineName : String) (s t : World Yaml) : Prop where
  permissions : t.permissions = s.permissions ∨
    ∃ level, t.permissions = s.permissions ++ [⟨pipelineName, userId, level⟩]
  runs : t.runs = s.runs ∨ ∃ yamlConfig, t.runs = s.runs ++ [⟨pipelineName, userId, yamlConfig⟩]
  schedules : t.schedules = s.schedules ∨ ∃ yamlConfig isActive,
    t.schedules = s.schedules ++ [⟨userId, pipelineName, yamlConfig, isActive⟩]
  contracts : t.contracts = s.contracts

theorem Adds.refl (userId pipelineName : String) (s : World Yaml) :
    Adds userId pipelineName s s := ⟨.inl rfl, .inl rfl, .inl rfl, rfl⟩

theorem check_ok {db : Pipelines.Db Yaml} {levels : List PermissionLevel} {grantOwner : Bool}
    {permissions : List PipelinePermission}
    (h : checkPipelinePermission db user pipelineName levels grantOwner = .ok permissions) :
    permissions = db.permissions ∨
      ∃ level, permissions = db.permissions ++ [⟨pipelineName, user.id, level⟩] := by
  rw [checkPipelinePermission] at h
  split at h
  · exact .inl (Except.ok.inj h).symm
  · split at h
    · exact .inl (Except.ok.inj h).symm
    · split at h
      · split at h
        · exact .inr ⟨.OWNER, (Except.ok.inj h).symm⟩
        · cases h
      · split at h
        · exact .inl (Except.ok.inj h).symm
        · cases h

theorem adds_runPipeline (env : Env Yaml Steps) (w : World Yaml) (user : User)
    (runName : Option String) (yamlConfig : Yaml) (rejection : Option HTTPException) :
    stored w (runPipeline env w.db user runName yamlConfig rejection).db = w ∨
      ∃ pipelineName permissions,
        checkPipelinePermission w.db user pipelineName writeLevels true = .ok permissions ∧
        Adds user.id pipelineName w
          (stored w (runPipeline env w.db user runName yamlConfig rejection).db) := by
  rw [runPipeline]
  cases env.getParsedPipeline yamlConfig with
  | error e => exact .inl rfl
  | ok config =>
    dsimp only
    cases hcheck : checkPipelinePermission w.db user (effectiveName runName config) writeLevels true with
    | error e => exact .inl rfl
    | ok permissions =>
      refine .inr ⟨_, permissions, hcheck, ?_⟩
      cases rejection with
      | some e => exact ⟨check_ok hcheck, .inl rfl, .inl rfl, rfl⟩
      | none => exact ⟨check_ok hcheck, .inr ⟨yamlConfig, rfl⟩, .inl rfl, rfl⟩

theorem adds_createSchedule (env : Env Yaml Steps) (w : World Yaml) (user : User)
    (pipelineName : String) (yamlConfig : Yaml) (rejection : Option HTTPException) :
    stored w (createSchedule env w.db user pipelineName yamlConfig rejection).db = w ∨
      ∃ permissions,
        checkPipelinePermission w.db user pipelineName writeLevels true = .ok permissions ∧
        Adds user.id pipelineName w
          (stored w (createSchedule env w.db user pipelineName yamlConfig rejection).db) := by
  rw [createSchedule]
  cases env.getParsedPipeline yamlConfig with
  | error e => exact .inl rfl
  | ok config =>
    dsimp only
    cases hcheck : checkPipelinePermission w.db user pipelineName writeLevels true with
    | error e => exact .inl rfl
    | ok permissions =>
      refine .inr ⟨permissions, rfl, ?_⟩
      cases rejection with
      | some e => exact ⟨check_ok hcheck, .inl rfl, .inl rfl, rfl⟩
      | none => exact ⟨check_ok hcheck, .inl rfl, .inr ⟨yamlConfig, true, rfl⟩, rfl⟩

/-! ### What a call changes of a name -/

theorem filter_append_other {α : Type} {p : α → Bool} {xs : List α} {x : α} (h : p x = false) :
    (xs ++ [x]).filter p = xs.filter p := by
  rw [List.filter_append, List.filter_singleton, h]
  exact List.append_nil _

theorem filter_set_other {α : Type} {p : α → Bool} {xs : List α} {i : Nat} {x y : α}
    (hget : xs[i]? = some x) (hx : p x = false) (hy : p y = false) :
    (xs.set i y).filter p = xs.filter p := by
  induction xs generalizing i with
  | nil => rfl
  | cons a xs ih =>
    cases i with
    | zero =>
      rw [List.getElem?_cons_zero, Option.some.injEq] at hget
      subst hget
      rw [List.set_cons_zero, List.filter_cons_of_neg (by rw [hy]; exact Bool.false_ne_true),
        List.filter_cons_of_neg (by rw [hx]; exact Bool.false_ne_true)]
    | succ i =>
      rw [List.getElem?_cons_succ] at hget
      rw [List.set_cons_succ, List.filter_cons, List.filter_cons, ih hget]

theorem setLevel_fields (pipelineName target : String) (level : PermissionLevel)
    (p : PipelinePermission) : (setLevel pipelineName target level p).pipelineName = p.pipelineName ∧
      (setLevel pipelineName target level p).userId = p.userId := by
  rw [setLevel]
  split <;> exact ⟨rfl, rfl⟩

theorem filter_setLevel {target : String} {level : PermissionLevel} (hne : pipelineName ≠ name)
    (permissions : List PipelinePermission) :
    (permissions.map (setLevel pipelineName target level)).filter
        (fun p => decide (p.pipelineName = name)) =
      permissions.filter fun p => decide (p.pipelineName = name) := by
  induction permissions with
  | nil => rfl
  | cons p permissions ih =>
    rw [List.map_cons, List.filter_cons, List.filter_cons, ih,
      (setLevel_fields pipelineName target level p).1]
    by_cases hp : p.pipelineName = name
    · have hother : setLevel pipelineName target level p = p := by
        rw [setLevel, concerns, if_neg]
        rw [decide_eq_true_eq]
        rintro ⟨hsame, -⟩
        exact hne (hsame.symm.trans hp)
      rw [hother]
    · rw [decide_eq_false hp]
      rfl

theorem Adds.view_eq {userId : String} (h : Adds userId pipelineName s t)
    (hne : pipelineName ≠ name) : view name t = view name s := by
  have hother : decide (pipelineName = name) = false := decide_eq_false hne
  have hpermissions : (view name t).permissions = (view name s).permissions := by
    obtain heq | ⟨level, heq⟩ := h.permissions
    · rw [view, view, heq]
    · rw [view, view, heq]
      exact filter_append_other hother
  have hruns : (view name t).runs = (view name s).runs := by
    obtain heq | ⟨yamlConfig, heq⟩ := h.runs
    · rw [view, view, heq]
    · rw [view, view, heq]
      exact filter_append_other hother
  have hschedules : (view name t).schedules = (view name s).schedules := by
    obtain heq | ⟨yamlConfig, isActive, heq⟩ := h.schedules
    · rw [view, view, heq]
    · rw [view, view, heq]
      exact filter_append_other hother
  have hcontracts : (view name t).contracts = (view name s).contracts := by
    rw [view, view, h.contracts]
  rw [View.ext_iff]
  exact ⟨hpermissions, hcontracts, hruns, hschedules⟩

/-- What a step must not do to keep a name confined: to take its last run away, or to mix up the
ids of the contracts. -/
structure Regular (s t : World Yaml) : Prop where
  runs : s.runs ⊆ t.runs
  ids : (s.contracts.contracts.map PipelineContract.id).Nodup →
    (∀ c ∈ s.contracts.contracts, c.id < s.contracts.nextId) →
    (t.contracts.contracts.map PipelineContract.id).Nodup ∧
      ∀ c ∈ t.contracts.contracts, c.id < t.contracts.nextId

theorem Regular.confined (h : Regular s t) (hs : Confined insiders name s)
    (hview : (view name t).Of insiders) : Confined insiders name t := by
  obtain ⟨r, hr, hname⟩ := hs.used
  obtain ⟨hids, hold⟩ := h.ids hs.ids hs.old
  exact ⟨hview, ⟨r, h.runs hr, hname⟩, hids, hold⟩

theorem mem_filter_append {α : Type} {p : α → Bool} {xs : List α} {x y : α}
    (h : y ∈ (xs ++ [x]).filter p) : y ∈ xs.filter p ∨ y = x ∧ p x = true := by
  obtain ⟨hmem, hp⟩ := List.mem_filter.mp h
  obtain hold | hnew := List.mem_append.mp hmem
  · exact .inl (List.mem_filter.mpr ⟨hold, hp⟩)
  · rw [List.mem_singleton] at hnew
    subst hnew
    exact .inr ⟨rfl, hp⟩

theorem Adds.regular {userId : String} (h : Adds userId pipelineName s t) : Regular s t := by
  constructor
  · obtain heq | ⟨yamlConfig, heq⟩ := h.runs
    · rw [heq]
      exact List.Subset.refl _
    · rw [heq]
      exact List.subset_append_left _ _
  · intro hids hold
    rw [h.contracts]
    exact ⟨hids, hold⟩

theorem Adds.of {userId : String} (h : Adds userId pipelineName s t)
    (hs : (view name s).Of insiders) (hin : pipelineName = name → userId ∈ insiders) :
    (view name t).Of insiders := by
  constructor
  · intro p hp
    obtain heq | ⟨level, heq⟩ := h.permissions
    · rw [view, heq] at hp
      exact hs.permissions p hp
    · rw [view, heq] at hp
      obtain hold | ⟨rfl, hname⟩ := mem_filter_append hp
      · exact hs.permissions p hold
      · exact hin (of_decide_eq_true hname)
  · intro c hc
    rw [view, h.contracts] at hc
    exact hs.contracts c hc
  · intro r hr
    obtain heq | ⟨yamlConfig, heq⟩ := h.runs
    · rw [view, heq] at hr
      exact hs.runs r hr
    · rw [view, heq] at hr
      obtain hold | ⟨rfl, hname⟩ := mem_filter_append hr
      · exact hs.runs r hold
      · exact hin (of_decide_eq_true hname)
  · intro x hx
    obtain heq | ⟨yamlConfig, isActive, heq⟩ := h.schedules
    · rw [view, heq] at hx
      exact hs.schedules x hx
    · rw [view, heq] at hx
      obtain hold | ⟨rfl, hname⟩ := mem_filter_append hx
      · exact hs.schedules x hold
      · exact hin (of_decide_eq_true hname)

/-! ### Contracts -/

/-- What an accepted call does to the contracts. -/
inductive Rewrites (db : Contracts.Db) (user : User) (pipelineName : String) :
    Contracts.Db → Prop where
  | creates (version : Nat) (body : Contracts.ContractRequest) :
      Rewrites db user pipelineName (addContract db user pipelineName version body)
  | updates (existing : PipelineContract) (version : Nat) (body : Contracts.ContractRequest)
      (found : existing ∈ db.contracts) (named : existing.pipelineName = pipelineName) :
      Rewrites db user pipelineName (addContract
        { db with contracts := db.contracts.map (deactivate existing.id) } user pipelineName version
          body)
  | deletes (contract : PipelineContract) (found : contract ∈ db.contracts)
      (named : contract.pipelineName = pipelineName) : Rewrites db user pipelineName
        { db with contracts := db.contracts.filter fun c => decide (c.id ≠ contract.id) }

theorem findContract_ok {db : Contracts.Db} {contractId : Nat} {c : PipelineContract}
    (h : findContract db user pipelineName contractId = .ok c) :
    c ∈ db.contracts ∧ c.pipelineName = pipelineName := by
  rw [findContract] at h
  split at h
  · next existing hfind =>
    cases h
    have hmem := List.mem_of_find?_eq_some hfind
    have hnamed := List.find?_some hfind
    rw [decide_eq_true_eq] at hnamed
    refine ⟨?_, hnamed.2⟩
    rw [contractQuery] at hmem
    split at hmem
    · exact hmem
    · exact (List.mem_filter.mp hmem).1
  · cases h

theorem rewrites_of_answer {tables : Tables} {db db' : Contracts.Db} {request : Contracts.Request}
    (h : Contracts.answer db ⟨tables, user, pipelineName, request⟩ = .ok db') :
    (∃ allowNew, ensurePipelineContractAccess tables db user pipelineName [.OWNER] allowNew =
      .ok ()) ∧ Rewrites db user pipelineName db' := by
  cases request with
  | create body =>
    obtain ⟨⟨⟩, haccess, hrest⟩ := bind_ok h
    cases hrest
    exact ⟨⟨true, haccess⟩, .creates _ body⟩
  | update contractId body =>
    obtain ⟨⟨⟩, haccess, hrest⟩ := bind_ok h
    obtain ⟨existing, hfind, hrest⟩ := bind_ok hrest
    cases hrest
    obtain ⟨hmem, hnamed⟩ := findContract_ok hfind
    exact ⟨⟨false, haccess⟩, .updates existing _ body hmem hnamed⟩
  | delete contractId =>
    obtain ⟨⟨⟩, haccess, hrest⟩ := bind_ok h
    obtain ⟨contract, hfind, hrest⟩ := bind_ok hrest
    cases hrest
    obtain ⟨hmem, hnamed⟩ := findContract_ok hfind
    exact ⟨⟨false, haccess⟩, .deletes contract hmem hnamed⟩

theorem map_id_deactivate (contractId : Nat) (contracts : List PipelineContract) :
    (contracts.map (deactivate contractId)).map PipelineContract.id =
      contracts.map PipelineContract.id := by
  rw [List.map_map]
  apply List.map_congr_left
  exact fun c _ => (ContractVersions.deactivate_fields c).1

theorem fresh_add {db : Contracts.Db} (version : Nat) (body : Contracts.ContractRequest)
    (hids : (db.contracts.map PipelineContract.id).Nodup)
    (hold : ∀ c ∈ db.contracts, c.id < db.nextId) :
    ((addContract db user pipelineName version body).contracts.map PipelineContract.id).Nodup ∧
      ∀ c ∈ (addContract db user pipelineName version body).contracts,
        c.id < (addContract db user pipelineName version body).nextId := by
  constructor
  · rw [addContract, List.map_append, List.nodup_append]
    refine ⟨hids, List.nodup_singleton _, fun a ha b hb => ?_⟩
    obtain ⟨c, hc, rfl⟩ := List.mem_map.mp ha
    rw [List.map_singleton, List.mem_singleton] at hb
    subst hb
    exact Nat.ne_of_lt (hold c hc)
  · intro c hc
    obtain hc | hc := List.mem_append.mp hc
    · exact Nat.lt_succ_of_lt (hold c hc)
    · rw [List.mem_singleton] at hc
      subst hc
      exact Nat.lt_succ_self _

theorem Rewrites.fresh {db db' : Contracts.Db} (h : Rewrites db user pipelineName db')
    (hids : (db.contracts.map PipelineContract.id).Nodup)
    (hold : ∀ c ∈ db.contracts, c.id < db.nextId) :
    (db'.contracts.map PipelineContract.id).Nodup ∧ ∀ c ∈ db'.contracts, c.id < db'.nextId := by
  cases h with
  | creates version body => exact fresh_add version body hids hold
  | updates existing version body =>
    apply fresh_add version body
    · rw [map_id_deactivate]
      exact hids
    · intro c hc
      obtain ⟨c', hc', rfl⟩ := List.mem_map.mp hc
      rw [(ContractVersions.deactivate_fields c').1]
      exact hold c' hc'
  | deletes contract =>
    exact ⟨List.Nodup.sublist (List.Sublist.map _ List.filter_sublist) hids,
      fun c hc => hold c (List.mem_filter.mp hc).1⟩

/-- A call rewrites the contracts of its own pipeline only. -/
theorem Rewrites.filter_eq {db db' : Contracts.Db} (h : Rewrites db user pipelineName db')
    (hids : (db.contracts.map PipelineContract.id).Nodup) (hne : pipelineName ≠ name) :
    db'.contracts.filter (fun c => decide (c.pipelineName = name)) =
      db.contracts.filter fun c => decide (c.pipelineName = name) := by
  have hother : ∀ contract ∈ db.contracts, contract.pipelineName = pipelineName →
      ∀ c ∈ db.contracts, c.pipelineName = name → c.id ≠ contract.id := by
    intro contract hcontract hnamed c hc hname hid
    rw [List.inj_on_of_nodup_map hids hc hcontract hid, hnamed] at hname
    exact hne hname
  cases h with
  | creates version body => exact filter_append_other (decide_eq_false hne)
  | updates existing version body found named =>
    refine Eq.trans (filter_append_other ?_) ?_
    · exact decide_eq_false hne
    rw [List.filter_map]
    have hfields : (fun c => decide (c.pipelineName = name)) ∘ deactivate existing.id =
        fun c => decide (c.pipelineName = name) := by
      funext c
      rw [Function.comp_apply, (ContractVersions.deactivate_fields c).2.1]
    rw [hfields]
    conv_rhs => rw [← List.map_id (db.contracts.filter _)]
    apply List.map_congr_left
    intro c hc
    obtain ⟨hmem, hname⟩ := List.mem_filter.mp hc
    rw [deactivate, if_neg (hother existing found named c hmem (of_decide_eq_true hname))]
    rfl
  | deletes contract found named =>
    dsimp only
    rw [List.filter_filter]
    apply List.filter_congr
    intro c hc
    by_cases hname : c.pipelineName = name
    · rw [decide_eq_true hname, decide_eq_true (hother contract found named c hc hname)]
      rfl
    · rw [decide_eq_false hname, Bool.false_and]

theorem Rewrites.of {db db' : Contracts.Db} (h : Rewrites db user pipelineName db')
    (hin : user.id ∈ insiders)
    (hdb : ∀ c ∈ db.contracts, c.pipelineName = name → c.userId ∈ insiders) :
    ∀ c ∈ db'.contracts, c.pipelineName = name → c.userId ∈ insiders := by
  intro c hc hname
  cases h with
  | creates version body =>
    obtain hc | hc := List.mem_append.mp hc
    · exact hdb c hc hname
    · rw [List.mem_singleton] at hc
      subst hc
      exact hin
  | updates existing version body =>
    obtain hc | hc := List.mem_append.mp hc
    · obtain ⟨c', hc', rfl⟩ := List.mem_map.mp hc
      rw [(ContractVersions.deactivate_fields c').2.1] at hname
      rw [(ContractVersions.deactivate_fields c').2.2.1]
      exact hdb c' hc' hname
    · rw [List.mem_singleton] at hc
      subst hc
      exact hin
  | deletes contract => exact hdb c (List.mem_filter.mp hc).1 hname

/-- What a call leaves behind: the name as confined as it was, and after the call of an outsider
its rows as they were. -/
def Kept (insiders : Set String) (name : String) (user : User) (s t : World Yaml) : Prop :=
  Confined insiders name t ∧ (user.id ∉ insiders → view name t = view name s)

theorem Kept.of_view (hs : Confined insiders name s) (hregular : Regular s t)
    (hview : view name t = view name s) : Kept insiders name user s t := by
  refine ⟨hregular.confined hs ?_, fun _ => hview⟩
  rw [hview]
  exact hs.view

theorem Kept.refl (hs : Confined insiders name s) : Kept insiders name user s s :=
  ⟨hs, fun _ => rfl⟩

theorem Kept.inside (hs : Confined insiders name s) (hregular : Regular s t)
    (hin : user.id ∈ insiders) (hview : (view name t).Of insiders) :
    Kept insiders name user s t :=
  ⟨hregular.confined hs hview, fun hout => absurd hin hout⟩

section Calls

variable (hs : Confined insiders name s) (hadmin : user.role = "admin" → user.id ∈ insiders)
include hs hadmin

theorem kept_adds (h : Adds user.id pipelineName s t)
    (hrefused : user.id ∉ insiders → user.role ≠ "admin" → pipelineName ≠ name) :
    Kept insiders name user s t := by
  by_cases hin : user.id ∈ insiders
  · exact .inside hs h.regular hin (h.of hs.view fun _ => hin)
  · exact .of_view hs h.regular (h.view_eq (hrefused hin fun hrole => hin (hadmin hrole)))

omit hadmin in
theorem ne_of_check {levels : List PermissionLevel} {grantOwner : Bool}
    {permissions : List PipelinePermission}
    (h : checkPipelinePermission s.db user pipelineName levels grantOwner = .ok permissions) :
    user.id ∉ insiders → user.role ≠ "admin" → pipelineName ≠ name := by
  rintro hout hrole rfl
  rw [check_outside hs hout hrole] at h
  cases h

omit hadmin in
theorem ne_of_owner (h : isOwner s.db user pipelineName = true) (hout : user.id ∉ insiders)
    (hrole : user.role ≠ "admin") : pipelineName ≠ name := by
  rintro rfl
  rw [isOwner_outside hs hout hrole] at h
  cases h

theorem kept_runPipeline (env : Env Yaml Steps) (runName : Option String) (yamlConfig : Yaml)
    (rejection : Option HTTPException) : Kept insiders name user s
      (answer env s user (.runPipeline runName yamlConfig rejection)) := by
  obtain heq | ⟨pipelineName, permissions, hcheck, hadds⟩ :=
    adds_runPipeline env s user runName yamlConfig rejection
  · rw [answer, heq]
    exact .refl hs
  · exact kept_adds hs hadmin hadds (ne_of_check hs hcheck)

theorem kept_createSchedule (env : Env Yaml Steps) (pipelineName : String) (yamlConfig : Yaml)
    (rejection : Option HTTPException) : Kept insiders name user s
      (answer env s user (.createSchedule pipelineName yamlConfig rejection)) := by
  obtain heq | ⟨permissions, hcheck, hadds⟩ :=
    adds_createSchedule env s user pipelineName yamlConfig rejection
  · rw [answer, heq]
    exact .refl hs
  · exact kept_adds hs hadmin hadds (ne_of_check hs hcheck)

omit hadmin in
theorem kept_toggleSchedule (env : Env Yaml Steps) (index : Nat) :
    Kept insiders name user s (answer env s user (.toggleSchedule index)) := by
  rw [answer, toggleSchedule]
  cases hget : s.db.schedules[index]? with
  | none => exact .refl hs
  | some schedule =>
    dsimp only
    by_cases howner : schedule.userId = user.id
    swap
    · rw [if_neg howner]
      exact .refl hs
    rw [if_pos howner]
    have hmem : schedule ∈ s.schedules := List.mem_of_getElem? hget
    by_cases hin : user.id ∈ insiders
    · refine .inside hs ⟨List.Subset.refl _, fun hids hold => ⟨hids, hold⟩⟩ hin
        ⟨hs.view.permissions, hs.view.contracts, hs.view.runs, fun x hx => ?_⟩
      obtain ⟨hx, hname⟩ := List.mem_filter.mp hx
      obtain hold | rfl := List.mem_or_eq_of_mem_set hx
      · exact hs.view.schedules x (List.mem_filter.mpr ⟨hold, hname⟩)
      · rw [← howner] at hin
        exact hin
    · have hne := schedule_outside hs hin schedule hmem howner
      refine .of_view hs ⟨List.Subset.refl _, fun hids hold => ⟨hids, hold⟩⟩ ?_
      rw [View.ext_iff]
      refine ⟨rfl, rfl, rfl, ?_⟩
      exact filter_set_other hget (decide_eq_false hne) (decide_eq_false hne)

theorem kept_grantPermission (env : Env Yaml Steps) (pipelineName target : String)
    (level : PermissionLevel)
    (hloyal : pipelineName = name → user.id ∈ insiders → target ∈ insiders) :
    Kept insiders name user s (answer env s user (.grantPermission pipelineName target level)) := by
  rw [answer, grantPermission]
  by_cases howner : isOwner s.db user pipelineName = true
  swap
  · rw [if_neg howner]
    exact .refl hs
  rw [if_pos howner]
  have hregular : ∀ permissions, Regular s (stored s { s.db with permissions }) := fun _ =>
    ⟨List.Subset.refl _, fun hids hold => ⟨hids, hold⟩⟩
  by_cases hname : pipelineName = name
  · subst hname
    have hin : user.id ∈ insiders := by
      by_contra hout
      exact ne_of_owner hs howner hout (fun hrole => hout (hadmin hrole)) rfl
    split
    · refine .inside hs (hregular _) hin
        ⟨fun p hp => ?_, hs.view.contracts, hs.view.runs, hs.view.schedules⟩
      obtain ⟨hp, hname⟩ := List.mem_filter.mp hp
      obtain ⟨old, hold, rfl⟩ := List.mem_map.mp hp
      obtain ⟨hsame, huser⟩ := setLevel_fields pipelineName target level old
      rw [hsame] at hname
      rw [huser]
      exact hs.view.permissions old (List.mem_filter.mpr ⟨hold, hname⟩)
    · refine .inside hs (hregular _) hin
        ⟨fun p hp => ?_, hs.view.contracts, hs.view.runs, hs.view.schedules⟩
      obtain hold | ⟨rfl, -⟩ := mem_filter_append hp
      · exact hs.view.permissions p hold
      · exact hloyal rfl hin
  · split
    · refine .of_view hs (hregular _) ?_
      rw [View.ext_iff]
      exact ⟨filter_setLevel hname s.permissions, rfl, rfl, rfl⟩
    · refine .of_view hs (hregular _) ?_
      rw [View.ext_iff]
      exact ⟨filter_append_other (decide_eq_false hname), rfl, rfl, rfl⟩

theorem kept_revokePermission (env : Env Yaml Steps) (pipelineName target : String) :
    Kept insiders name user s (answer env s user (.revokePermission pipelineName target)) := by
  rw [answer, revokePermission]
  by_cases howner : isOwner s.db user pipelineName = true
  swap
  · rw [if_neg howner]
    exact .refl hs
  rw [if_pos howner]
  split
  swap
  · exact .refl hs
  have hregular : ∀ permissions, Regular s (stored s { s.db with permissions }) := fun _ =>
    ⟨List.Subset.refl _, fun hids hold => ⟨hids, hold⟩⟩
  by_cases hname : pipelineName = name
  · have hin : user.id ∈ insiders := by
      by_contra hout
      exact ne_of_owner hs howner hout (fun hrole => hout (hadmin hrole)) hname
    refine .inside hs (hregular _) hin
      ⟨fun p hp => ?_, hs.view.contracts, hs.view.runs, hs.view.schedules⟩
    obtain ⟨hp, hname⟩ := List.mem_filter.mp hp
    exact hs.view.permissions p (List.mem_filter.mpr ⟨(List.mem_filter.mp hp).1, hname⟩)
  · refine .of_view hs (hregular _) ?_
    rw [View.ext_iff]
    refine ⟨?_, rfl, rfl, rfl⟩
    change (s.permissions.filter _).filter _ = s.permissions.filter _
    rw [List.filter_filter]
    apply List.filter_congr
    intro p _
    by_cases hp : p.pipelineName = name
    · have hother : concerns pipelineName target p = false := by
        rw [concerns, decide_eq_false_iff_not]
        rintro ⟨hsame, -⟩
        exact hname (hsame.symm.trans hp)
      rw [hother, decide_eq_true hp]
      rfl
    · rw [decide_eq_false hp, Bool.false_and]

theorem kept_contract (env : Env Yaml Steps) (pipelineName : String)
    (request : Contracts.Request) :
    Kept insiders name user s (answer env s user (.contract pipelineName request)) := by
  rw [answer, Contracts.step]
  cases hanswer : Contracts.answer s.contracts ⟨s.tables, user, pipelineName, request⟩ with
  | error e => exact .refl hs
  | ok db =>
    obtain ⟨⟨allowNew, haccess⟩, hrewrites⟩ := rewrites_of_answer hanswer
    have hregular : Regular s { s with contracts := db } :=
      ⟨List.Subset.refl _, fun hids hold => hrewrites.fresh hids hold⟩
    by_cases hin : user.id ∈ insiders
    · refine .inside hs hregular hin
        ⟨hs.view.permissions, fun c hc => ?_, hs.view.runs, hs.view.schedules⟩
      obtain ⟨hmem, hname⟩ := List.mem_filter.mp hc
      apply hrewrites.of hin _ c hmem (of_decide_eq_true hname)
      intro old hold hname
      exact hs.view.contracts old (List.mem_filter.mpr ⟨hold, decide_eq_true hname⟩)
    · have hne : pipelineName ≠ name := by
        rintro rfl
        rw [access_outside hs hin fun hrole => hin (hadmin hrole)] at haccess
        cases haccess
      refine .of_view hs hregular ?_
      rw [View.ext_iff]
      exact ⟨rfl, hrewrites.filter_eq hs.ids hne, rfl, rfl⟩

end Calls

/-! ### Runs of the system -/

theorem kept_answer (env : Env Yaml Steps) (request : Request Yaml)
    (hs : Confined insiders name s) (hloyal : Loyal insiders name (.asks user request)) :
    Kept insiders name user s (answer env s user request) := by
  cases request with
  | runPipeline runName yamlConfig rejection =>
    exact kept_runPipeline hs hloyal env runName yamlConfig rejection
  | createSchedule pipelineName yamlConfig rejection =>
    exact kept_createSchedule hs hloyal env pipelineName yamlConfig rejection
  | toggleSchedule index => exact kept_toggleSchedule hs env index
  | contract pipelineName request => exact kept_contract hs hloyal env pipelineName request
  | grantPermission pipelineName target level =>
    exact kept_grantPermission hs hloyal.1 env pipelineName target level hloyal.2
  | revokePermission pipelineName target =>
    exact kept_revokePermission hs hloyal env pipelineName target

theorem confined_step (env : Env Yaml Steps) (s : World Yaml) (e : Event Yaml) (t : World Yaml)
    (hs : Confined insiders name s) (hloyal : Loyal insiders name e) (h : step env s e = some t) :
    Confined insiders name t := by
  cases e with
  | asks user request =>
    cases h
    exact (kept_answer env request hs hloyal).1
  | fires index =>
    cases h
    rw [fireSchedule]
    cases hget : s.db.schedules[index]? with
    | none => exact hs
    | some schedule =>
      dsimp only
      split
      · have hregular : Regular s { s with
            runs := s.runs ++ [⟨schedule.pipelineName, schedule.userId, schedule.yamlConfig⟩] } :=
          ⟨List.subset_append_left _ _, fun hids hold => ⟨hids, hold⟩⟩
        refine hregular.confined hs
          ⟨hs.view.permissions, hs.view.contracts, fun r hr => ?_, hs.view.schedules⟩
        obtain hold | ⟨rfl, hname⟩ := mem_filter_append hr
        · exact hs.view.runs r hold
        · exact hs.view.schedules schedule
            (List.mem_filter.mpr ⟨List.mem_of_getElem? hget, hname⟩)
      · exact hs

/-- No call of a user outside a group changes a row of the name, at any point of a run. -/
def Untouched (env : Env Yaml Steps) (insiders : Set String) (name : String) (start : World Yaml)
    (events : List (Event Yaml)) : Prop :=
  ∀ earlier user request later u v, events = earlier ++ .asks user request :: later →
    run (step env) start earlier = some u → step env u (.asks user request) = some v →
    user.id ∉ insiders → view name v = view name u

/-- Where a name has a run, all that belongs to it is in the hands of some users, the
administrators among them, and none of these lets another one in: then it stays in their hands, and
no call that another user makes changes any of its rows. -/
theorem name_confined (env : Env Yaml Steps) (insiders : Set String) (name : String)
    {start t : World Yaml} {events : List (Event Yaml)} (hstart : Confined insiders name start)
    (hloyal : ∀ e ∈ events, Loyal insiders name e) (h : run (step env) start events = some t) :
    (view name t).Of insiders ∧ Untouched env insiders name start events := by
  refine ⟨(invariant_run (confined_step env) hstart (along_of_forall_mem hloyal) h).view, ?_⟩
  rintro earlier user request later u v rfl hu hv hout
  have hearlier : ∀ e ∈ earlier, Loyal insiders name e := fun e he =>
    hloyal e (List.mem_append_left _ he)
  have hcall := hloyal _ (List.mem_append_right earlier List.mem_cons_self)
  have hconfined := invariant_run (confined_step env) hstart (along_of_forall_mem hearlier) hu
  cases hv
  exact (kept_answer env request hconfined hcall).2 hout

section Examples

/-- A configuration that is only a name. -/
def readName (yamlConfig : String) : Except HTTPException (Config Unit) := .ok ⟨yamlConfig, ()⟩

theorem readName_dumped (config config' : Config Unit)
    (h : readName config.name = .ok config') : config'.name = config.name := by
  cases h
  rfl

def named : Env String Unit where
  getParsedPipeline := readName
  dump := Config.name
  dump_name := readName_dumped

def alice : User := ⟨"alice", "user"⟩
def bob : User := ⟨"bob", "user"⟩

def sales : World String where
  permissions := [⟨"sales", "alice", .OWNER⟩]
  runs := [⟨"sales", "alice", "sales"⟩]

/-- An outsider tries a run, a contract and a grant while the owner lets a colleague in. -/
def intrusion : List (Event String) :=
  [.asks bob (.runPipeline none "sales" none),
    .asks bob (.contract "sales" (.create { yamlContent := "" })),
    .asks alice (.grantPermission "sales" "carol" .RUNNER),
    .asks bob (.grantPermission "sales" "bob" .OWNER)]

theorem name_confined_sales : ∃ t, run (step named) sales intrusion = some t ∧
    t.permissions = [⟨"sales", "alice", .OWNER⟩, ⟨"sales", "carol", .RUNNER⟩] ∧
    (view "sales" t).Of {"alice", "carol"} ∧
      Untouched named {"alice", "carol"} "sales" sales intrusion := by
  have hstart : Confined {"alice", "carol"} "sales" sales := by
    refine ⟨⟨fun p hp => ?_, fun c hc => ?_, fun r hr => ?_, fun x hx => ?_⟩,
      ⟨_, List.mem_singleton_self _, rfl⟩, List.nodup_nil, fun c hc => ?_⟩
    · rw [List.mem_singleton.mp (List.mem_filter.mp hp).1]
      exact .inl rfl
    · cases hc
    · rw [List.mem_singleton.mp (List.mem_filter.mp hr).1]
      exact .inl rfl
    · cases hx
    · cases hc
  have hloyal : ∀ e ∈ intrusion, Loyal {"alice", "carol"} "sales" e := by
    have hadmin : ∀ user : User, user.role = "user" →
        user.role = "admin" → user.id ∈ ({"alice", "carol"} : Set String) := by
      intro user huser hrole
      rw [huser] at hrole
      exact absurd hrole (by decide)
    intro e he
    simp only [intrusion, List.mem_cons, List.not_mem_nil, or_false] at he
    obtain rfl | rfl | rfl | rfl := he
    · exact hadmin bob rfl
    · exact hadmin bob rfl
    · exact ⟨hadmin alice rfl, fun _ _ => .inr rfl⟩
    · refine ⟨hadmin bob rfl, fun _ hbob => ?_⟩
      exact hbob
  refine ⟨_, rfl, rfl, ?_⟩
  exact name_confined named _ _ hstart hloyal rfl

end Examples

end PipelineIQ.Api.NameConfinement
