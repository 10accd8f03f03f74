import PipelineIQ.Api.RunRequests

namespace PipelineIQ.Api.Bootstrap

open PipelineIQ.Lib.Machine PipelineIQ.Models PipelineIQ.Api.Pipelines PipelineIQ.Api.RunRequests

variable {Yaml Steps : Type}

/-- The owners that a name has been given. -/
def owners (db : Db Yaml) (pipelineName : String) : List PipelinePermission :=
  db.permissions.filter fun p =>
    decide (p.pipelineName = pipelineName ∧ p.permissionLevel = .OWNER)

/-- A name that was not in use at the start has one owner at most, and exactly one as soon as a
request for it is accepted. A rejected request has not added a permission. -/
structure Bootstrapped (start : Db Yaml) (w : World Yaml) : Prop where
  unique : ∀ name, nameInUse start name = false → (owners w.db name).length ≤ 1
  owned : ∀ r ∈ w.requests, nameInUse start r.pipelineName = false → r.phase = .accepted →
    (owners w.db r.pipelineName).length = 1
  unchanged : ∀ r ∈ w.requests, ∀ e, r.phase = .rejected e → r.granted = false

/-- The condition of an event: a grant is committed while the name has no owner, an administrator's
run of a new name is created while the name has one, and a request with a grant passes its
validation. -/
def Orderly (start : Db Yaml) (w : World Yaml) : Event Yaml → Prop
  | .receive _ _ _ => True
  | .proceed index => ∀ r, w.requests[index]? = some r →
    (r.phase = .granting → owners w.db r.pipelineName = []) ∧
      (r.phase = .creating → r.user.role = "admin" → nameInUse start r.pipelineName = false →
        owners w.db r.pipelineName ≠ [])
  | .validate index rejection => ∀ r, w.requests[index]? = some r → r.phase = .validating →
    r.granted = true → rejection = none

/-- A request beyond the check of a new name finds an owner, unless it is an administrator's. -/
def Covered (start db : Db Yaml) (r : RunRequest Yaml) : Prop :=
  r.user.role = "admin" ∨ nameInUse start r.pipelineName = true ∨ owners db r.pipelineName ≠ []

/-- What the queries of a request have ruled out for the database of the start. -/
def PhaseOk (start db : Db Yaml) (r : RunRequest Yaml) : Phase → Prop
  | .ownContract | .permission | .usedByRun => r.granted = false
  | .usedByContract => r.granted = false ∧ ∀ run ∈ start.runs, run.name ≠ r.pipelineName
  | .usedByPermission => r.granted = false ∧ (∀ run ∈ start.runs, run.name ≠ r.pipelineName) ∧
    ∀ contract ∈ start.contracts, contract.pipelineName ≠ r.pipelineName
  | .granting => r.granted = false ∧ nameInUse start r.pipelineName = false
  | .validating | .creating => Covered start db r
  | .accepted | .rejected _ => True

/-- The tables only grow, and by owners. -/
structure Grown (start db : Db Yaml) : Prop where
  runs : start.runs ⊆ db.runs
  contracts : db.contracts = start.contracts
  permissions : start.permissions ⊆ db.permissions
  level : ∀ p ∈ db.permissions, p ∈ start.permissions ∨ p.permissionLevel = .OWNER

structure Inv (start : Db Yaml) (w : World Yaml) : Prop where
  grown : Grown start w.db
  phases : ∀ r ∈ w.requests, PhaseOk start w.db r r.phase

variable {env : Env Yaml Steps} {start db db' : Db Yaml} {w t : World Yaml} {e : Event Yaml}
  {r r' : RunRequest Yaml} {name : String} {index : Nat}

theorem nameInUse_eq_false : nameInUse db name = false ↔
    (∀ run ∈ db.runs, run.name ≠ name) ∧ (∀ contract ∈ db.contracts, contract.pipelineName ≠ name) ∧
      ∀ p ∈ db.permissions, p.pipelineName ≠ name := by
  simp only [nameInUse, Bool.or_eq_false_iff, List.any_eq_false, decide_eq_true_eq, and_assoc]

theorem owners_grant : owners (grant db r) name =
    if r.pipelineName = name then owners db name ++ [⟨r.pipelineName, r.user.id, .OWNER⟩]
    else owners db name := by
  unfold owners grant
  rw [List.filter_append]
  split
  next h => simp [h]
  next h => simp [h]

theorem owners_grant_ne_nil (h : owners db name ≠ []) : owners (grant db r) name ≠ [] := by
  rw [owners_grant]
  split
  · exact List.append_ne_nil_of_left_ne_nil h _
  · exact h

/-! ### The invariant -/

/-- A name with a permission row that is not of the start has an owner. -/
theorem owners_ne_nil {p : PipelinePermission} (hgrown : Grown start db)
    (hunused : nameInUse start name = false) (hp : p ∈ db.permissions)
    (hname : p.pipelineName = name) : owners db name ≠ [] := by
  have hlevel : p.permissionLevel = .OWNER := by
    rcases hgrown.level p hp with hold | howner
    · exact absurd hname ((nameInUse_eq_false.mp hunused).2.2 p hold)
    · exact howner
  exact List.ne_nil_of_mem (List.mem_filter.mpr ⟨hp, decide_eq_true ⟨hname, hlevel⟩⟩)

theorem covered_of_mem {p : PipelinePermission} (hgrown : Grown start db) (hp : p ∈ db.permissions)
    (hname : p.pipelineName = r.pipelineName) : Covered start db r := by
  cases hunused : nameInUse start r.pipelineName with
  | true => exact .inr (.inl hunused)
  | false => exact .inr (.inr (owners_ne_nil hgrown hunused hp hname))

theorem phaseOk_mono {phase : Phase} (howners : ∀ name, owners db name ≠ [] → owners db' name ≠ [])
    (h : PhaseOk start db r phase) : PhaseOk start db' r phase := by
  have hcovered : Covered start db r → Covered start db' r :=
    Or.imp_right (Or.imp_right (howners r.pipelineName))
  cases phase with
  | validating => exact hcovered h
  | creating => exact hcovered h
  | _ => exact h

/-- The queries rule out what they find nothing of. -/
theorem phaseOk_check {phase next : Phase} (hgrown : Grown start db)
    (h : PhaseOk start db r phase) (hcheck : check db r phase = some next) :
    PhaseOk start db { r with phase := next } next := by
  cases phase with
  | ownContract =>
    cases hcheck
    split
    next hown =>
      obtain ⟨contract, hcontract, hsame⟩ := List.any_eq_true.mp hown
      have hused : nameInUse start r.pipelineName = true := by
        rw [← Bool.not_eq_false, nameInUse_eq_false]
        intro hunused
        rw [hgrown.contracts] at hcontract
        exact hunused.2.1 contract hcontract (of_decide_eq_true hsame).1
      exact .inr (.inl hused)
    · exact h
  | permission =>
    cases hcheck
    split
    · exact h
    next permission hfound =>
      split
      · have hconcerns := List.find?_some hfound
        exact covered_of_mem (r := { r with phase := .validating }) hgrown
          (List.mem_of_find?_eq_some hfound) (of_decide_eq_true hconcerns).1
      · trivial
  | usedByRun =>
    cases hcheck
    split
    · trivial
    next hnone =>
      refine ⟨h, fun run hrun hname => hnone (List.any_eq_true.mpr ⟨run, hgrown.runs hrun, ?_⟩)⟩
      exact decide_eq_true hname
  | usedByContract =>
    cases hcheck
    split
    · trivial
    next hnone =>
      refine ⟨h.1, h.2, fun contract hcontract hname => hnone (List.any_eq_true.mpr ?_)⟩
      exact ⟨contract, hgrown.contracts ▸ hcontract, decide_eq_true hname⟩
  | usedByPermission =>
    cases hcheck
    split
    · trivial
    next hnone =>
      refine ⟨h.1, nameInUse_eq_false.mpr ⟨h.2.1, h.2.2, fun p hp hname => hnone ?_⟩⟩
      exact List.any_eq_true.mpr ⟨p, hgrown.permissions hp, decide_eq_true hname⟩
  | _ => cases hcheck

theorem grown_grant (h : Grown start db) : Grown start (grant db r) where
  runs := h.runs
  contracts := h.contracts
  permissions _ hp := List.mem_append_left _ (h.permissions hp)
  level p hp := by
    rcases List.mem_append.mp hp with hold | hnew
    · exact h.level p hold
    · exact .inr (List.mem_singleton.mp hnew ▸ rfl)

theorem grown_createRun (h : Grown start db) : Grown start (createRun db r) where
  runs _ hrun := List.mem_append_left _ (h.runs hrun)
  contracts := h.contracts
  permissions := h.permissions
  level := h.level

/-- What a step of a request can do: a query leaves the database alone, a grant adds an owner, and
the last step creates the run. -/
theorem proceed_cases (h : proceed db r = some (r', db')) :
    (r.phase = .granting ∧ r' = { r with phase := .validating, granted := true } ∧
      db' = grant db r) ∨
    (r.phase = .creating ∧ r' = { r with phase := .accepted } ∧ db' = createRun db r) ∨
    ∃ next, check db r r.phase = some next ∧ r' = { r with phase := next } ∧ db' = db := by
  unfold proceed at h
  split at h
  next hphase =>
    cases h
    exact .inl ⟨hphase, rfl, rfl⟩
  next hphase =>
    cases h
    exact .inr (.inl ⟨hphase, rfl, rfl⟩)
  next =>
    obtain ⟨next, hnext, hpair⟩ := Option.map_eq_some_iff.mp h
    cases hpair
    exact .inr (.inr ⟨next, hnext, rfl, rfl⟩)

theorem validate_cases {rejection : Option HTTPException} (h : validate r rejection = some r') :
    r.phase = .validating ∧ ((∃ error, rejection = some error ∧ r' = { r with phase := .rejected error }) ∨
      rejection = none ∧ r' = { r with phase := .creating }) := by
  unfold validate at h
  split at h
  next hphase =>
    cases h
    cases rejection with
    | some error => exact ⟨hphase, .inl ⟨error, rfl, rfl⟩⟩
    | none => exact ⟨hphase, .inr ⟨rfl, rfl⟩⟩
  next => cases h

/-- What an event does to the world. -/
theorem step_cases (h : step env w e = some t) :
    (∃ user name yamlConfig, e = .receive user name yamlConfig ∧
      t = { w with requests := w.requests ++ [receive env user name yamlConfig] }) ∨
    (∃ index r r' db', e = .proceed index ∧ w.requests[index]? = some r ∧
      proceed w.db r = some (r', db') ∧ t = { db := db', requests := w.requests.set index r' }) ∨
    ∃ index rejection r r', e = .validate index rejection ∧ w.requests[index]? = some r ∧
      validate r rejection = some r' ∧ t = { w with requests := w.requests.set index r' } := by
  cases e with
  | receive user name yamlConfig =>
    cases h
    exact .inl ⟨user, name, yamlConfig, rfl, rfl⟩
  | proceed index =>
    obtain ⟨r, hr, hmap⟩ := Option.bind_eq_some_iff.mp h
    obtain ⟨⟨r', db'⟩, hproceed, ht⟩ := Option.map_eq_some_iff.mp hmap
    exact .inr (.inl ⟨index, r, r', db', rfl, hr, hproceed, ht.symm⟩)
  | validate index rejection =>
    obtain ⟨r, hr, hmap⟩ := Option.bind_eq_some_iff.mp h
    obtain ⟨r', hvalidate, ht⟩ := Option.map_eq_some_iff.mp hmap
    exact .inr (.inr ⟨index, rejection, r, r', rfl, hr, hvalidate, ht.symm⟩)

theorem inv_set (h : Inv start w) (hgrown : Grown start db')
    (howners : ∀ name, owners w.db name ≠ [] → owners db' name ≠ [])
    (hr' : PhaseOk start db' r' r'.phase) :
    Inv start { db := db', requests := w.requests.set index r' } where
  grown := hgrown
  phases r hr := by
    rcases List.mem_or_eq_of_mem_set hr with hold | rfl
    · exact phaseOk_mono howners (h.phases r hold)
    · exact hr'

theorem inv_step (h : Inv start w) (hstep : step env w e = some t) : Inv start t := by
  obtain ⟨user, name, yamlConfig, rfl, rfl⟩ | ⟨index, r, r', db', rfl, hr, hproceed, rfl⟩ |
    ⟨index, rejection, r, r', rfl, hr, hvalidate, rfl⟩ := step_cases hstep
  · refine ⟨h.grown, fun r hr => ?_⟩
    rcases List.mem_append.mp hr with hold | hnew
    · exact h.phases r hold
    · rw [List.mem_singleton.mp hnew]
      unfold receive
      split
      · trivial
      · dsimp only
        split
        next hadmin => exact .inl hadmin
        next => rfl
  · have hok := h.phases r (List.mem_of_getElem? hr)
    obtain ⟨hphase, rfl, rfl⟩ | ⟨hphase, rfl, rfl⟩ | ⟨next, hcheck, rfl, rfl⟩ :=
      proceed_cases hproceed
    · refine inv_set h (grown_grant h.grown) (fun _ => owners_grant_ne_nil) (.inr (.inr ?_))
      rw [owners_grant, if_pos rfl]
      exact List.append_ne_nil_of_right_ne_nil _ (List.cons_ne_nil _ _)
    · exact inv_set h (grown_createRun h.grown) (fun _ hne => hne) trivial
    · exact inv_set h h.grown (fun _ hne => hne) (phaseOk_check h.grown hok hcheck)
  · obtain ⟨hphase, hcases⟩ := validate_cases hvalidate
    have hok : PhaseOk start w.db r .validating := hphase ▸ h.phases r (List.mem_of_getElem? hr)
    obtain ⟨error, rfl, rfl⟩ | ⟨rfl, rfl⟩ := hcases
    · exact inv_set h h.grown (fun _ hne => hne) trivial
    · exact inv_set h h.grown (fun _ hne => hne) hok

/-! ### Runs -/

/-- A step that grants nothing keeps the names with their owners where the request it changes does. -/
theorem bootstrapped_set (h : Bootstrapped start w) (howners : owners db' = owners w.db)
    (haccepted : r'.phase = .accepted → nameInUse start r'.pipelineName = false →
      owners w.db r'.pipelineName ≠ [])
    (hrejected : ∀ error, r'.phase = .rejected error → r'.granted = false) :
    Bootstrapped start { db := db', requests := w.requests.set index r' } where
  unique name hunused := howners ▸ h.unique name hunused
  owned r hr hunused hphase := by
    rw [howners]
    rcases List.mem_or_eq_of_mem_set hr with hold | rfl
    · exact h.owned r hold hunused hphase
    · have hpos := List.length_pos_iff.mpr (haccepted hphase hunused)
      exact Nat.le_antisymm (h.unique _ hunused) hpos
  unchanged r hr error hphase := by
    rcases List.mem_or_eq_of_mem_set hr with hold | rfl
    · exact h.unchanged r hold error hphase
    · exact hrejected error hphase

theorem mem_set_self {α : Type} {l : List α} {i : Nat} {a b : α} (h : l[i]? = some a) :
    b ∈ l.set i b :=
  List.mem_of_getElem? (List.getElem?_set_self (List.getElem?_eq_some_iff.mp h).1)

/-- A grant makes a name's first owner. -/
theorem bootstrapped_grant (h : Bootstrapped start w)
    (hunused : nameInUse start r.pipelineName = false) :
    Bootstrapped start ⟨grant w.db r,
      w.requests.set index { r with phase := .validating, granted := true }⟩ ↔
      owners w.db r.pipelineName = [] := by
  constructor
  · intro hgranted
    have hle := hgranted.unique r.pipelineName hunused
    rw [owners_grant, if_pos rfl, List.length_append, List.length_singleton] at hle
    exact List.length_eq_zero_iff.mp (Nat.le_zero.mp (Nat.le_of_succ_le_succ hle))
  · intro hnone
    constructor
    · intro name hname
      rw [owners_grant]
      split
      next hsame =>
        subst hsame
        rw [hnone]
        exact Nat.le_refl 1
      next => exact h.unique name hname
    · intro r' hr' hunused' hphase
      rcases List.mem_or_eq_of_mem_set hr' with hold | rfl
      · have hone := h.owned r' hold hunused' hphase
        rw [owners_grant]
        split
        next hsame =>
          rw [← hsame, hnone] at hone
          cases hone
        next => exact hone
      · cases hphase
    · intro r' hr' error hphase
      rcases List.mem_or_eq_of_mem_set hr' with hold | rfl
      · exact h.unchanged r' hold error hphase
      · cases hphase

/-- A run is created under an owner. -/
theorem bootstrapped_create (hinv : Inv start w) (h : Bootstrapped start w)
    (hr : w.requests[index]? = some r) (hphase : r.phase = .creating) :
    Bootstrapped start ⟨createRun w.db r,
      w.requests.set index { r with phase := .accepted }⟩ ↔
      (r.user.role = "admin" → nameInUse start r.pipelineName = false →
        owners w.db r.pipelineName ≠ []) := by
  have hcovered : Covered start w.db r := by
    have hok := hinv.phases r (List.mem_of_getElem? hr)
    rw [hphase] at hok
    exact hok
  constructor
  · intro hcreated _ hunused hnone
    have hone := hcreated.owned { r with phase := .accepted } (mem_set_self hr) hunused rfl
    have hzero : (owners w.db r.pipelineName).length = 1 := hone
    rw [hnone] at hzero
    cases hzero
  · intro hadmin
    refine bootstrapped_set h rfl (fun _ hunused => ?_) (fun _ hrejected => nomatch hrejected)
    rcases hcovered with hrole | hused | howner
    · exact hadmin hrole hunused
    · exact absurd (hused.symm.trans hunused) (by decide)
    · exact howner

theorem granted_of_check {phase next : Phase} (h : PhaseOk start db r phase)
    (hcheck : check db r phase = some next) : r.granted = false ∧ next ≠ .accepted := by
  cases phase with
  | ownContract =>
    cases hcheck
    refine ⟨h, ?_⟩
    split <;> exact nofun
  | permission =>
    cases hcheck
    refine ⟨h, ?_⟩
    split
    · exact nofun
    · split <;> exact nofun
  | usedByRun =>
    cases hcheck
    refine ⟨h, ?_⟩
    split <;> exact nofun
  | usedByContract | usedByPermission =>
    cases hcheck
    refine ⟨h.1, ?_⟩
    split <;> exact nofun
  | _ => cases hcheck

theorem orderly_of_eq_none (h : step env w e = none) : Orderly start w e := by
  cases e with
  | receive user name yamlConfig => trivial
  | proceed index =>
    intro r hr
    rw [step, hr, Option.bind_some, Option.map_eq_none_iff] at h
    refine ⟨fun hphase => ?_, fun hphase => ?_⟩
    · rw [proceed, hphase] at h
      cases h
    · rw [proceed, hphase] at h
      cases h
  | validate index rejection =>
    intro r hr hphase
    rw [step, hr, Option.bind_some, Option.map_eq_none_iff] at h
    simp only [validate, hphase, if_true] at h
    cases h

/-- An event keeps the names with their owners exactly where it meets its condition. -/
theorem bootstrapped_step (hinv : Inv start w) (h : Bootstrapped start w)
    (hstep : step env w e = some t) : Bootstrapped start t ↔ Orderly start w e := by
  obtain ⟨user, name, yamlConfig, rfl, rfl⟩ | ⟨index, r, r', db', rfl, hr, hproceed, rfl⟩ |
    ⟨index, rejection, r, r', rfl, hr, hvalidate, rfl⟩ := step_cases hstep
  · refine iff_of_true ?_ trivial
    have hnew : (receive env user name yamlConfig).granted = false ∧
        (receive env user name yamlConfig).phase ≠ .accepted := by
      unfold receive
      split
      · exact ⟨rfl, nofun⟩
      · refine ⟨rfl, ?_⟩
        dsimp only
        split <;> exact nofun
    constructor
    · exact h.unique
    · intro r hr hunused hphase
      rcases List.mem_append.mp hr with hold | hlast
      · exact h.owned r hold hunused hphase
      · rw [List.mem_singleton.mp hlast] at hphase
        exact absurd hphase hnew.2
    · intro r hr error hphase
      rcases List.mem_append.mp hr with hold | hlast
      · exact h.unchanged r hold error hphase
      · rw [List.mem_singleton.mp hlast]
        exact hnew.1
  · have hok := hinv.phases r (List.mem_of_getElem? hr)
    have hguard : Orderly start w (.proceed index : Event Yaml) ↔
        (r.phase = .granting → owners w.db r.pipelineName = []) ∧
          (r.phase = .creating → r.user.role = "admin" → nameInUse start r.pipelineName = false →
            owners w.db r.pipelineName ≠ []) := by
      simp only [Orderly, hr, Option.some.injEq, forall_eq']
    rw [hguard]
    obtain ⟨hphase, rfl, rfl⟩ | ⟨hphase, rfl, rfl⟩ | ⟨next, hcheck, rfl, rfl⟩ :=
      proceed_cases hproceed
    · rw [hphase] at hok ⊢
      rw [bootstrapped_grant h hok.2]
      exact ⟨fun hnone => ⟨fun _ => hnone, nofun⟩, fun hboth => hboth.1 rfl⟩
    · rw [bootstrapped_create hinv h hr hphase, hphase]
      exact ⟨fun hadmin => ⟨nofun, fun _ => hadmin⟩, fun hboth => hboth.2 rfl⟩
    · obtain ⟨hgranted, haccepted⟩ := granted_of_check hok hcheck
      refine iff_of_true (bootstrapped_set h rfl (fun hphase => absurd hphase haccepted)
        fun _ _ => hgranted) ⟨fun hphase => ?_, fun hphase => ?_⟩
      · rw [hphase] at hcheck
        cases hcheck
      · rw [hphase] at hcheck
        cases hcheck
  · obtain ⟨hphase, hcases⟩ := validate_cases hvalidate
    have hguard : Orderly start w (.validate index rejection : Event Yaml) ↔
        (r.granted = true → rejection = none) := by
      simp only [Orderly, hr, Option.some.injEq, forall_eq', hphase, true_implies]
    rw [hguard]
    obtain ⟨error, rfl, rfl⟩ | ⟨rfl, rfl⟩ := hcases
    · constructor
      · intro hset hgranted
        have := hset.unchanged { r with phase := .rejected error } (mem_set_self hr) error rfl
        rw [hgranted] at this
        cases this
      · intro hnot
        refine bootstrapped_set h rfl (fun hphase => nomatch hphase) fun _ _ => ?_
        exact Bool.eq_false_iff.mpr fun hgranted => nomatch hnot hgranted
    · exact iff_of_true (bootstrapped_set h rfl (fun hphase => nomatch hphase)
        fun _ hphase => nomatch hphase) fun _ => rfl

/-- However run requests interleave, every new name gets its one owner and rejected requests leave
the permissions as they were, exactly when every event of the run meets its condition. -/
theorem ownership_bootstrapped_iff (env : Env Yaml Steps) (start : Db Yaml)
    (events : List (Event Yaml)) :
    Always (step env) (Bootstrapped start) { db := start } events ↔
      Along (step env) (Orderly start) { db := start } events := by
  apply always_iff_along_all (I := Inv start)
  · exact fun _ _ _ h hstep => inv_step h hstep
  · exact fun _ _ hnone => orderly_of_eq_none hnone
  · exact fun _ _ _ hinv h hstep => bootstrapped_step hinv h hstep
  · refine ⟨⟨List.Subset.refl _, rfl, List.Subset.refl _, fun _ hp => .inl hp⟩, fun _ h => nomatch h⟩
  · refine ⟨fun name hunused => ?_, fun _ h => (nomatch h), fun _ h => (nomatch h)⟩
    have hnone : owners start name = [] := by
      refine List.filter_eq_nil_iff.mpr fun p hp hname => ?_
      exact (nameInUse_eq_false.mp hunused).2.2 p hp (of_decide_eq_true hname).1
    rw [hnone]
    exact Nat.zero_le 1

section Examples

/-- A configuration that consists of its name. -/
def named : Env String Unit where
  getParsedPipeline name := .ok ⟨name, ()⟩
  dump := Config.name
  dump_name := by
    rintro config config' h
    cases h
    rfl

def alice : User := ⟨"alice", "user"⟩
def bob : User := ⟨"bob", "user"⟩
def root : User := ⟨"root", "admin"⟩

/-- Two users' requests find the name free before either is granted it. -/
def bothFree : List (Event String) :=
  [.receive alice none "orders", .receive bob none "orders"] ++ List.replicate 5 (.proceed 0) ++
    List.replicate 5 (.proceed 1) ++ [.proceed 0, .proceed 1]

/-- The request that was granted a name fails its validation. -/
def invalidAfterGrant : List (Event String) :=
  [.receive alice none "orders"] ++ List.replicate 6 (.proceed 0) ++ [.validate 0 (some notFound)]

/-- An administrator is the first to run a name. -/
def adminFirst : List (Event String) :=
  [.receive root none "orders", .validate 0 none, .proceed 0]

/-- A name gets two owners, a rejected request leaves a permission behind, and a name gets a run and
no owner. -/
theorem ownership_disordered :
    ¬ Always (step named) (Bootstrapped {}) { db := {} } bothFree ∧
      ¬ Always (step named) (Bootstrapped {}) { db := {} } invalidAfterGrant ∧
        ¬ Always (step named) (Bootstrapped {}) { db := {} } adminFirst := by
  refine ⟨fun h => ?_, fun h => ?_, fun h => ?_⟩
  · have htwo := (h bothFree [] rfl _ rfl).unique "orders" (by decide)
    revert htwo
    decide
  · have hgranted := (h invalidAfterGrant [] rfl _ rfl).unchanged _ List.mem_cons_self notFound rfl
    cases hgranted
  · have hone := (h adminFirst [] rfl _ rfl).owned _ List.mem_cons_self (by decide) rfl
    revert hone
    decide

end Examples

end PipelineIQ.Api.Bootstrap
