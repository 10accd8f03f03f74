import PipelineIQ.Execution.BusLocations

namespace PipelineIQ.Execution.BusOwnership

open PipelineIQ.Lib PipelineIQ.Execution.ArrowBus PipelineIQ.Execution.BusLocations

variable {Table Bytes : Type} {cfg : Config Table Bytes} {s : State Bytes}

/-- What the runs expect of the bus: the table each run put under each key and
has not deleted since. -/
abbrev Owned (Table : Type) := String → String → Option Table

def Owned.assign (owned : Owned Table) (runId key : String) (value : Option Table) : Owned Table :=
  fun r k => if r = runId ∧ k = key then value else owned r k

@[simp] theorem Owned.assign_assign (owned : Owned Table) (runId key : String)
    (v w : Option Table) : (owned.assign runId key v).assign runId key w =
      owned.assign runId key w := by
  funext r k
  simp only [Owned.assign]
  split <;> rfl

theorem Owned.assign_self (owned : Owned Table) {runId key : String} {value : Option Table}
    (h : owned runId key = value) : owned.assign runId key value = owned := by
  funext r k
  rw [Owned.assign]
  split
  · next he => rw [he.1, he.2, h]
  · rfl

/-- The bus serves the runs: each table a run owns lies where the location of its
key points, and nothing else shares that place. -/
structure Serves (cfg : Config Table Bytes) (s : State Bytes) (owned : Owned Table) : Prop where
  owner : ∀ r k table, owned r k = some table → ∃ loc, s.locations.get? k = some loc ∧
    loc.runId = r ∧ s.payloads.get? loc.pointer = some (encode cfg loc.pointer table)
  located : ∀ k loc, s.locations.get? k = some loc → ∃ table, owned loc.runId k = some table
  apart : ∀ j k loc loc', s.locations.get? j = some loc → s.locations.get? k = some loc' →
    loc.pointer = loc'.pointer → j = k
  digests : ∀ r j k, j ≠ k → (owned r j).isSome → (owned r k).isSome →
    cfg.digest r j ≠ cfg.digest r k

variable {owned : Owned Table}

theorem serves_initial : Serves cfg (initial : State Bytes) (fun _ _ => none) := by
  refine ⟨?_, ?_, ?_, ?_⟩ <;> simp [initial]

/-- A table a run owns is what `get` returns. -/
theorem Serves.get (hs : Located cfg s) (ho : Serves cfg s owned) {r k : String} {table : Table}
    (h : owned r k = some table) : ArrowBus.get cfg s k = .ok table := by
  obtain ⟨loc, hk, hr, hp⟩ := ho.owner r k table h
  have hn := hs.pointer k loc hk
  rw [ArrowBus.get, hk]
  cases hptr : loc.pointer with
  | redis =>
    rw [hptr] at hn hp
    simp only [hptr, hp, if_pos hn.2.2, encode, cfg.bytesToTable_tableToBytes]
  | shm =>
    rw [hptr] at hp
    simp only [hptr, hp, encode, cfg.bytesToTable_tableToBytes]
  | spill =>
    rw [hptr] at hp
    simp only [hptr, hp, encode, cfg.readParquet_writeParquet]

theorem Serves.owner_unique (ho : Serves cfg s owned) {q r k : String} {v w : Table}
    (hq : owned q k = some v) (hr : owned r k = some w) : q = r := by
  obtain ⟨loc, hk, hl, -⟩ := ho.owner q k v hq
  obtain ⟨loc', hk', hl', -⟩ := ho.owner r k w hr
  rw [hk] at hk'
  cases hk'
  rw [← hl, ← hl']

/-- Deleting a key whose location is of the run gives up that run's table only. -/
theorem serves_delete (hs : Located cfg s) (ho : Serves cfg s owned) (runId key : String)
    (hfree : ∀ r, r ≠ runId → owned r key = none) :
    Serves cfg (delete cfg s key) (owned.assign runId key none) := by
  refine ⟨?_, ?_, ?_, ?_⟩
  · intro r k table h
    rw [Owned.assign] at h
    split at h
    · cases h
    · next hne =>
      have hk : k ≠ key := by
        intro he
        by_cases hr : r = runId
        · exact hne ⟨hr, he⟩
        · rw [he, hfree r hr] at h
          cases h
      obtain ⟨loc, hl, hr, hp⟩ := ho.owner r k table h
      refine ⟨loc, by rw [delete_locations, if_neg hk, hl], hr, ?_⟩
      rw [delete_payloads hs, if_neg, hp]
      intro he
      obtain ⟨loc', hl', hptr⟩ := Option.map_eq_some_iff.mp he
      exact hk (ho.apart k key loc loc' hl hl' hptr.symm)
  · intro k loc h
    rw [delete_locations] at h
    split at h
    · cases h
    · next hk =>
      obtain ⟨table, ht⟩ := ho.located k loc h
      exact ⟨table, by rw [Owned.assign, if_neg (fun he => hk he.2), ht]⟩
  · intro j k loc loc' hj hk hp
    rw [delete_locations] at hj hk
    split at hj
    · cases hj
    · split at hk
      · cases hk
      · exact ho.apart j k loc loc' hj hk hp
  · intro r j k hjk hj hk
    rw [Owned.assign] at hj hk
    split at hj
    · cases hj
    · split at hk
      · cases hk
      · exact ho.digests r j k hjk hj hk

/-- Writing a table under a name that no other key points to makes the run own it. -/
theorem Serves.stored {t : State Bytes} (ho : Serves cfg s owned) {key runId : String}
    {p : Pointer} {size : Nat} {table : Table}
    (hloc : ∀ k, t.locations.get? k =
      if k = key then some ⟨key, runId, p, size⟩ else s.locations.get? k)
    (hself : t.payloads.get? p = some (encode cfg p table))
    (hother : ∀ k loc, k ≠ key → s.locations.get? k = some loc →
      loc.pointer ≠ p ∧ t.payloads.get? loc.pointer = s.payloads.get? loc.pointer)
    (hfree : ∀ r, r ≠ runId → owned r key = none)
    (hdigest : ∀ k, k ≠ key → (owned runId k).isSome → cfg.digest runId k ≠ cfg.digest runId key) :
    Serves cfg t (owned.assign runId key (some table)) := by
  refine ⟨?_, ?_, ?_, ?_⟩
  · intro r k table' h
    rw [Owned.assign] at h
    split at h
    · next he =>
      cases h
      exact ⟨_, by rw [hloc, if_pos he.2], he.1.symm, hself⟩
    · next hne =>
      have hk : k ≠ key := by
        intro he
        by_cases hr : r = runId
        · exact hne ⟨hr, he⟩
        · rw [he, hfree r hr] at h
          cases h
      obtain ⟨loc, hl, hr, hp⟩ := ho.owner r k table' h
      exact ⟨loc, by rw [hloc, if_neg hk, hl], hr, by rw [(hother k loc hk hl).2, hp]⟩
  · intro k loc h
    rw [hloc] at h
    split at h
    · next hk =>
      cases h
      exact ⟨table, by rw [Owned.assign, if_pos ⟨rfl, hk⟩]⟩
    · next hk =>
      obtain ⟨table', ht⟩ := ho.located k loc h
      exact ⟨table', by rw [Owned.assign, if_neg (fun he => hk he.2), ht]⟩
  · intro j k loc loc' hj hk hp
    rw [hloc] at hj hk
    split at hj
    · next hjk =>
      cases hj
      split at hk
      · next hkk => rw [hjk, hkk]
      · next hkk => exact absurd hp.symm (hother k loc' hkk hk).1
    · next hjk =>
      split at hk
      · cases hk
        exact absurd hp (hother j loc hjk hj).1
      · exact ho.apart j k loc loc' hj hk hp
  · intro r j k hjk hj hk
    rw [Owned.assign] at hj hk
    split at hj
    · next hej =>
      rw [if_neg (fun he => hjk (hej.2.trans he.2.symm))] at hk
      rw [hej.1, hej.2]
      exact (hdigest k (fun he => hjk (hej.2.trans he.symm)) (hej.1 ▸ hk)).symm
    · split at hk
      · next hek =>
        rw [hek.1, hek.2]
        exact hdigest j (fun he => hjk (he.trans hek.2.symm)) (hek.1 ▸ hj)
      · exact ho.digests r j k hjk hj hk

/-- A name of the run and key that is new, or not a spill object, is no other
key's place. -/
theorem Serves.fresh_name (hs : Located cfg s) (ho : Serves cfg s owned) {key runId : String}
    {p : Pointer} {n : Nat} (hn : Names cfg n runId key p)
    (hnew : ∀ owner name uuid, p = .spill owner name uuid → s.uuids ≤ uuid)
    (hdigest : ∀ k, k ≠ key → (owned runId k).isSome → cfg.digest runId k ≠ cfg.digest runId key)
    {k : String} {loc : ArrowLocation} (hk : k ≠ key) (hl : s.locations.get? k = some loc) :
    loc.pointer ≠ p := by
  intro hp
  have hname := hs.pointer k loc hl
  rw [hp] at hname
  cases p with
  | redis => exact hk (hname.2.1.symm.trans hn.2.1)
  | shm =>
    obtain ⟨table, ht⟩ := ho.located k loc hl
    have hrun : loc.runId = runId := hname.1.symm.trans hn.1
    rw [hrun] at ht
    apply hdigest k hk (by rw [ht]; rfl)
    rw [← hn.2, hname.2, hrun]
  | spill owner name uuid =>
    have hle := hnew owner name uuid rfl
    have hlt := hname.2
    omega

theorem serves_put (hs : Located cfg s) (ho : Serves cfg s owned) {key : String} (hkey : key ≠ "")
    (table : Table) (runId : String) (setexOk writeOk : Bool)
    (hfree : ∀ r, r ≠ runId → owned r key = none)
    (hdigest : ∀ k, k ≠ key → (owned runId k).isSome → cfg.digest runId k ≠ cfg.digest runId key) :
    Serves cfg (put cfg key table runId setexOk writeOk s).2
      (owned.assign runId key (some table)) := by
  obtain ⟨p, size, n, hput, hn, -, hnew⟩ := put_cases cfg s hkey table runId setexOk writeOk
  have hd := located_delete hs key
  have hsd := serves_delete hs ho runId key hfree
  have hdigest' : ∀ k, k ≠ key → (owned.assign runId key none runId k).isSome →
      cfg.digest runId k ≠ cfg.digest runId key := by
    intro k hk h
    rw [Owned.assign, if_neg (fun he => hk he.2)] at h
    exact hdigest k hk h
  rw [hput, ← Owned.assign_assign owned runId key none]
  apply hsd.stored
  · intro k
    rw [store_locations]
  · rw [store_payloads, Dict.get?_set, if_pos rfl]
  · intro k loc hk hl
    have hp := hsd.fresh_name hd hn (by rw [delete_uuids]; exact hnew) hdigest' hk hl
    exact ⟨hp, by rw [store_payloads, Dict.get?_set, if_neg hp]⟩
  · intro r hr
    rw [Owned.assign, if_neg (fun he => hr he.1)]
    exact hfree r hr
  · exact hdigest'

/-- Eviction moves a payload and changes no run's tables. -/
theorem serves_evict (hs : Located cfg s) (ho : Serves cfg s owned) {c : Candidate}
    {t : State Bytes} (h : evict cfg c s = some t) : Serves cfg t owned := by
  obtain ⟨raw, loc, hraw, hk, hrun, hp, hloc, hpay, -, -⟩ := evict_cases hs h
  obtain ⟨table, ht⟩ := ho.located c.key loc hk
  rw [hrun] at ht
  obtain ⟨loc', hk', -, henc⟩ := ho.owner c.runId c.key table ht
  rw [hk] at hk'
  cases hk'
  have hbytes : cfg.tableToBytes (cfg.bytesToTable raw) = cfg.tableToBytes table := by
    rw [hp, hraw] at henc
    rw [Option.some.inj henc, encode, cfg.bytesToTable_tableToBytes]
  have hdigest : ∀ k, k ≠ c.key → (owned c.runId k).isSome →
      cfg.digest c.runId k ≠ cfg.digest c.runId c.key := by
    intro k hkc hk
    exact ho.digests c.runId k c.key hkc hk (by rw [ht]; rfl)
  have hn : Names cfg s.uuids c.runId c.key (.shm c.runId (cfg.digest c.runId c.key)) := ⟨rfl, rfl⟩
  rw [← owned.assign_self ht]
  apply ho.stored hloc
  · rw [hpay, if_neg (by simp), if_pos rfl, hbytes]
    rfl
  · intro k loc' hkc hl
    have hshm := ho.fresh_name hs hn (by simp) hdigest hkc hl
    refine ⟨hshm, ?_⟩
    rw [hpay, if_neg, if_neg hshm]
    intro he
    exact hkc (ho.apart k c.key loc' loc hl hk (by rw [he, hp]))
  · intro r hr
    cases hrk : owned r c.key with
    | none => rfl
    | some w => exact absurd (ho.owner_unique hrk ht) hr
  · exact hdigest

theorem serves_evictScan (scan : List Candidate) (n : Nat) (hs : Located cfg s)
    (ho : Serves cfg s owned) : Serves cfg (evictScan cfg scan n s).2 owned := by
  induction scan generalizing n s with
  | nil => exact ho
  | cons c scan ih =>
    rw [evictScan]
    split
    · exact ih n hs ho
    · next t h =>
      have ht := serves_evict hs ho h
      split
      · exact ht
      · exact ih (n + 1) (located_evict hs h) ht

theorem Serves.congr {t : State Bytes} (ho : Serves cfg s owned) (h : SameLookups s t) :
    Serves cfg t owned := by
  refine ⟨?_, ?_, ?_, ho.digests⟩
  · intro r k table hr
    obtain ⟨loc, hk, hl, hp⟩ := ho.owner r k table hr
    exact ⟨loc, (h.locations k).trans hk, hl, (h.payloads _).trans hp⟩
  · intro k loc hk
    exact ho.located k loc ((h.locations k).symm.trans hk)
  · intro j k loc loc' hj hk hp
    exact ho.apart j k loc loc' ((h.locations j).symm.trans hj) ((h.locations k).symm.trans hk) hp

theorem serves_foldl_delete (runId : String) (keys : List String) (hs : Located cfg s)
    (ho : Serves cfg s owned) (hfree : ∀ k ∈ keys, ∀ r, r ≠ runId → owned r k = none) :
    Serves cfg (keys.foldl (delete cfg) s)
      (fun r k => if r = runId ∧ k ∈ keys then none else owned r k) := by
  induction keys generalizing s owned with
  | nil => simpa using ho
  | cons k keys ih =>
    have hd := serves_delete hs ho runId k (hfree k (List.mem_cons_self ..))
    have hrec := ih (located_delete hs k) hd (by
      intro j hj r hr
      rw [Owned.assign, if_neg (fun he => hr he.1)]
      exact hfree j (List.mem_cons_of_mem k hj) r hr)
    have heq : (fun r j => if r = runId ∧ j ∈ k :: keys then none else owned r j) =
        (fun r j => if r = runId ∧ j ∈ keys then none else owned.assign runId k none r j) := by
      funext r j
      by_cases hr : r = runId <;> by_cases hj : j = k <;> simp [Owned.assign, hr, hj]
    rw [heq]
    exact hrec

theorem serves_cleanupRun (hs : Located cfg s) (ho : Serves cfg s owned) (runId : String) :
    Serves cfg (cleanupRun cfg runId s).2 (fun r k => if r = runId then none else owned r k) := by
  have hfree : ∀ k ∈ runKeys s runId, ∀ r, r ≠ runId → owned r k = none := by
    intro k hk r hr
    obtain ⟨loc, hl, hrun⟩ := (mem_runKeys_iff runId k).mp hk
    obtain ⟨table, ht⟩ := ho.located k loc hl
    cases hrk : owned r k with
    | none => rfl
    | some w => exact absurd ((ho.owner_unique hrk ht).trans hrun) hr
  have heq : (fun r k => if r = runId then none else owned r k) =
      (fun r k => if r = runId ∧ k ∈ runKeys s runId then none else owned r k) := by
    funext r k
    by_cases hr : r = runId
    · by_cases hk : k ∈ runKeys s runId
      · rw [if_pos hr, if_pos ⟨hr, hk⟩]
      · rw [if_pos hr, if_neg (fun he => hk he.2)]
        cases hrk : owned r k with
        | none => rfl
        | some w =>
          obtain ⟨loc, hl, hrun, -⟩ := ho.owner r k w hrk
          exact absurd ((mem_runKeys_iff runId k).mpr ⟨loc, hl, hrun.trans hr⟩) hk
    · rw [if_neg hr, if_neg (fun he => hr he.1)]
  rw [heq]
  exact (serves_foldl_delete runId (runKeys s runId) hs ho hfree).congr
    (sameLookups_cleanupRun hs runId).2

end PipelineIQ.Execution.BusOwnership
