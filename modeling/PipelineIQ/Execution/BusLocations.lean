import PipelineIQ.Execution.ArrowBus

namespace PipelineIQ.Execution.BusLocations

open PipelineIQ.Lib PipelineIQ.Execution.ArrowBus

variable {Table Bytes : Type} {cfg : Config Table Bytes} {s : State Bytes}

/-- The names the bus gives to the payload of a key of a run. -/
def Names (cfg : Config Table Bytes) (uuids : Nat) (runId key : String) : Pointer → Prop
  | .redis owner name => owner = runId ∧ name = key ∧ cfg.redisAvailable = true
  | .shm owner digest => owner = runId ∧ digest = cfg.digest runId key
  | .spill owner _ uuid => owner = runId ∧ uuid < uuids

theorem Names.runId {uuids : Nat} {runId key : String} {p : Pointer}
    (h : Names cfg uuids runId key p) : p.runId = runId := by
  cases p <;> exact h.1

theorem Names.mono {m n : Nat} {runId key : String} {p : Pointer} (h : Names cfg m runId key p)
    (hmn : m ≤ n) : Names cfg n runId key p := by
  cases p with
  | redis => exact h
  | shm => exact h
  | spill => exact ⟨h.1, Nat.lt_of_lt_of_le h.2 hmn⟩

/-- What holds of every bus: locations are filed under their key and name a
payload of their run, manifest entries too, and no payload lies unlocated. -/
structure Located (cfg : Config Table Bytes) (s : State Bytes) : Prop where
  key : ∀ k loc, s.locations.get? k = some loc → loc.key = k
  pointer : ∀ k loc, s.locations.get? k = some loc → Names cfg s.uuids loc.runId k loc.pointer
  manifest : ∀ r k loc, s.manifest.get? (r, k) = some loc → loc.pointer.runId = r
  payload : ∀ p b, s.payloads.get? p = some b →
    ∃ k loc, s.locations.get? k = some loc ∧ loc.pointer = p

theorem located_initial : Located cfg (initial : State Bytes) := by
  refine ⟨?_, ?_, ?_, ?_⟩ <;> simp [initial]

@[simp] theorem removeManifestEntry_locations (runId key : String) :
    (removeManifestEntry cfg runId key s).locations = s.locations := by
  rw [removeManifestEntry]
  split <;> rfl

@[simp] theorem removeManifestEntry_payloads (runId key : String) :
    (removeManifestEntry cfg runId key s).payloads = s.payloads := by
  rw [removeManifestEntry]
  split <;> rfl

@[simp] theorem removeManifestEntry_uuids (runId key : String) :
    (removeManifestEntry cfg runId key s).uuids = s.uuids := by
  rw [removeManifestEntry]
  split <;> rfl

theorem removeManifestEntry_manifest (runId key : String) {entry : String × String}
    {loc : ArrowLocation} (h : (removeManifestEntry cfg runId key s).manifest.get? entry = some loc) :
    s.manifest.get? entry = some loc := by
  rw [removeManifestEntry] at h
  split at h
  · rw [Dict.get?_erase] at h
    split at h
    · cases h
    · exact h
  · exact h

@[simp] theorem deleteLocationPayload_locations (loc : ArrowLocation) :
    (deleteLocationPayload cfg loc s).locations = s.locations := by
  rw [deleteLocationPayload]
  repeat' split
  all_goals rfl

@[simp] theorem deleteLocationPayload_manifest (loc : ArrowLocation) :
    (deleteLocationPayload cfg loc s).manifest = s.manifest := by
  rw [deleteLocationPayload]
  repeat' split
  all_goals rfl

@[simp] theorem deleteLocationPayload_uuids (loc : ArrowLocation) :
    (deleteLocationPayload cfg loc s).uuids = s.uuids := by
  rw [deleteLocationPayload]
  repeat' split
  all_goals rfl

theorem deleteLocationPayload_payloads (loc : ArrowLocation)
    (h : loc.pointer.tier = .redis → cfg.redisAvailable = true) :
    (deleteLocationPayload cfg loc s).payloads = s.payloads.erase loc.pointer := by
  rw [deleteLocationPayload]
  split
  · next hp => rw [if_pos (h (by rw [hp]; rfl))]
  · rfl
  · rfl

theorem deleteLocationPayload_frame (loc : ArrowLocation) {p : Pointer} (h : loc.pointer ≠ p) :
    (deleteLocationPayload cfg loc s).payloads.get? p = s.payloads.get? p := by
  rw [deleteLocationPayload]
  repeat' split
  all_goals first
    | rfl
    | exact (Dict.get?_erase ..).trans (if_neg (Ne.symm h))

@[simp] theorem delete_locations (key j : String) :
    (delete cfg s key).locations.get? j = if j = key then none else s.locations.get? j := by
  rw [delete]
  split
  · next h =>
    by_cases hj : j = key
    · rw [if_pos hj, hj, h]
    · rw [if_neg hj]
  · rw [removeManifestEntry_locations, deleteLocationPayload_locations, Dict.get?_erase]

@[simp] theorem delete_uuids (key : String) : (delete cfg s key).uuids = s.uuids := by
  rw [delete]
  split
  · rfl
  · rw [removeManifestEntry_uuids, deleteLocationPayload_uuids]

theorem delete_manifest (key : String) {entry : String × String} {loc : ArrowLocation}
    (h : (delete cfg s key).manifest.get? entry = some loc) :
    s.manifest.get? entry = some loc := by
  rw [delete] at h
  split at h
  · exact h
  · have h' := removeManifestEntry_manifest _ _ h
    rwa [deleteLocationPayload_manifest] at h'

/-- Deleting a key removes the payload it points to and no other. -/
theorem delete_payloads (hs : Located cfg s) (key : String) (p : Pointer) :
    (delete cfg s key).payloads.get? p =
      if (s.locations.get? key).map ArrowLocation.pointer = some p then none
      else s.payloads.get? p := by
  rw [delete]
  cases hk : s.locations.get? key with
  | none => rfl
  | some loc =>
    have hn := hs.pointer key loc hk
    have havail : loc.pointer.tier = .redis → cfg.redisAvailable = true := by
      intro ht
      cases hp : loc.pointer with
      | redis => rw [hp] at hn; exact hn.2.2
      | shm => rw [hp] at ht; cases ht
      | spill => rw [hp] at ht; cases ht
    simp only [removeManifestEntry_payloads, deleteLocationPayload_payloads loc havail,
      Dict.get?_erase, Option.map_some, Option.some.injEq, eq_comm]

theorem located_delete (hs : Located cfg s) (key : String) : Located cfg (delete cfg s key) := by
  refine ⟨?_, ?_, ?_, ?_⟩
  · intro k loc h
    rw [delete_locations] at h
    split at h
    · cases h
    · exact hs.key k loc h
  · intro k loc h
    rw [delete_locations] at h
    rw [delete_uuids]
    split at h
    · cases h
    · exact hs.pointer k loc h
  · intro r k loc h
    exact hs.manifest r k loc (delete_manifest key h)
  · intro p b h
    rw [delete_payloads hs] at h
    split at h
    · cases h
    · next hp =>
      obtain ⟨k, loc, hk, rfl⟩ := hs.payload p b h
      refine ⟨k, loc, ?_, rfl⟩
      rw [delete_locations, if_neg]
      · exact hk
      · intro heq
        rw [← heq, hk] at hp
        exact hp rfl

/-- The bytes that hold a table under a pointer. -/
def encode (cfg : Config Table Bytes) (p : Pointer) (table : Table) : Bytes :=
  match p with
  | .redis .. | .shm .. => cfg.tableToBytes table
  | .spill .. => cfg.writeParquet table

@[simp] theorem store_locations (key runId : String) (p : Pointer) (b : Bytes) (size : Nat)
    (j : String) : (store cfg key runId p b size s).locations.get? j =
      if j = key then some ⟨key, runId, p, size⟩ else s.locations.get? j := by
  rw [store, recordLocation, persistManifestEntry]
  split <;> rw [Dict.get?_set]

@[simp] theorem store_payloads (key runId : String) (p : Pointer) (b : Bytes) (size : Nat) :
    (store cfg key runId p b size s).payloads = s.payloads.set p b := by
  rw [store, recordLocation, persistManifestEntry]
  split <;> rfl

@[simp] theorem store_uuids (key runId : String) (p : Pointer) (b : Bytes) (size : Nat) :
    (store cfg key runId p b size s).uuids = s.uuids := by
  rw [store, recordLocation, persistManifestEntry]
  split <;> rfl

theorem store_manifest (key runId : String) (p : Pointer) (b : Bytes) (size : Nat)
    {entry : String × String} {loc : ArrowLocation}
    (h : (store cfg key runId p b size s).manifest.get? entry = some loc) :
    s.manifest.get? entry = some loc ∨ entry.1 = runId ∧ loc.pointer = p := by
  rw [store, recordLocation, persistManifestEntry] at h
  split at h
  · rw [Dict.get?_set] at h
    split at h
    · next he =>
      right
      rw [Option.some.injEq] at h
      rw [he, ← h]
      exact ⟨rfl, rfl⟩
    · exact .inl h
  · exact .inl h

/-- What `put` does to the bus once its key is accepted: the old payload of the
key goes, and a payload under a name of the run and key comes. -/
theorem put_cases (cfg : Config Table Bytes) (s : State Bytes) {key : String} (hkey : key ≠ "")
    (table : Table) (runId : String) (setexOk writeOk : Bool) :
    ∃ p size n, (put cfg key table runId setexOk writeOk s).2 =
        store cfg key runId p (encode cfg p table) size { delete cfg s key with uuids := n } ∧
      Names cfg n runId key p ∧ s.uuids ≤ n ∧
      ∀ owner name uuid, p = .spill owner name uuid → s.uuids ≤ uuid := by
  have hsame : (delete cfg s key).uuids = s.uuids := delete_uuids key
  rw [put, if_neg hkey]
  dsimp only
  split
  · next h =>
    refine ⟨.redis runId key, estimatedSize cfg table, s.uuids, ?_, ⟨rfl, rfl, h.2.1⟩,
      Nat.le_refl _, ?_⟩
    · rw [← hsame]
      rfl
    · intro _ _ _ h
      cases h
  · split
    · refine ⟨.shm runId (cfg.digest runId key), estimatedSize cfg table, s.uuids, ?_, ⟨rfl, rfl⟩,
        Nat.le_refl _, ?_⟩
      · rw [← hsame]
        rfl
      · intro _ _ _ h
        cases h
    · refine ⟨.spill runId (safeKey key) s.uuids, estimatedSize cfg table, s.uuids + 1, ?_,
        ⟨rfl, Nat.lt_succ_self _⟩, Nat.le_succ _, ?_⟩
      · rw [hsame]
        rfl
      · intro _ _ _ h
        cases h
        exact Nat.le_refl _

/-- A payload written for a key keeps every payload located, if the one the key
pointed to before is gone. -/
theorem Located.stored {t : State Bytes} (hs : Located cfg s) {key runId : String} {p : Pointer}
    {size : Nat} (hn : Names cfg t.uuids runId key p) (huuids : s.uuids ≤ t.uuids)
    (hloc : ∀ k, t.locations.get? k =
      if k = key then some ⟨key, runId, p, size⟩ else s.locations.get? k)
    (hman : ∀ entry loc, t.manifest.get? entry = some loc →
      s.manifest.get? entry = some loc ∨ entry.1 = runId ∧ loc.pointer = p)
    (hpay : ∀ q b, t.payloads.get? q = some b →
      q = p ∨ ∃ b', s.payloads.get? q = some b' ∧
        (s.locations.get? key).map ArrowLocation.pointer ≠ some q) : Located cfg t := by
  refine ⟨?_, ?_, ?_, ?_⟩
  · intro k loc h
    rw [hloc] at h
    split at h
    · next hk =>
      cases h
      exact hk.symm
    · exact hs.key k loc h
  · intro k loc h
    rw [hloc] at h
    split at h
    · next hk =>
      cases h
      rw [hk]
      exact hn
    · exact (hs.pointer k loc h).mono huuids
  · intro r k loc h
    cases hman (r, k) loc h with
    | inl hold => exact hs.manifest r k loc hold
    | inr hnew => rw [hnew.2, hn.runId, ← hnew.1]
  · intro q b h
    cases hpay q b h with
    | inl hq => exact ⟨key, _, by rw [hloc, if_pos rfl], hq.symm⟩
    | inr hq =>
      obtain ⟨b', hb', hne⟩ := hq
      obtain ⟨k, loc, hk, rfl⟩ := hs.payload q b' hb'
      refine ⟨k, loc, ?_, rfl⟩
      rw [hloc, if_neg]
      · exact hk
      · intro heq
        rw [← heq, hk] at hne
        exact hne rfl

theorem located_put (hs : Located cfg s) (key : String) (table : Table) (runId : String)
    (setexOk writeOk : Bool) : Located cfg (put cfg key table runId setexOk writeOk s).2 := by
  by_cases hkey : key = ""
  · rw [put, if_pos hkey]
    exact hs
  · obtain ⟨p, size, n, hput, hn, hle, -⟩ := put_cases cfg s hkey table runId setexOk writeOk
    rw [hput]
    have hd := located_delete hs key
    apply hd.stored
    · rw [store_uuids]
      exact hn
    · rw [store_uuids, delete_uuids]
      exact hle
    · intro k
      rw [store_locations]
    · intro entry loc h
      have hm := store_manifest key runId p _ size h
      exact hm
    · intro q b h
      rw [store_payloads, Dict.get?_set] at h
      split at h
      · next hq => exact .inl hq
      · refine .inr ⟨b, h, ?_⟩
        rw [delete_locations, if_pos rfl]
        exact Option.some_ne_none q ∘ Eq.symm

/-- An entry that eviction moves is the one its key points to. -/
theorem evict_cases (hs : Located cfg s) {c : Candidate} {t : State Bytes}
    (h : evict cfg c s = some t) :
    ∃ raw loc, s.payloads.get? (.redis c.runId c.key) = some raw ∧
      s.locations.get? c.key = some loc ∧ loc.runId = c.runId ∧
      loc.pointer = .redis c.runId c.key ∧
      (∀ k, t.locations.get? k = if k = c.key then
        some ⟨c.key, c.runId, .shm c.runId (cfg.digest c.runId c.key), cfg.length raw⟩
        else s.locations.get? k) ∧
      (∀ q, t.payloads.get? q = if q = .redis c.runId c.key then none
        else if q = .shm c.runId (cfg.digest c.runId c.key) then
          some (cfg.tableToBytes (cfg.bytesToTable raw))
        else s.payloads.get? q) ∧
      (∀ entry loc, t.manifest.get? entry = some loc → s.manifest.get? entry = some loc ∨
        entry.1 = c.runId ∧ loc.pointer = .shm c.runId (cfg.digest c.runId c.key)) ∧
      t.uuids = s.uuids := by
  rw [evict] at h
  cases hraw : s.payloads.get? (.redis c.runId c.key) with
  | none =>
    rw [hraw] at h
    cases h
  | some raw =>
    rw [hraw] at h
    dsimp only at h
    split at h
    · cases h
    · cases h
      obtain ⟨k, loc, hk, hp⟩ := hs.payload _ raw hraw
      have hn := hs.pointer k loc hk
      rw [hp] at hn
      obtain ⟨hrun, hname, -⟩ := hn
      refine ⟨raw, loc, rfl, by rw [hname]; exact hk, hrun.symm, hp, ?_, ?_, ?_, ?_⟩
      · intro j
        rw [store_locations]
      · intro q
        rw [Dict.get?_erase, store_payloads, Dict.get?_set]
      · intro entry loc h
        exact store_manifest _ _ _ _ _ h
      · rw [store_uuids]

theorem located_evict (hs : Located cfg s) {c : Candidate} {t : State Bytes}
    (h : evict cfg c s = some t) : Located cfg t := by
  obtain ⟨raw, loc, hraw, hk, hrun, hp, hloc, hpay, hman, huuids⟩ := evict_cases hs h
  have hn : Names cfg t.uuids c.runId c.key (.shm c.runId (cfg.digest c.runId c.key)) := ⟨rfl, rfl⟩
  apply hs.stored hn (Nat.le_of_eq huuids.symm) hloc hman
  intro q b hq
  rw [hpay] at hq
  split at hq
  · cases hq
  · next hne =>
    split at hq
    · next heq => exact .inl heq
    · refine .inr ⟨b, hq, ?_⟩
      rw [hk, Option.map_some, hp]
      intro heq
      exact hne (Option.some.inj heq).symm

theorem located_evictScan (scan : List Candidate) (n : Nat) (hs : Located cfg s) :
    Located cfg (evictScan cfg scan n s).2 := by
  induction scan generalizing n s with
  | nil => exact hs
  | cons c scan ih =>
    rw [evictScan]
    split
    · exact ih n hs
    · next t h =>
      have ht := located_evict hs h
      split
      · exact ht
      · exact ih (n + 1) ht

theorem mem_runKeys_iff (runId k : String) :
    k ∈ runKeys s runId ↔ ∃ loc, s.locations.get? k = some loc ∧ loc.runId = runId := by
  simp only [runKeys, List.mem_map, List.mem_filter, decide_eq_true_eq, Dict.get?_eq_some_iff]
  constructor
  · rintro ⟨⟨_, loc⟩, ⟨hm, hr⟩, rfl⟩
    exact ⟨loc, hm, hr⟩
  · rintro ⟨loc, hm, hr⟩
    exact ⟨⟨k, loc⟩, ⟨hm, hr⟩, rfl⟩

/-- Two buses that answer every look-up alike. -/
structure SameLookups (s t : State Bytes) : Prop where
  locations : ∀ k, t.locations.get? k = s.locations.get? k
  payloads : ∀ p, t.payloads.get? p = s.payloads.get? p
  manifest : ∀ entry loc, t.manifest.get? entry = some loc → s.manifest.get? entry = some loc
  uuids : t.uuids = s.uuids

theorem SameLookups.refl (s : State Bytes) : SameLookups s s :=
  ⟨fun _ => rfl, fun _ => rfl, fun _ _ h => h, rfl⟩

theorem SameLookups.trans {s t u : State Bytes} (h : SameLookups s t) (h' : SameLookups t u) :
    SameLookups s u :=
  ⟨fun k => (h'.locations k).trans (h.locations k), fun p => (h'.payloads p).trans (h.payloads p),
    fun e loc hu => h.manifest e loc (h'.manifest e loc hu), h'.uuids.trans h.uuids⟩

theorem SameLookups.located {t : State Bytes} (h : SameLookups s t) (hs : Located cfg s) :
    Located cfg t := by
  refine ⟨?_, ?_, ?_, ?_⟩
  · intro k loc hk
    exact hs.key k loc ((h.locations k).symm.trans hk)
  · intro k loc hk
    rw [h.uuids]
    exact hs.pointer k loc ((h.locations k).symm.trans hk)
  · intro r k loc hm
    exact hs.manifest r k loc (h.manifest (r, k) loc hm)
  · intro p b hp
    obtain ⟨k, loc, hk, hl⟩ := hs.payload p b ((h.payloads p).symm.trans hp)
    exact ⟨k, loc, (h.locations k).trans hk, hl⟩

theorem foldl_delete_locations (keys : List String) (j : String) :
    (keys.foldl (delete cfg) s).locations.get? j =
      if j ∈ keys then none else s.locations.get? j := by
  induction keys generalizing s with
  | nil => simp
  | cons k keys ih =>
    rw [List.foldl_cons, ih, delete_locations]
    by_cases hj : j = k <;> simp [hj]

theorem located_foldl_delete (keys : List String) (hs : Located cfg s) :
    Located cfg (keys.foldl (delete cfg) s) := by
  induction keys generalizing s with
  | nil => exact hs
  | cons k keys ih => exact ih (located_delete hs k)

/-- A bus without locations of a run holds no payload of it. -/
theorem Located.absent (hs : Located cfg s) {runId : String}
    (h : ∀ k loc, s.locations.get? k = some loc → loc.runId ≠ runId) {p : Pointer}
    (hp : p.runId = runId) : s.payloads.get? p = none := by
  cases hb : s.payloads.get? p with
  | none => rfl
  | some b =>
    obtain ⟨k, loc, hk, rfl⟩ := hs.payload p b hb
    exact absurd ((hs.pointer k loc hk).runId.symm.trans hp) (h k loc hk)

theorem sameLookups_cleanupManifestEntry {runId : String} (keys : List String)
    {loc : ArrowLocation} (h : s.payloads.get? loc.pointer = none) :
    SameLookups s (cleanupManifestEntry cfg runId keys s loc) := by
  rw [cleanupManifestEntry]
  split
  · exact .refl s
  · refine ⟨?_, ?_, ?_, ?_⟩
    · intro k
      rw [removeManifestEntry_locations, deleteLocationPayload_locations]
    · intro p
      rw [removeManifestEntry_payloads]
      by_cases hp : loc.pointer = p
      · rw [deleteLocationPayload]
        repeat' split
        all_goals first
          | rfl
          | rw [Dict.get?_erase, if_pos hp.symm, ← hp, h]
      · exact deleteLocationPayload_frame loc hp
    · intro entry l hl
      have h' := removeManifestEntry_manifest runId loc.key hl
      rwa [deleteLocationPayload_manifest] at h'
    · rw [removeManifestEntry_uuids, deleteLocationPayload_uuids]

theorem sameLookups_sweep (cfg : Config Table Bytes) {runId : String} (keys : List String) (locs : List ArrowLocation)
    (hlocs : ∀ loc ∈ locs, loc.pointer.runId = runId)
    (habsent : ∀ p : Pointer, p.runId = runId → s.payloads.get? p = none) :
    SameLookups s (locs.foldl (cleanupManifestEntry cfg runId keys) s) := by
  induction locs generalizing s with
  | nil => exact .refl s
  | cons loc locs ih =>
    have hone : SameLookups s (cleanupManifestEntry cfg runId keys s loc) :=
      sameLookups_cleanupManifestEntry keys (habsent _ (hlocs loc (List.mem_cons_self ..)))
    exact hone.trans (ih (fun l hl => hlocs l (List.mem_cons_of_mem loc hl))
      (fun p hp => (hone.payloads p).trans (habsent p hp)))

theorem sameLookups_cleanupOrphanedShmFiles {runId : String}
    (habsent : ∀ p : Pointer, p.runId = runId → s.payloads.get? p = none) :
    SameLookups s (cleanupOrphanedShmFiles runId s) := by
  refine ⟨fun _ => rfl, ?_, fun _ _ h => h, rfl⟩
  intro p
  rw [cleanupOrphanedShmFiles, Dict.get?_restrict]
  cases p with
  | shm owner digest =>
    by_cases h : owner = runId
    · simp [h, habsent (.shm runId digest) rfl]
    · simp [h]
  | redis => rfl
  | spill => rfl

theorem sameLookups_clearManifest (runId : String) : SameLookups s (clearManifest cfg runId s) := by
  rw [clearManifest]
  split
  · refine ⟨fun _ => rfl, fun _ => rfl, ?_, rfl⟩
    intro entry loc h
    rw [Dict.get?_restrict] at h
    split at h
    · exact h
    · cases h
  · exact .refl s

/-- After the deletions of a cleanup nothing of the run is left for its sweeps. -/
theorem sameLookups_cleanupRun (hs : Located cfg s) (runId : String) :
    (∀ p : Pointer, p.runId = runId →
      ((runKeys s runId).foldl (delete cfg) s).payloads.get? p = none) ∧
    SameLookups ((runKeys s runId).foldl (delete cfg) s) (cleanupRun cfg runId s).2 := by
  have hd : Located cfg ((runKeys s runId).foldl (delete cfg) s) :=
    located_foldl_delete (runKeys s runId) hs
  have habsent : ∀ p : Pointer, p.runId = runId →
      ((runKeys s runId).foldl (delete cfg) s).payloads.get? p = none := by
    intro p hp
    apply hd.absent _ hp
    intro k loc hk
    rw [foldl_delete_locations] at hk
    split at hk
    · cases hk
    · next hnot => exact fun hr => hnot ((mem_runKeys_iff runId k).mpr ⟨loc, hk, hr⟩)
  refine ⟨habsent, ?_⟩
  have hlocs : ∀ loc ∈ loadManifestLocations cfg ((runKeys s runId).foldl (delete cfg) s) runId,
      loc.pointer.runId = runId := by
    intro loc hl
    rw [loadManifestLocations] at hl
    split at hl
    · obtain ⟨⟨⟨r, k⟩, l⟩, hm, rfl⟩ := List.mem_map.mp hl
      obtain ⟨hm, hr⟩ := List.mem_filter.mp hm
      have he := (Dict.get?_eq_some_iff _ (r, k) l).mpr hm
      exact (hd.manifest r k l he).trans (of_decide_eq_true hr)
    · cases hl
  have hsweep := sameLookups_sweep cfg (runKeys s runId) _ hlocs habsent
  have hshm := sameLookups_cleanupOrphanedShmFiles
    (fun p hp => (hsweep.payloads p).trans (habsent p hp))
  exact (hsweep.trans hshm).trans (sameLookups_clearManifest runId)

theorem located_cleanupRun (hs : Located cfg s) (runId : String) :
    Located cfg (cleanupRun cfg runId s).2 :=
  (sameLookups_cleanupRun hs runId).2.located (located_foldl_delete (runKeys s runId) hs)

/-- After its cleanup a run has no payload in any tier. -/
theorem cleanupRun_empties (hs : Located cfg s) (runId : String) {p : Pointer}
    (hp : p.runId = runId) : (cleanupRun cfg runId s).2.payloads.get? p = none := by
  obtain ⟨habsent, hsame⟩ := sameLookups_cleanupRun hs runId
  rw [hsame.payloads, habsent p hp]

end PipelineIQ.Execution.BusLocations
