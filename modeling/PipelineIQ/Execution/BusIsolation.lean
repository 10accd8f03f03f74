import PipelineIQ.Execution.BusOwnership
import PipelineIQ.Lib.Machine

namespace PipelineIQ.Execution.BusIsolation

open PipelineIQ.Lib PipelineIQ.Execution.ArrowBus PipelineIQ.Execution.BusLocations
  PipelineIQ.Execution.BusOwnership

variable {Table Bytes : Type} {cfg : Config Table Bytes} {s : State Bytes}

/-- What can happen to the bus: the calls of the runs, the periodic eviction and
the expiry of a Redis entry. -/
inductive Op (Table : Type) where
  | put (runId key : String) (table : Table) (setexOk writeOk : Bool)
  | get (runId key : String)
  | delete (runId key : String)
  | cleanupRun (runId : String)
  | maybeEvictHotToWarm (pressure : Bool) (scan : List Candidate)
  | expire (runId key : String)

/-- The run that issues an operation. -/
def Op.issuer : Op Table → Option String
  | .put runId .. | .get runId _ | .delete runId _ | .cleanupRun runId => some runId
  | .maybeEvictHotToWarm .. | .expire .. => none

/-- The bus together with what the runs expect of it. -/
structure World (Table Bytes : Type) where
  bus : State Bytes
  owned : Owned Table

def start : World Table Bytes := ⟨initial, fun _ _ => none⟩

def step (cfg : Config Table Bytes) (w : World Table Bytes) : Op Table → Option (World Table Bytes)
  | .put runId key table setexOk writeOk =>
    some ⟨(put cfg key table runId setexOk writeOk w.bus).2,
      if key = "" then w.owned else w.owned.assign runId key (some table)⟩
  | .get _ _ => some w
  | .delete runId key => some ⟨delete cfg w.bus key, w.owned.assign runId key none⟩
  | .cleanupRun runId => some ⟨(cleanupRun cfg runId w.bus).2,
      fun r k => if r = runId then none else w.owned r k⟩
  | .maybeEvictHotToWarm pressure scan =>
    some { w with bus := (maybeEvictHotToWarm cfg pressure scan w.bus).2 }
  | .expire runId key =>
    some { w with bus := { w.bus with payloads := w.bus.payloads.erase (.redis runId key) } }

/-- No other run holds a table under the key that an operation writes or deletes. -/
def KeyFree (w : World Table Bytes) : Op Table → Prop
  | .put runId key .. => key = "" ∨ ∀ r, r ≠ runId → w.owned r key = none
  | .delete runId key => ∀ r, r ≠ runId → w.owned r key = none
  | _ => True

/-- A key is free of other runs, a new key has no digest of another key of its
run, and no entry expires. -/
def Guard (cfg : Config Table Bytes) (w : World Table Bytes) (op : Op Table) : Prop :=
  KeyFree w op ∧ match op with
    | .put runId key .. => ∀ k, k ≠ key → (w.owned runId k).isSome →
        cfg.digest runId k ≠ cfg.digest runId key
    | .expire runId key => w.bus.payloads.get? (.redis runId key) = none
    | _ => True

theorem located_step {w t : World Table Bytes} {op : Op Table} (hs : Located cfg w.bus)
    (h : step cfg w op = some t) : Located cfg t.bus := by
  cases op with
  | put runId key table setexOk writeOk =>
    cases h
    exact located_put hs key table runId setexOk writeOk
  | get => cases h; exact hs
  | delete runId key =>
    cases h
    exact located_delete hs key
  | cleanupRun runId =>
    cases h
    exact located_cleanupRun hs runId
  | maybeEvictHotToWarm pressure scan =>
    cases h
    dsimp only [maybeEvictHotToWarm]
    split
    · exact located_evictScan scan 0 hs
    · exact hs
  | expire runId key =>
    cases h
    refine ⟨hs.key, hs.pointer, hs.manifest, ?_⟩
    intro p b hp
    rw [Dict.get?_erase] at hp
    split at hp
    · cases hp
    · exact hs.payload p b hp

/-- A guarded operation keeps every run served. -/
theorem serves_step {w t : World Table Bytes} {op : Op Table} (hs : Located cfg w.bus)
    (ho : Serves cfg w.bus w.owned) (hg : Guard cfg w op) (h : step cfg w op = some t) :
    Serves cfg t.bus t.owned := by
  cases op with
  | put runId key table setexOk writeOk =>
    cases h
    by_cases hkey : key = ""
    · dsimp only
      rw [if_pos hkey, put, if_pos hkey]
      exact ho
    · dsimp only
      rw [if_neg hkey]
      exact serves_put hs ho hkey table runId setexOk writeOk (hg.1.resolve_left hkey) hg.2
  | get => cases h; exact ho
  | delete runId key =>
    cases h
    exact serves_delete hs ho runId key hg.1
  | cleanupRun runId =>
    cases h
    exact serves_cleanupRun hs ho runId
  | maybeEvictHotToWarm pressure scan =>
    cases h
    dsimp only [maybeEvictHotToWarm]
    split
    · exact serves_evictScan scan 0 hs ho
    · exact ho
  | expire runId key =>
    cases h
    have hsame : w.bus.payloads.erase (.redis runId key) = w.bus.payloads :=
      Dict.erase_of_get?_eq_none _ _ hg.2
    dsimp only
    rw [hsame]
    exact ho

/-- An operation of a run leaves the payloads of the others where and as they are. -/
def Untouched (runId : String) (s t : State Bytes) : Prop :=
  (∀ p : Pointer, p.runId ≠ runId → t.payloads.get? p = s.payloads.get? p) ∧
  ∀ k loc, loc.runId ≠ runId → (t.locations.get? k = some loc ↔ s.locations.get? k = some loc)

theorem Untouched.refl (runId : String) (s : State Bytes) : Untouched runId s s :=
  ⟨fun _ _ => rfl, fun _ _ _ => Iff.rfl⟩

theorem Untouched.trans {runId : String} {s t u : State Bytes} (h : Untouched runId s t)
    (h' : Untouched runId t u) : Untouched runId s u :=
  ⟨fun p hp => (h'.1 p hp).trans (h.1 p hp), fun k loc hl => (h'.2 k loc hl).trans (h.2 k loc hl)⟩

theorem untouched_delete (hs : Located cfg s) {runId key : String}
    (hown : ∀ loc, s.locations.get? key = some loc → loc.runId = runId) :
    Untouched runId s (delete cfg s key) := by
  refine ⟨?_, ?_⟩
  · intro p hp
    rw [delete_payloads hs, if_neg]
    intro he
    obtain ⟨loc, hl, rfl⟩ := Option.map_eq_some_iff.mp he
    exact hp ((hs.pointer key loc hl).runId.trans (hown loc hl))
  · intro k loc hl
    rw [delete_locations]
    split
    · next hk =>
      refine iff_of_false (by simp) ?_
      intro he
      exact hl (hown loc (hk ▸ he))
    · exact Iff.rfl

theorem untouched_put (hs : Located cfg s) {runId key : String} (hkey : key ≠ "") (table : Table)
    (setexOk writeOk : Bool)
    (hown : ∀ loc, s.locations.get? key = some loc → loc.runId = runId) :
    Untouched runId s (put cfg key table runId setexOk writeOk s).2 := by
  obtain ⟨p, size, n, hput, hn, -, -⟩ := put_cases cfg s hkey table runId setexOk writeOk
  rw [hput]
  apply (untouched_delete hs hown).trans
  refine ⟨?_, ?_⟩
  · intro q hq
    rw [store_payloads, Dict.get?_set, if_neg]
    intro he
    exact hq (he ▸ hn.runId)
  · intro k loc hl
    rw [store_locations]
    split
    · next hk =>
      rw [hk, delete_locations, if_pos rfl]
      refine iff_of_false ?_ (by simp)
      intro he
      cases he
      exact hl rfl
    · exact Iff.rfl

theorem untouched_foldl_delete {runId : String} (keys : List String) (hs : Located cfg s)
    (hown : ∀ k ∈ keys, ∀ loc, s.locations.get? k = some loc → loc.runId = runId) :
    Untouched runId s (keys.foldl (delete cfg) s) := by
  induction keys generalizing s with
  | nil => exact .refl runId s
  | cons k keys ih =>
    apply (untouched_delete hs (hown k (List.mem_cons_self ..))).trans
    apply ih (located_delete hs k)
    intro j hj loc hl
    rw [delete_locations] at hl
    split at hl
    · cases hl
    · exact hown j (List.mem_cons_of_mem k hj) loc hl

theorem untouched_cleanupRun (hs : Located cfg s) (runId : String) :
    Untouched runId s (cleanupRun cfg runId s).2 := by
  have hsame := (sameLookups_cleanupRun hs runId).2
  apply (untouched_foldl_delete (runKeys s runId) hs _).trans
  · refine ⟨fun p _ => hsame.payloads p, ?_⟩
    intro k loc _
    rw [hsame.locations]
  · intro k hk loc hl
    obtain ⟨loc', hl', hr⟩ := (mem_runKeys_iff runId k).mp hk
    rw [hl] at hl'
    cases hl'
    exact hr

/-- While every run is served, an operation leaves the other runs alone exactly
when none of them holds its key. -/
theorem untouched_step_iff {w t : World Table Bytes} {op : Op Table} {runId : String}
    (hs : Located cfg w.bus) (ho : Serves cfg w.bus w.owned) (hi : op.issuer = some runId)
    (h : step cfg w op = some t) : Untouched runId w.bus t.bus ↔ KeyFree w op := by
  have hown : ∀ key, (∀ r, r ≠ runId → w.owned r key = none) →
      ∀ loc, w.bus.locations.get? key = some loc → loc.runId = runId := by
    intro key hfree loc hl
    obtain ⟨table, ht⟩ := ho.located key loc hl
    by_contra hne
    rw [hfree loc.runId hne] at ht
    cases ht
  have hlost : ∀ key r, r ≠ runId → w.owned r key ≠ none → Untouched runId w.bus t.bus →
      ∃ loc, loc.runId = r ∧ t.bus.locations.get? key = some loc := by
    intro key r hr hne hu
    obtain ⟨table, ht⟩ := Option.ne_none_iff_exists'.mp hne
    obtain ⟨loc, hl, hrun, -⟩ := ho.owner r key table ht
    exact ⟨loc, hrun, (hu.2 key loc (by rw [hrun]; exact hr)).mpr hl⟩
  cases op with
  | put owner key table setexOk writeOk =>
    cases hi
    cases h
    by_cases hkey : key = ""
    · refine iff_of_true ?_ (.inl hkey)
      dsimp only
      rw [put, if_pos hkey]
      exact .refl _ _
    · refine ⟨?_, fun hf => untouched_put hs hkey table setexOk writeOk
        (hown key (hf.resolve_left hkey))⟩
      intro hu
      right
      intro r hr
      by_contra hne
      obtain ⟨loc, hrun, hl⟩ := hlost key r hr hne hu
      obtain ⟨p, size, n, hput, -⟩ := put_cases cfg w.bus hkey table runId setexOk writeOk
      dsimp only at hl
      rw [hput, store_locations, if_pos rfl] at hl
      cases hl
      exact hr hrun.symm
  | get => cases h; exact iff_of_true (.refl _ _) trivial
  | delete owner key =>
    cases hi
    cases h
    refine ⟨?_, fun hf => untouched_delete hs (hown key hf)⟩
    intro hu r hr
    by_contra hne
    obtain ⟨loc, -, hl⟩ := hlost key r hr hne hu
    dsimp only at hl
    rw [delete_locations, if_pos rfl] at hl
    cases hl
  | cleanupRun owner =>
    cases hi
    cases h
    exact iff_of_true (untouched_cleanupRun hs runId) trivial
  | maybeEvictHotToWarm => cases hi
  | expire => cases hi

/-- A bus for row counts, with Redis and shared memory, whose digest is the key. -/
def countBus : Config Nat Nat where
  smallThresholdBytes := 10
  mediumThresholdBytes := 500
  redisAvailable := true
  shmAvailable := true
  nbytes := id
  length := id
  tableToBytes := id
  bytesToTable := id
  bytesToTable_tableToBytes _ := rfl
  writeParquet := id
  readParquet := id
  readParquet_writeParquet _ := rfl
  digest _ key := key

def differentKeys : List (Op Nat) :=
  [.put "a" "load" 3 true true, .put "b" "extract" 700 true true, .get "a" "load"]

end PipelineIQ.Execution.BusIsolation
