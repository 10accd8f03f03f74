import PipelineIQ.Lib.Dict

namespace PipelineIQ.Execution.ArrowBus

open PipelineIQ.Lib

inductive Tier where
  | redis | shm | spill
  deriving DecidableEq, Repr

/-- Where a payload lies. The name of a Redis key, of a shared-memory file and of
a spill object is kept as its parts: run ids are UUIDs, so the text of a name
determines them. The `uuid4` suffixes are numbered in the order they are drawn. -/
inductive Pointer where
  | redis (runId key : String)
  | shm (runId digest : String)
  | spill (runId safeKey : String) (uuid : Nat)
  deriving DecidableEq, Repr

def Pointer.tier : Pointer → Tier
  | .redis .. => .redis
  | .shm .. => .shm
  | .spill .. => .spill

def Pointer.runId : Pointer → String
  | .redis runId _ | .shm runId _ | .spill runId _ _ => runId

structure ArrowLocation where
  key : String
  runId : String
  pointer : Pointer
  sizeBytes : Nat
  deriving DecidableEq, Repr

/-- The settings of a bus and the libraries it calls: the Arrow and Parquet
writers, whose readers undo them, and the digest in a shared-memory file name. -/
structure Config (Table Bytes : Type) where
  smallThresholdBytes : Nat
  mediumThresholdBytes : Nat
  redisAvailable : Bool
  shmAvailable : Bool
  nbytes : Table → Nat
  length : Bytes → Nat
  tableToBytes : Table → Bytes
  bytesToTable : Bytes → Table
  bytesToTable_tableToBytes : ∀ table, bytesToTable (tableToBytes table) = table
  writeParquet : Table → Bytes
  readParquet : Bytes → Table
  readParquet_writeParquet : ∀ table, readParquet (writeParquet table) = table
  digest : String → String → String

/-- One bus with the storage behind it. `manifest` is the Redis hash of each run. -/
structure State (Bytes : Type) where
  locations : Dict String ArrowLocation
  payloads : Dict Pointer Bytes
  manifest : Dict (String × String) ArrowLocation
  uuids : Nat

inductive BusError where
  | valueError (message : String)
  | keyError (message : String)
  | storageError
  deriving DecidableEq, Repr

variable {Table Bytes : Type}

def initial : State Bytes := ⟨∅, ∅, ∅, 0⟩

def safeKeyChar (c : Char) : Bool :=
  ('A' ≤ c ∧ c ≤ 'Z') ∨ ('a' ≤ c ∧ c ≤ 'z') ∨ ('0' ≤ c ∧ c ≤ '9') ∨ c = '_' ∨ c = '.' ∨ c = '-'

/-- Every stretch of other characters becomes one underscore. -/
def replaceUnsafe (inRun : Bool) : List Char → List Char
  | [] => []
  | c :: cs =>
    if safeKeyChar c then c :: replaceUnsafe false cs
    else if inRun then replaceUnsafe true cs
    else '_' :: replaceUnsafe true cs

def safeKey (key : String) : String :=
  let replaced := replaceUnsafe false key.toList
  let stripped := ((replaced.dropWhile (· == '_')).reverse.dropWhile (· == '_')).reverse
  if stripped = [] then "step" else String.ofList stripped

def estimatedSize (cfg : Config Table Bytes) (table : Table) : Nat := max 1 (cfg.nbytes table)

def persistManifestEntry (cfg : Config Table Bytes) (location : ArrowLocation) (s : State Bytes) :
    State Bytes :=
  if cfg.redisAvailable then
    { s with manifest := s.manifest.set (location.runId, location.key) location }
  else s

def recordLocation (cfg : Config Table Bytes) (location : ArrowLocation) (s : State Bytes) :
    State Bytes :=
  persistManifestEntry cfg location
    { s with locations := s.locations.set location.key location }

def removeManifestEntry (cfg : Config Table Bytes) (runId key : String) (s : State Bytes) :
    State Bytes :=
  if cfg.redisAvailable then { s with manifest := s.manifest.erase (runId, key) } else s

def deleteLocationPayload (cfg : Config Table Bytes) (location : ArrowLocation)
    (s : State Bytes) : State Bytes :=
  match location.pointer with
  | .redis .. =>
    if cfg.redisAvailable then { s with payloads := s.payloads.erase location.pointer } else s
  | .shm .. | .spill .. => { s with payloads := s.payloads.erase location.pointer }

def delete (cfg : Config Table Bytes) (s : State Bytes) (key : String) : State Bytes :=
  match s.locations.get? key with
  | none => s
  | some location =>
    removeManifestEntry cfg location.runId key
      (deleteLocationPayload cfg location { s with locations := s.locations.erase key })

/-- Write a payload and record where it lies. -/
def store (cfg : Config Table Bytes) (key runId : String) (pointer : Pointer) (bytes : Bytes)
    (sizeBytes : Nat) (s : State Bytes) : State Bytes :=
  recordLocation cfg ⟨key, runId, pointer, sizeBytes⟩
    { s with payloads := s.payloads.set pointer bytes }

/-- `setexOk` and `writeOk` say whether the write to Redis and to shared memory
succeeds; a failed one falls through to the next tier. -/
def put (cfg : Config Table Bytes) (key : String) (table : Table) (runId : String)
    (setexOk writeOk : Bool) (s : State Bytes) : Except BusError Tier × State Bytes :=
  if key = "" then (.error (.valueError "Arrow bus key cannot be empty"), s)
  else
    let s := delete cfg s key
    let sizeBytes := estimatedSize cfg table
    if sizeBytes ≤ cfg.smallThresholdBytes ∧ cfg.redisAvailable ∧ setexOk then
      (.ok .redis, store cfg key runId (.redis runId key) (cfg.tableToBytes table) sizeBytes s)
    else if sizeBytes ≤ cfg.mediumThresholdBytes ∧ cfg.shmAvailable ∧ writeOk then
      (.ok .shm, store cfg key runId (.shm runId (cfg.digest runId key)) (cfg.tableToBytes table)
        sizeBytes s)
    else
      (.ok .spill, store cfg key runId (.spill runId (safeKey key) s.uuids)
        (cfg.writeParquet table) sizeBytes { s with uuids := s.uuids + 1 })

def get (cfg : Config Table Bytes) (s : State Bytes) (key : String) : Except BusError Table :=
  match s.locations.get? key with
  | none => .error (.keyError ("Arrow bus key '" ++ key ++ "' not found"))
  | some location =>
    match location.pointer with
    | .redis .. =>
      if cfg.redisAvailable then
        match s.payloads.get? location.pointer with
        | none => .error (.keyError ("Arrow bus redis key '" ++ key ++ "' expired"))
        | some payload => .ok (cfg.bytesToTable payload)
      else .error (.keyError ("Arrow bus redis key '" ++ key ++ "' unavailable"))
    | .shm .. =>
      match s.payloads.get? location.pointer with
      | none => .error (.keyError ("Arrow bus shm key '" ++ key ++ "' missing file"))
      | some payload => .ok (cfg.bytesToTable payload)
    | .spill .. =>
      match s.payloads.get? location.pointer with
      | none => .error .storageError
      | some payload => .ok (cfg.readParquet payload)

/-- The keys whose current location belongs to a run. -/
def runKeys (s : State Bytes) (runId : String) : List String :=
  (s.locations.entries.filter (fun e => decide (e.2.runId = runId))).map Prod.fst

def loadManifestLocations (cfg : Config Table Bytes) (s : State Bytes) (runId : String) :
    List ArrowLocation :=
  if cfg.redisAvailable then
    (s.manifest.entries.filter (fun e => decide (e.1.1 = runId))).map Prod.snd
  else []

/-- One pass over a manifest entry whose key had no location of the run. -/
def cleanupManifestEntry (cfg : Config Table Bytes) (runId : String) (keys : List String)
    (s : State Bytes) (location : ArrowLocation) : State Bytes :=
  if location.key ∈ keys then s
  else removeManifestEntry cfg runId location.key (deleteLocationPayload cfg location s)

def cleanupOrphanedShmFiles (runId : String) (s : State Bytes) : State Bytes :=
  { s with payloads := s.payloads.restrict fun pointer => match pointer with
      | .shm owner _ => decide (owner ≠ runId)
      | _ => true }

def clearManifest (cfg : Config Table Bytes) (runId : String) (s : State Bytes) : State Bytes :=
  if cfg.redisAvailable then
    { s with manifest := s.manifest.restrict fun entry => decide (entry.1 ≠ runId) }
  else s

/-- How many payloads of a tier a cleanup counts. -/
def countTier (tier : Tier) (locations : List ArrowLocation) : Nat :=
  locations.countP fun location => decide (location.pointer.tier = tier)

/-- The local spill pattern names files directly under the storage directory;
`put` writes spill objects into a directory of the run, so it matches none. -/
def cleanupRun (cfg : Config Table Bytes) (runId : String) (s : State Bytes) :
    (Tier → Nat) × State Bytes :=
  let keys := runKeys s runId
  let located := keys.filterMap s.locations.get?
  let deleted := keys.foldl (delete cfg) s
  let orphans := (loadManifestLocations cfg deleted runId).filter fun l => decide (l.key ∉ keys)
  let swept := (loadManifestLocations cfg deleted runId).foldl
    (cleanupManifestEntry cfg runId keys) deleted
  (fun tier => countTier tier located + countTier tier orphans,
    clearManifest cfg runId (cleanupOrphanedShmFiles runId swept))

/-- A Redis key the scan visits, with the outcome of its write to shared memory. -/
structure Candidate where
  runId : String
  key : String
  writeOk : Bool

/-- Move one Redis payload to shared memory; `none` when the entry is skipped. -/
def evict (cfg : Config Table Bytes) (c : Candidate) (s : State Bytes) : Option (State Bytes) :=
  match s.payloads.get? (.redis c.runId c.key) with
  | none => none
  | some raw =>
    if cfg.length raw < cfg.smallThresholdBytes / 2 ∨ c.writeOk = false then none
    else
      let moved := store cfg c.key c.runId (.shm c.runId (cfg.digest c.runId c.key))
        (cfg.tableToBytes (cfg.bytesToTable raw)) (cfg.length raw) s
      some { moved with payloads := moved.payloads.erase (.redis c.runId c.key) }

/-- At most five entries are moved in one call. -/
def evictScan (cfg : Config Table Bytes) : List Candidate → Nat → State Bytes → Nat × State Bytes
  | [], evicted, s => (evicted, s)
  | c :: scan, evicted, s =>
    match evict cfg c s with
    | none => evictScan cfg scan evicted s
    | some t => if evicted + 1 ≥ 5 then (evicted + 1, t) else evictScan cfg scan (evicted + 1) t

/-- `pressure` says whether Redis reports more than nine tenths of its memory used. -/
def maybeEvictHotToWarm (cfg : Config Table Bytes) (pressure : Bool) (scan : List Candidate)
    (s : State Bytes) : Nat × State Bytes :=
  if cfg.shmAvailable ∧ cfg.redisAvailable ∧ pressure then evictScan cfg scan 0 s else (0, s)

end PipelineIQ.Execution.ArrowBus
