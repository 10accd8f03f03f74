import PipelineIQ.Lib.Machine
import PipelineIQ.Models
import PipelineIQ.Security.ColumnSecurity

namespace PipelineIQ.Security.PolicyCache

open PipelineIQ.Lib PipelineIQ.Lib.Strings PipelineIQ.Lib.Machine PipelineIQ.Models
open PipelineIQ.Security.ColumnSecurity

/-- What the code uses of the UUIDs: what a text is read as, in any of the spellings that
Python accepts, and the one spelling that `str` gives. -/
structure Uuids (U : Type) where
  parse : Text → Option U
  str : U → Text
  parse_str : ∀ u, parse (str u) = some u

structure ColumnPolicy (U : Type) where
  id : U
  fileId : U
  record : ColumnPolicyRecord
  deriving DecidableEq

structure CreateColumnPolicyRequest where
  fileId : Text
  record : ColumnPolicyRecord

structure Requester (U : Type) where
  id : U
  role : Text

variable {U : Type} [DecidableEq U]

/-- The query for the policies of a file. -/
def policiesFor (fileId : U) (policies : List (ColumnPolicy U)) : List ColumnPolicyRecord :=
  (policies.filter fun p => p.fileId = fileId).map (·.record)

/-- What a request has added to its session before the commit. -/
inductive Plan (U : Type) where
  | update (id : U) (record : ColumnPolicyRecord)
  | insert (policy : ColumnPolicy U)
  | delete (id : U)

/-- The commit of a session; it raises where the row to update is gone, and where the new one
breaks a constraint of the table. -/
def Plan.apply (policies : List (ColumnPolicy U)) : Plan U → Option (List (ColumnPolicy U))
  | .update id record =>
    if policies.any fun p => p.id = id then
      some (policies.map fun p => if p.id = id then { p with record := record } else p)
    else none
  | .insert policy =>
    if policies.any fun p => p.id = policy.id ∨
        p.fileId = policy.fileId ∧ p.record.columnName = policy.record.columnName then none
    else some (policies ++ [policy])
  | .delete id => some (policies.filter fun p => p.id ≠ id)

/-- A request up to its commit: what it is going to write, for which file, and the cache key
that it is going to delete. -/
structure Checked (U : Type) where
  plan : Plan U
  fileId : U
  cacheKey : Text

def invalidUuid (value : Text) : HTTPException :=
  ⟨422, s!"Invalid UUID format: '{String.ofList value}'"⟩

section Requests

variable (uuids : Uuids U) (owner : U → Option U)

def authorized (user : Requester U) (userId : U) : Bool :=
  user.role = "admin".toList ∨ userId = user.id

def createColumnPolicy (user : Requester U) (request : CreateColumnPolicyRequest) (newId : U)
    (policies : List (ColumnPolicy U)) : Except HTTPException (Checked U) :=
  match uuids.parse request.fileId with
  | none => .error (invalidUuid request.fileId)
  | some fileId =>
    match owner fileId with
    | none => .error ⟨404, "File not found"⟩
    | some userId =>
      if authorized user userId then
        match policies.find? fun p =>
            p.fileId = fileId ∧ p.record.columnName = request.record.columnName with
        | some existing => .ok ⟨.update existing.id request.record, fileId, request.fileId⟩
        | none => .ok ⟨.insert ⟨newId, fileId, request.record⟩, fileId, request.fileId⟩
      else .error ⟨403, "Not authorized for this file"⟩

def deleteColumnPolicy (user : Requester U) (policyId : Text)
    (policies : List (ColumnPolicy U)) : Except HTTPException (Checked U) :=
  match uuids.parse policyId with
  | none => .error (invalidUuid policyId)
  | some id =>
    match policies.find? fun p => p.id = id with
    | none => .error ⟨404, "Policy not found"⟩
    | some policy =>
      match owner policy.fileId with
      | none => .error ⟨404, "File not found"⟩
      | some userId =>
        if authorized user userId then
          .ok ⟨.delete policy.id, policy.fileId, uuids.str policy.fileId⟩
        else .error ⟨403, "Not authorized for this file"⟩

end Requests

/-! ### Interleavings -/

/-- A committed write: the state of the table with this number is the one it left. -/
structure Write (U : Type) where
  fileId : U
  version : Nat
  deriving DecidableEq

/-- Policies as a lookup read them, with the number of the state of the table they are of. -/
structure Entry where
  records : List ColumnPolicyRecord
  version : Nat
  deriving DecidableEq

inductive LookupPhase where
  | missed
  | read (entry : Entry)
  | done

/-- A load or a preview in `get_column_policies_for_file`, with the writes whose requests had
returned when it began. -/
structure Lookup (U : Type) where
  fileId : Text
  settled : List (Write U)
  phase : LookupPhase

inductive RequestPhase (U : Type) where
  | rejected (e : HTTPException)
  | checked (session : Checked U)
  | failed
  | committed (write : Write U) (cacheKey : Text)
  | returned

/-- The policies that a lookup has answered with. -/
structure Use (U : Type) where
  fileId : Text
  settled : List (Write U)
  entry : Entry

structure State (U : Type) where
  versions : List (List (ColumnPolicy U))
  cache : Dict Text Entry := ∅
  lookups : List (Lookup U) := []
  requests : List (RequestPhase U) := []
  returned : List (Write U) := []
  uses : List (Use U) := []

/-- `redis` tells whether the call to Redis has its effect, and `seen` which state of the table
the connection of a lookup sees; on a replica that need not be the last one. -/
inductive Event (U : Type) where
  | lookup (fileId : Text) (redis : Bool)
  | query (i : Nat) (seen : Nat)
  | fill (i : Nat) (redis : Bool)
  | create (user : Requester U) (request : CreateColumnPolicyRequest) (newId : U)
  | delete (user : Requester U) (policyId : Text)
  | commit (i : Nat)
  | invalidate (i : Nat) (redis : Bool)
  | expire (cacheKey : Text)

section Steps

variable (uuids : Uuids U) (owner : U → Option U)

def State.begin (s : State U) (l : Lookup U) : State U := { s with lookups := s.lookups ++ [l] }

def State.advance (s : State U) (i : Nat) (phase : LookupPhase) (l : Lookup U) : State U :=
  { s with lookups := s.lookups.set i { l with phase := phase } }

def State.answer (s : State U) (l : Lookup U) (entry : Entry) : State U :=
  { s with uses := s.uses ++ [⟨l.fileId, l.settled, entry⟩] }

def State.receive (s : State U) : Except HTTPException (Checked U) → State U
  | .error e => { s with requests := s.requests ++ [.rejected e] }
  | .ok session => { s with requests := s.requests ++ [.checked session] }

def State.policies (s : State U) : List (ColumnPolicy U) := s.versions.getLast?.getD []

/-- The keys of the cache are the file ids behind one fixed word. -/
def step (s : State U) : Event U → Option (State U)
  | .lookup fileId redis =>
    match if redis then s.cache.get? fileId else none with
    | some entry =>
      let l := ⟨fileId, s.returned, .done⟩
      some ((s.begin l).answer l entry)
    | none => some (s.begin ⟨fileId, s.returned, .missed⟩)
  | .query i seen =>
    match s.lookups[i]?, s.versions[seen]? with
    | some ⟨fileId, settled, .missed⟩, some policies =>
      let l := ⟨fileId, settled, .missed⟩
      match uuids.parse fileId with
      | none => some (s.advance i .done l)
      | some f =>
        let entry := ⟨policiesFor f policies, seen⟩
        some ((s.advance i (.read entry) l).answer l entry)
    | _, _ => none
  | .fill i redis =>
    match s.lookups[i]? with
    | some ⟨fileId, settled, .read entry⟩ =>
      let t := s.advance i .done ⟨fileId, settled, .read entry⟩
      some (if redis then { t with cache := t.cache.set fileId entry } else t)
    | _ => none
  | .create user request newId =>
    some (s.receive (createColumnPolicy uuids owner user request newId s.policies))
  | .delete user policyId =>
    some (s.receive (deleteColumnPolicy uuids owner user policyId s.policies))
  | .commit i =>
    match s.requests[i]? with
    | some (.checked session) =>
      match session.plan.apply s.policies with
      | none => some { s with requests := s.requests.set i .failed }
      | some policies => some { s with
          versions := s.versions ++ [policies]
          requests := s.requests.set i
            (.committed ⟨session.fileId, s.versions.length⟩ session.cacheKey) }
    | _ => none
  | .invalidate i redis =>
    match s.requests[i]? with
    | some (.committed write cacheKey) => some { s with
        cache := if redis then s.cache.erase cacheKey else s.cache
        requests := s.requests.set i .returned
        returned := s.returned ++ [write] }
    | _ => none
  | .expire cacheKey => some { s with cache := s.cache.erase cacheKey }

def init (policies : List (ColumnPolicy U)) : State U := { versions := [policies] }

/-- No write to the file is missing from the policies. -/
def UpTo (writes : List (Write U)) (fileId : Text) (version : Nat) : Prop :=
  ∀ w ∈ writes, uuids.parse fileId = some w.fileId → w.version ≤ version

/-- Every load and preview used policies that contain each write that had returned. -/
def Fresh (s : State U) : Prop := ∀ use ∈ s.uses, UpTo uuids use.settled use.fileId use.entry.version

/-- So does whatever load or preview comes next. -/
def StaysFresh (s : State U) : Prop :=
  ∀ fileId redis t, step uuids owner s (.lookup fileId redis) = some t → Fresh uuids t

/-- The condition of a step. A lookup reads the table where it contains every write that had
returned; it fills the cache only if no write has returned that was committed after what it
read; and when a write returns, no entry for its file from before its commit is left in the
cache: the call to Redis had its effect, and there was none under another spelling. -/
def Guard (s : State U) : Event U → Prop
  | .query i seen => ∀ l, s.lookups[i]? = some l → l.phase = .missed → seen < s.versions.length →
      UpTo uuids l.settled l.fileId seen
  | .fill i redis => redis = true → ∀ l entry, s.lookups[i]? = some l → l.phase = .read entry →
      UpTo uuids s.returned l.fileId entry.version
  | .invalidate i redis => ∀ write cacheKey, s.requests[i]? = some (.committed write cacheKey) →
      ∀ fileId entry, s.cache.get? fileId = some entry → uuids.parse fileId = some write.fileId →
        (redis = true → fileId ≠ cacheKey) → write.version ≤ entry.version
  | _ => True

end Steps

variable {uuids : Uuids U} {owner : U → Option U} {s t : State U} {e : Event U}

/-- Every entry of the cache contains each write that has returned. -/
def CacheFresh (uuids : Uuids U) (s : State U) : Prop :=
  ∀ fileId entry, s.cache.get? fileId = some entry → UpTo uuids s.returned fileId entry.version

omit [DecidableEq U] in
theorem fresh_answer {l : Lookup U} {entry : Entry} : Fresh uuids (s.answer l entry) ↔
    Fresh uuids s ∧ UpTo uuids l.settled l.fileId entry.version := by
  simp only [Fresh, State.answer, List.mem_append, List.mem_singleton, or_imp, forall_and,
    forall_eq]

theorem lookup_hit {fileId : Text} {entry : Entry} (h : s.cache.get? fileId = some entry) :
    step uuids owner s (.lookup fileId true) =
      some ((s.begin ⟨fileId, s.returned, .done⟩).answer ⟨fileId, s.returned, .done⟩ entry) := by
  rw [step, if_pos rfl, h]

theorem staysFresh_iff : StaysFresh uuids owner s ↔ Fresh uuids s ∧ CacheFresh uuids s := by
  constructor
  · intro h
    constructor
    · exact h [] false (s.begin ⟨[], s.returned, .missed⟩) rfl
    · intro fileId entry hget
      exact (fresh_answer.mp (h fileId true _ (lookup_hit hget))).2
  · rintro ⟨hfresh, hcache⟩ fileId redis t ht
    cases redis with
    | false =>
      cases ht
      exact hfresh
    | true =>
      cases hget : s.cache.get? fileId with
      | some entry =>
        rw [lookup_hit hget] at ht
        cases ht
        exact fresh_answer.mpr ⟨hfresh, hcache fileId entry hget⟩
      | none =>
        rw [step, if_pos rfl, hget] at ht
        cases ht
        exact hfresh

/-- A step that leaves alone what has been answered, the cache and the writes that returned. -/
theorem staysFresh_congr (huses : t.uses = s.uses) (hcache : t.cache = s.cache)
    (hreturned : t.returned = s.returned) :
    StaysFresh uuids owner t ↔ StaysFresh uuids owner s := by
  rw [staysFresh_iff, staysFresh_iff, Fresh, Fresh, CacheFresh, CacheFresh, huses, hcache,
    hreturned]

theorem staysFresh_receive {outcome : Except HTTPException (Checked U)} :
    StaysFresh uuids owner (s.receive outcome) ↔ StaysFresh uuids owner s := by
  cases outcome with
  | error e => exact staysFresh_congr rfl rfl rfl
  | ok session => exact staysFresh_congr rfl rfl rfl

theorem staysFresh_lookup {fileId : Text} {redis : Bool} (h : StaysFresh uuids owner s)
    (ht : step uuids owner s (.lookup fileId redis) = some t) : StaysFresh uuids owner t := by
  have hfresh := h fileId redis t ht
  rw [staysFresh_iff] at h ⊢
  refine ⟨hfresh, ?_⟩
  rw [step] at ht
  split at ht
  · cases ht
    exact h.2
  · cases ht
    exact h.2

theorem staysFresh_query {i seen : Nat} (h : StaysFresh uuids owner s)
    (ht : step uuids owner s (.query i seen) = some t) :
    StaysFresh uuids owner t ↔ Guard uuids s (.query i seen) := by
  rw [step] at ht
  split at ht
  · next fileId settled policies hl hv =>
    have hseen : seen < s.versions.length := (List.getElem?_eq_some_iff.mp hv).1
    have hguard : Guard uuids s (.query i seen) ↔ UpTo uuids settled fileId seen := by
      constructor
      · exact fun hg => hg _ hl rfl hseen
      · intro hu l hl' _ _
        rw [hl] at hl'
        cases hl'
        exact hu
    rw [hguard]
    split at ht
    · next hparse =>
      cases ht
      apply iff_of_true
      · refine (staysFresh_congr ?_ ?_ ?_).mpr h
        all_goals rfl
      · intro w _ hw
        rw [hparse] at hw
        cases hw
    · next f hparse =>
      cases ht
      rw [staysFresh_iff] at h ⊢
      constructor
      · exact fun ht => (fresh_answer.mp ht.1).2
      · exact fun hu => ⟨fresh_answer.mpr ⟨h.1, hu⟩, h.2⟩
  · cases ht

theorem staysFresh_fill {i : Nat} {redis : Bool} (h : StaysFresh uuids owner s)
    (ht : step uuids owner s (.fill i redis) = some t) :
    StaysFresh uuids owner t ↔ Guard uuids s (.fill i redis) := by
  rw [step] at ht
  split at ht
  · next fileId settled entry hl =>
    have hguard : Guard uuids s (.fill i redis) ↔
        (redis = true → UpTo uuids s.returned fileId entry.version) := by
      constructor
      · exact fun hg hr => hg hr _ entry hl rfl
      · intro hu hr l entry' hl' hphase
        rw [hl] at hl'
        cases hl'
        cases hphase
        exact hu hr
    rw [hguard]
    cases redis with
    | false =>
      cases ht
      refine iff_of_true ((staysFresh_congr ?_ ?_ ?_).mpr h) nofun
      all_goals rfl
    | true =>
      cases ht
      rw [staysFresh_iff] at h ⊢
      constructor
      · intro ht _
        exact ht.2 fileId entry (by simp)
      · intro hu
        refine ⟨h.1, ?_⟩
        intro k entry' hk
        simp only [State.advance, Dict.get?_set, if_true] at hk
        by_cases hkey : k = fileId
        · rw [if_pos hkey, Option.some_inj] at hk
          rw [hkey, ← hk]
          exact hu rfl
        · rw [if_neg hkey] at hk
          exact h.2 k entry' hk
  · cases ht

omit [DecidableEq U] in
theorem upTo_concat {writes : List (Write U)} {write : Write U} {fileId : Text} {version : Nat} :
    UpTo uuids (writes ++ [write]) fileId version ↔ UpTo uuids writes fileId version ∧
      (uuids.parse fileId = some write.fileId → write.version ≤ version) := by
  simp only [UpTo, List.mem_append, List.mem_singleton, or_imp, forall_and, forall_eq]

theorem staysFresh_invalidate {i : Nat} {redis : Bool} (h : StaysFresh uuids owner s)
    (ht : step uuids owner s (.invalidate i redis) = some t) :
    StaysFresh uuids owner t ↔ Guard uuids s (.invalidate i redis) := by
  rw [step] at ht
  split at ht
  · next write cacheKey hr =>
    have hleft : ∀ k entry, (if redis then s.cache.erase cacheKey else s.cache).get? k = some entry ↔
        s.cache.get? k = some entry ∧ (redis = true → k ≠ cacheKey) := by
      intro k entry
      cases redis with
      | false => simp
      | true =>
        rw [if_pos rfl, Dict.get?_erase]
        by_cases hk : k = cacheKey <;> simp [hk]
    cases ht
    rw [staysFresh_iff] at h ⊢
    constructor
    · rintro ⟨-, hcache⟩ write' cacheKey' hr' k entry hget hparse hne
      rw [hr] at hr'
      cases hr'
      have hu := hcache k entry ((hleft k entry).mpr ⟨hget, hne⟩)
      exact (upTo_concat.mp hu).2 hparse
    · intro hg
      refine ⟨h.1, ?_⟩
      intro k entry hk
      obtain ⟨hget, hne⟩ := (hleft k entry).mp hk
      apply upTo_concat.mpr
      exact ⟨h.2 k entry hget, fun hparse => hg write cacheKey hr k entry hget hparse hne⟩
  · cases ht

theorem staysFresh_commit {i : Nat} (ht : step uuids owner s (.commit i) = some t) :
    StaysFresh uuids owner t ↔ StaysFresh uuids owner s := by
  rw [step] at ht
  split at ht
  · split at ht
    · cases ht
      exact staysFresh_congr rfl rfl rfl
    · cases ht
      exact staysFresh_congr rfl rfl rfl
  · cases ht

theorem staysFresh_expire {cacheKey : Text} (h : StaysFresh uuids owner s)
    (ht : step uuids owner s (.expire cacheKey) = some t) : StaysFresh uuids owner t := by
  cases ht
  rw [staysFresh_iff] at h ⊢
  refine ⟨h.1, ?_⟩
  intro k entry hk
  simp only [Dict.get?_erase] at hk
  split at hk
  · cases hk
  · exact h.2 k entry hk

/-- A step keeps loads and previews fresh exactly when it meets the condition. -/
theorem staysFresh_step (h : StaysFresh uuids owner s) (ht : step uuids owner s e = some t) :
    StaysFresh uuids owner t ↔ Guard uuids s e := by
  cases e with
  | lookup fileId redis => exact iff_of_true (staysFresh_lookup h ht) trivial
  | query i seen => exact staysFresh_query h ht
  | fill i redis => exact staysFresh_fill h ht
  | create user request newId =>
    cases ht
    exact iff_of_true (staysFresh_receive.mpr h) trivial
  | delete user policyId =>
    cases ht
    exact iff_of_true (staysFresh_receive.mpr h) trivial
  | commit i => exact iff_of_true ((staysFresh_commit ht).mpr h) trivial
  | invalidate i redis => exact staysFresh_invalidate h ht
  | expire cacheKey => exact iff_of_true (staysFresh_expire h ht) trivial

theorem guard_of_eq_none (ht : step uuids owner s e = none) : Guard uuids s e := by
  cases e with
  | query i seen =>
    rintro ⟨fileId, settled, phase⟩ hl rfl hseen
    rw [step, hl, List.getElem?_eq_getElem hseen] at ht
    cases hparse : uuids.parse fileId with
    | none =>
      intro w _ hw
      rw [hparse] at hw
      cases hw
    | some f =>
      simp only [hparse] at ht
      cases ht
  | fill i redis =>
    rintro _ ⟨fileId, settled, phase⟩ entry hl rfl
    rw [step, hl] at ht
    cases ht
  | invalidate i redis =>
    intro write cacheKey hr
    rw [step, hr] at ht
    cases ht
  | _ => trivial

/-! ### What an entry holds -/

/-- The policies of the file in the state of the table that the entry is of. -/
def Genuine (uuids : Uuids U) (versions : List (List (ColumnPolicy U))) (fileId : Text)
    (entry : Entry) : Prop :=
  ∃ f policies, uuids.parse fileId = some f ∧ versions[entry.version]? = some policies ∧
    entry.records = policiesFor f policies

structure Recorded (uuids : Uuids U) (s : State U) : Prop where
  uses : ∀ use ∈ s.uses, Genuine uuids s.versions use.fileId use.entry
  cache : ∀ fileId entry, s.cache.get? fileId = some entry → Genuine uuids s.versions fileId entry
  lookups : ∀ l ∈ s.lookups, ∀ entry, l.phase = .read entry → Genuine uuids s.versions l.fileId entry

theorem Genuine.append {versions : List (List (ColumnPolicy U))} {fileId : Text} {entry : Entry}
    (h : Genuine uuids versions fileId entry) (later : List (List (ColumnPolicy U))) :
    Genuine uuids (versions ++ later) fileId entry := by
  obtain ⟨f, policies, hparse, hversion, hrecords⟩ := h
  refine ⟨f, policies, hparse, ?_, hrecords⟩
  rw [List.getElem?_append_left (List.getElem?_eq_some_iff.mp hversion).1]
  exact hversion

theorem Recorded.begin (h : Recorded uuids s) {fileId : Text} {settled : List (Write U)}
    {phase : LookupPhase} (hl : ∀ entry, phase ≠ .read entry) :
    Recorded uuids (s.begin ⟨fileId, settled, phase⟩) where
  uses := h.uses
  cache := h.cache
  lookups := by
    intro l' hl' entry hphase
    rw [State.begin, List.mem_append, List.mem_singleton] at hl'
    obtain hl' | rfl := hl'
    · exact h.lookups l' hl' entry hphase
    · exact absurd hphase (hl entry)

theorem Recorded.advance (h : Recorded uuids s) {i : Nat} {phase : LookupPhase} {l : Lookup U}
    (hl : ∀ entry, phase = .read entry → Genuine uuids s.versions l.fileId entry) :
    Recorded uuids (s.advance i phase l) where
  uses := h.uses
  cache := h.cache
  lookups := by
    intro l' hl' entry hphase
    obtain hl' | rfl := List.mem_or_eq_of_mem_set hl'
    · exact h.lookups l' hl' entry hphase
    · exact hl entry hphase

theorem Recorded.answer (h : Recorded uuids s) {l : Lookup U} {entry : Entry}
    (he : Genuine uuids s.versions l.fileId entry) : Recorded uuids (s.answer l entry) where
  uses := by
    intro use huse
    rw [State.answer, List.mem_append, List.mem_singleton] at huse
    obtain huse | rfl := huse
    · exact h.uses use huse
    · exact he
  cache := h.cache
  lookups := h.lookups

theorem Recorded.receive (h : Recorded uuids s) (outcome : Except HTTPException (Checked U)) :
    Recorded uuids (s.receive outcome) := by
  cases outcome with
  | error e => exact ⟨h.uses, h.cache, h.lookups⟩
  | ok session => exact ⟨h.uses, h.cache, h.lookups⟩

theorem Recorded.erase (h : Recorded uuids s) (cacheKey : Text) :
    ∀ fileId entry, (s.cache.erase cacheKey).get? fileId = some entry →
      Genuine uuids s.versions fileId entry := by
  intro fileId entry hget
  rw [Dict.get?_erase] at hget
  split at hget
  · cases hget
  · exact h.cache fileId entry hget

theorem recorded_step (h : Recorded uuids s) (ht : step uuids owner s e = some t) :
    Recorded uuids t := by
  cases e with
  | lookup fileId redis =>
    cases redis with
    | false =>
      cases ht
      apply h.begin
      nofun
    | true =>
      cases hget : s.cache.get? fileId with
      | some entry =>
        rw [lookup_hit hget] at ht
        cases ht
        apply Recorded.answer
        · apply h.begin
          nofun
        · exact h.cache fileId entry hget
      | none =>
        rw [step, if_pos rfl, hget] at ht
        cases ht
        exact h.begin nofun
  | query i seen =>
    rw [step] at ht
    split at ht
    · next fileId settled policies hl hv =>
      split at ht
      · cases ht
        exact h.advance nofun
      · next f hparse =>
        cases ht
        have hentry : Genuine uuids s.versions fileId ⟨policiesFor f policies, seen⟩ :=
          ⟨f, policies, hparse, hv, rfl⟩
        apply (h.advance ?_).answer
        · exact hentry
        · rintro entry ⟨⟩
          exact hentry
    · cases ht
  | fill i redis =>
    rw [step] at ht
    split at ht
    · next fileId settled entry hl =>
      have hentry := h.lookups _ (List.mem_of_getElem? hl) entry rfl
      have hdone : Recorded uuids (s.advance i .done ⟨fileId, settled, .read entry⟩) := by
        apply h.advance
        nofun
      cases ht
      cases redis with
      | false => exact hdone
      | true =>
        refine ⟨hdone.uses, ?_, hdone.lookups⟩
        intro k entry' hk
        simp only [State.advance, Dict.get?_set, if_true] at hk
        by_cases hkey : k = fileId
        · rw [if_pos hkey, Option.some_inj] at hk
          rw [hkey, ← hk]
          exact hentry
        · rw [if_neg hkey] at hk
          exact h.cache k entry' hk
    · cases ht
  | create user request newId =>
    cases ht
    exact h.receive _
  | delete user policyId =>
    cases ht
    exact h.receive _
  | commit i =>
    rw [step] at ht
    split at ht
    · split at ht
      · cases ht
        exact ⟨h.uses, h.cache, h.lookups⟩
      · cases ht
        exact ⟨fun use huse => (h.uses use huse).append _, fun k entry hk => (h.cache k entry hk).append _,
          fun l hl entry hphase => (h.lookups l hl entry hphase).append _⟩
    · cases ht
  | invalidate i redis =>
    rw [step] at ht
    split at ht
    · cases ht
      cases redis with
      | false => exact ⟨h.uses, h.cache, h.lookups⟩
      | true => exact ⟨h.uses, h.erase _, h.lookups⟩
    · cases ht
  | expire cacheKey =>
    cases ht
    exact ⟨h.uses, h.erase cacheKey, h.lookups⟩

theorem recorded_init (policies : List (ColumnPolicy U)) : Recorded uuids (init policies) :=
  ⟨fun _ h => (nomatch h), fun _ _ h => (nomatch h), fun _ h => (nomatch h)⟩

theorem staysFresh_init (policies : List (ColumnPolicy U)) :
    StaysFresh uuids owner (init policies) :=
  staysFresh_iff.mpr ⟨nofun, nofun⟩

/-- In every interleaving, loads and previews stay up to date with the requests that have
returned exactly when every step meets the condition; and what they use is always the file's
policies in some state of the table. -/
theorem policy_cache_fresh_iff (uuids : Uuids U) (owner : U → Option U)
    (policies : List (ColumnPolicy U)) (events : List (Event U)) :
    (Always (step uuids owner) (StaysFresh uuids owner) (init policies) events ↔
      Along (step uuids owner) (Guard uuids) (init policies) events) ∧
    ∀ s, run (step uuids owner) (init policies) events = some s →
      ∀ use ∈ s.uses, Genuine uuids s.versions use.fileId use.entry := by
  constructor
  · exact always_iff_along_all (I := fun _ => True) (fun _ _ _ _ _ => trivial)
      (fun _ _ => guard_of_eq_none) (fun _ _ _ _ => staysFresh_step) trivial (staysFresh_init policies)
  · intro s hs
    exact (invariant_reachable (fun _ _ _ => recorded_step) (recorded_init policies) hs).uses

/-- UUIDs in the spelling of `str`. -/
def canonical : Uuids Text where
  parse t := some t
  str u := u
  parse_str _ := rfl

def payroll : Text := "0e37df36-f698-11e6-8dd4-cb9ced3df976".toList

def accountant : Requester Text := ⟨"7d444840-9dc0-11d1-b245-5ffdce74fad2".toList, "viewer".toList⟩

def salaryPolicy : ColumnPolicyRecord := { columnName := "salary".toList, policy := .redacted }

/-- A preview reads the table; a policy is created, and its request returns; the preview
fills the cache; a later preview is answered from it. -/
def lateFill : List (Event Text) :=
  [.lookup payroll true, .query 0 0,
    .create accountant ⟨payroll, salaryPolicy⟩ "9b2c1f60-31d4-4d0e-8f4e-0d3c7c1f5a11".toList,
    .commit 0, .invalidate 0 true, .fill 0 true, .lookup payroll true]

theorem late_fill_stale : ∃ t,
    run (step canonical fun _ => some accountant.id) (init []) lateFill = some t ∧
      ¬ Fresh canonical t := by
  refine ⟨_, rfl, ?_⟩
  intro h
  have hlast := h ⟨payroll, [⟨payroll, 1⟩], ⟨[], 0⟩⟩ (.tail _ (.head _)) ⟨payroll, 1⟩ (.head _) rfl
  exact absurd hlast (by decide)

end PipelineIQ.Security.PolicyCache
