import PipelineIQ.Lib.Codecs
import PipelineIQ.Lib.Lru
import PipelineIQ.Lib.Recency

namespace PipelineIQ.Execution.ModuleCache

open PipelineIQ.Lib PipelineIQ.Lib.Codecs PipelineIQ.Lib.Recency
open PipelineIQ.Lib.Lru (moveToEnd popFirst)

/-- SHA-256 without collisions, and what is a compilation of which bytes. -/
structure Wasmtime (K M : Type) where
  sha256 : Bytes → K
  sha256_injective : Function.Injective sha256
  Compiles : Bytes → M → Prop

/-- A request with what the compiler would give then, nothing where it fails. -/
structure Lookup {K M : Type} (W : Wasmtime K M) where
  wasmBytes : Bytes
  compiled : Option M
  sound : ∀ m ∈ compiled, W.Compiles wasmBytes m

inductive Raised where
  | wasmtimeError | keyError
  deriving DecidableEq

def maxCachedModules : Nat := 100

variable {K M : Type} [DecidableEq K] (W : Wasmtime K M)

def subscript (cache : Dict K M) (key : K) : Except Raised M :=
  match cache.get? key with
  | some m => .ok m
  | none => .error .keyError

/-- What the call returns or raises, and the cache that it leaves. -/
def getOrCompile (cache : Dict K M) (request : Lookup W) : Except Raised M × Dict K M :=
  let moduleKey := W.sha256 request.wasmBytes
  if moduleKey ∉ cache.keys then
    match request.compiled with
    | none => (.error .wasmtimeError, cache)
    | some m =>
      let stored := moveToEnd (cache.set moduleKey m) moduleKey
      let kept := if maxCachedModules < stored.keys.length then popFirst stored else stored
      (subscript kept moduleKey, kept)
  else
    let moved := moveToEnd cache moduleKey
    (subscript moved moduleKey, moved)

def cacheAfter (cache : Dict K M) (requests : List (Lookup W)) : Dict K M :=
  requests.foldl (fun cache request => (getOrCompile W cache request).2) cache

/-- The bytes of the lookups that succeed, in their order. -/
def served (cache : Dict K M) : List (Lookup W) → List Bytes
  | [] => []
  | request :: requests =>
    let rest := served (getOrCompile W cache request).2 requests
    match (getOrCompile W cache request).1 with
    | .ok _ => request.wasmBytes :: rest
    | .error _ => rest

/-- The distinct modules used last, the one used longest ago first. -/
def mostRecent (used : List Bytes) : List Bytes := used.dedup.rtake maxCachedModules

/-- What the cache holds after lookups of these bytes. -/
structure Holds (used : List Bytes) (cache : Dict K M) : Prop where
  keys : cache.keys = (mostRecent used).map W.sha256
  compiled : ∀ bytes m, cache.get? (W.sha256 bytes) = some m → W.Compiles bytes m

variable {W} {used : List Bytes} {cache : Dict K M} {request : Lookup W} {m : M} {e : Raised}

theorem holds_empty : Holds W [] (∅ : Dict K M) := ⟨rfl, fun _ _ h => nomatch h⟩

theorem subscript_eq_ok {key : K} : subscript cache key = .ok m ↔ cache.get? key = some m := by
  rw [subscript]
  cases cache.get? key with
  | none => simp
  | some m' => simp

theorem exists_subscript {key : K} (h : key ∈ cache.keys) : ∃ m, subscript cache key = .ok m := by
  obtain ⟨m, hm⟩ := (cache.mem_keys_iff key).mp h
  exact ⟨m, subscript_eq_ok.mpr hm⟩

theorem mem_keys (h : Holds W used cache) {bytes : Bytes} :
    W.sha256 bytes ∈ cache.keys ↔ bytes ∈ mostRecent used := by
  rw [h.keys, List.mem_map_of_injective W.sha256_injective]

/-- The module used last is the last one. -/
theorem mostRecent_concat (used : List Bytes) (bytes : Bytes) :
    mostRecent (used ++ [bytes]) =
      (used.dedup.filter (· ≠ bytes)).rtake (maxCachedModules - 1) ++ [bytes] := by
  rw [mostRecent, dedup_concat]
  exact List.rtake_concat_succ _ _ _

theorem Holds.length_keys (h : Holds W used cache) : cache.keys.length ≤ maxCachedModules := by
  obtain ⟨_, _, hle, _⟩ := exists_rtake maxCachedModules used.dedup
  rw [h.keys, List.length_map]
  exact hle

theorem map_filter_ne (bytes : Bytes) (l : List Bytes) :
    (l.filter (· ≠ bytes)).map W.sha256 = (l.map W.sha256).filter (· ≠ W.sha256 bytes) := by
  rw [List.filter_map]
  apply congrArg
  apply List.filter_congr
  intro b _
  simp only [Function.comp_apply, W.sha256_injective.ne_iff]

/-- The cache after a hit. -/
theorem Holds.hit (h : Holds W used cache) {bytes : Bytes} (hk : W.sha256 bytes ∈ cache.keys) :
    Holds W (used ++ [bytes]) (moveToEnd cache (W.sha256 bytes)) where
  keys := by
    have hr : mostRecent (used ++ [bytes]) = (mostRecent used).filter (· ≠ bytes) ++ [bytes] :=
      rtake_dedup_concat_of_mem ((mem_keys h).mp hk)
    rw [Lru.keys_moveToEnd hk, h.keys, hr, List.map_append, map_filter_ne]
    rfl
  compiled := by
    intro b m hm
    rw [Lru.get?_moveToEnd] at hm
    exact h.compiled b m hm

theorem keys_stored {key : K} (hk : key ∉ cache.keys) :
    (moveToEnd (cache.set key m) key).keys = cache.keys ++ [key] := by
  have hset := cache.keys_set_of_not_mem m hk
  have hmem : key ∈ (cache.set key m).keys := by
    rw [hset]
    exact List.mem_append_right _ List.mem_cons_self
  rw [Lru.keys_moveToEnd hmem, hset, List.filter_append, filter_ne hk,
    List.filter_cons_of_neg (by simp), List.filter_nil, List.append_nil]

/-- The cache after a module is stored, the one used longest ago evicted when it is full. -/
theorem Holds.miss (h : Holds W used cache) {bytes : Bytes} (hk : W.sha256 bytes ∉ cache.keys)
    (hm : W.Compiles bytes m) :
    let stored := moveToEnd (cache.set (W.sha256 bytes) m) (W.sha256 bytes)
    Holds W (used ++ [bytes])
      (if maxCachedModules < stored.keys.length then popFirst stored else stored) := by
  intro stored
  have hkeys : stored.keys = (mostRecent used ++ [bytes]).map W.sha256 := by
    rw [List.map_append, ← h.keys]
    exact keys_stored hk
  have hr : mostRecent (used ++ [bytes]) =
      if maxCachedModules < (mostRecent used ++ [bytes]).length then
        (mostRecent used ++ [bytes]).tail
      else mostRecent used ++ [bytes] :=
    rtake_dedup_concat_of_not_mem (fun hb => hk ((mem_keys h).mpr hb)) (by decide)
  have hcompiled : ∀ b m', stored.get? (W.sha256 b) = some m' → W.Compiles b m' := by
    intro b m' hb
    rw [Lru.get?_moveToEnd, Dict.get?_set] at hb
    by_cases hs : W.sha256 b = W.sha256 bytes
    · rw [if_pos hs, Option.some_inj] at hb
      rw [W.sha256_injective hs, ← hb]
      exact hm
    · rw [if_neg hs] at hb
      exact h.compiled b m' hb
  have hlength : stored.keys.length = (mostRecent used ++ [bytes]).length := by
    rw [hkeys, List.length_map]
  rw [hlength]
  by_cases hfull : maxCachedModules < (mostRecent used ++ [bytes]).length
  · rw [if_pos hfull] at hr ⊢
    constructor
    · rw [Lru.keys_popFirst, hkeys, hr, List.map_tail]
    · exact fun b m' hb => hcompiled b m' (Lru.get?_of_popFirst hb)
  · rw [if_neg hfull] at hr ⊢
    constructor
    · rw [hkeys, hr]
    · exact hcompiled

/-- A lookup on a cache that holds the modules used last: what it returns and what it
leaves, and that it fails only where the compiler does. -/
theorem getOrCompile_cases (h : Holds W used cache) (request : Lookup W) :
    (∃ m, (getOrCompile W cache request).1 = .ok m ∧ W.Compiles request.wasmBytes m ∧
      Holds W (used ++ [request.wasmBytes]) (getOrCompile W cache request).2) ∨
    getOrCompile W cache request = (.error .wasmtimeError, cache) := by
  have hreturns : ∀ kept : Dict K M, Holds W (used ++ [request.wasmBytes]) kept →
      ∃ m, subscript kept (W.sha256 request.wasmBytes) = .ok m ∧
        W.Compiles request.wasmBytes m ∧ Holds W (used ++ [request.wasmBytes]) kept := by
    intro kept hkept
    have hlast : request.wasmBytes ∈ mostRecent (used ++ [request.wasmBytes]) := by
      rw [mostRecent_concat]
      exact List.mem_append_right _ List.mem_cons_self
    obtain ⟨m, hm⟩ := exists_subscript ((mem_keys hkept).mpr hlast)
    exact ⟨m, hm, hkept.compiled _ m (subscript_eq_ok.mp hm), hkept⟩
  rw [getOrCompile]
  by_cases hk : W.sha256 request.wasmBytes ∈ cache.keys
  · simp only [hk, not_true_eq_false, if_false]
    exact Or.inl (hreturns _ (h.hit hk))
  · simp only [hk, not_false_eq_true, if_true]
    cases hc : request.compiled with
    | none => exact Or.inr rfl
    | some m => exact Or.inl (hreturns _ (h.miss hk (request.sound m hc)))

theorem Holds.run (h : Holds W used cache) (requests : List (Lookup W)) :
    Holds W (used ++ served W cache requests) (cacheAfter W cache requests) := by
  induction requests generalizing used cache with
  | nil =>
    rw [served, List.append_nil]
    exact h
  | cons request requests ih =>
    have hnext := getOrCompile_cases h request
    rw [served, cacheAfter, List.foldl_cons]
    obtain ⟨m, hm, -, hkept⟩ | hfailed := hnext
    · rw [hm]
      have hrest := ih hkept
      rwa [List.append_assoc, List.singleton_append] at hrest
    · rw [hfailed]
      exact ih h

end PipelineIQ.Execution.ModuleCache
