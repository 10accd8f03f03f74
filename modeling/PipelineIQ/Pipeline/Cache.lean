import PipelineIQ.Lib.Lru
import PipelineIQ.Pipeline.Parser

namespace PipelineIQ.Pipeline.Cache

open PipelineIQ.Lib PipelineIQ.Lib.Strings

def LOCAL_CACHE_MAX_ENTRIES : Nat := 256
def REDIS_RETRY_BACKOFF_SECONDS : Nat := 5
def YAML_CACHE_PREFIX : Text := "yaml:parsed:".toList

variable {Config ParserError : Type}

/-- The error for a text with nothing in it, or an error of the parser. -/
inductive CacheError (ParserError : Type) where
  | mustNotBeEmpty
  | parser (e : ParserError)
  deriving DecidableEq, Repr

/-- The hash, in hexadecimal digits, and the parser that the module rebuilds a pipeline with. -/
structure Env (Config ParserError : Type) where
  sha256 : Text → Text
  parse : Text → Except ParserError Config

/-- The caches: the local one, the Redis keys under the prefix, and until when Redis is left alone. -/
structure State where
  localYamlCache : Lru Text Text LOCAL_CACHE_MAX_ENTRIES := Lru.empty
  redis : Dict Text Text := ∅
  redisCacheDisabledUntil : Nat := 0

/-- How Redis takes a command: it answers, or the client sees an exception, and the command may
have run all the same. -/
inductive Answer where
  | done
  | failed (applied : Bool)

/-- One use of Redis: whether it is used at all, the clock, and what becomes of the command. -/
structure Use where
  shouldUseRedisCache : Bool
  now : Nat
  answer : Answer

/-- `_redis_call`; no result while Redis is left alone and where the command fails. -/
def redisCall {α : Type} (u : Use) (operation : Dict Text Text → α × Dict Text Text) (s : State) :
    Option α × State :=
  if u.now < s.redisCacheDisabledUntil then (none, s)
  else match u.answer with
    | .done => (some (operation s.redis).1,
        { s with redis := (operation s.redis).2, redisCacheDisabledUntil := 0 })
    | .failed applied => (none, { s with
        redis := if applied then (operation s.redis).2 else s.redis
        redisCacheDisabledUntil := u.now + REDIS_RETRY_BACKOFF_SECONDS })

def redisGet (key : Text) (redis : Dict Text Text) : Option Text × Dict Text Text :=
  (redis.get? key, redis)

def redisSet (key value : Text) (redis : Dict Text Text) : Unit × Dict Text Text :=
  ((), redis.set key value)

def redisDelete (key : Text) (redis : Dict Text Text) : Unit × Dict Text Text :=
  ((), redis.erase key)

def useRedis {α : Type} (u : Use) (operation : Dict Text Text → α × Dict Text Text) (s : State) :
    Option α × State :=
  if u.shouldUseRedisCache then redisCall u operation s else (none, s)

section Functions

variable (env : Env Config ParserError)

def cacheKey (yamlText : Text) : Text := YAML_CACHE_PREFIX ++ env.sha256 yamlText

def localCacheSet (key yamlText : Text) (s : State) : State :=
  { s with localYamlCache := s.localYamlCache.set key yamlText }

/-- Parse and remember a text. -/
def parseInto (key text : Text) (s : State) : Except ParserError Config × State :=
  match env.parse text with
  | .ok pipeline => (.ok pipeline, localCacheSet key text s)
  | .error e => (.error e, s)

/-- The lookup in Redis; a text that does not parse counts as a miss. -/
def fromRedis (u : Use) (key : Text) (s : State) : Option Config × State :=
  match useRedis u (redisGet key) s with
  | (some (some cached), s) =>
    if cached.isEmpty then (none, s)
    else match parseInto env key cached s with
      | (.ok pipeline, s) => (some pipeline, s)
      | (.error _, s) => (none, s)
  | (_, s) => (none, s)

/-- A miss: parse the text and store it in both caches. -/
def parseFresh (u : Use) (key yamlText : Text) (s : State) :
    Except (CacheError ParserError) Config × State :=
  match parseInto env key yamlText s with
  | (.ok pipeline, s) => (.ok pipeline, (useRedis u (redisSet key yamlText) s).2)
  | (.error e, s) => (.error (.parser e), s)

def getParsedPipeline (reading storing : Use) (yamlText : Text) (s : State) :
    Except (CacheError ParserError) Config × State :=
  if (strip yamlText).isEmpty then (.error .mustNotBeEmpty, s)
  else
    let key := cacheKey env yamlText
    match s.localYamlCache.get key with
    | (some cached, localYamlCache) =>
      ((env.parse cached).mapError .parser, { s with localYamlCache })
    | (none, localYamlCache) =>
      match fromRedis env reading key { s with localYamlCache } with
      | (some pipeline, s) => (.ok pipeline, s)
      | (none, s) => parseFresh env storing key yamlText s

def invalidatePipelineCache (u : Use) (yamlText : Text) (s : State) : State :=
  let key := cacheKey env yamlText
  (useRedis u (redisDelete key) { s with localYamlCache := s.localYamlCache.pop key }).2

/-! ### Histories -/

/-- The calls of one process, and what happens to the keys in Redis meanwhile: they are evicted or
expire, and another process stores a text under its own key. -/
inductive Event where
  | get (reading storing : Use) (yamlText : Text)
  | invalidate (u : Use) (yamlText : Text)
  | evict (key : Text)
  | storedElsewhere (yamlText : Text)

def step (s : State) : Event → State
  | .get reading storing yamlText => (getParsedPipeline env reading storing yamlText s).2
  | .invalidate u yamlText => invalidatePipelineCache env u yamlText s
  | .evict key => { s with redis := s.redis.erase key }
  | .storedElsewhere yamlText =>
    { s with redis := s.redis.set (cacheKey env yamlText) yamlText }

/-- Parsing directly, where a text with nothing in it is refused first. -/
def parseDirectly (yamlText : Text) : Except (CacheError ParserError) Config :=
  if (strip yamlText).isEmpty then .error .mustNotBeEmpty
  else (env.parse yamlText).mapError .parser

/-- Each cache holds texts under their own keys only. -/
structure Consistent (s : State) : Prop where
  localYamlCache : s.localYamlCache.All fun key text => key = cacheKey env text
  redis : ∀ key text, s.redis.get? key = some text → key = cacheKey env text

end Functions

variable {env : Env Config ParserError} {s : State} {u reading storing : Use} {key text yamlText : Text}

theorem consistent_initial : Consistent env {} := ⟨Lru.all_empty, fun _ _ h => nomatch h⟩

/-- A command that keeps the keys in order keeps them so however Redis takes it. -/
theorem useRedis_snd {α : Type} {operation : Dict Text Text → α × Dict Text Text}
    (h : Consistent env s)
    (hop : ∀ key text, (operation s.redis).2.get? key = some text → key = cacheKey env text) :
    Consistent env (useRedis u operation s).2 := by
  unfold useRedis redisCall
  split
  · split
    · exact h
    · split
      · exact ⟨h.localYamlCache, hop⟩
      · next applied _ =>
        cases applied with
        | true => exact ⟨h.localYamlCache, hop⟩
        | false => exact ⟨h.localYamlCache, h.redis⟩
  · exact h

theorem useRedis_get_fst {cached : Text}
    (h : (useRedis u (redisGet key) s).1 = some (some cached)) : s.redis.get? key = some cached := by
  unfold useRedis redisCall at h
  split at h
  · split at h
    · cases h
    · split at h
      · exact Option.some.inj h
      · cases h
  · cases h

theorem parseInto_snd (h : Consistent env s) (hkey : key = cacheKey env text) :
    Consistent env (parseInto env key text s).2 := by
  unfold parseInto
  split
  · exact ⟨h.localYamlCache.set hkey, h.redis⟩
  · exact h

theorem parseInto_fst : (parseInto env key text s).1 = env.parse text := by
  unfold parseInto
  split
  next heq => exact heq.symm
  next heq => exact heq.symm

/-- A hit in Redis is the text that was asked for, parsed. -/
theorem fromRedis_fst (hsha : Function.Injective env.sha256) (h : Consistent env s)
    {pipeline : Config}
    (hhit : (fromRedis env u (cacheKey env yamlText) s).1 = some pipeline) :
    env.parse yamlText = .ok pipeline := by
  unfold fromRedis at hhit
  split at hhit
  next cached s' huse =>
    have hcached := h.redis _ _ (useRedis_get_fst (congrArg Prod.fst huse))
    obtain rfl : yamlText = cached := hsha (List.append_cancel_left hcached)
    split at hhit
    · cases hhit
    · have hparse : (parseInto env (cacheKey env yamlText) yamlText s').1 = env.parse yamlText :=
        parseInto_fst
      split at hhit
      next p t hinto =>
        cases hhit
        rw [hinto] at hparse
        exact hparse.symm
      next => cases hhit
  next => cases hhit

theorem fromRedis_snd (h : Consistent env s) :
    Consistent env (fromRedis env u (cacheKey env yamlText) s).2 := by
  have huse : Consistent env (useRedis u (redisGet (cacheKey env yamlText)) s).2 :=
    useRedis_snd h h.redis
  unfold fromRedis
  split
  next cached s' heq =>
    rw [heq] at huse
    have hcached := h.redis _ _ (useRedis_get_fst (congrArg Prod.fst heq))
    split
    · exact huse
    · have hinto : Consistent env (parseInto env (cacheKey env yamlText) cached s').2 :=
        parseInto_snd huse hcached
      split
      next p t heq' =>
        rw [heq'] at hinto
        exact hinto
      next e t heq' =>
        rw [heq'] at hinto
        exact hinto
  next o t _ heq =>
    rw [heq] at huse
    exact huse

theorem parseFresh_fst :
    (parseFresh env u key text s).1 = (env.parse text).mapError .parser := by
  unfold parseFresh parseInto
  cases env.parse text with
  | ok pipeline => rfl
  | error e => rfl

theorem parseFresh_snd (h : Consistent env s) :
    Consistent env (parseFresh env u (cacheKey env text) text s).2 := by
  have hinto : Consistent env (parseInto env (cacheKey env text) text s).2 := parseInto_snd h rfl
  unfold parseFresh
  split
  next p t heq =>
    rw [heq] at hinto
    refine useRedis_snd hinto fun key value hget => ?_
    rw [redisSet, Dict.get?_set] at hget
    split at hget
    next hkey =>
      cases hget
      exact hkey
    next => exact hinto.redis key value hget
  next e t heq =>
    rw [heq] at hinto
    exact hinto

/-- The caches do not show: the answer is that of parsing the text. -/
theorem getParsedPipeline_fst (hsha : Function.Injective env.sha256) (h : Consistent env s) :
    (getParsedPipeline env reading storing yamlText s).1 = parseDirectly env yamlText := by
  unfold getParsedPipeline parseDirectly
  split
  · rfl
  · dsimp only
    have hlocal : Consistent env
        { s with localYamlCache := (s.localYamlCache.get (cacheKey env yamlText)).2 } :=
      ⟨h.localYamlCache.get_snd, h.redis⟩
    split
    next cached localYamlCache hget =>
      have hcached := h.localYamlCache.get_fst (congrArg Prod.fst hget)
      rw [hsha (List.append_cancel_left hcached)]
    next localYamlCache hget =>
      rw [hget] at hlocal
      split
      next pipeline t hredis =>
        rw [fromRedis_fst hsha hlocal (congrArg Prod.fst hredis)]
        rfl
      next => exact parseFresh_fst

theorem consistent_get (h : Consistent env s) :
    Consistent env (getParsedPipeline env reading storing yamlText s).2 := by
  unfold getParsedPipeline
  split
  · exact h
  · dsimp only
    have hlocal : Consistent env
        { s with localYamlCache := (s.localYamlCache.get (cacheKey env yamlText)).2 } :=
      ⟨h.localYamlCache.get_snd, h.redis⟩
    split
    next cached localYamlCache hget =>
      rw [hget] at hlocal
      exact hlocal
    next localYamlCache hget =>
      rw [hget] at hlocal
      have hredis : Consistent env
          (fromRedis env reading (cacheKey env yamlText) { s with localYamlCache }).2 :=
        fromRedis_snd hlocal
      split
      next pipeline t heq =>
        rw [heq] at hredis
        exact hredis
      next t heq =>
        rw [heq] at hredis
        exact parseFresh_snd hredis

theorem get?_erase_consistent (h : Consistent env s) (k : Text) :
    ∀ key text, (s.redis.erase k).get? key = some text → key = cacheKey env text := by
  intro key text hget
  rw [Dict.get?_erase] at hget
  split at hget
  · cases hget
  · exact h.redis key text hget

theorem consistent_step (h : Consistent env s) (e : Event) :
    Consistent env (step env s e) := by
  cases e with
  | get reading storing yamlText => exact consistent_get h
  | invalidate u yamlText =>
    have hpop : Consistent env
        { s with localYamlCache := s.localYamlCache.pop (cacheKey env yamlText) } :=
      ⟨h.localYamlCache.pop, h.redis⟩
    exact useRedis_snd hpop (get?_erase_consistent hpop _)
  | evict key => exact ⟨h.localYamlCache, get?_erase_consistent h key⟩
  | storedElsewhere yamlText =>
    refine ⟨h.localYamlCache, fun key text hget => ?_⟩
    rw [step, Dict.get?_set] at hget
    split at hget
    next hkey =>
      cases hget
      exact hkey
    next => exact h.redis key text hget

theorem consistent_run (events : List Event) :
    Consistent env (events.foldl (step env) {}) := by
  induction events using List.reverseRecOn with
  | nil => exact consistent_initial
  | append_singleton events e ih =>
    rw [List.foldl_append]
    exact consistent_step ih e

/-- After any history, a call answers as the parser does, but for the error of a text with nothing
in it, and the local cache keeps its bound. -/
theorem cache_transparent (env : Env Config ParserError) (hsha : Function.Injective env.sha256)
    (events : List Event) (reading storing : Use) (yamlText : Text) :
    (getParsedPipeline env reading storing yamlText (events.foldl (step env) {})).1 =
        parseDirectly env yamlText ∧
      (events.foldl (step env) {}).localYamlCache.dict.entries.length ≤ LOCAL_CACHE_MAX_ENTRIES :=
  ⟨getParsedPipeline_fst hsha (consistent_run events), Lru.bounded _⟩

section Examples

open PipelineIQ.Lib.Yaml PipelineIQ.Pipeline.Parser

/-- A reader that finds nothing in a text, and a parser over it. -/
def nothingReader : PyYaml where
  safeLoad _ := some .null
  safeDump _ := []

def readingNothing : Env PipelineConfig ParseError where
  sha256 := id
  parse := Parser.parse nothingReader Char.isAlphanum ⟨fun _ => []⟩

def answering : Use := ⟨true, 0, .done⟩

/-- The error for an empty text is not the parser's. -/
theorem empty_text_differs : (getParsedPipeline readingNothing answering answering [] {}).1 ≠
    (readingNothing.parse []).mapError .parser := by
  rw [show (readingNothing.parse []).mapError CacheError.parser =
    (.error (.parser .invalidYaml) : Except (CacheError ParseError) PipelineConfig) from rfl]
  intro h
  cases h

theorem cache_transparent_stored :
    (getParsedPipeline readingNothing answering answering "a".toList
        ([Event.storedElsewhere "a".toList].foldl (step readingNothing) {})).1 =
      .error (.parser .invalidYaml) :=
  (cache_transparent readingNothing Function.injective_id [.storedElsewhere "a".toList] answering
    answering "a".toList).1

end Examples

end PipelineIQ.Pipeline.Cache
