import PipelineIQ.Lib.CanonicalJson
import PipelineIQ.Lib.Spelling
import PipelineIQ.Sse.Signing

namespace PipelineIQ.Sse.Integrity

open PipelineIQ.Lib PipelineIQ.Sse.Signing

/-- The JSON library: the texts that it writes numbers with, its serialiser, which
keeps the order of the fields, and its parser. -/
structure Orjson (Bytes : Type) where
  number : String → Prop
  dumps : Json → Bytes
  loads : Bytes → Option Json
  loads_dumps : ∀ document, document.Written number → loads (dumps document) = some document

/-- The keyed digest, in hexadecimal. -/
structure Hmac (Bytes : Type) where
  hexdigest : Bytes → String
  hexdigest_ne_empty : ∀ bytes, hexdigest bytes ≠ ""

variable {Bytes : Type}

/-- `orjson.dumps(payload, option=orjson.OPT_SORT_KEYS)`. -/
def dumpsSorted (orjson : Orjson Bytes) (payload : Payload) : Bytes :=
  orjson.dumps (Json.sortKeys (.ofDict payload))

def sseSigner (orjson : Orjson Bytes) (hmac : Hmac Bytes) (environment : String) : Signer Bytes where
  dumpsSorted := dumpsSorted orjson
  hmac := hmac.hexdigest
  hmac_ne_empty := hmac.hexdigest_ne_empty
  environment := environment

/-- The payload that a subscriber or a reader of the cache decodes. -/
def decoded (orjson : Orjson Bytes) (bytes : Bytes) : Option Payload :=
  (orjson.loads bytes).bind Json.asDict

/-- The bytes that `_cache_progress_payload` stores. -/
def cacheProgressPayload (orjson : Orjson Bytes) (signer : Signer Bytes) (payload : Payload) : Bytes :=
  orjson.dumps (.ofDict (signSsePayload signer payload))

/-- The bytes that `_publish_progress_payload` leaves in the channel and in the cache:
the cache is given the signed payload and signs it again. -/
def publishProgressPayload (orjson : Orjson Bytes) (signer : Signer Bytes) (payload : Payload) :
    Bytes × Bytes :=
  let signedPayload := signSsePayload signer payload
  (orjson.dumps (.ofDict signedPayload), cacheProgressPayload orjson signer signedPayload)

/-- A payload that the library can write. -/
def Serialisable (orjson : Orjson Bytes) (payload : Payload) : Prop :=
  (Json.ofDict payload).Written orjson.number

variable {orjson : Orjson Bytes} {payload other : Payload}

theorem Serialisable.mem (h : Serialisable orjson payload) {field : String} {value : Json}
    (hget : payload.get? field = some value) : value.Written orjson.number := by
  rw [Dict.get?_eq_some_iff] at hget
  cases h with
  | obj fields hkeys h => exact h (field, value) hget

theorem serialisable_of (h : ∀ field value, payload.get? field = some value →
    value.Written orjson.number) : Serialisable orjson payload :=
  .obj payload.entries payload.nodup fun field hfield =>
    h field.1 field.2 ((payload.get?_eq_some_iff field.1 field.2).mpr hfield)

theorem Serialisable.erase (h : Serialisable orjson payload) (field : String) :
    Serialisable orjson (payload.erase field) := by
  apply serialisable_of
  intro other value hget
  rw [Dict.get?_erase] at hget
  split at hget
  · cases hget
  · exact h.mem hget

theorem Serialisable.sign (h : Serialisable orjson payload) (signer : Signer Bytes) :
    Serialisable orjson (signSsePayload signer payload) := by
  apply serialisable_of
  intro field value hget
  rw [signSsePayload, Dict.get?_set] at hget
  split at hget
  · cases hget
    exact .str _
  · exact h.mem hget

theorem decoded_dumps (h : Serialisable orjson payload) :
    decoded orjson (orjson.dumps (.ofDict payload)) = some payload := by
  rw [decoded, orjson.loads_dumps _ h, Option.bind_some, Json.asDict_ofDict]

/-- The sorted serialisation tells two payloads apart exactly when they read
differently somewhere. -/
theorem dumpsSorted_eq_iff (h : Serialisable orjson payload) (ho : Serialisable orjson other) :
    dumpsSorted orjson payload = dumpsSorted orjson other ↔
      (Json.ofDict payload).Alike (.ofDict other) := by
  rw [← Json.sortKeys_eq_iff h ho]
  constructor
  · intro heq
    have hloads := congrArg orjson.loads heq
    rw [dumpsSorted, dumpsSorted, orjson.loads_dumps _ h.sortKeys,
      orjson.loads_dumps _ ho.sortKeys] at hloads
    exact Option.some.inj hloads
  · intro heq
    rw [dumpsSorted, dumpsSorted, heq]

/-- The cached bytes are the published ones. -/
theorem publishProgressPayload_cached (orjson : Orjson Bytes) (signer : Signer Bytes)
    (payload : Payload) :
    (publishProgressPayload orjson signer payload).2 =
      (publishProgressPayload orjson signer payload).1 := by
  rw [publishProgressPayload, cacheProgressPayload, signSsePayload_sign]

variable {hmac : Hmac Bytes} {environment : String}

/-- Whoever carries the signature of a payload verifies exactly when it reads as the
payload does, signatures aside. -/
theorem verify_carrying_iff (hinj : Function.Injective hmac.hexdigest)
    (hp : Serialisable orjson payload) (ho : Serialisable orjson other)
    (hsig : other.get? sseSignatureField =
      (signSsePayload (sseSigner orjson hmac environment) payload).get? sseSignatureField) :
    verifySsePayload (sseSigner orjson hmac environment) other = true ↔
      (Json.ofDict (publicSsePayload other)).Alike (.ofDict (publicSsePayload payload)) := by
  rw [signSsePayload, Dict.get?_set, if_pos rfl] at hsig
  have hne := (sseSigner orjson hmac environment).hmac_ne_empty
    (signaturePayload (sseSigner orjson hmac environment) payload)
  rw [verifySsePayload, hsig]
  dsimp only
  rw [if_neg hne, decide_eq_true_eq, publicSsePayload, publicSsePayload, ← dumpsSorted_eq_iff (ho.erase _) (hp.erase _)]
  exact ⟨fun h => (hinj h).symm, fun h => congrArg hmac.hexdigest h.symm⟩

/-- The laws of signing, for a digest without collisions. -/
theorem sign_laws (orjson : Orjson Bytes) (hmac : Hmac Bytes) (environment : String)
    (hinj : Function.Injective hmac.hexdigest) (payload : Payload)
    (hp : Serialisable orjson payload) :
    let signer := sseSigner orjson hmac environment
    ((decoded orjson (orjson.dumps (.ofDict (signSsePayload signer payload)))).map
        (verifySsePayload signer) = some true) ∧
      signSsePayload signer (signSsePayload signer payload) = signSsePayload signer payload ∧
      publicSsePayload (signSsePayload signer payload) = payload.erase sseSignatureField ∧
      ∀ other : Payload, Serialisable orjson other →
        other.get? sseSignatureField = (signSsePayload signer payload).get? sseSignatureField →
        (verifySsePayload signer other = true ↔
          (Json.ofDict (publicSsePayload other)).Alike (.ofDict (publicSsePayload payload))) := by
  intro signer
  refine ⟨?_, signSsePayload_sign signer payload, ?_, ?_⟩
  · rw [decoded_dumps (hp.sign signer), Option.map_some, verifySsePayload_sign]
  · rw [publicSsePayload, signSsePayload, Dict.erase_set_self]
  · intro other ho hsig
    exact verify_carrying_iff hinj hp ho hsig

/-- Documents that are not turned into text, with a digest that spells them out. -/
def plainOrjson : Orjson Json := ⟨fun _ => True, id, some, fun _ _ => rfl⟩

def spellingHmac : Hmac Json where
  hexdigest document := String.ofList ('h' :: document.spell)
  hexdigest_ne_empty document h := by
    have hlist := congrArg String.toList h
    rw [String.toList_ofList] at hlist
    cases hlist

theorem spellingHmac_injective : Function.Injective spellingHmac.hexdigest := by
  intro a b h
  have hlist := congrArg String.toList h
  rw [spellingHmac, String.toList_ofList, String.toList_ofList] at hlist
  exact Json.spell_injective (List.cons.inj hlist).2

/-- A payload with an old signature in its midst. -/
def resigned : Payload :=
  Dict.ofList [("status", .str "RUNNING"), (sseSignatureField, .str "old"), ("rows", .arr [.num "1"])]

theorem resigned_serialisable : Serialisable plainOrjson resigned := by
  have hitems : ∀ item ∈ [Json.num "1"], item.Written plainOrjson.number := by
    intro item hitem
    rw [List.mem_singleton.mp hitem]
    exact .num "1" trivial
  refine .obj _ resigned.nodup fun field hfield => ?_
  have hmem : field ∈ [("status", Json.str "RUNNING"), (sseSignatureField, .str "old"),
      ("rows", .arr [.num "1"])] := hfield
  rcases List.mem_cons.mp hmem with rfl | hmem
  · exact .str "RUNNING"
  · rcases List.mem_cons.mp hmem with rfl | hmem
    · exact .str "old"
    · rw [List.mem_singleton.mp hmem]
      exact .arr _ hitems

theorem sign_laws_resigned :
    let signer := sseSigner plainOrjson spellingHmac "production"
    ((decoded plainOrjson (plainOrjson.dumps (.ofDict (signSsePayload signer resigned)))).map
        (verifySsePayload signer) = some true) ∧
      signSsePayload signer (signSsePayload signer resigned) = signSsePayload signer resigned ∧
      publicSsePayload (signSsePayload signer resigned) = resigned.erase sseSignatureField ∧
      ∀ other : Payload, Serialisable plainOrjson other →
        other.get? sseSignatureField = (signSsePayload signer resigned).get? sseSignatureField →
        (verifySsePayload signer other = true ↔
          (Json.ofDict (publicSsePayload other)).Alike (.ofDict (publicSsePayload resigned))) :=
  sign_laws plainOrjson spellingHmac "production" spellingHmac_injective resigned
    resigned_serialisable

end PipelineIQ.Sse.Integrity
