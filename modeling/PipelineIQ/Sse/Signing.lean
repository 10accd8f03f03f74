import PipelineIQ.Lib.Json

namespace PipelineIQ.Sse.Signing

open PipelineIQ.Lib

/-- A progress payload: a JSON object. -/
abbrev Payload := Dict String Json

def sseSignatureField : String := "__sig"

/-- The keyed digest of the serialised payload (keys sorted, signature left out)
and the deployment setting. A hex digest is never empty. -/
structure Signer (Bytes : Type) where
  dumpsSorted : Payload → Bytes
  hmac : Bytes → String
  hmac_ne_empty : ∀ bytes, hmac bytes ≠ ""
  environment : String

variable {Bytes : Type}

def signaturePayload (signer : Signer Bytes) (payload : Payload) : Bytes :=
  signer.dumpsSorted (payload.erase sseSignatureField)

def signSsePayload (signer : Signer Bytes) (payload : Payload) : Payload :=
  payload.set sseSignatureField (.str (signer.hmac (signaturePayload signer payload)))

def verifySsePayload (signer : Signer Bytes) (payload : Payload) : Bool :=
  match payload.get? sseSignatureField with
  | some (.str signature) =>
    if signature = "" then decide (signer.environment = "test")
    else decide (signature = signer.hmac (signaturePayload signer payload))
  | _ => decide (signer.environment = "test")

def publicSsePayload (payload : Payload) : Payload := payload.erase sseSignatureField

@[simp] theorem signaturePayload_sign (signer : Signer Bytes) (payload : Payload) :
    signaturePayload signer (signSsePayload signer payload) = signaturePayload signer payload := by
  simp only [signaturePayload, signSsePayload, Dict.erase_set_self]

/-- Signing a signed payload changes nothing. -/
@[simp] theorem signSsePayload_sign (signer : Signer Bytes) (payload : Payload) :
    signSsePayload signer (signSsePayload signer payload) = signSsePayload signer payload := by
  have h := signaturePayload_sign signer payload
  rw [signSsePayload, h, signSsePayload, Dict.set_set_self]

/-- What is signed verifies. -/
@[simp] theorem verifySsePayload_sign (signer : Signer Bytes) (payload : Payload) :
    verifySsePayload signer (signSsePayload signer payload) = true := by
  have hsig : (signSsePayload signer payload).get? sseSignatureField =
      some (.str (signer.hmac (signaturePayload signer payload))) := by
    rw [signSsePayload, Dict.get?_set, if_pos rfl]
  have hne := signer.hmac_ne_empty (signaturePayload signer payload)
  simp only [verifySsePayload, hsig, if_neg hne, signaturePayload_sign, decide_true]

/-- The signature is all that signing adds. -/
theorem publicSsePayload_sign (signer : Signer Bytes) (payload : Payload)
    (h : payload.get? sseSignatureField = none) :
    publicSsePayload (signSsePayload signer payload) = payload := by
  rw [publicSsePayload, signSsePayload, Dict.erase_set_self]
  exact Dict.erase_of_get?_eq_none payload sseSignatureField h

theorem get?_sign (signer : Signer Bytes) (payload : Payload) {field : String}
    (h : field ≠ sseSignatureField) :
    (signSsePayload signer payload).get? field = payload.get? field := by
  rw [signSsePayload, Dict.get?_set, if_neg h]

end PipelineIQ.Sse.Signing
