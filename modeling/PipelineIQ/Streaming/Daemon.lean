import PipelineIQ.Lib.Fresh

namespace PipelineIQ.Streaming.Daemon

open PipelineIQ.Lib.Fresh

def idempotentCacheTtl : Nat := 10000
def maxConsecutiveErrors : Nat := 50

structure Message (Bytes : Type) where
  topic : String
  part : Nat
  offset : Nat
  key : Option Bytes
  value : Option Bytes

/-- What identifies a message on the broker. -/
abbrev OffsetKey := String × Nat × Nat

inductive MessageError where
  | partitionEof | other
  deriving DecidableEq, Repr

/-- One entry of a polled batch. -/
structure Delivery (Bytes : Type) where
  message : Message Bytes
  error : Option MessageError

structure PublishStep where
  topic : String
  keyColumn : Option String

/-- What the output producer is given. -/
structure Produced (Bytes : Type) where
  topic : String
  key : Option Bytes
  value : Bytes

/-- What the dead-letter producer is given, with the headers it writes. -/
structure DeadLetter (Bytes : Type) where
  topic : String
  message : Message Bytes
  xError : String
  xOriginalTopic : String

/-- The pipeline of a run and the libraries its daemon calls: the decoder of a
message value, the data frame built from records (which may fail), its rows and
what is produced for a row, and the order in which a set lists its elements. -/
structure Config (Bytes Record Frame Row : Type) where
  topic : String
  publishStep : Option PublishStep
  decode : Bytes → Except String Record
  emptyFrame : Frame
  dataFrame : List Record → Except String Frame
  isEmpty : Frame → Bool
  rows : Frame → List Row
  rowKey : Option String → Row → Option Bytes
  rowValue : Row → Bytes
  listSet : List OffsetKey → List OffsetKey

/-- How the outside world answers one batch: what the steps between consume and
publish make of its frame, after how many records the producers raise (`none` for
never), and whether the work from there to the end of the commit raises. -/
structure Answers (Frame : Type) where
  steps : Frame → Except String Frame
  publishRaises : Option Nat := none
  malformedDlqRaises : Option Nat := none
  batchDlqRaises : Option Nat := none
  commitRaises : Bool := false

structure Stats where
  batches : Nat := 0
  messages : Nat := 0
  failed : Nat := 0
  dlq : Nat := 0
  deriving DecidableEq, Repr

/-- The loop is running, left by a break, or left by an exception. -/
inductive Phase where
  | running | stopped | failed
  deriving DecidableEq, Repr

/-- The daemon with what it has done to the outside world. `consumed` lists every
message once, at its first delivery; `handedOver` the messages whose batch output
the producer took whole; `committed` the message whose offset the last pass
committed. -/
structure State (Bytes : Type) where
  processedOffsets : List OffsetKey := []
  stats : Stats := {}
  consecutiveErrors : Nat := 0
  phase : Phase := .running
  consumed : List (Message Bytes) := []
  produced : List (Produced Bytes) := []
  handedOver : List (Message Bytes) := []
  deadLetters : List (DeadLetter Bytes) := []
  committed : Option (Message Bytes) := none

variable {Bytes Record Frame Row : Type}

def Message.offsetKey (m : Message Bytes) : OffsetKey := (m.topic, m.part, m.offset)

/-- The messages without an error. -/
def validMessages (messages : List (Delivery Bytes)) : List (Message Bytes) :=
  (messages.filter fun d => d.error.isNone).map Delivery.message

/-- Drop half of the remembered offsets once there are too many. -/
def trim (cfg : Config Bytes Record Frame Row) (processedOffsets : List OffsetKey) :
    List OffsetKey :=
  if processedOffsets.length > idempotentCacheTtl then
    let toRemove := (cfg.listSet processedOffsets).take (processedOffsets.length / 2)
    processedOffsets.filter fun key => decide (key ∉ toRemove)
  else processedOffsets

/-- The decoded records of a batch and its malformed messages; a message without a
value is skipped. -/
def deserialize (cfg : Config Bytes Record Frame Row) :
    List (Message Bytes) → List Record × List (Message Bytes × String)
  | [] => ([], [])
  | m :: messages =>
    let (records, malformed) := deserialize cfg messages
    match m.value with
    | none => (records, malformed)
    | some v => match cfg.decode v with
      | .ok record => (record :: records, malformed)
      | .error e => (records, (m, e) :: malformed)

def buildFrame (cfg : Config Bytes Record Frame Row) (records : List Record) :
    Except String Frame :=
  match records with
  | [] => .ok cfg.emptyFrame
  | _ => cfg.dataFrame records

/-- Produce until the producer raises; the second part says whether it did not. -/
def produceAll {α : Type} (raises : Option Nat) (xs : List α) : List α × Bool :=
  match raises with
  | none => (xs, true)
  | some n => if n < xs.length then (xs.take n, false) else (xs, true)

def sendDlq (cfg : Config Bytes Record Frame Row) (raises : Option Nat)
    (messages : List (Message Bytes)) (error : String) (s : State Bytes) : State Bytes × Bool :=
  let letter m : DeadLetter Bytes :=
    ⟨cfg.topic ++ ".dlq", m, String.ofList (error.toList.take 500), cfg.topic⟩
  let (sent, ok) := produceAll raises messages
  ({ s with deadLetters := s.deadLetters ++ sent.map letter }, ok)

def publish (cfg : Config Bytes Record Frame Row) (raises : Option Nat) (step : PublishStep)
    (df : Frame) (s : State Bytes) : State Bytes × Bool :=
  let record row : Produced Bytes := ⟨step.topic, cfg.rowKey step.keyColumn row, cfg.rowValue row⟩
  let (sent, ok) := produceAll raises (cfg.rows df)
  ({ s with produced := s.produced ++ sent.map record }, ok)

/-- Commit the offset of the last message of a batch. -/
def commit (answers : Answers Frame) (batch : List (Message Bytes)) (s : State Bytes) :
    State Bytes :=
  if answers.commitRaises then { s with phase := .failed }
  else { s with committed := batch.getLast? }

/-- The messages of a batch that its frame is built from. -/
def decodedMessages (cfg : Config Bytes Record Frame Row) (batch : List (Message Bytes)) :
    List (Message Bytes) :=
  batch.filter fun m => match m.value with
    | none => false
    | some v => (cfg.decode v).isOk

/-- A batch whose steps raised: everything goes to the dead letters. -/
def failBatch (cfg : Config Bytes Record Frame Row) (answers : Answers Frame)
    (batch : List (Message Bytes)) (error : String) (s : State Bytes) : State Bytes :=
  match sendDlq cfg answers.batchDlqRaises batch error s with
  | (s, false) => { s with phase := .failed }
  | (s, true) =>
    let stats := { s.stats with
      failed := s.stats.failed + batch.length, dlq := s.stats.dlq + batch.length }
    let s := { s with stats, consecutiveErrors := s.consecutiveErrors + 1 }
    if s.consecutiveErrors ≥ maxConsecutiveErrors then { s with phase := .stopped }
    else commit answers batch s

/-- Publish the output of a batch. An exception of the producer is logged and
dropped. -/
def publishOutput (cfg : Config Bytes Record Frame Row) (answers : Answers Frame)
    (batch : List (Message Bytes)) (df : Frame) (s : State Bytes) : State Bytes :=
  match cfg.publishStep with
  | none => s
  | some step =>
    if cfg.isEmpty df then { s with handedOver := s.handedOver ++ decodedMessages cfg batch }
    else match publish cfg answers.publishRaises step df s with
      | (s, true) => { s with handedOver := s.handedOver ++ decodedMessages cfg batch }
      | (s, false) => s

/-- A batch whose steps returned. -/
def finishBatch (cfg : Config Bytes Record Frame Row) (answers : Answers Frame)
    (batch : List (Message Bytes)) (df : Frame) (s : State Bytes) : State Bytes :=
  let s := publishOutput cfg answers batch df s
  let stats := { s.stats with
    batches := s.stats.batches + 1, messages := s.stats.messages + batch.length }
  commit answers batch { s with stats, consecutiveErrors := 0 }

/-- The part of a pass after the batch has been deduplicated. -/
def processBatch (cfg : Config Bytes Record Frame Row) (answers : Answers Frame)
    (batch : List (Message Bytes)) (s : State Bytes) : State Bytes :=
  let (records, malformed) := deserialize cfg batch
  match buildFrame cfg records with
  | .error _ => { s with phase := .failed }
  | .ok df =>
    match sendDlq cfg answers.malformedDlqRaises (malformed.map Prod.fst)
        "deserialization failed" s with
    | (s, false) => { s with phase := .failed }
    | (s, true) =>
      let s := { s with stats := { s.stats with dlq := s.stats.dlq + malformed.length } }
      if cfg.isEmpty df then commit answers batch s
      else match answers.steps df with
        | .error e => failBatch cfg answers batch e s
        | .ok df => finishBatch cfg answers batch df s

/-- The messages of a poll that the remembered offsets do not hold. -/
def deduped (s : State Bytes) (messages : List (Delivery Bytes)) : List (Message Bytes) :=
  fresh Message.offsetKey s.processedOffsets (validMessages messages)

def remember (cfg : Config Bytes Record Frame Row) (messages : List (Delivery Bytes))
    (s : State Bytes) : State Bytes :=
  { s with
    processedOffsets := trim cfg (s.processedOffsets ++
      (deduped s messages).map Message.offsetKey)
    consumed := s.consumed ++
      fresh Message.offsetKey (s.consumed.map Message.offsetKey) (validMessages messages) }

/-- One pass of the loop: it is told to stop, it waits because of consumer lag, or
it polls. -/
inductive Pass (Bytes Frame : Type) where
  | stop
  | backpressure
  | poll (messages : List (Delivery Bytes)) (answers : Answers Frame)

def pass (cfg : Config Bytes Record Frame Row) (s : State Bytes) (p : Pass Bytes Frame) :
    Option (State Bytes) :=
  match s.phase with
  | .stopped | .failed => none
  | .running =>
    let s := { s with committed := none }
    match p with
    | .stop => some { s with phase := .stopped }
    | .backpressure => some s
    | .poll messages answers =>
      match deduped s messages with
      | [] => some (remember cfg messages s)
      | batch => some (processBatch cfg answers batch (remember cfg messages s))

end PipelineIQ.Streaming.Daemon
