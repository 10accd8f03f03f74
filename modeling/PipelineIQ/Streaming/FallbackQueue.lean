import Mathlib
import PipelineIQ.Lib.Json
import PipelineIQ.Lib.Machine
import PipelineIQ.Lib.Utf8

namespace PipelineIQ.Streaming.FallbackQueue

open PipelineIQ.Lib PipelineIQ.Lib.Machine PipelineIQ.Lib.Utf8

/-! ### Messages and the items of the queue -/

structure Message where
  topic : String
  value : ByteArray
  key : Option ByteArray := none
  headers : Option (List (String × ByteArray)) := none
  deriving DecidableEq

def FALLBACK_MAX_SIZE : Nat := 100000

/-- An absent or empty key. -/
def noKey : Option ByteArray → Bool
  | none => true
  | some key => key.size = 0

/-- The document that `fallback_enqueue` stores for a message. -/
def fallbackItem (m : Message) (enqueuedAt : Json) : Json :=
  .obj [("topic", .str m.topic), ("value", .str (decodeReplace m.value)),
    ("key", if noKey m.key then .null else .option (fun key => .str (decodeReplace key)) m.key),
    ("enqueued_at", enqueuedAt)]

/-- The message that `fallback_drain` makes of a document, `none` where it raises. Documents of
other shapes are not written. -/
def ofItem (item : Json) : Option Message := do
  let fields ← item.asDict
  match fields.get? "topic", fields.get? "value", fields.get? "key" with
  | some (.str topic), some (.str value), some (.str key) =>
    some { topic, value := value.toUTF8, key := if key = "" then none else some key.toUTF8 }
  | some (.str topic), some (.str value), some .null => some { topic, value := value.toUTF8 }
  | _, _, _ => none

/-- A message in the queue: when it was put there, and its number among all of them. -/
structure Item where
  message : Message
  enqueuedAt : Json
  entry : Nat

section Codec

variable {Raw : Type} (codec : JsonCodec Raw)

/-- The text in Redis. -/
def Item.raw (item : Item) : Raw := codec.dumps (fallbackItem item.message item.enqueuedAt)

/-- What a drain makes of the text. -/
def restore (raw : Raw) : Option Message := (codec.loads raw).bind ofItem

end Codec

/-! ### Calls and drains -/

/-- How the producer comes back: the message is sent and polled for, handed over before the
poll raises, or not taken. -/
inductive Producing where
  | sent | handedOver | refused
  deriving DecidableEq, Repr

/-- How far `fallback_enqueue` gets: it has no effect, or it raises after the push, or after the
trim, or it returns. -/
inductive Enqueuing where
  | unavailable | pushed | trimmed | counted
  deriving DecidableEq, Repr

/-- How a pop comes back: with the items, with an error and no effect, with an error after it. -/
inductive Reply where
  | answered | refused | timedOut
  deriving DecidableEq, Repr

/-- What a call of `produce_with_fallback` did, and its answer, `none` where it raises. -/
structure CallRecord where
  handed : Bool
  queued : Bool
  answer : Option Bool
  deriving DecidableEq, Repr

/-- The queue from left to right, and the batches that the running drains have popped, in the
order of their pops. Of the past it keeps the messages that were queued, those that the drains
produced with the numbers of their items, and the calls. -/
structure State where
  queue : List Item := []
  hands : List (Nat × List Item) := []
  accepted : List Message := []
  drained : List (Message × Nat) := []
  calls : List CallRecord := []

inductive Event where
  | call (m : Message) (enqueuedAt : Json) (isOpen : Bool) (producing : Producing)
      (enqueuing : Enqueuing)
  | pop (drain : Nat) (batchSize : Nat) (reply : Reply)
  | produce (drain : Nat) (takes : Bool)
  | stop (drain : Nat)

/-- Whether the push took effect. -/
def Enqueuing.queues : Enqueuing → Bool
  | .unavailable => false
  | _ => true

/-- `lpush` and `ltrim`, and the answer of `fallback_enqueue`. -/
def fallbackEnqueue (m : Message) (enqueuedAt : Json) (enqueuing : Enqueuing) (s : State) :
    Bool × State :=
  let pushed := ⟨m, enqueuedAt, s.accepted.length⟩ :: s.queue
  match enqueuing with
  | .unavailable => (false, s)
  | .pushed => (false, { s with queue := pushed, accepted := s.accepted ++ [m] })
  | .trimmed => (false,
      { s with queue := pushed.take FALLBACK_MAX_SIZE, accepted := s.accepted ++ [m] })
  | .counted => (true,
      { s with queue := pushed.take FALLBACK_MAX_SIZE, accepted := s.accepted ++ [m] })

def produceWithFallback (m : Message) (enqueuedAt : Json) (isOpen : Bool) (producing : Producing)
    (enqueuing : Enqueuing) (s : State) : State :=
  if isOpen then
    let (enqueued, s) := fallbackEnqueue m enqueuedAt enqueuing s
    { s with calls := s.calls ++ [⟨false, enqueuing.queues, some enqueued⟩] }
  else match producing with
  | .sent => { s with calls := s.calls ++ [⟨true, false, some true⟩] }
  | _ =>
    let (enqueued, s) := fallbackEnqueue m enqueuedAt enqueuing s
    { s with calls := s.calls ++ [⟨producing = .handedOver, enqueuing.queues,
        if enqueued then some false else none⟩] }

/-- The batch of a drain that has one. -/
def batchOf (drain : Nat) (hands : List (Nat × List Item)) : List Item :=
  ((hands.find? fun hand => hand.1 = drain).map Prod.snd).getD []

def dropBatch (drain : Nat) (hands : List (Nat × List Item)) : List (Nat × List Item) :=
  hands.filter fun hand => hand.1 ≠ drain

/-- `rpop` with a count: the last items, the last one first. -/
def rpop (count : Nat) (queue : List Item) : List Item × List Item :=
  ((queue.reverse.take count), (queue.reverse.drop count).reverse)

variable {Raw : Type} (codec : JsonCodec Raw)

def step (s : State) : Event → Option State
  | .call m enqueuedAt isOpen producing enqueuing =>
    some (produceWithFallback m enqueuedAt isOpen producing enqueuing s)
  | .pop drain batchSize reply =>
    -- a drain pops again when it has gone through its batch
    if batchOf drain s.hands = [] then
      let (items, queue) := rpop (min batchSize 50) s.queue
      match reply with
      | .refused => some s
      | .timedOut => some { s with queue }
      | .answered => some { s with queue, hands := dropBatch drain s.hands ++ [(drain, items)] }
    else none
  | .produce drain takes =>
    match batchOf drain s.hands with
    | [] => none
    | item :: rest =>
      let hands := s.hands.map fun hand => if hand.1 = drain then (drain, rest) else hand
      match takes, restore codec (item.raw codec) with
      | true, some m => some { s with hands, drained := s.drained ++ [(m, item.entry)] }
      -- the exception is logged and the item is gone
      | _, _ => some { s with hands }
  | .stop drain => some { s with hands := dropBatch drain s.hands }

/-! ### What the queue promises -/

def State.pending (s : State) : List Item := s.hands.flatMap Prod.snd ++ s.queue.reverse

def Item.entered (item : Item) : Message × Nat := (item.message, item.entry)

/-- The answer says where the message is. -/
def CallRecord.Right (c : CallRecord) : Prop :=
  (c.answer = some true ↔ c.handed = true) ∧ (c.answer = some false ↔ c.queued = true)

instance (c : CallRecord) : Decidable c.Right := inferInstanceAs (Decidable (_ ∧ _))

/-- The messages that were queued are, in their order, those that the drains have produced, as
they were, then those in the hands of a drain, then those in the queue. -/
def Ordered (s : State) : Prop :=
  s.drained ++ s.pending.map Item.entered = s.accepted.zipIdx

/-- Nothing is lost, changed or moved, and every call has answered right. -/
structure Faithful (s : State) : Prop where
  order : Ordered s
  calls : ∀ c ∈ s.calls, c.Right

/-- A message that survives its way through the queue. -/
structure Representable (m : Message) : Prop where
  value : m.value.IsValidUTF8
  key : ∀ key, m.key = some key → key.size ≠ 0 ∧ key.IsValidUTF8
  headers : m.headers = none

/-- A call with the breaker open whose enqueuing fails after its push, or one with the breaker
closed that is sent, or refused and then enqueued whole or not at all. -/
def RightAnswer (isOpen : Bool) (producing : Producing) (enqueuing : Enqueuing) : Prop :=
  if isOpen then enqueuing = .pushed ∨ enqueuing = .trimmed
  else producing = .sent ∨ producing = .refused ∧ (enqueuing = .unavailable ∨ enqueuing = .counted)

/-- What keeps the promise: besides the right answers, room in the queue where it is trimmed, no
pop that is lost with its items, messages that are representable, produced in turn and taken,
and no drain that stops with items in its hands. -/
def Clean (s : State) : Event → Prop
  | .call _ _ isOpen producing enqueuing => RightAnswer isOpen producing enqueuing ∧
      ((isOpen = true ∨ producing ≠ .sent) → (enqueuing = .trimmed ∨ enqueuing = .counted) →
        s.queue.length < FALLBACK_MAX_SIZE)
  | .pop _ batchSize reply => reply = .timedOut → batchSize = 0 ∨ s.queue = []
  | .produce drain takes => takes = true ∧
      (∀ item ∈ (batchOf drain s.hands).head?, Representable item.message) ∧
      ∀ hand ∈ s.hands.takeWhile (fun hand => hand.1 ≠ drain), hand.2 = []
  | .stop drain => batchOf drain s.hands = []

end PipelineIQ.Streaming.FallbackQueue
