import Maof.Data.Base64
import Maof.Effects.Program
import Maof.Transport.Retry
import Maof.Transport.Wire

/-!
# The broker adapters

What each adapter does with one delivered message: the calls it makes of its
client, and what they leave in the queues. `json.loads` and `json.dumps` are
parameters; no call of a client fails.
-/

namespace Maof
namespace Transport

open Data (Dict Base64.encode Base64.decode)
open Effects (Sig Act Prog)

/-! ## Messages on the wire -/

/-- A message as a broker holds it. -/
structure Stored where
  body : Bytes
  headers : Dict String String := []
  messageId : String := ""
  correlationId : Json := .null

/-- A message as a handler gets it. -/
structure IncomingMessage extends Stored where
  queue : String
  redelivered : Bool := false
  attempt : Int := 1

structure Codec where
  unicode : Unicode
  numerals : Numerals
  loads : Bytes → Except Exn Json
  dumps : Json → Bytes

section wire

variable (c : Codec)

def payload (m : Stored) : Json :=
  .obj [("body", .str (String.ofList (Base64.encode m.body))),
    ("headers", .obj (m.headers.map fun kv => (kv.1, .str kv.2))), ("message_id", .str m.messageId),
    ("correlation_id", m.correlationId)]

def pack (m : Stored) : Bytes := c.dumps (payload m)

/-- `base64.b64decode(value)`. -/
def b64decode : Json → Except Exn Bytes
  | .str s =>
      if s.toList.all fun c => decide (c.toNat < 128) then
        match Base64.decode s.toList with
        | .ok bytes => .ok bytes
        | .error .padding => .error (.valueError "Incorrect padding")
        | .error .dangling => .error (.valueError "Invalid base64-encoded string")
      else .error (.valueError "string argument should contain only ASCII characters")
  | _ => .error (.typeError "argument should be a bytes-like object or ASCII string")

/-- `value.items()`. -/
def dictItems : Json → Except Exn (Dict String Json)
  | .obj fields => .ok fields
  | _ => .error (.external "object has no attribute 'items'")

def unpack (raw : Bytes) : Except Exn Stored := do
  let value ← c.loads raw
  let body ← b64decode (← value.subscript "body")
  let headers ← dictItems ((value.get? "headers").getD (.obj []))
  let text (value : Json) := String.ofList (Template.pyStr c.unicode value)
  return {
    body
    headers := Dict.update [] (headers.map fun kv => (kv.1, text kv.2))
    messageId := text ((value.get? "message_id").getD (.str ""))
    correlationId := (value.get? "correlation_id").getD .null }

/-- `int(headers.get(ATTEMPT_HEADER, "1"))`. -/
def attemptOf (headers : Dict String String) : Except Exn Int :=
  c.numerals.int c.unicode ((Dict.get headers attemptHeader).getD "1")

end wire

/-- The message under the number of its next attempt. -/
def Stored.retried (m : Stored) (attempt : Int) : Stored :=
  { m with headers := Dict.set m.headers attemptHeader (toString (attempt + 1)) }

/-! ## Topologies -/

structure QueueSpec where
  name : String
  dlqName : Option String := none
  dlqTtl : Option String := none
  retrySteps : List String := []

/-- What an adapter keeps of a queue once it was declared. -/
structure Topology where
  policy : Option RetryPolicy := none
  dlq : Option String := none
  /-- The TTL queues that dead-letter back to the queue, of RabbitMQ alone. -/
  retryQueues : List String := []

namespace Topology

variable (p : Platform) (n : Numerals) (q : QueueSpec)

def ensure : Except Exn Topology := do
  let dlq := q.dlqName.filter fun name => name ≠ ""
  if q.retrySteps.isEmpty then return { dlq }
  else return { policy := some (← RetryPolicy.ofSteps p n q.retrySteps), dlq }

/-- `int(parse_duration(text) * 1000)`. -/
def millis (text : String) : Except Exn Int := do
  ((← Retry.parseDuration p n text).times p.nearest (.dec false 1000 0)).truncate

/-- RabbitMQ declares a queue for every step and hands the lifetimes over in milliseconds. -/
def ensureRabbit : Except Exn Topology := do
  let t ← ensure p n q
  let _ ← q.retrySteps.mapM (millis p n)
  match t.dlq, q.dlqTtl.filter fun ttl => ttl ≠ "" with
  | some _, some ttl =>
      let _ ← millis p n ttl
  | _, _ => pure ()
  return { t with retryQueues := (List.range q.retrySteps.length).map fun i =>
    q.name ++ ".retry." ++ toString (i + 1) }

/-- The delay before the next attempt, where there is one. -/
def delay (t : Topology) (attempt : Int) : Option PyFloat :=
  t.policy.bind fun policy => policy.delayForAttempt attempt

end Topology

/-! ## The adapters -/

inductive BrokerOp where
  | handle (msg : IncomingMessage)
  | popleft
  | append (queue : String) (m : Stored)
  | sleep (delay : PyFloat)
  | sendAndWait (topic : String) (raw : Bytes)
  | commit
  | lpush (key : String) (raw : Bytes)
  | lrem
  | sendMessage (queueUrl : String) (raw : Bytes) (delaySeconds : Option Int)
  | deleteMessage
  | publish (routingKey : String) (m : Stored)
  | ack
  | reject

abbrev BrokerSig : Sig := ⟨BrokerOp, fun _ => Unit, Exn⟩

abbrev BrokerM (α : Type) : Type := Act BrokerSig Unit α

abbrev brokerCall (op : BrokerOp) : BrokerM Unit := Act.await (S := BrokerSig) op

inductive Adapter where
  | inMemory
  | kafka
  | redis
  | sqs
  | rabbitmq
deriving DecidableEq, Repr

/-- A message where an adapter finds it: the value of a record, or the message itself where the
broker carries headers. -/
structure Delivery where
  raw : Bytes
  native : Stored
  redelivered : Bool := false

section adapters

variable (c : Codec) (t : Topology) (queue : String)

/-- `attempt > 1` stands for a redelivery where the broker does not tell. -/
def incoming (m : Stored) (attempt : Int) : IncomingMessage :=
  { m with queue := queue, redelivered := attempt > 1, attempt := attempt }

/-- What stands before the handler: the message, and its attempt. -/
def received (raw : Bytes) : Except Exn (Stored × Int) := do
  let m ← unpack c raw
  return (m, ← attemptOf c m.headers)

namespace InMemoryBroker

def onFailure (stored : Stored) (attempt : Int) : BrokerM Unit :=
  match t.delay attempt with
  | some _ => brokerCall (.append queue (stored.retried attempt))
  | none => match t.dlq with
      | some dlq => brokerCall (.append dlq stored)
      | none => return ()

/-- One turn of `consume`. -/
def deliver (stored : Stored) : BrokerM Unit := do
  brokerCall .popleft
  let attempt ← Act.ofExcept (S := BrokerSig) (attemptOf c stored.headers)
  Act.tryCatch (brokerCall (.handle (incoming queue stored attempt))) fun _ =>
    onFailure t queue stored attempt

end InMemoryBroker

namespace KafkaBroker

def dispatch (raw : Bytes) : BrokerM Unit := do
  let (m, attempt) ← Act.ofExcept (S := BrokerSig) (received c raw)
  Act.tryCatch (brokerCall (.handle (incoming queue m attempt))) fun _ =>
    match t.delay attempt with
    | some delay => do
        brokerCall (.sleep delay)
        brokerCall (.sendAndWait queue (pack c (m.retried attempt)))
    | none => match t.dlq with
        | some dlq => brokerCall (.sendAndWait dlq (pack c m))
        | none => return ()

/-- One record of `consume`. -/
def deliver (raw : Bytes) : BrokerM Unit := do
  dispatch c t queue raw
  brokerCall .commit

end KafkaBroker

namespace RedisStreamsBroker

def dispatch (raw : Bytes) : BrokerM Unit := do
  let (m, attempt) ← Act.ofExcept (S := BrokerSig) (received c raw)
  Act.tryCatch (brokerCall (.handle (incoming queue m attempt))) fun _ =>
    match t.delay attempt with
    | some _ => brokerCall (.lpush queue (pack c (m.retried attempt)))
    | none => match t.dlq with
        | some dlq => brokerCall (.lpush dlq raw)
        | none => return ()

def deliver (raw : Bytes) : BrokerM Unit := do
  dispatch c t queue raw
  brokerCall .lrem

end RedisStreamsBroker

namespace SQSBroker

/-- The message is deleted in the branch that disposes of it. -/
def dispatch (raw : Bytes) : BrokerM Unit := do
  let (m, attempt) ← Act.ofExcept (S := BrokerSig) (received c raw)
  Act.tryCatch (do
    brokerCall (.handle (incoming queue m attempt))
    brokerCall .deleteMessage) fun _ =>
    match t.delay attempt with
    | some delay => do
        let seconds ← Act.ofExcept (S := BrokerSig) delay.truncate
        brokerCall (.sendMessage queue (pack c (m.retried attempt)) (some (min seconds 900)))
        brokerCall .deleteMessage
    | none => match t.dlq with
        | some dlq => do
            brokerCall (.sendMessage dlq (pack c m) none)
            brokerCall .deleteMessage
        | none => return ()

end SQSBroker

namespace RabbitMQBroker

def handleDelivery (message : Stored) (redelivered : Bool) : BrokerM Unit := do
  let attempt ← Act.ofExcept (S := BrokerSig) (attemptOf c message.headers)
  Act.tryCatch (do
    brokerCall (.handle { incoming queue message attempt with redelivered })
    brokerCall .ack) fun _ =>
    match t.delay attempt, t.retryQueues[(attempt - 1).toNat]? with
    | some _, some retryQueue => do
        brokerCall (.publish retryQueue (message.retried attempt))
        brokerCall .ack
    | _, _ => brokerCall .reject

end RabbitMQBroker

/-- What an adapter does with one delivery, its acknowledgement included. -/
def Adapter.deliver (a : Adapter) (d : Delivery) : BrokerM Unit :=
  match a with
  | .inMemory => InMemoryBroker.deliver c t queue d.native
  | .kafka => KafkaBroker.deliver c t queue d.raw
  | .redis => RedisStreamsBroker.deliver c t queue d.raw
  | .sqs => SQSBroker.dispatch c t queue d.raw
  | .rabbitmq => RabbitMQBroker.handleDelivery c t queue d.native d.redelivered

end adapters

def Adapter.ensureTopology (p : Platform) (n : Numerals) (q : QueueSpec) : Adapter → Except Exn Topology
  | .rabbitmq => Topology.ensureRabbit p n q
  | _ => Topology.ensure p n q

/-! ## What a delivery leaves -/

/-- The messages handed to the handler, whether the broker is done with the delivered one, and the
messages put into queues, each as its consumer will read it. -/
structure Ledger where
  handled : List IncomingMessage := []
  settled : Bool := false
  enqueued : List (String × Except Exn Stored) := []

/-- What the adapter does not decide: the declared queue, the message, and how the handler ends. -/
structure Surroundings where
  topology : Topology
  queue : String
  message : Stored
  outcome : IncomingMessage → Except Exn Unit

namespace Ledger

variable (c : Codec) (s : Surroundings)

def enqueue (w : Ledger) (queue : String) (m : Except Exn Stored) : Ledger :=
  { w with enqueued := w.enqueued ++ [(queue, m)] }

/-- A TTL queue hands its messages back to the queue it was declared for. -/
def route (routingKey : String) : String :=
  if routingKey ∈ s.topology.retryQueues then s.queue else routingKey

/-- A rejected message goes to the dead-letter queue, if the queue declares one. -/
def reject (w : Ledger) : Ledger :=
  match s.topology.dlq with
  | some dlq => { w.enqueue dlq (.ok s.message) with settled := true }
  | none => { w with settled := true }

def perform (w : Ledger) : (op : BrokerOp) → Ledger × Except Exn Unit
  | .handle msg => ({ w with handled := w.handled ++ [msg] }, s.outcome msg)
  | .popleft | .commit | .lrem | .deleteMessage | .ack => ({ w with settled := true }, .ok ())
  | .append queue m => (w.enqueue queue (.ok m), .ok ())
  | .sleep _ => (w, .ok ())
  | .sendAndWait queue raw | .lpush queue raw | .sendMessage queue raw _ =>
      (w.enqueue queue (unpack c raw), .ok ())
  | .publish routingKey m => (w.enqueue (route s routingKey) (.ok m), .ok ())
  | .reject => (w.reject s, .ok ())

end Ledger

/-- How a delivery ends: an exception that left the adapter, whether the broker is done with the
message, and what was put into which queue. -/
structure Decision where
  raised : Option Exn
  settled : Bool
  enqueued : List (String × Except Exn Stored)

/-- The decision on a delivery of a message. -/
def Adapter.decision (c : Codec) (a : Adapter) (s : Surroundings) (d : Delivery) : Decision :=
  let out := (a.deliver c s.topology s.queue d ()).eval (Ledger.perform c s) {}
  { raised := match out.1.1 with
      | .ok () => none
      | .error e => some e
    settled := out.2.settled
    enqueued := out.2.enqueued }

/-- Where a message goes whose handler has failed: once more into its queue, or to the dead letters. -/
def Surroundings.moved (s : Surroundings) (attempt : Int) : List (String × Except Exn Stored) :=
  match s.topology.delay attempt with
  | some _ => [(s.queue, .ok (s.message.retried attempt))]
  | none => match s.topology.dlq with
      | some dlq => [(dlq, .ok s.message)]
      | none => []

section unpack

variable {c : Codec}

/-- The headers of a message that was read are a dictionary. -/
theorem nodup_of_unpack {raw : Bytes} {m : Stored} (read : unpack c raw = .ok m) : (Dict.keys m.headers).Nodup := by
  obtain ⟨value, _, read⟩ := ok_of_bind read
  obtain ⟨field, _, read⟩ := ok_of_bind read
  obtain ⟨body, _, read⟩ := ok_of_bind read
  obtain ⟨headers, _, read⟩ := ok_of_bind read
  cases read
  have empty : (Dict.keys ([] : Dict String String)).Nodup := List.nodup_nil
  exact Dict.nodup_update empty _

theorem b64decode_encode (body : Bytes) : b64decode (.str (String.ofList (Base64.encode body))) = .ok body := by
  have ascii : ((String.ofList (Base64.encode body)).toList.all fun c => decide (c.toNat < 128)) = true := by
    rw [String.toList_ofList, List.all_eq_true]
    intro ch member
    exact decide_eq_true (Data.Base64.ascii_of_mem_encode member)
  rw [b64decode, if_pos ascii, String.toList_ofList, Data.Base64.decode_encode]

/-- A text that spells a message is read as this message. -/
theorem unpack_of_loads {raw : Bytes} {m : Stored} (distinct : (Dict.keys m.headers).Nodup)
    (spells : c.loads raw = .ok (payload m)) : unpack c raw = .ok m := by
  have texts : (m.headers.map fun kv => (kv.1, Json.str kv.2)).map
      (fun kv => (kv.1, String.ofList (Template.pyStr c.unicode kv.2))) = m.headers := by
    rw [List.map_map]
    exact (List.map_congr_left fun kv _ => by simp [Template.pyStr]).trans (List.map_id _)
  have headers : Dict.update [] m.headers = m.headers := Dict.update_of_nodup distinct
  have body : (payload m).subscript "body" = .ok (.str (String.ofList (Base64.encode m.body))) := rfl
  have fields : ((payload m).get? "headers").getD (.obj []) = .obj (m.headers.map fun kv => (kv.1, .str kv.2)) := rfl
  have messageId : ((payload m).get? "message_id").getD (.str "") = .str m.messageId := rfl
  have correlationId : ((payload m).get? "correlation_id").getD .null = m.correlationId := rfl
  simp only [unpack, spells, body, b64decode_encode, fields, messageId, correlationId, dictItems, bind,
    Except.bind, pure, Except.pure]
  rw [texts, headers]
  simp [Template.pyStr]

/-- What was packed is read back. -/
theorem unpack_pack {m : Stored} (distinct : (Dict.keys m.headers).Nodup)
    (lossless : c.loads (c.dumps (payload m)) = .ok (payload m)) : unpack c (pack c m) = .ok m :=
  unpack_of_loads distinct lossless

end unpack

end Transport
end Maof
