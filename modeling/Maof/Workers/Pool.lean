import Maof.Effects.Logic
import Maof.Orchestrator.World
import Maof.Transport.Wire

/-!
# The worker pool

A delivered task message is verified, read, checked against its run and its
schema and handed to the agent; the result is published under the guard and the
completion is reported. Whatever raises goes back to the broker.
-/

namespace Maof

open Data (Dict)
open Effects (Sig Act Prog)

/-- The agent registered for each task type. -/
structure AgentRegistry where
  byTaskType : Dict String String := []

inductive PoolOp where
  | getState (runId : RunId)
  | emit (event : AuditEvent)
  | handle (agent : String) (taskBody : Dict String Json) (ctx : L2Context)
  | recorded (key : String)
  | publish (publication : ResultPublication)
  | record (key : String)

abbrev PoolOp.Ans : PoolOp → Type
  | .getState _ => RunState
  | .handle _ _ _ => TaskResult
  | .recorded _ => Bool
  | .emit _ | .publish _ | .record _ => Unit

abbrev PoolSig : Sig := ⟨PoolOp, PoolOp.Ans, Exn⟩

abbrev PoolM (α : Type) : Type := Act PoolSig Unit α

abbrev poolCall (op : PoolOp) : PoolM op.Ans := Act.await (S := PoolSig) op

structure WorkerPool where
  signer : Signer
  registry : AgentRegistry
  schemaRegistry : Option SchemaRegistry := none
  guarded : Bool := true
  requireSignature : Bool := true
  allowed : Option (List String) := none
  eventSink : Bool := true
  runStore : Bool := true
  resultQueue : Option String := some "results"

namespace WorkerPool

/-! ## What the body of a task says -/

section task

variable (u : Unicode) (taskBody : Dict String Json)

/-- `str(task_body.get(key, ""))`. -/
def text (key : String) : String :=
  String.ofList (Template.pyStr u ((Dict.get taskBody key).getD (.str "")))

def taskType : String := text u taskBody "task_type"

def idempotencyKey : String := text u taskBody "idempotency_key"

/-- `str(task_body.get("step_ref") or task_body.get("task_id", ""))`. -/
def stepRef : String :=
  match Dict.get taskBody "step_ref" with
  | some value => if value.truthy then String.ofList (Template.pyStr u value) else text u taskBody "task_id"
  | none => text u taskBody "task_id"

end task

variable (p : Platform) (r : Reader) (pool : WorkerPool)

/-- `task_body.get("reply_to") or self._result_queue`, if it is not empty. -/
def replyTo (taskBody : Dict String Json) : Option String :=
  let own := (Dict.get taskBody "reply_to").getD .null
  if own.truthy then some (String.ofList (Template.pyStr p.unicode own))
  else pool.resultQueue.filter fun queue => queue ≠ ""

/-- A body that is no dictionary has no `get`. -/
def taskOf : Json → Except Exn (Dict String Json)
  | .obj taskBody => .ok taskBody
  | _ => .error (.external "object has no attribute 'get'")

/-- Verify the signature and rebuild the task and its context. -/
def received (msg : IncomingMessage) : Except Exn (Dict String Json × L2Context) := do
  if pool.requireSignature then
    pool.signer.verify p msg.body msg.headers
  let message ← r.loads msg.body
  let (task, ctx) ← reconstructL2Context r message
  let taskBody ← taskOf task
  return (taskBody, ctx)

/-- The scopes of the actor, as a set. -/
def actorScopes (actor : Option Json) : Except Exn (List Json) :=
  let scopes := ((actor.bind fun a => a.get? "scopes").getD (.arr []))
  if scopes.truthy then do
    let items ← scopes.items
    items.mapM Json.hashed
  else return []

/-- Tools whose scope neither the actor nor the tenant holds are stripped. -/
def stripTools (ctx : L2Context) : Except Exn L2Context := do
  let held ← actorScopes ctx.envelope.actor
  let names := held.filterMap fun | .str s => some s | _ => none
  let granted (t : ToolRef) := t.rbac.all fun scope => scope ∈ names ++ tenantScopes ctx.tenant
  return { ctx with toolset := ctx.toolset.filter granted }

/-- The agent for the task and the context it is given, unless the pool or the schema refuses
the task. -/
def admitted (taskBody : Dict String Json) (ctx : L2Context) : Except Exn (String × L2Context) := do
  let taskType := taskType p.unicode taskBody
  if pool.allowed.any fun allowed => taskType ∉ allowed then
    throw (.valueError ("task type " ++ Template.reprText p.unicode (.str taskType) ++
      " not allowed on this worker"))
  SchemaRegistry.conforms p.unicode pool.schemaRegistry (orElse ctx.envelope.schemaId (taskType ++ ".v1")) taskBody
  match Dict.get pool.registry.byTaskType taskType with
  | none =>
      throw (.valueError ("no L2 agent registered for task type " ++ Template.reprText p.unicode (.str taskType)))
  | some agent => return (agent, ← stripTools ctx)

def emit (ctx : L2Context) (eventType : String) (details : Dict String Json) : PoolM Unit :=
  if pool.eventSink then
    poolCall (.emit {
      tenantId := ctx.tenant.tenantId
      intentId := ctx.envelope.intentId
      eventType
      details })
  else pure ()

/-- A run that the store does not know is not cancelled. -/
def runCancelled (runId : RunId) : PoolM Bool :=
  if pool.runStore then
    Act.tryCatch (do
      let state ← poolCall (.getState runId)
      return state.cancelRequested || decide (state.status = .cancelled)) fun
      | .keyError _ => pure false
      | e => Act.throw e
  else pure false

/-- `guard.once(key, fn)`. -/
def once (guarded : Bool) (key : String) (fn : PoolM Unit) : PoolM Unit := do
  if guarded then
    if !(← poolCall (.recorded key)) then
      fn
      poolCall (.record key)
  else fn

def publishResult (timestamp queue : String) (envelope : ResultEnvelope) : PoolM Unit :=
  once pool.guarded ("publish-result:" ++ envelope.idempotencyKey) do
    let publication ← Act.ofExcept (S := PoolSig) (resultPublication p pool.signer timestamp queue envelope)
    poolCall (.publish publication)

def resultEnvelope (taskBody : Dict String Json) (ctx : L2Context) (result : TaskResult) : ResultEnvelope where
  runId := ctx.envelope.runId
  stepRef := stepRef p.unicode taskBody
  taskId := text p.unicode taskBody "task_id"
  taskType := taskType p.unicode taskBody
  idempotencyKey := idempotencyKey p.unicode taskBody
  tenantId := ctx.tenant.tenantId
  intentId := ctx.envelope.intentId
  result := { result with
    runId := some ctx.envelope.runId
    stepRef := some (stepRef p.unicode taskBody) }

/-- What follows the agent's answer. -/
def respond (timestamp : String) (taskBody : Dict String Json) (ctx : L2Context) (result : TaskResult) :
    PoolM Unit := do
  let taskType := taskType p.unicode taskBody
  Act.ofExcept (S := PoolSig)
    (SchemaRegistry.conforms p.unicode pool.schemaRegistry (taskType ++ ".result.v1") result.output)
  match pool.replyTo p taskBody with
  | some queue => publishResult p pool timestamp queue (resultEnvelope p taskBody ctx result)
  | none => pure ()
  pool.emit ctx "task_completed" [("status", .str result.status), ("task_type", .str taskType)]

/-- `_handle`. -/
def handle (timestamp : String) (msg : IncomingMessage) : PoolM Unit := do
  let (taskBody, ctx) ← Act.ofExcept (S := PoolSig) (pool.received p r msg)
  if ← pool.runCancelled ctx.envelope.runId then
    pool.emit ctx "task_skipped" [("task_type", .str (taskType p.unicode taskBody)),
      ("reason", .str "run_cancelled"), ("run_id", .str ctx.envelope.runId)]
  else
    let (agent, ctx) ← Act.ofExcept (S := PoolSig) (pool.admitted p taskBody ctx)
    let result ← poolCall (.handle agent taskBody ctx)
    pool.respond p timestamp taskBody ctx result

end WorkerPool

/-! ## Deliveries -/

/-- What is left by the deliveries: the tasks the agents were called for, the results given
to the broker, the keys the guard recorded. -/
structure PoolWorld where
  handled : List (Dict String Json) := []
  published : List ResultPublication := []
  onceKeys : List String := []
  events : List AuditEvent := []

/-- A delivery: the message, what the run store and the agent answer, the keys the agent
records with the guard, and the calls that fail. -/
structure Attempt where
  msg : IncomingMessage
  state : Except Exn RunState := .error (.keyError "run not found")
  reply : Except Exn TaskResult
  agentKeys : List String := []
  timestamp : String := ""
  fault : PoolOp → Option (FaultAt × Exn) := fun _ => none

namespace PoolWorld

def effect (a : Attempt) (w : PoolWorld) : (op : PoolOp) → PoolWorld × Except Exn op.Ans
  | .getState _ => (w, a.state)
  | .emit event => ({ w with events := w.events ++ [event] }, .ok ())
  | .handle _ taskBody _ =>
      ({ w with handled := w.handled ++ [taskBody], onceKeys := w.onceKeys ++ a.agentKeys }, a.reply)
  | .recorded key => (w, .ok (key ∈ w.onceKeys))
  | .publish publication => ({ w with published := w.published ++ [publication] }, .ok ())
  | .record key => ({ w with onceKeys := w.onceKeys ++ [key] }, .ok ())

/-- A call may fail before its effect or after it. -/
def perform (a : Attempt) (w : PoolWorld) (op : PoolOp) : PoolWorld × Except Exn op.Ans :=
  match a.fault op with
  | none => effect a w op
  | some (.before, e) => (w, .error e)
  | some (_, e) => ((effect a w op).1, .error e)

end PoolWorld

namespace WorkerPool

variable (p : Platform) (r : Reader) (pool : WorkerPool)

/-- The broker acknowledges what returns and redelivers what raises. -/
def deliver (a : Attempt) (w : PoolWorld) : PoolWorld × Except Exn Unit :=
  let out := (pool.handle p r a.timestamp a.msg ()).eval (PoolWorld.perform a) w
  (out.2, out.1.1)

end WorkerPool

end Maof
