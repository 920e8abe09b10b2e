import Maof.Effects.Machine
import Maof.Orchestrator.Delegation
import Maof.Orchestrator.Lifecycle
import Maof.Orchestrator.Messages
import Maof.Runs.Checkpoint

/-!
# Awaited calls and the world they act on

Every `await` of the orchestrator is one call. A stage makes calls for the run
it is driven for; the driver, the collector, the poller and the operator make
the others. A call may fail before, during or after its effect.
-/

namespace Maof

open Data (Dict)
open Effects (Sig Prog Act)

structure AuditEvent where
  tenantId : String
  intentId : Option String := none
  eventType : String
  envelope : Dict String Json := []
  details : Dict String Json := []
  severity : String := "info"
  actor : Option Json := none

/-- A task handed to `publish_task`. -/
structure Publication where
  guarded : Bool
  work : Work
  task : Task
  queue : String
  rulesetRef : Option String := none
  schemaId : Option String := none
  correlationId : String

/-- What a subagent is asked for keeps the step's id as history; no program reads it. -/
inductive StageOp where
  | listResults (stepRef : StepId)
  | approvalWait (reason : String) (requiredRoles : List String) (parties : Int)
  | resolveQueue (dispatcher : QueueDispatcher) (delegation : DelegationContract)
  | publishTask (publication : Publication)
  | appendTrace (entry : TraceEntry)
  | generate (prompt : String) (system : Option String) (step : Option StepId)
  | putArtifact (name content contentType : String)
  | utcNow
  | uuid4
  | loadRuleset (tenantId rulesetRef : String)
  | emit (event : AuditEvent)
  | external (name : String) (argument : Json)

abbrev StageOp.Ans : StageOp → Type
  | .listResults _ => List ResultEnvelope
  | .resolveQueue _ _ => String × Option AgentManifest
  | .generate _ _ _ | .putArtifact _ _ _ | .uuid4 => String
  | .utcNow => Int
  | .loadRuleset _ _ => Option LoadedRuleset
  | .external _ _ => Json
  | .approvalWait _ _ _ | .publishTask _ | .appendTrace _ | .emit _ => Unit

def StageOp.publishes : StageOp → Bool
  | .publishTask _ => true
  | _ => false

abbrev StageSig : Sig := ⟨StageOp, StageOp.Ans, Exn⟩

inductive Op where
  | stage (info : RunInfo) (op : StageOp)
  | create (tenant : TenantContext) (goal : String)
  | getState (runId : RunId)
  | setState (runId : RunId) (status : RunStatus)
  | appendTrace (runId : RunId) (entry : TraceEntry)
  | emit (event : AuditEvent)
  | save (runId : RunId) (label : String) (blob : Json)
  | load (runId : RunId)
  | schedule (runId : RunId) (condition : WakeCondition) (gate : Option StepId)
  | validate (envelope : ResultEnvelope)
  | saveResult (envelope : ResultEnvelope)
  | satisfyResults (runId : RunId) (stepRef : StepId)
  | dueTimers
  | dueJoins
  | fireEvent (eventKey : String)
  | ownerOf (runId : RunId)
  | requestCancel (runId : RunId)
  | fetchStatus (runId : RunId)
  | finalizeCancel (runId : RunId)
  | cancelWakeups (runId : RunId)

abbrev Op.Ans : Op → Type
  | .stage _ op => op.Ans
  | .create _ _ => RunId
  | .getState _ => RunState
  | .load _ => Option Json
  | .saveResult _ | .satisfyResults _ _ => Bool
  | .dueTimers | .dueJoins | .fireEvent _ => List RunId
  | .ownerOf _ => Option String
  | .fetchStatus _ => Option RunStatus
  | .setState _ _ | .appendTrace _ _ | .emit _ | .save _ _ _ | .schedule _ _ _ | .validate _
  | .requestCancel _ | .finalizeCancel _ | .cancelWakeups _ => Unit

abbrev RunSig : Sig := ⟨Op, Op.Ans, Exn⟩

/-- Await one call of a stage. -/
abbrev stageCall {σ : Type} (op : StageOp) : Act StageSig σ op.Ans := Act.await (S := StageSig) op

/-- Await one call of the driver, the collector, the poller or the operator. -/
abbrev runCall {σ : Type} (op : Op) : Act RunSig σ op.Ans := Act.await (S := RunSig) op

/-- Carry a stage's program into the driver's calls, for the run it executes for. -/
def liftStage {α : Type} (info : RunInfo) (m : Act StageSig Work α) : Act RunSig Work α := fun s =>
  (m s).lift (T := RunSig) (.stage info) fun _ r => r

/-- A message given to the broker, or held back by the guard as already sent.
`after` counts the results persisted before it. -/
structure Published where
  message : TaskMessage
  queue : String
  idempotencyKey : String
  correlationId : String
  schemaId : Option String
  sent : Bool
  after : Nat

structure World where
  runs : RunId → Option RunState := fun _ => none
  checkpoints : RunId → Option (String × Json) := fun _ => none
  results : List ResultEnvelope := []
  wakeups : List Wakeup := []
  published : List Published := []
  onceKeys : List String := []
  /-- Events the driver emitted. -/
  events : List AuditEvent := []
  /-- Events stages, the policy engine and the registry loader emitted. -/
  sideEvents : List AuditEvent := []
  traces : List (RunId × TraceEntry) := []
  /-- The waits of the approval gate that returned, as history. -/
  approvals : List (RunId × String) := []
  registry : List RegistryEntry := []
  rulesets : String → String → Option LoadedRuleset := fun _ _ => none
  clock : Int := 0

structure Deployment where
  platform : Platform
  backend : Backend := .memory

inductive FaultAt where
  | before
  | within
  | after
deriving DecidableEq, Repr

/-- What the environment decides about one call. -/
structure Choice where
  fault : Option (FaultAt × Exn) := none
  /-- A fresh id, a model's reply, an artifact's reference. -/
  text : String := ""
  approval : Except Exn Unit := .ok ()
  verdict : Except Exn Unit := .ok ()
  reply : Except Exn Json := .ok .null

namespace World

def setRun (w : World) (runId : RunId) (f : RunState → RunState) : World :=
  { w with runs := Function.update w.runs runId ((w.runs runId).map f) }

/-- The events of the entries the loader rejects. -/
def rejections (p : Platform) (signer : Signer) (registry : List RegistryEntry) : List AuditEvent :=
  (listApproved registry).filterMap fun e =>
    match verifyEntry p signer e with
    | .ok () => none
    | .error exn => some {
        tenantId := ""
        eventType := "registry_revoked"
        severity := "warning"
        envelope := [("entry_id", .str e.manifest.id)]
        details := [("reason", .str exn.message), ("rejected", .bool true)] }

/-- `publish_task`: without a guard, or the first time under the guard, the broker gets the message. -/
def publish (w : World) (info : RunInfo) (q : Publication) (record : Bool) : World :=
  let key := q.task.idempotencyKey
  let held := q.guarded && decide ("publish:" ++ key ∈ w.onceKeys)
  { w with
    published := w.published ++ [{
      message := buildTaskMessage info q.work q.task q.rulesetRef none q.schemaId
      queue := q.queue
      idempotencyKey := key
      correlationId := q.correlationId
      schemaId := q.schemaId
      sent := !held
      after := w.results.length }]
    onceKeys := if q.guarded && record && !held then w.onceKeys ++ ["publish:" ++ key] else w.onceKeys }

def stageEffect (d : Deployment) (c : Choice) (w : World) (info : RunInfo) (record : Bool) :
    (op : StageOp) → World × Except Exn op.Ans
  | .listResults stepRef => (w, .ok (ResultStore.list w.results info.runId stepRef))
  | .approvalWait reason _ _ =>
      match c.approval with
      | .ok () => ({ w with approvals := w.approvals ++ [(info.runId, reason)] }, .ok ())
      | .error e => (w, .error e)
  | .resolveQueue q delegation =>
      let told := match q.registryLoader with
        | none => w
        | some signer => { w with
            sideEvents := w.sideEvents ++ rejections d.platform signer w.registry }
      (told, q.resolveQueue d.platform w.registry delegation info)
  | .publishTask q => (w.publish info q record, .ok ())
  | .appendTrace entry => ({ w with traces := w.traces ++ [(info.runId, entry)] }, .ok ())
  | .generate _ _ _ => (w, .ok c.text)
  | .putArtifact _ _ _ => (w, .ok c.text)
  | .utcNow => (w, .ok w.clock)
  | .uuid4 => (w, .ok c.text)
  | .loadRuleset tenantId rulesetRef => (w, .ok (w.rulesets tenantId rulesetRef))
  | .emit event => ({ w with sideEvents := w.sideEvents ++ [event] }, .ok ())
  | .external _ _ => (w, c.reply)

def effect (d : Deployment) (c : Choice) (w : World) (record : Bool) :
    (op : Op) → World × Except Exn op.Ans
  | .stage info op => stageEffect d c w info record op
  | .create tenant goal =>
      match w.runs c.text with
      | some _ => (w, .error (.external "duplicate key value"))
      | none =>
          ({ w with runs := Function.update w.runs c.text (some { tenantId := tenant.tenantId, goal }) },
            .ok c.text)
  | .getState runId =>
      match w.runs runId with
      | some state => (w, .ok state)
      | none => (w, .error (.keyError ("run not found: " ++ runId)))
  | .setState runId status =>
      match d.backend, w.runs runId with
      | .memory, none => (w, .error (.keyError runId))
      | _, _ => (w.setRun runId fun s => { s with status }, .ok ())
  | .appendTrace runId entry => ({ w with traces := w.traces ++ [(runId, entry)] }, .ok ())
  | .emit event => ({ w with events := w.events ++ [event] }, .ok ())
  | .save runId label blob =>
      ({ w with checkpoints := Function.update w.checkpoints runId (some (label, blob)) }, .ok ())
  | .load runId => (w, .ok ((w.checkpoints runId).map Prod.snd))
  | .schedule runId condition gate =>
      match Waker.schedule d.platform d.backend runId condition gate w.wakeups with
      | .ok rows => ({ w with wakeups := rows }, .ok ())
      | .error e => (w, .error e)
  | .validate _ => (w, c.verdict)
  | .saveResult envelope =>
      let (rows, fresh) := ResultStore.save w.results envelope
      ({ w with results := rows }, .ok fresh)
  | .satisfyResults runId stepRef =>
      let (rows, claimed) := Waker.satisfyResults d.backend w.results runId stepRef w.wakeups
      ({ w with wakeups := rows }, .ok claimed)
  | .dueTimers =>
      let (rows, due) := Waker.dueTimers d.platform d.backend w.clock w.wakeups
      ({ w with wakeups := rows }, due)
  | .dueJoins =>
      let (rows, due) := Waker.dueJoins w.results w.wakeups
      ({ w with wakeups := rows }, .ok due)
  | .fireEvent eventKey =>
      let (rows, woken) := Waker.fireEvent eventKey w.wakeups
      ({ w with wakeups := rows }, .ok woken)
  | .ownerOf runId => (w, .ok ((w.runs runId).map RunState.tenantId))
  | .requestCancel runId => (w.setRun runId fun s => { s with cancelRequested := true }, .ok ())
  | .fetchStatus runId => (w, .ok ((w.runs runId).map RunState.status))
  | .finalizeCancel runId => (w.setRun runId fun s => { s with status := .cancelled }, .ok ())
  | .cancelWakeups runId => ({ w with wakeups := Waker.cancel d.backend runId w.wakeups }, .ok ())

/-- Stores and brokers raise errors of their own, never the run's governed outcomes. -/
def ungoverned (e : Exn) : Exn := if e.governed then .external "store failure" else e

/-- A stage's collaborators may raise anything. -/
def raised (op : Op) (e : Exn) : Exn :=
  match op with
  | .stage _ _ => e
  | _ => ungoverned e

def perform (d : Deployment) (c : Choice) (w : World) (op : Op) : World × Except Exn op.Ans :=
  match c.fault with
  | none => effect d c w true op
  | some (.before, e) => (w, .error (raised op e))
  | some (.within, e) => ((effect d c w false op).1, .error (raised op e))
  | some (.after, e) => ((effect d c w true op).1, .error (raised op e))

end World
end Maof
