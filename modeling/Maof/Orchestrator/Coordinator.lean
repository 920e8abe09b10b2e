import Maof.Orchestrator.World
import Maof.Runs.Idempotency

/-!
# The coordinator

Routes a delegation to a worker queue or to a subagent of this process.
-/

namespace Maof

open Data (Dict)
open Effects (Act)

/-- A program of a stage. -/
abbrev StageM (α : Type) : Type := Act StageSig Work α

def subagentSystem : String :=
  "You are a subagent. Honor the delegation contract: pursue only the stated objective, respect the boundaries, and return the requested output format."

namespace QueueDispatcher

/-- `delegation.step_ref`, or a hash of the objective where there is none. -/
def stepRef (p : Platform) (d : DelegationContract) : String :=
  orElse d.stepRef (String.ofList ((p.sha256 d.objective).toList.take 16))

def stepId (p : Platform) (d : DelegationContract) (runId : RunId) : String :=
  runId ++ ":" ++ stepRef p d ++ ":" ++ d.routedType

def keyOf (p : Platform) (d : DelegationContract) (runId : RunId) : String :=
  makeIdempotencyKey p.sha256 runId (stepId p d runId) d.routedType
    (taskBody d.routedType d.objective d.payload)

def taskOf (p : Platform) (d : DelegationContract) (info : RunInfo) (work : Work) : Task where
  taskId := stepId p d info.runId
  taskType := d.routedType
  description := d.objective
  intentId := work.intentId
  idempotencyKey := keyOf p d info.runId
  stepRef := some (stepRef p d)
  payload := d.payload

def dispatchTrace (d : DelegationContract) (step : Option String) (manifest : Option AgentManifest) :
    TraceEntry where
  kind := "delegation_dispatched"
  step
  data := [("mode", .str "queue"), ("task_type", .str d.routedType), ("objective", .str d.objective)] ++
    match manifest with
    | some m => [("agent_id", .str m.id), ("agent_version", .str m.version)]
    | none => []

/-- The task is handed over with the context as it was before routing. -/
def publication (p : Platform) (q : QueueDispatcher) (d : DelegationContract) (info : RunInfo)
    (work : Work) (queue : String) : Publication where
  guarded := q.guarded
  work
  task := taskOf p d info work
  queue
  schemaId := d.acceptedSchema
  correlationId := orElse work.intentId info.runId

def dispatch (p : Platform) (q : QueueDispatcher) (d : DelegationContract) (info : RunInfo) :
    StageM SubResult := do
  let work ← Act.get
  let (queue, manifest) ← stageCall (.resolveQueue q d)
  stageCall (.publishTask (publication p q d info work queue))
  stageCall (.appendTrace (dispatchTrace d (some (stepRef p d)) manifest))
  return {
    delegationObjective := d.objective
    summary := "dispatched " ++ d.routedType ++ " to queue " ++ queue
    status := "dispatched" }

end QueueDispatcher

namespace InProcessSubagent

def joinOr (parts : List String) : String :=
  let text := "; ".intercalate parts
  if text = "" then "none" else text

def buildPrompt (d : DelegationContract) (info : RunInfo) : String :=
  "\n".intercalate [
    "Objective: " ++ d.objective,
    "Output format: " ++ d.outputFormat,
    "Boundaries: " ++ joinOr d.boundaries,
    "Tool guidance: " ++ joinOr d.toolGuidance,
    "Parent trace ref: " ++ orElse (some d.parentTraceRef) info.runId]

def subresultTrace (a : InProcessSubagent) (d : DelegationContract) : TraceEntry where
  kind := "subresult_received"
  step := d.stepRef
  data := [("mode", .str "in_process"), ("objective", .str d.objective)] ++
    match a.model with
    | some model => [("model", .str model)]
    | none => []

/-- The summary and the references of a reply: a long one goes to the artifact store. -/
def distill (a : InProcessSubagent) (result : String) : StageM (String × List String) := do
  if a.artifacts && a.summaryChars < result.length then
    let ref ← stageCall (.putArtifact "subresult.txt" result "text/plain")
    return (String.ofList (result.toList.take a.summaryChars), [ref])
  else
    return (result, [])

def dispatch (a : InProcessSubagent) (d : DelegationContract) (info : RunInfo) :
    StageM SubResult := do
  let result ← stageCall (.generate (buildPrompt d info) (some subagentSystem) d.stepRef)
  let (summary, artifacts) ← distill a result
  stageCall (.appendTrace (subresultTrace a d))
  return {
    delegationObjective := d.objective
    summary
    artifacts
    tokens := result.length / 4 }

end InProcessSubagent

namespace DefaultCoordinator

def dispatch (p : Platform) (c : DefaultCoordinator) (d : DelegationContract) (info : RunInfo) :
    StageM SubResult :=
  if orElse d.coordinationMode c.defaultMode = "queue" then
    match c.queue with
    | some q => q.dispatch p d info
    | none => Act.throw (.valueError "queue coordination requested but no QueueDispatcher configured")
  else
    match c.inProcess with
    | some a => a.dispatch d info
    | none =>
        Act.throw (.valueError "in_process coordination requested but no InProcessSubagent configured")

end DefaultCoordinator
end Maof
