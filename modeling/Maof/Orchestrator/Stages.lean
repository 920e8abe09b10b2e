import Maof.Orchestrator.ActionPlan
import Maof.Transport.Wire

/-!
# The default stages

The dialogue, the intent, the gate a plan passes and the publication of its
tasks. The stage between them that makes the plan has a module of its own.
-/

namespace Maof

open Data (Dict)
open Effects (Act Prog)

structure ChatStage where
  llm : Bool := false
  system : Option String := none

namespace ChatStage

def execute (stage : ChatStage) (info : RunInfo) : StageM Unit := do
  Act.modify fun work => { work with dialogue := work.dialogue ++ ["goal: " ++ info.goal] }
  if stage.llm then
    let reply ← stageCall (.generate info.goal stage.system none)
    Act.modify fun work => { work with dialogue := work.dialogue ++ [reply] }

end ChatStage

def chatStage (stage : ChatStage) : PipelineStage where
  name := "chat"
  execute := stage.execute

structure IntentStage where
  taskTypes : List String := []
  summary : String := ""

namespace IntentStage

def execute (stage : IntentStage) (info : RunInfo) : StageM Unit := do
  let intentId ← stageCall .uuid4
  Act.modify fun work => { work with
    intent := some { intentId, goal := info.goal, summary := stage.summary, taskTypes := stage.taskTypes } }

end IntentStage

structure ApprovalStage where
  gate : Bool := false
  hitlEnabled : Bool := true
  fallback : String := "deny"

namespace ApprovalStage

/-- A list that is empty names no roles, and stands for none. -/
def execute (stage : ApprovalStage) : StageM Unit := do
  match (← Act.get).extras.policy with
  | none => return ()
  | some policy =>
      if !policy.requireApproval then
        return ()
      else if stage.hitlEnabled && stage.gate then
        stageCall (.approvalWait policy.approvalReason policy.approvalRoles policy.approvalParties)
      else if stage.fallback = "deny" then
        Act.throw (S := StageSig) (.policyDenied ("approval required but HITL is unavailable (fail closed): " ++ policy.approvalReason))
      else
        return ()

end ApprovalStage

def approvalStage (stage : ApprovalStage) : PipelineStage where
  name := "approval"
  execute _ := stage.execute

/-- The body of a planned task that its key is derived from: all of it but the key. -/
def Task.hashed (t : Task) : Json := .obj (t.dump.filter fun field => field.1 ≠ "idempotency_key")

structure PublishStage where
  schemaRegistry : Option SchemaRegistry := none
  guarded : Bool := false
  queueResolver : String → String := fun taskType => "tasks." ++ taskType
  rulesetRef : Option String := none

namespace PublishStage

variable (p : Platform) (stage : PublishStage) (info : RunInfo)

/-- The task under its deterministic key. -/
def keyed (t : Task) : Task :=
  { t with idempotencyKey := makeIdempotencyKey p.sha256 info.runId t.taskId t.taskType t.hashed }

/-- The schema a task is checked against, where the registry knows it. -/
def schemaId (t : Task) : Option String :=
  if (stage.schemaRegistry.map fun s => s.isRegistered (t.taskType ++ ".v1")).getD false then some (t.taskType ++ ".v1") else none

def publication (work : Work) (t : Task) : Publication where
  guarded := stage.guarded
  work
  task := keyed p info t
  queue := stage.queueResolver t.taskType
  rulesetRef := stage.rulesetRef
  schemaId := stage.schemaId t
  correlationId := work.intentId.getD info.runId

def publishTasks : List Task → StageM (List String)
  | [] => return []
  | t :: tasks => do
      Act.ofExcept (S := StageSig) (SchemaRegistry.conforms p.unicode stage.schemaRegistry (t.taskType ++ ".v1") (keyed p info t).dump)
      let work ← Act.get
      stageCall (.publishTask (stage.publication p info work t))
      let published ← publishTasks tasks
      return (keyed p info t).idempotencyKey :: published

def execute : StageM Unit := do
  match (← Act.get).plan with
  | none => return ()
  | some plan =>
      let published ← stage.publishTasks p info plan.tasks
      Act.modify fun work => { work with extras := { work.extras with published := some published } }

end PublishStage

def publishStage (p : Platform) (stage : PublishStage) : PipelineStage where
  name := "publish"
  execute := stage.execute p

end Maof
