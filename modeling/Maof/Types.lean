import Maof.Data.Json

/-!
# Canonical data contracts

The carriers and wire shapes the orchestrator reads and writes. Timestamps are
left out where nothing modelled reads one back.
-/

namespace Maof

open Data (Dict)

abbrev RunId := String
abbrev StepId := String
abbrev Bytes := List UInt8

/-- The results of finished steps, each a JSON dictionary. -/
abbrev Outputs := Dict StepId (Dict String Json)

inductive Stage where
  | chat
  | intentSynthesis
  | actionPlan
  | approval
  | publish
deriving DecidableEq, Repr

namespace Stage

def value : Stage → String
  | .chat => "chat"
  | .intentSynthesis => "intent_synthesis"
  | .actionPlan => "action_plan"
  | .approval => "approval"
  | .publish => "publish"

/-- `Stage(name)` where `name in _STAGE_VALUES`. -/
def ofValue? : String → Option Stage
  | "chat" => some .chat
  | "intent_synthesis" => some .intentSynthesis
  | "action_plan" => some .actionPlan
  | "approval" => some .approval
  | "publish" => some .publish
  | _ => none

theorem ofValue?_value (s : Stage) : ofValue? s.value = some s := by
  cases s <;> rfl

end Stage

inductive RunStatus where
  | pending
  | running
  | awaitingApproval
  | checkpointed
  | waiting
  | completed
  | failed
  | cancelled
  | resuming
deriving DecidableEq, Repr

def RunStatus.value : RunStatus → String
  | .pending => "pending"
  | .running => "running"
  | .awaitingApproval => "awaiting_approval"
  | .checkpointed => "checkpointed"
  | .waiting => "waiting"
  | .completed => "completed"
  | .failed => "failed"
  | .cancelled => "cancelled"
  | .resuming => "resuming"

/-- Completed, failed or cancelled. -/
def RunStatus.terminal : RunStatus → Bool
  | .completed | .failed | .cancelled => true
  | _ => false

structure TenantContext where
  tenantId : String
  multiTenant : Bool := true
  attributes : Dict String String := []
deriving DecidableEq, Repr

structure ToolRef where
  name : String
  version : String := "v1"
  scope : String := "tenant"
  rbac : Option String := none
  params : Dict String Json := []

structure DataPointer where
  aliasName : String
  uri : String
  note : String := ""
deriving DecidableEq, Repr

/-- A memory item; the score and the vector are the store's. -/
structure MemorySnippet where
  kind : String
  content : String
  prov : String := ""
  score : PyFloat := .zero
  embedding : Option (List PyFloat) := none
deriving DecidableEq, Repr

structure Intent where
  intentId : String
  goal : String
  summary : String := ""
  taskTypes : List String := []
  details : Dict String Json := []

structure ContextEnvelope where
  version : String := "1"
  runId : RunId
  tenantId : String
  intentId : Option String := none
  stage : Stage
  timestamp : String := ""
  goal : String := ""
  policyFlags : Dict String String := []
  semanticModel : Dict String Json := []
  toolset : List ToolRef := []
  dataPointers : List DataPointer := []
  memories : List MemorySnippet := []
  constraintsRef : Option String := none
  dialogue : List String := []
  extras : Dict String Json := []

structure Task where
  taskId : String
  taskType : String
  priority : Int := 5
  description : String
  intentId : Option String := none
  policyNotes : List String := []
  idempotencyKey : String
  stepRef : Option String := none
  replyTo : Option String := none
  payload : Dict String Json := []

structure Plan where
  tasks : List Task := []
  taskTypes : List String := []
  notes : List String := []

structure TaskResult where
  status : String
  taskId : String
  output : Dict String Json := []
  artifacts : List String := []
  error : Option String := none
  idempotencyKey : Option String := none
  runId : Option String := none
  stepRef : Option String := none

structure DecisionTrace where
  ruleId : String
  rulesetRef : String
  version : Int
  stage : String
  actions : List String := []
  matched : Bool := true
  detail : String := ""

/-- The outcome of a policy hook. -/
structure RuleDecision where
  requireApproval : Bool := false
  approvalReason : String := ""
  approvalRoles : List String := []
  approvalParties : Int := 1
  denied : Bool := false
  denialReason : String := ""
  addedNudges : List String := []
  trace : List DecisionTrace := []

structure Rule where
  ruleId : String
  rulesetRef : String
  version : Int
  priority : Int := 100
  stage : String := "*"
  enabled : Bool := true
  when_ : Dict String Json := []
  actions : List (Dict String Json) := []
  description : String := ""

structure LoadedRuleset where
  rulesetRef : String
  version : Int
  rules : List Rule := []
  canaryPct : PyFloat := .zero

structure RunState where
  tenantId : String
  goal : String
  status : RunStatus := .pending
  cancelRequested : Bool := false
deriving DecidableEq, Repr

structure TraceEntry where
  kind : String
  step : Option String := none
  data : Dict String Json := []

structure SubResult where
  delegationObjective : String
  summary : String
  artifacts : List String := []
  status : String := "ok"
  tokens : Nat := 0

/-- The actor a run executes for. -/
structure Principal where
  id : String
  kind : String := "user"
  org : String := ""
  roles : List String := []
  scopes : List String := []
deriving DecidableEq, Repr

def Principal.asActor (p : Principal) : Json :=
  .obj [("id", .str p.id), ("kind", .str p.kind), ("org", .str p.org),
    ("roles", .strs p.roles), ("scopes", .strs p.scopes)]

/-! ## `model_dump` of the models a run hashes, matches or ships -/

def Intent.dump (i : Intent) : Dict String Json :=
  [("intent_id", .str i.intentId), ("goal", .str i.goal), ("summary", .str i.summary),
    ("task_types", .strs i.taskTypes), ("details", .obj i.details)]

def Task.dump (t : Task) : Dict String Json :=
  [("task_id", .str t.taskId), ("task_type", .str t.taskType), ("priority", .int t.priority),
    ("description", .str t.description), ("intent_id", .ofStr? t.intentId),
    ("policy_notes", .strs t.policyNotes), ("idempotency_key", .str t.idempotencyKey),
    ("step_ref", .ofStr? t.stepRef), ("reply_to", .ofStr? t.replyTo), ("payload", .obj t.payload)]

def Plan.dump (p : Plan) : Dict String Json :=
  [("tasks", .arr (p.tasks.map fun t => .obj t.dump)), ("task_types", .strs p.taskTypes),
    ("notes", .strs p.notes)]

/-! ## The context a run carries through its stages -/

/-- `extras["workflow"]`. -/
structure WorkflowState where
  dispatched : List StepId := []
  approved : List StepId := []
  outputs : Outputs := []
  gatesWaited : List StepId := []

/-- `extras["policy"]`, what the action-plan stage hands to the approval stage. -/
structure PolicyRecord where
  denied : Bool := false
  denialReason : String := ""
  requireApproval : Bool := false
  approvalReason : String := ""
  approvalRoles : List String := []
  approvalParties : Int := 1
  nudges : List String := []

/-- The entries of `extras` the orchestrator itself writes. -/
def reservedExtras : List String :=
  ["completed_stages", "workflow", "workflow_context", "workflow_completed", "published", "policy"]

/-- `extras`: the orchestrator's own entries, and in `other` whatever adopters keep beside them. -/
structure Extras where
  completedStages : Option (List String) := none
  workflow : Option WorkflowState := none
  workflowContext : Option (Dict String Json) := none
  workflowCompleted : Option (List String) := none
  published : Option (List String) := none
  policy : Option PolicyRecord := none
  other : Dict String Json := []
  free : ∀ k ∈ Dict.keys other, k ∉ reservedExtras := by decide

def Extras.none : Extras := {}

/-- The part of a stage context the driver sets once for a drive. -/
structure RunInfo where
  runId : RunId
  tenant : TenantContext
  goal : String
  principal : Option Principal := none
deriving DecidableEq, Repr

/-- The part of a stage context that stages rewrite. -/
structure Work where
  stage : Stage := .chat
  dialogue : List String := []
  intent : Option Intent := none
  envelope : Option ContextEnvelope := none
  plan : Option Plan := none
  policyDecisions : List DecisionTrace := []
  mode : String := "sandbox"
  region : String := "us-east-1"
  traceRef : Option String := none
  extras : Extras := {}

structure StageContext where
  info : RunInfo
  work : Work := {}

/-- The context a run starts with. -/
def StageContext.initial (info : RunInfo) : StageContext := { info }

def RunInfo.actor (info : RunInfo) : Option Json := info.principal.map Principal.asActor

def Work.intentId (work : Work) : Option String := work.intent.map Intent.intentId

end Maof
