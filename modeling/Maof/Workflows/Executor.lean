import Maof.Orchestrator.Coordinator
import Maof.Workflows.Definition

/-!
# The workflow executor

Every invocation takes up the run where its workflow state left it: finished
queue steps are read from the result store, ready steps are dispatched, and an
unmet join or gate parks the run. A step is completed exactly when its output
is recorded.
-/

namespace Maof

open Data (Dict)
open Effects (Act)

structure WorkflowExecutor where
  coordinator : DefaultCoordinator
  defaultMode : String := "queue"
  approvalGate : Bool := false

/-- The workflow state, as it is before the first invocation where there is none. -/
def Work.workflow (work : Work) : WorkflowState := work.extras.workflow.getD {}

def Work.setWorkflow (work : Work) (f : WorkflowState → WorkflowState) : Work :=
  { work with extras := { work.extras with workflow := some (f work.workflow) } }

def WorkflowState.completed (s : WorkflowState) (id : StepId) : Bool := (Dict.get s.outputs id).isSome

def WorkflowState.putOutput (id : StepId) (output : Dict String Json) (s : WorkflowState) :
    WorkflowState :=
  { s with outputs := Dict.set s.outputs id output }

namespace WorkflowExecutor

variable (p : Platform) (ex : WorkflowExecutor) (d : WorkflowDefinition) (info : RunInfo)

/-- What templates read as `context`: the goal, the envelope's flags, the stage's own entries. -/
def context (work : Work) : Dict String Json :=
  let flags := ((work.envelope.map ContextEnvelope.policyFlags).getD []).map fun kv => (kv.1, Json.str kv.2)
  Dict.update (Dict.update [("goal", .str info.goal)] flags) (work.extras.workflowContext.getD [])

def bound (step : WorkflowStep) (work : Work) : Dict String Json :=
  Template.bindFields p.unicode (context info work) work.workflow.outputs step.input

def mode (step : WorkflowStep) : String := orElse step.coordinationMode ex.defaultMode

def objective (step : WorkflowStep) : String :=
  "workflow " ++ d.name ++ " v" ++ toString d.version ++ " step " ++ step.id

def delegation (step : WorkflowStep) (work : Work) : DelegationContract where
  objective := objective d step
  outputFormat := match step.taskType with
    | some t => if t = "" then "text" else t ++ ".result.v1"
    | none => "text"
  boundaries := ["execute only step " ++ step.id ++ " of workflow " ++ d.name]
  coordinationMode := some (mode ex step)
  taskType := step.taskType
  stepRef := some step.id
  payload := bound p info step work
  pins := step.pins
  agent := step.agent

/-- Refresh queue-step completions from the result store. -/
def refresh : List WorkflowStep → StageM Unit
  | [] => return ()
  | step :: steps => do
      if (← Act.get).workflow.completed step.id then
        refresh steps
      else
        match ← stageCall (.listResults step.id) with
        | [] => refresh steps
        | first :: _ =>
            Act.modify fun work => work.setWorkflow (.putOutput step.id first.result.output)
            refresh steps

/-- The step's own approval, asked for once. -/
def approve (step : WorkflowStep) : StageM Unit := do
  match step.approval with
  | none => return ()
  | some spec =>
      if spec.required && decide (step.id ∉ (← Act.get).workflow.approved) then
        if ex.approvalGate then
          stageCall
            (.approvalWait ("workflow " ++ d.name ++ " step " ++ step.id) spec.roles spec.parties)
        Act.modify fun work => work.setWorkflow fun s => { s with approved := s.approved ++ [step.id] }

def subOutput (sub : SubResult) : Dict String Json :=
  [("summary", .str sub.summary), ("artifacts", .strs sub.artifacts)]

/-- A ready task step: the answer tells whether it was completed on the spot. -/
def runTask (step : WorkflowStep) : StageM Bool := do
  approve ex d step
  let work ← Act.get
  let contract := delegation p ex d info step work
  if mode ex step = "in_process" then
    let sub ← ex.coordinator.dispatch p contract info
    Act.modify fun work => work.setWorkflow (.putOutput step.id (subOutput sub))
    return true
  else if step.id ∉ work.workflow.dispatched then
    let _ ← ex.coordinator.dispatch p contract info
    Act.modify fun work => work.setWorkflow fun s => { s with dispatched := s.dispatched ++ [step.id] }
    return false
  else
    return false

/-- One look at one step: the gate to park on so far, and whether a step was completed. -/
def visit (step : WorkflowStep) (gate : Option WorkflowStep) :
    StageM (Option WorkflowStep × Bool) := do
  let state := (← Act.get).workflow
  if state.completed step.id || step.dependsOn.any (fun dep => !state.completed dep) then
    return (gate, false)
  else match step.kind with
    | .gate =>
        if step.id ∈ state.gatesWaited then
          Act.modify fun work => work.setWorkflow (.putOutput step.id [("gate", .str "passed")])
          return (gate, true)
        else
          return (some (gate.getD step), false)
    | .task => do
        let done ← runTask p ex d info step
        return (gate, done)

def pass : List WorkflowStep → Option WorkflowStep → Bool → StageM (Option WorkflowStep × Bool)
  | [], gate, progressed => return (gate, progressed)
  | step :: steps, gate, progressed => do
      let (gate, done) ← visit p ex d info step gate
      pass steps gate (progressed || done)

/-- `while progressed`: a pass that progressed completed a step, so no more
passes are made than there are steps and one. -/
def rounds : Nat → Option WorkflowStep → StageM (Option WorkflowStep)
  | 0, gate => return gate
  | fuel + 1, gate => do
      let (gate, progressed) ← pass p ex d info d.steps gate false
      if progressed then rounds fuel gate else return gate

/-- `_gate_condition`. -/
def gateCondition (step : WorkflowStep) : StageM WakeCondition := do
  let spec := Json.obj (bound p info step (← Act.get))
  let member (key : String) : Json := (spec.get? key).getD .null
  let text (value : Json) : String := String.ofList (Template.pyStr p.unicode value)
  if Json.pyEq (member "wait") (.str "external_event") then
    let key := member "event_key"
    return {
      kind := .externalEvent
      eventKey := some (if key.truthy then text key else info.runId ++ ":" ++ step.id) }
  else match member "at" with
    | .null =>
        let delay ← Act.ofExcept (S := StageSig) (p.float ((spec.get? "delay_s").getD (.int 0)))
        let now ← stageCall .utcNow
        let wakeAt ← Act.ofExcept (S := StageSig) (p.later now delay)
        return { kind := .timer, wakeAt := some wakeAt }
    | value => return { kind := .timer, wakeAt := some (text value) }

def stalled (pending : List WorkflowStep) : Exn :=
  .maof ("workflow " ++ Template.reprText p.unicode (.str d.name) ++ " stalled: pending steps " ++
    Template.reprText p.unicode (.strs (pending.map WorkflowStep.id)) ++
    " are neither ready nor dispatched")

/-- A set of names as the source writes it down. -/
def sortedNames (names : List String) : List String := names.insertionSort (· ≤ ·)

/-- What is left when no gate is to be waited for: park on one outstanding join, or finish. -/
def settle : StageM Unit := do
  let state := (← Act.get).workflow
  match d.steps.filter fun s => !state.completed s.id with
  | [] =>
      Act.modify fun work => { work with extras := { work.extras with
        workflowCompleted := some (sortedNames (Dict.keys work.workflow.outputs)) } }
  | first :: rest =>
      match (first :: rest).find? fun s => s.id ∈ state.dispatched with
      | none => Act.throw (S := StageSig) (stalled p d (first :: rest))
      | some waiting =>
          Act.throw (S := StageSig)
            (.needsWait { kind := .resultsReady, stepRef := some waiting.id, expected := 1 } none)

def run : StageM Unit := do
  Act.modify fun work => work.setWorkflow id
  refresh d.steps
  match ← rounds p ex d info (d.steps.length + 1) none with
  | some gate =>
      Act.modify fun work => work.setWorkflow fun s => { s with gatesWaited := s.gatesWaited ++ [gate.id] }
      let condition ← gateCondition p info gate
      Act.throw (S := StageSig) (.needsWait condition (some gate.id))
  | none => settle p d

end WorkflowExecutor

/-- A pipeline step. -/
structure PipelineStage where
  name : String
  execute : RunInfo → StageM Unit

/-- Pipeline adapter: run a workflow as a stage. -/
def workflowStage (p : Platform) (ex : WorkflowExecutor) (d : WorkflowDefinition)
    (extra : Dict String Json) : PipelineStage where
  name := "workflow"
  execute info := do
    if !extra.isEmpty then
      Act.modify fun work => { work with extras := { work.extras with
        workflowContext := some (Dict.update (work.extras.workflowContext.getD []) extra) } }
    WorkflowExecutor.run p ex d info

end Maof
