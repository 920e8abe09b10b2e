import Maof.Workflows.Executor

/-!
# The L1 driver

Drives the stages in order, checkpointing after each and skipping on resume the
ones already completed. The status of the run is written at the start of a
drive and once more where the drive leaves.
-/

namespace Maof

open Effects (Act)

/-- A program of the driver, over the context of the run it drives. -/
abbrev DriverM (α : Type) : Type := Act RunSig Work α

structure OrchestrationResult where
  runId : RunId
  status : String := "completed"
  intentId : Option String := none
  plan : Option Plan := none
  summary : String := ""
  artifacts : List String := []

structure DefaultL1 where
  pipeline : List PipelineStage
  checkpointer : Bool := true
  eventSink : Bool := true
  waker : Bool := true

namespace DefaultL1

variable (l1 : DefaultL1) (info : RunInfo)

def result (work : Work) (status summary : String) (artifacts : List String) :
    OrchestrationResult where
  runId := info.runId
  status
  intentId := work.intentId
  plan := work.plan
  summary
  artifacts

def auditEvent (work : Work) (eventType : String) (details : Data.Dict String Json) : AuditEvent where
  tenantId := info.tenant.tenantId
  intentId := work.intentId
  eventType
  envelope := [("run_id", .str info.runId)]
  details
  actor := info.actor

def emit (eventType : String) (details : Data.Dict String Json) : DriverM Unit := do
  if l1.eventSink then
    let work ← Act.get
    runCall (.emit (auditEvent info work eventType details))

def setStatus (status : RunStatus) : DriverM Unit :=
  runCall (.setState info.runId status)

def cancelled : DriverM Bool := do
  let state ← runCall (.getState info.runId)
  return state.cancelRequested || decide (state.status = .cancelled)

def save (label : String) : DriverM Unit := do
  if l1.checkpointer then
    let work ← Act.get
    runCall (.save info.runId label (checkpointSerialize { info, work }))

/-- Stop before the next stage. -/
def leaveCancelled : DriverM OrchestrationResult := do
  setStatus info .cancelled
  emit l1 info "run_cancelled" []
  return result info (← Act.get) "cancelled" "run cancelled by operator" []

/-- Execute one stage and record it as completed. -/
def runStage (stage : PipelineStage) (completed : List String) : DriverM Unit := do
  match Stage.ofValue? stage.name with
  | some s => Act.modify fun work => { work with stage := s }
  | none => pure ()
  liftStage info (stage.execute info)
  Act.modify fun work => { work with extras := { work.extras with
    completedStages := some (WorkflowExecutor.sortedNames completed) } }
  save l1 info stage.name
  emit l1 info "run_checkpointed" [("step", .str stage.name)]
  runCall (.appendTrace info.runId { kind := stage.name, step := some stage.name })

/-- The stage itself, and what is written down of it. -/
def executed (stage : PipelineStage) (completed : List String) : DriverM Unit := do
  liftStage info (stage.execute info)
  Act.modify fun work => { work with extras := { work.extras with
    completedStages := some (WorkflowExecutor.sortedNames completed) } }
  save l1 info stage.name
  emit l1 info "run_checkpointed" [("step", .str stage.name)]
  runCall (.appendTrace info.runId { kind := stage.name, step := some stage.name })

theorem runStage_eq (stage : PipelineStage) (completed : List String) :
    runStage l1 info stage completed = match Stage.ofValue? stage.name with
      | some s => Act.modify (fun work => { work with stage := s }) >>= fun _ => executed l1 info stage completed
      | none => executed l1 info stage completed := by
  unfold runStage
  split
  · rfl
  · rfl

/-- The stages that are left; an answer only when the run was found cancelled. -/
def stages : List PipelineStage → List String → DriverM (Option OrchestrationResult)
  | [], _ => return none
  | stage :: rest, completed => do
      if stage.name ∈ completed then
        stages rest completed
      else if ← cancelled info then
        return some (← leaveCancelled l1 info)
      else
        runStage l1 info stage (completed ++ [stage.name])
        stages rest (completed ++ [stage.name])

/-- Checkpoint as-is, schedule the wake, and only then become `WAITING`. -/
def park (condition : WakeCondition) (gate : Option StepId) : DriverM OrchestrationResult := do
  save l1 info ("waiting:" ++ condition.kind.value)
  if l1.waker then
    runCall (.schedule info.runId condition gate)
  setStatus info .waiting
  emit l1 info "run_waiting" [("condition", .str condition.kind.value)]
  return result info (← Act.get) "waiting" ("waiting on " ++ condition.kind.value) []

def fail (status kind reason : String) : DriverM OrchestrationResult := do
  setStatus info .failed
  emit l1 info "run_failed" [("reason", .str reason), ("kind", .str kind)]
  return result info (← Act.get) status reason []

/-- What the driver makes of an exception of a stage. -/
def leave : Exn → DriverM (Option OrchestrationResult)
  | .needsWait condition gate => do return some (← park l1 info condition gate)
  | .policyDenied reason => do return some (← fail l1 info "denied" "policy_denied" reason)
  | .approvalRequired reason => do
      return some (← fail l1 info "approval_denied" "approval_denied" reason)
  | e => Act.throw e

def complete : DriverM OrchestrationResult := do
  setStatus info .completed
  emit l1 info "run_completed" []
  let work ← Act.get
  return result info work "completed" "" (work.extras.published.getD [])

/-- `_drive`. -/
def drive : DriverM OrchestrationResult := do
  let completed := ((← Act.get).extras.completedStages.getD []).dedup
  setStatus info .running
  match ← (stages l1 info l1.pipeline completed).tryCatch (leave l1 info) with
  | some out => return out
  | none => complete l1 info

/-- What a drive does from a context, as a program of its own. -/
def driveFrom (sc : StageContext) : Act RunSig Unit OrchestrationResult := fun s =>
  (drive l1 sc.info sc.work).bind fun out => .ret (out.1, s)

def emitFor (sc : StageContext) (eventType : String) (details : Data.Dict String Json) :
    Act RunSig Unit Unit := fun s =>
  (emit l1 sc.info eventType details sc.work).bind fun out => .ret (out.1, s)

def run (goal : String) (tenant : TenantContext) (principal : Option Principal) :
    Act RunSig Unit OrchestrationResult := do
  let runId ← runCall (.create tenant goal)
  let sc := StageContext.initial { runId, tenant, goal, principal }
  emitFor l1 sc "run_started" [("goal", .str goal)]
  driveFrom l1 sc

def resumeRun (runId : RunId) : Act RunSig Unit OrchestrationResult := do
  if !l1.checkpointer then
    Act.throw (.runtime "cannot resume without a checkpointer")
  else
    match ← runCall (.load runId) with
    | none => Act.throw (.keyError ("no checkpoint for run '" ++ runId ++ "'"))
    | some blob => do
        let sc ← Act.ofExcept (S := RunSig) (checkpointDeserialize blob)
        emitFor l1 sc "run_resumed" []
        driveFrom l1 sc

end DefaultL1

/-! ## The collector, the poller and the operator -/

structure ResultCollector where
  validator : Bool := false

/-- A result message: what verifying its signature and parsing its body gives. -/
structure Delivery where
  decoded : Except Exn ResultEnvelope

namespace ResultCollector

def handle (c : ResultCollector) (l1 : DefaultL1) (msg : Delivery) : Act RunSig Unit Unit := do
  let envelope ← Act.ofExcept (S := RunSig) msg.decoded
  if c.validator then
    runCall (.validate envelope)
  if ← runCall (.saveResult envelope) then
    if ← runCall (.satisfyResults envelope.runId envelope.stepRef) then
      let _ ← l1.resumeRun envelope.runId

end ResultCollector

namespace WakerPoller

/-- `due.extend(r for r in more if r not in due)`: the membership is tested as the list grows. -/
def extend (due : List RunId) : List RunId → List RunId
  | [] => due
  | r :: more => extend (if r ∈ due then due else due ++ [r]) more

theorem mem_extend {more due : List RunId} {r : RunId} : r ∈ extend due more ↔ r ∈ due ∨ r ∈ more := by
  induction more generalizing due with
  | nil => simp [extend]
  | cons x more ih =>
      rw [extend, ih, List.mem_cons]
      by_cases known : x ∈ due
      · rw [if_pos known]
        constructor
        · rintro (old | new)
          · exact .inl old
          · exact .inr (.inr new)
        · rintro (old | rfl | new)
          · exact .inl old
          · exact .inl known
          · exact .inr new
      · rw [if_neg known, List.mem_append, List.mem_singleton, or_assoc]

def resumeAll (l1 : DefaultL1) : List RunId → Act RunSig Unit Unit
  | [] => return ()
  | r :: due => do
      let _ ← l1.resumeRun r
      resumeAll l1 due

def tick (l1 : DefaultL1) : Act RunSig Unit Unit := do
  let timers ← runCall .dueTimers
  let joins ← runCall .dueJoins
  resumeAll l1 (extend timers joins)

end WakerPoller

namespace RunOps

/-- The check made of an asserted principal against the run's owner: `false` when there is no run. -/
def authorized (runId : RunId) : Option (String → Except Exn Unit) → Act RunSig Unit Bool
  | none => return true
  | some check => do
      match ← runCall (.ownerOf runId) with
      | none => return false
      | some owner =>
          Act.ofExcept (S := RunSig) (check owner)
          return true

/-- Cooperative: the flag for whoever drives the run, and the status only when nobody does. -/
def cancel (runId : RunId) (authorize : Option (String → Except Exn Unit)) : Act RunSig Unit Unit := do
  if ← authorized runId authorize then
    runCall (.requestCancel runId)
    match ← runCall (.fetchStatus runId) with
    | some .waiting | some .pending => do
        runCall (.finalizeCancel runId)
        runCall (.cancelWakeups runId)
    | _ => return ()

/-- Fire an external event; the caller resumes the runs it woke. -/
def wake (eventKey : String) (authorize : Except Exn Unit) : Act RunSig Unit (List RunId) := do
  Act.ofExcept (S := RunSig) authorize
  runCall (.fireEvent eventKey)

end RunOps
end Maof
