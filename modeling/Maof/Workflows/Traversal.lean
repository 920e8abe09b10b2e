import Maof.Workflows.Executor

/-!
# Properties of every part of the executor

A property of programs that composes, and that holds of the executor's calls,
writes and dispatches, holds of its loops.
-/

namespace Maof

open Effects (Act)

/-- A property of a stage's programs that composes, and that holds of every call but the publication of a
task. `I` is what may be relied on of the context a program looks at. -/
structure Composes (I : Work → Prop) (H : ∀ {α : Type}, StageM α → Prop) : Prop where
  pure : ∀ {α : Type} (a : α), H (pure a : StageM α)
  bind : ∀ {α β : Type} {m : StageM α} {f : α → StageM β}, H m → (∀ a, H (f a)) → H (m >>= f)
  look : ∀ {α : Type} {f : Work → StageM α}, (∀ work, I work → H (f work)) → H (Act.get >>= f)
  refuse : ∀ {α : Type} message, H (Act.throw (.valueError message) : StageM α)
  call : ∀ op : StageOp, op.publishes = false → H (stageCall op)
  note : ∀ f : WorkflowState → WorkflowState, (∀ s, (f s).dispatched = s.dispatched) →
    H (Act.modify fun work => work.setWorkflow f)

/-- A subagent of this process is asked, and nothing is written. -/
theorem Composes.subagent {I : Work → Prop} {H : ∀ {α : Type}, StageM α → Prop} (t : Composes I H) {info : RunInfo}
    {a : InProcessSubagent} {contract : DelegationContract} : H (a.dispatch contract info) := by
  have distilled : ∀ result, H (a.distill result) := by
    intro result
    unfold InProcessSubagent.distill
    split
    · exact t.bind (t.call (.putArtifact _ _ _) rfl) fun _ => t.pure _
    · exact t.pure _
  apply t.bind (t.call (.generate _ _ _) rfl)
  intro result
  apply t.bind (distilled result)
  intro kept
  exact t.bind (t.call (.appendTrace _) rfl) fun _ => t.pure _

/-- And it holds where a step is handed over and put down as dispatched. -/
structure Traversal (p : Platform) (ex : WorkflowExecutor) (d : WorkflowDefinition) (info : RunInfo) (I : Work → Prop)
    (H : ∀ {α : Type}, StageM α → Prop) : Prop extends Composes I H where
  hand : ∀ step ∈ d.steps, step.kind = .task → ex.mode step ≠ "in_process" → ∀ work, I work → H (do
    let _ ← ex.coordinator.dispatch p (WorkflowExecutor.delegation p ex d info step work) info
    Act.modify fun work => work.setWorkflow fun s => { s with dispatched := s.dispatched ++ [step.id] }
    return false)

namespace Traversal

variable {p : Platform} {ex : WorkflowExecutor} {d : WorkflowDefinition} {info : RunInfo} {I : Work → Prop}
  {H : ∀ {α : Type}, StageM α → Prop} (t : Traversal p ex d info I H)
include t

theorem refresh (steps : List WorkflowStep) : H (WorkflowExecutor.refresh steps) := by
  induction steps with
  | nil => exact t.pure ()
  | cons step steps ih =>
      apply t.look
      intro work _
      split
      · exact ih
      · apply t.bind (t.call (.listResults step.id) rfl)
        intro found
        cases found with
        | nil => exact ih
        | cons first _ => exact t.bind (t.note _ fun _ => rfl) fun _ => ih

theorem approve {step : WorkflowStep} : H (WorkflowExecutor.approve ex d step) := by
  unfold WorkflowExecutor.approve
  cases step.approval with
  | none => exact t.pure ()
  | some spec =>
      have granted : H (Act.modify fun work => work.setWorkflow fun s => { s with approved := s.approved ++ [step.id] } :
          StageM Unit) := t.note _ fun _ => rfl
      apply t.look
      intro work _
      split
      · split
        · exact t.bind (t.call (.approvalWait _ _ _) rfl) fun _ => granted
        · exact granted
      · exact t.pure _

theorem runTask {step : WorkflowStep} (member : step ∈ d.steps) (kind : step.kind = .task) :
    H (WorkflowExecutor.runTask p ex d info step) := by
  apply t.bind t.approve
  intro _
  apply t.look
  intro work holds
  simp only
  split
  · next inside =>
      have asked : H (ex.coordinator.dispatch p (WorkflowExecutor.delegation p ex d info step work) info) := by
        unfold DefaultCoordinator.dispatch
        split
        · next queued =>
            simp only [WorkflowExecutor.delegation, inside, orElse, if_neg (show ¬ "in_process" = "" by decide)] at queued
            exact absurd queued (by decide)
        · split
          · exact t.toComposes.subagent
          · exact t.refuse _
      apply t.bind asked
      intro sub
      exact t.bind (t.note _ fun _ => rfl) fun _ => t.pure true
  · next outside =>
      split
      · exact t.hand step member kind outside work holds
      · exact t.pure false

theorem visit {step : WorkflowStep} (member : step ∈ d.steps) {gate : Option WorkflowStep} :
    H (WorkflowExecutor.visit p ex d info step gate) := by
  apply t.look
  intro work _
  simp only
  split
  · exact t.pure _
  · split
    · split
      · exact t.bind (t.note _ fun _ => rfl) fun _ => t.pure _
      · exact t.pure _
    · next task => exact t.bind (t.runTask member task) fun _ => t.pure _

theorem pass {steps : List WorkflowStep} (within : ∀ step ∈ steps, step ∈ d.steps) {gate : Option WorkflowStep}
    {progressed : Bool} : H (WorkflowExecutor.pass p ex d info steps gate progressed) := by
  induction steps generalizing gate progressed with
  | nil => exact t.pure _
  | cons step steps ih =>
      apply t.bind (t.visit (within step List.mem_cons_self))
      intro out
      exact ih fun s inside => within s (List.mem_cons_of_mem _ inside)

theorem rounds {fuel : Nat} {gate : Option WorkflowStep} : H (WorkflowExecutor.rounds p ex d info fuel gate) := by
  induction fuel generalizing gate with
  | zero => exact t.pure _
  | succ fuel ih =>
      apply t.bind (t.pass fun _ => id)
      intro out
      obtain ⟨gate, progressed⟩ := out
      cases progressed with
      | true => exact ih
      | false => exact t.pure gate

section whole

variable (throws : ∀ {α : Type} e, H (Act.throw e : StageM α))
  (finished : ∀ steps : Work → Option (List String),
    H (Act.modify fun work => { work with extras := { work.extras with workflowCompleted := steps work } }))
include throws

theorem reads {α : Type} (r : Except Exn α) : H (Act.ofExcept r : StageM α) := by
  cases r with
  | ok a => exact t.pure a
  | error e => exact throws e

theorem gateCondition {step : WorkflowStep} : H (WorkflowExecutor.gateCondition p info step) := by
  apply t.look
  intro work _
  simp only
  split
  · exact t.pure _
  · split
    · apply t.bind (t.reads throws _)
      intro delay
      apply t.bind (t.call .utcNow rfl)
      intro now
      exact t.bind (t.reads throws _) fun _ => t.pure _
    · exact t.pure _

include finished

theorem settle : H (WorkflowExecutor.settle p d) := by
  apply t.look
  intro work _
  simp only
  split
  · exact finished _
  · split
    · exact throws _
    · exact throws _

theorem run : H (WorkflowExecutor.run p ex d info) := by
  apply t.bind (t.note id fun _ => rfl)
  intro _
  apply t.bind (t.refresh d.steps)
  intro _
  apply t.bind t.rounds
  intro gate
  cases gate with
  | none => exact t.settle throws finished
  | some gate =>
      simp only
      have waited : H (Act.modify fun work => work.setWorkflow fun s => { s with gatesWaited := s.gatesWaited ++ [gate.id] } :
          StageM Unit) := t.note _ fun _ => rfl
      apply t.bind waited
      intro _
      exact t.bind (t.gateCondition throws) fun _ => throws _

end whole

end Traversal

/-- The stage: the entries of its own context are written, and then the executor runs. -/
theorem Traversal.stage {p : Platform} {ex : WorkflowExecutor} {d : WorkflowDefinition} {info : RunInfo} {I : Work → Prop}
    {H : ∀ {α : Type}, StageM α → Prop} (t : Traversal p ex d info I H) (ran : H (WorkflowExecutor.run p ex d info))
    {extra : Data.Dict String Json} (context : H (Act.modify fun work => { work with extras := { work.extras with
      workflowContext := some (Data.Dict.update (work.extras.workflowContext.getD []) extra) } })) :
    H ((workflowStage p ex d extra).execute info) := by
  simp only [workflowStage]
  split
  · exact t.bind context fun _ => ran
  · exact ran

end Maof
