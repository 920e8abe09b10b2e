import Maof.Orchestrator.Wakeups
import Maof.Workflows.Invocation

/-!
# Gates

The executor takes a gate it finds in `gates_waited` for passed: what it relies
on is that a run is resumed from a checkpoint only after the wakeups of the
gates waited for in it have fired.
-/

namespace Maof

open Effects (Act Prog Contract Machine Pool Proc Label)

def WorkflowDefinition.isGate (d : WorkflowDefinition) (id : StepId) : Bool :=
  d.steps.any fun s => decide (s.id = id) && decide (s.kind = .gate)

namespace World

/-- The wakeup scheduled for the gate has fired. -/
def fired (w : World) (r : RunId) (gate : StepId) : Bool :=
  w.wakeups.any fun row => decide (row.runId = r) && decide (row.gate = some gate) &&
    decide (row.status = .fired)

/-- Every gate waited for in the run's checkpoint has been passed or may be. -/
def waitsOver (w : World) (r : RunId) : Bool :=
  match w.checkpoints r with
  | none => true
  | some (_, blob) => match checkpointDeserialize blob with
      | .error _ => true
      | .ok sc => sc.work.workflow.gatesWaited.all fun g => sc.work.workflow.completed g || w.fired r g

end World

namespace Waker

variable {p : Platform} {b : Backend} {row : Wakeup} {rows : List Wakeup}

end Waker

namespace World

variable {d : Deployment} {c : Choice} {w : World} {op : Op} {r : RunId} {g : StepId}

end World

open World

/-- Every gate passed in this context has fired. -/
def Passed (d : WorkflowDefinition) (r : RunId) (work : Work) (w : World) : Prop :=
  ∀ g, d.isGate g = true → work.workflow.completed g = true → w.fired r g = true

/-- Where a stage starts, so has every gate waited for. -/
def Entered (d : WorkflowDefinition) (r : RunId) (work : Work) (w : World) : Prop :=
  Passed d r work w ∧ ∀ g ∈ work.workflow.gatesWaited, d.isGate g = true → w.fired r g = true

/-- The condition on a call: a checkpoint is loaded once its waits are over, and no
result names a gate. -/
def gated (d : WorkflowDefinition) (w : World) (op : Op) (c : Choice) : Bool :=
  match op with
  | .load r => c.fault.isSome || w.waitsOver r
  | .saveResult e => !d.isGate e.stepRef
  | _ => true

/-- Gates passed in a checkpoint have fired, and fired wakeups stay fired. -/
def gateContract (dep : Deployment) (d : WorkflowDefinition) : Contract RunSig World where
  sem w op w' r := ∃ c, gated d w op c = true ∧ perform dep c w op = (w', r)
  valid w := (∀ e ∈ w.results, d.isGate e.stepRef = false) ∧
    ∀ r label blob, w.checkpoints r = some (label, blob) →
      ∃ sc, checkpointDeserialize blob = .ok sc ∧ sc.info.runId = r ∧ Passed d r sc.work w
  rely w w' := ∀ r g, w.fired r g = true → w'.fired r g = true
  guar w w' := ∀ r g, w.fired r g = true → w'.fired r g = true
  refl _ _ _ := id
  trans first second r g h := second r g (first r g h)

section calls

variable {dep : Deployment} {d : WorkflowDefinition} {r : RunId} {w w' : World}

theorem Passed.mono {work : Work} (h : Passed d r work w)
    (later : ∀ r g, w.fired r g = true → w'.fired r g = true) : Passed d r work w' :=
  fun g gate passed => later r g (h g gate passed)

theorem Entered.mono {work : Work} (h : Entered d r work w)
    (later : ∀ r g, w.fired r g = true → w'.fired r g = true) : Entered d r work w' :=
  ⟨h.1.mono later, fun g waited gate => later r g (h.2 g waited gate)⟩

theorem passed_stable (work : Work) : (gateContract dep d).Stable (Passed d r work) :=
  fun _ _ h moved _ => h.mono moved

theorem entered_stable (work : Work) : (gateContract dep d).Stable (Entered d r work) :=
  fun _ _ h moved _ => h.mono moved

end calls

section executor

variable {dep : Deployment} {p : Platform} {ex : WorkflowExecutor} {d : WorkflowDefinition} {info : RunInfo}
  {completed : List String}

theorem workflow_setWorkflow (work : Work) (f : WorkflowState → WorkflowState) :
    (work.setWorkflow f).workflow = f work.workflow := rfl

theorem completed_putOutput (s : WorkflowState) (id : StepId) (output : Data.Dict String Json) (g : StepId) :
    (s.putOutput id output).completed g = true ↔ g = id ∨ s.completed g = true := by
  simp only [WorkflowState.completed, WorkflowState.putOutput, Data.Dict.get_set]
  by_cases same : id = g
  · simp [same]
  · simp [same, Ne.symm same]

/-- A step that is no gate is completed. -/
theorem Entered.put {r : RunId} {work : Work} {w : World} (entered : Entered d r work w) {id : StepId}
    (plain : d.isGate id = false) (output : Data.Dict String Json) :
    Entered d r (work.setWorkflow (.putOutput id output)) w := by
  refine ⟨fun g gate done => ?_, entered.2⟩
  rw [workflow_setWorkflow, completed_putOutput] at done
  rcases done with rfl | old
  · rw [gate] at plain
    cases plain
  · exact entered.1 g gate old

end executor

namespace Orchestrator

variable (o : Orchestrator)

/-- The orchestrator with no history kept beside its processes. -/
def untracked : Machine RunSig World Choice Actor EnvMove Unit := o.machine (fun _ => ()) fun _ _ _ => ()

variable {o}

end Orchestrator

namespace Sample

end Sample

end Maof
