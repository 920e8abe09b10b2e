import Maof.Orchestrator.Drive
import Maof.Workflows.Executor

/-!
# What an invocation of the executor keeps

The executor's loop is the same for every argument about it. What an argument
adds is what the refreshing of results and the running of a task do, and what
passing a gate or parking on one writes.
-/

namespace Maof

open Effects (Act Prog Contract)

variable {W : Type} {C : Contract RunSig W} {rule : DriveRule C} {p : Platform} {ex : WorkflowExecutor}
  {d : WorkflowDefinition} {info : RunInfo} {completed : List String}

/-- What a stage's program leaves of an argument: it holds again after an answer. -/
def DriveRule.Leaves (rule : DriveRule C) (info : RunInfo) (completed : List String) {α : Type} (m : StageM α)
    (work : Work) (w : W) : Prop :=
  m.Safe (C.pull (S := StageSig) (.stage info) fun _ r => r)
    (Act.Outcome (fun _ => rule.entered info completed) (rule.passed info)) work w

/-- The calls the dispatch of a delegation is made of. -/
def Dispatching (p : Platform) (contract : DelegationContract) (info : RunInfo) : StageOp → Prop
  | .resolveQueue _ asked => asked = contract
  | .publishTask q => q.task = QueueDispatcher.taskOf p contract info q.work
  | .generate _ _ step => step = contract.stepRef
  | .appendTrace _ | .putArtifact _ _ _ => True
  | _ => False

/-- The call that dispatches the step: the routing and the publication of its task, or the
subagent's prompt. -/
def Dispatches (d : WorkflowDefinition) (step : WorkflowStep) : StageOp → Prop
  | .resolveQueue _ contract => contract.stepRef = some step.id
  | .publishTask q => q.task.description = WorkflowExecutor.objective d step
  | .generate _ _ asked => asked = some step.id
  | _ => False

/-- An objective names its step. -/
theorem objective_injective {step other : WorkflowStep}
    (same : WorkflowExecutor.objective d step = WorkflowExecutor.objective d other) : step.id = other.id := by
  have chars := congrArg String.toList same
  simp only [WorkflowExecutor.objective, String.toList_append] at chars
  exact String.ext (List.append_cancel_left chars)

/-- The calls that dispatch a step's delegation dispatch no other step. -/
theorem dispatching_step {op : StageOp} {step other : WorkflowStep} {work : Work}
    (calls : Dispatching p (WorkflowExecutor.delegation p ex d info step work) info op)
    (dispatched : Dispatches d other op) : other.id = step.id := by
  cases op with
  | resolveQueue q contract =>
      cases calls
      exact (Option.some.inj dispatched).symm
  | publishTask q =>
      refine (objective_injective (d := d) ?_).symm
      simp only [Dispatches] at dispatched
      rw [← dispatched, calls]
      rfl
  | generate prompt system asked =>
      cases calls
      exact (Option.some.inj dispatched).symm
  | _ => cases dispatched

theorem dispatch_uses (c : DefaultCoordinator) (contract : DelegationContract) :
    (c.dispatch p contract info).Uses (Dispatching p contract info) := by
  unfold DefaultCoordinator.dispatch
  split
  · split
    · unfold QueueDispatcher.dispatch
      exact Act.uses_get_bind fun s => Act.uses_bind (Act.uses_await rfl) fun _ =>
        Act.uses_bind (Act.uses_await rfl) fun _ => Act.uses_bind (Act.uses_await trivial) fun _ => Act.uses_pure _
    · exact Act.uses_throw _
  · split
    · unfold InProcessSubagent.dispatch
      refine Act.uses_bind (Act.uses_await rfl) fun reply => Act.uses_bind ?_ fun _ =>
        Act.uses_bind (Act.uses_await trivial) fun _ => Act.uses_pure _
      unfold InProcessSubagent.distill
      split
      · exact Act.uses_bind (Act.uses_await trivial) fun _ => Act.uses_pure _
      · exact Act.uses_pure _
    · exact Act.uses_throw _

theorem dispatch_reads (c : DefaultCoordinator) (contract : DelegationContract) :
    (c.dispatch p contract info).Reads := by
  unfold DefaultCoordinator.dispatch
  split
  · split
    · exact Act.reads_get_bind fun s => Act.reads_bind (Act.reads_await _) fun _ =>
        Act.reads_bind (Act.reads_await _) fun _ => Act.reads_bind (Act.reads_await _) fun _ => Act.reads_pure _
    · exact Act.reads_throw _
  · split
    · refine Act.reads_bind (Act.reads_await _) fun reply => Act.reads_bind ?_ fun _ =>
        Act.reads_bind (Act.reads_await _) fun _ => Act.reads_pure _
      unfold InProcessSubagent.distill
      split
      · exact Act.reads_bind (Act.reads_await _) fun _ => Act.reads_pure _
      · exact Act.reads_pure _
    · exact Act.reads_throw _

/-- What is owed of an argument about the executor: the calls and writes its loop is made of. -/
structure Invocation (rule : DriveRule C) (p : Platform) (ex : WorkflowExecutor) (d : WorkflowDefinition) : Prop where
  started : ∀ {info completed work w}, rule.entered info completed work w →
    rule.entered info completed (work.setWorkflow id) w
  listed : ∀ {info completed work w w' step} {r : Except Exn (List ResultEnvelope)}, step ∈ d.steps → C.valid w →
    rule.entered info completed work w → work.workflow.completed step.id = false →
    C.sem w (.stage info (.listResults step.id)) w' r → C.valid w' ∧ C.guar w w' ∧ ∀ first rest,
      r = .ok (first :: rest) →
      rule.entered info completed (work.setWorkflow (.putOutput step.id first.result.output)) w'
  task : ∀ {info completed work w step}, C.valid w → rule.entered info completed work w → step ∈ d.steps →
    step.kind = .task → (∀ dep ∈ step.dependsOn, work.workflow.completed dep = true) →
    rule.Leaves info completed (WorkflowExecutor.runTask p ex d info step) work w
  gate : ∀ {info completed work w step}, rule.entered info completed work w → step ∈ d.steps → step.kind = .gate →
    step.id ∈ work.workflow.gatesWaited →
    rule.entered info completed (work.setWorkflow (.putOutput step.id [("gate", .str "passed")])) w
  parked : ∀ {info completed work w} (gate : StepId), rule.entered info completed work w →
    rule.passed info (work.setWorkflow fun s => { s with gatesWaited := s.gatesWaited ++ [gate] }) w
  clock : ∀ {info w w' r}, C.valid w → C.sem w (.stage info .utcNow) w' r → C.valid w' ∧ C.guar w w'
  settled : ∀ {info completed work w} (steps : List String), rule.entered info completed work w →
    (∀ step ∈ d.steps, work.workflow.completed step.id = true) → rule.entered info (completed ++ ["workflow"])
      { work with extras := { work.extras with workflowCompleted := some steps } } w

section stage

theorem entered_stays (work : Work) :
    (C.pull (S := StageSig) (.stage info) fun _ r => r).Stable (rule.entered info completed work) :=
  rule.laws.entered_stable info completed work

theorem passed_stays (work : Work) :
    (C.pull (S := StageSig) (.stage info) fun _ r => r).Stable (rule.passed info work) :=
  rule.laws.passed_stable info work

theorem body_pure {α : Type} (a : α) : rule.Body info completed (pure a : StageM α) := Act.keeps_pure entered_stays

/-- What holds where a delegation is dispatched holds where it was, its calls permitting. -/
theorem dispatch_safe (rule : DriveRule C) {c : DefaultCoordinator} {contract : DelegationContract} {work : Work}
    {w : W} {P : W → Prop} (stable : C.Stable P) (calls : ∀ {op w w' r}, Dispatching p contract info op → C.valid w → P w →
      C.sem w (.stage info op) w' r → C.valid w' ∧ C.guar w w') (holds : P w) :
    (c.dispatch p contract info).Safe (C.pull (S := StageSig) (.stage info) fun _ r => r)
      (fun _ work' w' => work' = work ∧ P w') work w := by
  refine Prog.Safe.ofUses (dispatch_uses c contract work) (dispatch_reads c contract work) stable ?_ holds
  rintro op dispatching w₁ w₂ r valid held ⟨r', law, rfl⟩
  obtain ⟨valid', guar⟩ := calls dispatching valid held law
  exact ⟨valid', guar, stable w₁ w₂ held (rule.laws.shared guar) valid'⟩

/-- The approval of a step is asked for and put down; nothing else is written. -/
theorem approve_keeps {P : Work → W → Prop} (steady : DriveRule.Steady rule info P) {step : WorkflowStep}
    (call : ∀ {reason roles parties w w' r}, C.valid w → C.sem w (.stage info (.approvalWait reason roles parties)) w' r →
      C.valid w' ∧ C.guar w w')
    (grant : ∀ {work w}, P work w → P (work.setWorkflow fun s => { s with approved := s.approved ++ [step.id] }) w) :
    (WorkflowExecutor.approve ex d step).Keeps (C.pull (S := StageSig) (.stage info) fun _ r => r) P
      (rule.passed info) := by
  have stable : ∀ work, (C.pull (S := StageSig) (.stage info) fun _ r => r).Stable (P work) := steady.stable
  have granted : (Act.modify fun work => work.setWorkflow fun s => { s with approved := s.approved ++ [step.id] } :
      StageM Unit).Keeps (C.pull (S := StageSig) (.stage info) fun _ r => r) P (rule.passed info) :=
    Act.keeps_modify stable fun _ _ _ => grant
  unfold WorkflowExecutor.approve
  split
  · exact Act.keeps_pure stable
  · refine Act.keeps_get_bind fun s w valid holds => ?_
    split
    · split
      · refine Act.keeps_bind (Act.keeps_await stable passed_stays ?_) (fun _ => granted) s w valid holds
        rintro s w₁ w₂ r valid holds ⟨r', law, rfl⟩
        obtain ⟨valid', guar⟩ := call valid law
        exact ⟨valid', guar, steady.outcome holds valid' guar⟩
      · exact granted s w valid holds
    · exact Act.keeps_pure stable s w valid holds

/-- A task: what its approval leaves is what its dispatch needs. -/
theorem runTask_leaves {step : WorkflowStep} {work : Work} {w : W} {P : Work → W → Prop} (valid : C.valid w)
    (approved : (WorkflowExecutor.approve ex d step).Safe (C.pull (S := StageSig) (.stage info) fun _ r => r)
      (Act.Outcome (fun _ => P) (rule.passed info)) work w)
    (holds : ∀ {work w}, P work w → rule.entered info completed work w)
    (dispatched : ∀ {work w}, C.valid w → P work w → rule.Leaves info completed
      (ex.coordinator.dispatch p (WorkflowExecutor.delegation p ex d info step work) info) work w)
    (ran : ∀ {work w} (sub : SubResult), ex.mode step = "in_process" → rule.entered info completed work w →
      rule.entered info completed (work.setWorkflow (.putOutput step.id (WorkflowExecutor.subOutput sub))) w)
    (noted : ∀ {work w}, rule.entered info completed work w →
      rule.entered info completed (work.setWorkflow fun s => { s with dispatched := s.dispatched ++ [step.id] }) w) :
    rule.Leaves info completed (WorkflowExecutor.runTask p ex d info step) work w := by
  refine Act.safe_bind approved valid (fun _ work w valid h => Act.safe_get_bind ?_) fun _ _ _ _ => id
  simp only
  split
  · next process =>
      refine Act.safe_bind (dispatched valid h) valid (fun sub work w valid entered => ?_) fun _ _ _ _ => id
      exact Act.safe_modify_bind (body_pure true _ w valid (ran sub process entered))
  · split
    · refine Act.safe_bind (dispatched valid h) valid (fun sub work w valid entered => ?_) fun _ _ _ _ => id
      exact Act.safe_modify_bind (body_pure false _ w valid (noted entered))
    · exact body_pure false work w valid (holds h)

end stage

section loop

variable (inv : Invocation rule p ex d)
include inv

/-- A result is taken up only where the store listed it. -/
theorem refresh_body {steps : List WorkflowStep} (within : ∀ step ∈ steps, step ∈ d.steps) :
    rule.Body info completed (WorkflowExecutor.refresh steps) := by
  induction steps with
  | nil => exact body_pure _
  | cons step steps ih =>
      have rest : rule.Body info completed (WorkflowExecutor.refresh steps) :=
        ih fun s member => within s (List.mem_cons_of_mem _ member)
      refine Act.keeps_get_bind fun s w valid entered => ?_
      split
      · exact rest s w valid entered
      · next open_ =>
          -- the answer is kept beside the context, for the write that takes it up
          refine Act.safe_bind (Q := Act.Outcome (fun found s' w' => s' = s ∧ rule.entered info completed s w' ∧
            ∀ first rest, found = first :: rest →
              rule.entered info completed (s.setWorkflow (.putOutput step.id first.result.output)) w') (rule.passed info))
            (Act.safe_await entered (entered_stays s) (Act.outcome_stable (fun found => ?_) (passed_stays s)) ?_)
            valid (fun found s' w' valid kept => ?_) fun _ _ _ _ => id
          · rintro w w' ⟨_, entered, first⟩ moved valid
            exact ⟨rfl, rule.laws.entered_stable _ _ _ w w' entered moved valid, fun f r same =>
              rule.laws.entered_stable _ _ _ w w' (first f r same) moved valid⟩
          · rintro w₁ w₂ r valid entered ⟨r', law, rfl⟩
            obtain ⟨valid', guar, taken⟩ := inv.listed (within step List.mem_cons_self) valid entered
              (by simpa using open_) law
            refine ⟨valid', guar, ?_⟩
            have still := rule.laws.entered_stable info completed s w₁ w₂ entered (rule.laws.shared guar) valid'
            cases r with
            | error e => exact rule.laws.leave still
            | ok found => exact ⟨rfl, still, fun first rest same => taken first rest (congrArg _ same)⟩
          · obtain ⟨rfl, entered, first⟩ := kept
            split
            · exact rest _ w' valid entered
            · exact Act.safe_modify_bind (rest _ w' valid (first _ _ rfl))

/-- A gate is passed only where it was already waited for. -/
theorem visit_body {step : WorkflowStep} (member : step ∈ d.steps) {gate : Option WorkflowStep} :
    rule.Body info completed (WorkflowExecutor.visit p ex d info step gate) := by
  refine Act.keeps_get_bind fun s w valid entered => ?_
  simp only
  split
  · exact body_pure _ s w valid entered
  · next ready =>
      simp only [Bool.or_eq_true, List.any_eq_true, Bool.not_eq_true', not_or, not_exists, not_and,
        Bool.not_eq_false] at ready
      cases kind : step.kind with
      | gate =>
          simp only
          split
          · next waited =>
              exact Act.safe_modify_bind (body_pure _ _ w valid (inv.gate entered member kind waited))
          · exact body_pure _ s w valid entered
      | task =>
          refine Act.safe_bind (inv.task valid entered member kind ready.2) valid
            (fun done s w valid entered => body_pure _ s w valid entered) fun _ _ _ _ => id

theorem pass_body {steps : List WorkflowStep} (within : ∀ step ∈ steps, step ∈ d.steps)
    {gate : Option WorkflowStep} {progressed : Bool} :
    rule.Body info completed (WorkflowExecutor.pass p ex d info steps gate progressed) := by
  induction steps generalizing gate progressed with
  | nil => exact body_pure _
  | cons step steps ih =>
      exact Act.keeps_bind (visit_body inv (within step List.mem_cons_self))
        fun _ => ih fun s member => within s (List.mem_cons_of_mem _ member)

theorem rounds_body {fuel : Nat} {gate : Option WorkflowStep} :
    rule.Body info completed (WorkflowExecutor.rounds p ex d info fuel gate) := by
  induction fuel generalizing gate with
  | zero => exact body_pure _
  | succ fuel ih =>
      refine Act.keeps_bind (pass_body inv fun _ => id) fun out => ?_
      obtain ⟨gate, progressed⟩ := out
      cases progressed with
      | true => exact ih
      | false => exact body_pure _

/-- The executor answers where every step is completed. -/
theorem settle_takes {work : Work} {w : W} (entered : rule.entered info completed work w) :
    (WorkflowExecutor.settle p d).Safe (C.pull (S := StageSig) (.stage info) fun _ r => r)
      (Act.Outcome (fun _ => rule.entered info (completed ++ ["workflow"])) (rule.passed info)) work w := by
  refine Act.safe_get_bind ?_
  simp only
  split
  · next finished =>
      refine Act.safe_modify (inv.settled _ entered fun step member => ?_) (entered_stays _)
      simpa using List.filter_eq_nil_iff.mp finished step member
  · split
    · exact Act.safe_throw (rule.laws.leave entered) (passed_stays work)
    · exact Act.safe_throw (rule.laws.leave entered) (passed_stays work)

theorem gateCondition_keeps {step : WorkflowStep} :
    (WorkflowExecutor.gateCondition p info step).Keeps (C.pull (S := StageSig) (.stage info) fun _ r => r)
      (rule.passed info) (rule.passed info) := by
  have pass {α : Type} (a : α) : (pure a : StageM α).Keeps (C.pull (S := StageSig) (.stage info) fun _ r => r)
      (rule.passed info) (rule.passed info) := Act.keeps_pure passed_stays
  refine Act.keeps_get_bind fun s w valid passed => ?_
  simp only
  split
  · exact pass _ s w valid passed
  · split
    · refine Act.keeps_bind (Act.keeps_ofExcept passed_stays passed_stays fun _ _ => id) (fun _ => ?_)
        s w valid passed
      refine Act.keeps_bind (Act.keeps_await passed_stays passed_stays ?_) fun _ => ?_
      · rintro s w₁ w₂ r valid passed ⟨r', law, rfl⟩
        obtain ⟨valid', guar⟩ := inv.clock valid law
        exact ⟨valid', guar, DriveRule.steady_passed.outcome passed valid' guar⟩
      · exact Act.keeps_bind (Act.keeps_ofExcept passed_stays passed_stays fun _ _ => id) fun _ => pass _
    · exact pass _ s w valid passed

/-- The executor leaves a gate waited for only where it raises. -/
theorem run_takes {work : Work} {w : W} (valid : C.valid w) (entered : rule.entered info completed work w) :
    (WorkflowExecutor.run p ex d info).Safe (C.pull (S := StageSig) (.stage info) fun _ r => r)
      (Act.Outcome (fun _ => rule.entered info (completed ++ ["workflow"])) (rule.passed info)) work w := by
  have begun : rule.entered info completed (work.setWorkflow id) w := inv.started entered
  refine Act.safe_modify_bind (Act.safe_bind (refresh_body inv (fun _ => id) _ w valid begun) valid
    (fun _ work w valid entered => Act.safe_bind (rounds_body inv work w valid entered) valid
      (fun gate work w valid entered => ?_) fun _ _ _ _ => id) fun _ _ _ _ => id)
  cases gate with
  | none => exact settle_takes inv entered
  | some gate =>
      refine Act.safe_modify_bind (Act.safe_bind (gateCondition_keeps inv _ w valid (inv.parked gate.id entered)) valid
        (fun condition s' w' _ passed => ?_) fun _ _ _ _ => id)
      exact Act.safe_throw passed (passed_stays s')

theorem workflowStage_takes {extra : Data.Dict String Json}
    (context : ∀ {info completed work w}, rule.entered info completed work w →
      rule.entered info completed { work with extras := { work.extras with
        workflowContext := some (Data.Dict.update (work.extras.workflowContext.getD []) extra) } } w) :
    rule.Takes info (workflowStage p ex d extra) := by
  intro completed work w valid entered
  unfold workflowStage
  simp only
  split
  · exact Act.safe_modify_bind (run_takes inv valid (context entered))
  · exact run_takes inv valid entered

end loop

/-- The argument is about the workflow state alone, whichever stages were completed. -/
structure DriveRule.OfWorkflow (rule : DriveRule C) : Prop where
  same : ∀ {info completed work work' w}, work'.workflow = work.workflow → rule.entered info completed work w →
    rule.entered info completed work' w
  any : ∀ {info completed completed' work w}, rule.entered info completed work w → rule.entered info completed' work w

/-- Whatever its calls answer, the stage leaves the workflow state alone. -/
def PipelineStage.LeavesWorkflow (stage : PipelineStage) : Prop :=
  ∀ info work, (stage.execute info work).Yields fun out => out.2.extras.workflow = work.extras.workflow

/-- A stage whose calls keep the argument carries it on, if what it answers does. -/
theorem quiet_takes {stage : PipelineStage} {A : StageOp → Prop} {T : Work → Work → Prop}
    (yields : ∀ work, (stage.execute info work).Yields fun out => T work out.2)
    (uses : (stage.execute info).Uses A)
    (calls : ∀ {op w w' r}, A op → C.valid w → C.sem w (.stage info op) w' r → C.valid w' ∧ C.guar w w')
    (later : ∀ {completed work work' w}, T work work' → rule.entered info completed work w →
      rule.entered info (completed ++ [stage.name]) work' w) : rule.Takes info stage := by
  intro completed s w valid entered
  refine Prog.Safe.weaken (Prog.Safe.ofUses (uses s) (yields s) (entered_stays s) ?_ entered) ?_
  · rintro op allowed w₁ w₂ r valid entered ⟨r', law, rfl⟩
    obtain ⟨valid', guar⟩ := calls allowed valid law
    exact ⟨valid', guar, rule.laws.entered_stable info completed s w₁ w₂ entered (rule.laws.shared guar) valid'⟩
  · rintro ⟨out, s'⟩ w' _ ⟨yielded, entered'⟩
    have carried : rule.entered info (completed ++ [stage.name]) s' w' := later yielded entered'
    cases out with
    | ok u => exact carried
    | error e => exact rule.laws.leave carried

/-- The workflow state left alone, what is said of it is carried on. -/
theorem DriveRule.OfWorkflow.later (only : rule.OfWorkflow) {stage : PipelineStage} {work work' : Work} {w : W}
    (same : work'.extras.workflow = work.extras.workflow) (entered : rule.entered info completed work w) :
    rule.entered info (completed ++ [stage.name]) work' w := by
  refine only.any (only.same ?_ entered)
  simp only [Work.workflow]
  rw [same]

end Maof
