import Maof.Workflows.Clamps
import Maof.Workflows.Completion

/-!
# What contexts and messages say of a run

A run keeps the goal it was created with, and results are only added to its
store. What the context of a run says of these stays so, in the process, in the
checkpoint and in the process that takes the checkpoint up; what a message tells
that was made of it stays so as well.
-/

namespace Maof

open Effects (Act Prog Contract Machine Pool)
open Data (Dict)
open World

/-- The goal the run was created with. -/
def World.goalOf (w : World) (r : RunId) : Option String := (w.runs r).map RunState.goal

/-- Results are only added, and goals kept. -/
def World.Grown (w w' : World) : Prop :=
  w.results <+: w'.results ∧ ∀ r goal, w.goalOf r = some goal → w'.goalOf r = some goal

section sourced

variable {ex : WorkflowExecutor} {d : WorkflowDefinition}

theorem Sourced.blank (w : World) (runId : RunId) : Sourced ex d w.results runId {} := by
  intro _ _ _ _ none
  cases none

/-- Nothing but the outputs of a context is looked at. -/
theorem Sourced.rewrite {results : List ResultEnvelope} {runId : RunId} {work work' : Work}
    (sourced : Sourced ex d results runId work) (outputs : work'.workflow.outputs = work.workflow.outputs) :
    Sourced ex d results runId work' := by
  intro step member queues output found
  rw [outputs] at found
  exact sourced step member queues output found

/-- An output is put down for a step that is awaited only where it is its first result's. -/
theorem Sourced.put {w : World} {info : RunInfo} {work : Work}
    (sourced : Sourced ex d w.results info.runId work) {id : StepId} {output : Dict String Json}
    (first : ∀ step ∈ d.steps, step.id = id → ex.Queues step → FirstResult w.results info.runId id output) :
    Sourced ex d w.results info.runId (work.setWorkflow (.putOutput id output)) := by
  intro step member queues output' found
  rw [workflow_setWorkflow, WorkflowState.putOutput] at found
  simp only [Data.Dict.get_set] at found
  split at found
  · next same =>
      cases found
      rw [← same]
      exact first step member same.symm queues
  · exact sourced step member queues output' found

end sourced

/-- What contexts say and messages tell, and what neither loses on the way. -/
structure Ledger where
  states : World → RunInfo → Work → Prop
  tells : World → TaskMessage → Prop
  states_grown : ∀ {w w' info work}, w.Grown w' → states w info work → states w' info work
  tells_grown : ∀ {w w' m}, w.Grown w' → tells w m → tells w' m
  note : ∀ {w info work} (stage : Stage), states w info work → states w info { work with stage }
  record : ∀ {w info work} (names : List String), states w info work →
    states w info { work with extras := { work.extras with completedStages := some names } }
  restored : ∀ {w info work}, states w info work → states w { info with principal := none } work
  start : ∀ {w tenant goal runId} (principal : Option Principal), w.goalOf runId = some goal →
    states w { runId, tenant, goal, principal } {}

namespace Ledger

/-- Messages and checkpoints say what is so. -/
def contract (L : Ledger) (dep : Deployment) : Contract RunSig World where
  sem w op w' r := ∃ c, perform dep c w op = (w', r)
  valid w := (∀ m ∈ w.published, L.tells w m.message) ∧ ∀ r label blob, w.checkpoints r = some (label, blob) →
    ∀ sc, checkpointDeserialize blob = .ok sc → L.states w sc.info sc.work
  rely := World.Grown
  guar := World.Grown
  refl _ := ⟨List.prefix_rfl, fun _ _ => id⟩
  trans first second := ⟨first.1.trans second.1, fun r goal there => second.2 r goal (first.2 r goal there)⟩

theorem goalOf_perform (dep : Deployment) (c : Choice) (w : World) (op : Op) {r : RunId} {goal : String}
    (there : w.goalOf r = some goal) : (perform dep c w op).1.goalOf r = some goal := by
  have step := rowStep_perform dep c w op r
  unfold World.goalOf at there ⊢
  generalize w.runs r = row, (perform dep c w op).1.runs r = row' at step there ⊢
  cases step with
  | created => cases there
  | _ => exact there

theorem grown_perform (dep : Deployment) (c : Choice) (w : World) (op : Op) : w.Grown (perform dep c w op).1 :=
  ⟨results_perform dep c w op, fun _ _ => goalOf_perform dep c w op⟩

variable {L : Ledger} {dep : Deployment} {info : RunInfo} {work : Work} {w w' : World}

section calls

/-- A call that saves no checkpoint, and whose message tells what is so. -/
theorem call {op : Op} {reply : Except Exn op.Ans} (save : ∀ r l b, op ≠ .save r l b)
    (publish : ∀ info q, op = .stage info (.publishTask q) → L.tells w (w.messageOf info q).message)
    (valid : (L.contract dep).valid w) (law : (L.contract dep).sem w op w' reply) :
    (L.contract dep).valid w' ∧ (L.contract dep).guar w w' := by
  obtain ⟨c, done⟩ := law
  obtain rfl : (perform dep c w op).1 = w' := congrArg Prod.fst done
  have grown := grown_perform dep c w op
  refine ⟨⟨fun m member => ?_, fun r label blob saved sc read => ?_⟩, grown⟩
  · rcases published_from member with old | ⟨info, q, rfl, rfl⟩
    · exact L.tells_grown grown (valid.1 m old)
    · exact L.tells_grown grown (publish info q rfl)
  · rw [perform_checkpoints save] at saved
    exact L.states_grown grown (valid.2 r label blob saved sc read)

/-- A call of a stage that hands nothing out. -/
theorem silent {op : StageOp} {r : Except Exn op.Ans} (silent : op.publishes = false) (valid : (L.contract dep).valid w)
    (law : (L.contract dep).sem w (.stage info op) w' r) : (L.contract dep).valid w' ∧ (L.contract dep).guar w w' := by
  refine call (by rintro _ _ _ ⟨⟩) ?_ valid law
  rintro _ q ⟨⟩
  cases silent

theorem save {label : String} {reply : Except Exn Unit} (states : L.states w info work) (valid : (L.contract dep).valid w)
    (law : (L.contract dep).sem w (.save info.runId label (checkpointSerialize { info, work })) w' reply) :
    (L.contract dep).valid w' ∧ (L.contract dep).guar w w' := by
  obtain ⟨c, done⟩ := law
  obtain rfl : (perform dep c w _).1 = w' := congrArg Prod.fst done
  have grown := grown_perform dep c w (.save info.runId label (checkpointSerialize { info, work }))
  refine ⟨⟨fun m member => ?_, fun r label' blob saved sc read => ?_⟩, grown⟩
  · rw [perform_published (by rintro _ _ ⟨⟩)] at member
    exact L.tells_grown grown (valid.1 m member)
  · rcases checkpoints_from saved with old | same
    · exact L.states_grown grown (valid.2 r label' blob old sc read)
    · cases same
      cases (deserialize_serialize _).symm.trans read
      exact L.restored (L.states_grown grown states)

end calls

theorem laws (L : Ledger) (dep : Deployment) :
    DriveLaws (L.contract dep) (fun info _ work w => L.states w info work) (fun info work w => L.states w info work) where
  entered_stable _ _ _ _ _ states grown _ := L.states_grown grown states
  passed_stable _ _ _ _ states grown _ := L.states_grown grown states
  leave := id
  shared := id
  note stage states := L.note stage states
  record states := L.record _ states
  outer {op _ _ _} outer valid law := by
    refine call ?_ ?_ valid law
    · rintro r l b rfl
      exact outer
    · rintro info q rfl
      exact outer.elim
  save := save
  load {runId blob w w'} valid law sc read := by
    obtain ⟨c, done⟩ := law
    obtain rfl : (perform dep c w (.load runId)).1 = w' := congrArg Prod.fst done
    have answered : (perform dep c w (.load runId)).2 = .ok (some blob) := congrArg Prod.snd done
    have took := (congrArg Prod.snd (perform_ok answered)).symm.trans answered
    simp only [effect, Except.ok.injEq, Option.map_eq_some_iff] at took
    obtain ⟨⟨label, _⟩, saved, rfl⟩ := took
    exact L.states_grown (grown_perform dep c w _) (valid.2 runId label _ saved sc read)
  start {tenant goal runId w w'} _ law principal := by
    obtain ⟨c, done⟩ := law
    have answered : (perform dep c w (.create tenant goal)).2 = .ok runId := congrArg Prod.snd done
    obtain rfl : (perform dep c w (.create tenant goal)).1 = w' := congrArg Prod.fst done
    have made := perform_ok answered
    refine L.start principal ?_
    have reply := (congrArg Prod.snd made).symm.trans answered
    rw [made]
    simp only [effect] at reply ⊢
    split at reply
    · cases reply
    · obtain rfl := Except.ok.inj reply
      simp only [World.goalOf, Function.update_self, Option.map_some]

/-- The argument about a drive: what its context says is so. -/
def rule (L : Ledger) (dep : Deployment) : DriveRule (L.contract dep) where
  entered info _ work w := L.states w info work
  passed info work w := L.states w info work
  laws := L.laws dep

/-! ## Inside the workflow's stage -/

/-- The calls a stage makes. -/
def InStage : Op → Prop
  | .stage _ _ => True
  | _ => False

/-- What holds of the context while the executor works on it. -/
structure Held (L : Ledger) (p : Platform) (ex : WorkflowExecutor) (d : WorkflowDefinition) where
  held : World → RunInfo → Work → Prop
  states : ∀ {w info work}, held w info work → L.states w info work
  grown : ∀ {w w' info work}, w.Grown w' → held w info work → held w' info work
  /-- It is about the outputs, the flags and the workflow's own context. -/
  same : ∀ {w info work work'}, held w info work → work'.workflow.outputs = work.workflow.outputs →
    work'.envelope = work.envelope → work'.extras.workflowContext = work.extras.workflowContext → held w info work'
  put : ∀ {w info work id output}, held w info work →
    (∀ step ∈ d.steps, step.id = id → ex.Queues step → FirstResult w.results info.runId id output) →
      held w info (work.setWorkflow (.putOutput id output))
  tells : ∀ {w info work step q}, held w info work → step ∈ d.steps →
    (∀ dep ∈ step.dependsOn, work.workflow.completed dep = true) → q.work = work →
      q.task = QueueDispatcher.taskOf p (WorkflowExecutor.delegation p ex d info step work) info work →
        L.tells w (w.messageOf info q).message

section executor

variable {p : Platform} {ex : WorkflowExecutor} {d : WorkflowDefinition} (H : L.Held p ex d) {completed : List String}

/-- The argument about the executor. -/
def inside (dep : Deployment) : DriveRule ((L.contract dep).only InStage) where
  entered info _ work w := H.held w info work
  passed info work w := L.states w info work
  laws := {
    entered_stable := fun _ _ _ _ _ held grown _ => H.grown grown held
    passed_stable := fun _ _ _ _ states grown _ => L.states_grown grown states
    leave := H.states
    shared := id
    note := fun _ held => H.same held rfl rfl rfl
    record := fun held => H.same held rfl rfl rfl
    outer := fun {op _ _ _} outer _ law => by
      cases op with
      | stage _ _ => exact outer.elim
      | _ => exact law.1.elim
    save := fun _ _ law => law.1.elim
    load := fun _ law => law.1.elim
    start := fun _ law => law.1.elim }

/-- The calls a delegation is dispatched by from a context, which is handed out with the task. -/
def Dispatched (p : Platform) (contract : DelegationContract) (info : RunInfo) (work : Work) (op : StageOp) : Prop :=
  Dispatching p contract info op ∧ ∀ q : Publication, op = .publishTask q → q.work = work

theorem dispatch_uses_work (c : DefaultCoordinator) (contract : DelegationContract) (work : Work) :
    (c.dispatch p contract info work).Uses (Dispatched p contract info work) := by
  have other : ∀ {op : StageOp}, op.publishes = false → ∀ q : Publication, op = .publishTask q → q.work = work := by
    rintro _ plain q rfl
    cases plain
  unfold DefaultCoordinator.dispatch
  split
  · cases c.queue with
    | none => exact Act.uses_throw _ work
    | some q =>
        have rest : (do
            let (queue, manifest) ← stageCall (.resolveQueue q contract)
            stageCall (.publishTask (QueueDispatcher.publication p q contract info work queue))
            stageCall (.appendTrace (QueueDispatcher.dispatchTrace contract (some (QueueDispatcher.stepRef p contract)) manifest))
            return {
              delegationObjective := contract.objective
              summary := "dispatched " ++ contract.routedType ++ " to queue " ++ queue
              status := "dispatched" } : StageM SubResult).Uses (Dispatched p contract info work) := by
          refine Act.uses_bind (Act.uses_await ⟨rfl, other rfl⟩) fun _ => Act.uses_bind (Act.uses_await ⟨rfl, ?_⟩) fun _ =>
            Act.uses_bind (Act.uses_await ⟨trivial, other rfl⟩) fun _ => Act.uses_pure _
          rintro _ ⟨⟩
          rfl
        exact rest work
  · cases c.inProcess with
    | none => exact Act.uses_throw _ work
    | some a =>
        have rest : (a.dispatch contract info).Uses (Dispatched p contract info work) := by
          refine Act.uses_bind (Act.uses_await ⟨rfl, other rfl⟩) fun reply => Act.uses_bind ?_ fun _ =>
            Act.uses_bind (Act.uses_await ⟨trivial, other rfl⟩) fun _ => Act.uses_pure _
          unfold InProcessSubagent.distill
          split
          · exact Act.uses_bind (Act.uses_await ⟨trivial, other rfl⟩) fun _ => Act.uses_pure _
          · exact Act.uses_pure _
        exact rest work

include H in
/-- A step that is dispatched is told of as its context has it. -/
theorem dispatch_told {step : WorkflowStep} (member : step ∈ d.steps)
    (ready : ∀ dep ∈ step.dependsOn, work.workflow.completed dep = true) (held : H.held w info work) :
    (inside H dep).Leaves info completed
      (ex.coordinator.dispatch p (WorkflowExecutor.delegation p ex d info step work) info) work w := by
  have stable : (((L.contract dep).only InStage).pull (S := StageSig) (.stage info) fun _ r => r).Stable
      fun w => H.held w info work := fun _ _ held grown _ => H.grown grown held
  refine Prog.Safe.weaken (Prog.Safe.ofUses (dispatch_uses_work ex.coordinator _ work) (dispatch_reads ex.coordinator _ work) stable
    ?_ held) ?_
  · rintro op ⟨dispatching, here⟩ w₁ w₂ r valid held ⟨r', law, rfl⟩
    have kept : (L.contract dep).valid w₂ ∧ (L.contract dep).guar w₁ w₂ := by
      refine call (by rintro _ _ _ ⟨⟩) ?_ valid law.2
      rintro _ q ⟨⟩
      obtain rfl := here q rfl
      exact H.tells held member ready rfl dispatching
    exact ⟨kept.1, kept.2, H.grown kept.2 held⟩
  · rintro ⟨out, work'⟩ w' _ ⟨same, held⟩
    obtain rfl : work' = work := same
    cases out with
    | ok sub => exact held
    | error e => exact H.states held

/-- What a task leaves: an output of its own only where it is run in process. -/
theorem runTask_held (accepted : d.Accepted) {step : WorkflowStep} (member : step ∈ d.steps)
    (ready : ∀ dep ∈ step.dependsOn, work.workflow.completed dep = true) (valid : (L.contract dep).valid w)
    (held : H.held w info work) : (inside H dep).Leaves info completed (WorkflowExecutor.runTask p ex d info step) work w := by
  have steady : DriveRule.Steady (inside H dep) info fun work w =>
      (∀ dep ∈ step.dependsOn, work.workflow.completed dep = true) ∧ H.held w info work :=
    ⟨fun _ _ _ h grown _ => ⟨h.1, H.grown grown h.2⟩, fun h => H.states h.2⟩
  have asked : ∀ {reason roles parties} {w w' : World} {r : Except Exn Unit}, ((L.contract dep).only InStage).valid w →
      ((L.contract dep).only InStage).sem w (.stage info (.approvalWait reason roles parties)) w' r →
      ((L.contract dep).only InStage).valid w' ∧ ((L.contract dep).only InStage).guar w w' :=
    fun valid law => silent rfl valid law.2
  refine runTask_leaves valid (approve_keeps steady asked ?_ work w valid ⟨ready, held⟩) And.right
    (fun _ h => dispatch_told H member h.1 h.2) (fun {work w} sub process held => ?_) fun {work w} held => ?_
  · intro work w h
    exact ⟨h.1, H.same h.2 rfl rfl rfl⟩
  · refine H.put held fun other inside same queues => ?_
    rw [accepted.eq_of_id inside member same] at queues
    exact absurd process queues.2
  · exact H.same held rfl rfl rfl

/-- The first of the results listed for a step is its first result. -/
theorem listed_first {id : StepId} {first : ResultEnvelope} {rest : List ResultEnvelope}
    (law : (L.contract dep).sem w (.stage info (.listResults id)) w' (.ok (first :: rest))) :
    FirstResult w.results info.runId id first.result.output := by
  obtain ⟨c, done⟩ := law
  have answered : (perform dep c w (.stage info (.listResults id))).2 = .ok (first :: rest) := congrArg Prod.snd done
  have read := (congrArg Prod.snd (perform_ok answered)).symm.trans answered
  simp only [effect, stageEffect, Except.ok.injEq] at read
  exact ⟨first, by rw [read]; rfl, rfl⟩

theorem invocation (accepted : d.Accepted) : Invocation (inside H dep) p ex d where
  started held := H.same held rfl rfl rfl
  listed {info completed work w w' step r} _ valid held _ law := by
    obtain ⟨valid', grown⟩ := silent rfl valid law.2
    refine ⟨valid', grown, ?_⟩
    rintro first rest rfl
    have there : FirstResult w.results info.runId step.id first.result.output := listed_first law.2
    exact H.put (H.grown grown held) fun _ _ _ _ => there.mono grown.1
  task valid held member _ ready := runTask_held H accepted member ready valid held
  gate {info completed work w step} held member kind _ := by
    refine H.put held fun other inside same queues => ?_
    rw [accepted.eq_of_id inside member same] at queues
    exact absurd (kind.symm.trans queues.1) (by decide)
  parked _ held := H.states (H.same held rfl rfl rfl)
  clock valid law := silent rfl valid law.2
  settled _ held _ := H.same held rfl rfl rfl

include H in
/-- The stage says again what holds once it has put down what it was given. -/
theorem workflowStage_states (accepted : d.Accepted) {extra : Dict String Json}
    (given : ∀ {w info work}, L.states w info work → H.held w info { work with extras := { work.extras with
      workflowContext := some (Dict.update (work.extras.workflowContext.getD []) extra) } })
    (bare : extra = [] → ∀ {w info work}, L.states w info work → H.held w info work) :
    (L.rule dep).Takes info (workflowStage p ex d extra) := by
  intro completed work w valid states
  have ran : ∀ {work : Work}, H.held w info work → (WorkflowExecutor.run p ex d info).Safe
      ((L.contract dep).pull (S := StageSig) (.stage info) fun _ r => r)
      (Act.Outcome (fun _ work w => L.states w info work) fun work w => L.states w info work) work w := by
    intro work held
    have taken : (WorkflowExecutor.run p ex d info).Safe (((L.contract dep).only InStage).pull (S := StageSig) (.stage info) fun _ r => r)
        (Act.Outcome (fun _ work w => H.held w info work) fun work w => L.states w info work) work w :=
      @run_takes _ _ (inside H dep) p ex d info completed (invocation H accepted) _ _ valid held
    rw [Contract.pull_only fun _ => trivial] at taken
    refine taken.weaken fun r _ _ _ left => ?_
    cases r with
    | ok _ => exact H.states left
    | error _ => exact left
  unfold workflowStage
  simp only
  split
  · exact Act.safe_modify_bind (ran (given states))
  · next none => exact ran (bare (by simpa using none) states)

end executor

/-! ## In any run -/

/-- Where every stage goes on saying what is so, every message that is ever published tells what is so. -/
theorem told {o : Orchestrator} (takes : ∀ info, ∀ stage ∈ o.l1.pipeline, (L.rule o.deployment).Takes info stage) :
    (∀ a {w}, (L.contract o.deployment).valid w → (o.program a).Safe (L.contract o.deployment) (fun _ _ => True) w) ∧
      o.untracked.Obeys (L.contract o.deployment) fun _ _ => true := by
  have completes : (L.rule o.deployment).Completes o.l1.pipeline :=
    fun _ _ valid law => call (by rintro _ _ _ ⟨⟩) (by rintro _ _ ⟨⟩) valid law
  refine ⟨fun a _ valid => (L.rule o.deployment).program_safe takes completes a valid, ?_⟩
  refine ⟨fun _ _ c _ _ _ _ _ _ => ⟨c, rfl⟩, fun _ _ => id, fun q e _ valid => ?_⟩
  have grown : q.world.Grown (o.untracked.env e q.world) := by
    cases e <;> exact ⟨List.prefix_rfl, fun _ _ => id⟩
  have same : (o.untracked.env e q.world).published = q.world.published ∧
      (o.untracked.env e q.world).checkpoints = q.world.checkpoints := by
    cases e <;> exact ⟨rfl, rfl⟩
  refine ⟨⟨fun m member => L.tells_grown grown (valid.1 m (same.1 ▸ member)), fun r label blob saved sc read => ?_⟩, grown⟩
  rw [same.2] at saved
  exact L.states_grown grown (valid.2 r label blob saved sc read)

theorem fresh_safe (L : Ledger) (dep : Deployment) (registry : List RegistryEntry)
    (rulesets : String → String → Option LoadedRuleset) (clock : Int) :
    Machine.AllSafe (L.contract dep) (Orchestrator.start Unit (World.fresh registry rulesets clock)) := by
  refine ⟨⟨fun m none => ?_, fun r label blob none => ?_⟩, fun b none => ?_⟩
  · cases none
  · cases none
  · cases none

end Ledger

end Maof
