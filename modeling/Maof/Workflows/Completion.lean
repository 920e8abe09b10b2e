import Maof.Orchestrator.Gates

/-!
# What completes a queue step

A step that is not run in process is completed from the result store: its output
is the one of the first result stored for it, and stays that. Where a dependent
is published, or the run becomes completed, the outputs relied on are such.
-/

namespace Maof

open Effects (Act Prog Contract Machine Pool)
open Data (Dict)
open World

variable (p : Platform) (ex : WorkflowExecutor) (d : WorkflowDefinition)

/-- A task step whose result is awaited. -/
def WorkflowExecutor.Queues (step : WorkflowStep) : Prop := step.kind = .task ∧ ex.mode step ≠ "in_process"

/-- The output of the first result stored for the step. -/
def FirstResult (results : List ResultEnvelope) (r : RunId) (id : StepId) (output : Dict String Json) : Prop :=
  ∃ e, (ResultStore.list results r id).head? = some e ∧ e.result.output = output

/-- The outputs of the queue steps are those of their first results. -/
def Sourced (results : List ResultEnvelope) (r : RunId) (work : Work) : Prop :=
  ∀ step ∈ d.steps, ex.Queues step → ∀ output, Dict.get work.workflow.outputs step.id = some output →
    FirstResult results r step.id output

def Finished (work : Work) : Prop := ∀ step ∈ d.steps, work.workflow.completed step.id = true

/-- What a context says of the workflow is so, and the stage is over where it is recorded as such. -/
structure Kept (results : List ResultEnvelope) (r : RunId) (work : Work) : Prop where
  sourced : Sourced ex d results r work
  finished : "workflow" ∈ work.extras.completedStages.getD [] → Finished d work

/-- A message of a step was bound from outputs that were there, once its dependencies were. -/
def Consumes (results : List ResultEnvelope) (m : TaskMessage) : Prop :=
  ∀ step ∈ d.steps, m.task.description = WorkflowExecutor.objective d step → ∃ info work,
    info.runId = m.envelope.runId ∧ m.task.payload = WorkflowExecutor.bound p info step work ∧
      (∀ dep ∈ step.dependsOn, work.workflow.completed dep = true) ∧ Sourced ex d results info.runId work

/-- The run's steps were all completed, the queue steps from their first results. -/
def Concluded (results : List ResultEnvelope) (r : RunId) : Prop :=
  ∃ work, Finished d work ∧ Sourced ex d results r work

/-- What was published, what a resumed run takes up and what was completed rests on first results. -/
structure FromFirst (w : World) : Prop where
  published : ∀ m ∈ w.published, Consumes p ex d w.results m.message
  saved : ∀ r label blob, w.checkpoints r = some (label, blob) → ∀ sc, checkpointDeserialize blob = .ok sc →
    Sourced ex d w.results sc.info.runId sc.work
  completed : ∀ r, w.statusOf r = some .completed → Concluded ex d w.results r

/-- Results are only added; what was published, kept or completed is from the first ones. -/
def sourceContract (dep : Deployment) : Contract RunSig World where
  sem w op w' r := ∃ c, perform dep c w op = (w', r)
  valid w := (∀ m ∈ w.published, Consumes p ex d w.results m.message) ∧
    (∀ r label blob, w.checkpoints r = some (label, blob) → ∀ sc, checkpointDeserialize blob = .ok sc →
      Kept ex d w.results sc.info.runId sc.work) ∧
    ∀ r, w.statusOf r = some .completed → Concluded ex d w.results r
  rely w w' := w.results <+: w'.results
  guar w w' := w.results <+: w'.results
  refl _ := List.prefix_rfl
  trans := List.IsPrefix.trans

variable {p ex d}

section grown

variable {results results' : List ResultEnvelope} (grown : results <+: results') {r : RunId} {work : Work}
include grown

theorem FirstResult.mono {id : StepId} {output : Dict String Json} (h : FirstResult results r id output) :
    FirstResult results' r id output := by
  obtain ⟨later, rfl⟩ := grown
  obtain ⟨e, first, same⟩ := h
  refine ⟨e, ?_, same⟩
  rw [ResultStore.list, List.filter_append, ← ResultStore.list, List.head?_append, first]
  rfl

theorem Sourced.mono (h : Sourced ex d results r work) : Sourced ex d results' r work :=
  fun step member queues output found => (h step member queues output found).mono grown

theorem Kept.mono (h : Kept ex d results r work) : Kept ex d results' r work := ⟨h.sourced.mono grown, h.finished⟩

theorem Consumes.mono {m : TaskMessage} (h : Consumes p ex d results m) : Consumes p ex d results' m := by
  intro step member named
  obtain ⟨info, work, run, payload, ready, sourced⟩ := h step member named
  exact ⟨info, work, run, payload, ready, sourced.mono grown⟩

theorem Concluded.mono (h : Concluded ex d results r) : Concluded ex d results' r := by
  obtain ⟨work, finished, sourced⟩ := h
  exact ⟨work, finished, sourced.mono grown⟩

end grown

section calls

variable {dep : Deployment} {info : RunInfo} {w w' : World}

/-- A call that saves no checkpoint, completes no run and publishes only what is bound from first results. -/
theorem source_call {op : Op} {reply : Except Exn op.Ans} (save : ∀ r l b, op ≠ .save r l b)
    (status : ∀ r, op ≠ .setState r .completed)
    (publish : ∀ info q, op = .stage info (.publishTask q) → Consumes p ex d w.results (w.messageOf info q).message)
    (valid : (sourceContract p ex d dep).valid w) (law : (sourceContract p ex d dep).sem w op w' reply) :
    (sourceContract p ex d dep).valid w' ∧ (sourceContract p ex d dep).guar w w' := by
  obtain ⟨c, done⟩ := law
  obtain rfl : (perform dep c w op).1 = w' := congrArg Prod.fst done
  have grown : w.results <+: (perform dep c w op).1.results := results_perform dep c w op
  refine ⟨⟨fun m member => ?_, fun r label blob saved sc read => ?_, fun r ended => ?_⟩, grown⟩
  · rcases published_from member with old | ⟨info, q, rfl, rfl⟩
    · exact (valid.1 m old).mono grown
    · exact (publish info q rfl).mono grown
  · rw [perform_checkpoints save] at saved
    exact (valid.2.1 r label blob saved sc read).mono grown
  · exact (valid.2.2 r (statusOf_completed status ended)).mono grown

theorem source_save {work : Work} {label : String} {reply : Except Exn Unit}
    (kept : Kept ex d w.results info.runId work) (valid : (sourceContract p ex d dep).valid w)
    (law : (sourceContract p ex d dep).sem w (.save info.runId label (checkpointSerialize { info, work })) w' reply) :
    (sourceContract p ex d dep).valid w' ∧ (sourceContract p ex d dep).guar w w' := by
  obtain ⟨c, done⟩ := law
  obtain rfl : (perform dep c w _).1 = w' := congrArg Prod.fst done
  have grown := results_perform dep c w (.save info.runId label (checkpointSerialize { info, work }))
  refine ⟨⟨fun m member => ?_, fun r label' blob saved sc read => ?_, fun r ended => ?_⟩, grown⟩
  · rw [perform_published (by rintro _ _ ⟨⟩)] at member
    exact (valid.1 m member).mono grown
  · rcases checkpoints_from saved with old | same
    · exact (valid.2.1 r label' blob old sc read).mono grown
    · cases same
      cases (deserialize_serialize _).symm.trans read
      exact kept.mono grown
  · exact (valid.2.2 r (statusOf_completed (by rintro _ ⟨⟩) ended)).mono grown

/-- The status of a run whose workflow is over. -/
theorem source_complete {reply : Except Exn Unit} (concluded : Concluded ex d w.results info.runId)
    (valid : (sourceContract p ex d dep).valid w)
    (law : (sourceContract p ex d dep).sem w (.setState info.runId .completed) w' reply) :
    (sourceContract p ex d dep).valid w' ∧ (sourceContract p ex d dep).guar w w' := by
  obtain ⟨c, done⟩ := law
  obtain rfl : (perform dep c w _).1 = w' := congrArg Prod.fst done
  have grown := results_perform dep c w (.setState info.runId .completed)
  refine ⟨⟨fun m member => ?_, fun r label' blob saved sc read => ?_, fun r ended => ?_⟩, grown⟩
  · rw [perform_published (by rintro _ _ ⟨⟩)] at member
    exact (valid.1 m member).mono grown
  · rw [perform_checkpoints (by rintro _ _ _ ⟨⟩)] at saved
    exact (valid.2.1 r label' blob saved sc read).mono grown
  · by_cases mine : r = info.runId
    · rw [mine]
      exact concluded.mono grown
    · rcases perform_setState dep c w info.runId .completed with same | same
      · rw [same] at ended
        exact (valid.2.2 r ended).mono grown
      · rw [same, statusOf_setRun_ne _ _ mine] at ended
        exact (valid.2.2 r ended).mono grown

end calls

theorem source_laws (p : Platform) (ex : WorkflowExecutor) (d : WorkflowDefinition) (dep : Deployment) :
    DriveLaws (sourceContract p ex d dep)
      (fun info completed work w =>
        Kept ex d w.results info.runId work ∧ ("workflow" ∈ completed → Finished d work))
      (fun info work w => Kept ex d w.results info.runId work) where
  entered_stable _ _ _ _ _ h grown _ := ⟨h.1.mono grown, h.2⟩
  passed_stable _ _ _ _ h grown _ := h.mono grown
  leave h := h.1
  shared := id
  note _ h := ⟨⟨h.1.sourced, h.1.finished⟩, h.2⟩
  record h := by
    refine ⟨⟨h.1.sourced, fun named => h.2 ?_⟩, h.2⟩
    simpa [WorkflowExecutor.sortedNames] using named
  outer {op _ _ _} outer valid law := by
    refine source_call ?_ ?_ ?_ valid law
    · rintro r l b rfl
      exact outer
    · rintro r rfl
      exact outer
    · rintro info q rfl
      exact outer.elim
  save := source_save
  load {runId blob w w'} valid law sc read := by
    obtain ⟨c, done⟩ := law
    obtain rfl : (perform dep c w (.load runId)).1 = w' := congrArg Prod.fst done
    have answered : (perform dep c w (.load runId)).2 = .ok (some blob) := congrArg Prod.snd done
    have took := (congrArg Prod.snd (perform_ok answered)).symm.trans answered
    simp only [effect, Except.ok.injEq, Option.map_eq_some_iff] at took
    obtain ⟨⟨label, _⟩, saved, rfl⟩ := took
    have kept := (valid.2.1 runId label _ saved sc read).mono (results_perform dep c w (.load runId))
    exact ⟨kept, fun named => kept.finished (List.mem_dedup.mp named)⟩
  start _ _ _ := by
    refine ⟨⟨fun step _ _ output none => ?_, fun named => ?_⟩, fun named => ?_⟩
    · cases none
    · cases named
    · cases named

/-- The argument about a drive: its outputs are those of first results, and the workflow stage is over
where it is named among the completed ones. -/
def sourceRule (p : Platform) (ex : WorkflowExecutor) (d : WorkflowDefinition) (dep : Deployment) :
    DriveRule (sourceContract p ex d dep) where
  entered info completed work w := Kept ex d w.results info.runId work ∧ ("workflow" ∈ completed → Finished d work)
  passed info work w := Kept ex d w.results info.runId work
  laws := source_laws p ex d dep

section executor

variable {dep : Deployment} {info : RunInfo} {completed : List String} {w w' : World} {work : Work}

/-- A call that publishes no step's task keeps the contract. -/
theorem source_idle {op : StageOp} {r : Except Exn op.Ans} (idle : ∀ step ∈ d.steps, ¬ Dispatches d step op)
    (valid : (sourceContract p ex d dep).valid w) (law : (sourceContract p ex d dep).sem w (.stage info op) w' r) :
    (sourceContract p ex d dep).valid w' ∧ (sourceContract p ex d dep).guar w w' := by
  refine source_call (by rintro _ _ _ ⟨⟩) (by rintro _ ⟨⟩) ?_ valid law
  rintro _ q ⟨⟩ step member named
  exact absurd named (idle step member)

/-- What is put down as completed keeps the steps that were. -/
theorem Finished.put (finished : Finished d work) (id : StepId) (output : Dict String Json) :
    Finished d (work.setWorkflow (.putOutput id output)) := by
  intro step member
  rw [workflow_setWorkflow, completed_putOutput]
  exact .inr (finished step member)

/-- An output is put down for a step that is awaited only where it is its first result's. -/
theorem Kept.put {results : List ResultEnvelope} {r : RunId} (kept : Kept ex d results r work) {id : StepId}
    {output : Dict String Json}
    (first : ∀ step ∈ d.steps, step.id = id → ex.Queues step → FirstResult results r id output) :
    Kept ex d results r (work.setWorkflow (.putOutput id output)) := by
  refine ⟨fun step member queues output' found => ?_, fun named => (kept.finished named).put id output⟩
  rw [workflow_setWorkflow, WorkflowState.putOutput] at found
  simp only [Data.Dict.get_set] at found
  split at found
  · next same =>
      cases found
      rw [← same]
      exact first step member same.symm queues
  · exact kept.sourced step member queues output' found

/-- A step's task is bound from the outputs there are. -/
theorem dispatched_consumes (accepted : d.Accepted) {step : WorkflowStep} (member : step ∈ d.steps)
    (ready : ∀ dep ∈ step.dependsOn, work.workflow.completed dep = true)
    (sourced : Sourced ex d w.results info.runId work) {q : Publication}
    (calls : Dispatching p (WorkflowExecutor.delegation p ex d info step work) info (.publishTask q)) :
    Consumes p ex d w.results (w.messageOf info q).message := by
  intro other inside named
  have same : other = step := accepted.eq_of_id inside member (dispatching_step calls named)
  subst same
  refine ⟨info, work, rfl, ?_, ready, sourced⟩
  simp only [messageOf, buildTaskMessage]
  rw [calls]
  rfl

theorem dispatch_sourced (accepted : d.Accepted) {step : WorkflowStep} (member : step ∈ d.steps)
    (ready : ∀ dep ∈ step.dependsOn, work.workflow.completed dep = true)
    (entered : (sourceRule p ex d dep).entered info completed work w) :
    (ex.coordinator.dispatch p (WorkflowExecutor.delegation p ex d info step work) info).Safe
      ((sourceContract p ex d dep).pull (S := StageSig) (.stage info) fun _ r => r)
      (fun _ work' w' => work' = work ∧ (sourceRule p ex d dep).entered info completed work w') work w := by
  refine dispatch_safe (sourceRule p ex d dep) ((sourceRule p ex d dep).laws.entered_stable info completed work) ?_ entered
  intro op w w' r calls valid entered law
  refine source_call (by rintro _ _ _ ⟨⟩) (by rintro _ ⟨⟩) ?_ valid law
  rintro _ q ⟨⟩
  exact dispatched_consumes accepted member ready entered.1.sourced calls

/-- What a task leaves: an output of its own only where it is run in process. -/
theorem runTask_sourced (accepted : d.Accepted) {step : WorkflowStep} (member : step ∈ d.steps)
    (ready : ∀ dep ∈ step.dependsOn, work.workflow.completed dep = true)
    (valid : (sourceContract p ex d dep).valid w)
    (entered : (sourceRule p ex d dep).entered info completed work w) :
    (sourceRule p ex d dep).Leaves info completed (WorkflowExecutor.runTask p ex d info step) work w := by
  have steady : DriveRule.Steady (sourceRule p ex d dep) info fun work w =>
      (∀ dep ∈ step.dependsOn, work.workflow.completed dep = true) ∧
        (sourceRule p ex d dep).entered info completed work w :=
    ⟨fun work w w' h moved valid => ⟨h.1, (sourceRule p ex d dep).laws.entered_stable info completed work w w' h.2 moved valid⟩,
      fun h => h.2.1⟩
  refine runTask_leaves valid (approve_keeps steady (source_idle fun _ _ => id) ?_ work w valid ⟨ready, entered⟩)
    And.right (fun {work w} _ h => ?_) (fun {work w} sub process entered => ?_) fun {work w} entered => ?_
  · intro work w h
    exact ⟨h.1, ⟨⟨h.2.1.sourced, h.2.1.finished⟩, h.2.2⟩⟩
  · refine Act.Safe.weaken (dispatch_sourced accepted member h.1 h.2) ?_
    rintro r work' w' _ ⟨rfl, entered⟩
    cases r with
    | ok a => exact entered
    | error e => exact entered.1
  · refine ⟨entered.1.put fun other inside same queues => ?_, fun named => (entered.2 named).put _ _⟩
    rw [accepted.eq_of_id inside member same] at queues
    exact absurd process queues.2
  · exact ⟨⟨entered.1.sourced, entered.1.finished⟩, entered.2⟩

/-- The first of the results listed for a step is its first result. -/
theorem listed_first {id : StepId} {first : ResultEnvelope} {rest : List ResultEnvelope}
    (law : (sourceContract p ex d dep).sem w (.stage info (.listResults id)) w' (.ok (first :: rest))) :
    FirstResult w.results info.runId id first.result.output := by
  obtain ⟨c, done⟩ := law
  have answered : (perform dep c w (.stage info (.listResults id))).2 = .ok (first :: rest) :=
    congrArg Prod.snd done
  have read := (congrArg Prod.snd (perform_ok answered)).symm.trans answered
  simp only [effect, stageEffect, Except.ok.injEq] at read
  exact ⟨first, by rw [read]; rfl, rfl⟩

theorem source_invocation (accepted : d.Accepted) : Invocation (sourceRule p ex d dep) p ex d where
  started entered := ⟨⟨entered.1.sourced, entered.1.finished⟩, entered.2⟩
  listed {info completed work w w' step r} _ valid entered _ law := by
    obtain ⟨valid', grown⟩ := source_idle (fun _ _ => id) valid law
    refine ⟨valid', grown, ?_⟩
    rintro first rest rfl
    refine ⟨Kept.put (entered.1.mono grown) fun step _ _ _ => (listed_first law).mono grown, fun named => ?_⟩
    exact (entered.2 named).put step.id first.result.output
  task valid entered member _ ready := runTask_sourced accepted member ready valid entered
  gate {info completed work w step} entered member kind _ := by
    refine ⟨entered.1.put fun other inside same queues => ?_, fun named => (entered.2 named).put _ _⟩
    rw [accepted.eq_of_id inside member same] at queues
    exact absurd (kind.symm.trans queues.1) (by decide)
  parked _ entered := ⟨entered.1.sourced, entered.1.finished⟩
  clock := source_idle fun _ _ => id
  settled _ entered finished := ⟨⟨entered.1.sourced, entered.1.finished⟩, fun _ => finished⟩

end executor

/-- Whatever its calls answer, the stage leaves the workflow state and the record of the stages alone. -/
def PipelineStage.LeavesRecords (stage : PipelineStage) : Prop :=
  ∀ info work, (stage.execute info work).Yields fun out =>
    out.2.extras.workflow = work.extras.workflow ∧ out.2.extras.completedStages = work.extras.completedStages

/-- A pipeline with one workflow stage, the others keeping out of its way. -/
structure Orchestrator.Runs (o : Orchestrator) (p : Platform) (ex : WorkflowExecutor) (d : WorkflowDefinition)
    (extra : Dict String Json) (before after : List PipelineStage) : Prop where
  pipeline : o.l1.pipeline = before ++ workflowStage p ex d extra :: after
  named : ∀ stage ∈ before ++ after, stage.name ≠ "workflow"
  quiet : ∀ stage ∈ before ++ after, stage.LeavesRecords
  idle : ∀ stage ∈ before ++ after, ∀ info,
    (stage.execute info).Uses fun op => ∀ step ∈ d.steps, ¬ Dispatches d step op

section runs

variable {o : Orchestrator} {extra : Dict String Json} {before after : List PipelineStage}

theorem Orchestrator.Runs.takes (runs : o.Runs p ex d extra before after) (accepted : d.Accepted) (dep : Deployment)
    (info : RunInfo) : ∀ stage ∈ o.l1.pipeline, (sourceRule p ex d dep).Takes info stage := by
  intro stage inside
  rw [runs.pipeline, List.mem_append, List.mem_cons] at inside
  have other : stage ∈ before ++ after → (sourceRule p ex d dep).Takes info stage := by
    intro member
    refine quiet_takes (T := fun work work' => work'.extras.workflow = work.extras.workflow ∧
      work'.extras.completedStages = work.extras.completedStages) (runs.quiet stage member info) (runs.idle stage member info) source_idle ?_
    intro completed work work' w same entered
    have still : work'.workflow = work.workflow := by
      simp only [Work.workflow]
      rw [same.1]
    refine ⟨⟨fun step inside queues output found => ?_, fun recorded step inside => ?_⟩, fun passed step inside => ?_⟩
    · rw [still] at found
      exact entered.1.sourced step inside queues output found
    · rw [still]
      rw [same.2] at recorded
      exact entered.1.finished recorded step inside
    · rw [still]
      rcases List.mem_append.mp passed with old | new
      · exact entered.2 old step inside
      · exact absurd (List.mem_singleton.mp new).symm (runs.named stage member)
  rcases inside with first | rfl | last
  · exact other (List.mem_append_left _ first)
  · exact workflowStage_takes (source_invocation accepted)
      fun entered => ⟨⟨entered.1.sourced, entered.1.finished⟩, entered.2⟩
  · exact other (List.mem_append_right _ last)

/-- Every program of such an orchestrator keeps the contract. -/
theorem Orchestrator.Runs.safe (runs : o.Runs p ex d extra before after) (accepted : d.Accepted) {dep : Deployment}
    (a : Actor) {w : World} (valid : (sourceContract p ex d dep).valid w) :
    (o.program a).Safe (sourceContract p ex d dep) (fun _ _ => True) w := by
  refine (sourceRule p ex d dep).program_safe (runs.takes accepted dep) ?_ a valid
  intro info completed work w w' r entered names valid law
  refine source_complete ⟨work, entered.2 (names (workflowStage p ex d extra) ?_), entered.1.sourced⟩ valid law
  rw [runs.pipeline]
  exact List.mem_append_right _ List.mem_cons_self

theorem source_fresh (registry : List RegistryEntry) (rulesets : String → String → Option LoadedRuleset)
    (clock : Int) (dep : Deployment) : (sourceContract p ex d dep).valid (World.fresh registry rulesets clock) := by
  refine ⟨fun m none => ?_, fun r label blob none => ?_, fun r none => ?_⟩
  · cases none
  · cases none
  · cases none

end runs

/-- A pool of such programs rests on first results, and goes on from it adding results only. -/
theorem rests_on_first {G A Ch E : Type} {M : Machine RunSig World Ch A E G} {o : Orchestrator} {extra : Dict String Json}
    {before after : List PipelineStage} (runs : o.Runs p ex d extra before after) (accepted : d.Accepted)
    (obeys : M.Obeys (sourceContract p ex d o.deployment) fun _ _ => true)
    (programs : ∀ a, ∃ actor, M.program a = o.program actor) {start q : Pool RunSig World G}
    (run : Machine.Run M (fun _ _ => true) start q) (fresh : Machine.AllSafe (sourceContract p ex d o.deployment) start) :
    Machine.AllSafe (sourceContract p ex d o.deployment) q ∧ FromFirst p ex d q.world ∧
      start.world.results <+: q.world.results := by
  obtain ⟨safe, grown⟩ := run.allSafe obeys (fun _ a _ valid => by
    obtain ⟨actor, same⟩ := programs a
    rw [same]
    exact runs.safe accepted actor valid) fresh
  obtain ⟨published, saved, completed⟩ := safe.1
  exact ⟨safe, ⟨published, fun r label blob found sc read => (saved r label blob found sc read).sourced, completed⟩, grown⟩

/-- Whatever the results report and in whichever order they arrive, a queue step is completed from the
first one stored for it, and no later one takes its place. -/
theorem completed_from_first (o : Orchestrator) (p : Platform) (ex : WorkflowExecutor) (d : WorkflowDefinition)
    (accepted : d.Accepted) (extra : Dict String Json) (before after : List PipelineStage)
    (runs : o.Runs p ex d extra before after) (registry : List RegistryEntry)
    (rulesets : String → String → Option LoadedRuleset) (clock : Int) {q q' : Pool RunSig World Unit}
    (run : Machine.Run o.untracked (fun _ _ => true) (Orchestrator.start Unit (World.fresh registry rulesets clock)) q)
    (later : Machine.Run o.untracked (fun _ _ => true) q q') :
    FromFirst p ex d q.world ∧ ∀ r id output, FirstResult q.world.results r id output →
      FirstResult q'.world.results r id output := by
  have obeys : o.untracked.Obeys (sourceContract p ex d o.deployment) fun _ _ => true :=
    ⟨fun _ _ c _ _ _ _ _ _ => ⟨c, rfl⟩, fun _ _ => id, fun p e _ valid => by cases e <;> exact ⟨valid, List.prefix_rfl⟩⟩
  have fresh : Machine.AllSafe (sourceContract p ex d o.deployment)
      (Orchestrator.start Unit (World.fresh registry rulesets clock)) :=
    ⟨source_fresh registry rulesets clock o.deployment, fun b none => by cases none⟩
  obtain ⟨safe, first, _⟩ := rests_on_first runs accepted obeys (fun a => ⟨a, rfl⟩) run fresh
  obtain ⟨_, _, grown⟩ := rests_on_first runs accepted obeys (fun a => ⟨a, rfl⟩) later safe
  exact ⟨first, fun r id output stored => stored.mono grown⟩

namespace Sample

theorem orchestrator_runs (d : WorkflowDefinition) : (orchestrator d).Runs platform executor d [] [] [] where
  pipeline := rfl
  named _ none := by cases none
  quiet _ none := by cases none
  idle _ none := by cases none

/-- An agent's answer that its task failed. -/
def failed : Delivery where
  decoded := .ok {
    runId := "r"
    stepRef := "a"
    taskId := "a"
    idempotencyKey := "a"
    tenantId := "t"
    result := { status := "error", taskId := "a", error := some "no such table" } }

end Sample

open Sample in
/-- The step's result arrives, and the run is completed from it. -/
theorem completed_from_first_single : ∃ q : Pool RunSig World Unit, q.world.statusOf "r" = some .completed ∧
    FromFirst platform executor single q.world := by
  obtain ⟨q, run, done⟩ := Machine.follow_any (orchestrator single).untracked (fun _ _ => true)
    (Orchestrator.start Unit (World.fresh [] (fun _ _ => none) 0))
    ([.spawn (.run "g" tenant none)] ++ calls 0 12 ++ [.spawn (.handle (resultOf "a"))] ++ calls 1 12)
    (fun q => decide (q.world.statusOf "r" = some .completed)) (by decide +kernel)
  exact ⟨q, of_decide_eq_true done, (completed_from_first (orchestrator single) platform executor single
    (by decide +kernel) [] [] [] (orchestrator_runs single) _ _ _ run (.refl q)).1⟩

open Sample in
/-- A failure is all that is stored for the step, and the run is completed. -/
theorem failure_completes : ¬ ∀ (o : Orchestrator) (p : Platform) (ex : WorkflowExecutor) (d : WorkflowDefinition),
    d.Accepted → ∀ (extra : Dict String Json) (before after : List PipelineStage), o.Runs p ex d extra before after →
    ∀ (registry : List RegistryEntry) (rulesets : String → String → Option LoadedRuleset) (clock : Int)
      (q : Pool RunSig World Unit),
    Machine.Run o.untracked (fun _ _ => true) (Orchestrator.start Unit (World.fresh registry rulesets clock)) q →
    ∀ r, q.world.statusOf r = some .completed → ∀ step ∈ d.steps, ex.Queues step →
      ∃ e ∈ q.world.results, e.runId = r ∧ e.stepRef = step.id ∧
        e.result.status ≠ "error" ∧ e.result.status ≠ "failed" ∧ e.result.error = none := by
  intro succeeded
  obtain ⟨q, run, met⟩ := Machine.follow_any (orchestrator single).untracked (fun _ _ => true)
    (Orchestrator.start Unit (World.fresh [] (fun _ _ => none) 0))
    ([.spawn (.run "g" tenant none)] ++ calls 0 12 ++ [.spawn (.handle failed)] ++ calls 1 12)
    (fun q => decide (q.world.statusOf "r" = some .completed) &&
      q.world.results.all fun e => decide (e.result.status = "error")) (by decide +kernel)
  simp only [Bool.and_eq_true, decide_eq_true_eq, List.all_eq_true] at met
  obtain ⟨e, stored, _, _, fine, _⟩ := succeeded (orchestrator single) platform executor single (by decide +kernel)
    [] [] [] (orchestrator_runs single) _ _ _ q run "r" met.1 _ List.mem_cons_self ⟨rfl, by decide⟩
  exact fine (met.2 e stored)

end Maof
