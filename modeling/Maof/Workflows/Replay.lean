import Maof.Workflows.Ledger

/-!
# Replays

A step may be published again: after a crash, by a second process, in another
execution. Its message is bound from the run's goal, the flags in the envelope,
what the stage was given and the first results of the steps it reads, and none of
these can change in between but the flags, which the message shows.
-/

namespace Maof

open Effects (Machine Pool)
open Data (Dict)
open World

/-- The step's templates read outputs only of steps it waits for, and whose results come back through the queue. -/
def WorkflowExecutor.ReadsBehind (p : Platform) (ex : WorkflowExecutor) (d : WorkflowDefinition) (step : WorkflowStep) : Prop :=
  ∀ id ∈ Template.fieldReads p.unicode step.input, id ∈ step.dependsOn ∧ ∃ other ∈ d.steps, other.id = id ∧ ex.Queues other

/-- The entries of the workflow's own context. -/
def Work.context (work : Work) : Dict String Json := work.extras.workflowContext.getD []

namespace Replay

variable (p : Platform) (ex : WorkflowExecutor) (d : WorkflowDefinition) (extra : Dict String Json)

/-- What a run's context says of the run is so. -/
structure Stands (w : World) (info : RunInfo) (work : Work) : Prop where
  sourced : Sourced ex d w.results info.runId work
  goal : w.goalOf info.runId = some info.goal
  entries : work.context = [] ∨ work.context = Dict.update [] extra

/-- And the stage has put down what it was given. -/
structure Furnished (w : World) (info : RunInfo) (work : Work) : Prop extends Stands ex d extra w info work where
  given : work.context = Dict.update [] extra

/-- A message of a step is made from what a context says once the step's dependencies are completed. -/
def Derived (w : World) (m : TaskMessage) : Prop :=
  ∀ step ∈ d.steps, m.task.description = WorkflowExecutor.objective d step → ∃ info work,
    info.runId = m.envelope.runId ∧ work.flags = m.policyFlags ∧
      m.task = QueueDispatcher.taskOf p (WorkflowExecutor.delegation p ex d info step work) info work ∧
        (∀ dep ∈ step.dependsOn, work.workflow.completed dep = true) ∧ Furnished ex d extra w info work

variable {p ex d extra}

section grown

variable {w w' : World} {info : RunInfo} {work work' : Work} (grown : w.Grown w')
include grown

theorem Stands.mono (stands : Stands ex d extra w info work) : Stands ex d extra w' info work :=
  ⟨stands.sourced.mono grown.1, grown.2 _ _ stands.goal, stands.entries⟩

theorem Furnished.mono (furnished : Furnished ex d extra w info work) : Furnished ex d extra w' info work :=
  ⟨furnished.toStands.mono grown, furnished.given⟩

theorem Derived.mono {m : TaskMessage} (derived : Derived p ex d extra w m) : Derived p ex d extra w' m := by
  intro step member named
  obtain ⟨info, work, run, flags, made, ready, furnished⟩ := derived step member named
  exact ⟨info, work, run, flags, made, ready, furnished.mono grown⟩

end grown

section contexts

variable {w : World} {info : RunInfo} {work work' : Work}

theorem Stands.rewrite (stands : Stands ex d extra w info work) (outputs : work'.workflow.outputs = work.workflow.outputs)
    (same : work'.context = work.context) : Stands ex d extra w info work' := by
  refine ⟨stands.sourced.rewrite outputs, stands.goal, ?_⟩
  rw [same]
  exact stands.entries

theorem Furnished.rewrite (furnished : Furnished ex d extra w info work) (outputs : work'.workflow.outputs = work.workflow.outputs)
    (same : work'.context = work.context) : Furnished ex d extra w info work' :=
  ⟨furnished.toStands.rewrite outputs same, same.trans furnished.given⟩

theorem Stands.blank {runId : RunId} {tenant : TenantContext} {goal : String} (principal : Option Principal)
    (known : w.goalOf runId = some goal) : Stands ex d extra w { runId, tenant, goal, principal } {} :=
  ⟨Sourced.blank w runId, known, .inl rfl⟩

/-- Whatever entries there were, the stage's own are put down. -/
theorem Stands.furnish (stands : Stands ex d extra w info work) : Furnished ex d extra w info { work with extras := { work.extras with
    workflowContext := some (Dict.update work.context extra) } } := by
  have put : Dict.update work.context extra = Dict.update [] extra := by
    rcases stands.entries with none | given
    · rw [none]
    · rw [given]
      exact Dict.update_again List.nodup_nil
  exact ⟨⟨stands.sourced, stands.goal, .inr put⟩, put⟩

end contexts

/-- Contexts say what stands, and messages are derived. -/
def ledger (p : Platform) (ex : WorkflowExecutor) (d : WorkflowDefinition) (extra : Dict String Json) : Ledger where
  states w info work := Stands ex d extra w info work
  tells w m := Derived p ex d extra w m
  states_grown grown stands := stands.mono grown
  tells_grown grown derived := derived.mono grown
  note _ stands := stands.rewrite rfl rfl
  record _ stands := stands.rewrite rfl rfl
  restored stands := ⟨stands.sourced, stands.goal, stands.entries⟩
  start principal known := Stands.blank principal known

def held (accepted : d.Accepted) : (ledger p ex d extra).Held p ex d where
  held w info work := Furnished ex d extra w info work
  states := Furnished.toStands
  grown grown furnished := furnished.mono grown
  same furnished outputs _ given := furnished.rewrite outputs (congrArg (fun c => Option.getD c []) given)
  put furnished first := ⟨⟨furnished.sourced.put first, furnished.goal, furnished.entries⟩, furnished.given⟩
  tells {w info work step q} furnished member ready here made other inside named := by
    subst here
    have calls : Dispatching p (WorkflowExecutor.delegation p ex d info step q.work) info (.publishTask q) := made
    obtain rfl := accepted.eq_of_id inside member (dispatching_step calls named)
    exact ⟨info, q.work, rfl, rfl, made, ready, furnished⟩

/-- The stages beside the workflow leave its own context alone. -/
def Undisturbed (before after : List PipelineStage) : Prop :=
  ∀ stage ∈ before ++ after, ∀ info work, (stage.execute info work).Yields fun out => out.2.context = work.context

section runs

variable {o : Orchestrator} {before after : List PipelineStage}

theorem takes (runs : o.Runs p ex d extra before after) (accepted : d.Accepted) (undisturbed : Undisturbed before after)
    (dep : Deployment) (info : RunInfo) : ∀ stage ∈ o.l1.pipeline, ((ledger p ex d extra).rule dep).Takes info stage := by
  intro stage inside
  rw [runs.pipeline, List.mem_append, List.mem_cons] at inside
  have other : stage ∈ before ++ after → ((ledger p ex d extra).rule dep).Takes info stage := by
    intro member
    refine quiet_takes (T := fun work work' => work'.extras.workflow = work.extras.workflow ∧ work'.context = work.context)
      (fun work => ?_) (runs.idle stage member info) (fun idle valid law => ?_) ?_
    · exact ((runs.quiet stage member info work).and (undisturbed stage member info work)).weaken fun _ both => ⟨both.1.1, both.2⟩
    · refine Ledger.call (by rintro _ _ _ ⟨⟩) ?_ valid law
      rintro _ q ⟨⟩ step member named
      exact absurd named (idle step member)
    · intro completed work work' w same stands
      refine Stands.rewrite stands ?_ same.2
      simp only [Work.workflow, same.1]
  rcases inside with first | rfl | last
  · exact other (List.mem_append_left _ first)
  · refine Ledger.workflowStage_states (held accepted) accepted Stands.furnish ?_
    rintro rfl w info work stands
    exact ⟨stands, stands.entries.elim id id⟩
  · exact other (List.mem_append_right _ last)

/-- Every message that is published is derived. -/
theorem derived (runs : o.Runs p ex d extra before after) (accepted : d.Accepted) (undisturbed : Undisturbed before after)
    (registry : List RegistryEntry) (rulesets : String → String → Option LoadedRuleset) (clock : Int)
    {q : Pool RunSig World Unit} (run : Machine.Run o.untracked (fun _ _ => true)
      (Orchestrator.start Unit (World.fresh registry rulesets clock)) q) :
    ∀ m ∈ q.world.published, Derived p ex d extra q.world m.message := by
  obtain ⟨safe, obeys⟩ := Ledger.told (takes runs accepted undisturbed o.deployment)
  obtain ⟨⟨valid, _⟩, _⟩ := run.allSafe obeys (fun _ a _ valid => safe a valid)
    ((ledger p ex d extra).fresh_safe o.deployment registry rulesets clock)
  exact valid.1

end runs

/-! ## What is bound again -/

/-- The first results of the step's dependencies are the same in the one run and in the other. -/
def SameResults (w w' : World) (r r' : RunId) (step : WorkflowStep) : Prop :=
  ∀ id ∈ step.dependsOn, ∀ output output', FirstResult w.results r id output → FirstResult w'.results r' id output' →
    output = output'

/-- There is one first result. -/
theorem SameResults.rfl {w : World} {r : RunId} {step : WorkflowStep} : SameResults w w r r step := by
  rintro id _ output output' ⟨e, first, rfl⟩ ⟨e', first', rfl⟩
  rw [Option.some.inj (first.symm.trans first')]

section again

variable {w w' : World} {info info' : RunInfo} {work work' : Work} {step : WorkflowStep}

theorem context_eq (furnished : Furnished ex d extra w info work) (furnished' : Furnished ex d extra w' info' work')
    (goal : info.goal = info'.goal) (flags : work.flags = work'.flags) :
    WorkflowExecutor.context info work = WorkflowExecutor.context info' work' := by
  have given := furnished.given.trans furnished'.given.symm
  simp only [Work.context] at given
  simp only [Work.flags] at flags
  simp only [WorkflowExecutor.context, goal, flags, given]

/-- The outputs that a step's templates read are first results, wherever it is bound. -/
theorem outputs_agree (behind : ex.ReadsBehind p d step) (furnished : Furnished ex d extra w info work)
    (furnished' : Furnished ex d extra w' info' work') (ready : ∀ dep ∈ step.dependsOn, work.workflow.completed dep = true)
    (ready' : ∀ dep ∈ step.dependsOn, work'.workflow.completed dep = true)
    (results : SameResults w w' info.runId info'.runId step) :
    Template.AgreeOn (Template.fieldReads p.unicode step.input) work.workflow.outputs work'.workflow.outputs := by
  intro id read
  obtain ⟨depends, other, member, rfl, queues⟩ := behind id read
  obtain ⟨output, found⟩ := Option.isSome_iff_exists.mp (ready other.id depends)
  obtain ⟨output', found'⟩ := Option.isSome_iff_exists.mp (ready' other.id depends)
  rw [found, found']
  congr 1
  exact results other.id depends output output' (furnished.sourced other member queues output found)
    (furnished'.sourced other member queues output' found')

theorem bound_eq (behind : ex.ReadsBehind p d step) (furnished : Furnished ex d extra w info work)
    (furnished' : Furnished ex d extra w' info' work') (ready : ∀ dep ∈ step.dependsOn, work.workflow.completed dep = true)
    (ready' : ∀ dep ∈ step.dependsOn, work'.workflow.completed dep = true) (goal : info.goal = info'.goal)
    (flags : work.flags = work'.flags) (results : SameResults w w' info.runId info'.runId step) :
    WorkflowExecutor.bound p info step work = WorkflowExecutor.bound p info' step work' := by
  simp only [WorkflowExecutor.bound, context_eq furnished furnished' goal flags]
  exact Template.bindFields_agree step.input (outputs_agree behind furnished furnished' ready ready' results)

/-- Two messages of a step that were made of the same things say the same. -/
theorem Derived.agree {m m' : TaskMessage} (derived : Derived p ex d extra w m) (derived' : Derived p ex d extra w' m')
    (member : step ∈ d.steps) (behind : ex.ReadsBehind p d step) (named : m.task.description = WorkflowExecutor.objective d step)
    (named' : m'.task.description = WorkflowExecutor.objective d step) (flags : m.policyFlags = m'.policyFlags)
    (goals : w.goalOf m.envelope.runId = w'.goalOf m'.envelope.runId)
    (results : SameResults w w' m.envelope.runId m'.envelope.runId step) :
    m.task.payload = m'.task.payload ∧
      (m.envelope.runId = m'.envelope.runId → m.task.idempotencyKey = m'.task.idempotencyKey) := by
  obtain ⟨info, work, run, shown, made, ready, furnished⟩ := derived step member named
  obtain ⟨info', work', run', shown', made', ready', furnished'⟩ := derived' step member named'
  have goal : info.goal = info'.goal := by
    rw [← run, ← run', furnished.goal, furnished'.goal] at goals
    exact Option.some.inj goals
  have bound := bound_eq behind furnished furnished' ready ready' goal (shown.trans (flags.trans shown'.symm))
    (run ▸ run' ▸ results)
  rw [made, made']
  refine ⟨bound, fun same => ?_⟩
  simp only [QueueDispatcher.taskOf, QueueDispatcher.keyOf, QueueDispatcher.stepId, WorkflowExecutor.delegation,
    QueueDispatcher.stepRef, bound, run.trans (same.trans run'.symm)]

/-- Messages of different steps have different keys. -/
theorem Derived.apart {m m' : TaskMessage} (derived : Derived p ex d extra w m) (derived' : Derived p ex d extra w' m')
    (injective : Function.Injective p.sha256) {other : WorkflowStep} (member : step ∈ d.steps) (member' : other ∈ d.steps)
    (named : m.task.description = WorkflowExecutor.objective d step)
    (named' : m'.task.description = WorkflowExecutor.objective d other) (differ : step.id ≠ other.id) :
    m.task.idempotencyKey ≠ m'.task.idempotencyKey := by
  obtain ⟨info, work, _, _, made, _⟩ := derived step member named
  obtain ⟨info', work', _, _, made', _⟩ := derived' other member' named'
  rw [made, made']
  exact makeIdempotencyKey_ne injective fun same => differ (objective_injective same)

end again

end Replay

/-- However often a run crashes and is taken up again, by however many processes: all messages of a step under the same flags
carry one payload and one key, and messages of different steps never share a key. -/
theorem replays_agree (o : Orchestrator) (p : Platform) (injective : Function.Injective p.sha256) (ex : WorkflowExecutor)
    (d : WorkflowDefinition) (accepted : d.Accepted) (extra : Dict String Json) (before after : List PipelineStage)
    (runs : o.Runs p ex d extra before after) (undisturbed : Replay.Undisturbed before after) (registry : List RegistryEntry)
    (rulesets : String → String → Option LoadedRuleset) (clock : Int) {q : Pool RunSig World Unit}
    (run : Machine.Run o.untracked (fun _ _ => true) (Orchestrator.start Unit (World.fresh registry rulesets clock)) q) :
    ∀ m ∈ q.world.published, ∀ m' ∈ q.world.published, m.message.envelope.runId = m'.message.envelope.runId →
      ∀ step ∈ d.steps, m.message.task.description = WorkflowExecutor.objective d step →
        (ex.ReadsBehind p d step → m'.message.task.description = WorkflowExecutor.objective d step →
          m.message.policyFlags = m'.message.policyFlags → m.message.task.payload = m'.message.task.payload ∧
            m.message.task.idempotencyKey = m'.message.task.idempotencyKey) ∧
        ∀ other ∈ d.steps, other ≠ step → m'.message.task.description = WorkflowExecutor.objective d other →
          m.message.task.idempotencyKey ≠ m'.message.task.idempotencyKey := by
  intro m published m' published' same step member named
  have derived := Replay.derived runs accepted undisturbed registry rulesets clock run
  constructor
  · intro behind named' flags
    have goals : q.world.goalOf m.message.envelope.runId = q.world.goalOf m'.message.envelope.runId := by rw [same]
    have results : Replay.SameResults q.world q.world m.message.envelope.runId m'.message.envelope.runId step := by
      rw [same]
      exact .rfl
    obtain ⟨payload, key⟩ := (derived m published).agree (derived m' published') member behind named named' flags goals results
    exact ⟨payload, key same⟩
  · intro other member' differ named'
    exact (derived m published).apart (derived m' published') injective member member' named named' fun ids =>
      differ (accepted.eq_of_id member' member ids.symm)

namespace Sample

/-- Two steps, and one that reads what both put out. -/
def merging : WorkflowDefinition where
  name := "w"
  version := 1
  steps := [{ id := "a" }, { id := "b" }, {
    id := "c"
    dependsOn := ["a", "b"]
    input := [("x", .str "{{ steps.a.output.x }}"), ("y", .str "{{ steps.b.output.x }}")] }]

/-- The result of a step, with an output. -/
def outcomeOf (step : StepId) (x : String) : Delivery where
  decoded := .ok {
    runId := "r"
    stepRef := step
    taskId := step
    idempotencyKey := step
    tenantId := "t"
    result := { status := "ok", taskId := step, output := [("x", .str x)] } }

/-- The results arrive one after the other; the process that publishes the last step dies, and the run is taken up again. -/
def merged (first second : Delivery) (early : Nat) : List (Effects.Label Choice Actor EnvMove) :=
  [.spawn (.run "g" tenant none)] ++ calls 0 17 ++ [.spawn (.handle first)] ++ calls 1 early ++ [.spawn (.handle second)] ++
    calls 2 11 ++ [.kill 2, .spawn (.resume "r")] ++ calls 3 9

/-- Four messages of one run, the last of them the step's again. -/
def mergedTwice (q : Pool RunSig World Unit) : Bool :=
  decide (q.world.published.length = 4) && q.world.published.all fun m => decide (m.message.envelope.runId = "r") &&
    m.message.policyFlags.isEmpty

theorem merging_behind : ∀ step ∈ merging.steps, executor.ReadsBehind platform merging step := by
  have first : Template.fieldReads platform.unicode [] = [] := rfl
  have last : Template.fieldReads platform.unicode
      [("x", .str "{{ steps.a.output.x }}"), ("y", .str "{{ steps.b.output.x }}")] = ["a", "b"] := by decide +kernel
  intro step member id read
  simp only [merging, List.mem_cons, List.not_mem_nil, or_false] at member
  rcases member with rfl | rfl | rfl
  · rw [first] at read
    cases read
  · rw [first] at read
    cases read
  · rw [last] at read
    rcases List.mem_cons.mp read with rfl | rest
    · exact ⟨List.mem_cons_self, _, List.mem_cons_self, rfl, rfl, by decide⟩
    · obtain rfl := List.mem_singleton.mp rest
      exact ⟨List.mem_cons_of_mem _ List.mem_cons_self, _, List.mem_cons_of_mem _ List.mem_cons_self, rfl, rfl, by decide⟩

end Sample

open Sample in
/-- The merging step is handed out twice, under one key. -/
theorem replays_agree_merged : ∃ q : Pool RunSig World Unit, mergedTwice q = true ∧
    ∀ m ∈ q.world.published, ∀ m' ∈ q.world.published, ∀ step ∈ merging.steps,
      m.message.task.description = WorkflowExecutor.objective merging step →
        m'.message.task.description = WorkflowExecutor.objective merging step →
          m.message.task.idempotencyKey = m'.message.task.idempotencyKey := by
  obtain ⟨q, run, met⟩ := Machine.follow_any (orchestrator merging).untracked (fun _ _ => true)
    (Orchestrator.start Unit (World.fresh [] (fun _ _ => none) 0)) (merged (outcomeOf "a" "1") (outcomeOf "b" "2") 13)
    mergedTwice (by decide +kernel)
  refine ⟨q, met, fun m published m' published' step member named named' => ?_⟩
  simp only [mergedTwice, Bool.and_eq_true, decide_eq_true_eq, List.all_eq_true, List.isEmpty_iff] at met
  have agree := (replays_agree (orchestrator merging) platform Function.injective_id executor merging (by decide +kernel) [] [] []
    (orchestrator_runs merging) (fun _ none => absurd none List.not_mem_nil) _ _ _ run m published m' published'
    ((met.2 m published).1.trans (met.2 m' published').1.symm) step member named).1
  exact (agree (merging_behind step member) named' ((met.2 m published).2.trans (met.2 m' published').2.symm)).2

namespace Sample

/-- The first results of the two steps, as they were delivered. -/
def delivered (q : Pool RunSig World Unit) : Bool :=
  decide ((q.world.runs "r").map RunState.goal = some "g") && [("a", "1"), ("b", "2")].all fun expected =>
    match (ResultStore.list q.world.results "r" expected.1).head? with
    | some { result := { output := [("x", .str x)], .. }, .. } => decide (x = expected.2)
    | _ => false

end Sample

end Maof
