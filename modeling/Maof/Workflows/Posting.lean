import Maof.Data.JsonUnique
import Maof.Workflows.Parking
import Maof.Workflows.Traversal

/-!
# What a drive waits for was posted

The executor puts a step down as dispatched when the coordinator's call has
returned, and a join is for a step that was put down. Where the coordinator
hands every such step to its queue, the drive schedules no join but for a step
whose task message it published, or found published when it took the run up.
-/

namespace Maof

open Data (Dict)
open Effects (Act Prog Protocol Machine Pool Proc Label)

/-! ## The key of a dispatch -/

/-- The key a step's task is published under. -/
def stepKey (p : Platform) (d : WorkflowDefinition) (step : WorkflowStep) (r : RunId) (taskType : String)
    (payload : Dict String Json) : String :=
  makeIdempotencyKey p.sha256 r (r ++ ":" ++ step.id ++ ":" ++ taskType) taskType
    (taskBody taskType (WorkflowExecutor.objective d step) payload)

section key

variable {p : Platform} {d : WorkflowDefinition} {step step' : WorkflowStep} {r r' taskType taskType' : String}
  {payload payload' : Dict String Json}

theorem objective_inj (same : WorkflowExecutor.objective d step = WorkflowExecutor.objective d step') : step.id = step'.id := by
  have texts := congrArg String.toList same
  simp only [WorkflowExecutor.objective, String.toList_append] at texts
  exact String.toList_injective (List.append_cancel_left texts)

/-- The body of a task names its type. -/
theorem taskBody_type_inj {description description' : String}
    (same : JsonText.canonical (taskBody taskType description payload) = JsonText.canonical (taskBody taskType' description' payload')) :
    taskType = taskType' := by
  have read := JsonText.get_of_normal (by simp [Dict.keys]) (JsonText.normal_of_canonical same) "task_type"
  have texts : JsonText.normal (.str taskType) = JsonText.normal (.str taskType') := Option.some.inj read
  exact Json.str.inj (JsonText.str_of_normal texts)

/-- A key is of one step of one run. -/
theorem stepKey_inj (injective : Function.Injective p.sha256)
    (same : stepKey p d step r taskType payload = stepKey p d step' r' taskType' payload') :
    step.id = step'.id ∧ r = r' := by
  have material := String.ofList_injective (injective same)
  have bodies := canonical_of_material material
  have ids := objective_inj (taskBody_description_inj bodies)
  have types := taskBody_type_inj bodies
  refine ⟨ids, ?_⟩
  rw [keyMaterial, keyMaterial, bodies, types, ids] at material
  simp only [String.toList_append] at material
  -- the run's id stands twice in what is left, and the rest is the same
  have lengths : r.toList.length = r'.toList.length := by
    have counted := congrArg List.length material
    simp only [List.length_append, List.length_cons] at counted
    omega
  exact String.toList_injective (List.append_inj_left material lengths)

/-- The key the dispatcher makes of a step's delegation. -/
theorem keyOf_delegation {ex : WorkflowExecutor} {info : RunInfo} {work : Work} (named : step.id ≠ "") :
    QueueDispatcher.keyOf p (WorkflowExecutor.delegation p ex d info step work) r =
      stepKey p d step r (WorkflowExecutor.delegation p ex d info step work).routedType
        (WorkflowExecutor.bound p info step work) := by
  simp only [QueueDispatcher.keyOf, QueueDispatcher.stepId, QueueDispatcher.stepRef, WorkflowExecutor.delegation, orElse,
    if_neg named, stepKey]

end key

/-! ## The history -/

/-- What a process knows of task messages: steps of runs put down as dispatched when it took a
run up, and the keys it has published under. -/
structure Posts where
  known : List (RunId × StepId) := []
  keys : List String := []

namespace Posts

def mark (g : Posts) : (op : Op) → Except Exn op.Ans → Posts
  | .load _, .ok (some blob) => match checkpointDeserialize blob with
      | .ok sc => { g with known := g.known ++ sc.work.workflow.dispatched.map fun id => (sc.info.runId, id) }
      | .error _ => g
  | .stage _ (.publishTask q), .ok _ => { g with keys := g.keys ++ [q.task.idempotencyKey] }
  | _, _ => g

/-- The step of the run has its message. -/
def Has (p : Platform) (d : WorkflowDefinition) (g : Posts) (r : RunId) (id : StepId) : Prop :=
  (r, id) ∈ g.known ∨ ∃ step ∈ d.steps, step.id = id ∧ step.id ≠ "" ∧
    ∃ taskType payload, stepKey p d step r taskType payload ∈ g.keys

/-- What was known stays known. -/
structure Grows (g g' : Posts) : Prop where
  known : g.known ⊆ g'.known
  keys : g.keys ⊆ g'.keys

theorem Grows.refl (g : Posts) : g.Grows g := ⟨List.Subset.refl _, List.Subset.refl _⟩

theorem Grows.trans {g g' g'' : Posts} (first : g.Grows g') (rest : g'.Grows g'') : g.Grows g'' :=
  ⟨List.Subset.trans first.known rest.known, List.Subset.trans first.keys rest.keys⟩

theorem Has.grows {p : Platform} {d : WorkflowDefinition} {g g' : Posts} {r : RunId} {id : StepId} (has : g.Has p d r id)
    (grown : g.Grows g') : g'.Has p d r id := by
  rcases has with told | ⟨step, member, same, named, taskType, payload, published⟩
  · exact .inl (grown.known told)
  · exact .inr ⟨step, member, same, named, taskType, payload, grown.keys published⟩

theorem mark_grows (g : Posts) (op : Op) (reply : Except Exn op.Ans) : g.Grows (mark g op reply) := by
  unfold mark
  split
  · split
    · exact ⟨List.subset_append_left _ _, List.Subset.refl _⟩
    · exact Grows.refl g
  · exact ⟨List.Subset.refl _, List.subset_append_left _ _⟩
  · exact Grows.refl g

end Posts

/-- Every step put down as dispatched has its message. -/
def Told (p : Platform) (d : WorkflowDefinition) (info : RunInfo) (work : Work) (g : Posts) : Prop :=
  ∀ id ∈ work.workflow.dispatched, g.Has p d info.runId id

/-- A join is for a step that has its message. -/
def Posted (p : Platform) (d : WorkflowDefinition) (r : RunId) (condition : WakeCondition) (g : Posts) : Prop :=
  condition.kind = .resultsReady → ∀ id, condition.stepRef = some id → g.Has p d r id

/-- The task published under the key of a step is that step's task, of that run. -/
def Publication.Honest (p : Platform) (d : WorkflowDefinition) (r : RunId) (q : Publication) : Prop :=
  ∀ step ∈ d.steps, ∀ r' taskType payload, q.task.idempotencyKey = stepKey p d step r' taskType payload →
    r' = r ∧ q.task.stepRef = some step.id

namespace Posts

variable (p : Platform) (d : WorkflowDefinition)

def allowed (g : Posts) : Op → Prop
  | .save r _ blob => ∃ info work, blob = checkpointSerialize { info, work } ∧ info.runId = r ∧ Told p d info work g
  | .schedule r condition _ => Posted p d r condition g
  | .stage info (.publishTask q) => q.Honest p d info.runId
  | _ => True

def protocol : Protocol RunSig Posts := ⟨allowed p d, Watch.answers, mark⟩

/-- The stage's calls, seen by the process they are made in. -/
def stageProtocol (info : RunInfo) : Protocol StageSig Posts where
  allowed g op := allowed p d g (.stage info op)
  answers op reply := Watch.answers (.stage info op) reply
  mark g op reply := mark g (.stage info op) reply

end Posts

/-! ## The executor -/

/-- Every task step that is not run in process is handed to the queue, under an id of its own. -/
def Handed (ex : WorkflowExecutor) (d : WorkflowDefinition) : Prop :=
  ∀ step ∈ d.steps, step.kind = .task → ex.mode step ≠ "in_process" →
    step.id ≠ "" ∧ (orElse (some (ex.mode step)) ex.coordinator.defaultMode = "queue" ∨ ex.coordinator.inProcess = none)

section stage

variable {p : Platform} {ex : WorkflowExecutor} {d : WorkflowDefinition} {info : RunInfo} {α β : Type}

/-- Where an answer is given the dispatched steps have their messages; what is raised is no wait. -/
def Heeds (p : Platform) (d : WorkflowDefinition) (info : RunInfo) : Except Exn α → Work → Posts → Prop
  | .ok _, work, g => Told p d info work g
  | .error e, _, _ => e.waits = false

/-- A part of the executor that leaves every dispatched step with its message. -/
def Heedful (p : Platform) (d : WorkflowDefinition) (info : RunInfo) (m : StageM α) : Prop :=
  ∀ work g, Told p d info work g → m.Follows (Posts.stageProtocol p d info) (Heeds p d info) work g

theorem heedful_pure (a : α) : Heedful p d info (pure a) := fun _ _ told => Act.follows_pure told

theorem heedful_throw {e : Exn} (calm : e.waits = false) : Heedful p d info (Act.throw e : StageM α) :=
  fun _ _ _ => Act.follows_throw calm

theorem heedful_bind {m : StageM α} {f : α → StageM β} (first : Heedful p d info m) (rest : ∀ a, Heedful p d info (f a)) :
    Heedful p d info (m >>= f) :=
  fun work g told => Act.follows_bind (first work g told) (fun a work' g' told => rest a work' g' told) fun _ _ _ calm => calm

theorem heedful_get_bind {f : Work → StageM β} (rest : ∀ work, Heedful p d info (f work)) : Heedful p d info (Act.get >>= f) :=
  fun work g told => Act.follows_get_bind (rest work work g told)

theorem heedful_modify {f : Work → Work} (kept : ∀ work, (f work).workflow.dispatched ⊆ work.workflow.dispatched) :
    Heedful p d info (Act.modify f) :=
  fun work _ told => Act.follows_modify fun id member => told id (kept work member)

/-- A call that publishes no task. -/
theorem heedful_call {op : StageOp} (other : op.publishes = false) : Heedful p d info (stageCall op) := by
  intro work g told
  refine Act.follows_await (S := StageSig) ?_ fun r known => ?_
  · cases op with
    | publishTask q => cases other
    | _ => trivial
  · cases r with
    | ok a => exact fun id member => (told id member).grows (Posts.mark_grows g _ _)
    | error e => exact known e rfl

/-- The queue dispatcher publishes the step's task under the step's key. -/
theorem queue_posts {q : QueueDispatcher} {step : WorkflowStep} (injective : Function.Injective p.sha256) (member : step ∈ d.steps)
    (named : step.id ≠ "") {contractOf : Work} {work : Work} {g : Posts} (told : Told p d info work g) :
    (q.dispatch p (WorkflowExecutor.delegation p ex d info step contractOf) info).Follows (Posts.stageProtocol p d info)
      (fun r work' g' => Heeds p d info r work' g' ∧ ∀ sub, r = .ok sub → g'.Has p d info.runId step.id) work g := by
  have calm : ∀ {e : Exn} {work' : Work} {g' : Posts}, e.waits = false → Heeds p d info (.error e : Except Exn SubResult) work' g' ∧
      ∀ sub, (.error e : Except Exn SubResult) = .ok sub → g'.Has p d info.runId step.id :=
    fun calm => ⟨calm, nofun⟩
  apply Act.follows_get_bind
  refine Act.follows_bind (@heedful_call _ _ _ (.resolveQueue q _) rfl work g told) ?_ fun _ _ _ => calm
  rintro ⟨queue, manifest⟩ work₁ g₁ told₁
  refine Act.follows_await_bind (S := StageSig) ?_ (fun _ _ => ?_) fun e known => calm (known e rfl)
  · -- the key tells the step and the run
    intro step' member' r' taskType payload same
    have made : stepKey p d step info.runId _ _ = stepKey p d step' r' taskType payload := (keyOf_delegation named).symm.trans same
    obtain ⟨ids, runs⟩ := stepKey_inj injective made
    refine ⟨runs.symm, ?_⟩
    rw [← ids]
    simp only [QueueDispatcher.publication, QueueDispatcher.taskOf, QueueDispatcher.stepRef, WorkflowExecutor.delegation, orElse,
      if_neg named]
  · have posted : Posts.Has p d (Posts.mark g₁ (.stage info (.publishTask (QueueDispatcher.publication p q
        (WorkflowExecutor.delegation p ex d info step contractOf) info work queue))) (.ok ())) info.runId step.id := by
      refine .inr ⟨step, member, rfl, named, _, _, List.mem_append_right _ (List.mem_singleton.mpr (keyOf_delegation named).symm)⟩
    have told₂ : Told p d info work₁ (Posts.mark g₁ (.stage info (.publishTask (QueueDispatcher.publication p q
        (WorkflowExecutor.delegation p ex d info step contractOf) info work queue))) (.ok ())) :=
      fun id there => (told₁ id there).grows (Posts.mark_grows _ _ _)
    refine Act.follows_await_bind (S := StageSig) trivial (fun _ _ => ?_) fun e known => calm (known e rfl)
    exact Act.follows_pure ⟨told₂, fun _ _ => posted⟩

/-- A task that was handed over has its message, and nothing else of the executor touches what is told. -/
theorem heedful_traversal (injective : Function.Injective p.sha256) (handed : Handed ex d) :
    Traversal p ex d info (fun _ => True) fun m => Heedful p d info m where
  pure := heedful_pure
  bind := heedful_bind
  look rest := heedful_get_bind fun work => rest work trivial
  refuse _ := heedful_throw rfl
  call _ := heedful_call
  note f same := heedful_modify fun work => by
    intro id member
    rwa [← same work.workflow]
  hand step member kind outside work _ := by
    obtain ⟨named, routed⟩ := handed step member kind outside
    intro work₁ g told
    unfold DefaultCoordinator.dispatch
    have mark : ∀ {work₂ : Work} {g' : Posts}, Told p d info work₂ g' → g'.Has p d info.runId step.id →
        (do Act.modify fun work => work.setWorkflow fun s => { s with dispatched := s.dispatched ++ [step.id] }
            return false : StageM Bool).Follows (Posts.stageProtocol p d info) (Heeds p d info) work₂ g' := by
      intro work₂ g' told posted
      refine Act.follows_modify_bind (Act.follows_pure ?_)
      intro id there
      rcases List.mem_append.mp there with old | new
      · exact told id old
      · rw [List.mem_singleton.mp new]
        exact posted
    split
    · split
      · refine Act.follows_bind (queue_posts injective member named told) ?_ fun _ _ _ h => h.1
        intro sub work₂ g' h
        exact mark h.1 (h.2 sub rfl)
      · exact Act.follows_throw rfl
    · next elsewhere =>
        rw [routed.resolve_left elsewhere]
        exact Act.follows_throw rfl

/-- What a stage leaves: a wait it raises is owed. -/
def Leaves (p : Platform) (d : WorkflowDefinition) (info : RunInfo) : Except Exn α → Work → Posts → Prop
  | .ok _, work, g => Told p d info work g
  | .error (.needsWait condition _), work, g => Told p d info work g ∧ Posted p d info.runId condition g
  | .error _, _, _ => True

theorem leaves_of_calm {e : Exn} (calm : e.waits = false) {work : Work} {g : Posts} :
    Leaves p d info (.error e : Except Exn α) work g := by
  cases e with
  | needsWait condition gate => cases calm
  | _ => trivial

/-- A join is for a step that was put down as dispatched. -/
theorem settle_leaves {work : Work} {g : Posts} (told : Told p d info work g) :
    (WorkflowExecutor.settle p d).Follows (Posts.stageProtocol p d info) (Leaves p d info) work g := by
  apply Act.follows_get_bind
  simp only
  split
  · exact Act.follows_modify told
  · split
    · exact Act.follows_throw trivial
    · next waiting found =>
        have dispatched := List.find?_some found
        simp only [decide_eq_true_eq] at dispatched
        refine Act.follows_throw ⟨told, fun _ id same => ?_⟩
        cases same
        exact told waiting.id dispatched

/-- What is only read off leaves everything as it is. -/
theorem read_follows {r : Except Exn α} (calm : ∀ e, r = .error e → e.waits = false) {work : Work} {g : Posts} :
    (Act.ofExcept r : StageM α).Follows (Posts.stageProtocol p d info)
      (fun out work' g' => work' = work ∧ g' = g ∧ ∀ e : Exn, out = .error e → e.waits = false) work g := by
  cases r with
  | ok a => exact Act.follows_pure ⟨rfl, rfl, nofun⟩
  | error e => exact Act.follows_throw ⟨rfl, rfl, calm⟩

/-- A gate waits for a time or an event. -/
theorem gateCondition_joins (calm : p.Unwaiting) {step : WorkflowStep} {work : Work} {g : Posts} (told : Told p d info work g) :
    (WorkflowExecutor.gateCondition p info step).Follows (Posts.stageProtocol p d info)
      (fun r work' g' => Heeds p d info r work' g' ∧ ∀ condition, r = .ok condition → condition.kind ≠ .resultsReady) work g := by
  have fails : ∀ {e : Exn} {work' : Work} {g' : Posts}, e.waits = false →
      Heeds p d info (.error e : Except Exn WakeCondition) work' g' ∧
        ∀ condition, (.error e : Except Exn WakeCondition) = .ok condition → condition.kind ≠ .resultsReady :=
    fun calm => ⟨calm, nofun⟩
  have answers : ∀ {condition : WakeCondition} {g' : Posts}, Told p d info work g' → condition.kind ≠ .resultsReady →
      (pure condition : StageM WakeCondition).Follows (Posts.stageProtocol p d info) (fun r work' g' => Heeds p d info r work' g' ∧
        ∀ condition, r = .ok condition → condition.kind ≠ .resultsReady) work g' := by
    intro condition g' told other
    refine Act.follows_pure ⟨told, fun _ same => ?_⟩
    cases same
    exact other
  apply Act.follows_get_bind
  simp only
  split
  · exact answers told (by simp)
  · split
    · apply Act.follows_bind (read_follows fun e => float_unwaiting)
      · rintro delay _ _ ⟨rfl, rfl, _⟩
        refine Act.follows_await_bind (S := StageSig) trivial (fun now _ => ?_) fun e known => fails (known e rfl)
        apply Act.follows_bind (read_follows (calm now delay))
        · rintro wakeAt _ _ ⟨rfl, rfl, _⟩
          exact answers told (by simp)
        · rintro e _ _ ⟨_, _, calm⟩
          exact fails (calm e rfl)
      · rintro e _ _ ⟨_, _, calm⟩
        exact fails (calm e rfl)
    · exact answers told (by simp)

theorem run_leaves (injective : Function.Injective p.sha256) (calm : p.Unwaiting) (handed : Handed ex d) {work : Work} {g : Posts}
    (told : Told p d info work g) :
    (WorkflowExecutor.run p ex d info).Follows (Posts.stageProtocol p d info) (Leaves p d info) work g := by
  apply Act.follows_modify_bind
  refine Act.follows_bind ((heedful_traversal injective handed).refresh d.steps _ _ told) ?_ fun _ _ _ calm => leaves_of_calm calm
  intro _ work₁ g₁ told₁
  refine Act.follows_bind ((heedful_traversal injective handed).rounds _ _ told₁) ?_ fun _ _ _ calm => leaves_of_calm calm
  intro gate work₂ g₂ told₂
  cases gate with
  | none => exact settle_leaves told₂
  | some gate =>
      apply Act.follows_modify_bind
      refine Act.follows_bind (gateCondition_joins calm told₂) ?_ fun _ _ _ h => leaves_of_calm h.1
      intro condition work₃ g₃ h
      exact Act.follows_throw ⟨h.1, fun joins => absurd joins (h.2 condition rfl)⟩

/-- What the drive asks of a stage. -/
def Leaving (p : Platform) (d : WorkflowDefinition) (stage : PipelineStage) : Prop :=
  ∀ info work g, Told p d info work g → (stage.execute info).Follows (Posts.stageProtocol p d info) (Leaves p d info) work g

theorem leaving_workflow {extra : Dict String Json} (injective : Function.Injective p.sha256) (calm : p.Unwaiting)
    (handed : Handed ex d) : Leaving p d (workflowStage p ex d extra) := by
  intro info work g told
  unfold workflowStage
  simp only
  split
  · exact Act.follows_modify_bind (run_leaves injective calm handed told)
  · exact run_leaves injective calm handed told

/-- The calls of a stage beside the workflow: it publishes nothing under a step's key. -/
def besideCalls (p : Platform) (d : WorkflowDefinition) (info : RunInfo) : Protocol StageSig Unit where
  allowed _ op := Posts.allowed p d {} (.stage info op)
  answers _ reply := ∀ e, reply = .error e → e.waits = false
  mark _ _ _ := ()

/-- A stage beside the workflow: it leaves the workflow state alone, raises no wait of its own and
publishes under no key of a step's. -/
def PipelineStage.Beside (p : Platform) (d : WorkflowDefinition) (stage : PipelineStage) : Prop :=
  ∀ info work, (stage.execute info).Follows (besideCalls p d info) (fun r work' _ =>
    work'.workflow = work.workflow ∧ ∀ e, r = .error e → e.waits = false) work ()

theorem leaving_of_beside {stage : PipelineStage} (beside : stage.Beside p d) : Leaving p d stage := by
  intro info work g told
  have carried : ∀ {γ : Type} (prog : Prog StageSig γ) (post : γ → Unit → Prop) (g : Posts), prog.Follows (besideCalls p d info) post () →
      prog.Follows (Posts.stageProtocol p d info) (fun a g' => post a () ∧ g.Grows g') g := by
    intro γ prog post
    induction prog with
    | ret a => exact fun g h => ⟨h, Posts.Grows.refl g⟩
    | call op k ih =>
        intro g h
        refine ⟨?_, fun r known => ?_⟩
        · have allowed := h.1
          cases op with
          | publishTask q => exact allowed
          | _ => trivial
        · apply Prog.Follows.weaken (ih r _ (h.2 r known))
          exact fun _ _ h => ⟨h.1, (Posts.mark_grows g (.stage info op) r).trans h.2⟩
  apply Prog.Follows.weaken (carried _ _ g (beside info work))
  intro out g' h
  obtain ⟨r, work'⟩ := out
  obtain ⟨⟨same, calm⟩, grown⟩ := h
  cases r with
  | ok u =>
      intro id dispatched
      rw [show work'.workflow = work.workflow from same] at dispatched
      exact (told id dispatched).grows grown
  | error e => exact leaves_of_calm (calm e rfl)

end stage

end Maof
