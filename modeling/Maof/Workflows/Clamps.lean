import Maof.Orchestrator.ActionPlan
import Maof.Orchestrator.Passage
import Maof.Workflows.Posting

/-!
# What becomes of a clamped flag

The flags `post_plan` leaves are in the envelope, the envelope is in every
checkpoint, and a step's templates are bound to them where neither the stage's
own context nor what was there before has an entry of the same name. A process
keeps the flags its drive goes by: those its own `action_plan` stage left, or
those of the checkpoint it took up.
-/

namespace Maof

open Data (Dict)
open Effects (Act Prog Protocol Machine Pool Proc Label)

def Work.names (work : Work) : List String := work.extras.completedStages.getD []

def Work.flags (work : Work) : Dict String String := (work.envelope.map ContextEnvelope.policyFlags).getD []

def Work.entries (work : Work) : List String := Dict.keys (work.extras.workflowContext.getD [])

theorem Work.mem_recorded {work : Work} {completed : List String} {name : String} :
    name ∈ (work.recorded completed).names ↔ name ∈ completed := List.mem_insertionSort _

/-! ## The flags a drive goes by -/

structure Clamp where
  runId : RunId
  flags : Dict String String
  /-- The names in the workflow's context at the time. -/
  entries : List String

namespace Clamp

def of (sc : StageContext) : Clamp := ⟨sc.info.runId, sc.work.flags, sc.work.entries⟩

/-- The flags of a checkpoint, once the action plan is completed. -/
def held (blob : Json) : Option Clamp :=
  match checkpointDeserialize blob with
  | .ok sc => if "action_plan" ∈ sc.work.names then some (of sc) else none
  | .error _ => none

/-- A checkpoint is saved after every stage, with the stage's name. -/
def mark (c : Option Clamp) : (op : Op) → Except Exn op.Ans → Option Clamp
  | .save _ label blob, _ => if label = "action_plan" then held blob else c
  | .load _, .ok (some blob) => held blob
  | _, _ => c

/-- The context has these flags, and no entry but those of before and the stage's own. -/
structure Covers (c : Clamp) (extra : Dict String Json) (info : RunInfo) (work : Work) : Prop where
  run : c.runId = info.runId
  flags : work.flags = c.flags
  entries : ∀ k ∈ work.entries, k ∈ c.entries ∨ k ∈ Dict.keys extra

/-- Wherever the step's input has the template of a flag that no entry hides, the payload has the flag. -/
def Reaches (p : Platform) (extra : Dict String Json) (c : Clamp) (step : WorkflowStep) (payload : Dict String Json) : Prop :=
  (Dict.keys c.flags).Nodup → ∀ path text key value, Template.at? path (.obj step.input) = some (.str text) →
    Template.IsContext p.unicode text key → '.' ∉ key.toList → Dict.get c.flags key = some value →
    key ∉ c.entries → key ∉ Dict.keys extra → Template.at? path (.obj payload) = some (.str value)

variable {p : Platform} {extra : Dict String Json} {info : RunInfo} {c : Clamp}

theorem held_serialize {sc : StageContext} : held (checkpointSerialize sc) =
    if "action_plan" ∈ sc.work.names then some (of sc) else none := by
  simp only [held, deserialize_serialize]
  rfl

theorem of_covers {sc : StageContext} : (of sc).Covers extra sc.info sc.work := ⟨rfl, rfl, fun _ => .inl⟩

theorem Covers.recorded {completed : List String} {work : Work} (covers : c.Covers extra info work) :
    c.Covers extra info (work.recorded completed) := ⟨covers.run, covers.flags, covers.entries⟩

theorem Covers.setWorkflow {f : WorkflowState → WorkflowState} {work : Work} (covers : c.Covers extra info work) :
    c.Covers extra info (work.setWorkflow f) := ⟨covers.run, covers.flags, covers.entries⟩

/-- The stage's own entries are put into the workflow's context. -/
theorem Covers.context {work : Work} (covers : c.Covers extra info work) : c.Covers extra info { work with extras := { work.extras with
    workflowContext := some (Dict.update (work.extras.workflowContext.getD []) extra) } } := by
  refine ⟨covers.run, covers.flags, ?_⟩
  intro k member
  rcases (Dict.keys_update _ _ k).mp member with own | before
  · exact .inr own
  · exact covers.entries k before

/-- A flag that no entry hides is in the context of the templates. -/
theorem get_context {work : Work} {key value : String} (unique : (Dict.keys work.flags).Nodup)
    (found : Dict.get work.flags key = some value) (free : key ∉ work.entries) :
    Dict.get (WorkflowExecutor.context info work) key = some (.str value) := by
  have hidden : Dict.get (work.extras.workflowContext.getD []).reverse key = none := by
    cases there : Dict.get (work.extras.workflowContext.getD []).reverse key with
    | none => rfl
    | some entry => exact absurd (List.mem_map_of_mem (List.mem_reverse.mp (Dict.mem_of_get there))) free
  have flagged : Dict.get (work.flags.map fun kv => (kv.1, Json.str kv.2)).reverse key = some (.str value) := by
    apply Dict.get_of_mem
    · rw [Dict.keys, List.map_reverse, List.map_map, List.nodup_reverse]
      exact unique
    · exact List.mem_reverse.mpr (List.mem_map.mpr ⟨(key, value), Dict.mem_of_get found, rfl⟩)
  unfold WorkflowExecutor.context
  rw [Dict.get_update, hidden, Dict.get_update]
  change ((none : Option Json).orElse fun _ => (Dict.get (work.flags.map fun kv => (kv.1, Json.str kv.2)).reverse key).orElse _) = _
  rw [flagged]
  rfl

/-- What the executor binds a step's input to has the flags of the context it is bound in. -/
theorem reaches_bound {step : WorkflowStep} {work : Work} (covers : c.Covers extra info work) :
    c.Reaches p extra step (WorkflowExecutor.bound p info step work) := by
  intro unique path text key value place template dotless found unnamed other
  have free : key ∉ work.entries := by
    intro member
    rcases covers.entries key member with before | own
    · exact unnamed before
    · exact other own
  rw [← covers.flags] at unique found
  have there := @Template.at?_bind p.unicode (WorkflowExecutor.context info work) work.workflow.outputs _ _ _ place
  have bound : Template.bind p.unicode (WorkflowExecutor.context info work) work.workflow.outputs (.str text) = .str value := by
    rw [Template.bind, Template.bindString_context template dotless, get_context unique found free]
    rfl
  rw [bound] at there
  exact there

end Clamp

/-! ## The stages -/

/-- The call hands out no step of the workflow. -/
def Elsewhere (d : WorkflowDefinition) (op : StageOp) : Prop :=
  ∀ q, op = .publishTask q → ∀ step ∈ d.steps, q.task.description ≠ WorkflowExecutor.objective d step

/-- A stage that hands out no step of the workflow and leaves the record of the completed stages to the driver. -/
def PipelineStage.Apart (d : WorkflowDefinition) (stage : PipelineStage) : Prop :=
  ∀ info names, (stage.execute info).Within (fun work => work.extras.completedStages = names) (Elsewhere d)

/-- And that writes neither the flags nor the workflow's context. -/
def PipelineStage.Sparing (d : WorkflowDefinition) (stage : PipelineStage) : Prop :=
  ∀ info names flags entries, (stage.execute info).Within (fun work => work.extras.completedStages = names ∧
    work.flags = flags ∧ work.extras.workflowContext = entries) (Elsewhere d)

/-- The action plan is made under a policy, and whatever runs the workflow comes after it. -/
structure Governed (l1 : DefaultL1) (p : Platform) (plan : ActionPlanStage) (d : WorkflowDefinition) (extra : Dict String Json)
    (before after : List PipelineStage) : Prop where
  pipeline : l1.pipeline = before ++ actionPlanStage p plan :: after
  checkpointer : l1.checkpointer = true
  plans : plan.Heeds (Elsewhere d)
  early : ∀ stage ∈ before, stage.name ≠ "action_plan" ∧ stage.Apart d
  late : ∀ stage ∈ after, (∃ ex, stage = workflowStage p ex d extra) ∨ stage.Sparing d

namespace Clamp

/-- A task that is a step of the workflow is given the flags. -/
def Gives (p : Platform) (d : WorkflowDefinition) (extra : Dict String Json) (c : Clamp) (op : StageOp) : Prop :=
  ∀ q, op = .publishTask q → ∀ step ∈ d.steps, q.task.description = WorkflowExecutor.objective d step →
    c.Reaches p extra step q.task.payload

/-- A context of the drive, with the flags it goes by. -/
def Within (extra : Dict String Json) (c : Clamp) (info : RunInfo) (names : Option (List String)) (work : Work) : Prop :=
  work.extras.completedStages = names ∧ c.Covers extra info work

variable {p : Platform} {ex : WorkflowExecutor} {d : WorkflowDefinition} {extra : Dict String Json} {info : RunInfo} {c : Clamp}
  {names : Option (List String)}

theorem gives_of_elsewhere {op : StageOp} (elsewhere : Elsewhere d op) : c.Gives p d extra op :=
  fun q same step member described => absurd described (elsewhere q same step member)

/-- Every part of the executor but the dispatch leaves the flags alone. -/
theorem clamped_composes : Composes (Within extra c info names) fun m => m.Within (Within extra c info names) (c.Gives p d extra) where
  pure a := Act.within_pure a
  bind first rest := Act.within_bind first rest
  look rest := Act.within_look rest
  refuse _ := Act.within_throw _
  call op other := by
    apply Act.within_await (S := StageSig)
    rintro q rfl
    cases other
  note f _ := Act.within_modify fun _ holds => ⟨holds.1, holds.2.setWorkflow⟩

/-- The queue dispatcher publishes the payload of its contract under its objective. -/
theorem queue_within {q : QueueDispatcher} {contract : DelegationContract}
    (gives : ∀ step ∈ d.steps, contract.objective = WorkflowExecutor.objective d step → c.Reaches p extra step contract.payload) :
    (q.dispatch p contract info).Within (Within extra c info names) (c.Gives p d extra) := by
  have t : Composes (Within extra c info names) fun m => m.Within (Within extra c info names) (c.Gives p d extra) := clamped_composes
  apply t.look
  intro work _
  apply t.bind (t.call (.resolveQueue q contract) rfl)
  rintro ⟨queue, manifest⟩
  apply t.bind (m := stageCall (.publishTask (q.publication p contract info work queue)))
  · apply Act.within_await (S := StageSig)
    rintro _ same step member described
    cases same
    exact gives step member described
  · exact fun _ => t.bind (t.call (.appendTrace _) rfl) fun _ => t.pure _

theorem clamped_traversal (accepted : d.Accepted) :
    Traversal p ex d info (Within extra c info names) fun m => m.Within (Within extra c info names) (c.Gives p d extra) where
  toComposes := clamped_composes
  hand step member _ _ work holds := by
    have t : Composes (Within extra c info names) fun m => m.Within (Within extra c info names) (c.Gives p d extra) :=
      clamped_composes
    have gives : ∀ step' ∈ d.steps, WorkflowExecutor.objective d step = WorkflowExecutor.objective d step' →
        c.Reaches p extra step' (WorkflowExecutor.bound p info step work) := by
      intro step' member' same
      obtain rfl := accepted.eq_of_id member member' (objective_inj same)
      exact reaches_bound holds.2
    have dispatched : (ex.coordinator.dispatch p (WorkflowExecutor.delegation p ex d info step work) info).Within
        (Within extra c info names) (c.Gives p d extra) := by
      unfold DefaultCoordinator.dispatch
      split
      · split
        · exact queue_within gives
        · exact t.refuse _
      · split
        · exact t.subagent
        · exact t.refuse _
    apply t.bind dispatched
    intro sub
    have put : (Act.modify fun work => work.setWorkflow fun s => { s with dispatched := s.dispatched ++ [step.id] } :
        StageM Unit).Within (Within extra c info names) (c.Gives p d extra) :=
      Act.within_modify fun _ holds => ⟨holds.1, holds.2.setWorkflow⟩
    exact t.bind put fun _ => t.pure false

/-- The workflow's stage gives every step the flags of the drive, and leaves them as they are. -/
theorem workflowStage_within (accepted : d.Accepted) :
    ((workflowStage p ex d extra).execute info).Within (Within extra c info names) (c.Gives p d extra) := by
  have t : Traversal p ex d info (Within extra c info names) fun m => m.Within (Within extra c info names) (c.Gives p d extra) :=
    clamped_traversal accepted
  apply t.stage (t.run (fun e => Act.within_throw e) fun steps => Act.within_modify fun _ holds => ?_)
  · exact Act.within_modify fun _ holds => ⟨holds.1, holds.2.context⟩
  · exact ⟨holds.1, holds.2.run, holds.2.flags, holds.2.entries⟩

/-- So does a stage that spares them. -/
theorem sparing_within {stage : PipelineStage} (sparing : stage.Sparing d) :
    (stage.execute info).Within (Within extra c info names) (c.Gives p d extra) := by
  intro work holds
  have kept := sparing info names work.flags work.extras.workflowContext work ⟨holds.1, rfl, rfl⟩
  have carried := Prog.Follows.ofPlain (P := .plain (c.Gives p d extra)) kept (fun _ => gives_of_elsewhere) fun _ _ _ => rfl
  apply Prog.Follows.weaken carried
  rintro out _ ⟨⟨same, flags, entries⟩, _⟩
  refine ⟨same, holds.2.run, flags.trans holds.2.flags, ?_⟩
  intro k member
  rw [Work.entries, entries] at member
  exact holds.2.entries k member

/-! ## The drive -/

section drive

variable (p : Platform) (plan : ActionPlanStage) (d : WorkflowDefinition) (extra : Dict String Json) (before : List PipelineStage)

/-- Once the action plan is completed, so is what comes before it, and the context has the flags kept beside it. -/
structure Carried (info : RunInfo) (work : Work) (g : Option Clamp) : Prop where
  settled : "action_plan" ∈ work.names → ∀ stage ∈ before, stage.name ∈ work.names
  covered : "action_plan" ∈ work.names → ∃ c, g = some c ∧ c.Covers extra info work

/-- Where there is somebody to govern, the flags are those after `post_plan`. -/
def Planned (work : Work) : Prop := (plan.governed work).isSome = true → ∃ flags, plan.PostPlanned p work flags

def allowed (g : Option Clamp) : Op → Prop
  | .save r label blob => ∃ info work, blob = checkpointSerialize { info, work } ∧ info.runId = r ∧
      if label = "action_plan" then
        Planned p plan work ∧ "action_plan" ∈ work.names ∧ ∀ stage ∈ before, stage.name ∈ work.names
      else Carried extra before info work g
  | .stage info op => ∀ q, op = .publishTask q → ∀ step ∈ d.steps, q.task.description = WorkflowExecutor.objective d step →
      ∃ c, g = some c ∧ c.runId = info.runId ∧ c.Reaches p extra step q.task.payload
  | _ => True

def answers : (op : Op) → Except Exn op.Ans → Prop
  | .load _, .ok (some blob) => ∀ sc, checkpointDeserialize blob = .ok sc →
      "action_plan" ∈ sc.work.names → ∀ stage ∈ before, stage.name ∈ sc.work.names
  | _, _ => True

def protocol : Protocol RunSig (Option Clamp) := ⟨allowed p plan d extra before, answers before, mark⟩

def carrying : Passage (Option Clamp) where
  idle _ := True
  entered info completed work g := Carried extra before info work g ∧ ∀ name, name ∈ completed ↔ name ∈ work.names
  left info _ work g := Carried extra before info work g

end drive

section laws

variable {plan : ActionPlanStage} {before after : List PipelineStage} {l1 : DefaultL1} {completed : List String} {work : Work}
  {g : Option Clamp}

theorem quiet_clamps : Quiet (protocol p plan d extra before) where
  allowed g op other := by
    cases op with
    | save _ _ _ => cases other
    | stage _ _ => cases other
    | _ => trivial
  mark g op reply other := by
    cases op with
    | save _ _ _ => cases other
    | load _ => cases other
    | _ => rfl

theorem Carried.staged {stage : Stage} (carried : Carried extra before info work g) :
    Carried extra before info { work with stage } g := by
  refine ⟨carried.settled, fun there => ?_⟩
  obtain ⟨c, same, covers⟩ := carried.covered there
  exact ⟨c, same, covers.run, covers.flags, covers.entries⟩

/-- Before the action plan is completed nothing is asked. -/
theorem carried_early (early : "action_plan" ∉ work.names) : Carried extra before info work g :=
  ⟨fun there => absurd there early, fun there => absurd there early⟩

theorem still_save {label : String} (other : label ≠ "action_plan") (carried : Carried extra before info work g) :
    (l1.save info label).Follows (protocol p plan d extra before) (Still (protocol p plan d extra before) work g) work g := by
  unfold DefaultL1.save
  split
  · apply Act.follows_get_bind
    have free : allowed p plan d extra before g (.save info.runId label (checkpointSerialize { info, work })) :=
      ⟨info, work, rfl, rfl, by rwa [if_neg other]⟩
    refine Act.follows_await (S := RunSig) free fun r known => ⟨rfl, ?_, ?_⟩
    · simp only [protocol, mark, if_neg other]
    · rintro e rfl
      exact ⟨_, known⟩
  · exact still_pure

/-- The checkpoint of a stage other than the action plan's. -/
theorem recorded_saves {name : String} (other : name ≠ "action_plan")
    (carried : Carried extra before info (work.recorded (completed ++ [name])) g) :
    (l1.save info name).Follows (protocol p plan d extra before) (fun r saved g' =>
      saved = work.recorded (completed ++ [name]) ∧ (carrying extra before).entered info (completed ++ [name]) saved g' ∧
        ∀ e, r = .error e → Raised (protocol p plan d extra before) e) (work.recorded (completed ++ [name])) g := by
  apply Act.Follows.weaken (still_save other carried)
  rintro r _ _ ⟨rfl, rfl, raised⟩
  exact ⟨rfl, ⟨carried, fun _ => Work.mem_recorded.symm⟩, raised⟩

/-- The checkpoint of the action plan: from here on the drive goes by its flags. -/
theorem plan_saves (on : l1.checkpointer = true) (planned : Planned p plan work) (passed : ∀ stage ∈ before, stage.name ∈ completed) :
    (l1.save info "action_plan").Follows (protocol p plan d extra before) (fun r saved g' =>
      saved = work.recorded (completed ++ ["action_plan"]) ∧
        (carrying extra before).entered info (completed ++ ["action_plan"]) saved g' ∧
          ∀ e, r = .error e → Raised (protocol p plan d extra before) e) (work.recorded (completed ++ ["action_plan"])) g := by
  have named : "action_plan" ∈ (work.recorded (completed ++ ["action_plan"])).names :=
    Work.mem_recorded.mpr (List.mem_append_right _ (List.mem_singleton_self _))
  have settled : ∀ stage ∈ before, stage.name ∈ (work.recorded (completed ++ ["action_plan"])).names :=
    fun stage member => Work.mem_recorded.mpr (List.mem_append_left _ (passed stage member))
  unfold DefaultL1.save
  rw [if_pos on]
  apply Act.follows_get_bind
  have free : allowed p plan d extra before g (.save info.runId "action_plan" (checkpointSerialize
      { info, work := work.recorded (completed ++ ["action_plan"]) })) :=
    ⟨info, _, rfl, rfl, by rw [if_pos rfl]; exact ⟨planned, named, settled⟩⟩
  refine ⟨free, fun r known => ?_⟩
  refine ⟨rfl, ⟨⟨fun _ => settled, fun _ => ⟨of ⟨info, work.recorded (completed ++ ["action_plan"])⟩, ?_, of_covers⟩⟩,
    fun _ => Work.mem_recorded.symm⟩, ?_⟩
  · simp only [protocol, mark, if_true, held_serialize, if_pos named]
  · rintro e rfl
    exact ⟨_, known⟩

/-- Where in the pipeline a stage stands that the driver comes to. -/
theorem place (governed : Governed l1 p plan d extra before after) {pre post : List PipelineStage} {stage : PipelineStage}
    (split : l1.pipeline = pre ++ stage :: post) : stage ∈ before ∨ stage = actionPlanStage p plan ∧ pre = before ∨
      stage ∈ after ∧ actionPlanStage p plan ∈ pre ∧ before ⊆ pre := by
  rcases List.append_eq_append_iff.mp (governed.pipeline.symm.trans split) with ⟨mid, rfl, rest⟩ | ⟨mid, rfl, rest⟩
  · cases mid with
    | nil =>
        rw [List.append_nil]
        exact .inr (.inl ⟨(List.cons.inj rest).1.symm, rfl⟩)
    | cons first mid =>
        obtain ⟨rfl, rfl⟩ := List.cons.inj rest
        refine .inr (.inr ⟨List.mem_append_right _ List.mem_cons_self, ?_, List.subset_append_left _ _⟩)
        exact List.mem_append_right _ List.mem_cons_self
  · cases mid with
    | nil =>
        rw [List.append_nil]
        exact .inr (.inl ⟨(List.cons.inj rest).1, rfl⟩)
    | cons first mid =>
        obtain ⟨rfl, _⟩ := List.cons.inj rest
        exact .inl (List.mem_append_right _ List.mem_cons_self)

theorem takes_early {stage : PipelineStage} (apart : stage.Apart d) (other : stage.name ≠ "action_plan")
    (new : "action_plan" ∉ completed) (entered : (carrying extra before).entered info completed work g) :
    (carrying extra before).Takes (protocol p plan d extra before) l1 stage info completed work g := by
  have absent : "action_plan" ∉ work.names := fun there => new ((entered.2 _).mpr there)
  have carried := Prog.Follows.ofPlain (P := stageCalls (protocol p plan d extra before) info) (g := g)
    (apart info work.extras.completedStages work rfl)
    (fun op elsewhere q same step member described => absurd described (elsewhere q same step member)) fun _ _ _ => rfl
  apply Prog.Follows.weaken carried
  rintro ⟨r, work'⟩ _ ⟨same, rfl⟩
  have absent' : "action_plan" ∉ work'.names := by
    have names : work'.names = work.names := congrArg (·.getD []) same
    rw [names]
    exact absent
  cases r with
  | error e => exact carried_early absent'
  | ok u =>
      apply recorded_saves other (carried_early ?_)
      rw [Work.mem_recorded]
      intro there
      rcases List.mem_append.mp there with old | last
      · exact new old
      · exact other (List.mem_singleton.mp last).symm

theorem takes_plan (governed : Governed l1 p plan d extra before after) (passed : ∀ stage ∈ before, stage.name ∈ completed)
    (new : "action_plan" ∉ completed) (entered : (carrying extra before).entered info completed work g) :
    (carrying extra before).Takes (protocol p plan d extra before) l1 (actionPlanStage p plan) info completed work g := by
  have absent : "action_plan" ∉ work.names := fun there => new ((entered.2 _).mpr there)
  have left := @ActionPlanStage.execute_leaves p _ _ info work.extras.completedStages governed.plans
    (fun _ _ _ same => by cases same) (fun _ _ same => by cases same) work rfl
  have carried := Prog.Follows.ofPlain (P := stageCalls (protocol p plan d extra before) info) (g := g) left
    (fun op elsewhere q same step member described => absurd described (elsewhere q same step member)) fun _ _ _ => rfl
  apply Prog.Follows.weaken carried
  rintro ⟨r, work'⟩ _ ⟨⟨same, planned⟩, rfl⟩
  cases r with
  | error e =>
      apply carried_early
      have names : work'.names = work.names := congrArg (·.getD []) same
      rw [names]
      exact absent
  | ok u => exact plan_saves governed.checkpointer (planned rfl) passed

theorem takes_late {stage : PipelineStage} (accepted : d.Accepted)
    (late : (∃ ex, stage = workflowStage p ex d extra) ∨ stage.Sparing d) (planned : "action_plan" ∈ completed)
    (passed : ∀ stage ∈ before, stage.name ∈ completed) (new : stage.name ∉ completed)
    (entered : (carrying extra before).entered info completed work g) :
    (carrying extra before).Takes (protocol p plan d extra before) l1 stage info completed work g := by
  obtain ⟨c, rfl, covers⟩ := entered.1.covered ((entered.2 _).mp planned)
  have gives : (stage.execute info).Within (Within extra c info work.extras.completedStages) (c.Gives p d extra) := by
    rcases late with ⟨ex, rfl⟩ | sparing
    · exact workflowStage_within accepted
    · exact sparing_within sparing
  have carried := Prog.Follows.ofPlain (P := stageCalls (protocol p plan d extra before) info) (g := some c)
    (gives work ⟨rfl, covers⟩)
    (fun op gives q same step member described => ⟨c, rfl, covers.run, gives q same step member described⟩) fun _ _ _ => rfl
  apply Prog.Follows.weaken carried
  rintro ⟨r, work'⟩ _ ⟨⟨same, covers'⟩, rfl⟩
  cases r with
  | error e =>
      have names : work'.names = work.names := congrArg (·.getD []) same
      refine ⟨fun _ s member => ?_, fun _ => ⟨c, rfl, covers'⟩⟩
      rw [names]
      exact (entered.2 _).mp (passed s member)
  | ok u =>
      have other : stage.name ≠ "action_plan" := by
        intro same
        rw [same] at new
        exact new planned
      apply recorded_saves other
      refine ⟨fun _ s member => ?_, fun _ => ⟨c, rfl, covers'.recorded⟩⟩
      exact Work.mem_recorded.mpr (List.mem_append_left _ (passed s member))

/-- Every drive carries its flags. -/
theorem carrying_along (governed : Governed l1 p plan d extra before after) (accepted : d.Accepted) :
    (carrying extra before).Along (protocol p plan d extra before) l1 where
  quiet := quiet_clamps
  rests _ := trivial
  stops _ := trivial
  raises _ entered := entered.1
  staged _ entered := ⟨entered.1.staged, entered.2⟩
  takes {pre stage post info completed work g} split passed new entered := by
    rcases place governed split with early | ⟨rfl, rfl⟩ | ⟨late, planned, earlier⟩
    · obtain ⟨other, apart⟩ := governed.early stage early
      apply takes_early apart other _ entered
      intro there
      exact new ((entered.2 _).mpr (entered.1.settled ((entered.2 _).mp there) stage early))
    · exact takes_plan governed passed new entered
    · exact takes_late accepted (governed.late stage late) (passed _ planned) (fun s member => passed s (earlier member)) new entered
  parks {info condition gate work g} carried := by
    have waits : "waiting:" ++ condition.kind.value ≠ "action_plan" := by
      cases condition.kind <;> decide
    have left : (do
        DefaultL1.setStatus info .waiting
        l1.emit info "run_waiting" [("condition", .str condition.kind.value)]
        return DefaultL1.result info (← Act.get) "waiting" ("waiting on " ++ condition.kind.value) [] :
          DriverM OrchestrationResult).Follows (protocol p plan d extra before)
            (fun _ _ g' => (carrying extra before).idle g') work g :=
      Act.Follows.weaken (still_leave quiet_clamps) fun _ _ _ _ => trivial
    apply still_bind (still_save waits carried)
    · intro _
      split
      · exact Act.follows_await_bind (S := RunSig) trivial (fun _ _ => Act.Follows.weaken left fun _ _ _ _ _ _ => trivial)
          fun _ _ _ _ => trivial
      · exact Act.Follows.weaken left fun _ _ _ _ _ _ => trivial
    · exact fun _ _ _ _ => trivial
  creates _ _ _ := trivial
  fresh _ _ := ⟨carried_early (List.not_mem_nil), fun _ => Iff.rfl⟩
  loads _ _ := trivial
  resumed {g runId blob sc} _ known read := by
    refine ⟨⟨known sc read, fun there => ⟨of sc, ?_, of_covers⟩⟩, fun _ => List.mem_dedup⟩
    simp only [protocol, mark, held, read, if_pos there]

end laws

end Clamp

/-! ## In any interleaving -/

namespace Orchestrator

variable (o : Orchestrator)

/-- The orchestrator, with the flags each process goes by beside it. -/
def clamping : Machine RunSig World Choice Actor EnvMove (Option Clamp) := o.machine (fun _ => none) Clamp.mark

/-- The orchestrator comes from the one pool to the other, whatever fails and whoever dies on the way. -/
abbrev Comes (q q' : Pool RunSig World (Option Clamp)) : Prop := Machine.Run o.clamping (fun _ _ => true) q q'

end Orchestrator

namespace Clamp

section runs

variable (o : Orchestrator) (p : Platform) (plan : ActionPlanStage) (extra : Dict String Json)
  (start : Pool RunSig World (Option Clamp))

/-- The flags are those of a context of the run that its action plan left, about to be saved. -/
def Origin (q : Pool RunSig World (Option Clamp)) (c : Clamp) : Prop :=
  ∃ earlier i sc, o.Comes start earlier ∧ o.Comes earlier q ∧
    earlier.next i = some (.save sc.info.runId "action_plan" (checkpointSerialize sc)) ∧ Planned p plan sc.work ∧
      c.runId = sc.info.runId ∧ c.flags = sc.work.flags ∧ ∀ k ∈ c.entries, k ∈ sc.work.entries ∨ k ∈ Dict.keys extra

/-- What holds of the orchestrator between any two calls. -/
structure Upheld (d : WorkflowDefinition) (before : List PipelineStage) (q : Pool RunSig World (Option Clamp)) : Prop where
  reached : o.Comes start q
  kept : ∀ r label blob, q.world.checkpoints r = some (label, blob) → ∃ sc, checkpointDeserialize blob = .ok sc ∧
    sc.info.runId = r ∧ ("action_plan" ∈ sc.work.names → (∀ stage ∈ before, stage.name ∈ sc.work.names) ∧
      Origin o p plan extra start q (of sc))
  tags : ∀ b ∈ q.procs, ∀ c, b.tag = some c → Origin o p plan extra start q c
  follow : Machine.AllFollow (protocol p plan d extra before) (fun _ _ => True) q

variable {o p plan extra start} {d : WorkflowDefinition} {before after : List PipelineStage}
  {q q' : Pool RunSig World (Option Clamp)} {c : Clamp}

theorem Origin.later (origin : Origin o p plan extra start q c) (moved : o.Comes q q') : Origin o p plan extra start q' c := by
  obtain ⟨earlier, i, sc, first, rest, saves⟩ := origin
  exact ⟨earlier, i, sc, first, rest.trans moved, saves⟩

/-- Flags that a context has kept come from where they came from. -/
theorem Origin.covered {info : RunInfo} {work : Work} (origin : Origin o p plan extra start q c) (covers : c.Covers extra info work) :
    Origin o p plan extra start q (of ⟨info, work⟩) := by
  obtain ⟨earlier, i, sc, first, rest, saves, planned, run, flags, entries⟩ := origin
  refine ⟨earlier, i, sc, first, rest, saves, planned, covers.run.symm.trans run, covers.flags.trans flags, ?_⟩
  intro k member
  rcases covers.entries k member with known | own
  · exact entries k known
  · exact .inr own

/-- A checkpoint that is saved has flags of the run. -/
theorem Upheld.saves (upheld : Upheld o p plan extra start d before q) {i : Nat} {r : RunId} {label : String} {blob : Json}
    {k : RunSig.Reply (.save r label blob) → Prog RunSig (Except Exn Unit)} {g : Option Clamp}
    (found : q.procs[i]? = some ⟨.call (.save r label blob) k, g⟩) : ∃ info work, blob = checkpointSerialize { info, work } ∧
      info.runId = r ∧ ("action_plan" ∈ work.names → (∀ stage ∈ before, stage.name ∈ work.names) ∧
        Origin o p plan extra start q (of ⟨info, work⟩)) := by
  obtain ⟨info, work, rfl, rfl, rest⟩ := upheld.follow.allowed found
  refine ⟨info, work, rfl, rfl, fun there => ?_⟩
  split at rest
  · next plans =>
      subst plans
      exact ⟨rest.2.2, q, i, ⟨info, work⟩, upheld.reached, .refl q, Pool.next_eq found, rest.1, rfl, rfl, fun _ => .inl⟩
  · obtain ⟨c, rfl, covers⟩ := rest.covered there
    exact ⟨rest.settled there, (upheld.tags _ (List.mem_of_getElem? found) c rfl).covered covers⟩

theorem Upheld.loads (upheld : Upheld o p plan extra start d before q) {r : RunId} {ch : Choice} {blob : Json}
    (reply : (World.perform o.deployment ch q.world (.load r)).2 = .ok (some blob)) : ∃ sc, checkpointDeserialize blob = .ok sc ∧
      ("action_plan" ∈ sc.work.names → (∀ stage ∈ before, stage.name ∈ sc.work.names) ∧ Origin o p plan extra start q (of sc)) := by
  have answered := (congrArg Prod.snd (World.perform_ok reply)).symm.trans reply
  simp only [World.effect, Except.ok.injEq, Option.map_eq_some_iff] at answered
  obtain ⟨⟨label, _⟩, kept, rfl⟩ := answered
  obtain ⟨sc, read, _, holds⟩ := upheld.kept r label _ kept
  exact ⟨sc, read, holds⟩

/-- The flags a process goes by after a call come from a plan, too. -/
theorem Upheld.tag (upheld : Upheld o p plan extra start d before q) {i : Nat} {op : Op}
    {k : RunSig.Reply op → Prog RunSig (Except Exn Unit)} {g : Option Clamp} {ch : Choice}
    (found : q.procs[i]? = some ⟨.call op k, g⟩)
    (marked : mark g op (World.perform o.deployment ch q.world op).2 = some c) : Origin o p plan extra start q c := by
  have old : g = some c → Origin o p plan extra start q c := upheld.tags _ (List.mem_of_getElem? found) c
  cases op with
  | save r label blob =>
      obtain ⟨info, work, rfl, rfl, holds⟩ := upheld.saves found
      simp only [mark] at marked
      split at marked
      · rw [held_serialize] at marked
        split at marked
        · next there =>
            obtain rfl := Option.some.inj marked
            exact (holds there).2
        · cases marked
      · exact old marked
  | load r =>
      cases reply : (World.perform o.deployment ch q.world (.load r)).2 with
      | error e =>
          rw [reply] at marked
          exact old marked
      | ok answer =>
          cases answer with
          | none =>
              rw [reply] at marked
              exact old marked
          | some blob =>
              obtain ⟨sc, read, holds⟩ := upheld.loads reply
              rw [reply] at marked
              simp only [mark, held, read] at marked
              split at marked
              · next there =>
                  obtain rfl := Option.some.inj marked
                  exact (holds there).2
              · cases marked
  | _ => exact old marked

theorem Upheld.step (governed : Governed o.l1 p plan d extra before after) (accepted : d.Accepted)
    (upheld : Upheld o p plan extra start d before q) {l : Label Choice Actor EnvMove} (h : o.clamping.step q l = some q') :
    Upheld o p plan extra start d before q' := by
  have moved : o.Comes q q' := .tail (.refl q) rfl h
  have kept : ∀ r label blob, q.world.checkpoints r = some (label, blob) → ∃ sc, checkpointDeserialize blob = .ok sc ∧
      sc.info.runId = r ∧ ("action_plan" ∈ sc.work.names → (∀ stage ∈ before, stage.name ∈ sc.work.names) ∧
        Origin o p plan extra start q' (of sc)) := by
    intro r label blob found
    obtain ⟨sc, read, mine, holds⟩ := upheld.kept r label blob found
    exact ⟨sc, read, mine, fun there => ⟨(holds there).1, (holds there).2.later moved⟩⟩
  have tags : ∀ b ∈ q.procs, ∀ c, b.tag = some c → Origin o p plan extra start q' c :=
    fun b member c tagged => (upheld.tags b member c tagged).later moved
  have started : ∀ a, (o.program a).Follows (protocol p plan d extra before) (fun _ _ => True) none := fun a =>
    Prog.Follows.weaken (Passage.program_follows (carrying_along governed accepted) a trivial) fun _ _ _ => trivial
  have follow : Machine.AllFollow (protocol p plan d extra before) (fun _ _ => True) q' := by
    refine Machine.step_allFollow rfl started upheld.follow h ?_
    rintro i ch op k g rfl found
    cases op with
    | load r =>
        change answers before (.load r) (World.perform o.deployment ch q.world (.load r)).2
        cases reply : (World.perform o.deployment ch q.world (.load r)).2 with
        | error e => trivial
        | ok answer =>
            cases answer with
            | none => trivial
            | some blob =>
                obtain ⟨sc, read, holds⟩ := upheld.loads reply
                intro sc' read' there
                obtain rfl := Except.ok.inj (read.symm.trans read')
                exact (holds there).1
    | _ => trivial
  refine ⟨upheld.reached.trans moved, ?_, ?_, follow⟩
  all_goals
    rcases Machine.step_cases h with ⟨a, rfl, rfl⟩ | ⟨i, ch, op, k, g, rfl, found, rfl⟩ |
      ⟨i, b, rfl, found, rfl⟩ | ⟨e, rfl, rfl⟩
  · exact kept
  · intro r label blob there
    rcases World.checkpoints_from there with old | rfl
    · exact kept r label blob old
    · obtain ⟨info, work, rfl, rfl, holds⟩ := upheld.saves found
      exact ⟨_, deserialize_serialize _, rfl, fun there => ⟨(holds there).1, (holds there).2.later moved⟩⟩
  · exact kept
  · cases e <;> exact kept
  · intro b member c tagged
    rcases List.mem_append.mp member with old | new
    · exact tags b old c tagged
    · rw [List.mem_singleton.mp new] at tagged
      cases tagged
  · intro b member c tagged
    rcases Machine.mem_set member with rfl | old
    · exact (upheld.tag found tagged).later moved
    · exact tags b old c tagged
  · intro b' member c tagged
    rcases Machine.mem_set member with rfl | old
    · exact tags b (List.mem_of_getElem? found) c tagged
    · exact tags b' old c tagged
  · exact tags

theorem upheld_fresh {registry : List RegistryEntry} {rulesets : String → String → Option LoadedRuleset} {clock : Int} :
    Upheld o p plan extra (Orchestrator.start _ (World.fresh registry rulesets clock)) d before
      (Orchestrator.start _ (World.fresh registry rulesets clock)) := by
  refine ⟨.refl _, ?_, ?_, ?_⟩
  · intro r label blob found
    cases found
  · exact fun _ none => (List.not_mem_nil none).elim
  · exact fun _ none => (List.not_mem_nil none).elim

end runs

end Clamp

/-- The flags a process goes by. -/
def Orchestrator.clampOf (q : Pool RunSig World (Option Clamp)) (i : Nat) : Option Clamp := (q.procs[i]?).bind Proc.tag

/-- The task's payload has every flag of the context wherever the step's input asks for it, if neither the workflow's
context nor the stage's own has an entry of that name. -/
def StageContext.Clamps (sc : StageContext) (p : Platform) (plan : ActionPlanStage) (extra : Dict String Json) (step : WorkflowStep)
    (payload : Dict String Json) : Prop :=
  ∀ flags, plan.PostPlanned p sc.work flags → ∀ path text key value, Template.at? path (.obj step.input) = some (.str text) →
    Template.IsContext p.unicode text key → '.' ∉ key.toList → Dict.get flags key = some value →
      key ∉ sc.work.entries → key ∉ Dict.keys extra → Template.at? path (.obj payload) = some (.str value)

/-- The flags of `post_plan` are those the context has kept. -/
theorem ActionPlanStage.PostPlanned.kept {plan : ActionPlanStage} {p : Platform} {work : Work} {flags : Dict String String}
    (planned : plan.PostPlanned p work flags) : work.flags = flags ∧ (Dict.keys flags).Nodup := by
  obtain ⟨_, _, _, _, _, _, out, _, rfl, kept⟩ := planned
  constructor
  · simp only [Work.flags, kept, Option.getD_some]
  · exact Dict.nodup_update (d := []) List.nodup_nil out.flags

open Orchestrator in
/-- Whatever fails, whoever dies and however often the run parks: a step is handed out with the flags of an action plan of
its run, the one the process goes by, and every checkpoint of a later stage has those flags too. -/
theorem clamps_reach (o : Orchestrator) (p : Platform) (plan : ActionPlanStage) (d : WorkflowDefinition)
    (extra : Dict String Json) (before after : List PipelineStage) (governed : Governed o.l1 p plan d extra before after)
    (accepted : d.Accepted) (registry : List RegistryEntry) (rulesets : String → String → Option LoadedRuleset) (clock : Int)
    {q : Pool RunSig World (Option Clamp)} (run : o.Comes (Orchestrator.start _ (World.fresh registry rulesets clock)) q) :
    (∀ i info pub, q.next i = some (.stage info (.publishTask pub)) → ∀ step ∈ d.steps,
      pub.task.description = WorkflowExecutor.objective d step →
        ∃ c earlier j sc, clampOf q i = some c ∧ c.runId = info.runId ∧ c.runId = sc.info.runId ∧ c.flags = sc.work.flags ∧
          o.Comes (Orchestrator.start _ (World.fresh registry rulesets clock)) earlier ∧ o.Comes earlier q ∧
          earlier.next j = some (.save sc.info.runId "action_plan" (checkpointSerialize sc)) ∧
          ((plan.governed sc.work).isSome = true → ∃ flags, plan.PostPlanned p sc.work flags) ∧
          sc.Clamps p plan extra step pub.task.payload) ∧
    (∀ i r label blob later, q.next i = some (.save r label blob) → label ≠ "action_plan" → Clamp.held blob = some later →
      ∃ c, clampOf q i = some c ∧ later.runId = c.runId ∧ later.flags = c.flags ∧
        ∀ k ∈ later.entries, k ∈ c.entries ∨ k ∈ Dict.keys extra) := by
  have upheld : Clamp.Upheld o p plan extra (Orchestrator.start _ (World.fresh registry rulesets clock)) d before q :=
    run.invariant Clamp.upheld_fresh fun _ _ _ held _ step => held.step governed accepted step
  have tagged : ∀ {i op}, q.next i = some op → ∃ k g, q.procs[i]? = some ⟨.call op k, g⟩ ∧ clampOf q i = g := by
    intro i op next
    obtain ⟨k, g, found⟩ := Pool.of_next next
    refine ⟨k, g, found, ?_⟩
    simp only [clampOf, found, Option.bind_some]
  constructor
  · intro i info pub next step member described
    obtain ⟨k, g, found, tag⟩ := tagged next
    obtain ⟨c, rfl, mine, reaches⟩ := upheld.follow.allowed found pub rfl step member described
    obtain ⟨earlier, j, sc, first, rest, saves, planned, ofRun, flags, entries⟩ :=
      upheld.tags _ (List.mem_of_getElem? found) c rfl
    refine ⟨c, earlier, j, sc, tag, mine, ofRun, flags, first, rest, saves, planned, ?_⟩
    intro kept post path text key value place template dotless got free other
    obtain ⟨same, unique⟩ := post.kept
    rw [← same, ← flags] at unique got
    apply reaches unique path text key value place template dotless got _ other
    intro inside
    rcases entries key inside with there | own
    · exact free there
    · exact other own
  · intro i r label blob later next other holds
    obtain ⟨k, g, found, tag⟩ := tagged next
    obtain ⟨info, work, rfl, rfl, rest⟩ := upheld.follow.allowed found
    rw [if_neg other] at rest
    rw [Clamp.held_serialize] at holds
    split at holds
    · next there =>
        obtain rfl := Option.some.inj holds
        obtain ⟨c, rfl, covers⟩ := rest.covered there
        exact ⟨c, tag, covers.run.symm, covers.flags, covers.entries⟩
    · cases holds

namespace Sample

/-- A policy that clamps the amount. -/
def capping : PolicyHooks where
  repo := false
  eventSink := false
  callableRules := [{
    ruleId := "cap"
    when_ := fun _ => .ok true
    actions := [[("type", .str "clamp"), ("flag", .str "amount"), ("max", .int 5)]]
    stage := "action_plan" }]

/-- A plan of nothing, for an envelope that has the flags. -/
def capped (flags : Dict String String) : ActionPlanStage where
  planner _ := return {}
  policy := some capping
  contextBuilder := some fun info =>
    return { runId := info.runId, tenantId := info.tenant.tenantId, stage := .actionPlan, policyFlags := flags }

def captured : PipelineStage where
  name := "intent_capture"
  execute _ := Act.modify fun work => { work with intent := some { intentId := "i", goal := "g" } }

/-- One step, whose amount is what the template says. -/
def reserve (template : String) : WorkflowDefinition where
  name := "w"
  version := 1
  steps := [{ id := "a", input := [("amount", .str template)] }]

def capper (flags : Dict String String) (template : String) (extra : Dict String Json) : Orchestrator where
  deployment := { platform }
  l1 := { pipeline := [captured, actionPlanStage platform (capped flags), workflowStage platform executor (reserve template) extra] }

theorem captured_apart {d : WorkflowDefinition} : captured.Apart d :=
  fun _ _ => Act.within_modify fun _ same => same

theorem capper_governed {flags : Dict String String} {template : String} {extra : Dict String Json} :
    Governed (capper flags template extra).l1 platform (capped flags) (reserve template) extra [captured]
      [workflowStage platform executor (reserve template) extra] where
  pipeline := rfl
  checkpointer := rfl
  plans := ⟨fun _ _ => Act.within_pure _, fun build given info names => by cases given; exact Act.within_pure _⟩
  early stage member := by
    obtain rfl := List.mem_singleton.mp member
    exact ⟨by decide, captured_apart⟩
  late stage member := .inl ⟨executor, List.mem_singleton.mp member⟩

/-- The process is about to hand out the step, with this amount in its payload. -/
def handing (template : String) (amount : Option String) (q : Pool RunSig World (Option Clamp)) : Bool :=
  match q.next 0 with
  | some (.stage _ (.publishTask pub)) =>
      decide (pub.task.description = WorkflowExecutor.objective (reserve template) { id := "a", input := [("amount", .str template)] }) &&
        decide ((Template.at? [.inl "amount"] (.obj pub.task.payload)).bind Checkpoint.str? = amount)
  | _ => false

theorem of_handing {template : String} {amount : Option String} {q : Pool RunSig World (Option Clamp)}
    (h : handing template amount q = true) : ∃ info pub, q.next 0 = some (.stage info (.publishTask pub)) ∧
      pub.task.description = WorkflowExecutor.objective (reserve template) { id := "a", input := [("amount", .str template)] } ∧
      (Template.at? [.inl "amount"] (.obj pub.task.payload)).bind Checkpoint.str? = amount := by
  unfold handing at h
  split at h
  · next info pub next =>
      simp only [Bool.and_eq_true, decide_eq_true_eq] at h
      exact ⟨info, pub, next, h⟩
  · cases h

end Sample

open Sample in
/-- The amount was 9 and is handed out as 5. -/
theorem clamps_reach_capped : ∃ q info pub, (capper [("amount", "9")] "{{ context.amount }}" []).Comes
      (Orchestrator.start _ (World.fresh [] (fun _ _ => none) 0)) q ∧
    q.next 0 = some (.stage info (.publishTask pub)) ∧
      (Template.at? [.inl "amount"] (.obj pub.task.payload)).bind Checkpoint.str? = some "5" ∧
      ∃ (c : Clamp) (sc : StageContext), Orchestrator.clampOf q 0 = some c ∧ c.flags = sc.work.flags ∧
        sc.Clamps platform (capped [("amount", "9")]) [] { id := "a", input := [("amount", .str "{{ context.amount }}")] }
          pub.task.payload := by
  obtain ⟨q, run, met⟩ := Machine.follow_any (capper [("amount", "9")] "{{ context.amount }}" []).clamping (fun _ _ => true)
    (Orchestrator.start _ (World.fresh [] (fun _ _ => none) 0)) ([.spawn (.run "g" tenant none)] ++ calls 0 14)
    (handing "{{ context.amount }}" (some "5")) (by decide +kernel)
  obtain ⟨info, pub, next, described, amount⟩ := of_handing met
  obtain ⟨c, _, _, sc, tag, _, _, flags, _, _, _, _, clamps⟩ :=
    (clamps_reach (capper [("amount", "9")] "{{ context.amount }}" []) platform (capped [("amount", "9")])
      (reserve "{{ context.amount }}") [] [captured] _ capper_governed (by decide +kernel) [] (fun _ _ => none) 0 run).1
      0 info pub next _ (List.mem_singleton_self _) described
  exact ⟨q, info, pub, run, next, amount, c, sc, tag, flags, clamps⟩

/-- What is handed out has the flags of the process, for the names that are `visible`. -/
def Clamp.Everywhere (visible : Clamp → Dict String Json → String → Prop) : Prop :=
  ∀ (o : Orchestrator) (p : Platform) (plan : ActionPlanStage) (d : WorkflowDefinition) (extra : Dict String Json)
    (before after : List PipelineStage), Governed o.l1 p plan d extra before after → d.Accepted →
    ∀ (registry : List RegistryEntry) (rulesets : String → String → Option LoadedRuleset) (clock : Int)
      (q : Pool RunSig World (Option Clamp)), o.Comes (Orchestrator.start _ (World.fresh registry rulesets clock)) q →
      ∀ i info pub, q.next i = some (.stage info (.publishTask pub)) → ∀ step ∈ d.steps,
        pub.task.description = WorkflowExecutor.objective d step → ∀ c, Orchestrator.clampOf q i = some c →
          ∀ path text key value, Template.at? path (.obj step.input) = some (.str text) →
            Template.IsContext p.unicode text key → visible c extra key → Dict.get c.flags key = some value →
              Template.at? path (.obj pub.task.payload) = some (.str value)

open Sample in
/-- The stage's own context hides a flag of the same name, and a name with a dot in it is taken apart. -/
theorem clamps_hidden : ¬ Clamp.Everywhere (fun _ _ key => '.' ∉ key.toList) ∧
    ¬ Clamp.Everywhere (fun c extra key => key ∉ c.entries ∧ key ∉ Dict.keys extra) := by
  constructor
  · intro claimed
    obtain ⟨q, run, met⟩ := Machine.follow_any (capper [("amount", "9")] "{{ context.amount }}" [("amount", .str "9")]).clamping
      (fun _ _ => true) (Orchestrator.start _ (World.fresh [] (fun _ _ => none) 0)) ([.spawn (.run "g" tenant none)] ++ calls 0 14)
      (fun q => handing "{{ context.amount }}" (some "9") q &&
        decide ((Orchestrator.clampOf q 0).map Clamp.flags = some [("amount", "5")])) (by decide +kernel)
    simp only [Bool.and_eq_true, decide_eq_true_eq, Option.map_eq_some_iff] at met
    obtain ⟨handed, c, tag, flags⟩ := met
    obtain ⟨info, pub, next, described, amount⟩ := of_handing handed
    have told := claimed _ platform _ (reserve "{{ context.amount }}") _ _ _ capper_governed (by decide +kernel) _ _ _ q run 0 info pub
      next _ (List.mem_singleton_self _) described c tag [.inl "amount"] "{{ context.amount }}" "amount" "5" rfl (by decide +kernel)
      (show '.' ∉ "amount".toList by decide +kernel) (by rw [flags]; rfl)
    rw [told] at amount
    exact absurd (show some "5" = some "9" from amount) (by decide)
  · intro claimed
    obtain ⟨q, run, met⟩ := Machine.follow_any (capper [("amount", "9"), ("a.b", "7")] "{{ context.a.b }}" []).clamping
      (fun _ _ => true) (Orchestrator.start _ (World.fresh [] (fun _ _ => none) 0)) ([.spawn (.run "g" tenant none)] ++ calls 0 14)
      (fun q => handing "{{ context.a.b }}" none q &&
        decide ((Orchestrator.clampOf q 0).map (fun c => (c.flags, c.entries)) = some ([("amount", "5"), ("a.b", "7")], [])))
      (by decide +kernel)
    simp only [Bool.and_eq_true, decide_eq_true_eq, Option.map_eq_some_iff, Prod.mk.injEq] at met
    obtain ⟨handed, c, tag, flags, entries⟩ := met
    obtain ⟨info, pub, next, described, amount⟩ := of_handing handed
    have told := claimed _ platform _ (reserve "{{ context.a.b }}") _ _ _ capper_governed (by decide +kernel) _ _ _ q run 0 info pub
      next _ (List.mem_singleton_self _) described c tag [.inl "amount"] "{{ context.a.b }}" "a.b" "7" rfl (by decide +kernel)
      ⟨by rw [entries]; exact List.not_mem_nil, List.not_mem_nil⟩ (by rw [flags]; rfl)
    rw [told] at amount
    cases amount

end Maof
