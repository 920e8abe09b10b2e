import Maof.Effects.Record
import Maof.Orchestrator.Frames
import Maof.Orchestrator.Passage
import Maof.Orchestrator.Stages
import Maof.Workflows.Clamps
import Maof.Workflows.StepApproval

/-!
# What a plan passes before it is published

The policy looks at the plan, the gate waits for whoever the policy asks for, and
only then are the tasks handed out. Each of the three stages runs once for a
run's context, possibly in different processes with crashes between them; what one
stage hands to the next it hands on through the checkpoint.
-/

namespace Maof

open Data (Dict)
open Effects (Act Prog Protocol Machine Pool Proc Label Event Recorded)

/-! ## The stage that makes the plan -/

namespace ActionPlanStage

/-- The plan passed `post_plan`, and what it asked for is written down. -/
def Judged (p : Platform) (stage : ActionPlanStage) (work : Work) : Prop :=
  ∀ hooks intent, stage.governed work = some (hooks, intent) → ∃ ruleset env proposed out,
    hooks.judge p ruleset (.postPlan env.stage) env intent (some proposed) = .ok out ∧ out.decision.denied = false ∧
      work.plan = some (out.plan.getD proposed) ∧ work.extras.policy = some (PolicyHooks.record out.decision)

section judged

variable {p : Platform} {stage : ActionPlanStage} {info : RunInfo} {names : Option (List String)} {A : StageOp → Prop}
  (loads : ∀ tenantId ref, A (.loadRuleset tenantId ref)) (emits : ∀ event, A (.emit event))

include loads emits

theorem postPlan_judged {plan : Plan} {work : Work} (same : Same names work) :
    (stage.postPlan p plan).Follows (.plain A)
      (fun r work' _ => Same names work' ∧ (r = .ok () → stage.Judged p work')) work () := by
  apply Act.follows_get_bind
  cases governs : stage.governed work with
  | none =>
      refine Act.follows_pure ⟨same, fun _ hooks intent governed => ?_⟩
      rw [governs] at governed
      cases governed
  | some both =>
      obtain ⟨hooks, intent⟩ := both
      simp only
      apply Act.follows_bind (evaluate_spec loads emits work)
      · rintro out _ _ ⟨⟨ruleset, env, opened, judged⟩, rfl⟩
        apply Act.follows_modify_bind
        split
        · exact Act.follows_throw ⟨same, fun ended => by cases ended⟩
        · next passed =>
            refine Act.follows_pure ⟨same, fun _ hooks' intent' governed => ?_⟩
            have kept : stage.governed work = some (hooks', intent') := governed
            rw [governs] at kept
            cases kept
            exact ⟨ruleset, env, plan, out, judged, Bool.eq_false_iff.mpr passed, rfl, rfl⟩
      · intro e work' _ evaluated
        rcases evaluated with rfl | ⟨out, rfl⟩
        · exact ⟨same, fun ended => by cases ended⟩
        · exact ⟨reflect_same same, fun ended => by cases ended⟩

/-- Where the stage answers, its plan has been judged. -/
theorem execute_judged (heeds : stage.Heeds A) {work : Work} (same : Same names work) :
    (stage.execute p info).Follows (.plain A)
      (fun r work' _ => Same names work' ∧ (r = .ok () → stage.Judged p work')) work () := by
  have fails : ∀ (e : Exn) (work' : Work) (_ : Unit), Same names work' →
      Same names work' ∧ ((.error e : Except Exn Unit) = .ok () → stage.Judged p work') :=
    fun _ _ _ same => ⟨same, fun ended => by cases ended⟩
  apply Act.follows_bind (build_within heeds work same)
  · intro _ work₁ _ same
    apply Act.follows_bind (prePrompt_within loads emits work₁ same)
    · intro _ work₂ _ same
      apply Act.follows_bind (heeds.planner info names work₂ same)
      · intro plan work₃ _ same
        exact Act.follows_modify_bind (postPlan_judged loads emits same)
      · exact fails
    · exact fails
  · exact fails

end judged

end ActionPlanStage

/-! ## The law of the pipeline -/

/-- Nothing is handed out. -/
def StageOp.Silent (op : StageOp) : Prop := op.publishes = false

/-- A stage that hands out nothing and leaves the record of the completed stages to the driver. -/
def PipelineStage.Silent (stage : PipelineStage) : Prop :=
  ∀ info names, (stage.execute info).Within (fun work => work.extras.completedStages = names) StageOp.Silent

/-- And that leaves the plan, the intent and what the policy asked for alone. -/
def PipelineStage.Respectful (stage : PipelineStage) : Prop :=
  ∀ info names plan intent policy, (stage.execute info).Within (fun work => work.extras.completedStages = names ∧
    work.plan = plan ∧ work.intent = intent ∧ work.extras.policy = policy) StageOp.Silent

/-- The plan is made, approved and published, in this order, and nobody else publishes. -/
structure Gated (l1 : DefaultL1) (p : Platform) (plan : ActionPlanStage) (gate : ApprovalStage) (publish : PublishStage)
    (before between beside after : List PipelineStage) : Prop where
  pipeline : l1.pipeline = before ++ actionPlanStage p plan :: (between ++ approvalStage gate :: (beside ++ publishStage p publish :: after))
  distinct : (l1.pipeline.map PipelineStage.name).Nodup
  plans : plan.Heeds StageOp.Silent
  closed : gate.fallback = "deny" ∨ (gate.hitlEnabled && gate.gate) = true
  early : ∀ stage ∈ before, stage.Silent
  late : ∀ stage ∈ between ++ beside ++ after, stage.Respectful

namespace PlanGate

/-- A wait at the gate that returned. -/
structure Grant where
  runId : RunId
  reason : String
  roles : List String
  parties : Int
deriving DecidableEq

/-- The wait is one of the calls that were made, and it returned. -/
def Granted (log : List (Event RunSig)) (g : Grant) : Prop :=
  ∃ info, info.runId = g.runId ∧ (⟨.stage info (.approvalWait g.reason g.roles g.parties), .ok ()⟩ : Event RunSig) ∈ log

/-- The task is one of a plan that passed the policy, and whom the policy asked for has approved. -/
structure Admitted (p : Platform) (plan : ActionPlanStage) (log : List (Event RunSig)) (info : RunInfo) (pub : Publication) :
    Prop where
  planned : ∃ made, pub.work.plan = some made ∧ ∃ t ∈ made.tasks, pub.task = PublishStage.keyed p info t
  judged : ∀ hooks intent, plan.governed pub.work = some (hooks, intent) → ∃ ruleset env proposed out,
    hooks.judge p ruleset (.postPlan env.stage) env intent (some proposed) = .ok out ∧ out.decision.denied = false ∧
      pub.work.plan = some (out.plan.getD proposed) ∧ (out.decision.requireApproval = true →
        Granted log ⟨info.runId, out.decision.approvalReason, out.decision.approvalRoles, out.decision.approvalParties⟩)

/-- Every publication comes after what admits it. -/
def AdmittedAll (p : Platform) (plan : ActionPlanStage) (log : List (Event RunSig)) : Prop :=
  ∀ before event after, log = before ++ event :: after → ∀ info pub, event.op = .stage info (.publishTask pub) →
    Admitted p plan before info pub

/-! ## What a drive knows -/

def grantOf (info : RunInfo) (record : PolicyRecord) : Grant :=
  ⟨info.runId, record.approvalReason, record.approvalRoles, record.approvalParties⟩

/-- What a context asks the gate for. -/
def demands (sc : StageContext) : List Grant :=
  match sc.work.extras.policy with
  | some record => if record.requireApproval then [grantOf sc.info record] else []
  | none => []

/-- A checkpoint behind the gate is a proof that the gate was passed. -/
def held (blob : Json) : List Grant :=
  match checkpointDeserialize blob with
  | .ok sc => if "approval" ∈ sc.work.names then demands sc else []
  | .error _ => []

def mark (g : List Grant) : (op : Op) → Except Exn op.Ans → List Grant
  | .stage info (.approvalWait reason roles parties), .ok _ => ⟨info.runId, reason, roles, parties⟩ :: g
  | .load _, .ok (some blob) => held blob ++ g
  | _, _ => g

section drive

variable (p : Platform) (plan : ActionPlanStage) (before : List PipelineStage)

/-- What a context has to show for the stages it names as completed. -/
structure Carried (info : RunInfo) (work : Work) (g : List Grant) : Prop where
  settled : "action_plan" ∈ work.names → ∀ stage ∈ before, stage.name ∈ work.names
  judged : "action_plan" ∈ work.names → plan.Judged p work
  approved : "approval" ∈ work.names → "action_plan" ∈ work.names ∧ demands ⟨info, work⟩ ⊆ g

def allowed (g : List Grant) : Op → Prop
  | .save r _ blob => ∃ info work, blob = checkpointSerialize { info, work } ∧ info.runId = r ∧ Carried p plan before info work g
  | .stage info (.publishTask pub) => (∃ made, pub.work.plan = some made ∧ ∃ t ∈ made.tasks, pub.task = PublishStage.keyed p info t) ∧
      plan.Judged p pub.work ∧ demands ⟨info, pub.work⟩ ⊆ g
  | _ => True

def answers : (op : Op) → Except Exn op.Ans → Prop
  | .load _, .ok (some blob) => ∀ sc, checkpointDeserialize blob = .ok sc → Carried p plan before sc.info sc.work (held blob)
  | _, _ => True

def protocol : Protocol RunSig (List Grant) := ⟨allowed p plan before, answers p plan before, mark⟩

def carrying : Passage (List Grant) where
  idle _ := True
  entered info completed work g := Carried p plan before info work g ∧ ∀ name, name ∈ completed ↔ name ∈ work.names
  left info _ work g := Carried p plan before info work g

end drive

section laws

variable {p : Platform} {plan : ActionPlanStage} {gate : ApprovalStage} {publish : PublishStage}
  {before between beside after : List PipelineStage} {l1 : DefaultL1} {info : RunInfo} {completed : List String} {work : Work}
  {g g' : List Grant}

theorem Carried.mono (carried : Carried p plan before info work g) (grown : g ⊆ g') : Carried p plan before info work g' :=
  ⟨carried.settled, carried.judged, fun there => ⟨(carried.approved there).1, fun _ member => grown ((carried.approved there).2 member)⟩⟩

theorem Carried.staged {stage : Stage} (carried : Carried p plan before info work g) :
    Carried p plan before info { work with stage } g := ⟨carried.settled, carried.judged, carried.approved⟩

/-- Before the plan is made nothing is asked. -/
theorem carried_early (early : "action_plan" ∉ work.names) (ungated : "approval" ∉ work.names) :
    Carried p plan before info work g :=
  ⟨fun there => absurd there early, fun there => absurd there early, fun there => absurd there ungated⟩

theorem quiet_plans : Quiet (protocol p plan before) where
  allowed g op other := by
    cases op with
    | save _ _ _ => cases other
    | stage _ _ => cases other
    | _ => trivial
  mark g op reply other := by
    cases op with
    | load _ => cases other
    | stage _ _ => cases other
    | _ => rfl

theorem still_save {label : String} (carried : Carried p plan before info work g) :
    (l1.save info label).Follows (protocol p plan before) (Still (protocol p plan before) work g) work g := by
  unfold DefaultL1.save
  split
  · apply Act.follows_get_bind
    have free : allowed p plan before g (.save info.runId label (checkpointSerialize { info, work })) :=
      ⟨info, work, rfl, rfl, carried⟩
    refine Act.follows_await (S := RunSig) free fun r known => ⟨rfl, rfl, ?_⟩
    rintro e rfl
    exact ⟨_, known⟩
  · exact still_pure

/-- The checkpoint of a stage. -/
theorem recorded_saves {name : String} (carried : Carried p plan before info (work.recorded (completed ++ [name])) g) :
    (l1.save info name).Follows (protocol p plan before) (fun r saved g' =>
      saved = work.recorded (completed ++ [name]) ∧ (carrying p plan before).entered info (completed ++ [name]) saved g' ∧
        ∀ e, r = .error e → Raised (protocol p plan before) e) (work.recorded (completed ++ [name])) g := by
  apply Act.Follows.weaken (still_save carried)
  rintro r _ _ ⟨rfl, rfl, raised⟩
  exact ⟨rfl, ⟨carried, fun _ => Work.mem_recorded.symm⟩, raised⟩

/-- What a stage that hands out nothing is allowed, and what it adds to the grants. -/
theorem silent_follows {post : Except Exn Unit × Work → Unit → Prop} {prog : Prog StageSig (Except Exn Unit × Work)}
    (h : prog.Follows (.plain StageOp.Silent) post ()) :
    prog.Follows (stageCalls (protocol p plan before) info) (fun out g' => post out () ∧ g ⊆ g') g := by
  apply Prog.Follows.ofPlain_along (R := fun g g' : List Grant => g ⊆ g') (fun g => List.Subset.refl g)
    (fun _ _ _ => List.Subset.trans) h
  · intro g op silent
    cases op with
    | publishTask pub => cases silent
    | _ => trivial
  · intro g op r silent
    cases op with
    | approvalWait reason roles parties =>
        cases r with
        | ok u => exact List.subset_cons_self _ _
        | error e => exact List.Subset.refl g
    | _ => exact List.Subset.refl g

/-- Where in a list an element stands that a split names. -/
theorem place_cons {α : Type} {xs ys pre post : List α} {x s : α} (split : xs ++ x :: ys = pre ++ s :: post) :
    s ∈ xs ∨ s = x ∧ pre = xs ∨ ∃ mid, pre = xs ++ x :: mid ∧ ys = mid ++ s :: post := by
  rcases List.append_eq_append_iff.mp split with ⟨mid, rfl, rest⟩ | ⟨mid, rfl, rest⟩
  · cases mid with
    | nil =>
        rw [List.append_nil]
        exact .inr (.inl ⟨(List.cons.inj rest).1.symm, rfl⟩)
    | cons first mid =>
        obtain ⟨rfl, same⟩ := List.cons.inj rest
        exact .inr (.inr ⟨mid, rfl, same⟩)
  · cases mid with
    | nil =>
        rw [List.append_nil]
        exact .inr (.inl ⟨(List.cons.inj rest).1, rfl⟩)
    | cons first mid =>
        obtain ⟨rfl, _⟩ := List.cons.inj rest
        exact .inl (List.mem_append_right _ List.mem_cons_self)

/-- Where in the pipeline a stage stands that the driver comes to. -/
theorem place (gated : Gated l1 p plan gate publish before between beside after) {pre post : List PipelineStage}
    {stage : PipelineStage} (split : l1.pipeline = pre ++ stage :: post) :
    stage ∈ before ∨ stage = actionPlanStage p plan ∧ pre = before ∨
      (actionPlanStage p plan ∈ pre ∧ before ⊆ pre) ∧ (stage ∈ between ++ beside ++ after ∨ stage = approvalStage gate ∨
        stage = publishStage p publish ∧ approvalStage gate ∈ pre) := by
  rcases place_cons (gated.pipeline.symm.trans split) with early | here | ⟨mid, rfl, rest⟩
  · exact .inl early
  · exact .inr (.inl here)
  · refine .inr (.inr ⟨⟨List.mem_append_right _ List.mem_cons_self, List.subset_append_left _ _⟩, ?_⟩)
    rcases place_cons rest with middle | ⟨rfl, _⟩ | ⟨mid', rfl, later⟩
    · exact .inl (List.mem_append_left _ (List.mem_append_left _ middle))
    · exact .inr (.inl rfl)
    · rcases place_cons later with middle | ⟨rfl, _⟩ | ⟨mid'', _, last⟩
      · exact .inl (List.mem_append_left _ (List.mem_append_right _ middle))
      · refine .inr (.inr ⟨rfl, ?_⟩)
        exact List.mem_append_right _ (List.mem_cons_of_mem _ (List.mem_append_right _ List.mem_cons_self))
      · refine .inl (List.mem_append_right _ ?_)
        rw [last]
        exact List.mem_append_right _ List.mem_cons_self

/-- No other stage has the name of the plan's or the gate's. -/
theorem other_names (gated : Gated l1 p plan gate publish before between beside after) {stage : PipelineStage}
    (member : stage ∈ before ∨ stage ∈ between ++ beside ++ after) :
    stage.name ≠ "action_plan" ∧ stage.name ≠ "approval" := by
  have distinct := gated.distinct
  rw [gated.pipeline] at distinct
  simp only [List.map_append, List.map_cons, List.nodup_append, List.nodup_cons, List.mem_append, List.mem_cons,
    List.mem_map, actionPlanStage, approvalStage, publishStage] at distinct
  simp only [List.mem_append] at member
  grind

/-- A stage whose plan, intent and demands are as they were judged. -/
theorem judged_of_same {work' : Work} (judged : plan.Judged p work) (plans : work'.plan = work.plan)
    (intents : work'.intent = work.intent) (policies : work'.extras.policy = work.extras.policy) : plan.Judged p work' := by
  intro hooks intent governed
  have governed' : plan.governed work = some (hooks, intent) := by
    simpa only [ActionPlanStage.governed, intents] using governed
  obtain ⟨ruleset, env, proposed, out, given, passed, planned, noted⟩ := judged hooks intent governed'
  exact ⟨ruleset, env, proposed, out, given, passed, plans.trans planned, policies.trans noted⟩

theorem demands_of_same {work' : Work} (policies : work'.extras.policy = work.extras.policy) :
    demands ⟨info, work'⟩ = demands ⟨info, work⟩ := by
  simp only [demands, policies]

theorem absent_early (entered : (carrying p plan before).entered info completed work g) {stage : PipelineStage}
    (member : stage ∈ before) (new : stage.name ∉ completed) : "action_plan" ∉ work.names := fun there =>
  new ((entered.2 _).mpr (entered.1.settled there stage member))

theorem takes_early (gated : Gated l1 p plan gate publish before between beside after) {stage : PipelineStage}
    (member : stage ∈ before) (new : stage.name ∉ completed) (entered : (carrying p plan before).entered info completed work g) :
    (carrying p plan before).Takes (protocol p plan before) l1 stage info completed work g := by
  obtain ⟨other, other'⟩ := other_names gated (.inl member)
  have absent := absent_early entered member new
  have ungated : "approval" ∉ work.names := fun there => absent (entered.1.approved there).1
  apply Prog.Follows.weaken (silent_follows (gated.early stage member info work.extras.completedStages work rfl))
  rintro ⟨r, work'⟩ g' ⟨same, grown⟩
  have names : work'.names = work.names := congrArg (·.getD []) same
  cases r with
  | error e =>
      apply carried_early
      · rwa [names]
      · rwa [names]
  | ok u =>
      apply recorded_saves (carried_early ?_ ?_)
      · rw [Work.mem_recorded, List.mem_append, List.mem_singleton, not_or, entered.2]
        exact ⟨absent, Ne.symm other⟩
      · rw [Work.mem_recorded, List.mem_append, List.mem_singleton, not_or, entered.2]
        exact ⟨ungated, Ne.symm other'⟩

theorem takes_plan (gated : Gated l1 p plan gate publish before between beside after)
    (passed : ∀ stage ∈ before, stage.name ∈ completed) (new : "action_plan" ∉ completed)
    (entered : (carrying p plan before).entered info completed work g) :
    (carrying p plan before).Takes (protocol p plan before) l1 (actionPlanStage p plan) info completed work g := by
  have absent : "action_plan" ∉ work.names := fun there => new ((entered.2 _).mpr there)
  have ungated : "approval" ∉ work.names := fun there => absent (entered.1.approved there).1
  have left := @ActionPlanStage.execute_judged p plan info work.extras.completedStages StageOp.Silent (fun _ _ => rfl)
    (fun _ => rfl) gated.plans work rfl
  apply Prog.Follows.weaken (silent_follows left)
  rintro ⟨r, work'⟩ g' ⟨⟨same, judged⟩, grown⟩
  cases r with
  | error e =>
      have names : work'.names = work.names := congrArg (·.getD []) same
      apply carried_early
      · rwa [names]
      · rwa [names]
  | ok u =>
      apply recorded_saves
      refine ⟨fun _ s member => Work.mem_recorded.mpr (List.mem_append_left _ (passed s member)), ?_, ?_⟩
      · exact fun _ => judged_of_same (judged rfl) rfl rfl rfl
      · intro there
        rcases List.mem_append.mp (Work.mem_recorded.mp there) with old | last
        · exact absurd ((entered.2 _).mp old) ungated
        · have other : ¬ "approval" = "action_plan" := by decide
          exact absurd (List.mem_singleton.mp last) other

/-- What a stage behind the plan leaves, where it leaves plan, intent and demands alone. -/
theorem carried_behind {name : String} {work' : Work} (entered : (carrying p plan before).entered info completed work g)
    (planned : "action_plan" ∈ completed) (passed : ∀ stage ∈ before, stage.name ∈ completed)
    (plans : work'.plan = work.plan) (intents : work'.intent = work.intent)
    (policies : work'.extras.policy = work.extras.policy) (grown : g ⊆ g')
    (granted : name = "approval" → demands ⟨info, work⟩ ⊆ g') :
    Carried p plan before info (work'.recorded (completed ++ [name])) g' := by
  refine ⟨fun _ s member => Work.mem_recorded.mpr (List.mem_append_left _ (passed s member)), ?_, ?_⟩
  · exact fun _ => judged_of_same (entered.1.judged ((entered.2 _).mp planned)) plans intents policies
  · intro there
    refine ⟨Work.mem_recorded.mpr (List.mem_append_left _ planned), ?_⟩
    have same : demands ⟨info, work'.recorded (completed ++ [name])⟩ = demands ⟨info, work⟩ := demands_of_same policies
    rw [same]
    rcases List.mem_append.mp (Work.mem_recorded.mp there) with old | last
    · exact List.Subset.trans (entered.1.approved ((entered.2 _).mp old)).2 grown
    · exact granted (List.mem_singleton.mp last).symm

/-- And where it raises. -/
theorem carried_raised {work' : Work} (carried : Carried p plan before info work g)
    (names : work'.extras.completedStages = work.extras.completedStages) (plans : work'.plan = work.plan)
    (intents : work'.intent = work.intent) (policies : work'.extras.policy = work.extras.policy) (grown : g ⊆ g') :
    Carried p plan before info work' g' := by
  have same : work'.names = work.names := congrArg (·.getD []) names
  refine ⟨?_, ?_, ?_⟩
  · rw [same]
    exact carried.settled
  · rw [same]
    exact fun there => judged_of_same (carried.judged there) plans intents policies
  · rw [same, demands_of_same policies]
    exact fun there => ⟨(carried.approved there).1, List.Subset.trans (carried.approved there).2 grown⟩

theorem takes_respectful (gated : Gated l1 p plan gate publish before between beside after) {stage : PipelineStage}
    (member : stage ∈ between ++ beside ++ after) (planned : "action_plan" ∈ completed)
    (passed : ∀ stage ∈ before, stage.name ∈ completed) (entered : (carrying p plan before).entered info completed work g) :
    (carrying p plan before).Takes (protocol p plan before) l1 stage info completed work g := by
  have respectful := gated.late stage member info work.extras.completedStages work.plan work.intent work.extras.policy work
    ⟨rfl, rfl, rfl, rfl⟩
  apply Prog.Follows.weaken (silent_follows respectful)
  rintro ⟨r, work'⟩ g' ⟨⟨names, plans, intents, policies⟩, grown⟩
  cases r with
  | error e => exact carried_raised entered.1 names plans intents policies grown
  | ok u =>
      apply recorded_saves
      exact carried_behind entered planned passed plans intents policies grown fun same =>
        absurd same (other_names gated (.inr member)).2

/-- The gate answers for whoever the policy asked for. -/
theorem takes_gate (gated : Gated l1 p plan gate publish before between beside after) (planned : "action_plan" ∈ completed)
    (passed : ∀ stage ∈ before, stage.name ∈ completed) (entered : (carrying p plan before).entered info completed work g) :
    (carrying p plan before).Takes (protocol p plan before) l1 (approvalStage gate) info completed work g := by
  have saves : ∀ g', g ⊆ g' → demands ⟨info, work⟩ ⊆ g' → (l1.save info "approval").Follows (protocol p plan before)
      (fun r saved g'' => saved = work.recorded (completed ++ ["approval"]) ∧
        (carrying p plan before).entered info (completed ++ ["approval"]) saved g'' ∧
          ∀ e, r = .error e → Raised (protocol p plan before) e) (work.recorded (completed ++ ["approval"])) g' := by
    intro g' grown granted
    apply recorded_saves
    exact carried_behind entered planned passed rfl rfl rfl grown fun _ => granted
  refine Act.follows_get_bind ?_
  cases asked : work.extras.policy with
  | none =>
      refine Act.follows_pure (saves g (List.Subset.refl g) ?_)
      simp only [demands, asked]
      exact List.nil_subset g
  | some record =>
      simp only
      split
      · next none =>
          refine Act.follows_pure (saves g (List.Subset.refl g) ?_)
          have no : record.requireApproval = false := by simpa using none
          simp only [demands, asked, no, Bool.false_eq_true, if_false]
          exact List.nil_subset g
      · next asks =>
          have yes : record.requireApproval = true := by simpa using asks
          split
          · have free : (stageCalls (protocol p plan before) info).allowed g
                (.approvalWait record.approvalReason record.approvalRoles record.approvalParties) := trivial
            refine Act.follows_await (S := StageSig) free fun r _ => ?_
            cases r with
            | error e => exact entered.1
            | ok u =>
                refine saves _ (List.subset_cons_self _ _) ?_
                simp only [demands, asked, yes, if_true]
                exact List.cons_subset_cons _ (List.nil_subset g)
          · next shut =>
              rw [if_pos (gated.closed.resolve_right shut)]
              exact Act.follows_throw entered.1

/-- The tasks that are handed out are the tasks of the plan. -/
theorem publishTasks_follows {made : Plan} (judged : plan.Judged p work) (granted : demands ⟨info, work⟩ ⊆ g)
    (whole : work.plan = some made) {tasks : List Task} (inside : tasks ⊆ made.tasks) :
    (publish.publishTasks p info tasks).Follows (stageCalls (protocol p plan before) info)
      (fun _ work' g' => work' = work ∧ g' = g) work g := by
  induction tasks with
  | nil => exact Act.follows_pure ⟨rfl, rfl⟩
  | cons t tasks ih =>
      have member := inside List.mem_cons_self
      apply Act.follows_bind (Q := fun _ work' g' => work' = work ∧ g' = g) (Act.follows_ofExcept ⟨rfl, rfl⟩)
      · rintro u work g ⟨rfl, rfl⟩
        apply Act.follows_get_bind
        have free : (stageCalls (protocol p plan before) info).allowed g (.publishTask (publish.publication p info work t)) :=
          ⟨⟨made, whole, t, member, rfl⟩, judged, granted⟩
        refine Act.follows_await_bind (S := StageSig) free (fun _ _ => ?_) fun _ _ => ⟨rfl, rfl⟩
        apply Act.follows_bind (ih fun x there => inside (List.mem_cons_of_mem _ there))
        · rintro published _ _ ⟨rfl, rfl⟩
          exact Act.follows_pure ⟨rfl, rfl⟩
        · exact fun _ _ _ => id
      · exact fun _ _ _ => id

theorem takes_publish (planned : "action_plan" ∈ completed) (approved : "approval" ∈ completed)
    (passed : ∀ stage ∈ before, stage.name ∈ completed) (entered : (carrying p plan before).entered info completed work g) :
    (carrying p plan before).Takes (protocol p plan before) l1 (publishStage p publish) info completed work g := by
  have judged := entered.1.judged ((entered.2 _).mp planned)
  have granted := (entered.1.approved ((entered.2 _).mp approved)).2
  have saves : ∀ work' : Work, work'.plan = work.plan → work'.intent = work.intent →
      work'.extras.policy = work.extras.policy → (l1.save info "publish").Follows (protocol p plan before)
      (fun r saved g'' => saved = work'.recorded (completed ++ ["publish"]) ∧
        (carrying p plan before).entered info (completed ++ ["publish"]) saved g'' ∧
          ∀ e, r = .error e → Raised (protocol p plan before) e) (work'.recorded (completed ++ ["publish"])) g := by
    intro work' plans intents policies
    have other : ¬ "publish" = "approval" := by decide
    exact recorded_saves (carried_behind entered planned passed plans intents policies (List.Subset.refl g)
      fun same => absurd same other)
  refine Act.follows_get_bind ?_
  cases whole : work.plan with
  | none => exact Act.follows_pure (saves work rfl rfl rfl)
  | some made =>
      apply Act.follows_bind (publishTasks_follows judged granted whole (List.Subset.refl made.tasks))
      · rintro published _ _ ⟨rfl, rfl⟩
        exact Act.follows_modify (saves _ rfl rfl rfl)
      · rintro e _ _ ⟨rfl, rfl⟩
        exact entered.1

/-- Every drive carries what it has to show. -/
theorem carrying_along (gated : Gated l1 p plan gate publish before between beside after) :
    (carrying p plan before).Along (protocol p plan before) l1 where
  quiet := quiet_plans
  rests _ := trivial
  stops _ := trivial
  raises _ entered := entered.1
  staged _ entered := ⟨entered.1.staged, entered.2⟩
  takes {pre stage post info completed work g} split passed new entered := by
    rcases place gated split with early | ⟨rfl, rfl⟩ | ⟨⟨planned, earlier⟩, respectful | rfl | ⟨rfl, approved⟩⟩
    · exact takes_early gated early new entered
    · exact takes_plan gated passed new entered
    · exact takes_respectful gated respectful (passed _ planned) (fun s member => passed s (earlier member)) entered
    · exact takes_gate gated (passed _ planned) (fun s member => passed s (earlier member)) entered
    · exact takes_publish (passed _ planned) (passed _ approved) (fun s member => passed s (earlier member)) entered
  parks {info condition gate work g} carried := by
    have left : (do
        DefaultL1.setStatus info .waiting
        l1.emit info "run_waiting" [("condition", .str condition.kind.value)]
        return DefaultL1.result info (← Act.get) "waiting" ("waiting on " ++ condition.kind.value) [] :
          DriverM OrchestrationResult).Follows (protocol p plan before)
            (fun _ _ g' => (carrying p plan before).idle g') work g :=
      Act.Follows.weaken (still_leave quiet_plans) fun _ _ _ _ => trivial
    apply still_bind (still_save carried)
    · intro _
      split
      · exact Act.follows_await_bind (S := RunSig) trivial (fun _ _ => Act.Follows.weaken left fun _ _ _ _ _ _ => trivial)
          fun _ _ _ _ => trivial
      · exact Act.Follows.weaken left fun _ _ _ _ _ _ => trivial
    · exact fun _ _ _ _ => trivial
  creates _ _ _ := trivial
  fresh _ _ := ⟨carried_early List.not_mem_nil List.not_mem_nil, fun _ => Iff.rfl⟩
  loads _ _ := trivial
  resumed {g runId blob sc} _ known read :=
    ⟨(known sc read).mono (List.subset_append_left _ _), fun _ => List.mem_dedup⟩

end laws

/-! ## In any interleaving -/

/-- The orchestrator, with what each process knows of the gate beside it. -/
def watched (o : Orchestrator) : Machine RunSig (Recorded RunSig World) Choice Actor EnvMove (List Grant) :=
  (o.machine (fun _ => []) mark).recorded

section runs

variable (o : Orchestrator) (p : Platform) (plan : ActionPlanStage) (before : List PipelineStage)

/-- What holds of the orchestrator between any two calls. -/
structure Upheld (q : Pool RunSig (Recorded RunSig World) (List Grant)) : Prop where
  kept : ∀ r label blob, q.world.world.checkpoints r = some (label, blob) → ∃ sc, checkpointDeserialize blob = .ok sc ∧
    Carried p plan before sc.info sc.work (held blob) ∧ ∀ x ∈ held blob, Granted q.world.log x
  tags : ∀ b ∈ q.procs, ∀ x ∈ b.tag, Granted q.world.log x
  follow : Machine.AllFollow (protocol p plan before) (fun _ _ => True) q
  admitted : AdmittedAll p plan q.world.log

variable {o p plan before} {gate : ApprovalStage} {publish : PublishStage} {between beside after : List PipelineStage}
  {q q' : Pool RunSig (Recorded RunSig World) (List Grant)}

theorem Granted.mono {log log' : List (Event RunSig)} {x : Grant} (granted : Granted log x) (grown : log <+: log') :
    Granted log' x := by
  obtain ⟨info, mine, member⟩ := granted
  exact ⟨info, mine, grown.subset member⟩

theorem held_serialize {info : RunInfo} {work : Work} : held (checkpointSerialize { info, work }) =
    if "approval" ∈ work.names then demands ⟨info, work⟩ else [] := by
  simp only [held, deserialize_serialize]
  rfl

/-- A context shows as much when it is read back. -/
theorem Carried.saved {info : RunInfo} {work : Work} {g : List Grant} (carried : Carried p plan before info work g) :
    Carried p plan before info work (held (checkpointSerialize { info, work })) ∧
      held (checkpointSerialize { info, work }) ⊆ g := by
  rw [held_serialize]
  by_cases there : "approval" ∈ work.names
  · rw [if_pos there]
    exact ⟨⟨carried.settled, carried.judged, fun _ => ⟨(carried.approved there).1, List.Subset.refl _⟩⟩,
      (carried.approved there).2⟩
  · rw [if_neg there]
    exact ⟨⟨carried.settled, carried.judged, fun there' => absurd there' there⟩, List.nil_subset g⟩

theorem Upheld.loads (upheld : Upheld p plan before q) {r : RunId} {ch : Choice} {blob : Json}
    (reply : (World.perform o.deployment ch q.world.world (.load r)).2 = .ok (some blob)) :
    ∃ sc, checkpointDeserialize blob = .ok sc ∧ Carried p plan before sc.info sc.work (held blob) ∧
      ∀ x ∈ held blob, Granted q.world.log x := by
  have answered := (congrArg Prod.snd (World.perform_ok reply)).symm.trans reply
  simp only [World.effect, Except.ok.injEq, Option.map_eq_some_iff] at answered
  obtain ⟨⟨label, _⟩, kept, rfl⟩ := answered
  exact upheld.kept r label _ kept

/-- What is said of a checkpoint on the way to it is so. -/
theorem Upheld.answers (upheld : Upheld p plan before q) (ch : Choice) (op : Op) :
    answers p plan before op (World.perform o.deployment ch q.world.world op).2 := by
  cases op with
  | load r =>
      cases reply : (World.perform o.deployment ch q.world.world (.load r)).2 with
      | error e => trivial
      | ok answer =>
          cases answer with
          | none => trivial
          | some blob =>
              obtain ⟨sc, read, carried, _⟩ := upheld.loads reply
              intro sc' read'
              obtain rfl := Except.ok.inj (read.symm.trans read')
              exact carried
  | _ => trivial

/-- What a process knows after a call is among the calls that were made. -/
theorem Upheld.tag (upheld : Upheld p plan before q) {i : Nat} {op : Op} {k : RunSig.Reply op → Prog RunSig (Except Exn Unit)}
    {g : List Grant} (found : q.procs[i]? = some ⟨.call op k, g⟩) (ch : Choice) {x : Grant}
    (known : x ∈ mark g op (World.perform o.deployment ch q.world.world op).2) :
    Granted (q.world.log ++ [⟨op, (World.perform o.deployment ch q.world.world op).2⟩]) x := by
  have old : ∀ y ∈ g, Granted (q.world.log ++ [⟨op, (World.perform o.deployment ch q.world.world op).2⟩]) y := fun y member =>
    (upheld.tags _ (List.mem_of_getElem? found) y member).mono (List.prefix_append _ _)
  cases op with
  | stage info op =>
      cases op with
      | approvalWait reason roles parties =>
          cases reply : (World.perform o.deployment ch q.world.world (.stage info (.approvalWait reason roles parties))).2 with
          | error e =>
              rw [reply] at known old
              exact old x known
          | ok u =>
              rw [reply] at known old
              rcases List.mem_cons.mp known with rfl | other
              · exact ⟨info, rfl, List.mem_append_right _ List.mem_cons_self⟩
              · exact old x other
      | _ => exact old x known
  | load r =>
      cases reply : (World.perform o.deployment ch q.world.world (.load r)).2 with
      | error e =>
          rw [reply] at known old
          exact old x known
      | ok answer =>
          cases answer with
          | none =>
              rw [reply] at known old
              exact old x known
          | some blob =>
              obtain ⟨sc, read, _, granted⟩ := upheld.loads reply
              rw [reply] at known old
              rcases List.mem_append.mp known with behind | other
              · exact (granted x behind).mono (List.prefix_append _ _)
              · exact old x other
  | _ => exact old x known

/-- A publication that is about to be made is admitted. -/
theorem Upheld.admits (upheld : Upheld p plan before q) {i : Nat} {info : RunInfo} {pub : Publication}
    {k : RunSig.Reply (.stage info (.publishTask pub)) → Prog RunSig (Except Exn Unit)} {g : List Grant}
    (found : q.procs[i]? = some ⟨.call (.stage info (.publishTask pub)) k, g⟩) : Admitted p plan q.world.log info pub := by
  obtain ⟨planned, judged, granted⟩ := upheld.follow.allowed found
  refine ⟨planned, fun hooks intent governed => ?_⟩
  obtain ⟨ruleset, env, proposed, out, given, passed, whole, noted⟩ := judged hooks intent governed
  refine ⟨ruleset, env, proposed, out, given, passed, whole, fun asks => ?_⟩
  apply upheld.tags _ (List.mem_of_getElem? found)
  apply granted
  simp only [demands, noted, PolicyHooks.record, asks, if_true]
  exact List.mem_cons_self

theorem AdmittedAll.append {log : List (Event RunSig)} {event : Event RunSig} (admitted : AdmittedAll p plan log)
    (last : ∀ info pub, event.op = .stage info (.publishTask pub) → Admitted p plan log info pub) :
    AdmittedAll p plan (log ++ [event]) := by
  intro before' e after' split
  rcases List.eq_nil_or_concat after' with rfl | ⟨after'', e', rfl⟩
  · obtain ⟨rfl, same⟩ := List.append_inj' split rfl
    cases same
    exact last
  · rw [List.concat_eq_append, ← List.cons_append, ← List.append_assoc] at split
    obtain ⟨rfl, _⟩ := List.append_inj' split rfl
    exact admitted before' e after'' rfl

theorem Upheld.step (gated : Gated o.l1 p plan gate publish before between beside after) (upheld : Upheld p plan before q)
    {l : Label Choice Actor EnvMove} (h : (watched o).step q l = some q') : Upheld p plan before q' := by
  have started : ∀ a, (o.program a).Follows (protocol p plan before) (fun _ _ => True) [] := fun a =>
    Prog.Follows.weaken (Passage.program_follows (carrying_along gated) a trivial) fun _ _ _ => trivial
  have follow : Machine.AllFollow (protocol p plan before) (fun _ _ => True) q' :=
    Machine.step_allFollow rfl started upheld.follow h fun _ ch op _ _ _ _ => upheld.answers ch op
  rcases Machine.step_cases h with ⟨a, rfl, rfl⟩ | ⟨i, ch, op, k, g, rfl, found, rfl⟩ | ⟨i, b, rfl, found, rfl⟩ |
    ⟨e, rfl, rfl⟩
  · refine ⟨upheld.kept, fun b member x known => ?_, follow, upheld.admitted⟩
    rcases List.mem_append.mp member with old | new
    · exact upheld.tags b old x known
    · rw [List.mem_singleton.mp new] at known
      cases known
  · have grown : q.world.log <+: q.world.log ++ [⟨op, (World.perform o.deployment ch q.world.world op).2⟩] :=
      List.prefix_append _ _
    refine ⟨fun r label blob there => ?_, fun b member x known => ?_, follow, ?_⟩
    · rcases World.checkpoints_from there with old | rfl
      · obtain ⟨sc, read, carried, granted⟩ := upheld.kept r label blob old
        exact ⟨sc, read, carried, fun x member => (granted x member).mono grown⟩
      · obtain ⟨info, work, rfl, rfl, carried⟩ := upheld.follow.allowed found
        obtain ⟨saved, inside⟩ := carried.saved
        refine ⟨_, deserialize_serialize _, ⟨saved.settled, saved.judged, saved.approved⟩, fun x member => ?_⟩
        exact (upheld.tags _ (List.mem_of_getElem? found) x (inside member)).mono grown
    · rcases Machine.mem_set member with rfl | old
      · exact upheld.tag found ch known
      · exact (upheld.tags b old x known).mono grown
    · apply upheld.admitted.append
      rintro info pub rfl
      exact upheld.admits found
  · refine ⟨upheld.kept, fun b' member x known => ?_, follow, upheld.admitted⟩
    rcases Machine.mem_set member with rfl | old
    · exact upheld.tags b (List.mem_of_getElem? found) x known
    · exact upheld.tags b' old x known
  · refine ⟨?_, upheld.tags, follow, upheld.admitted⟩
    cases e <;> exact upheld.kept

end runs

end PlanGate

namespace Sample

/-- A task is handed out. -/
def publishes (e : Event RunSig) : Bool :=
  match e.op with
  | .stage _ (.publishTask _) => true
  | _ => false

end Sample

end Maof
