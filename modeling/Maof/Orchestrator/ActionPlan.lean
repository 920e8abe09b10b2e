import Maof.Policy.Actions
import Maof.Workflows.Writes

/-!
# The `action_plan` stage

The context is built, the policy looks at it, the planner plans, and the policy
looks at the plan. The planner and the context builder are the adopter's.
-/

namespace Maof

open Data (Dict)
open Effects (Act Prog)

namespace PolicyHooks

variable (p : Platform) (hooks : PolicyHooks)

def load (tenantId : String) : StageM LoadedRuleset := do
  if hooks.repo then
    match ← stageCall (.loadRuleset tenantId hooks.rulesetRef) with
    | some loaded => return loaded
    | none => return { rulesetRef := hooks.rulesetRef, version := 0 }
  else
    return { rulesetRef := hooks.rulesetRef, version := 0 }

def decisionEvent (env : ContextEnvelope) (ruleset : LoadedRuleset) (decision : RuleDecision) : AuditEvent where
  tenantId := env.tenantId
  intentId := env.intentId
  eventType := "policy_decision"
  envelope := [("stage", .str env.stage.value), ("ruleset", .str ruleset.rulesetRef)]
  details := [("matched_rules", .strs (decision.trace.map DecisionTrace.ruleId)), ("denied", .bool decision.denied),
    ("require_approval", .bool decision.requireApproval), ("nudges", .strs decision.addedNudges)]

/-- The flags and the tools of a hook, reflected back onto the envelope. -/
def reflect (out : ActionContext) (work : Work) : Work :=
  { work with envelope := work.envelope.map fun env =>
    { env with policyFlags := Dict.update [] out.flags, toolset := out.toolset } }

/-- `_evaluate`, on the envelope of the run. -/
def evaluate (hook : Stage → PolicyHook) (intent : Intent) (plan : Option Plan) : StageM ActionContext := do
  match (← Act.get).envelope with
  | none => Act.throw (S := StageSig) (.external "'NoneType' object has no attribute 'tenant_id'")
  | some env =>
      let ruleset ← load hooks env.tenantId
      let out ← Act.ofExcept (S := StageSig) (judge p hooks ruleset (hook env.stage) env intent plan)
      Act.modify (reflect out)
      if hooks.eventSink && !out.decision.trace.isEmpty then
        stageCall (.emit (decisionEvent env ruleset out.decision))
      return out

def record (decision : RuleDecision) : PolicyRecord where
  denied := decision.denied
  denialReason := decision.denialReason
  requireApproval := decision.requireApproval
  approvalReason := decision.approvalReason
  approvalRoles := decision.approvalRoles
  approvalParties := decision.approvalParties
  nudges := decision.addedNudges

end PolicyHooks

structure ActionPlanStage where
  planner : RunInfo → StageM Plan
  policy : Option PolicyHooks := none
  contextBuilder : Option (RunInfo → StageM ContextEnvelope) := none

namespace ActionPlanStage

variable (p : Platform) (stage : ActionPlanStage) (info : RunInfo)

/-- The envelope of the run, a new one where there is none, at this stage. -/
def opened (work : Work) : ContextEnvelope :=
  let env := work.envelope.getD {
    runId := info.runId, tenantId := info.tenant.tenantId, stage := .actionPlan, goal := info.goal }
  { env with stage := .actionPlan, intentId := work.intentId.or env.intentId }

def build : StageM Unit := do
  match stage.contextBuilder with
  | some build =>
      let env ← build info
      Act.modify fun work => { work with envelope := some env }
  | none => pure ()
  Act.modify fun work => { work with envelope := some (opened info work) }

/-- The hook and the intent, where there are both. -/
def governed (work : Work) : Option (PolicyHooks × Intent) := do
  return (← stage.policy, ← work.intent)

def prePrompt : StageM Unit := do
  match governed stage (← Act.get) with
  | none => return ()
  | some (hooks, intent) =>
      let pre ← hooks.evaluate p .prePrompt intent none
      Act.modify fun work => { work with policyDecisions := work.policyDecisions ++ pre.decision.trace }
      if pre.decision.denied then
        Act.throw (S := StageSig) (.policyDenied pre.decision.denialReason)

def postPlan (plan : Plan) : StageM Unit := do
  match governed stage (← Act.get) with
  | none => return ()
  | some (hooks, intent) =>
      let out ← hooks.evaluate p .postPlan intent (some plan)
      Act.modify fun work => { work with
        plan := some (out.plan.getD plan)
        policyDecisions := work.policyDecisions ++ out.decision.trace
        extras := { work.extras with policy := some (PolicyHooks.record out.decision) } }
      if out.decision.denied then
        Act.throw (S := StageSig) (.policyDenied out.decision.denialReason)

def execute : StageM Unit := do
  build stage info
  prePrompt p stage
  let plan ← stage.planner info
  Act.modify fun work => { work with plan := some plan }
  postPlan p stage plan

end ActionPlanStage

def actionPlanStage (p : Platform) (stage : ActionPlanStage) : PipelineStage where
  name := "action_plan"
  execute := stage.execute p

/-! ## What the stage leaves -/

section laws

variable {p : Platform} {hooks : PolicyHooks} {A : StageOp → Prop}

theorem load_within {I : Work → Prop} {tenantId : String} (loads : ∀ ref, A (.loadRuleset tenantId ref)) :
    (hooks.load tenantId).Within I A := by
  unfold PolicyHooks.load
  split
  · apply Act.within_bind (Act.within_await (S := StageSig) (loads _))
    intro found
    cases found with
    | none => exact Act.within_pure _
    | some loaded => exact Act.within_pure loaded
  · exact Act.within_pure _

/-- A hook that answers has judged the envelope, and its flags and tools are the envelope's. -/
def Evaluated (p : Platform) (hooks : PolicyHooks) (hook : Stage → PolicyHook) (intent : Intent) (plan : Option Plan) (work : Work) :
    Except Exn ActionContext → Work → Prop
  | .ok out, work' => (∃ ruleset env, work.envelope = some env ∧
      hooks.judge p ruleset (hook env.stage) env intent plan = .ok out) ∧ work' = PolicyHooks.reflect out work
  | .error _, work' => work' = work ∨ ∃ out, work' = PolicyHooks.reflect out work

theorem evaluate_spec (loads : ∀ tenantId ref, A (.loadRuleset tenantId ref)) (emits : ∀ event, A (.emit event))
    {hook : Stage → PolicyHook} {intent : Intent} {plan : Option Plan} (work : Work) :
    (hooks.evaluate p hook intent plan).Follows (.plain A)
      (fun r work' _ => Evaluated p hooks hook intent plan work r work') work () := by
  refine Act.follows_get_bind ?_
  cases opened : work.envelope with
  | none => exact Act.follows_throw (.inl rfl)
  | some env =>
      simp only
      have loaded : (hooks.load env.tenantId).Within (fun work' : Work => work' = work) A := load_within (loads _)
      apply Act.follows_bind (loaded work rfl)
      · rintro ruleset work _ rfl
        cases judged : hooks.judge p ruleset (hook env.stage) env intent plan with
        | error e => exact Act.follows_throw (.inl rfl)
        | ok out =>
            refine Act.follows_pure_bind (Act.follows_modify_bind ?_)
            have done : Evaluated p hooks hook intent plan work (.ok out) (PolicyHooks.reflect out work) :=
              ⟨⟨ruleset, env, opened, judged⟩, rfl⟩
            split
            · exact Act.follows_await_bind (S := StageSig) (emits _) (fun _ _ => Act.follows_pure done)
                fun _ _ => .inr ⟨out, rfl⟩
            · exact Act.follows_pure done
      · rintro e _ _ rfl
        exact .inl rfl

/-- The flags are those of the envelope after `post_plan`. -/
def ActionPlanStage.PostPlanned (p : Platform) (stage : ActionPlanStage) (work : Work) (flags : Dict String String) : Prop :=
  ∃ hooks intent, stage.governed work = some (hooks, intent) ∧ ∃ ruleset env plan out,
    hooks.judge p ruleset (.postPlan env.stage) env intent (some plan) = .ok out ∧ flags = Dict.update [] out.flags ∧
      work.envelope.map ContextEnvelope.policyFlags = some flags

namespace ActionPlanStage

variable {stage : ActionPlanStage} {info : RunInfo} {names : Option (List String)}

/-- The adopter's parts make calls that are `A`, and leave the record of the completed stages alone. -/
structure Heeds (stage : ActionPlanStage) (A : StageOp → Prop) : Prop where
  planner : ∀ info names, (stage.planner info).Within (fun work => work.extras.completedStages = names) A
  builder : ∀ build, stage.contextBuilder = some build → ∀ info names,
    (build info).Within (fun work => work.extras.completedStages = names) A

/-- The stage has left the record of the completed stages alone. -/
abbrev Same (names : Option (List String)) (work : Work) : Prop := work.extras.completedStages = names

theorem build_within (heeds : stage.Heeds A) : (stage.build info).Within (Same names) A := by
  have opens : (Act.modify fun work => { work with envelope := some (opened info work) } : StageM Unit).Within (Same names) A :=
    Act.within_modify fun _ same => same
  unfold build
  split
  · next given =>
      apply Act.within_bind (heeds.builder _ given info names)
      intro env
      have placed : (Act.modify fun work => { work with envelope := some env } : StageM Unit).Within (Same names) A :=
        Act.within_modify fun _ same => same
      exact Act.within_bind placed fun _ => opens
  · exact Act.within_bind (Act.within_pure ()) fun _ => opens

theorem reflect_same {out : ActionContext} {work : Work} (same : Same names work) : Same names (PolicyHooks.reflect out work) := same

theorem prePrompt_within (loads : ∀ tenantId ref, A (.loadRuleset tenantId ref)) (emits : ∀ event, A (.emit event)) :
    (stage.prePrompt p).Within (Same names) A := by
  apply Act.within_look
  intro work _
  split
  · exact Act.within_pure ()
  · next hooks intent _ =>
      have judged : (hooks.evaluate p .prePrompt intent none).Within (Same names) A := by
        intro work same
        apply Act.Follows.weaken (evaluate_spec loads emits work)
        intro r work' _ evaluated
        cases r with
        | ok out => exact evaluated.2 ▸ reflect_same same
        | error e =>
            rcases evaluated with rfl | ⟨out, rfl⟩
            · exact same
            · exact reflect_same same
      apply Act.within_bind judged
      intro pre
      have told : (Act.modify fun work => { work with policyDecisions := work.policyDecisions ++ pre.decision.trace } :
          StageM Unit).Within (Same names) A := Act.within_modify fun _ same => same
      apply Act.within_bind told
      intro _
      split
      · exact Act.within_throw _
      · exact Act.within_pure ()

/-- What the stage leaves: where it answers and there is somebody to govern, the flags of `post_plan`. -/
def Leaves (p : Platform) (stage : ActionPlanStage) (names : Option (List String)) (r : Except Exn Unit) (work : Work) : Prop :=
  Same names work ∧ (r = .ok () → (stage.governed work).isSome = true → ∃ flags, stage.PostPlanned p work flags)

theorem leaves_error {e : Exn} {work : Work} (same : Same names work) : stage.Leaves p names (.error e) work :=
  ⟨same, fun answered => by cases answered⟩

theorem postPlan_leaves (loads : ∀ tenantId ref, A (.loadRuleset tenantId ref)) (emits : ∀ event, A (.emit event)) {plan : Plan}
    {work : Work} (same : Same names work) :
    (stage.postPlan p plan).Follows (.plain A) (fun r work' _ => stage.Leaves p names r work') work () := by
  apply Act.follows_get_bind
  cases governs : stage.governed work with
  | none =>
      refine Act.follows_pure ⟨same, fun _ governed => ?_⟩
      rw [governs] at governed
      cases governed
  | some both =>
      obtain ⟨hooks, intent⟩ := both
      simp only
      apply Act.follows_bind (evaluate_spec loads emits work)
      · rintro out _ _ ⟨⟨ruleset, env, opened, judged⟩, rfl⟩
        apply Act.follows_modify_bind
        split
        · exact Act.follows_throw (leaves_error same)
        · refine Act.follows_pure ⟨same, fun _ _ => ⟨_, hooks, intent, governs, ruleset, env, plan, out, judged, rfl, ?_⟩⟩
          simp only [PolicyHooks.reflect, opened, Option.map_some]
      · intro e work' _ evaluated
        rcases evaluated with rfl | ⟨out, rfl⟩
        · exact leaves_error same
        · exact leaves_error (reflect_same same)

theorem execute_leaves (heeds : stage.Heeds A) (loads : ∀ tenantId ref, A (.loadRuleset tenantId ref))
    (emits : ∀ event, A (.emit event)) {work : Work} (same : Same names work) :
    (stage.execute p info).Follows (.plain A) (fun r work' _ => stage.Leaves p names r work') work () := by
  have fails : ∀ (e : Exn) (work' : Work) (_ : Unit), Same names work' → stage.Leaves p names (.error e) work' :=
    fun _ _ _ => leaves_error
  apply Act.follows_bind (build_within heeds work same)
  · intro _ work₁ _ same
    apply Act.follows_bind (prePrompt_within loads emits work₁ same)
    · intro _ work₂ _ same
      apply Act.follows_bind (heeds.planner info names work₂ same)
      · intro plan work₃ _ same
        exact Act.follows_modify_bind (postPlan_leaves loads emits same)
      · exact fails
    · exact fails
  · exact fails

end ActionPlanStage

end laws

end Maof
