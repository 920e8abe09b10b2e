import Maof.Data.Rulebook
import Maof.Policy.Strictness

/-!
# Callable rules beside the ruleset's

A hook before the work goes through the ruleset's rules and then through the callable ones;
the hook over a result knows the ruleset's only. What a rule's being callable changes.
-/

namespace Maof

open Data (Dict Rulebook)

/-- What a rule makes of what the rules before it left, and nothing where its condition does not hold. -/
def HookRule.fire (p : Platform) (ruleset : LoadedRuleset) (stage : String) (see : ActionContext → EvalContext) (rule : HookRule)
    (ctx : ActionContext) : Except Exn (Option ActionContext) := do
  if ← rule.applies (see ctx) then
    let ctx ← PolicyAction.applyAll p rule.actions ctx
    return some { ctx with decision := { ctx.decision with trace := ctx.decision.trace ++ [{
      ruleId := rule.ruleId
      rulesetRef := ruleset.rulesetRef
      version := ruleset.version
      stage
      actions := rule.actions.map PolicyAction.typeOf }] } }
  else
    return none

section trace

variable {p : Platform}

/-- No action touches the trace. -/
theorem apply_trace {action : Dict String Json} {ctx ctx' : ActionContext} (done : PolicyAction.apply p action ctx = .ok ctx') :
    ctx'.decision.trace = ctx.decision.trace := by
  unfold PolicyAction.apply at done
  split at done
  · obtain ⟨_, _, done⟩ := ok_of_bind done
    obtain ⟨_, _, done⟩ := ok_of_bind done
    obtain ⟨_, _, done⟩ := ok_of_bind done
    cases done
    rfl
  · obtain ⟨_, _, done⟩ := ok_of_bind done
    obtain ⟨_, _, done⟩ := ok_of_bind done
    split at done <;> cases done <;> rfl
  · rw [requireApproval_eq] at done
    obtain ⟨_, _, done⟩ := ok_of_bind done
    obtain ⟨_, _, done⟩ := ok_of_bind done
    obtain ⟨_, _, done⟩ := ok_of_bind done
    cases done
    rfl
  · obtain ⟨_, _, done⟩ := ok_of_bind done
    cases done
    rfl
  · obtain ⟨_, _, done⟩ := ok_of_bind done
    cases done
    rfl
  · split at done
    · cases done
      rfl
    · obtain ⟨_, _, done⟩ := ok_of_bind done
      cases done
      rfl
  · rw [clamp_decision done]
  · rw [clamp_decision done]
  · cases done

theorem applyAll_trace {actions : List (Dict String Json)} {ctx ctx' : ActionContext}
    (done : PolicyAction.applyAll p actions ctx = .ok ctx') : ctx'.decision.trace = ctx.decision.trace := by
  induction actions generalizing ctx with
  | nil =>
      cases done
      rfl
  | cons action actions ih =>
      obtain ⟨between, first, rest⟩ := ok_of_bind done
      rw [ih rest, apply_trace first]

end trace

/-- The rules of a hook, with the trace as their journal. -/
def HookRule.book (p : Platform) (ruleset : LoadedRuleset) (stage : String) (see : ActionContext → EvalContext) :
    Rulebook HookRule ActionContext String Exn where
  step := HookRule.fire p ruleset stage see
  name := HookRule.ruleId
  log ctx := ctx.decision.trace.map DecisionTrace.ruleId
  logged := by
    intro rule ctx ctx' fired
    obtain ⟨applies, asked, fired⟩ := ok_of_bind fired
    cases applies with
    | false => cases fired
    | true =>
        obtain ⟨between, carried, fired⟩ := ok_of_bind fired
        cases fired
        simp [applyAll_trace carried]

namespace PolicyHooks

/-- What a rule's condition looks at before the work. -/
def seen (intent : Intent) (semantic : Dict String Json) (ctx : ActionContext) : EvalContext where
  flags := ctx.flags
  intent := some intent
  plan := ctx.plan
  semantic := semantic
  toolset := ctx.toolset

section runs

variable {p : Platform} {ruleset : LoadedRuleset} {stage : String} {intent : Intent} {semantic : Dict String Json}

theorem visit_eq_fire (rule : HookRule) (ctx : ActionContext) : visit p ruleset stage intent semantic rule ctx =
    (rule.fire p ruleset stage (seen intent semantic) ctx).map (·.getD ctx) := by
  unfold visit HookRule.fire
  change (rule.applies (seen intent semantic ctx) >>= _) = (rule.applies (seen intent semantic ctx) >>= _).map _
  cases rule.applies (seen intent semantic ctx) with
  | error e => rfl
  | ok applies =>
      cases applies with
      | false => rfl
      | true =>
          change (PolicyAction.applyAll p rule.actions ctx >>= _) = (PolicyAction.applyAll p rule.actions ctx >>= _).map _
          cases PolicyAction.applyAll p rule.actions ctx with
          | error e => rfl
          | ok ctx' => rfl

theorem visitAll_eq_run (rules : List HookRule) (ctx : ActionContext) : visitAll p ruleset stage intent semantic rules ctx =
    (HookRule.book p ruleset stage (seen intent semantic)).run rules ctx := by
  induction rules generalizing ctx with
  | nil => rfl
  | cons rule rules ih =>
      have steps : (HookRule.book p ruleset stage (seen intent semantic)).step rule ctx =
          rule.fire p ruleset stage (seen intent semantic) ctx := rfl
      rw [visitAll, visit_eq_fire, Rulebook.run, steps]
      cases rule.fire p ruleset stage (seen intent semantic) ctx with
      | error e => rfl
      | ok next =>
          cases next with
          | none => exact ih ctx
          | some ctx' => exact ih ctx'

end runs

/-- What a rule's condition looks at over a result. -/
def resultSeen (task : Task) (result : TaskResult) (ctx : ActionContext) : EvalContext where
  flags := ctx.flags
  semantic := [("result", .obj result.output), ("task", .obj task.dump), ("status", .str result.status)]

end PolicyHooks

/-- A rule of the ruleset, as a hook goes through it. -/
def Rule.hooked (p : Platform) (rule : Rule) : HookRule where
  ruleId := rule.ruleId
  applies ctx := Condition.evaluate p ctx (.obj rule.when_)
  actions := rule.actions

/-- What `post_result` makes of a result. It goes through the ruleset's rules only. -/
def PolicyHooks.judgeResult (p : Platform) (ruleset : LoadedRuleset) (task : Task) (result : TaskResult) :
    Except Exn ActionContext :=
  (HookRule.book p ruleset "post_result" (resultSeen task result)).run ((ruleset.hookRules .postResult).map (Rule.hooked p))
    { flags := [] }

/-! ## A rule made callable -/

/-- `CallableRule(rule_id, lambda ctx: evaluate(rule.when, ctx), actions, stage, priority)`. -/
def Rule.callable (p : Platform) (rule : Rule) : CallableRule where
  ruleId := rule.ruleId
  when_ ctx := Condition.evaluate p ctx (.obj rule.when_)
  actions := rule.actions
  stage := rule.stage
  priority := rule.priority

/-- The rule, where a hook goes through it among the ruleset's. -/
def Rule.active (p : Platform) (hook : PolicyHook) (rule : Rule) : List HookRule :=
  if rule.enabled && stageMatch rule.stage hook.stage then [rule.hooked p] else []

/-- The rule, where a hook comes to it among the callables. -/
def Rule.called (p : Platform) (hook : PolicyHook) (rule : Rule) : HookRule where
  ruleId := rule.ruleId
  applies ctx := if stageMatch rule.stage hook.stage then Condition.evaluate p ctx (.obj rule.when_) else .ok false
  actions := rule.actions

/-- A rule leaves the ruleset and stands among the callables. -/
inductive Replaces (p : Platform) (rule : Rule) (hooks : PolicyHooks) (ruleset : LoadedRuleset) :
    PolicyHooks → LoadedRuleset → Prop
  | moved {a b : List Rule} {c d : List CallableRule} (rules : ruleset.rules = a ++ rule :: b)
      (callables : hooks.callableRules = c ++ d) : Replaces p rule hooks ruleset { hooks with callableRules := c ++ rule.callable p :: d } { ruleset with rules := a ++ b }

section replaced

variable {p : Platform} {hook : PolicyHook} {rule : Rule} {hooks hooks' : PolicyHooks} {ruleset ruleset' : LoadedRuleset}

/-- Under the hook's stage, it is the same rule at either place. -/
theorem Rule.called_eq_hooked (stage : stageMatch rule.stage hook.stage = true) : rule.called p hook = rule.hooked p := by
  unfold Rule.called Rule.hooked
  simp [stage]

/-- The hook's rules without the rule, but for where it stood. -/
theorem Replaces.hookRules (replaces : Replaces p rule hooks ruleset hooks' ruleset') (hook : PolicyHook) : ∃ before after,
    (ruleset.hookRules hook).map (Rule.hooked p) = before ++ (rule.active p hook ++ after) ∧
      (ruleset'.hookRules hook).map (Rule.hooked p) = before ++ after := by
  cases replaces with
  | @moved a b c d rules callables =>
  unfold Rule.active
  cases passes : rule.enabled && stageMatch rule.stage hook.stage with
  | false => exact ⟨[], _, by simp [LoadedRuleset.hookRules, rules, passes], rfl⟩
  | true =>
      obtain ⟨before, after, without, within⟩ := LoadedRuleset.hookRules_insert
        { ruleset with rules := a ++ b } ruleset rfl rules passes
      refine ⟨before.map (Rule.hooked p), after.map (Rule.hooked p), ?_, ?_⟩
      · rw [within]
        simp
      · rw [without, List.map_append]

/-- What the hook goes through: the rule is moved behind those between its old place and its new one. -/
theorem Replaces.rules (replaces : Replaces p rule hooks ruleset hooks' ruleset') (hook : PolicyHook) :
    ∃ before between rest, hooks.rules p ruleset hook = before ++ (rule.active p hook ++ (between ++ rest)) ∧
      hooks'.rules p ruleset' hook = before ++ (between ++ rule.called p hook :: rest) := by
  obtain ⟨before, after, old, new⟩ := replaces.hookRules hook
  cases replaces with
  | @moved a b c d rules callables =>
  obtain ⟨first, rest, inside, outside⟩ := insertionSort_split CallableRule.priority c d (rule.callable p)
  unfold Rule.hooked at old new
  unfold PolicyHooks.rules
  simp only
  have here (called others : List HookRule) : before ++ (rule.active p hook ++ after) ++ (called ++ others) =
      before ++ (rule.active p hook ++ (after ++ called ++ others)) := by
    simp only [List.append_assoc]
  have there (called others : List HookRule) : before ++ after ++ (called ++ others) = before ++ (after ++ called ++ others) := by
    simp only [List.append_assoc]
  rw [old, new, callables, inside, outside, List.map_append, List.map_append, List.map_cons, here, there]
  exact ⟨before, _, _, rfl, rfl⟩

end replaced

/-- The rule's place does not tell: behind the others between its old place and its new one it does
what it did before them. Off, it did nothing, and does nothing where it stands now. -/
def Rule.FreeToMove (p : Platform) (hook : PolicyHook) (rule : Rule) (book : Rulebook HookRule ActionContext String Exn)
    (before between : List HookRule) (ctx : ActionContext) : Prop :=
  ∀ s, book.run before ctx = .ok s →
    if rule.enabled && stageMatch rule.stage hook.stage then book.Passes (rule.called p hook) between s
    else book.Unheard (rule.called p hook) between s

/-- The rule is not one that the hook goes through, or it is quiet there. -/
def Rule.Dispensable (p : Platform) (hook : PolicyHook) (rule : Rule) (book : Rulebook HookRule ActionContext String Exn)
    (before : List HookRule) (ctx : ActionContext) : Prop :=
  rule.active p hook = [] ∨ book.Unheard (rule.hooked p) before ctx

section moves

variable {p : Platform} {hook : PolicyHook} {rule : Rule} {book : Rulebook HookRule ActionContext String Exn}
  {before between rest : List HookRule} {ctx out out' : ActionContext}

theorem Rule.FreeToMove.run_eq (free : rule.FreeToMove p hook book before between ctx) :
    book.run (before ++ (rule.active p hook ++ (between ++ rest))) ctx =
      book.run (before ++ (between ++ rule.called p hook :: rest)) ctx := by
  cases first : book.run before ctx with
  | error e => rw [Rulebook.run_append_error first, Rulebook.run_append_error first]
  | ok s =>
      rw [Rulebook.run_append_ok first, Rulebook.run_append_ok first]
      have here := free s first
      unfold Rule.active
      split at here
      next active =>
        have stage := (Bool.and_eq_true _ _ ▸ active : _ ∧ _).2
        rw [if_pos active, ← Rule.called_eq_hooked stage]
        exact Rulebook.run_passes _ between rest here
      next idle =>
        rw [if_neg idle]
        exact (Rulebook.run_unheard _ between rest here).symm

/-- Rules with ids of their own tell from the trace. -/
theorem Rule.freeToMove_of_run (apart : ((before ++ (between ++ rule.called p hook :: rest)).map HookRule.ruleId).Nodup)
    (old : book.run (before ++ (rule.active p hook ++ (between ++ rest))) ctx = .ok out)
    (new : book.run (before ++ (between ++ rule.called p hook :: rest)) ctx = .ok out')
    (named : book.name = HookRule.ruleId) (alike : book.log out = book.log out') :
    rule.FreeToMove p hook book before between ctx := by
  intro s first
  rw [Rulebook.run_append_ok first] at old new
  rw [List.map_append] at apart
  have here := (List.nodup_append'.mp apart).2.1
  have fronted : ((rule.called p hook :: (between ++ rest)).map book.name).Nodup := by
    rw [named]
    exact (List.perm_middle.map HookRule.ruleId).nodup_iff.mp here
  unfold Rule.active at old
  split
  next active =>
    have stage := (Bool.and_eq_true _ _ ▸ active : _ ∧ _).2
    rw [if_pos active, ← Rule.called_eq_hooked stage] at old
    exact Rulebook.passes_of_run fronted old new alike
  next idle =>
    rw [if_neg idle] at old
    rw [List.map_cons, List.nodup_cons, List.map_append, List.mem_append, not_or] at fronted
    exact Rulebook.unheard_of_run fronted.1.2 new old alike.symm

theorem Rule.Dispensable.run_eq (free : rule.Dispensable p hook book before ctx) :
    book.run (before ++ (rule.active p hook ++ rest)) ctx = book.run (before ++ rest) ctx := by
  obtain none | quiet := free
  · rw [none, List.nil_append]
  · unfold Rule.active
    split
    · exact Rulebook.run_unheard _ before rest quiet
    · rfl

theorem Rule.dispensable_of_run (apart : ((before ++ (rule.active p hook ++ rest)).map HookRule.ruleId).Nodup)
    (old : book.run (before ++ (rule.active p hook ++ rest)) ctx = .ok out) (new : book.run (before ++ rest) ctx = .ok out')
    (named : book.name = HookRule.ruleId) (alike : book.log out = book.log out') :
    rule.Dispensable p hook book before ctx := by
  unfold Rule.Dispensable
  unfold Rule.active at *
  split
  next active =>
    rw [if_pos active] at old apart
    rw [List.map_append] at apart
    have here := (List.nodup_append'.mp apart).2.1
    rw [List.singleton_append, List.map_cons, List.nodup_cons] at here
    exact .inr (Rulebook.unheard_of_run (by rw [named]; exact here.1) old new alike)
  next => exact .inl rfl

end moves

/-- The context a hook starts from. -/
def PolicyHooks.start (env : ContextEnvelope) (plan : Option Plan) : ActionContext where
  flags := Dict.update [] env.policyFlags
  plan
  toolset := env.toolset

theorem both_return {x y : Except Exn ActionContext} (one : (∃ out, x = .ok out) ∨ ∃ out, y = .ok out)
    (same : x.map ActionContext.decision = y.map ActionContext.decision) :
    ∃ out out', x = .ok out ∧ y = .ok out' ∧ out.decision = out'.decision := by
  cases x with
  | ok out =>
      cases y with
      | ok out' => exact ⟨out, out', rfl, rfl, by injection same⟩
      | error e => cases same
  | error e =>
      cases y with
      | ok out' => cases same
      | error e' =>
          obtain ⟨out, returned⟩ | ⟨out, returned⟩ := one
          · cases returned
          · cases returned

section laws

variable {p : Platform} {rule : Rule} {hooks hooks' : PolicyHooks} {ruleset ruleset' : LoadedRuleset}

/-- The journal of a hook is the same, whatever rules the ruleset has. -/
theorem Replaces.book (replaces : Replaces p rule hooks ruleset hooks' ruleset') (stage : String)
    (see : ActionContext → EvalContext) : HookRule.book p ruleset' stage see = HookRule.book p ruleset stage see := by
  cases replaces
  rfl

/-- A rule may be made callable exactly where its place does not tell, and over a result where it is not heard. -/
theorem callable_changes_iff (replaces : Replaces p rule hooks ruleset hooks' ruleset') :
    (∀ hook env intent plan, hook ≠ .postResult → ∃ before between rest,
      hooks.rules p ruleset hook = before ++ (rule.active p hook ++ (between ++ rest)) ∧
      hooks'.rules p ruleset' hook = before ++ (between ++ rule.called p hook :: rest) ∧
      let free := rule.FreeToMove p hook (HookRule.book p ruleset hook.stage (PolicyHooks.seen intent env.semanticModel)) before
        between (PolicyHooks.start env plan)
      let old := hooks.judge p ruleset hook env intent plan
      let new := hooks'.judge p ruleset' hook env intent plan
      (free → new = old) ∧
        (((hooks'.rules p ruleset' hook).map HookRule.ruleId).Nodup → (∃ out, old = .ok out) ∨ (∃ out, new = .ok out) →
          (old.map ActionContext.decision = new.map ActionContext.decision ↔ free))) ∧
    ∀ task result, ∃ before rest,
      (ruleset.hookRules .postResult).map (Rule.hooked p) = before ++ (rule.active p .postResult ++ rest) ∧
      (ruleset'.hookRules .postResult).map (Rule.hooked p) = before ++ rest ∧
      let free := rule.Dispensable p .postResult
        (HookRule.book p ruleset "post_result" (PolicyHooks.resultSeen task result)) before { flags := [] }
      let old := PolicyHooks.judgeResult p ruleset task result
      let new := PolicyHooks.judgeResult p ruleset' task result
      (free → new = old) ∧
        ((((ruleset.hookRules .postResult).map (Rule.hooked p)).map HookRule.ruleId).Nodup →
          (∃ out, old = .ok out) ∨ (∃ out, new = .ok out) →
          (old.map ActionContext.decision = new.map ActionContext.decision ↔ free)) := by
  constructor
  · intro hook env intent plan _
    obtain ⟨before, between, rest, there, here⟩ := replaces.rules hook
    refine ⟨before, between, rest, there, here, ?_⟩
    intro free old new
    have judged : old = _ := PolicyHooks.visitAll_eq_run (hooks.rules p ruleset hook) (PolicyHooks.start env plan)
    have judged' : new = _ := PolicyHooks.visitAll_eq_run (hooks'.rules p ruleset' hook) (PolicyHooks.start env plan)
    rw [there] at judged
    rw [replaces.book, here] at judged'
    have moved : free → new = old := fun freely => by rw [judged, judged', freely.run_eq]
    refine ⟨moved, fun apart returns => ⟨fun same => ?_, fun freely => by rw [moved freely]⟩⟩
    obtain ⟨out, out', went, went', alike⟩ := both_return returns same
    rw [here] at apart
    refine Rule.freeToMove_of_run apart (judged.symm.trans went) (judged'.symm.trans went') rfl ?_
    exact congrArg (fun decision : RuleDecision => decision.trace.map DecisionTrace.ruleId) alike
  · intro task result
    obtain ⟨before, rest, there, here⟩ := replaces.hookRules .postResult
    refine ⟨before, rest, there, here, ?_⟩
    intro free old new
    have judged : old = (HookRule.book p ruleset "post_result" (PolicyHooks.resultSeen task result)).run
        (before ++ (rule.active p .postResult ++ rest)) { flags := [] } := by
      rw [← there]
      rfl
    have judged' : new = (HookRule.book p ruleset "post_result" (PolicyHooks.resultSeen task result)).run
        (before ++ rest) { flags := [] } := by
      rw [← here, ← replaces.book]
      rfl
    have missed : free → new = old := fun freely => by rw [judged, judged', freely.run_eq]
    refine ⟨missed, fun apart returns => ⟨fun same => ?_, fun freely => by rw [missed freely]⟩⟩
    obtain ⟨out, out', went, went', alike⟩ := both_return returns same
    rw [there] at apart
    refine Rule.dispensable_of_run apart (judged.symm.trans went) (judged'.symm.trans went') rfl ?_
    exact congrArg (fun decision : RuleDecision => decision.trace.map DecisionTrace.ruleId) alike

end laws

namespace Sample

/-- Denies whatever it sees, over a result too. -/
def refusing : Rule where
  ruleId := "refuse"
  rulesetRef := "default"
  version := 1
  actions := [[("type", .str "deny_plan"), ("reason", .str "blocked")]]

def refusal : LoadedRuleset where
  rulesetRef := "default"
  version := 1
  rules := [refusing]

/-- Sets the tier that a later rule looks at. -/
def tiering : Rule where
  ruleId := "tier"
  rulesetRef := "default"
  version := 1
  priority := 10
  stage := "action_plan"
  actions := [[("type", .str "set_flag"), ("key", .str "tier"), ("value", .str "gold")]]

def nudging : Rule where
  ruleId := "nudge"
  rulesetRef := "default"
  version := 1
  priority := 20
  when_ := [("op", .str "flag_eq"), ("key", .str "tier"), ("value", .str "gold")]
  actions := [[("type", .str "add_nudge"), ("text", .str "be generous")]]

def tiers : LoadedRuleset where
  rulesetRef := "default"
  version := 1
  rules := [tiering, nudging]

def work : Task where
  taskId := "t-1"
  taskType := "refund"
  description := "refund an order"
  idempotencyKey := "k-1"

def done : TaskResult where
  status := "ok"
  taskId := "t-1"

theorem refusing_replaced : Replaces digesting refusing {} refusal { callableRules := [refusing.callable digesting] }
    { refusal with rules := [] } :=
  @Replaces.moved _ _ _ _ [] [] [] [] rfl rfl

theorem tiering_replaced : Replaces digesting tiering {} tiers { callableRules := [tiering.callable digesting] }
    { tiers with rules := [nudging] } :=
  @Replaces.moved _ _ _ _ [] [nudging] [] [] rfl rfl

end Sample

open Sample in
/-- A rule for plans is not heard over a result. -/
theorem callable_changes_tier : PolicyHooks.judgeResult digesting { tiers with rules := [nudging] } work done =
    PolicyHooks.judgeResult digesting tiers work done := by
  obtain ⟨before, rest, -, -, missed, -⟩ := (callable_changes_iff tiering_replaced).2 work done
  exact missed (.inl rfl)

open Sample in
/-- A callable rule comes after those that looked at what it sets, and a result is let through that it denied. -/
theorem callable_unheard :
    (¬ ∀ (p : Platform) (rule : Rule) (hooks hooks' : PolicyHooks) (ruleset ruleset' : LoadedRuleset),
      Replaces p rule hooks ruleset hooks' ruleset' → ∀ hook env intent plan, hook ≠ .postResult →
      (hooks.judge p ruleset hook env intent plan).map ActionContext.decision =
        (hooks'.judge p ruleset' hook env intent plan).map ActionContext.decision) ∧
    ¬ ∀ (p : Platform) (rule : Rule) (hooks hooks' : PolicyHooks) (ruleset ruleset' : LoadedRuleset),
      Replaces p rule hooks ruleset hooks' ruleset' → ∀ task result,
      (PolicyHooks.judgeResult p ruleset task result).map ActionContext.decision =
        (PolicyHooks.judgeResult p ruleset' task result).map ActionContext.decision := by
  constructor
  · intro equivalent
    have same := equivalent digesting tiering _ _ _ _ tiering_replaced (.postPlan .actionPlan) planned refund none (by intro same; cases same)
    injection same with same
    exact absurd (congrArg RuleDecision.addedNudges same) (by decide +kernel)
  · intro equivalent
    have same := equivalent digesting refusing _ _ _ _ refusing_replaced work done
    injection same with same
    exact absurd (congrArg RuleDecision.denied same) (by decide +kernel)

end Maof
