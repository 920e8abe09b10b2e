import Maof.Approval.Roles
import Maof.Policy.Evaluation

/-!
# Adding a rule

What a rule that asks for approval, or denies, adds to a decision: denial and
approval stay, roles and parties are replaced.
-/

namespace Maof

open Data (Dict)
open ApprovalWorld (votesOn)

/-! ## A rule among the others -/

section order

variable {α : Type} (key : α → Int)

/-- In a sorted list one more element leaves the others where they are. -/
theorem orderedInsert_split (x r : α) {before after : List α}
    (sorted : (before ++ r :: after).Pairwise fun a b => key a ≤ key b) : ∃ before' after',
      (before ++ r :: after).orderedInsert (fun a b => key a ≤ key b) x = before' ++ r :: after' ∧
      (before ++ after).orderedInsert (fun a b => key a ≤ key b) x = before' ++ after' := by
  induction before with
  | nil =>
      rw [List.nil_append] at sorted
      have above := (List.pairwise_cons.mp sorted).1
      by_cases first : key x ≤ key r
      · refine ⟨[x], after, ?_, ?_⟩
        · simp [first]
        · cases after with
          | nil => rfl
          | cons y after =>
              have below : key x ≤ key y := le_trans first (above y List.mem_cons_self)
              simp [below]
      · exact ⟨[], after.orderedInsert _ x, by simp [first], rfl⟩
  | cons y before ih =>
      rw [List.cons_append] at sorted
      by_cases first : key x ≤ key y
      · exact ⟨x :: y :: before, after, by simp [first], by simp [first]⟩
      · obtain ⟨before', after', new, old⟩ := ih (List.pairwise_cons.mp sorted).2
        refine ⟨y :: before', after', ?_, ?_⟩
        · simp [first, new]
        · simp [first, old]

theorem insertionSort_split (a b : List α) (r : α) : ∃ before after,
    (a ++ r :: b).insertionSort (fun x y => key x ≤ key y) = before ++ r :: after ∧
      (a ++ b).insertionSort (fun x y => key x ≤ key y) = before ++ after := by
  induction a with
  | nil =>
      refine ⟨_, _, List.orderedInsert_eq_take_drop _ r _, ?_⟩
      exact List.takeWhile_append_dropWhile.symm
  | cons x a ih =>
      obtain ⟨before, after, new, old⟩ := ih
      have sorted : (before ++ r :: after).Pairwise fun a b => key a ≤ key b := by
        rw [← new]
        have total : Std.Total fun a b : α => key a ≤ key b := ⟨fun a b => le_total (key a) (key b)⟩
        have transitive : IsTrans α fun a b : α => key a ≤ key b := ⟨fun a b c => le_trans (a := key a)⟩
        exact List.pairwise_insertionSort (fun a b : α => key a ≤ key b) _
      rw [List.cons_append, List.cons_append, List.insertionSort_cons, List.insertionSort_cons, new, old]
      exact orderedInsert_split key x r sorted

end order

/-- One more rule that the hook goes through: of the ruleset, or a callable one. -/
inductive Adds (p : Platform) (hook : PolicyHook) (hooks : PolicyHooks) (ruleset : LoadedRuleset) :
    PolicyHooks → LoadedRuleset → HookRule → Prop
  | dsl {a b : List Rule} {rule : Rule} (rules : ruleset.rules = a ++ b) (enabled : rule.enabled = true)
      (stage : stageMatch rule.stage hook.stage = true) :
      Adds p hook hooks ruleset hooks { ruleset with rules := a ++ rule :: b } {
        ruleId := rule.ruleId
        applies := fun ctx => Condition.evaluate p ctx (.obj rule.when_)
        actions := rule.actions }
  | callable {a b : List CallableRule} {rule : CallableRule} (rules : hooks.callableRules = a ++ b)
      (stage : stageMatch rule.stage hook.stage = true) :
      Adds p hook hooks ruleset { hooks with callableRules := a ++ rule :: b } ruleset {
        ruleId := rule.ruleId
        applies := fun ctx => if stageMatch rule.stage hook.stage then rule.when_ ctx else .ok false
        actions := rule.actions }

/-- A rule put between others stands between what the hook goes through of them. -/
theorem LoadedRuleset.hookRules_insert {hook : PolicyHook} (old new : LoadedRuleset) {a b : List Rule} {rule : Rule}
    (without : old.rules = a ++ b) (within : new.rules = a ++ rule :: b)
    (passes : (rule.enabled && stageMatch rule.stage hook.stage) = true) :
    ∃ before after, old.hookRules hook = before ++ after ∧ new.hookRules hook = before ++ rule :: after := by
  obtain ⟨before, after, inside, outside⟩ := insertionSort_split Rule.priority
    (a.filter fun rule => rule.enabled && stageMatch rule.stage hook.stage)
    (b.filter fun rule => rule.enabled && stageMatch rule.stage hook.stage) rule
  have kept : (rule :: b).filter (fun rule => rule.enabled && stageMatch rule.stage hook.stage) =
      rule :: b.filter fun rule => rule.enabled && stageMatch rule.stage hook.stage := List.filter_cons_of_pos passes
  unfold LoadedRuleset.hookRules
  rw [without, within, List.filter_append, List.filter_append, kept, inside, outside]
  exact ⟨before, after, rfl, rfl⟩

theorem Adds.rules {p : Platform} {hook : PolicyHook} {hooks hooks' : PolicyHooks} {ruleset ruleset' : LoadedRuleset}
    {rule : HookRule} (adds : Adds p hook hooks ruleset hooks' ruleset' rule) : ∃ before after,
      hooks.rules p ruleset hook = before ++ after ∧ hooks'.rules p ruleset' hook = before ++ rule :: after := by
  cases adds with
  | @dsl a b rule rules enabled stage =>
      have passes : (rule.enabled && stageMatch rule.stage hook.stage) = true := by
        rw [enabled, stage]
        rfl
      obtain ⟨before, after, old, new⟩ := LoadedRuleset.hookRules_insert ruleset
        { ruleset with rules := a ++ rule :: b } rules rfl passes
      unfold PolicyHooks.rules
      rw [old, new, List.map_append, List.map_append, List.map_cons, List.append_assoc, List.append_assoc, List.cons_append]
      exact ⟨_, _, rfl, rfl⟩
  | @callable a b rule rules stage =>
      obtain ⟨before, after, new, old⟩ := insertionSort_split CallableRule.priority a b rule
      unfold PolicyHooks.rules
      simp only
      rw [rules, new, old, List.map_append, List.map_append, List.map_cons, ← List.append_assoc, ← List.append_assoc]
      exact ⟨_, _, rfl, rfl⟩

/-! ## What actions make of a decision -/

/-- The context but for its decision: all that a condition, or another action, can see. -/
def ActionContext.blank (ctx : ActionContext) : ActionContext := { ctx with decision := {} }

/-- The roles an action sets. -/
def rolesSet (action : Dict String Json) : Option (List String) :=
  if PolicyAction.typeOf action = "require_approval" then
    ((Dict.get action "roles").filter Json.truthy).bind fun roles => (PolicyAction.texts roles).toOption
  else none

/-- The number of parties an action sets. -/
def partiesSet (p : Platform) (action : Dict String Json) : Option Int :=
  if PolicyAction.typeOf action = "require_approval" then
    ((Dict.get action "parties").filter Json.truthy).bind fun parties => (PolicyAction.int p parties).toOption
  else none

/-- The last setting of a list of actions. -/
def lastSet {α : Type} (set : Dict String Json → Option α) (actions : List (Dict String Json)) : Option α :=
  actions.reverse.findSome? set

theorem lastSet_append {α : Type} (set : Dict String Json → Option α) (actions actions' : List (Dict String Json)) :
    lastSet set (actions ++ actions') = (lastSet set actions').or (lastSet set actions) := by
  rw [lastSet, List.reverse_append, List.findSome?_append]
  rfl

def setsType (kind : String) (actions : List (Dict String Json)) : Bool :=
  actions.any fun action => PolicyAction.typeOf action = kind

/-- What carrying out these actions makes of denial and approval. -/
structure Carried (p : Platform) (actions : List (Dict String Json)) (d d' : RuleDecision) : Prop where
  denied : d'.denied = (d.denied || setsType "deny_plan" actions)
  required : d'.requireApproval = (d.requireApproval || setsType "require_approval" actions)
  roles : d'.approvalRoles = (lastSet rolesSet actions).getD d.approvalRoles
  parties : d'.approvalParties = (lastSet (partiesSet p) actions).getD d.approvalParties

section carried

variable {p : Platform}

theorem getD_or {α : Type} (x y : Option α) (d : α) : (x.or y).getD d = x.getD (y.getD d) := by
  cases x <;> rfl

theorem Carried.nothing (d : RuleDecision) : Carried p [] d d where
  denied := by simp [setsType]
  required := by simp [setsType]
  roles := rfl
  parties := rfl

theorem Carried.append {actions actions' : List (Dict String Json)} {d d' d'' : RuleDecision}
    (first : Carried p actions d d') (then_ : Carried p actions' d' d'') : Carried p (actions ++ actions') d d'' where
  denied := by rw [then_.denied, first.denied, setsType, setsType, setsType, List.any_append, Bool.or_assoc]
  required := by rw [then_.required, first.required, setsType, setsType, setsType, List.any_append, Bool.or_assoc]
  roles := by rw [then_.roles, first.roles, lastSet_append, getD_or]
  parties := by rw [then_.parties, first.parties, lastSet_append, getD_or]

/-- An action of another type leaves denial and approval. -/
theorem Carried.other {action : Dict String Json} {d d' : RuleDecision} (denies : PolicyAction.typeOf action ≠ "deny_plan")
    (requires : PolicyAction.typeOf action ≠ "require_approval") (denied : d'.denied = d.denied)
    (required : d'.requireApproval = d.requireApproval) (roles : d'.approvalRoles = d.approvalRoles)
    (parties : d'.approvalParties = d.approvalParties) : Carried p [action] d d' where
  denied := by simp [setsType, denies, denied]
  required := by simp [setsType, requires, required]
  roles := by simp [lastSet, rolesSet, requires, roles]
  parties := by simp [lastSet, partiesSet, requires, parties]

/-- A setting of an action: its own where it has a truthy one, and otherwise what is there. -/
def setting {α : Type} (read : Json → Except Exn α) (own : Option Json) (there : α) : Except Exn α :=
  match own with
  | some value => read value
  | none => .ok there

theorem setting_ok {α : Type} {read : Json → Except Exn α} {own : Option Json} {there a : α}
    (set : setting read own there = .ok a) : a = (own.bind fun value => (read value).toOption).getD there := by
  unfold setting at set
  cases own with
  | none =>
      cases set
      rfl
  | some value =>
      have read_ok : read value = .ok a := set
      rw [Option.bind_some, read_ok]
      rfl

theorem requireApproval_eq (action : Dict String Json) (ctx : ActionContext) : PolicyAction.requireApproval p action ctx = (do
    let reason ← PolicyAction.textAt action "reason"
    let roles ← setting PolicyAction.texts ((Dict.get action "roles").filter Json.truthy) ctx.decision.approvalRoles
    let parties ← setting (PolicyAction.int p) ((Dict.get action "parties").filter Json.truthy) ctx.decision.approvalParties
    return { ctx with decision := { ctx.decision with
      requireApproval := true, approvalReason := reason, approvalRoles := roles, approvalParties := parties } }) := by
  unfold PolicyAction.requireApproval
  cases (Dict.get action "roles").filter Json.truthy <;> cases (Dict.get action "parties").filter Json.truthy <;> rfl

theorem requireApproval_carried {action : Dict String Json} {ctx ctx' : ActionContext}
    (kind : PolicyAction.typeOf action = "require_approval")
    (done : PolicyAction.requireApproval p action ctx = .ok ctx') :
    Carried p [action] ctx.decision ctx'.decision ∧ ctx'.blank = ctx.blank := by
  have others : PolicyAction.typeOf action ≠ "deny_plan" := by
    rw [kind]
    decide
  rw [requireApproval_eq] at done
  obtain ⟨reason, _, done⟩ := ok_of_bind done
  obtain ⟨roles, named, done⟩ := ok_of_bind done
  obtain ⟨parties, counted, done⟩ := ok_of_bind done
  cases done
  refine ⟨⟨?_, ?_, ?_, ?_⟩, rfl⟩
  · simp [setsType, others]
  · simp [setsType, kind]
  · simp [lastSet, rolesSet, kind, setting_ok named]
  · simp [lastSet, partiesSet, kind, setting_ok counted]

theorem denyPlan_carried {action : Dict String Json} {ctx ctx' : ActionContext} (kind : PolicyAction.typeOf action = "deny_plan")
    (done : (do
      let reason ← PolicyAction.textAt action "reason"
      return { ctx with decision := { ctx.decision with denied := true, denialReason := reason } }) = Except.ok ctx') :
    Carried p [action] ctx.decision ctx'.decision ∧ ctx'.blank = ctx.blank := by
  have others : PolicyAction.typeOf action ≠ "require_approval" := by
    rw [kind]
    decide
  obtain ⟨reason, _, done⟩ := ok_of_bind done
  cases done
  refine ⟨⟨?_, ?_, ?_, ?_⟩, rfl⟩
  · simp [setsType, kind]
  · simp [setsType, others]
  · simp [lastSet, rolesSet, others]
  · simp [lastSet, partiesSet, others]

theorem clamp_decision {action : Dict String Json} {preset : Option String} {ctx ctx' : ActionContext}
    (done : PolicyAction.clamp p action preset ctx = .ok ctx') : ctx'.decision = ctx.decision := by
  have ends : ∀ key, (do
      let upper ← PolicyAction.bound p ctx.flags action ((Dict.get action "max").orElse fun _ => Dict.get action "max_percent") "max_flag"
      let lower ← PolicyAction.bound p ctx.flags action (Dict.get action "min") "min_flag"
      let value ← PolicyAction.flagNum p ctx.flags key
      let value ← PolicyAction.limited p PyFloat.min2 value upper
      let value ← PolicyAction.limited p PyFloat.max2 value lower
      let key ← PolicyAction.text key
      return { ctx with flags := Dict.set ctx.flags key (PolicyAction.fmt value) }) = Except.ok ctx' →
      ctx'.decision = ctx.decision := by
    intro key done
    obtain ⟨_, _, done⟩ := ok_of_bind done
    obtain ⟨_, _, done⟩ := ok_of_bind done
    obtain ⟨_, _, done⟩ := ok_of_bind done
    obtain ⟨_, _, done⟩ := ok_of_bind done
    obtain ⟨_, _, done⟩ := ok_of_bind done
    obtain ⟨_, _, done⟩ := ok_of_bind done
    cases done
    rfl
  unfold PolicyAction.clamp at done
  split at done
  · exact ends _ done
  · exact ends _ done
  · cases done

/-- What carrying out one action makes of denial and approval. -/
theorem apply_carried {action : Dict String Json} {ctx ctx' : ActionContext} (done : PolicyAction.apply p action ctx = .ok ctx') :
    Carried p [action] ctx.decision ctx'.decision := by
  have named := Evaluating.typeOf_eq action
  have other : ∀ {kind : String}, PolicyAction.typeOf action = kind → kind ≠ "deny_plan" → kind ≠ "require_approval" →
      (ctx'.decision.denied = ctx.decision.denied ∧ ctx'.decision.requireApproval = ctx.decision.requireApproval ∧
        ctx'.decision.approvalRoles = ctx.decision.approvalRoles ∧ ctx'.decision.approvalParties = ctx.decision.approvalParties) →
      Carried p [action] ctx.decision ctx'.decision := by
    intro kind is denies requires same
    exact .other (is ▸ denies) (is ▸ requires) same.1 same.2.1 same.2.2.1 same.2.2.2
  unfold PolicyAction.apply at done
  split at done
  · next is =>
      rw [is] at named
      obtain ⟨_, _, done⟩ := ok_of_bind done
      obtain ⟨_, _, done⟩ := ok_of_bind done
      obtain ⟨_, _, done⟩ := ok_of_bind done
      cases done
      exact other named (by decide) (by decide) ⟨rfl, rfl, rfl, rfl⟩
  · next is =>
      rw [is] at named
      obtain ⟨_, _, done⟩ := ok_of_bind done
      obtain ⟨_, _, done⟩ := ok_of_bind done
      split at done <;> cases done <;> exact other named (by decide) (by decide) ⟨rfl, rfl, rfl, rfl⟩
  · next is =>
      rw [is] at named
      exact (requireApproval_carried named done).1
  · next is =>
      rw [is] at named
      exact (denyPlan_carried named done).1
  · next is =>
      rw [is] at named
      obtain ⟨_, _, done⟩ := ok_of_bind done
      cases done
      exact other named (by decide) (by decide) ⟨rfl, rfl, rfl, rfl⟩
  · next is =>
      rw [is] at named
      split at done
      · cases done
        exact other named (by decide) (by decide) ⟨rfl, rfl, rfl, rfl⟩
      · obtain ⟨_, _, done⟩ := ok_of_bind done
        cases done
        exact other named (by decide) (by decide) ⟨rfl, rfl, rfl, rfl⟩
  · next is =>
      rw [is] at named
      have same := clamp_decision done
      exact other named (by decide) (by decide) (by simp [same])
  · next is =>
      rw [is] at named
      have same := clamp_decision done
      exact other named (by decide) (by decide) (by simp [same])
  · cases done

theorem applyAll_carried {actions : List (Dict String Json)} {ctx ctx' : ActionContext}
    (done : PolicyAction.applyAll p actions ctx = .ok ctx') : Carried p actions ctx.decision ctx'.decision := by
  induction actions generalizing ctx with
  | nil =>
      cases done
      exact .nothing _
  | cons action actions ih =>
      obtain ⟨between, first, rest⟩ := ok_of_bind done
      exact (apply_carried first).append (ih rest)

theorem clamp_blank (action : Dict String Json) (preset : Option String) (d d' : RuleDecision) (flags : Dict String String)
    (plan : Option Plan) (toolset : List ToolRef) :
    (PolicyAction.clamp p action preset ⟨d, flags, plan, toolset⟩).map ActionContext.blank =
      (PolicyAction.clamp p action preset ⟨d', flags, plan, toolset⟩).map ActionContext.blank := by
  unfold PolicyAction.clamp
  cases (Dict.get action "flag").filter Json.truthy <;> cases preset <;>
  · simp only [map_of_bind]
    rfl

/-- The decision is not looked at. -/
theorem apply_blank {action : Dict String Json} {a b : ActionContext} (same : a.blank = b.blank) :
    (PolicyAction.apply p action a).map ActionContext.blank = (PolicyAction.apply p action b).map ActionContext.blank := by
  obtain ⟨d, flags, plan, toolset⟩ := a
  obtain ⟨d', flags', plan', toolset'⟩ := b
  cases same
  unfold PolicyAction.apply
  simp only
  split
  · simp only [map_of_bind]
    rfl
  · simp only [map_of_bind]
    congr 1
    funext value
    congr 1
    funext nudge
    split <;> split <;> rfl
  · rw [requireApproval_eq, requireApproval_eq]
    simp only [map_of_bind]
    cases (Dict.get action "roles").filter Json.truthy <;> cases (Dict.get action "parties").filter Json.truthy <;> rfl
  · simp only [map_of_bind]
    rfl
  · simp only [map_of_bind]
    rfl
  · cases plan with
    | none => rfl
    | some plan =>
        simp only [map_of_bind]
        rfl
  · exact clamp_blank action none d d' flags plan toolset
  · exact clamp_blank action (some "discount_percent") d d' flags plan toolset
  · rfl

theorem applyAll_blank (actions : List (Dict String Json)) {a b : ActionContext} (same : a.blank = b.blank) :
    (PolicyAction.applyAll p actions a).map ActionContext.blank = (PolicyAction.applyAll p actions b).map ActionContext.blank := by
  induction actions generalizing a b with
  | nil => exact congrArg Except.ok same
  | cons action actions ih =>
      have first := @apply_blank p action _ _ same
      unfold PolicyAction.applyAll
      cases left : PolicyAction.apply p action a with
      | error e =>
          cases right : PolicyAction.apply p action b with
          | error e' =>
              rw [left, right] at first
              cases first
              rfl
          | ok b' =>
              rw [left, right] at first
              cases first
      | ok a' =>
          cases right : PolicyAction.apply p action b with
          | error e' =>
              rw [left, right] at first
              cases first
          | ok b' =>
              rw [left, right] at first
              exact ih (Except.ok.inj first)

/-! ## What a run makes of a decision -/

section visits

variable {ruleset ruleset' : LoadedRuleset} {stage : String} {intent : Intent} {semantic : Dict String Json}

/-- The rule, where its condition holds of the context. -/
def HookRule.matching (intent : Intent) (semantic : Dict String Json) (rule : HookRule) (ctx : ActionContext) : List HookRule :=
  match rule.applies { flags := ctx.flags, intent := some intent, plan := ctx.plan, semantic, toolset := ctx.toolset } with
  | .ok true => [rule]
  | _ => []

/-- The rules of a run that match, in order. -/
def PolicyHooks.matching (p : Platform) (ruleset : LoadedRuleset) (stage : String) (intent : Intent)
    (semantic : Dict String Json) : List HookRule → ActionContext → List HookRule
  | [], _ => []
  | rule :: rules, ctx => rule.matching intent semantic ctx ++
      match PolicyHooks.visit p ruleset stage intent semantic rule ctx with
      | .ok ctx => PolicyHooks.matching p ruleset stage intent semantic rules ctx
      | .error _ => []

/-- The actions that rules carry out. -/
def actionsOf (rules : List HookRule) : List (Dict String Json) := rules.flatMap HookRule.actions

theorem actionsOf_append (rules rules' : List HookRule) : actionsOf (rules ++ rules') = actionsOf rules ++ actionsOf rules' :=
  List.flatMap_append

theorem visit_carried {rule : HookRule} {ctx ctx' : ActionContext}
    (done : PolicyHooks.visit p ruleset stage intent semantic rule ctx = .ok ctx') :
    Carried p (actionsOf (rule.matching intent semantic ctx)) ctx.decision ctx'.decision := by
  unfold PolicyHooks.visit at done
  obtain ⟨applies, asked, done⟩ := ok_of_bind done
  unfold HookRule.matching
  rw [asked]
  cases applies with
  | false =>
      cases done
      exact .nothing _
  | true =>
      obtain ⟨between, carried, done⟩ := ok_of_bind done
      cases done
      have decided := applyAll_carried carried
      have all : actionsOf [rule] = rule.actions := List.append_nil _
      simp only [all]
      exact ⟨decided.denied, decided.required, decided.roles, decided.parties⟩

theorem visitAll_carried {rules : List HookRule} {ctx ctx' : ActionContext}
    (done : PolicyHooks.visitAll p ruleset stage intent semantic rules ctx = .ok ctx') :
    Carried p (actionsOf (PolicyHooks.matching p ruleset stage intent semantic rules ctx)) ctx.decision ctx'.decision := by
  induction rules generalizing ctx with
  | nil =>
      cases done
      exact .nothing _
  | cons rule rules ih =>
      obtain ⟨between, first, rest⟩ := ok_of_bind done
      have carried := (visit_carried first).append (ih rest)
      rw [PolicyHooks.matching, first, actionsOf_append]
      exact carried

/-- A condition is not asked about the decision. -/
theorem matching_blank (rule : HookRule) {a b : ActionContext} (same : a.blank = b.blank) :
    rule.matching intent semantic a = rule.matching intent semantic b := by
  obtain ⟨d, flags, plan, toolset⟩ := a
  obtain ⟨d', flags', plan', toolset'⟩ := b
  cases same
  rfl

theorem visit_blank (rule : HookRule) {a b : ActionContext} (same : a.blank = b.blank) :
    (PolicyHooks.visit p ruleset stage intent semantic rule a).map ActionContext.blank =
      (PolicyHooks.visit p ruleset' stage intent semantic rule b).map ActionContext.blank := by
  have carried := applyAll_blank (p := p) rule.actions same
  obtain ⟨d, flags, plan, toolset⟩ := a
  obtain ⟨d', flags', plan', toolset'⟩ := b
  cases same
  unfold PolicyHooks.visit
  simp only [map_of_bind]
  congr 1
  funext applies
  cases applies with
  | false => rfl
  | true =>
      simp only [if_true, map_of_bind]
      generalize PolicyAction.applyAll p rule.actions ⟨d, flags, plan, toolset⟩ = left at *
      generalize PolicyAction.applyAll p rule.actions ⟨d', flags, plan, toolset⟩ = right at *
      cases left with
      | error e =>
          cases right with
          | error e' =>
              cases carried
              rfl
          | ok b => cases carried
      | ok a =>
          cases right with
          | error e' => cases carried
          | ok b => exact carried

theorem visit_blank_of_ok {rule : HookRule} {a b a' b' : ActionContext} (same : a.blank = b.blank)
    (done : PolicyHooks.visit p ruleset stage intent semantic rule a = .ok a')
    (done' : PolicyHooks.visit p ruleset' stage intent semantic rule b = .ok b') : a'.blank = b'.blank := by
  have alike : (PolicyHooks.visit p ruleset stage intent semantic rule a).map ActionContext.blank =
      (PolicyHooks.visit p ruleset' stage intent semantic rule b).map ActionContext.blank := visit_blank rule same
  rw [done, done'] at alike
  exact Except.ok.inj alike

/-- Two runs of the same rules that differ in their decisions match the same ones. -/
theorem visitAll_blank {rules : List HookRule} {a b a' b' : ActionContext} (same : a.blank = b.blank)
    (done : PolicyHooks.visitAll p ruleset stage intent semantic rules a = .ok a')
    (done' : PolicyHooks.visitAll p ruleset' stage intent semantic rules b = .ok b') : a'.blank = b'.blank ∧
      PolicyHooks.matching p ruleset stage intent semantic rules a =
        PolicyHooks.matching p ruleset' stage intent semantic rules b := by
  induction rules generalizing a b with
  | nil =>
      cases done
      cases done'
      exact ⟨same, rfl⟩
  | cons rule rules ih =>
      obtain ⟨between, first, rest⟩ := ok_of_bind done
      obtain ⟨between', first', rest'⟩ := ok_of_bind done'
      obtain ⟨blank, matched⟩ := ih (visit_blank_of_ok same first first') rest rest'
      refine ⟨blank, ?_⟩
      rw [PolicyHooks.matching, PolicyHooks.matching, first, first', matching_blank rule same]
      exact congrArg _ matched

/-- A run of two stretches of rules, split where the second begins. -/
theorem visitAll_split {before after : List HookRule} {ctx ctx' : ActionContext}
    (done : PolicyHooks.visitAll p ruleset stage intent semantic (before ++ after) ctx = .ok ctx') : ∃ between,
      PolicyHooks.visitAll p ruleset stage intent semantic before ctx = .ok between ∧
      PolicyHooks.visitAll p ruleset stage intent semantic after between = .ok ctx' ∧
      PolicyHooks.matching p ruleset stage intent semantic (before ++ after) ctx =
        PolicyHooks.matching p ruleset stage intent semantic before ctx ++
          PolicyHooks.matching p ruleset stage intent semantic after between := by
  induction before generalizing ctx with
  | nil => exact ⟨ctx, rfl, done, rfl⟩
  | cons rule before ih =>
      obtain ⟨next, first, rest⟩ := ok_of_bind done
      obtain ⟨between, early, late, matched⟩ := ih rest
      refine ⟨between, ?_, late, ?_⟩
      · rw [PolicyHooks.visitAll, first]
        exact early
      · rw [List.cons_append, PolicyHooks.matching, PolicyHooks.matching, first, List.append_assoc]
        exact congrArg _ matched

/-! ## A rule that only asks for approval, or denies -/

/-- A rule all of whose actions are `require_approval` or `deny_plan`. -/
def HookRule.OnlyStricter (rule : HookRule) : Prop := ∀ action ∈ rule.actions,
  PolicyAction.typeOf action = "require_approval" ∨ PolicyAction.typeOf action = "deny_plan"

theorem apply_strict {action : Dict String Json} (only : PolicyAction.typeOf action = "require_approval" ∨
      PolicyAction.typeOf action = "deny_plan") {ctx ctx' : ActionContext} (done : PolicyAction.apply p action ctx = .ok ctx') :
    ctx'.blank = ctx.blank := by
  have named := Evaluating.typeOf_eq action
  unfold PolicyAction.apply at done
  split at done
  · next is => exact absurd only (by rw [named, is]; decide)
  · next is => exact absurd only (by rw [named, is]; decide)
  · next is =>
      rw [is] at named
      exact (requireApproval_carried named done).2
  · next is =>
      rw [is] at named
      exact (denyPlan_carried (p := p) named done).2
  · next is => exact absurd only (by rw [named, is]; decide)
  · next is => exact absurd only (by rw [named, is]; decide)
  · next is => exact absurd only (by rw [named, is]; decide)
  · next is => exact absurd only (by rw [named, is]; decide)
  · cases done

theorem applyAll_strict {actions : List (Dict String Json)} (only : ∀ action ∈ actions,
      PolicyAction.typeOf action = "require_approval" ∨ PolicyAction.typeOf action = "deny_plan") {ctx ctx' : ActionContext}
    (done : PolicyAction.applyAll p actions ctx = .ok ctx') : ctx'.blank = ctx.blank := by
  induction actions generalizing ctx with
  | nil =>
      cases done
      rfl
  | cons action actions ih =>
      obtain ⟨between, first, rest⟩ := ok_of_bind done
      have one := apply_strict (only action List.mem_cons_self) first
      exact (ih (fun action inside => only action (List.mem_cons_of_mem _ inside)) rest).trans one

/-- It leaves flags, plan and tools. -/
theorem visit_strict {rule : HookRule} (only : rule.OnlyStricter) {ctx ctx' : ActionContext}
    (done : PolicyHooks.visit p ruleset stage intent semantic rule ctx = .ok ctx') : ctx'.blank = ctx.blank := by
  unfold PolicyHooks.visit at done
  obtain ⟨applies, asked, done⟩ := ok_of_bind done
  cases applies with
  | false =>
      cases done
      rfl
  | true =>
      obtain ⟨between, carried, done⟩ := ok_of_bind done
      cases done
      have same := applyAll_strict only carried
      exact same

end visits

end carried

/-! ## The gate -/

/-- An approval by a principal. -/
def approves (who : Principal) : Vote := { approved := true, principal := some who }

/-- The approvals of these principals, each made once, satisfy roles and parties at the gate. -/
def Satisfies (u : Unicode) (id : String) (roles : List String) (parties : Int) (ps : List Principal) : Prop :=
  ((ps.map approves).foldl (fun (pd : PendingApproval) v => pd.resolve u id v)
    { requiredRoles := roles, parties }).signal = some true

section gate

variable {u : Unicode} {id : String} {roles : List String} {parties : Int} {ps : List Principal}

/-- The ids of the principals that hold one of the roles. -/
def matchingIds (roles : List String) (ps : List Principal) : Finset String := idsOf (ps.filter fun who => who.holds roles)

theorem approvers_approves (free : roles ≠ []) (ps : List Principal) :
    approvers roles (ps.map approves) = ps.filter fun who => who.holds roles := by
  have bound : roles.isEmpty = false := List.isEmpty_eq_false_iff.mpr free
  unfold approvers
  rw [List.filterMap_map, ← List.filterMap_eq_filter]
  congr 1
  funext who
  simp [approves, bound, Option.filter, Option.guard]

theorem satisfies_unbound : Satisfies u id [] parties ps ↔ ps ≠ [] := by
  constructor
  · rintro satisfied rfl
    cases satisfied
  · intro some
    unfold Satisfies
    rw [← List.dropLast_append_getLast some, List.map_append, List.map_singleton, PendingApproval.signal_unbound]
    rfl

theorem matchingIds_append (who : Principal) : matchingIds roles (ps ++ [who]) =
    if who.holds roles then insert who.id (matchingIds roles ps) else matchingIds roles ps := by
  unfold matchingIds
  rw [List.filter_append, idsOf_append]
  cases held : who.holds roles with
  | false => simp [held, idsOf]
  | true =>
      rw [List.filter_cons_of_pos held, if_pos rfl, Finset.union_comm]
      rfl

/-- A role-bound approval needs its parties, and at least one, among those that hold one of the roles. -/
theorem satisfies_bound (free : roles ≠ []) :
    Satisfies u id roles parties ps ↔ max 1 parties ≤ (matchingIds roles ps).card := by
  induction ps using List.reverseRecOn with
  | nil =>
      have nobody : ((matchingIds roles []).card : Int) = 0 := rfl
      rw [nobody]
      constructor
      · intro satisfied
        cases satisfied
      · omega
  | append_singleton ps who ih =>
      have counted : matchingIds roles (ps ++ [who]) = idsOf (approvers roles (ps.map approves ++ [approves who])) := by
        rw [matchingIds, ← approvers_approves free, List.map_append, List.map_singleton]
      have tallied := @PendingApproval.tallied_foldl u roles parties free id (ps.map approves)
      unfold Satisfies at ih ⊢
      rw [List.map_append, List.map_singleton, List.foldl_append, List.foldl_cons, List.foldl_nil]
      generalize (ps.map approves).foldl _ _ = pd at tallied ih ⊢
      have qualified : pd.qualified (approves who) = who.holds roles := by
        rw [← tallied.bound]
        rfl
      cases held : who.holds roles with
      | false =>
          -- a principal that holds none of the roles is refused
          have same : matchingIds roles (ps ++ [who]) = matchingIds roles ps := by
            rw [matchingIds_append, held, if_neg Bool.false_ne_true]
          rw [same, ← ih]
          rcases PendingApproval.resolve_cases u pd id (approves who) with ⟨none, _⟩ | ⟨_, _, same⟩ | ⟨_, yes, _⟩ | ⟨_, yes, _⟩
          · exact absurd (tallied.bound.symm.trans none) free
          · rw [same]
          · exact absurd (yes.symm.trans (qualified.trans held)) Bool.true_eq_false_eq_False
          · exact absurd (yes.symm.trans (qualified.trans held)) Bool.true_eq_false_eq_False
      | true =>
          have inside : who.id ∈ matchingIds roles (ps ++ [who]) := by
            rw [matchingIds_append, held, if_pos rfl]
            exact Finset.mem_insert_self _ _
          have some : 0 < (matchingIds roles (ps ++ [who])).card := Finset.card_pos.mpr ⟨_, inside⟩
          constructor
          · intro satisfied
            have enough := (tallied.resolve free id (approves who)).enough satisfied
            rw [← counted] at enough
            omega
          · intro enough
            refine tallied.grants free (qualified.trans held) rfl ?_
            rw [← counted]
            omega

/-- So many principals that hold one role. -/
def alike (role : String) (n : Nat) : List Principal :=
  (List.range n).map fun k => { id := String.ofList (List.replicate k 'p'), roles := [role] }

theorem card_matching_alike {role : String} (inside : role ∈ roles) (n : Nat) : (matchingIds roles (alike role n)).card = n := by
  have votes : (alike role n).map approves = votesOn "" ((List.range n).map (likeCall "" role)) := by
    rw [votesOn_alike, alike, List.map_map]
    rfl
  rw [matchingIds, ← approvers_approves (List.ne_nil_of_mem inside), votes, card_alike inside _ List.nodup_range,
    List.length_range]

theorem matching_alike {role : String} {n : Nat} (some : matchingIds roles (alike role n) ≠ ∅) : role ∈ roles := by
  obtain ⟨name, member⟩ := Finset.nonempty_iff_ne_empty.mpr some
  obtain ⟨who, listed, _⟩ := mem_idsOf.mp member
  obtain ⟨made, holds⟩ := List.mem_filter.mp listed
  obtain ⟨k, _, rfl⟩ := List.mem_map.mp made
  simpa [Principal.holds] using holds

theorem matchingIds_mono {roles' : List String} (within : roles ⊆ roles') (ps : List Principal) :
    matchingIds roles ps ⊆ matchingIds roles' ps := by
  intro name member
  obtain ⟨who, listed, named⟩ := mem_idsOf.mp member
  obtain ⟨asked, holds⟩ := List.mem_filter.mp listed
  obtain ⟨role, mine, among⟩ := List.any_eq_true.mp holds
  have held : who.holds roles' = true := List.any_eq_true.mpr ⟨role, mine, by simpa using within (by simpa using among)⟩
  exact mem_idsOf.mpr ⟨who, List.mem_filter.mpr ⟨asked, held⟩, named⟩

/-- Whoever satisfies some roles and parties satisfies others exactly where those name no role,
or these name some of their roles and at least as many parties. -/
theorem satisfies_mono {roles' : List String} {parties' : Int} :
    (∀ ps, Satisfies u id roles' parties' ps → Satisfies u id roles parties ps) ↔
      roles = [] ∨ roles' ≠ [] ∧ roles' ⊆ roles ∧ parties ≤ max 1 parties' := by
  constructor
  · intro weaker
    by_cases free : roles = []
    · exact .inl free
    have bound : roles' ≠ [] := by
      rintro rfl
      -- one principal without a role satisfies a decision that names none
      have satisfied := weaker [{ id := "" }] (satisfies_unbound.mpr (List.cons_ne_nil _ _))
      rw [satisfies_bound free] at satisfied
      have nobody : ((matchingIds roles [{ id := "" }]).card : Int) = 0 := rfl
      omega
    have enough : ∀ role ∈ roles', role ∈ roles ∧ parties ≤ max 1 parties' := by
      intro role inside
      have satisfied := weaker (alike role (max 1 parties').toNat) (by
        rw [satisfies_bound bound, card_matching_alike inside]
        omega)
      rw [satisfies_bound free] at satisfied
      have among : role ∈ roles := by
        refine matching_alike (n := (max 1 parties').toNat) fun none => ?_
        rw [none, Finset.card_empty] at satisfied
        omega
      rw [card_matching_alike among] at satisfied
      exact ⟨among, by omega⟩
    obtain ⟨role, inside⟩ := List.exists_mem_of_ne_nil _ bound
    exact .inr ⟨bound, fun role inside => (enough role inside).1, (enough role inside).2⟩
  · rintro (rfl | ⟨bound, within, parties⟩) ps satisfied
    · rw [satisfies_unbound]
      rintro rfl
      cases satisfied
    · have free : roles ≠ [] := by
        rintro rfl
        exact bound (List.subset_nil.mp within)
      rw [satisfies_bound bound] at satisfied
      rw [satisfies_bound free]
      have more := Finset.card_le_card (matchingIds_mono within ps)
      omega

end gate

/-! ## One more rule -/

/-- The rules that match in an evaluation, in order. -/
def PolicyHooks.matched (p : Platform) (hooks : PolicyHooks) (ruleset : LoadedRuleset) (hook : PolicyHook)
    (env : ContextEnvelope) (intent : Intent) (plan : Option Plan) : List HookRule :=
  PolicyHooks.matching p ruleset hook.stage intent env.semanticModel (hooks.rules p ruleset hook)
    { flags := Dict.update [] env.policyFlags, plan, toolset := env.toolset }

theorem setsType_append (kind : String) (actions actions' : List (Dict String Json)) :
    setsType kind (actions ++ actions') = (setsType kind actions || setsType kind actions') := List.any_append

/-- With one more rule that only asks for approval, or denies, the same other rules match, and denial and
approval stay. Roles and parties are those of the last matching rule that sets them, so whoever satisfies the new ones
satisfied the old ones exactly where those name no role, or the new ones name some of their roles and as many parties. -/
theorem added_rule (p : Platform) (u : Unicode) (id : String) (hook : PolicyHook) (env : ContextEnvelope) (intent : Intent)
    (plan : Option Plan) {hooks hooks' : PolicyHooks} {ruleset ruleset' : LoadedRuleset} {rule : HookRule}
    (adds : Adds p hook hooks ruleset hooks' ruleset' rule) (only : rule.OnlyStricter) {out out' : ActionContext}
    (old : hooks.judge p ruleset hook env intent plan = .ok out)
    (new : hooks'.judge p ruleset' hook env intent plan = .ok out') :
    (∃ earlier here later, (here = [] ∨ here = [rule]) ∧
      hooks.matched p ruleset hook env intent plan = earlier ++ later ∧
      hooks'.matched p ruleset' hook env intent plan = earlier ++ (here ++ later)) ∧
    Carried p (actionsOf (hooks.matched p ruleset hook env intent plan)) {} out.decision ∧
    Carried p (actionsOf (hooks'.matched p ruleset' hook env intent plan)) {} out'.decision ∧
    (out.decision.denied = true → out'.decision.denied = true) ∧
    (out.decision.requireApproval = true → out'.decision.requireApproval = true) ∧
    ((∀ ps, Satisfies u id out'.decision.approvalRoles out'.decision.approvalParties ps →
      Satisfies u id out.decision.approvalRoles out.decision.approvalParties ps) ↔
      out.decision.approvalRoles = [] ∨ out'.decision.approvalRoles ≠ [] ∧
        out'.decision.approvalRoles ⊆ out.decision.approvalRoles ∧
        out.decision.approvalParties ≤ max 1 out'.decision.approvalParties) := by
  have carried := visitAll_carried old
  have carried' := visitAll_carried new
  have matched : ∃ earlier here later, (here = [] ∨ here = [rule]) ∧
      hooks.matched p ruleset hook env intent plan = earlier ++ later ∧
      hooks'.matched p ruleset' hook env intent plan = earlier ++ (here ++ later) := by
    obtain ⟨before, after, rules, rules'⟩ := adds.rules
    unfold PolicyHooks.judge at old new
    unfold PolicyHooks.matched
    rw [rules] at old ⊢
    rw [rules'] at new ⊢
    obtain ⟨mid, early, late, split⟩ := visitAll_split old
    obtain ⟨mid', early', late', split'⟩ := visitAll_split new
    obtain ⟨between, first, rest⟩ := ok_of_bind late'
    obtain ⟨same, alike⟩ := visitAll_blank rfl early early'
    have through : mid.blank = between.blank := same.trans (visit_strict only first).symm
    rw [split, split', PolicyHooks.matching, first, alike, (visitAll_blank through late rest).2]
    refine ⟨_, _, _, ?_, rfl, rfl⟩
    unfold HookRule.matching
    split
    · exact .inr rfl
    · exact .inl rfl
  have more : ∀ kind, setsType kind (actionsOf (hooks.matched p ruleset hook env intent plan)) = true →
      setsType kind (actionsOf (hooks'.matched p ruleset' hook env intent plan)) = true := by
    intro kind sets
    obtain ⟨earlier, here, later, _, was, is⟩ := matched
    rw [was, actionsOf_append, setsType_append, Bool.or_eq_true] at sets
    rw [is, actionsOf_append, actionsOf_append, setsType_append, setsType_append, Bool.or_eq_true, Bool.or_eq_true]
    rcases sets with earlier | later
    · exact .inl earlier
    · exact .inr (.inr later)
  refine ⟨matched, carried, carried', ?_, ?_, satisfies_mono⟩
  · intro denied
    rw [carried.denied] at denied
    rw [carried'.denied]
    exact more _ denied
  · intro required
    rw [carried.required] at required
    rw [carried'.required]
    exact more _ required

namespace Sample

/-- A rule that always asks these parties. -/
def asking (ruleId : String) (priority : Int) (roles : List String) (parties : Int) : Rule where
  ruleId
  rulesetRef := "default"
  version := 1
  priority
  actions := [[("type", .str "require_approval"), ("roles", .strs roles), ("parties", .int parties)]]

def officer : LoadedRuleset where
  rulesetRef := "default"
  version := 1
  rules := [asking "officer" 10 ["cfo"] 2]

def officerAndIntern : LoadedRuleset := { officer with rules := [asking "officer" 10 ["cfo"] 2] ++ asking "intern" 20 ["intern"] 1 :: [] }

def askedIntern : HookRule where
  ruleId := "intern"
  applies := fun ctx => Condition.evaluate digesting ctx (.obj [])
  actions := (asking "intern" 20 ["intern"] 1).actions

def planned : ContextEnvelope where
  runId := "run-1"
  tenantId := "acme"
  stage := .actionPlan

def refund : Intent where
  intentId := "i-1"
  goal := "refund"

/-- What the hook makes of it, with the rules that asked. -/
def asked (roles : List String) (parties : Int) (ruleIds : List String) : ActionContext where
  decision := {
    requireApproval := true
    approvalRoles := roles
    approvalParties := parties
    trace := ruleIds.map fun ruleId => {
      ruleId
      rulesetRef := "default"
      version := 1
      stage := "action_plan"
      actions := ["require_approval"] } }
  flags := []

theorem adds_intern : Adds digesting (.postPlan .actionPlan) {} officer {} officerAndIntern askedIntern :=
  @Adds.dsl _ _ _ _ [asking "officer" 10 ["cfo"] 2] [] (asking "intern" 20 ["intern"] 1) rfl rfl rfl

theorem intern_only : askedIntern.OnlyStricter := by
  intro action inside
  rw [List.mem_singleton.mp inside]
  exact .inl rfl

theorem officer_asked : PolicyHooks.judge digesting {} officer (.postPlan .actionPlan) planned refund none =
    .ok (asked ["cfo"] 2 ["officer"]) := rfl

theorem intern_asked : PolicyHooks.judge digesting {} officerAndIntern (.postPlan .actionPlan) planned refund none =
    .ok (asked ["intern"] 1 ["officer", "intern"]) := rfl

end Sample

open Sample in
/-- An intern is not an officer. -/
theorem added_rule_intern :
    ¬ ∀ ps, Satisfies unicode "a" ["intern"] 1 ps → Satisfies unicode "a" ["cfo"] 2 ps := by
  have added := added_rule digesting unicode "a" (.postPlan .actionPlan) planned refund none adds_intern intern_only
    officer_asked intern_asked
  intro weaker
  rcases added.2.2.2.2.2.mp weaker with none | ⟨_, within, _⟩
  · cases none
  · exact absurd within (by decide)

/-- A rule for interns, after one for two officers, lets an intern alone decide. -/
theorem intern_decides : ¬ ∀ (p : Platform) (u : Unicode) (id : String) (hook : PolicyHook) (env : ContextEnvelope)
    (intent : Intent) (plan : Option Plan) (hooks hooks' : PolicyHooks) (ruleset ruleset' : LoadedRuleset) (rule : HookRule)
    (out out' : ActionContext), Adds p hook hooks ruleset hooks' ruleset' rule → rule.OnlyStricter →
    hooks.judge p ruleset hook env intent plan = .ok out → hooks'.judge p ruleset' hook env intent plan = .ok out' →
    (out.decision.denied = true → out'.decision.denied = true) ∧
    (out.decision.requireApproval = true → out'.decision.requireApproval = true) ∧
    out.decision.approvalParties ≤ out'.decision.approvalParties ∧
    ∀ ps, Satisfies u id out'.decision.approvalRoles out'.decision.approvalParties ps →
      Satisfies u id out.decision.approvalRoles out.decision.approvalParties ps := by
  intro stricter
  have lowered := (stricter Sample.digesting Sample.unicode "a" _ _ _ _ _ _ _ _ _ _ _ Sample.adds_intern Sample.intern_only
    Sample.officer_asked Sample.intern_asked).2.2.1
  exact absurd lowered (by decide)

end Maof
