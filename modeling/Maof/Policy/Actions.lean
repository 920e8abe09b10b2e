import Maof.Policy.Conditions
import Maof.Policy.Engine

/-!
# What a policy hook does

Every rule that applies has its actions carried out on the flags, the plan, the
tools and the decision, and later rules see what earlier ones left. The flags,
the nudges and the decision hold text; an action that would put anything else
there is refused.
-/

namespace Maof

open Data (Dict)

structure ActionContext where
  decision : RuleDecision := {}
  flags : Dict String String
  plan : Option Plan := none
  toolset : List ToolRef := []

namespace PolicyAction

variable (p : Platform)

def text : Json → Except Exn String
  | .str s => .ok s
  | _ => .error (.typeError "expected a string")

/-- `action.get(key, "")`, a text. -/
def textAt (action : Dict String Json) (key : String) : Except Exn String :=
  text ((Dict.get action key).getD (.str ""))

/-- `list(value)`, of texts. -/
def texts : Json → Except Exn (List String)
  | .arr xs => xs.mapM text
  | .obj fields => .ok (Dict.keys fields)
  | .str s => .ok (s.toList.map String.singleton)
  | _ => .error (.typeError "object is not iterable")

/-- `int(value)`. -/
def int : Json → Except Exn Int
  | .bool b => .ok (if b then 1 else 0)
  | .int n => .ok n
  | .float (.dec neg coeff exp) =>
      let n : Int := if 0 ≤ exp then coeff * 10 ^ exp.toNat else coeff / 10 ^ (-exp).toNat
      .ok (if neg then -n else n)
  | .float _ => .error (.valueError "cannot convert float to integer")
  | .str s =>
      let (neg, digits) := Platform.takeSign (Template.strip s.toList)
      match Platform.takeDigits digits with
      | (d :: ds, []) =>
          let n : Int := Platform.number (d :: ds)
          .ok (if neg then -n else n)
      | _ => .error (.valueError ("invalid literal for int() with base 10: " ++ Template.reprText p.unicode (.str s)))
  | _ => .error (.typeError "int() argument must be a string or a real number")

/-- `str(int(value)) if value.is_integer() else str(value)`. -/
def fmt (value : PyFloat) : String :=
  match value.toInt? with
  | some n => String.ofList (JsonText.intText n)
  | none => String.ofList (JsonText.floatText value)

/-- `_num(ctx.flags.get(key, 0))`. -/
def flagNum (flags : Dict String String) (key : Json) : Except Exn PyFloat := do
  match ← Condition.flag flags key with
  | some value => p.float (.str value)
  | none => return .zero

/-- A bound of a clamp: the action's own, or what another flag holds. -/
def bound (flags : Dict String String) (action : Dict String Json) (own : Option Json) (flagKey : String) :
    Except Exn (Option Json) :=
  match own, Dict.get action flagKey with
  | none, some key | some .null, some key => do return some (.float (← flagNum p flags key))
  | some .null, none => return none
  | own, _ => return own

def limited (limit : PyFloat → PyFloat → PyFloat) (value : PyFloat) : Option Json → Except Exn PyFloat
  | some bound => do return limit value (← p.float bound)
  | none => return value

def clamp (action : Dict String Json) (preset : Option String) (ctx : ActionContext) : Except Exn ActionContext := do
  let key ← match (Dict.get action "flag").filter Json.truthy, preset with
    | some flag, _ => .ok flag
    | none, some key => .ok (.str key)
    | none, none => .error (.valueError "clamp action requires a 'flag'")
  let upper ← bound p ctx.flags action ((Dict.get action "max").orElse fun _ => Dict.get action "max_percent") "max_flag"
  let lower ← bound p ctx.flags action (Dict.get action "min") "min_flag"
  let value ← flagNum p ctx.flags key
  let value ← limited p PyFloat.min2 value upper
  let value ← limited p PyFloat.max2 value lower
  return { ctx with flags := Dict.set ctx.flags (← text key) (fmt value) }

def requireApproval (action : Dict String Json) (ctx : ActionContext) : Except Exn ActionContext := do
  let reason ← textAt action "reason"
  let roles ← match (Dict.get action "roles").filter Json.truthy with
    | some roles => texts roles
    | none => .ok ctx.decision.approvalRoles
  let parties ← match (Dict.get action "parties").filter Json.truthy with
    | some parties => int p parties
    | none => .ok ctx.decision.approvalParties
  return { ctx with decision := { ctx.decision with
    requireApproval := true, approvalReason := reason, approvalRoles := roles, approvalParties := parties } }

/-- `apply_action`. -/
def apply (action : Dict String Json) (ctx : ActionContext) : Except Exn ActionContext :=
  match (Dict.get action "type").getD (.str "") with
  | .str "set_flag" => do
      let value ← subscript action "value"
      let key ← text (← subscript action "key")
      return { ctx with flags := Dict.set ctx.flags key (String.ofList (Template.pyStr p.unicode value)) }
  | .str "add_nudge" => do
      let nudge ← text (← subscript action "text")
      if nudge ∈ ctx.decision.addedNudges then return ctx
      else return { ctx with decision := { ctx.decision with addedNudges := ctx.decision.addedNudges ++ [nudge] } }
  | .str "require_approval" => requireApproval p action ctx
  | .str "deny_plan" => do
      let reason ← textAt action "reason"
      return { ctx with decision := { ctx.decision with denied := true, denialReason := reason } }
  | .str "strip_tool" => do
      let name ← subscript action "name"
      return { ctx with toolset := ctx.toolset.filter fun tool => !(Json.str tool.name).pyEq name }
  | .str "strip_task_type" => do
      match ctx.plan with
      | none => return ctx
      | some plan =>
          let taskType ← subscript action "task_type"
          let stays (name : String) : Bool := !(Json.str name).pyEq taskType
          return { ctx with plan := some { plan with
            tasks := plan.tasks.filter fun t => stays t.taskType
            taskTypes := plan.taskTypes.filter stays } }
  | .str "clamp" => clamp p action none ctx
  | .str "cap_discount" => clamp p action (some "discount_percent") ctx
  | other => .error (.valueError ("unknown policy action: " ++ Template.reprText p.unicode other))

def applyAll : List (Dict String Json) → ActionContext → Except Exn ActionContext
  | [], ctx => .ok ctx
  | action :: actions, ctx => do applyAll actions (← apply p action ctx)

/-- `a.get("type", "")` of the actions that were carried out. -/
def typeOf (action : Dict String Json) : String :=
  match Dict.get action "type" with
  | some (.str name) => name
  | _ => ""

end PolicyAction

/-- A Python-callable rule, a first-class alternative to the DSL. -/
structure CallableRule where
  ruleId : String
  when_ : EvalContext → Except Exn Bool
  actions : List (Dict String Json)
  stage : String := "*"
  priority : Int := 100

/-- The engine as a stage calls it: its rulesets and its events are calls of the run. -/
structure PolicyHooks where
  rulesetRef : String := "default"
  repo : Bool := true
  eventSink : Bool := true
  callableRules : List CallableRule := []

/-- A rule of either kind, with the stage already looked at. -/
structure HookRule where
  ruleId : String
  applies : EvalContext → Except Exn Bool
  actions : List (Dict String Json)

namespace PolicyHooks

variable (p : Platform) (hooks : PolicyHooks)

/-- The rules a hook goes through: the ruleset's by priority, and then the callables by theirs. -/
def rules (ruleset : LoadedRuleset) (hook : PolicyHook) : List HookRule :=
  (ruleset.hookRules hook).map (fun rule => {
    ruleId := rule.ruleId
    applies := fun ctx => Condition.evaluate p ctx (.obj rule.when_)
    actions := rule.actions }) ++
  (hooks.callableRules.insertionSort fun a b => a.priority ≤ b.priority).map fun rule => {
    ruleId := rule.ruleId
    applies := fun ctx => if stageMatch rule.stage hook.stage then rule.when_ ctx else .ok false
    actions := rule.actions }

def visit (ruleset : LoadedRuleset) (stage : String) (intent : Intent) (semantic : Dict String Json) (rule : HookRule)
    (ctx : ActionContext) : Except Exn ActionContext := do
  let seen : EvalContext := { flags := ctx.flags, intent := some intent, plan := ctx.plan, semantic, toolset := ctx.toolset }
  if ← rule.applies seen then
    let ctx ← PolicyAction.applyAll p rule.actions ctx
    return { ctx with decision := { ctx.decision with trace := ctx.decision.trace ++ [{
      ruleId := rule.ruleId
      rulesetRef := ruleset.rulesetRef
      version := ruleset.version
      stage
      actions := rule.actions.map PolicyAction.typeOf }] } }
  else
    return ctx

def visitAll (ruleset : LoadedRuleset) (stage : String) (intent : Intent) (semantic : Dict String Json) :
    List HookRule → ActionContext → Except Exn ActionContext
  | [], ctx => .ok ctx
  | rule :: rules, ctx => do visitAll ruleset stage intent semantic rules (← visit p ruleset stage intent semantic rule ctx)

/-- What `_evaluate` makes of an envelope, over copies of its flags, its tools and the plan. -/
def judge (ruleset : LoadedRuleset) (hook : PolicyHook) (env : ContextEnvelope) (intent : Intent) (plan : Option Plan) :
    Except Exn ActionContext :=
  visitAll p ruleset hook.stage intent env.semanticModel (rules p hooks ruleset hook)
    { flags := Dict.update [] env.policyFlags, plan, toolset := env.toolset }

end PolicyHooks
end Maof
