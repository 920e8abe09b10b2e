import Maof.Effects.Objects
import Maof.Policy.Actions

/-!
# Policy evaluation in place

The engine copies the flags, the tools and the plan, lets conditions and actions
share the copies, and reflects flags and tools back onto the envelope once every
rule has been gone through.
-/

namespace Maof

open Data (Dict)
open Effects (Objects)

/-! ## Evaluation -/

/-- The dictionaries of flags, the lists of tools and the plans. -/
structure PolicyObjects (F : Type) where
  flags : Objects F
  toolsets : Objects (List ToolRef)
  plans : Objects Plan

/-- What of an envelope an evaluation writes to. -/
structure EnvelopeRefs where
  policyFlags : Nat
  toolset : Nat

/-- The working copies that the `ActionContext` and the `EvalContext` share. -/
structure WorkingRefs where
  flags : Nat
  toolset : Nat
  plan : Option Nat

/-- A rule of either kind for the stage at hand; a condition reads the working copies. -/
structure WorkingRule (F D : Type) where
  applies : F → Option Plan → List ToolRef → Except Exn Bool
  actions : List (Dict String Json)
  traced : D → D

/-- What an action that strips nothing makes of the flags and the decision, also where it raises. -/
abbrev OtherAction (F D : Type) : Type := Dict String Json → F × D → (F × D) × Except Exn Unit

/-- An evaluation under way, and the rules that have applied. -/
structure Evaluating (F D : Type) where
  objects : PolicyObjects F
  decision : D
  matched : List (WorkingRule F D) := []

def stripTool (name : Json) (tools : List ToolRef) : List ToolRef :=
  tools.filter fun tool => !(Json.str tool.name).pyEq name

def stripTaskType (taskType : Json) (plan : Plan) : Plan :=
  { plan with
    tasks := plan.tasks.filter fun t => !(Json.str t.taskType).pyEq taskType
    taskTypes := plan.taskTypes.filter fun name => !(Json.str name).pyEq taskType }

namespace Evaluating

variable {F D : Type} (other : OtherAction F D) (refs : WorkingRefs)

/-- `apply_action`. -/
def applyAction (action : Dict String Json) (s : Evaluating F D) : Evaluating F D × Except Exn Unit :=
  let o := s.objects
  match (Dict.get action "type").getD (.str "") with
  | .str "strip_tool" => match subscript action "name" with
      | .error e => (s, .error e)
      | .ok name =>
          ({ s with objects := { o with toolsets := o.toolsets.set refs.toolset (stripTool name (o.toolsets.get refs.toolset)) } },
            .ok ())
  | .str "strip_task_type" => match refs.plan with
      | none => (s, .ok ())
      | some plan => match subscript action "task_type" with
          | .error e => (s, .error e)
          | .ok taskType =>
              ({ s with objects := { o with plans := o.plans.set plan (stripTaskType taskType (o.plans.get plan)) } }, .ok ())
  | _ =>
      let ((flags, decision), ended) := other action (o.flags.get refs.flags, s.decision)
      ({ s with objects := { o with flags := o.flags.set refs.flags flags }, decision }, ended)

def applyActions : List (Dict String Json) → Evaluating F D → Evaluating F D × Except Exn Unit
  | [], s => (s, .ok ())
  | action :: actions, s => match s.applyAction other refs action with
    | (s, .error e) => (s, .error e)
    | (s, .ok ()) => applyActions actions s

def visit (rule : WorkingRule F D) (s : Evaluating F D) : Evaluating F D × Except Exn Unit :=
  let o := s.objects
  match rule.applies (o.flags.get refs.flags) (refs.plan.map o.plans.get) (o.toolsets.get refs.toolset) with
  | .error e => (s, .error e)
  | .ok false => (s, .ok ())
  | .ok true => match s.applyActions other refs rule.actions with
    | (s, .error e) => (s, .error e)
    | (s, .ok ()) => ({ s with decision := rule.traced s.decision, matched := s.matched ++ [rule] }, .ok ())

def visitAll : List (WorkingRule F D) → Evaluating F D → Evaluating F D × Except Exn Unit
  | [], s => (s, .ok ())
  | rule :: rules, s => match s.visit other refs rule with
    | (s, .error e) => (s, .error e)
    | (s, .ok ()) => visitAll rules s

end Evaluating

namespace PolicyObjects

variable {F D : Type}

/-- `dict(env.policy_flags)`, `list(env.toolset)` and `plan.model_copy(deep=True)`. -/
def copied (o : PolicyObjects F) (env : EnvelopeRefs) (plan : Option Nat) : PolicyObjects F × WorkingRefs :=
  let (flags, f) := o.flags.alloc (o.flags.get env.policyFlags)
  let (toolsets, t) := o.toolsets.alloc (o.toolsets.get env.toolset)
  match plan with
  | none => ({ flags, toolsets, plans := o.plans }, { flags := f, toolset := t, plan := none })
  | some r =>
      let (plans, p) := o.plans.alloc (o.plans.get r)
      ({ flags, toolsets, plans }, { flags := f, toolset := t, plan := some p })

/-- The rules, gone through over the copies. -/
def judged (other : OtherAction F D) (rules : List (WorkingRule F D)) (decision : D) (o : PolicyObjects F) (env : EnvelopeRefs)
    (plan : Option Nat) : Evaluating F D × Except Exn Unit :=
  Evaluating.visitAll other (o.copied env plan).2 rules { objects := (o.copied env plan).1, decision }

/-- `_evaluate`: the decision and the working plan, or what a rule or the event sink has raised. -/
def evaluate (other : OtherAction F D) (rules : List (WorkingRule F D)) (emitted : D → Except Exn Unit) (decision : D)
    (o : PolicyObjects F) (env : EnvelopeRefs) (plan : Option Nat) : PolicyObjects F × Except Exn (D × Option Nat) :=
  let refs := (o.copied env plan).2
  match o.judged other rules decision env plan with
  | (s, .error e) => (s.objects, .error e)
  | (s, .ok ()) =>
      let o := { s.objects with
        flags := s.objects.flags.set env.policyFlags (s.objects.flags.get refs.flags)
        toolsets := s.objects.toolsets.set env.toolset (s.objects.toolsets.get refs.toolset) }
      (o, (emitted s.decision).map fun _ => (s.decision, refs.plan))

end PolicyObjects

/-! ## What is removed -/

/-- The action strips the tools of this name. -/
def stripsTool (action : Dict String Json) (name : String) : Bool :=
  PolicyAction.typeOf action = "strip_tool" && (Dict.get action "name").any fun value => (Json.str name).pyEq value

/-- The action strips the tasks of this type. -/
def stripsTaskType (action : Dict String Json) (taskType : String) : Bool :=
  PolicyAction.typeOf action = "strip_task_type" && (Dict.get action "task_type").any fun value => (Json.str taskType).pyEq value

def keptTools (actions : List (Dict String Json)) (tools : List ToolRef) : List ToolRef :=
  tools.filter fun tool => !actions.any fun action => stripsTool action tool.name

/-- The plan without the tasks and the task types that are stripped. -/
def keptPlan (actions : List (Dict String Json)) (plan : Plan) : Plan :=
  { plan with
    tasks := plan.tasks.filter fun t => !actions.any fun action => stripsTaskType action t.taskType
    taskTypes := plan.taskTypes.filter fun name => !actions.any fun action => stripsTaskType action name }

theorem keptPlan_append (actions actions' : List (Dict String Json)) (plan : Plan) :
    keptPlan actions' (keptPlan actions plan) = keptPlan (actions ++ actions') plan := by
  simp only [keptPlan, List.filter_filter, List.any_append, Bool.not_or, Plan.mk.injEq, and_true]
  constructor
  · apply List.filter_congr
    intro t _
    exact Bool.and_comm _ _
  · apply List.filter_congr
    intro name _
    exact Bool.and_comm _ _

theorem keptTools_append (actions actions' : List (Dict String Json)) (tools : List ToolRef) :
    keptTools actions' (keptTools actions tools) = keptTools (actions ++ actions') tools := by
  simp only [keptTools, List.filter_filter, List.any_append, Bool.not_or]
  apply List.filter_congr
  intro tool _
  exact Bool.and_comm _ _

section one

variable {action : Dict String Json}

theorem subscript_get {key : String} {value : Json} (read : subscript action key = .ok value) : Dict.get action key = some value := by
  unfold subscript at read
  split at read
  · next found =>
      cases read
      exact found
  · cases read

theorem keptTools_strip {name : Json} (kind : PolicyAction.typeOf action = "strip_tool")
    (read : subscript action "name" = .ok name) (tools : List ToolRef) : keptTools [action] tools = stripTool name tools := by
  simp [keptTools, stripTool, stripsTool, kind, subscript_get read]

theorem keptTools_other (kind : PolicyAction.typeOf action ≠ "strip_tool") (tools : List ToolRef) :
    keptTools [action] tools = tools := by
  simp [keptTools, stripsTool, kind]

theorem keptPlan_strip {taskType : Json} (kind : PolicyAction.typeOf action = "strip_task_type")
    (read : subscript action "task_type" = .ok taskType) (plan : Plan) :
    keptPlan [action] plan = stripTaskType taskType plan := by
  simp [keptPlan, stripTaskType, stripsTaskType, kind, subscript_get read]

theorem keptPlan_other (kind : PolicyAction.typeOf action ≠ "strip_task_type") (plan : Plan) : keptPlan [action] plan = plan := by
  simp [keptPlan, stripsTaskType, kind]

end one

/-! ## What a step does to the objects -/

namespace PolicyObjects

variable {F : Type}

/-- The objects of before are what they were. -/
structure Keeps (o o' : PolicyObjects F) : Prop where
  flags : o.flags.Keeps o'.flags
  toolsets : o.toolsets.Keeps o'.toolsets
  plans : o.plans.Keeps o'.plans

/-- The working copies were allocated later. -/
structure Before (o : PolicyObjects F) (refs : WorkingRefs) : Prop where
  flags : o.flags.next ≤ refs.flags
  toolset : o.toolsets.next ≤ refs.toolset
  plan : ∀ r, refs.plan = some r → o.plans.next ≤ r

/-- These actions have taken out of the working copies what they strip. -/
structure Trims (refs : WorkingRefs) (actions : List (Dict String Json)) (o o' : PolicyObjects F) : Prop where
  toolset : o'.toolsets.get refs.toolset = keptTools actions (o.toolsets.get refs.toolset)
  plan : ∀ r, refs.plan = some r → o'.plans.get r = keptPlan actions (o.plans.get r)

namespace Trims

variable {refs : WorkingRefs} {actions actions' : List (Dict String Json)} {o o' o'' : PolicyObjects F}

theorem nothing (o : PolicyObjects F) : Trims refs [] o o where
  toolset := by simp [keptTools]
  plan _ _ := by simp [keptPlan]

theorem append (first : Trims refs actions o o') (then_ : Trims refs actions' o' o'') : Trims refs (actions ++ actions') o o'' where
  toolset := by rw [then_.toolset, first.toolset, keptTools_append]
  plan r is := by rw [then_.plan r is, first.plan r is, keptPlan_append]

end Trims
end PolicyObjects

namespace Evaluating

open PolicyObjects (Trims)

variable {F D : Type} {other : OtherAction F D} {refs : WorkingRefs} {o : PolicyObjects F}

/-- A part of an evaluation: it writes to the working copies only, and has carried out these actions if it has not raised. -/
structure Passes (refs : WorkingRefs) (o : PolicyObjects F) (s : Evaluating F D) (actions : List (Dict String Json))
    (out : Evaluating F D × Except Exn Unit) : Prop where
  keeps : o.Keeps out.1.objects
  trims : out.2 = .ok () → Trims refs actions s.objects out.1.objects

theorem typeOf_eq (action : Dict String Json) : PolicyAction.typeOf action =
    match (Dict.get action "type").getD (.str "") with
    | .str name => name
    | _ => "" := by
  unfold PolicyAction.typeOf
  cases Dict.get action "type" with
  | none => rfl
  | some value => cases value <;> rfl

theorem typeOf_ne {action : Dict String Json} {name : String} (named : "" ≠ name)
    (other : (Dict.get action "type").getD (.str "") ≠ .str name) : PolicyAction.typeOf action ≠ name := by
  rw [typeOf_eq]
  split
  · next held is => exact fun same => other (is.trans (congrArg _ same))
  · exact named

theorem applyAction_passes (before : o.Before refs) (action : Dict String Json) {s : Evaluating F D} (keeps : o.Keeps s.objects) :
    Passes refs o s [action] (s.applyAction other refs action) := by
  have named := typeOf_eq action
  unfold applyAction
  simp only
  split
  · next is =>
      rw [is] at named
      have others : PolicyAction.typeOf action ≠ "strip_task_type" := by
        rw [named]
        decide
      cases read : subscript action "name" with
      | error e => exact ⟨keeps, fun ended => by cases ended⟩
      | ok name =>
          refine ⟨⟨keeps.flags, keeps.toolsets.set before.toolset _, keeps.plans⟩, fun _ => ⟨?_, fun r _ => ?_⟩⟩
          · simp only [Objects.get_set_self]
            exact (keptTools_strip named read _).symm
          · exact (keptPlan_other others _).symm
  · next is =>
      rw [is] at named
      have others : PolicyAction.typeOf action ≠ "strip_tool" := by
        rw [named]
        decide
      cases planned : refs.plan with
      | none =>
          refine ⟨keeps, fun _ => ⟨(keptTools_other others _).symm, fun r some => ?_⟩⟩
          rw [planned] at some
          cases some
      | some plan =>
          cases read : subscript action "task_type" with
          | error e => exact ⟨keeps, fun ended => by cases ended⟩
          | ok taskType =>
              refine ⟨⟨keeps.flags, keeps.toolsets, keeps.plans.set (before.plan plan planned) _⟩, fun _ =>
                ⟨(keptTools_other others _).symm, fun r is => ?_⟩⟩
              cases planned.symm.trans is
              simp only [Objects.get_set_self]
              exact (keptPlan_strip named read _).symm
  · next tool task =>
      have tools : PolicyAction.typeOf action ≠ "strip_tool" := typeOf_ne (by decide) tool
      have tasks : PolicyAction.typeOf action ≠ "strip_task_type" := typeOf_ne (by decide) task
      exact ⟨⟨keeps.flags.set before.flags _, keeps.toolsets, keeps.plans⟩, fun _ =>
        ⟨(keptTools_other tools _).symm, fun _ _ => (keptPlan_other tasks _).symm⟩⟩

theorem applyActions_passes (before : o.Before refs) (actions : List (Dict String Json)) {s : Evaluating F D}
    (keeps : o.Keeps s.objects) : Passes refs o s actions (s.applyActions other refs actions) := by
  induction actions generalizing s with
  | nil => exact ⟨keeps, fun _ => .nothing _⟩
  | cons action actions ih =>
      have first := @applyAction_passes _ _ other _ _ before action _ keeps
      unfold applyActions
      cases done : s.applyAction other refs action with
      | mk s' ended =>
          rw [done] at first
          cases ended with
          | error e => exact ⟨first.keeps, fun ended => by cases ended⟩
          | ok u =>
              have rest := ih first.keeps
              exact ⟨rest.keeps, fun ended => (first.trims rfl).append (rest.trims ended)⟩

/-- The actions of the rules that have applied. -/
def executed (s : Evaluating F D) : List (Dict String Json) := s.matched.flatMap WorkingRule.actions

theorem applyAction_matched (action : Dict String Json) (s : Evaluating F D) :
    (s.applyAction other refs action).1.matched = s.matched := by
  unfold applyAction
  simp only
  split
  · cases subscript action "name" <;> rfl
  · cases refs.plan with
    | none => rfl
    | some plan => cases subscript action "task_type" <;> rfl
  · rfl

theorem applyActions_matched (actions : List (Dict String Json)) (s : Evaluating F D) :
    (s.applyActions other refs actions).1.matched = s.matched := by
  induction actions generalizing s with
  | nil => rfl
  | cons action actions ih =>
      have first := @applyAction_matched _ _ other refs action s
      unfold applyActions
      cases done : s.applyAction other refs action with
      | mk s' ended =>
          rw [done] at first
          cases ended with
          | error e => exact first
          | ok u => exact (ih s').trans first

/-- A rule that does not apply leaves all as it is; one that applies has its actions carried out and is recorded. -/
theorem visit_passes (before : o.Before refs) (rule : WorkingRule F D) {s : Evaluating F D} (keeps : o.Keeps s.objects) :
    ∃ applied, applied.Sublist [rule] ∧ Passes refs o s (applied.flatMap WorkingRule.actions) (s.visit other refs rule) ∧
      ((s.visit other refs rule).2 = .ok () → (s.visit other refs rule).1.matched = s.matched ++ applied) := by
  unfold visit
  simp only
  split
  · exact ⟨[], List.nil_sublist _, ⟨keeps, fun ended => by cases ended⟩, fun ended => by cases ended⟩
  · exact ⟨[], List.nil_sublist _, ⟨keeps, fun _ => .nothing _⟩, fun _ => (List.append_nil _).symm⟩
  · have carried := @applyActions_passes _ _ other _ _ before rule.actions _ keeps
    have matched := @applyActions_matched _ _ other refs rule.actions s
    have own : [rule].flatMap WorkingRule.actions = rule.actions := by simp
    refine ⟨[rule], List.Sublist.refl _, ?_⟩
    rw [own]
    cases done : s.applyActions other refs rule.actions with
    | mk s' ended =>
        rw [done] at carried matched
        cases ended with
        | error e => exact ⟨⟨carried.keeps, fun ended => by cases ended⟩, fun ended => by cases ended⟩
        | ok u => exact ⟨⟨carried.keeps, fun _ => carried.trims rfl⟩, fun _ => congrArg (· ++ [rule]) matched⟩

theorem visitAll_passes (before : o.Before refs) (rules : List (WorkingRule F D)) {s : Evaluating F D} (keeps : o.Keeps s.objects) :
    ∃ applied, applied.Sublist rules ∧ Passes refs o s (applied.flatMap WorkingRule.actions) (s.visitAll other refs rules) ∧
      ((s.visitAll other refs rules).2 = .ok () → (s.visitAll other refs rules).1.matched = s.matched ++ applied) := by
  induction rules generalizing s with
  | nil => exact ⟨[], List.nil_sublist _, ⟨keeps, fun _ => .nothing _⟩, fun _ => (List.append_nil _).symm⟩
  | cons rule rules ih =>
      obtain ⟨applied, within, first, recorded⟩ := @visit_passes _ _ other _ _ before rule _ keeps
      unfold visitAll
      cases done : s.visit other refs rule with
      | mk s' ended =>
          rw [done] at first recorded
          cases ended with
          | error e => exact ⟨[], List.nil_sublist _, ⟨first.keeps, fun ended => by cases ended⟩, fun ended => by cases ended⟩
          | ok u =>
              obtain ⟨applied', within', rest, recorded'⟩ := ih first.keeps
              refine ⟨applied ++ applied', within.append within', ⟨rest.keeps, fun ended => ?_⟩, fun ended => ?_⟩
              · rw [List.flatMap_append]
                exact (first.trims rfl).append (rest.trims ended)
              · rw [recorded' ended, recorded rfl, List.append_assoc]

end Evaluating

/-! ## Evaluation -/

section evaluation

variable {F D : Type}

theorem copied_keeps (o : PolicyObjects F) (env : EnvelopeRefs) (plan : Option Nat) :
    o.Keeps (o.copied env plan).1 ∧ o.Before (o.copied env plan).2 := by
  unfold PolicyObjects.copied
  cases plan with
  | none =>
      exact ⟨⟨(Objects.Keeps.refl _).alloc _, (Objects.Keeps.refl _).alloc _, .refl _⟩, le_refl _, le_refl _, fun r none => by cases none⟩
  | some r =>
      refine ⟨⟨(Objects.Keeps.refl _).alloc _, (Objects.Keeps.refl _).alloc _, (Objects.Keeps.refl _).alloc _⟩,
        le_refl _, le_refl _, fun r is => ?_⟩
      cases is
      exact le_refl _

theorem copied_toolset (o : PolicyObjects F) (env : EnvelopeRefs) (plan : Option Nat) :
    (o.copied env plan).1.toolsets.get (o.copied env plan).2.toolset = o.toolsets.get env.toolset := by
  unfold PolicyObjects.copied
  cases plan with
  | none => exact Objects.get_alloc _ _
  | some r => exact Objects.get_alloc _ _

/-- The working plan is a copy of the plan, under an address of its own. -/
theorem copied_plan (o : PolicyObjects F) (env : EnvelopeRefs) (plan : Option Nat) :
    (plan = none → (o.copied env plan).2.plan = none) ∧ ∀ r, plan = some r →
      ∃ r', (o.copied env plan).2.plan = some r' ∧ o.plans.next ≤ r' ∧ (o.copied env plan).1.plans.get r' = o.plans.get r := by
  unfold PolicyObjects.copied
  cases plan with
  | none => exact ⟨fun _ => rfl, fun r none => by cases none⟩
  | some r =>
      refine ⟨fun none => ?_, fun r is => ?_⟩
      · cases none
      cases is
      exact ⟨_, rfl, le_refl _, Objects.get_alloc _ _⟩

theorem evaluate_raised {other : OtherAction F D} {rules : List (WorkingRule F D)} {emitted : D → Except Exn Unit}
    {decision : D} {o : PolicyObjects F} {env : EnvelopeRefs} {plan : Option Nat} {s : Evaluating F D} {e : Exn}
    (ran : o.judged other rules decision env plan = (s, .error e)) :
    o.evaluate other rules emitted decision env plan = (s.objects, .error e) := by
  unfold PolicyObjects.evaluate
  simp only
  rw [ran]

theorem evaluate_done {other : OtherAction F D} {rules : List (WorkingRule F D)} {emitted : D → Except Exn Unit}
    {decision : D} {o : PolicyObjects F} {env : EnvelopeRefs} {plan : Option Nat} {s : Evaluating F D}
    (ran : o.judged other rules decision env plan = (s, .ok ())) :
    o.evaluate other rules emitted decision env plan = ({ s.objects with
      flags := s.objects.flags.set env.policyFlags (s.objects.flags.get (o.copied env plan).2.flags)
      toolsets := s.objects.toolsets.set env.toolset (s.objects.toolsets.get (o.copied env plan).2.toolset) },
      (emitted s.decision).map fun _ => (s.decision, (o.copied env plan).2.plan)) := by
  unfold PolicyObjects.evaluate
  simp only
  rw [ran]

/-- If a condition or an action raises, the flags, the tools and the plan are what they were. If none does, tools and
tasks are gone exactly where an action of a rule that applied strips them, the plan that was given is what it
was, and the returned one is another. -/
theorem evaluation_atomic (other : OtherAction F D) (rules : List (WorkingRule F D)) (emitted : D → Except Exn Unit)
    (decision : D) (o : PolicyObjects F) (env : EnvelopeRefs) (plan : Option Nat)
    (held : env.policyFlags < o.flags.next ∧ env.toolset < o.toolsets.next ∧ ∀ r, plan = some r → r < o.plans.next)
    {s : Evaluating F D} {ended : Except Exn Unit} (ran : o.judged other rules decision env plan = (s, ended))
    {o' : PolicyObjects F} {result : Except Exn (D × Option Nat)}
    (out : o.evaluate other rules emitted decision env plan = (o', result)) :
    (∀ e, ended = .error e → result = .error e ∧ o'.flags.get env.policyFlags = o.flags.get env.policyFlags ∧
      o'.toolsets.get env.toolset = o.toolsets.get env.toolset ∧ ∀ r, plan = some r → o'.plans.get r = o.plans.get r) ∧
    (ended = .ok () → s.matched.Sublist rules ∧
      o'.toolsets.get env.toolset = keptTools s.executed (o.toolsets.get env.toolset) ∧
      (∀ r, plan = some r → o'.plans.get r = o.plans.get r) ∧
      (emitted s.decision = .ok () → ∃ plan', result = .ok (s.decision, plan') ∧ (plan = none → plan' = none) ∧
        ∀ r, plan = some r → ∃ r', plan' = some r' ∧ r' ≠ r ∧ o'.plans.get r' = keptPlan s.executed (o.plans.get r))) := by
  obtain ⟨copies, before⟩ := copied_keeps o env plan
  obtain ⟨unplanned, planned⟩ := copied_plan o env plan
  obtain ⟨applied, within, passed, recorded⟩ := @Evaluating.visitAll_passes _ D other _ _ before rules
    { objects := (o.copied env plan).1, decision } copies
  change Evaluating.Passes _ _ _ _ (o.judged other rules decision env plan) at passed
  change (o.judged other rules decision env plan).2 = _ → (o.judged other rules decision env plan).1.matched = [] ++ applied
    at recorded
  rw [ran] at passed recorded
  have given : ∀ r, plan = some r → s.objects.plans.get r = o.plans.get r := fun r is =>
    passed.keeps.plans.get r (held.2.2 r is)
  constructor
  · intro e raised
    rw [raised] at ran
    rw [evaluate_raised ran] at out
    cases out
    exact ⟨rfl, passed.keeps.flags.get _ held.1, passed.keeps.toolsets.get _ held.2.1, given⟩
  · intro done
    rw [done] at ran
    rw [evaluate_done ran] at out
    cases out
    have matched : s.matched = applied := recorded done
    have trims := passed.trims done
    rw [← matched] at within trims
    refine ⟨within, ?_, given, fun quiet => ⟨(o.copied env plan).2.plan, ?_, unplanned, fun r is => ?_⟩⟩
    · simp only [Objects.get_set_self]
      rw [trims.toolset, copied_toolset]
      rfl
    · rw [quiet]
      rfl
    · obtain ⟨r', own, later, copy⟩ := planned r is
      have apart : r' ≠ r := Nat.ne_of_gt (Nat.lt_of_lt_of_le (held.2.2 r is) later)
      refine ⟨r', own, apart, ?_⟩
      rw [trims.plan r' own, copy]
      rfl

end evaluation

/-! ## The engine, over values -/

section engine

variable (p : Platform)

/-- The other actions over flags and decisions of texts. -/
def textual : OtherAction (Dict String String) RuleDecision := fun action fd =>
  match PolicyAction.apply p action { flags := fd.1, decision := fd.2 } with
  | .error e => (fd, .error e)
  | .ok ctx => ((ctx.flags, ctx.decision), .ok ())

/-- A rule of the engine, at a stage. -/
def HookRule.working (ruleset : LoadedRuleset) (stage : String) (intent : Intent) (semantic : Dict String Json) (rule : HookRule) :
    WorkingRule (Dict String String) RuleDecision where
  applies flags plan toolset := rule.applies { flags, intent := some intent, plan, semantic, toolset }
  actions := rule.actions
  traced decision := { decision with trace := decision.trace ++ [{
    ruleId := rule.ruleId
    rulesetRef := ruleset.rulesetRef
    version := ruleset.version
    stage
    actions := rule.actions.map PolicyAction.typeOf }] }

variable {p}

/-- The working copies hold the values of the context. -/
structure Holds (refs : WorkingRefs) (s : Evaluating (Dict String String) RuleDecision) (ctx : ActionContext) : Prop where
  flags : s.objects.flags.get refs.flags = ctx.flags
  plan : refs.plan.map s.objects.plans.get = ctx.plan
  toolset : s.objects.toolsets.get refs.toolset = ctx.toolset
  decision : s.decision = ctx.decision

/-- The same end: on the same values, or with the same exception. -/
def Agrees (refs : WorkingRefs) (out : Evaluating (Dict String String) RuleDecision × Except Exn Unit) :
    Except Exn ActionContext → Prop
  | .ok ctx => out.2 = .ok () ∧ Holds refs out.1 ctx
  | .error e => out.2 = .error e

theorem map_of_bind {α β γ : Type} (x : Except Exn α) (f : α → Except Exn β) (g : β → γ) :
    (x >>= f).map g = x >>= fun a => (f a).map g := by
  cases x <;> rfl

/-- The context with the plan and the tools of another. -/
def ActionContext.within (ctx ctx' : ActionContext) : ActionContext := { ctx' with plan := ctx.plan, toolset := ctx.toolset }

theorem requireApproval_within (action : Dict String Json) (ctx : ActionContext) : PolicyAction.requireApproval p action ctx =
    (PolicyAction.requireApproval p action { flags := ctx.flags, decision := ctx.decision }).map ctx.within := by
  unfold PolicyAction.requireApproval
  rw [map_of_bind]
  congr 1
  funext reason
  cases (Dict.get action "roles").filter Json.truthy <;> cases (Dict.get action "parties").filter Json.truthy <;>
  · simp only [map_of_bind]
    rfl

theorem clamp_within (action : Dict String Json) (preset : Option String) (ctx : ActionContext) :
    PolicyAction.clamp p action preset ctx =
      (PolicyAction.clamp p action preset { flags := ctx.flags, decision := ctx.decision }).map ctx.within := by
  unfold PolicyAction.clamp
  cases (Dict.get action "flag").filter Json.truthy <;> cases preset <;>
  · simp only [map_of_bind]
    rfl

/-- An action that strips nothing neither reads nor writes the plan and the tools. -/
theorem apply_within {action : Dict String Json} (tool : PolicyAction.typeOf action ≠ "strip_tool")
    (task : PolicyAction.typeOf action ≠ "strip_task_type") (ctx : ActionContext) : PolicyAction.apply p action ctx =
      (PolicyAction.apply p action { flags := ctx.flags, decision := ctx.decision }).map ctx.within := by
  have named := Evaluating.typeOf_eq action
  unfold PolicyAction.apply
  simp only
  split
  · simp only [map_of_bind]
    rfl
  · simp only [map_of_bind]
    congr 1
    funext value
    congr 1
    funext nudge
    split <;> rfl
  · exact requireApproval_within action ctx
  · simp only [map_of_bind]
    rfl
  · next is =>
      rw [is] at named
      exact absurd named tool
  · next is =>
      rw [is] at named
      exact absurd named task
  · exact clamp_within action none ctx
  · exact clamp_within action (some "discount_percent") ctx
  · rfl

theorem applyAction_agrees {refs : WorkingRefs} {s : Evaluating (Dict String String) RuleDecision} {ctx : ActionContext}
    (holds : Holds refs s ctx) (action : Dict String Json) :
    Agrees refs (s.applyAction (textual p) refs action) (PolicyAction.apply p action ctx) := by
  unfold Evaluating.applyAction
  simp only
  split
  · next is =>
      unfold PolicyAction.apply
      rw [is]
      simp only
      cases subscript action "name" with
      | error e => exact rfl
      | ok name =>
          refine ⟨rfl, holds.flags, holds.plan, ?_, holds.decision⟩
          simp only [Objects.get_set_self, holds.toolset]
          rfl
  · next is =>
      unfold PolicyAction.apply
      rw [is]
      simp only
      have planned := holds.plan
      cases own : refs.plan with
      | none =>
          rw [own] at planned
          rw [← planned]
          exact ⟨rfl, holds⟩
      | some r =>
          rw [own] at planned
          rw [← planned]
          simp only [Option.map_some]
          cases subscript action "task_type" with
          | error e => exact rfl
          | ok taskType =>
              refine ⟨rfl, holds.flags, ?_, holds.toolset, holds.decision⟩
              rw [own]
              simp only [Option.map_some, Objects.get_set_self]
              rfl
  · next tool task =>
      rw [apply_within (Evaluating.typeOf_ne (by decide) tool) (Evaluating.typeOf_ne (by decide) task) ctx]
      unfold textual
      simp only [holds.flags, holds.decision]
      cases PolicyAction.apply p action { flags := ctx.flags, decision := ctx.decision } with
      | error e => exact rfl
      | ok ctx' => exact ⟨rfl, Objects.get_set_self _ _ _, holds.plan, holds.toolset, rfl⟩

theorem applyActions_agrees {refs : WorkingRefs} (actions : List (Dict String Json))
    {s : Evaluating (Dict String String) RuleDecision} {ctx : ActionContext} (holds : Holds refs s ctx) :
    Agrees refs (s.applyActions (textual p) refs actions) (PolicyAction.applyAll p actions ctx) := by
  induction actions generalizing s ctx with
  | nil => exact ⟨rfl, holds⟩
  | cons action actions ih =>
      have first := applyAction_agrees (p := p) holds action
      unfold Evaluating.applyActions PolicyAction.applyAll
      cases done : s.applyAction (textual p) refs action with
      | mk s' ended =>
          rw [done] at first
          cases applied : PolicyAction.apply p action ctx with
          | error e =>
              rw [applied] at first
              obtain rfl : ended = .error e := first
              exact rfl
          | ok ctx' =>
              rw [applied] at first
              obtain ⟨ok, holds'⟩ := first
              obtain rfl : ended = .ok () := ok
              exact ih holds'

theorem visit_agrees {refs : WorkingRefs} {ruleset : LoadedRuleset} {stage : String} {intent : Intent}
    {semantic : Dict String Json} (rule : HookRule) {s : Evaluating (Dict String String) RuleDecision} {ctx : ActionContext}
    (holds : Holds refs s ctx) : Agrees refs (s.visit (textual p) refs (rule.working ruleset stage intent semantic))
      (PolicyHooks.visit p ruleset stage intent semantic rule ctx) := by
  unfold Evaluating.visit PolicyHooks.visit HookRule.working
  simp only [holds.flags, holds.plan, holds.toolset]
  cases rule.applies { flags := ctx.flags, intent := some intent, plan := ctx.plan, semantic, toolset := ctx.toolset } with
  | error e => exact rfl
  | ok applies =>
      cases applies with
      | false => exact ⟨rfl, holds⟩
      | true =>
          have carried := applyActions_agrees (p := p) rule.actions holds
          simp only [bind, Except.bind, if_true]
          cases done : s.applyActions (textual p) refs rule.actions with
          | mk s' ended =>
              rw [done] at carried
              cases applied : PolicyAction.applyAll p rule.actions ctx with
              | error e =>
                  rw [applied] at carried
                  obtain rfl : ended = .error e := carried
                  exact rfl
              | ok ctx' =>
                  rw [applied] at carried
                  obtain ⟨ok, holds'⟩ := carried
                  obtain rfl : ended = .ok () := ok
                  have decided : s'.decision = ctx'.decision := holds'.decision
                  refine ⟨rfl, holds'.flags, holds'.plan, holds'.toolset, ?_⟩
                  simp only [decided]

theorem visitAll_agrees {refs : WorkingRefs} {ruleset : LoadedRuleset} {stage : String} {intent : Intent}
    {semantic : Dict String Json} (rules : List HookRule) {s : Evaluating (Dict String String) RuleDecision} {ctx : ActionContext}
    (holds : Holds refs s ctx) :
    Agrees refs (s.visitAll (textual p) refs (rules.map fun rule => rule.working ruleset stage intent semantic))
      (PolicyHooks.visitAll p ruleset stage intent semantic rules ctx) := by
  induction rules generalizing s ctx with
  | nil => exact ⟨rfl, holds⟩
  | cons rule rules ih =>
      have first := @visit_agrees p _ ruleset stage intent semantic rule _ _ holds
      rw [List.map_cons]
      unfold Evaluating.visitAll PolicyHooks.visitAll
      cases done : s.visit (textual p) refs (rule.working ruleset stage intent semantic) with
      | mk s' ended =>
          rw [done] at first
          cases visited : PolicyHooks.visit p ruleset stage intent semantic rule ctx with
          | error e =>
              rw [visited] at first
              obtain rfl : ended = .error e := first
              exact rfl
          | ok ctx' =>
              rw [visited] at first
              obtain ⟨ok, holds'⟩ := first
              obtain rfl : ended = .ok () := ok
              exact ih holds'

/-- Over the copies the engine comes to the flags, the plan, the tools and the decision that `judge` comes to. -/
theorem judged_agrees (hooks : PolicyHooks) (ruleset : LoadedRuleset) (hook : PolicyHook) (env : ContextEnvelope)
    (intent : Intent) {o : PolicyObjects (Dict String String)} {refs : EnvelopeRefs} {plan : Option Nat}
    (flags : o.flags.get refs.policyFlags = Dict.update [] env.policyFlags)
    (toolset : o.toolsets.get refs.toolset = env.toolset) :
    Agrees (o.copied refs plan).2
      (o.judged (textual p) ((hooks.rules p ruleset hook).map fun rule => rule.working ruleset hook.stage intent env.semanticModel)
        {} refs plan)
      (hooks.judge p ruleset hook env intent (plan.map o.plans.get)) := by
  apply visitAll_agrees
  refine ⟨?_, ?_, ?_, rfl⟩
  · rw [← flags]
    unfold PolicyObjects.copied
    cases plan <;> exact Objects.get_alloc _ _
  · cases plan with
    | none => rfl
    | some r => exact congrArg some (Objects.get_alloc _ _)
  · rw [← toolset, copied_toolset]

end engine

namespace Sample

/-- One object of each kind: two tools, and a plan with two tasks. -/
def twoTools : PolicyObjects Unit where
  flags := { next := 1, get := fun _ => () }
  toolsets := { next := 1, get := fun _ => [{ name := "search" }, { name := "mail" }] }
  plans := { next := 1, get := fun _ => { taskTypes := ["order", "quote"] } }

/-- A rule that strips a tool and a task type. -/
def stripping : WorkingRule Unit Unit where
  applies _ _ _ := .ok true
  actions := [[("type", .str "strip_tool"), ("name", .str "mail")],
    [("type", .str "strip_task_type"), ("task_type", .str "quote")]]
  traced d := d

end Sample

open Sample in
/-- Mail is stripped from the tools. -/
theorem evaluation_atomic_mail :
    ((twoTools.evaluate (fun _ fd => (fd, .ok ())) [stripping] (fun _ => .ok ()) () ⟨0, 0⟩ (some 0)).1.toolsets.get 0) =
      keptTools stripping.actions [{ name := "search" }, { name := "mail" }] := by
  have held : (⟨0, 0⟩ : EnvelopeRefs).policyFlags < twoTools.flags.next ∧ (⟨0, 0⟩ : EnvelopeRefs).toolset < twoTools.toolsets.next ∧
      ∀ r, some 0 = some r → r < twoTools.plans.next := by
    refine ⟨by decide, by decide, fun r is => ?_⟩
    cases is
    decide
  have atomic := evaluation_atomic (fun _ fd => (fd, .ok ())) [stripping] (fun _ => .ok ()) () twoTools ⟨0, 0⟩ (some 0) held rfl rfl
  exact (atomic.2 rfl).2.1

end Maof
