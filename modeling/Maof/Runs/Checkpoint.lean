import Maof.Errors

/-!
# Checkpoints

The JSON a stage context is saved as, and the context rebuilt from it. The live
handles and the principal are not in it.
-/

namespace Maof

open Data (Dict)

namespace Checkpoint

/-! ## Reading JSON back -/

def str? : Json → Option String
  | .str s => some s
  | _ => none

def bool? : Json → Option Bool
  | .bool b => some b
  | _ => none

def int? : Json → Option Int
  | .int n => some n
  | _ => none

def obj? : Json → Option (Dict String Json)
  | .obj fields => some fields
  | _ => none

def list? {α : Type} (item : Json → Option α) : Json → Option (List α)
  | .arr xs => xs.mapM item
  | _ => none

def dict? {α : Type} (value : Json → Option α) : Json → Option (Dict String α)
  | .obj fields => fields.mapM fun kv => (value kv.2).map fun v => (kv.1, v)
  | _ => none

/-- `None`, or a value. -/
def nullable? {α : Type} (value : Json → Option α) : Json → Option (Option α)
  | .null => some none
  | x => (value x).map some

/-- A member that must be there. -/
def need {α : Type} (fields : Dict String Json) (key : String) (value : Json → Option α) : Option α :=
  (Dict.get fields key).bind value

/-- Go on with a member that is there. -/
theorem need_bind {α β : Type} {fields : Dict String Json} {key : String} {value : Json → Option α} {j : Json}
    {a : α} {k : α → Option β} {b : β} (found : Dict.get fields key = some j) (read : value j = some a)
    (rest : k a = some b) : (need fields key value >>= k) = some b := by
  rw [need, found, Option.bind_some, read, Option.bind_eq_bind, Option.bind_some, rest]

/-- A member that may be missing. -/
def may {α : Type} (fields : Dict String Json) (key : String) (value : Json → Option α) :
    Option (Option α) :=
  match Dict.get fields key with
  | none => some none
  | some x => (value x).map some

def dictJson {α : Type} (value : α → Json) (d : Dict String α) : Json :=
  .obj (d.map fun kv => (kv.1, value kv.2))

theorem mapM_map {α β : Type} (f : α → β) (g : β → Option α) (xs : List α)
    (back : ∀ x, g (f x) = some x) : (xs.map f).mapM g = some xs := by
  induction xs with
  | nil => rfl
  | cons x xs ih => simp [back, ih]

theorem list?_map {α : Type} {f : α → Json} {g : Json → Option α} (xs : List α)
    (back : ∀ x, g (f x) = some x) : list? g (.arr (xs.map f)) = some xs :=
  mapM_map f g xs back

theorem dict?_dictJson {α : Type} {f : α → Json} {g : Json → Option α} (d : Dict String α)
    (back : ∀ x, g (f x) = some x) : dict? g (dictJson f d) = some d :=
  mapM_map (fun kv : String × α => (kv.1, f kv.2)) _ d fun kv => by simp [back]

@[simp] theorem dict?_str (d : Dict String String) : dict? str? (dictJson .str d) = some d :=
  dict?_dictJson d fun _ => rfl

@[simp] theorem dict?_obj (d : Dict String (Dict String Json)) :
    dict? obj? (dictJson .obj d) = some d :=
  dict?_dictJson d fun _ => rfl

@[simp] theorem strs?_strs (xs : List String) : list? str? (.strs xs) = some xs :=
  list?_map xs fun _ => rfl

theorem nullable?_map {α : Type} {value : α → Json} {read : Json → Option α} (a : Option α)
    (back : ∀ v, read (value v) = some v) (shape : ∀ v, value v ≠ .null) :
    nullable? read ((a.map value).getD .null) = some a := by
  cases a with
  | none => rfl
  | some v =>
      have proper := shape v
      have found := back v
      simp only [Option.map_some, Option.getD_some]
      generalize value v = j at proper found
      cases j with
      | null => exact absurd rfl proper
      | _ => simp [nullable?, found]

@[simp] theorem nullable?_ofStr? (s : Option String) : nullable? str? (.ofStr? s) = some s := by
  cases s <;> rfl

/-! ## The parts of a context -/

def tenantJson (t : TenantContext) : Json :=
  .obj [("tenant_id", .str t.tenantId), ("multi_tenant", .bool t.multiTenant),
    ("attributes", dictJson .str t.attributes)]

def tenant? (j : Json) : Option TenantContext := do
  let f ← obj? j
  return {
    tenantId := ← need f "tenant_id" str?
    multiTenant := ← need f "multi_tenant" bool?
    attributes := ← need f "attributes" (dict? str?) }

@[simp] theorem tenant?_tenantJson (t : TenantContext) : tenant? (tenantJson t) = some t := by
  simp [tenant?, tenantJson, obj?, need, Dict.get, str?, bool?]

def intent? (j : Json) : Option Intent := do
  let f ← obj? j
  return {
    intentId := ← need f "intent_id" str?
    goal := ← need f "goal" str?
    summary := ← need f "summary" str?
    taskTypes := ← need f "task_types" (list? str?)
    details := ← need f "details" obj? }

@[simp] theorem intent?_dump (i : Intent) : intent? (.obj i.dump) = some i := by
  simp [intent?, Intent.dump, obj?, need, Dict.get, str?]

def toolJson (t : ToolRef) : Json :=
  .obj [("name", .str t.name), ("version", .str t.version), ("scope", .str t.scope),
    ("rbac", .ofStr? t.rbac), ("params", .obj t.params)]

def tool? (j : Json) : Option ToolRef := do
  let f ← obj? j
  return {
    name := ← need f "name" str?
    version := ← need f "version" str?
    scope := ← need f "scope" str?
    rbac := ← need f "rbac" (nullable? str?)
    params := ← need f "params" obj? }

@[simp] theorem tool?_toolJson (t : ToolRef) : tool? (toolJson t) = some t := by
  simp [tool?, toolJson, obj?, need, Dict.get, str?]

def pointerJson (p : DataPointer) : Json :=
  .obj [("alias", .str p.aliasName), ("uri", .str p.uri), ("note", .str p.note)]

def pointer? (j : Json) : Option DataPointer := do
  let f ← obj? j
  return {
    aliasName := ← need f "alias" str?
    uri := ← need f "uri" str?
    note := ← need f "note" str? }

@[simp] theorem pointer?_pointerJson (p : DataPointer) : pointer? (pointerJson p) = some p := by
  simp [pointer?, pointerJson, obj?, need, Dict.get, str?]

def snippetJson (m : MemorySnippet) : Json :=
  .obj [("kind", .str m.kind), ("content", .str m.content), ("prov", .str m.prov), ("score", .float m.score),
    ("embedding", (m.embedding.map fun xs => .arr (xs.map .float)).getD .null)]

/-- A float, or an integer taken as one. -/
def float? : Json → Option PyFloat
  | .float x => some x
  | .int n => some (.ofInt n)
  | _ => none

def snippet? (j : Json) : Option MemorySnippet := do
  let f ← obj? j
  return {
    kind := ← need f "kind" str?
    content := ← need f "content" str?
    prov := ← need f "prov" str?
    score := ← need f "score" float?
    embedding := ← need f "embedding" (nullable? (list? float?)) }

@[simp] theorem snippet?_snippetJson (m : MemorySnippet) : snippet? (snippetJson m) = some m := by
  have vector : nullable? (list? float?) ((m.embedding.map fun xs => .arr (xs.map .float)).getD .null) = some m.embedding :=
    nullable?_map m.embedding (fun xs => list?_map xs fun _ => rfl) fun _ => by simp
  unfold snippet? snippetJson
  rw [obj?, Option.bind_eq_bind, Option.bind_some]
  refine need_bind rfl rfl (need_bind rfl rfl (need_bind rfl rfl ?_))
  exact need_bind rfl rfl (need_bind rfl vector rfl)

def envelopeJson (e : ContextEnvelope) : Json :=
  .obj [("version", .str e.version), ("run_id", .str e.runId), ("tenant_id", .str e.tenantId),
    ("intent_id", .ofStr? e.intentId), ("stage", .str e.stage.value), ("timestamp", .str e.timestamp), ("goal", .str e.goal),
    ("policy_flags", dictJson .str e.policyFlags), ("semantic_model", .obj e.semanticModel),
    ("toolset", .arr (e.toolset.map toolJson)),
    ("data_pointers", .arr (e.dataPointers.map pointerJson)), ("memories", .arr (e.memories.map snippetJson)),
    ("constraints_ref", .ofStr? e.constraintsRef), ("dialogue", .strs e.dialogue),
    ("extras", .obj e.extras)]

def stage? (j : Json) : Option Stage := (str? j).bind Stage.ofValue?

@[simp] theorem stage?_value (s : Stage) : stage? (.str s.value) = some s := by
  simp [stage?, str?, Stage.ofValue?_value]

def envelope? (j : Json) : Option ContextEnvelope := do
  let f ← obj? j
  return {
    version := ← need f "version" str?
    runId := ← need f "run_id" str?
    tenantId := ← need f "tenant_id" str?
    intentId := ← need f "intent_id" (nullable? str?)
    stage := ← need f "stage" stage?
    timestamp := ← need f "timestamp" str?
    goal := ← need f "goal" str?
    policyFlags := ← need f "policy_flags" (dict? str?)
    semanticModel := ← need f "semantic_model" obj?
    toolset := ← need f "toolset" (list? tool?)
    dataPointers := ← need f "data_pointers" (list? pointer?)
    memories := ← need f "memories" (list? snippet?)
    constraintsRef := ← need f "constraints_ref" (nullable? str?)
    dialogue := ← need f "dialogue" (list? str?)
    extras := ← need f "extras" obj? }

@[simp] theorem envelope?_envelopeJson (e : ContextEnvelope) :
    envelope? (envelopeJson e) = some e := by
  have tools : list? tool? (.arr (e.toolset.map toolJson)) = some e.toolset := list?_map _ tool?_toolJson
  have pointers : list? pointer? (.arr (e.dataPointers.map pointerJson)) = some e.dataPointers :=
    list?_map _ pointer?_pointerJson
  have snippets : list? snippet? (.arr (e.memories.map snippetJson)) = some e.memories := list?_map _ snippet?_snippetJson
  unfold envelope? envelopeJson
  rw [obj?, Option.bind_eq_bind, Option.bind_some]
  refine need_bind rfl rfl (need_bind rfl rfl (need_bind rfl rfl ?_))
  refine need_bind rfl (nullable?_ofStr? e.intentId) (need_bind rfl (stage?_value e.stage) (need_bind rfl rfl ?_))
  refine need_bind rfl rfl (need_bind rfl (dict?_str e.policyFlags) (need_bind rfl rfl (need_bind rfl tools ?_)))
  refine need_bind rfl pointers (need_bind rfl snippets (need_bind rfl (nullable?_ofStr? e.constraintsRef) ?_))
  exact need_bind rfl (strs?_strs e.dialogue) (need_bind rfl rfl rfl)

def task? (j : Json) : Option Task := do
  let f ← obj? j
  return {
    taskId := ← need f "task_id" str?
    taskType := ← need f "task_type" str?
    priority := ← need f "priority" int?
    description := ← need f "description" str?
    intentId := ← need f "intent_id" (nullable? str?)
    policyNotes := ← need f "policy_notes" (list? str?)
    idempotencyKey := ← need f "idempotency_key" str?
    stepRef := ← need f "step_ref" (nullable? str?)
    replyTo := ← need f "reply_to" (nullable? str?)
    payload := ← need f "payload" obj? }

@[simp] theorem task?_dump (t : Task) : task? (.obj t.dump) = some t := by
  simp [task?, Task.dump, obj?, need, Dict.get, str?, int?]

def plan? (j : Json) : Option Plan := do
  let f ← obj? j
  return {
    tasks := ← need f "tasks" (list? task?)
    taskTypes := ← need f "task_types" (list? str?)
    notes := ← need f "notes" (list? str?) }

@[simp] theorem plan?_dump (p : Plan) : plan? (.obj p.dump) = some p := by
  have tasks : list? task? (.arr (p.tasks.map fun t => .obj t.dump)) = some p.tasks :=
    list?_map p.tasks task?_dump
  simp [plan?, Plan.dump, obj?, need, Dict.get, tasks]

def decisionJson (d : DecisionTrace) : Json :=
  .obj [("rule_id", .str d.ruleId), ("ruleset_ref", .str d.rulesetRef), ("version", .int d.version),
    ("stage", .str d.stage), ("actions", .strs d.actions), ("matched", .bool d.matched),
    ("detail", .str d.detail)]

def decision? (j : Json) : Option DecisionTrace := do
  let f ← obj? j
  return {
    ruleId := ← need f "rule_id" str?
    rulesetRef := ← need f "ruleset_ref" str?
    version := ← need f "version" int?
    stage := ← need f "stage" str?
    actions := ← need f "actions" (list? str?)
    matched := ← need f "matched" bool?
    detail := ← need f "detail" str? }

@[simp] theorem decision?_decisionJson (d : DecisionTrace) : decision? (decisionJson d) = some d := by
  simp [decision?, decisionJson, obj?, need, Dict.get, str?, int?, bool?]

def workflowJson (s : WorkflowState) : Json :=
  .obj [("dispatched", .strs s.dispatched), ("approved", .strs s.approved),
    ("outputs", dictJson .obj s.outputs), ("gates_waited", .strs s.gatesWaited)]

def workflow? (j : Json) : Option WorkflowState := do
  let f ← obj? j
  return {
    dispatched := ← need f "dispatched" (list? str?)
    approved := ← need f "approved" (list? str?)
    outputs := ← need f "outputs" (dict? obj?)
    gatesWaited := ← need f "gates_waited" (list? str?) }

@[simp] theorem workflow?_workflowJson (s : WorkflowState) : workflow? (workflowJson s) = some s := by
  simp [workflow?, workflowJson, obj?, need, Dict.get]

def policyJson (p : PolicyRecord) : Json :=
  .obj [("denied", .bool p.denied), ("denial_reason", .str p.denialReason),
    ("require_approval", .bool p.requireApproval), ("approval_reason", .str p.approvalReason),
    ("approval_roles", .strs p.approvalRoles), ("approval_parties", .int p.approvalParties),
    ("nudges", .strs p.nudges)]

def policy? (j : Json) : Option PolicyRecord := do
  let f ← obj? j
  return {
    denied := ← need f "denied" bool?
    denialReason := ← need f "denial_reason" str?
    requireApproval := ← need f "require_approval" bool?
    approvalReason := ← need f "approval_reason" str?
    approvalRoles := ← need f "approval_roles" (list? str?)
    approvalParties := ← need f "approval_parties" int?
    nudges := ← need f "nudges" (list? str?) }

@[simp] theorem policy?_policyJson (p : PolicyRecord) : policy? (policyJson p) = some p := by
  simp [policy?, policyJson, obj?, need, Dict.get, str?, int?, bool?]

/-! ## Extras -/

/-- An entry that is there only when it was set. -/
def entry {α : Type} (key : String) (value : α → Json) : Option α → Dict String Json
  | none => []
  | some a => [(key, value a)]

def extrasJson (x : Extras) : Dict String Json :=
  entry "completed_stages" .strs x.completedStages ++ entry "workflow" workflowJson x.workflow ++
    entry "workflow_context" .obj x.workflowContext ++
    entry "workflow_completed" .strs x.workflowCompleted ++ entry "published" .strs x.published ++
    entry "policy" policyJson x.policy ++ x.other

/-- What is left of a dictionary without the orchestrator's own entries. -/
def adopters (f : Dict String Json) : Dict String Json := f.filter fun kv => kv.1 ∉ reservedExtras

theorem adopters_free (f : Dict String Json) : ∀ k ∈ Dict.keys (adopters f), k ∉ reservedExtras := by
  intro k hk
  obtain ⟨kv, member, rfl⟩ := List.mem_map.mp hk
  simpa using (List.mem_filter.mp member).2

def extras? (f : Dict String Json) : Option Extras := do
  return {
    completedStages := ← may f "completed_stages" (list? str?)
    workflow := ← may f "workflow" workflow?
    workflowContext := ← may f "workflow_context" obj?
    workflowCompleted := ← may f "workflow_completed" (list? str?)
    published := ← may f "published" (list? str?)
    policy := ← may f "policy" policy?
    other := adopters f
    free := adopters_free f }

theorem get_entry {α : Type} (key k : String) (value : α → Json) (a : Option α) :
    Dict.get (entry key value a) k = if key = k then a.map value else none := by
  cases a <;> simp [entry, Dict.get]

theorem get_other (x : Extras) {k : String} (reserved : k ∈ reservedExtras) :
    Dict.get x.other k = none := by
  have absent : k ∉ Dict.keys x.other := fun member => x.free k member reserved
  simpa [Dict.mem_keys_iff] using absent

theorem adopters_extrasJson (x : Extras) : adopters (extrasJson x) = x.other := by
  have own : ∀ {α : Type} (key : String) (value : α → Json) (a : Option α), key ∈ reservedExtras →
      adopters (entry key value a) = [] := by
    intro α key value a reserved
    cases a with
    | none => rfl
    | some v => simp [adopters, entry, reserved]
  have kept : adopters x.other = x.other :=
    List.filter_eq_self.mpr fun kv member =>
      by simpa using x.free kv.1 (List.mem_map.mpr ⟨kv, member, rfl⟩)
  have split : ∀ d e : Dict String Json, adopters (d ++ e) = adopters d ++ adopters e :=
    fun d e => List.filter_append d e
  have mine : "completed_stages" ∈ reservedExtras ∧ "workflow" ∈ reservedExtras ∧
      "workflow_context" ∈ reservedExtras ∧ "workflow_completed" ∈ reservedExtras ∧
      "published" ∈ reservedExtras ∧ "policy" ∈ reservedExtras := by decide
  obtain ⟨h₁, h₂, h₃, h₄, h₅, h₆⟩ := mine
  simp only [extrasJson, split, own _ _ _ h₁, own _ _ _ h₂, own _ _ _ h₃, own _ _ _ h₄,
    own _ _ _ h₅, own _ _ _ h₆, kept, List.nil_append]

theorem may_extrasJson {α : Type} {x : Extras} {key : String} (value : α → Json)
    {read : Json → Option α} {a : Option α} (at_ : Dict.get (extrasJson x) key = a.map value)
    (back : ∀ v, read (value v) = some v) : may (extrasJson x) key read = some a := by
  unfold may
  rw [at_]
  cases a with
  | none => rfl
  | some v => simp [back]

/-- An entry of the orchestrator's is found under its own name only. -/
theorem get_extrasJson (x : Extras) {k : String} (reserved : k ∈ reservedExtras) :
    Dict.get (extrasJson x) k =
      (((((if "completed_stages" = k then x.completedStages.map .strs else none).or
        (if "workflow" = k then x.workflow.map workflowJson else none)).or
        (if "workflow_context" = k then x.workflowContext.map .obj else none)).or
        (if "workflow_completed" = k then x.workflowCompleted.map .strs else none)).or
        (if "published" = k then x.published.map .strs else none)).or
        (if "policy" = k then x.policy.map policyJson else none) := by
  simp only [extrasJson, Dict.get_append, get_entry, get_other x reserved, Option.orElse_eq_or,
    Option.or_none]

theorem extras?_extrasJson (x : Extras) : extras? (extrasJson x) = some x := by
  have completed : may (extrasJson x) "completed_stages" (list? str?) = some x.completedStages :=
    may_extrasJson .strs (by rw [get_extrasJson x (by decide)]; simp) strs?_strs
  have workflow : may (extrasJson x) "workflow" workflow? = some x.workflow :=
    may_extrasJson workflowJson (by rw [get_extrasJson x (by decide)]; simp) workflow?_workflowJson
  have context : may (extrasJson x) "workflow_context" obj? = some x.workflowContext :=
    may_extrasJson .obj (by rw [get_extrasJson x (by decide)]; simp) fun _ => rfl
  have done : may (extrasJson x) "workflow_completed" (list? str?) = some x.workflowCompleted :=
    may_extrasJson .strs (by rw [get_extrasJson x (by decide)]; simp) strs?_strs
  have published : may (extrasJson x) "published" (list? str?) = some x.published :=
    may_extrasJson .strs (by rw [get_extrasJson x (by decide)]; simp) strs?_strs
  have policy : may (extrasJson x) "policy" policy? = some x.policy :=
    may_extrasJson policyJson (by rw [get_extrasJson x (by decide)]; simp) policy?_policyJson
  simp [extras?, completed, workflow, context, done, published, policy, adopters_extrasJson]

end Checkpoint

open Checkpoint

def checkpointSerialize (sc : StageContext) : Json :=
  .obj [("run_id", .str sc.info.runId), ("tenant", tenantJson sc.info.tenant),
    ("goal", .str sc.info.goal), ("stage", .str sc.work.stage.value),
    ("dialogue", .strs sc.work.dialogue),
    ("intent", (sc.work.intent.map fun i => .obj i.dump).getD .null),
    ("envelope", (sc.work.envelope.map envelopeJson).getD .null),
    ("plan", (sc.work.plan.map fun p => .obj p.dump).getD .null),
    ("policy_decisions", .arr (sc.work.policyDecisions.map decisionJson)),
    ("mode", .str sc.work.mode), ("region", .str sc.work.region),
    ("trace_ref", .ofStr? sc.work.traceRef), ("extras", .obj (extrasJson sc.work.extras))]

def info? (f : Dict String Json) : Option RunInfo := do
  return {
    runId := ← need f "run_id" str?
    tenant := ← need f "tenant" tenant?
    goal := ← need f "goal" str? }

def work? (f : Dict String Json) : Option Work := do
  return {
    stage := ← need f "stage" stage?
    dialogue := ← need f "dialogue" (list? str?)
    intent := ← need f "intent" (nullable? intent?)
    envelope := ← need f "envelope" (nullable? envelope?)
    plan := ← need f "plan" (nullable? plan?)
    policyDecisions := ← need f "policy_decisions" (list? decision?)
    mode := ← need f "mode" str?
    region := ← need f "region" str?
    traceRef := (← may f "trace_ref" (nullable? str?)).join
    extras := (← may f "extras" fun j => (obj? j).bind extras?).getD .none }

def context? (j : Json) : Option StageContext := do
  let f ← obj? j
  return { info := ← info? f, work := ← work? f }

/-- `checkpoint_deserialize`; a blob of another shape makes a constructor raise. -/
def checkpointDeserialize (blob : Json) : Except Exn StageContext :=
  match context? blob with
  | some sc => .ok sc
  | none => .error (.valueError "malformed checkpoint")

/-- What a resumed drive starts from: everything that was saved, and no principal. -/
theorem deserialize_serialize (sc : StageContext) :
    checkpointDeserialize (checkpointSerialize sc) =
      .ok { info := { sc.info with principal := none }, work := sc.work } := by
  have intent := nullable?_map sc.work.intent intent?_dump fun _ => by simp
  have envelope := nullable?_map sc.work.envelope envelope?_envelopeJson fun _ => by
    simp [envelopeJson]
  have plan := nullable?_map sc.work.plan plan?_dump fun _ => by simp
  have decisions := list?_map sc.work.policyDecisions decision?_decisionJson
  have read : context? (checkpointSerialize sc) =
      some { info := { sc.info with principal := none }, work := sc.work } := by
    simp [context?, info?, work?, checkpointSerialize, obj?, need, may, Dict.get, str?, intent, envelope, plan,
      decisions, extras?_extrasJson]
  simp only [checkpointDeserialize, read]

/-- No blob resumes with a principal. -/
theorem checkpointDeserialize_principal {blob : Json} {sc : StageContext}
    (h : checkpointDeserialize blob = .ok sc) : sc.info.principal = none := by
  unfold checkpointDeserialize at h
  split at h
  · next sc' read =>
      cases h
      obtain ⟨f, _, read⟩ := Option.bind_eq_some_iff.mp read
      obtain ⟨info, found, read⟩ := Option.bind_eq_some_iff.mp read
      obtain ⟨work, _, same⟩ := Option.bind_eq_some_iff.mp read
      cases same
      obtain ⟨runId, _, found⟩ := Option.bind_eq_some_iff.mp found
      obtain ⟨tenant, _, found⟩ := Option.bind_eq_some_iff.mp found
      obtain ⟨goal, _, same⟩ := Option.bind_eq_some_iff.mp found
      cases same
      rfl
  · cases h

end Maof
