import Maof.Authz
import Maof.Data.JsonUnique
import Maof.Workers.Consultation

/-!
# Tools on the worker's side of the wire

The orchestrator resolves scopes of a principal and its tenant; the worker
resolves them from what the message carries. The attributes of the tenant are not
on the wire, so what is held through them alone is not held by the worker.
-/

namespace Maof

open Data (Dict)
open Effects (Act)
open JsonText (Canon normal)

def ToolRef.dump (t : ToolRef) : Json :=
  .obj [("name", .str t.name), ("version", .str t.version), ("scope", .str t.scope), ("rbac", .ofStr? t.rbac),
    ("params", .obj t.params)]

def TaskEnvelope.dump (e : TaskEnvelope) (timestamp : String) : Json :=
  .obj [("run_id", .str e.runId), ("tenant_id", .str e.tenantId), ("intent_id", .ofStr? e.intentId),
    ("stage", .str e.stage.value), ("ruleset_ref", .ofStr? e.rulesetRef),
    ("ruleset_version", (e.rulesetVersion.map Json.int).getD .null), ("schema_id", .ofStr? e.schemaId),
    ("mode", .str e.mode), ("region", .str e.region), ("actor", e.actor.getD .null), ("timestamp", .str timestamp)]

/-- The dictionary of a task message, with the times it was stamped at. -/
def TaskMessage.dump (m : TaskMessage) (stamped timestamp : String) : Json :=
  .obj [("envelope", m.envelope.dump stamped), ("task", .obj m.task.dump),
    ("policy_flags", .obj (m.policyFlags.map fun kv => (kv.1, .str kv.2))),
    ("toolset", .arr (m.toolset.map ToolRef.dump)),
    ("data_pointers", .obj (m.dataPointers.map fun kv => (kv.1, .str kv.2))),
    ("semantic_model", .obj m.semanticModel), ("timestamp", .str timestamp)]

/-- A tool with its parameters as the wire keeps them. -/
def ToolRef.kept (t : ToolRef) : ToolRef × Canon := ({ t with params := [] }, normal (.obj t.params))

/-- The two envelopes agree, the actors in what the wire keeps of them. -/
def TaskEnvelope.Agrees (e e' : TaskEnvelope) : Prop :=
  { e' with actor := none } = { e with actor := none } ∧ e'.actor.map normal = e.actor.map normal

/-- `json.loads` and the models read back what `json.dumps` made of a task message. -/
structure Reader.ReadsBack (r : Reader) (m : TaskMessage) (stamped timestamp : String) : Prop where
  loads : ∃ j, r.loads (serializeMessage (m.dump stamped timestamp)) = .ok j ∧
    normal j = normal (m.dump stamped timestamp)
  envelope : ∀ j, normal j = normal (m.envelope.dump stamped) →
    ∃ e, r.envelope j = .ok e ∧ m.envelope.Agrees e
  toolRef : ∀ t ∈ m.toolset, ∀ j, normal j = normal t.dump → ∃ t', r.toolRef j = .ok t' ∧ t'.kept = t.kept

namespace WorkerPool

/-- The context an agent is given for a message. -/
def agentContext (r : Reader) (body : String) : Except Exn L2Context := do
  let message ← r.loads body
  let (_, ctx) ← reconstructL2Context r message
  stripTools ctx

/-- A call of an agent, with this context. -/
def Gives (ctx : L2Context) : PoolOp → Prop
  | .handle _ _ given => given = ctx
  | _ => True

end WorkerPool

/-- The scope check of a tool, by the scopes the orchestrator resolves. -/
def ToolRef.grantedTo (info : RunInfo) (t : ToolRef) : Bool :=
  t.rbac.all fun scope => scope ∈ heldScopes info.principal (some info.tenant)

/-- What a tool of the toolset asks for and the tenant grants, the principal holds itself. -/
def OwnScopes (info : RunInfo) (toolset : List ToolRef) : Prop :=
  ∀ t ∈ toolset, ∀ scope, t.rbac = some scope → scope ∈ tenantScopes info.tenant →
    scope ∈ (info.principal.map Principal.scopes).getD []

/-! ## Filters of lists that agree in what the wire keeps -/

theorem filter_kept {α β : Type} {kept : α → β} {f : α → Bool} (reads : ∀ x y, kept x = kept y → f x = f y)
    {xs ys : List α} (same : xs.map kept = ys.map kept) : (xs.filter f).map kept = (ys.filter f).map kept := by
  induction xs generalizing ys with
  | nil =>
      cases ys with
      | nil => rfl
      | cons y ys => cases same
  | cons x xs ih =>
      cases ys with
      | nil => cases same
      | cons y ys =>
          obtain ⟨head, tail⟩ := List.cons.inj same
          have alike := reads x y head
          cases here : f x with
          | true =>
              rw [List.filter_cons_of_pos here, List.filter_cons_of_pos (alike ▸ here), List.map_cons, List.map_cons,
                head, ih tail]
          | false =>
              have out : ¬ f x = true := by simp [here]
              rw [List.filter_cons_of_neg out, List.filter_cons_of_neg (alike ▸ out), ih tail]

theorem filter_eq_iff {α β : Type} (kept : α → β) {f g : α → Bool} (weaker : ∀ x, f x = true → g x = true)
    (xs : List α) : (xs.filter f).map kept = (xs.filter g).map kept ↔ ∀ x ∈ xs, g x = true → f x = true := by
  constructor
  · intro same x member granted
    have lengths : (xs.filter f).length = (xs.filter g).length := by
      have counted := congrArg List.length same
      rwa [List.length_map, List.length_map] at counted
    have sub : (xs.filter f).Sublist (xs.filter g) := List.monotone_filter_right xs weaker
    have whole := sub.eq_of_length lengths
    have inside : x ∈ xs.filter f := whole ▸ List.mem_filter.mpr ⟨member, granted⟩
    exact (List.mem_filter.mp inside).2
  · intro every
    rw [List.filter_congr fun x member => Bool.eq_iff_iff.mpr ⟨weaker x, every x member⟩]

/-! ## What the worker reads -/

section reading

variable {r : Reader} {m : TaskMessage} {stamped timestamp : String}

/-- The members of a value whose text is that of the message are those of the message. -/
theorem message_members {j : Json} (same : normal j = normal (m.dump stamped timestamp)) :
    ∃ fields, j = .obj fields ∧
      (Dict.get fields "envelope").map normal = some (normal (m.envelope.dump stamped)) ∧
      (Dict.get fields "task").map normal = some (normal (.obj m.task.dump)) ∧
      (Dict.get fields "policy_flags").map normal =
        some (normal (.obj (m.policyFlags.map fun kv => (kv.1, .str kv.2)))) ∧
      (Dict.get fields "toolset").map normal = some (normal (.arr (m.toolset.map ToolRef.dump))) ∧
      (Dict.get fields "data_pointers").map normal =
        some (normal (.obj (m.dataPointers.map fun kv => (kv.1, .str kv.2)))) ∧
      (Dict.get fields "semantic_model").map normal = some (normal (.obj m.semanticModel)) := by
  unfold TaskMessage.dump at same
  obtain ⟨fields, rfl⟩ := JsonText.obj_of_normal same
  have read := JsonText.get_of_normal (by simp [Dict.keys]) same
  refine ⟨fields, rfl, ?_, ?_, ?_, ?_, ?_, ?_⟩
  all_goals
    rw [read]
    rfl

theorem tools_read {tools : List ToolRef} {values : List Json} (shapes : values.map normal = (tools.map ToolRef.dump).map normal)
    (reads : ∀ t ∈ tools, ∀ j, normal j = normal t.dump → ∃ t', r.toolRef j = .ok t' ∧ t'.kept = t.kept) :
    ∃ toolset, values.mapM r.toolRef = .ok toolset ∧ toolset.map ToolRef.kept = tools.map ToolRef.kept := by
  induction tools generalizing values with
  | nil =>
      cases values with
      | nil => exact ⟨[], rfl, rfl⟩
      | cons value values => cases shapes
  | cons t tools ih =>
      cases values with
      | nil => cases shapes
      | cons value values =>
          obtain ⟨head, tail⟩ := List.cons.inj shapes
          obtain ⟨t', first, kept⟩ := reads t List.mem_cons_self value head
          obtain ⟨toolset, rest, alike⟩ := ih tail fun u member => reads u (List.mem_cons_of_mem _ member)
          refine ⟨t' :: toolset, ?_, by rw [List.map_cons, List.map_cons, kept, alike]⟩
          rw [List.mapM_cons, first, rest]
          rfl

theorem reconstructs (reads : r.ReadsBack m stamped timestamp) :
    ∃ message task ctx, r.loads (serializeMessage (m.dump stamped timestamp)) = .ok message ∧
      reconstructL2Context r message = .ok (.obj task, ctx) ∧ m.envelope.Agrees ctx.envelope ∧
      ctx.tenant = { tenantId := ctx.envelope.tenantId } ∧ ctx.toolset.map ToolRef.kept = m.toolset.map ToolRef.kept ∧
      normal (.obj task) = normal (.obj m.task.dump) := by
  obtain ⟨message, loaded, same⟩ := reads.loads
  obtain ⟨fields, rfl, envelope, task, flags, toolset, pointers, model⟩ := message_members same
  obtain ⟨envData, hasEnvelope, envelope⟩ := Option.map_eq_some_iff.mp envelope
  obtain ⟨taskBody, hasTask, task⟩ := Option.map_eq_some_iff.mp task
  obtain ⟨flagData, hasFlags, flags⟩ := Option.map_eq_some_iff.mp flags
  obtain ⟨toolData, hasTools, toolset⟩ := Option.map_eq_some_iff.mp toolset
  obtain ⟨pointerData, hasPointers, pointers⟩ := Option.map_eq_some_iff.mp pointers
  obtain ⟨modelData, hasModel, model⟩ := Option.map_eq_some_iff.mp model
  obtain ⟨taskFields, rfl⟩ := JsonText.obj_of_normal task
  obtain ⟨flagFields, rfl⟩ := JsonText.obj_of_normal flags
  obtain ⟨pointerFields, rfl⟩ := JsonText.obj_of_normal pointers
  obtain ⟨modelFields, rfl⟩ := JsonText.obj_of_normal model
  obtain ⟨values, rfl, shapes⟩ := JsonText.arr_of_normal toolset
  obtain ⟨e, validated, agrees⟩ := reads.envelope envData envelope
  obtain ⟨tools, each, kept⟩ := tools_read shapes reads.toolRef
  refine ⟨.obj fields, taskFields, {
    envelope := e
    tenant := { tenantId := e.tenantId }
    dataPointers := pointerFields
    policyFlags := flagFields
    toolset := tools
    semanticModel := modelFields }, loaded, ?_, agrees, rfl, kept, task⟩
  simp only [reconstructL2Context, Json.subscript, Json.get?, hasEnvelope, hasTask, hasFlags, hasTools, hasPointers,
    hasModel, Option.getD_some, Reader.asDict, Json.items, validated, each, bind, Except.bind, pure, Except.pure]

end reading

/-! ## What the worker strips -/

theorem actorScopes_strs {actor : Json} {scopes : List String}
    (read : actor.get? "scopes" = some (.strs scopes)) :
    WorkerPool.actorScopes (some actor) = .ok (scopes.map Json.str) := by
  unfold WorkerPool.actorScopes
  simp only [Option.bind_some, read, Option.getD_some]
  cases scopes with
  | nil => rfl
  | cons scope scopes =>
      have hashes : ∀ xs : List String, (xs.map Json.str).mapM Json.hashed = Except.ok (xs.map Json.str) := by
        intro xs
        induction xs with
        | nil => rfl
        | cons x xs ih =>
            rw [List.map_cons, List.mapM_cons, ih]
            rfl
      exact hashes (scope :: scopes)

/-- The worker finds the scopes of the principal the orchestrator ran for. -/
theorem actor_scopes {info : RunInfo} {actor : Option Json} (same : actor.map normal = info.actor.map normal) :
    WorkerPool.actorScopes actor = .ok (((info.principal.map Principal.scopes).getD []).map Json.str) := by
  unfold RunInfo.actor at same
  cases who : info.principal with
  | none =>
      rw [who] at same
      obtain rfl := Option.map_eq_none_iff.mp same
      rfl
  | some principal =>
      rw [who] at same
      obtain ⟨j, rfl, shape⟩ := Option.map_eq_some_iff.mp same
      unfold Principal.asActor at shape
      obtain ⟨fields, rfl⟩ := JsonText.obj_of_normal shape
      have read : (Dict.get fields "scopes").map normal = some (normal (.strs principal.scopes)) :=
        JsonText.get_of_normal (by simp [Dict.keys]) shape "scopes"
      obtain ⟨value, found, text⟩ := Option.map_eq_some_iff.mp read
      rw [JsonText.strs_of_normal text] at found
      exact actorScopes_strs found

theorem stripTools_ok {ctx : L2Context} {scopes : List String}
    (held : WorkerPool.actorScopes ctx.envelope.actor = .ok (scopes.map Json.str)) :
    WorkerPool.stripTools ctx = .ok { ctx with
      toolset := ctx.toolset.filter fun t => t.rbac.all fun scope => scope ∈ scopes ++ tenantScopes ctx.tenant } := by
  unfold WorkerPool.stripTools
  rw [held]
  simp only [bind, Except.bind, pure, Except.pure, List.filterMap_map, Function.comp_def, List.filterMap_some]

/-- A tenant of which only the id is known holds nothing. -/
theorem tenantScopes_bare (tenantId : String) : tenantScopes { tenantId } = [] := by
  rfl

/-! ## What the agent is given -/

/-- Every agent a pool calls for the message is given the context the message is read as. -/
theorem handle_gives {p : Platform} {r : Reader} {pool : WorkerPool} {timestamp : String} {msg : IncomingMessage}
    {ctx : L2Context} (given : WorkerPool.agentContext r msg.body = .ok ctx) :
    (pool.handle p r timestamp msg).Uses (WorkerPool.Gives ctx) := by
  have besides : ∀ op : PoolOp, op.besides → WorkerPool.Gives ctx op := by
    intro op other
    cases op with
    | handle agent taskBody ctx => exact absurd other id
    | getState | emit | recorded | publish | record => trivial
  refine WorkerPool.uses_handle besides fun taskBody before agent ctx' read let_ => ?_
  have strips : WorkerPool.stripTools before = .ok ctx := by
    unfold WorkerPool.received at read
    dsimp only at read
    obtain ⟨message, loaded, rebuilt⟩ : ∃ message, r.loads msg.body = .ok message ∧
        ∃ task, reconstructL2Context r message = .ok (task, before) := by
      split at read
      · obtain ⟨_, _, read⟩ := ok_of_bind read
        obtain ⟨message, loaded, read⟩ := ok_of_bind read
        obtain ⟨⟨task, ctx'⟩, rebuilt, read⟩ := ok_of_bind read
        obtain ⟨_, _, made⟩ := ok_of_bind read
        cases made
        exact ⟨message, loaded, task, rebuilt⟩
      · obtain ⟨message, loaded, read⟩ := ok_of_bind read
        obtain ⟨⟨task, ctx'⟩, rebuilt, read⟩ := ok_of_bind read
        obtain ⟨_, _, made⟩ := ok_of_bind read
        cases made
        exact ⟨message, loaded, task, rebuilt⟩
    obtain ⟨task, rebuilt⟩ := rebuilt
    simp only [WorkerPool.agentContext, loaded, rebuilt, bind, Except.bind] at given
    exact given
  exact Except.ok.inj ((ConsultingPool.admitted_strips let_).symm.trans strips)

/-- The tools of a stage context's envelope. -/
def StageContext.toolset (sc : StageContext) : List ToolRef := (sc.work.envelope.map ContextEnvelope.toolset).getD []

/-- The task message of a stage context. -/
def StageContext.taskMessage (sc : StageContext) (task : Task) (rulesetRef : Option String) (rulesetVersion : Option Int)
    (schemaId : Option String) : TaskMessage :=
  buildTaskMessage sc.info sc.work task rulesetRef rulesetVersion schemaId

/-- The agent is given the tools the orchestrator's scopes grant, in their order. -/
def ToolsAgree (sc : StageContext) (ctx : L2Context) : Prop :=
  ctx.toolset.map ToolRef.kept = (sc.toolset.filter (ToolRef.grantedTo sc.info)).map ToolRef.kept

theorem stripped_tools (r : Reader) (sc : StageContext) (task : Task) (rulesetRef : Option String)
    (rulesetVersion : Option Int) (schemaId : Option String) (stamped timestamp : String)
    (reads : r.ReadsBack (sc.taskMessage task rulesetRef rulesetVersion schemaId) stamped timestamp) :
    ∃ ctx, WorkerPool.agentContext r
        (serializeMessage ((sc.taskMessage task rulesetRef rulesetVersion schemaId).dump stamped timestamp)) = .ok ctx ∧
      (ToolsAgree sc ctx ↔ OwnScopes sc.info sc.toolset) := by
  obtain ⟨message, taskBody, ctx, loaded, rebuilt, agrees, bare, kept, _⟩ := reconstructs reads
  have actor : WorkerPool.actorScopes ctx.envelope.actor =
      .ok (((sc.info.principal.map Principal.scopes).getD []).map Json.str) := actor_scopes agrees.2
  have held := stripTools_ok actor
  have given : WorkerPool.agentContext r (serializeMessage
      ((sc.taskMessage task rulesetRef rulesetVersion schemaId).dump stamped timestamp)) = .ok { ctx with
        toolset := ctx.toolset.filter fun t => t.rbac.all fun scope =>
          scope ∈ (sc.info.principal.map Principal.scopes).getD [] ++ tenantScopes ctx.tenant } := by
    simp only [WorkerPool.agentContext, loaded, rebuilt, bind, Except.bind]
    exact held
  refine ⟨_, given, ?_⟩
  have scopes : tenantScopes ctx.tenant = [] := by
    rw [bare]
    exact tenantScopes_bare _
  unfold ToolsAgree
  simp only [scopes, List.append_nil]
  have rbacs : ∀ x y : ToolRef, x.kept = y.kept → x.rbac = y.rbac := fun x y same =>
    congrArg (fun both : ToolRef × Canon => both.1.rbac) same
  rw [filter_kept (fun x y same => by rw [rbacs x y same]) (show _ = sc.toolset.map ToolRef.kept from kept),
    filter_eq_iff]
  · unfold OwnScopes
    refine forall_congr' fun t => imp_congr_right fun _ => ?_
    cases asks : t.rbac with
    | none => simp [ToolRef.grantedTo, asks]
    | some scope => simp [ToolRef.grantedTo, asks, heldScopes, or_imp]
  · intro t own
    cases asks : t.rbac with
    | none => simp [ToolRef.grantedTo, asks]
    | some scope =>
        rw [asks] at own
        simp only [Option.all_some, decide_eq_true_eq] at own
        simp [ToolRef.grantedTo, asks, heldScopes, own]

/-- The tools an agent is given are those the orchestrator's scopes grant exactly where the
principal itself holds what the tenant grants of their scopes. -/
theorem tools_agree_iff (p : Platform) (r : Reader) (sc : StageContext) (task : Task) (rulesetRef : Option String)
    (rulesetVersion : Option Int) (schemaId : Option String) (stamped timestamp : String)
    (reads : r.ReadsBack (sc.taskMessage task rulesetRef rulesetVersion schemaId) stamped timestamp) :
    ∃ ctx, WorkerPool.agentContext r
        (serializeMessage ((sc.taskMessage task rulesetRef rulesetVersion schemaId).dump stamped timestamp)) = .ok ctx ∧
      (∀ (pool : WorkerPool) (now : String) (msg : IncomingMessage),
        msg.body = serializeMessage ((sc.taskMessage task rulesetRef rulesetVersion schemaId).dump stamped timestamp) →
        (pool.handle p r now msg).Uses (WorkerPool.Gives ctx)) ∧
      (ToolsAgree sc ctx ↔ OwnScopes sc.info sc.toolset) := by
  obtain ⟨ctx, given, agrees⟩ := stripped_tools r sc task rulesetRef rulesetVersion schemaId stamped timestamp reads
  exact ⟨ctx, given, fun pool now msg same => handle_gives (same ▸ given), agrees⟩

namespace Sample

/-- A tool that asks for a scope. -/
def seller : ToolRef := { name := "sell", rbac := some "sales" }

/-- The tenant grants the scope. -/
def granting (principal : Option Principal) : StageContext :=
  let attributes := [("scopes", "sales")]
  let sc := StageContext.initial { runId := "run", tenant := { tenantId := "acme", attributes }, goal := "", principal }
  let envelope := { runId := "run", tenantId := "acme", stage := .actionPlan, toolset := [seller] }
  { sc with work := { sc.work with envelope := some envelope } }

def salesTask : Task := { taskId := "t", taskType := "order", description := "", idempotencyKey := "k" }

def salesMessage (principal : Option Principal) : TaskMessage := (granting principal).taskMessage salesTask none none none

/-- What reads the one message. -/
def salesReader (principal : Option Principal) : Reader where
  loads _ := .ok ((salesMessage principal).dump "" "")
  envelope _ := .ok (salesMessage principal).envelope
  toolRef _ := .ok seller
  resultEnvelope _ := .error (.external "no result")

theorem sales_read (principal : Option Principal) : (salesReader principal).ReadsBack (salesMessage principal) "" "" where
  loads := ⟨_, rfl, rfl⟩
  envelope _ _ := ⟨_, rfl, rfl, rfl⟩
  toolRef t member _ _ := by
    rw [List.mem_singleton.mp (show t ∈ [seller] from member)]
    exact ⟨seller, rfl, rfl⟩

end Sample

open Sample in
/-- A principal who holds the scope is given the tool. -/
theorem tools_agree_own : ∃ ctx, WorkerPool.agentContext (salesReader (some { id := "u", scopes := ["sales"] }))
      (serializeMessage ((salesMessage (some { id := "u", scopes := ["sales"] })).dump "" "")) = .ok ctx ∧
    ToolsAgree (granting (some { id := "u", scopes := ["sales"] })) ctx := by
  obtain ⟨ctx, given, _, agrees⟩ := tools_agree_iff platform (salesReader (some { id := "u", scopes := ["sales"] }))
    (granting (some { id := "u", scopes := ["sales"] })) salesTask none none none "" "" (sales_read _)
  refine ⟨ctx, given, agrees.mpr fun t member scope asks _ => ?_⟩
  rw [List.mem_singleton.mp (show t ∈ [seller] from member)] at asks
  cases asks
  exact List.mem_singleton_self _

open Sample in
/-- A tool whose scope only the tenant grants is stripped. -/
theorem tenant_scope_lost : ¬ ∀ (r : Reader) (sc : StageContext) (task : Task) (rulesetRef : Option String)
    (rulesetVersion : Option Int) (schemaId : Option String) (stamped timestamp : String) (ctx : L2Context),
    r.ReadsBack (sc.taskMessage task rulesetRef rulesetVersion schemaId) stamped timestamp →
    WorkerPool.agentContext r
      (serializeMessage ((sc.taskMessage task rulesetRef rulesetVersion schemaId).dump stamped timestamp)) = .ok ctx →
    ToolsAgree sc ctx := by
  intro claimed
  obtain ⟨ctx, given, agrees⟩ := stripped_tools (salesReader none) (granting none) salesTask none none none "" ""
    (sales_read none)
  have own := agrees.mp (claimed _ _ _ _ _ _ _ _ ctx (sales_read none) given)
  have held : "sales" ∈ tenantScopes (granting none).info.tenant := by decide
  cases own seller (List.mem_singleton_self _) "sales" rfl held

end Maof
