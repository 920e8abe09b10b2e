import Maof.Workers.ToolScopes

/-!
# What a task message is answered with

A worker reads the run and the step off the message and writes both into the
result. Where the pool has an agent for the task and every part of the delivery
does its work, one result is published.
-/

namespace Maof

open Data (Dict)
open Effects (Act)
open JsonText (normal)

/-- A delivery of the message to a pool that has an agent for its task: the checks let it pass, the
agent answers, and the result has a queue and a key that was not used before. -/
structure Served (p : Platform) (r : Reader) (pool : WorkerPool) (m : TaskMessage) (a : Attempt) (w : PoolWorld) : Prop where
  carried : ∃ stamped timestamp, a.msg.body = serializeMessage (m.dump stamped timestamp) ∧ r.ReadsBack m stamped timestamp
  signed : WorkerPool.Signed p pool a.msg
  running : pool.cancelledRun a m.envelope.runId = .ok false
  allowed : ∀ types, pool.allowed = some types → m.task.taskType ∈ types
  agent : ∃ agent, Dict.get pool.registry.byTaskType m.task.taskType = some agent
  conforms : ∀ body : Dict String Json, normal (.obj body) = normal (.obj m.task.dump) → SchemaRegistry.conforms p.unicode
    pool.schemaRegistry (orElse m.envelope.schemaId (m.task.taskType ++ ".v1")) body = .ok ()
  answered : ∃ result, a.reply = .ok result ∧
    SchemaRegistry.conforms p.unicode pool.schemaRegistry (m.task.taskType ++ ".result.v1") result.output = .ok ()
  queue : ∃ queue, pool.resultQueue = some queue ∧ queue ≠ ""
  signs : ∃ secret, Dict.get pool.signer.keys pool.signer.activeKid = some secret
  fresh : "publish-result:" ++ m.task.idempotencyKey ∉ w.onceKeys ++ a.agentKeys
  unfaulted : ∀ op, a.fault op = none

namespace WorkerPool

section task

variable {u : Unicode} {t : Task} {taskBody : Dict String Json}

/-- A text member of the task is read as it was written. -/
theorem get_of_task (same : normal (.obj taskBody) = normal (.obj t.dump)) {key value : String}
    (written : Dict.get t.dump key = some (.str value)) : Dict.get taskBody key = some (.str value) := by
  have read := JsonText.get_of_normal (by simp [Dict.keys, Task.dump]) same key
  rw [written] at read
  obtain ⟨j, found, text⟩ := Option.map_eq_some_iff.mp read
  rw [found, JsonText.str_of_normal text]

theorem text_of_task {key value : String} (found : Dict.get taskBody key = some (.str value)) : text u taskBody key = value := by
  simp only [text, found, Option.getD_some, Template.pyStr, String.ofList_toList]

/-- The worker names the step the task names, unless it names none. -/
theorem stepRef_of_task {step : String} (found : Dict.get taskBody "step_ref" = some (.str step)) (named : step ≠ "") :
    stepRef u taskBody = step := by
  simp only [stepRef, found, Json.truthy, Template.pyStr, String.ofList_toList, ne_eq, named, not_false_iff,
    decide_true, if_true]

end task

section delivery

variable {p : Platform} {r : Reader} {pool : WorkerPool} {a : Attempt} {w : PoolWorld} {taskBody : Dict String Json}
  {ctx : L2Context}

theorem perform_unfaulted (unfaulted : ∀ op, a.fault op = none) (w : PoolWorld) (op : PoolOp) :
    PoolWorld.perform a w op = PoolWorld.effect a w op := by
  simp only [PoolWorld.perform, unfaulted op]

theorem replyTo_some {queue : String} (has : pool.resultQueue = some queue) (named : queue ≠ "") :
    ∃ target, pool.replyTo p taskBody = some target := by
  unfold replyTo
  simp only
  split
  · exact ⟨_, rfl⟩
  · exact ⟨queue, by simp [has, named]⟩

theorem resultPublication_ok {signer : Signer} {secret timestamp queue : String} {envelope : ResultEnvelope}
    (has : Dict.get signer.keys signer.activeKid = some secret) :
    ∃ publication, resultPublication p signer timestamp queue envelope = .ok publication ∧ publication.envelope = envelope := by
  simp only [resultPublication, Signer.sign, has, bind, Except.bind, pure, Except.pure]
  exact ⟨_, rfl, rfl⟩

/-- A result whose key is new is published once. -/
theorem publishResult_once (unfaulted : ∀ op, a.fault op = none) {timestamp queue secret : String} {envelope : ResultEnvelope}
    (has : Dict.get pool.signer.keys pool.signer.activeKid = some secret)
    (fresh : "publish-result:" ++ envelope.idempotencyKey ∉ w.onceKeys) :
    ∃ publication w', ((publishResult p pool timestamp queue envelope) ()).eval (PoolWorld.perform a) w = ((.ok (), ()), w') ∧
      w'.published = w.published ++ [publication] ∧ publication.envelope = envelope := by
  obtain ⟨publication, made, carries⟩ := @resultPublication_ok p _ _ timestamp queue envelope has
  have published : ∀ w : PoolWorld, ((do
      let publication ← Act.ofExcept (S := PoolSig) (resultPublication p pool.signer timestamp queue envelope)
      poolCall (.publish publication) : PoolM Unit) ()).eval (PoolWorld.perform a) w =
        ((.ok (), ()), { w with published := w.published ++ [publication] }) := by
    intro w
    rw [Act.eval_ofExcept_bind, made]
    simp only [Act.await, Effects.Prog.eval, perform_unfaulted unfaulted, PoolWorld.effect]
  unfold publishResult once
  split
  · have unrecorded : (PoolWorld.perform a w (.recorded ("publish-result:" ++ envelope.idempotencyKey))) = (w, .ok false) := by
      rw [perform_unfaulted unfaulted]
      simp only [PoolWorld.effect, decide_eq_false fresh]
    refine ⟨publication, { w with
      published := w.published ++ [publication]
      onceKeys := w.onceKeys ++ ["publish-result:" ++ envelope.idempotencyKey] }, ?_, rfl, carries⟩
    rw [Act.eval_await_ok (congrArg Prod.snd unrecorded), unrecorded]
    simp only [Bool.not_false, if_true]
    rw [Act.eval_bind, published]
    simp only [Act.await, Effects.Prog.eval, perform_unfaulted unfaulted, PoolWorld.effect]
  · exact ⟨publication, _, published w, rfl, carries⟩

theorem emit_unfaulted (unfaulted : ∀ op, a.fault op = none) (ctx : L2Context) (eventType : String) (details : Dict String Json)
    (w : PoolWorld) : ∃ w', ((pool.emit ctx eventType details) ()).eval (PoolWorld.perform a) w = ((.ok (), ()), w') ∧
      w'.published = w.published := by
  unfold emit
  split
  · simp only [Act.await, Effects.Prog.eval, perform_unfaulted unfaulted, PoolWorld.effect]
    exact ⟨_, rfl, rfl⟩
  · exact ⟨w, rfl, rfl⟩

end delivery

end WorkerPool

open WorkerPool

section answer

variable {p : Platform} {r : Reader} {pool : WorkerPool} {m : TaskMessage} {a : Attempt} {w : PoolWorld}

/-- The task is admitted, and the agent's context is the message's, less some tools. -/
theorem admitted_served (served : Served p r pool m a w) {info : RunInfo} (actor : m.envelope.actor = info.actor)
    {taskBody : Dict String Json} {ctx : L2Context} (agrees : m.envelope.Agrees ctx.envelope)
    (same : normal (.obj taskBody) = normal (.obj m.task.dump)) :
    ∃ agent ctx', pool.admitted p taskBody ctx = .ok (agent, ctx') ∧ ctx'.envelope = ctx.envelope := by
  have typed : taskType p.unicode taskBody = m.task.taskType := text_of_task (get_of_task same rfl)
  have schema : ctx.envelope.schemaId = m.envelope.schemaId := by
    have read := congrArg TaskEnvelope.schemaId agrees.1
    exact read
  obtain ⟨agent, registered⟩ := served.agent
  have permitted : (pool.allowed.any fun allowed => m.task.taskType ∉ allowed) = false := by
    cases limited : pool.allowed with
    | none => rfl
    | some types => simpa using served.allowed types limited
  have held := @actor_scopes info _ (agrees.2.trans (congrArg (Option.map normal) actor))
  obtain ⟨ctx', stripped, kept⟩ : ∃ ctx', stripTools ctx = .ok ctx' ∧ ctx'.envelope = ctx.envelope := ⟨_, stripTools_ok held, rfl⟩
  refine ⟨agent, ctx', ?_, kept⟩
  unfold admitted
  simp only [typed, permitted, schema, served.conforms taskBody same, registered, stripped, Bool.false_eq_true, if_false,
    bind, Except.bind, pure, Except.pure]

/-- One result is published, of the message's run and step. -/
theorem served_answers (served : Served p r pool m a w) {info : RunInfo} (actor : m.envelope.actor = info.actor) {step : StepId}
    (named : step ≠ "") (ref : m.task.stepRef = some step) :
    ∃ publication, (pool.deliver p r a w).1.published = w.published ++ [publication] ∧ (pool.deliver p r a w).2 = .ok () ∧
      publication.envelope.runId = m.envelope.runId ∧ publication.envelope.stepRef = step := by
  obtain ⟨stamped, timestamp, text, reads⟩ := served.carried
  obtain ⟨message, taskBody, ctx, loaded, rebuilt, agrees, _, _, same⟩ := reconstructs reads
  have carries : Conveys r a.msg.body taskBody ctx := ⟨message, text ▸ loaded, rebuilt⟩
  have run : ctx.envelope.runId = m.envelope.runId := by
    have read := congrArg TaskEnvelope.runId agrees.1
    exact read
  obtain ⟨agent, ctx', admitted, kept⟩ := admitted_served served actor agrees same
  obtain ⟨result, reply, conforms⟩ := served.answered
  obtain ⟨queue, has, open_⟩ := served.queue
  obtain ⟨target, asked⟩ := @replyTo_some p _ taskBody _ has open_
  obtain ⟨secret, signs⟩ := served.signs
  have handled : PoolWorld.perform a w (.handle agent taskBody ctx') =
      ({ w with handled := w.handled ++ [taskBody], onceKeys := w.onceKeys ++ a.agentKeys }, .ok result) := by
    rw [perform_unfaulted served.unfaulted]
    simp only [PoolWorld.effect, reply]
  have key : (resultEnvelope p taskBody ctx' result).idempotencyKey = m.task.idempotencyKey := text_of_task (get_of_task same rfl)
  have typed : taskType p.unicode taskBody = m.task.taskType := text_of_task (get_of_task same rfl)
  obtain ⟨publication, w', published, added, carried⟩ := @publishResult_once p pool _
    { w with handled := w.handled ++ [taskBody], onceKeys := w.onceKeys ++ a.agentKeys } served.unfaulted a.timestamp target _ _
    signs (key.symm ▸ served.fresh)
  obtain ⟨w'', told, still⟩ := @emit_unfaulted pool _ served.unfaulted ctx' "task_completed"
    [("status", .str result.status), ("task_type", .str (taskType p.unicode taskBody))] w'
  refine ⟨publication, ?_⟩
  have evaluated : pool.deliver p r a w = (w'', .ok ()) := by
    rw [deliver_signed carries served.signed, run, served.running]
    dsimp only
    rw [Act.eval_ofExcept_bind, admitted]
    dsimp only
    rw [Act.eval_await_ok (congrArg Prod.snd handled), handled]
    unfold respond
    simp only [typed, conforms, asked] at told ⊢
    rw [Act.eval_ofExcept_bind]
    dsimp only
    rw [Act.eval_bind, published]
    dsimp only
    rw [told]
  rw [evaluated]
  refine ⟨still.trans added, rfl, ?_, ?_⟩
  · rw [carried]
    exact (congrArg TaskEnvelope.runId kept).trans run
  · have found : Dict.get taskBody "step_ref" = some (.str step) := get_of_task same (by simp [Task.dump, ref, Dict.get, Json.ofStr?])
    rw [carried]
    exact stepRef_of_task found named

/-- Tools that are written alike are alike in what the wire keeps. -/
theorem kept_of_dump {t t' : ToolRef} (same : normal t.dump = normal t'.dump) : t.kept = t'.kept := by
  have read := fun key => @JsonText.get_of_normal [("name", Json.str t'.name), ("version", .str t'.version),
    ("scope", .str t'.scope), ("rbac", .ofStr? t'.rbac), ("params", .obj t'.params)] _ (by simp [Dict.keys]) same key
  have texts : ∀ {a b : String}, normal (.str a) = normal (.str b) → a = b :=
    fun alike => Json.str.inj (JsonText.str_of_normal alike)
  have name := texts (Option.some.inj (read "name"))
  have version := texts (Option.some.inj (read "version"))
  have scope := texts (Option.some.inj (read "scope"))
  have params : normal (.obj t.params) = normal (.obj t'.params) := Option.some.inj (read "params")
  have rbac : normal (.ofStr? t.rbac) = normal (.ofStr? t'.rbac) := Option.some.inj (read "rbac")
  have asked : t.rbac = t'.rbac := by
    cases left : t.rbac with
    | none =>
        cases right : t'.rbac with
        | none => rfl
        | some scope' =>
            rw [left, right] at rbac
            cases rbac
    | some held =>
        cases right : t'.rbac with
        | none =>
            rw [left, right] at rbac
            cases rbac
        | some scope' =>
            rw [left, right] at rbac
            rw [texts rbac]
  simp only [ToolRef.kept, name, version, scope, asked, params]

/-- A message that is read back is served by some pool. -/
theorem served_by (p : Platform) {r : Reader} {m : TaskMessage} {stamped timestamp : String} (reads : r.ReadsBack m stamped timestamp) :
    ∃ (pool : WorkerPool) (a : Attempt), a.msg.body = serializeMessage (m.dump stamped timestamp) ∧ Served p r pool m a {} := by
  let pool : WorkerPool := {
    signer := { keys := [("default", "key")] }
    registry := { byTaskType := [(m.task.taskType, "agent")] }
    requireSignature := false
    runStore := false }
  refine ⟨pool, {
    msg := { body := serializeMessage (m.dump stamped timestamp) }
    reply := .ok { status := "ok", taskId := m.task.taskId } }, rfl, ?_⟩
  exact {
    carried := ⟨stamped, timestamp, rfl, reads⟩
    signed := fun asked => by cases asked
    running := rfl
    allowed := fun _ limited => by cases limited
    agent := ⟨"agent", by simp [pool, Dict.get]⟩
    conforms := fun _ _ => rfl
    answered := ⟨_, rfl, rfl⟩
    queue := ⟨"results", rfl, by decide⟩
    signs := ⟨"key", rfl⟩
    fresh := List.not_mem_nil
    unfaulted := fun _ => rfl }

open Classical in
/-- Every message is read back by some parser. -/
theorem read_exists (m : TaskMessage) : ∃ r : Reader, r.ReadsBack m "" "" := by
  let tool (j : Json) : Except Exn ToolRef :=
    if h : ∃ t ∈ m.toolset, normal j = normal t.dump then .ok h.choose else .error (.typeError "no tool")
  refine ⟨{
    loads := fun _ => .ok (m.dump "" "")
    envelope := fun _ => .ok m.envelope
    toolRef := tool
    resultEnvelope := fun _ => .error (.typeError "no result") }, ⟨_, rfl, rfl⟩, fun _ _ => ⟨_, rfl, rfl, rfl⟩, fun t member j same => ?_⟩
  have found : ∃ t ∈ m.toolset, normal j = normal t.dump := ⟨t, member, same⟩
  refine ⟨found.choose, dif_pos found, kept_of_dump ?_⟩
  exact found.choose_spec.2.symm.trans same

/-- Every message the orchestrator builds is read by some parser, and served by some pool. -/
theorem served_exists (p : Platform) (info : RunInfo) (work : Work) (task : Task) (rulesetRef schemaId : Option String) :
    ∃ (r : Reader) (pool : WorkerPool) (a : Attempt),
      Served p r pool (buildTaskMessage info work task rulesetRef none schemaId) a {} := by
  obtain ⟨reader, reads⟩ := read_exists (buildTaskMessage info work task rulesetRef none schemaId)
  obtain ⟨pool, a, -, served⟩ := served_by p reads
  exact ⟨reader, pool, a, served⟩

end answer

end Maof
