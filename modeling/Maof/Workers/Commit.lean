import Maof.Orchestrator.System
import Maof.Workers.Pool

/-!
# Deliveries after the result was published

The guard is around the publication of the result. A task that is delivered once
more is handed to the agent once more, unless its run was cancelled meanwhile or a
check refuses it.
-/

namespace Maof

open Data (Dict)
open Effects (Act Prog)

namespace PoolWorld

/-- A result envelope for the key was given to the broker. -/
def Committed (w : PoolWorld) (key : String) : Prop := ∃ q ∈ w.published, q.envelope.idempotencyKey = key

/-- The tasks of the key that an agent was called for. -/
def invocations (u : Unicode) (w : PoolWorld) (key : String) : List (Dict String Json) :=
  w.handled.filter fun taskBody => WorkerPool.idempotencyKey u taskBody = key

end PoolWorld

/-- A call other than `agent.handle`. -/
def PoolOp.besides : PoolOp → Prop
  | .handle _ _ _ => False
  | _ => True

namespace Attempt

/-- What the run store answers to this delivery. -/
def stateRead (a : Attempt) (runId : RunId) : Except Exn RunState :=
  match a.fault (.getState runId) with
  | none => a.state
  | some (_, e) => .error e

/-- The sink takes the event. -/
def Takes (a : Attempt) (event : AuditEvent) : Prop := a.fault (.emit event) = none

end Attempt

namespace WorkerPool

variable {p : Platform} {r : Reader} {pool : WorkerPool}

/-! ## What a delivery finds before the agent -/

/-- The signature verifies, where one is asked for. -/
def Signed (p : Platform) (pool : WorkerPool) (msg : IncomingMessage) : Prop :=
  pool.requireSignature = true → pool.signer.verify p msg.body msg.headers = .ok ()

/-- Whether the run is found cancelled. -/
def cancelledRun (pool : WorkerPool) (a : Attempt) (runId : RunId) : Except Exn Bool :=
  if pool.runStore then
    match a.stateRead runId with
    | .ok state => .ok (state.cancelRequested || decide (state.status = .cancelled))
    | .error (.keyError _) => .ok false
    | .error e => .error e
  else .ok false

/-- The delivery of the task gets to the agent: every check passes and the call is made. -/
def Reaches (p : Platform) (pool : WorkerPool) (taskBody : Dict String Json) (ctx : L2Context) (a : Attempt) : Prop :=
  Signed p pool a.msg ∧ pool.cancelledRun a ctx.envelope.runId = .ok false ∧
    ∃ agent ctx', pool.admitted p taskBody ctx = .ok (agent, ctx') ∧
      ∀ e, a.fault (.handle agent taskBody ctx') ≠ some (.before, e)

def skippedEvent (p : Platform) (taskBody : Dict String Json) (ctx : L2Context) : AuditEvent where
  tenantId := ctx.tenant.tenantId
  intentId := ctx.envelope.intentId
  eventType := "task_skipped"
  details := [("task_type", .str (taskType p.unicode taskBody)), ("reason", .str "run_cancelled"),
    ("run_id", .str ctx.envelope.runId)]

/-- The delivery of the task is skipped: its run is found cancelled and the skip is reported. -/
def Skips (p : Platform) (pool : WorkerPool) (taskBody : Dict String Json) (ctx : L2Context) (a : Attempt) : Prop :=
  Signed p pool a.msg ∧ pool.cancelledRun a ctx.envelope.runId = .ok true ∧
    (pool.eventSink = true → a.Takes (skippedEvent p taskBody ctx))

/-- The text is a message of this task. -/
def Conveys (r : Reader) (body : String) (taskBody : Dict String Json) (ctx : L2Context) : Prop :=
  ∃ message, r.loads body = .ok message ∧ reconstructL2Context r message = .ok (.obj taskBody, ctx)

section delivery

variable {a : Attempt} {w : PoolWorld} {taskBody : Dict String Json} {ctx : L2Context}

theorem eval_runCancelled (runId : RunId) :
    (pool.runCancelled runId ()).eval (PoolWorld.perform a) w = ((pool.cancelledRun a runId, ()), w) := by
  unfold runCancelled cancelledRun
  split
  · have read : PoolWorld.perform a w (.getState runId) = (w, a.stateRead runId) := by
      unfold PoolWorld.perform Attempt.stateRead
      cases a.fault (.getState runId) with
      | none => rfl
      | some f =>
          obtain ⟨at_, e⟩ := f
          cases at_ <;> rfl
    rw [Act.eval_tryCatch, Act.eval_bind]
    simp only [Act.await, Prog.eval, read]
    cases a.stateRead runId with
    | ok state => rfl
    | error e => cases e <;> rfl
  · rfl

theorem received_of_signed (carries : Conveys r a.msg.body taskBody ctx) (signed : Signed p pool a.msg) :
    pool.received p r a.msg = .ok (taskBody, ctx) := by
  obtain ⟨message, loads, rebuilt⟩ := carries
  unfold received
  by_cases asked : pool.requireSignature
  · simp [asked, signed asked, loads, rebuilt, taskOf, bind, Except.bind, pure, Except.pure]
  · simp [asked, loads, rebuilt, taskOf, bind, Except.bind, pure, Except.pure]

theorem received_of_unsigned (unsigned : ¬ Signed p pool a.msg) : ∃ e, pool.received p r a.msg = .error e := by
  simp only [Signed, Classical.not_imp] at unsigned
  obtain ⟨asked, failed⟩ := unsigned
  cases verified : pool.signer.verify p a.msg.body a.msg.headers with
  | ok _ => exact absurd verified failed
  | error e =>
      refine ⟨e, ?_⟩
      simp [received, asked, verified, bind, Except.bind]

/-! ## After the agent -/

theorem uses_emit (ctx : L2Context) (eventType : String) (details : Dict String Json) :
    (pool.emit ctx eventType details).Uses PoolOp.besides := by
  unfold emit
  split
  · exact Act.uses_await (S := PoolSig) trivial
  · exact Act.uses_pure ()

theorem uses_runCancelled {runId : RunId} : (pool.runCancelled runId).Uses PoolOp.besides := by
  unfold runCancelled
  split
  · refine Act.uses_tryCatch (Act.uses_bind (Act.uses_await (S := PoolSig) trivial) fun _ => Act.uses_pure _) fun e => ?_
    cases e with
    | keyError _ => exact Act.uses_pure _
    | _ => exact Act.uses_throw _
  · exact Act.uses_pure _

theorem uses_once {guarded : Bool} {key : String} {fn : PoolM Unit} (inner : fn.Uses PoolOp.besides) :
    (once guarded key fn).Uses PoolOp.besides := by
  unfold once
  split
  · refine Act.uses_bind (Act.uses_await (S := PoolSig) trivial) fun held => ?_
    split
    · exact Act.uses_bind inner fun _ => Act.uses_await (S := PoolSig) trivial
    · exact Act.uses_pure ()
  · exact inner

theorem uses_respond (timestamp : String) (result : TaskResult) :
    (pool.respond p timestamp taskBody ctx result).Uses PoolOp.besides := by
  refine Act.uses_bind (Act.uses_ofExcept _) fun _ => ?_
  split
  · refine Act.uses_bind (uses_once (Act.uses_bind (Act.uses_ofExcept _) fun _ => ?_)) fun _ => uses_emit _ _ _
    exact Act.uses_await (S := PoolSig) trivial
  · exact uses_emit _ _ _

/-- Handling a message calls the agent the message is admitted to, and otherwise what lies beside the agent. -/
theorem uses_handle {A : PoolOp → Prop} {timestamp : String} {msg : IncomingMessage}
    (besides : ∀ op : PoolOp, op.besides → A op)
    (handles : ∀ taskBody ctx agent ctx', pool.received p r msg = .ok (taskBody, ctx) →
      pool.admitted p taskBody ctx = .ok (agent, ctx') → A (.handle agent taskBody ctx')) :
    (pool.handle p r timestamp msg).Uses A := by
  have aside : ∀ {α : Type} {m : PoolM α}, m.Uses PoolOp.besides → m.Uses A := fun uses s => (uses s).mono besides
  refine Act.uses_ofExcept_bind fun received read => ?_
  obtain ⟨taskBody, ctx⟩ := received
  refine Act.uses_bind (aside uses_runCancelled) fun cancelled => ?_
  split
  · exact aside (uses_emit _ _ _)
  · refine Act.uses_ofExcept_bind fun admitted let_ => ?_
    obtain ⟨agent, ctx'⟩ := admitted
    refine Act.uses_bind (Act.uses_await (S := PoolSig) (handles taskBody ctx agent ctx' read let_)) fun result => ?_
    exact aside (uses_respond _ _)

/-- Every call but the agent's leaves the tasks that were handled. -/
theorem perform_handled {op : PoolOp} (other : op.besides) :
    (PoolWorld.perform a w op).1.handled = w.handled := by
  unfold PoolWorld.perform
  cases op with
  | handle => exact absurd other id
  | getState | emit | recorded | publish | record => split <;> rfl

theorem respond_handled (timestamp : String) (result : TaskResult) :
    ((pool.respond p timestamp taskBody ctx result ()).eval (PoolWorld.perform a) w).2.handled = w.handled :=
  (uses_respond timestamp result ()).eval (J := fun w' : PoolWorld => w'.handled = w.handled)
    (fun _ other _ same => (perform_handled other).trans same) rfl

/-! ## One delivery -/

theorem deliver_unsigned (unsigned : ¬ Signed p pool a.msg) : ∃ e, pool.deliver p r a w = (w, .error e) := by
  obtain ⟨e, refused⟩ := received_of_unsigned unsigned
  refine ⟨e, ?_⟩
  unfold deliver handle
  rw [Act.eval_ofExcept_bind, refused]

/-- What a delivery does once the run was looked at. -/
theorem deliver_signed (carries : Conveys r a.msg.body taskBody ctx) (signed : Signed p pool a.msg) :
    pool.deliver p r a w = match pool.cancelledRun a ctx.envelope.runId with
      | .error e => (w, .error e)
      | .ok true =>
          let out := (pool.emit ctx "task_skipped" (skippedEvent p taskBody ctx).details ()).eval
            (PoolWorld.perform a) w
          (out.2, out.1.1)
      | .ok false =>
          let out := ((do
            let (agent, ctx) ← Act.ofExcept (S := PoolSig) (pool.admitted p taskBody ctx)
            let result ← poolCall (.handle agent taskBody ctx)
            pool.respond p a.timestamp taskBody ctx result : PoolM Unit) ()).eval (PoolWorld.perform a) w
          (out.2, out.1.1) := by
  unfold deliver handle
  rw [Act.eval_ofExcept_bind, received_of_signed carries signed]
  dsimp only
  rw [Act.eval_bind, eval_runCancelled]
  cases pool.cancelledRun a ctx.envelope.runId with
  | error e => rfl
  | ok cancelled => cases cancelled <;> rfl

/-- The task is added to those handled where the delivery gets to the agent. -/
theorem deliver_reaches (carries : Conveys r a.msg.body taskBody ctx) (reaches : Reaches p pool taskBody ctx a) :
    (pool.deliver p r a w).1.handled = w.handled ++ [taskBody] := by
  obtain ⟨signed, running, agent, ctx', admitted, made⟩ := reaches
  have called : (PoolWorld.perform a w (.handle agent taskBody ctx')).1.handled = w.handled ++ [taskBody] := by
    unfold PoolWorld.perform
    split
    · rfl
    · next e before => exact absurd before (made e)
    · rfl
  rw [deliver_signed carries signed, running]
  dsimp only
  rw [Act.eval_ofExcept_bind, admitted]
  dsimp only
  cases reply : (PoolWorld.perform a w (.handle agent taskBody ctx')).2 with
  | ok result =>
      rw [Act.eval_await_ok reply, respond_handled, called]
  | error e =>
      rw [Act.eval_await_error reply]
      exact called

theorem emitted_iff {event : AuditEvent} :
    ((poolCall (.emit event) ()).eval (PoolWorld.perform a) w).1.1 = .ok () ↔ a.Takes event := by
  unfold Attempt.Takes
  simp only [Act.await, Prog.eval, PoolWorld.perform]
  cases a.fault (.emit event) with
  | none => exact ⟨fun _ => rfl, fun _ => rfl⟩
  | some f =>
      obtain ⟨moment, e⟩ := f
      cases moment <;> simp

/-- A delivery that does not get to the agent skips its task or raises. -/
theorem deliver_stops (carries : Conveys r a.msg.body taskBody ctx) (stops : ¬ Reaches p pool taskBody ctx a) :
    (pool.deliver p r a w).1.handled = w.handled ∧
      ((pool.deliver p r a w).2 = .ok () ↔ Skips p pool taskBody ctx a) := by
  by_cases signed : Signed p pool a.msg
  · rw [deliver_signed carries signed]
    cases cancelled : pool.cancelledRun a ctx.envelope.runId with
    | error e =>
        refine ⟨rfl, fun raised => ?_, fun skips => ?_⟩
        · cases raised
        · cases cancelled.symm.trans skips.2.1
    | ok found =>
        cases found with
        | true =>
            have kept : ((pool.emit ctx "task_skipped" (skippedEvent p taskBody ctx).details ()).eval
                (PoolWorld.perform a) w).2.handled = w.handled :=
              (uses_emit _ _ _ ()).eval (J := fun w' : PoolWorld => w'.handled = w.handled)
                (fun _ other _ same => (perform_handled other).trans same) rfl
            refine ⟨kept, ?_⟩
            have told : ((pool.emit ctx "task_skipped" (skippedEvent p taskBody ctx).details ()).eval
                (PoolWorld.perform a) w).1.1 = .ok () ↔
                (pool.eventSink = true → a.Takes (skippedEvent p taskBody ctx)) := by
              unfold emit
              split
              · next sink =>
                  simp only [sink, forall_const]
                  exact emitted_iff
              · next silent => simp [silent, Act.pure_run, Prog.eval]
            exact told.trans ⟨fun taken => ⟨signed, cancelled, taken⟩, fun skips => skips.2.2⟩
        | false =>
            have unskipped : ¬ Skips p pool taskBody ctx a := by
              intro skips
              cases cancelled.symm.trans skips.2.1
            dsimp only
            rw [Act.eval_ofExcept_bind]
            cases admitted : pool.admitted p taskBody ctx with
            | error e =>
                refine ⟨rfl, fun raised => ?_, fun skips => absurd skips unskipped⟩
                cases raised
            | ok found =>
                obtain ⟨agent, ctx'⟩ := found
                obtain ⟨e, before⟩ : ∃ e, a.fault (.handle agent taskBody ctx') = some (.before, e) := by
                  by_contra made
                  exact stops ⟨signed, cancelled, agent, ctx', admitted, not_exists.mp made⟩
                have refused : PoolWorld.perform a w (.handle agent taskBody ctx') = (w, .error e) := by
                  simp only [PoolWorld.perform, before]
                dsimp only
                rw [Act.eval_await_error (congrArg Prod.snd refused), refused]
                refine ⟨rfl, fun raised => ?_, fun skips => absurd skips unskipped⟩
                cases raised
  · obtain ⟨e, raises⟩ := deliver_unsigned (r := r) (w := w) signed
    rw [raises]
    refine ⟨rfl, fun raised => ?_, fun skips => absurd skips.1 signed⟩
    cases raised

theorem invocations_reaches (carries : Conveys r a.msg.body taskBody ctx) :
    (pool.deliver p r a w).1.invocations p.unicode (idempotencyKey p.unicode taskBody) =
      w.invocations p.unicode (idempotencyKey p.unicode taskBody) ↔ ¬ Reaches p pool taskBody ctx a := by
  constructor
  · intro same reaches
    have grown := congrArg List.length same
    simp only [PoolWorld.invocations, deliver_reaches carries reaches, List.filter_append, List.length_append,
      List.filter_cons, List.filter_nil, decide_true, if_true, List.length_singleton] at grown
    omega
  · intro stops
    simp only [PoolWorld.invocations, (deliver_stops carries stops).1]

theorem invocations_skips (carries : Conveys r a.msg.body taskBody ctx) :
    ((pool.deliver p r a w).1.invocations p.unicode (idempotencyKey p.unicode taskBody) =
      w.invocations p.unicode (idempotencyKey p.unicode taskBody) ∧ (pool.deliver p r a w).2 = .ok ()) ↔
      Skips p pool taskBody ctx a := by
  rw [invocations_reaches carries]
  constructor
  · rintro ⟨stops, returned⟩
    exact (deliver_stops carries stops).2.mp returned
  · intro skips
    have stops : ¬ Reaches p pool taskBody ctx a := by
      rintro ⟨_, running, _⟩
      cases running.symm.trans skips.2.1
    exact ⟨stops, (deliver_stops carries stops).2.mpr skips⟩

end delivery

/-! ## Sequences of deliveries -/

/-- What is so of every delivery made once a result for the key was published. -/
def OnceCommitted (p : Platform) (r : Reader) (pool : WorkerPool) (key : String) (P : PoolWorld → Attempt → Prop) :
    PoolWorld → List Attempt → Prop
  | _, [] => True
  | w, a :: as => (w.Committed key → P w a) ∧ OnceCommitted p r pool key P (pool.deliver p r a w).1 as

theorem onceCommitted_congr {key : String} {P Q : PoolWorld → Attempt → Prop} {w : PoolWorld} {as : List Attempt}
    (same : ∀ a ∈ as, ∀ w, P w a ↔ Q w a) :
    OnceCommitted p r pool key P w as ↔ OnceCommitted p r pool key Q w as := by
  induction as generalizing w with
  | nil => exact Iff.rfl
  | cons a as ih =>
      have rest := ih (w := (pool.deliver p r a w).1) fun b member => same b (List.mem_cons_of_mem _ member)
      exact and_congr (imp_congr_right fun _ => same a List.mem_cons_self w) rest

/-- The agent is not called for the key, and the delivery is acknowledged. -/
def Acknowledged (p : Platform) (r : Reader) (pool : WorkerPool) (key : String) (w : PoolWorld) (a : Attempt) : Prop :=
  (pool.deliver p r a w).1.invocations p.unicode key = w.invocations p.unicode key ∧
    (pool.deliver p r a w).2 = .ok ()

theorem acknowledged_iff {body : String} {taskBody : Dict String Json} {ctx : L2Context}
    (carries : Conveys r body taskBody ctx) {w : PoolWorld} {as : List Attempt} (one : ∀ a ∈ as, a.msg.body = body) :
    OnceCommitted p r pool (idempotencyKey p.unicode taskBody)
        (Acknowledged p r pool (idempotencyKey p.unicode taskBody)) w as ↔
      OnceCommitted p r pool (idempotencyKey p.unicode taskBody) (fun _ => Skips p pool taskBody ctx) w as :=
  onceCommitted_congr fun a member _ => invocations_skips ((one a member).symm ▸ carries)

end WorkerPool

open WorkerPool

/-- Once the result of a task was published, further deliveries of it are acknowledged and skipped
exactly where each finds the run cancelled; the agent is called again by each that gets to it. -/
theorem handled_once_committed (p : Platform) (r : Reader) (pool : WorkerPool) {body : String}
    {taskBody : Dict String Json} {ctx : L2Context} (carries : Conveys r body taskBody ctx) (w : PoolWorld)
    (as : List Attempt) (one : ∀ a ∈ as, a.msg.body = body) :
    (OnceCommitted p r pool (idempotencyKey p.unicode taskBody)
        (Acknowledged p r pool (idempotencyKey p.unicode taskBody)) w as ↔
      OnceCommitted p r pool (idempotencyKey p.unicode taskBody) (fun _ => Skips p pool taskBody ctx) w as) ∧
      (OnceCommitted p r pool (idempotencyKey p.unicode taskBody) (fun w a =>
          (pool.deliver p r a w).1.invocations p.unicode (idempotencyKey p.unicode taskBody) =
            w.invocations p.unicode (idempotencyKey p.unicode taskBody)) w as ↔
        OnceCommitted p r pool (idempotencyKey p.unicode taskBody) (fun _ a => ¬ Reaches p pool taskBody ctx a) w as) :=
  ⟨acknowledged_iff carries one,
    onceCommitted_congr fun a member _ => invocations_reaches ((one a member).symm ▸ carries)⟩

namespace Sample

def orderTask : Dict String Json :=
  [("task_type", .str "order"), ("task_id", .str "a"), ("idempotency_key", .str "k")]

def orderMessage : Json :=
  .obj [("envelope", .obj [("run_id", .str "r"), ("tenant_id", .str "t"), ("stage", .str "publish")]),
    ("task", .obj orderTask)]

def orderEnvelope : TaskEnvelope where
  runId := "r"
  tenantId := "t"
  intentId := none
  stage := .publish
  rulesetRef := none
  rulesetVersion := none
  schemaId := none
  mode := "sandbox"
  region := "us-east-1"
  actor := none

/-- Reads the one message. -/
def orderReader : Reader where
  loads _ := .ok orderMessage
  envelope _ := .ok orderEnvelope
  toolRef _ := .error (.valueError "no tool")
  resultEnvelope _ := .error (.valueError "no result")

def orderPool : WorkerPool where
  signer := { keys := [("default", "secret")] }
  registry := { byTaskType := [("order", "buyer")] }
  requireSignature := false

def orderContext : L2Context := { envelope := orderEnvelope, tenant := { tenantId := "t" } }

/-- A delivery of the message that nothing disturbs. -/
def delivery : Attempt where
  msg := { body := serializeMessage orderMessage }
  reply := .ok { status := "ok", taskId := "a" }

/-- The same, once the run was cancelled. -/
def lateDelivery : Attempt :=
  { delivery with state := .ok { tenantId := "t", goal := "", status := .cancelled } }

theorem order_carries : Conveys orderReader delivery.msg.body orderTask orderContext :=
  ⟨orderMessage, rfl, rfl⟩

theorem order_committed : (orderPool.deliver platform orderReader delivery {}).1.Committed "k" :=
  ⟨_, List.mem_singleton_self _, rfl⟩

end Sample

open Sample in
/-- The task is handled and its run cancelled: the second delivery is skipped. -/
theorem handled_once_committed_cancelled :
    OnceCommitted platform orderReader orderPool "k" (Acknowledged platform orderReader orderPool "k") {}
      [delivery, lateDelivery] := by
  refine (handled_once_committed platform orderReader orderPool order_carries {} [delivery, lateDelivery] ?_).1.mpr
    ⟨fun none => ?_, fun _ => ?_, trivial⟩
  · intro a member
    simp only [List.mem_cons, List.not_mem_nil, or_false] at member
    rcases member with rfl | rfl
    · rfl
    · rfl
  · obtain ⟨_, member, _⟩ := none
    cases member
  · refine ⟨fun asked => ?_, rfl, fun _ => rfl⟩
    cases asked

open Sample in
/-- The message delivered twice: the agent handles it twice, the second time after its result was
published. -/
theorem handled_again : ¬ ∀ (p : Platform) (r : Reader) (pool : WorkerPool), pool.guarded = true →
    ∀ (body : String) (taskBody : Dict String Json) (ctx : L2Context), Conveys r body taskBody ctx →
    ∀ as : List Attempt, (∀ a ∈ as, a.msg.body = body) →
      OnceCommitted p r pool (idempotencyKey p.unicode taskBody)
        (Acknowledged p r pool (idempotencyKey p.unicode taskBody)) {} as := by
  intro skipped
  have one : ∀ a ∈ [delivery, delivery], a.msg.body = delivery.msg.body := by
    simp
  have again := (acknowledged_iff order_carries one).mp
    (skipped platform orderReader orderPool rfl _ _ _ order_carries _ one)
  obtain ⟨_, cancelled, _⟩ := again.2.1 order_committed
  cases cancelled

end Maof
