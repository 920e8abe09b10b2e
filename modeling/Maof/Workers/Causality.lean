import Maof.Data.Dataflow
import Maof.Workers.Answers
import Maof.Workers.Consultation
import Maof.Workflows.Ledger

/-!
# Causal order

The orchestrator and a worker pool, with the broker between them. Tasks are
delivered late, more than once and in any order, and so are results; processes on
either side fail. Still no worker is handed a step before the steps it waits for
have been answered by a worker.
-/

namespace Maof

open Effects (Machine Pool Label)
open Data (Dict Dataflow)

/-! ## What one delivery publishes -/

/-- The pool has answered for the step of the run. -/
def PoolWorld.Answered (w : PoolWorld) (r : RunId) (id : StepId) : Prop :=
  ∃ publication ∈ w.published, publication.envelope.runId = r ∧ publication.envelope.stepRef = id

/-- The result is one the pool has published, as far as it is told apart from others. -/
def PoolWorld.Conveys (w : PoolWorld) (e : ResultEnvelope) : Prop :=
  ∃ publication ∈ w.published, publication.envelope.runId = e.runId ∧ publication.envelope.stepRef = e.stepRef ∧
    publication.envelope.idempotencyKey = e.idempotencyKey

theorem PoolWorld.Conveys.answered {w : PoolWorld} {e : ResultEnvelope} (conveys : w.Conveys e) : w.Answered e.runId e.stepRef := by
  obtain ⟨publication, member, run, ref, _⟩ := conveys
  exact ⟨publication, member, run, ref⟩

namespace WorkerPool

/-- Whatever is published is for this step of this run, under this key. -/
def Addressed (runId : RunId) (id : StepId) (key : String) : PoolOp → Prop
  | .publish publication => publication.envelope.runId = runId ∧ publication.envelope.stepRef = id ∧
      publication.envelope.idempotencyKey = key
  | _ => True

section delivery

variable {p : Platform} {r : Reader} {pool : WorkerPool} {a : Attempt} {w : PoolWorld} {taskBody : Dict String Json} {ctx : L2Context}
  {runId : RunId} {id : StepId} {key : String}

theorem addressed_runCancelled {run : RunId} : (pool.runCancelled run).Uses (Addressed runId id key) := by
  unfold runCancelled
  split
  · refine Effects.Act.uses_tryCatch (Effects.Act.uses_bind (Effects.Act.uses_await (S := PoolSig) trivial)
      fun _ => Effects.Act.uses_pure _) fun e => ?_
    cases e with
    | keyError _ => exact Effects.Act.uses_pure _
    | _ => exact Effects.Act.uses_throw _
  · exact Effects.Act.uses_pure _

theorem addressed_emit {eventType : String} {details : Dict String Json} :
    (pool.emit ctx eventType details).Uses (Addressed runId id key) := by
  unfold emit
  split
  · exact Effects.Act.uses_await (S := PoolSig) trivial
  · exact Effects.Act.uses_pure ()

theorem addressed_once {guarded : Bool} {name : String} {fn : PoolM Unit} (inner : fn.Uses (Addressed runId id key)) :
    (once guarded name fn).Uses (Addressed runId id key) := by
  unfold once
  split
  · refine Effects.Act.uses_bind (Effects.Act.uses_await (S := PoolSig) trivial) fun held => ?_
    split
    · exact Effects.Act.uses_bind inner fun _ => Effects.Act.uses_await (S := PoolSig) trivial
    · exact Effects.Act.uses_pure ()
  · exact inner

theorem envelope_of_publication {signer : Signer} {timestamp queue : String} {envelope : ResultEnvelope} {out : ResultPublication}
    (made : resultPublication p signer timestamp queue envelope = .ok out) : out.envelope = envelope := by
  unfold resultPublication at made
  cases signed : signer.sign p (serializeMessage (envelope.dump timestamp)) with
  | error e => simp [signed, bind, Except.bind] at made
  | ok sig =>
      simp only [signed, bind, Except.bind, pure, Except.pure, Except.ok.injEq] at made
      rw [← made]

theorem addressed_respond {timestamp : String} {result : TaskResult} (run : ctx.envelope.runId = runId)
    (step : stepRef p.unicode taskBody = id) (keyed : idempotencyKey p.unicode taskBody = key) :
    (pool.respond p timestamp taskBody ctx result).Uses (Addressed runId id key) := by
  refine Effects.Act.uses_bind (Effects.Act.uses_ofExcept _) fun _ => ?_
  split
  · refine Effects.Act.uses_bind (addressed_once (Effects.Act.uses_ofExcept_bind fun publication made => ?_)) fun _ => addressed_emit
    refine Effects.Act.uses_await (S := PoolSig) ?_
    simp only [Addressed, envelope_of_publication made]
    exact ⟨run, step, keyed⟩
  · exact addressed_emit

theorem admitted_envelope {agent : String} {ctx' : L2Context} (let_ : pool.admitted p taskBody ctx = .ok (agent, ctx')) :
    ctx'.envelope = ctx.envelope := by
  have stripped := ConsultingPool.admitted_strips let_
  unfold stripTools at stripped
  obtain ⟨held, _, same⟩ := ok_of_bind stripped
  cases same
  rfl

/-- A message is answered for the run and the step it names. -/
theorem addressed_handle {timestamp : String} {msg : IncomingMessage}
    (read : ∀ taskBody ctx, pool.received p r msg = .ok (taskBody, ctx) →
      ctx.envelope.runId = runId ∧ stepRef p.unicode taskBody = id ∧ idempotencyKey p.unicode taskBody = key) :
    (pool.handle p r timestamp msg).Uses (Addressed runId id key) := by
  refine Effects.Act.uses_ofExcept_bind fun received taken => ?_
  obtain ⟨taskBody, ctx⟩ := received
  obtain ⟨run, step, keyed⟩ := read taskBody ctx taken
  refine Effects.Act.uses_bind addressed_runCancelled fun cancelled => ?_
  split
  · exact addressed_emit
  · refine Effects.Act.uses_ofExcept_bind fun admitted let_ => ?_
    obtain ⟨agent, ctx'⟩ := admitted
    refine Effects.Act.uses_bind (Effects.Act.uses_await (S := PoolSig) trivial) fun result => ?_
    exact addressed_respond ((congrArg TaskEnvelope.runId (admitted_envelope let_)).trans run) step keyed

/-- Every call of a delivery but the publication leaves the published results. -/
theorem perform_published {op : PoolOp} (addressed : Addressed runId id key op) :
    (PoolWorld.perform a w op).1.published = w.published ∨ ∃ publication, Addressed runId id key (.publish publication) ∧
      (PoolWorld.perform a w op).1.published = w.published ++ [publication] := by
  unfold PoolWorld.perform
  cases op with
  | publish publication =>
      split
      · exact .inr ⟨publication, addressed, rfl⟩
      · exact .inl rfl
      · exact .inr ⟨publication, addressed, rfl⟩
  | _ => exact .inl (by split <;> rfl)

/-- What a delivery of a task message publishes is for the message's run and the step it names, under its key. -/
theorem deliver_published {m : TaskMessage} {stamped timestamp : String} (reads : r.ReadsBack m stamped timestamp)
    (carried : a.msg.body = serializeMessage (m.dump stamped timestamp)) (named : id ≠ "") (ref : m.task.stepRef = some id) :
    ∃ added, (pool.deliver p r a w).1.published = w.published ++ added ∧
      ∀ x ∈ added, Addressed m.envelope.runId id m.task.idempotencyKey (.publish x) := by
  obtain ⟨message, taskBody, ctx, loaded, rebuilt, agrees, _, _, same⟩ := reconstructs reads
  have run : ctx.envelope.runId = m.envelope.runId := by
    have read := congrArg TaskEnvelope.runId agrees.1
    exact read
  have found : Dict.get taskBody "step_ref" = some (.str id) := get_of_task same (by simp [Task.dump, ref, Dict.get, Json.ofStr?])
  have read : ∀ taskBody' ctx', pool.received p r a.msg = .ok (taskBody', ctx') →
      ctx'.envelope.runId = m.envelope.runId ∧ stepRef p.unicode taskBody' = id ∧
        idempotencyKey p.unicode taskBody' = m.task.idempotencyKey := by
    intro taskBody' ctx' taken
    have signed : Signed p pool a.msg := by
      by_contra unsigned
      obtain ⟨e, refused⟩ := @received_of_unsigned p r pool a unsigned
      rw [refused] at taken
      cases taken
    have known := @received_of_signed p r pool a taskBody ctx ⟨message, carried ▸ loaded, rebuilt⟩ signed
    rw [known] at taken
    cases taken
    exact ⟨run, stepRef_of_task found named, text_of_task (get_of_task same rfl)⟩
  refine (addressed_handle read ()).eval (J := fun w' : PoolWorld => ∃ added, w'.published = w.published ++ added ∧
    ∀ x ∈ added, Addressed m.envelope.runId id m.task.idempotencyKey (.publish x)) ?_ ⟨[], (List.append_nil _).symm, fun _ none => absurd none List.not_mem_nil⟩
  rintro op addressed w' ⟨added, so_far, mine⟩
  rcases @perform_published a w' _ _ _ _ addressed with same | ⟨publication, mine', more⟩
  · exact ⟨added, same.trans so_far, mine⟩
  · refine ⟨added ++ [publication], ?_, fun x member => ?_⟩
    · rw [more, so_far, List.append_assoc]
    · rcases List.mem_append.mp member with old | new
      · exact mine x old
      · rw [List.mem_singleton.mp new]
        exact mine'

end delivery

end WorkerPool

/-! ## What a message waited for -/

/-- The step's result comes back through the queue. -/
def WorkflowDefinition.Answerable (d : WorkflowDefinition) (ex : WorkflowExecutor) (id : StepId) : Prop :=
  ∃ step ∈ d.steps, step.id = id ∧ ex.Queues step

/-- A message is a step's, and the steps it waits for have results. -/
def Awaited (ex : WorkflowExecutor) (d : WorkflowDefinition) (w : World) (m : TaskMessage) : Prop :=
  ∃ step ∈ d.steps, (m.task.stepRef = some step.id ∧ m.task.description = WorkflowExecutor.objective d step) ∧ ∀ id ∈ step.dependsOn, d.Answerable ex id →
    ∃ e ∈ w.results, e.runId = m.envelope.runId ∧ e.stepRef = id

section ledger

variable {p : Platform} {ex : WorkflowExecutor} {d : WorkflowDefinition}

theorem FirstResult.mem {results : List ResultEnvelope} {r : RunId} {id : StepId} {output : Dict String Json}
    (first : FirstResult results r id output) : ∃ e ∈ results, e.runId = r ∧ e.stepRef = id := by
  obtain ⟨e, head, _⟩ := first
  have listed := List.mem_of_mem_head? head
  simp only [ResultStore.list, List.mem_filter, decide_eq_true_eq] at listed
  exact ⟨e, listed.1, listed.2⟩

theorem Awaited.mono {w w' : World} {m : TaskMessage} (grown : w.Grown w') (awaited : Awaited ex d w m) : Awaited ex d w' m := by
  obtain ⟨step, member, ref, results⟩ := awaited
  refine ⟨step, member, ref, fun id depends answerable => ?_⟩
  obtain ⟨e, stored, mine⟩ := results id depends answerable
  exact ⟨e, grown.1.subset stored, mine⟩

/-- Outputs are first results, and every message waited for those it needs. -/
def awaiting (ex : WorkflowExecutor) (d : WorkflowDefinition) : Ledger where
  states w info work := Sourced ex d w.results info.runId work
  tells w m := Awaited ex d w m
  states_grown grown sourced := sourced.mono grown.1
  tells_grown grown awaited := awaited.mono grown
  note _ sourced := sourced
  record _ sourced := sourced
  restored sourced := sourced
  start := fun {w _ _ runId} _ _ => Sourced.blank w runId

def awaited_held (p : Platform) (named : ∀ step ∈ d.steps, step.id ≠ "") : (awaiting ex d).Held p ex d where
  held w info work := Sourced ex d w.results info.runId work
  states := id
  grown grown sourced := sourced.mono grown.1
  same sourced outputs _ _ := sourced.rewrite outputs
  put sourced first := sourced.put first
  tells {w info work step q} sourced member ready _ made := by
    refine ⟨step, member, ?_, fun id depends answerable => ?_⟩
    · simp only [World.messageOf, buildTaskMessage, made, QueueDispatcher.taskOf, QueueDispatcher.stepRef,
        WorkflowExecutor.delegation, orElse, if_neg (named step member), true_and]
    · obtain ⟨other, inside, rfl, queues⟩ := answerable
      obtain ⟨output, found⟩ := Option.isSome_iff_exists.mp (ready other.id depends)
      exact (sourced other inside queues output found).mem

/-- The stages beside the workflow hand nothing out. -/
def Idle (before after : List PipelineStage) : Prop :=
  ∀ stage ∈ before ++ after, ∀ info, (stage.execute info).Uses fun op : StageOp => op.publishes = false

theorem awaiting_takes {o : Orchestrator} {extra : Dict String Json} {before after : List PipelineStage}
    (runs : o.Runs p ex d extra before after) (accepted : d.Accepted) (named : ∀ step ∈ d.steps, step.id ≠ "")
    (idle : Idle before after) (dep : Deployment) (info : RunInfo) :
    ∀ stage ∈ o.l1.pipeline, ((awaiting ex d).rule dep).Takes info stage := by
  intro stage inside
  rw [runs.pipeline, List.mem_append, List.mem_cons] at inside
  have other : stage ∈ before ++ after → ((awaiting ex d).rule dep).Takes info stage := by
    intro member
    refine quiet_takes (T := fun work work' => work'.extras.workflow = work.extras.workflow) (fun work => ?_)
      (idle stage member info) (fun plain valid law => Ledger.silent plain valid law) ?_
    · exact (runs.quiet stage member info work).weaken fun _ both => both.1
    · intro completed work work' w same sourced
      refine Sourced.rewrite sourced ?_
      simp only [Work.workflow, same]
  rcases inside with first | rfl | last
  · exact other (List.mem_append_left _ first)
  · exact Ledger.workflowStage_states (awaited_held p named) accepted id fun _ => id
  · exact other (List.mem_append_right _ last)

end ledger

/-! ## Both sides -/

/-- The orchestrator's processes and world, and what the worker pool has left. -/
structure Site where
  orchestrator : Pool RunSig World Unit
  workers : PoolWorld := {}

/-- What happens on a site: the orchestrator's machine moves, where only what the pool published is taken in as a result; or a
published task message is delivered to the pool, now or again. -/
inductive Site.Moves (o : Orchestrator) (p : Platform) (r : Reader) (pool : WorkerPool) : Site → Site → Prop
  | orchestrate {s : Site} {q : Pool RunSig World Unit} {l : Label Choice Actor EnvMove} :
      o.untracked.step s.orchestrator l = some q →
      (∀ i c e k g, l = .run i c → s.orchestrator.procs[i]? = some ⟨.call (.saveResult e) k, g⟩ →
        s.workers.Conveys e) →
      Moves o p r pool s { s with orchestrator := q }
  | deliver {s : Site} {m : Published} {a : Attempt} {stamped timestamp : String} :
      m ∈ s.orchestrator.world.published → m.sent = true →
      a.msg.body = serializeMessage (m.message.dump stamped timestamp) → r.ReadsBack m.message stamped timestamp →
      Moves o p r pool s { s with workers := (pool.deliver p r a s.workers).1 }

/-- From the one step to the other, back through what was waited for. -/
inductive Behind (ex : WorkflowExecutor) (d : WorkflowDefinition) : WorkflowStep → StepId → Prop
  | direct {step : WorkflowStep} {id : StepId} : id ∈ step.dependsOn → d.Answerable ex id → Behind ex d step id
  | through {step other : WorkflowStep} {id : StepId} : other.id ∈ step.dependsOn → other ∈ d.steps → ex.Queues other →
      Behind ex d other id → Behind ex d step id

/-- What the queue steps of the runs are, seen from far: each waits for those of its run that it depends on. -/
def WorkflowDefinition.dataflow (d : WorkflowDefinition) (ex : WorkflowExecutor) : Dataflow (RunId × StepId) where
  waits k k' := k.1 = k'.1 ∧ ∃ step ∈ d.steps, step.id = k.2 ∧ k'.2 ∈ step.dependsOn ∧ d.Answerable ex k'.2

/-- What a site looks like from there. -/
def Site.dataflow (s : Site) : Dataflow.State (RunId × StepId) where
  sent := (s.orchestrator.world.published.filter Published.sent).map fun m => (m.message.envelope.runId, m.message.task.stepRef.getD "")
  answered := s.workers.published.map fun x => (x.envelope.runId, x.envelope.stepRef)

/-- An answer comes after the answers to all that its step waited for. -/
def Causal (ex : WorkflowExecutor) (d : WorkflowDefinition) (published : List ResultPublication) : Prop :=
  ∀ before x after, published = before ++ x :: after → ∀ step ∈ d.steps, step.id = x.envelope.stepRef →
    ∀ id, Behind ex d step id → ∃ y ∈ before, y.envelope.runId = x.envelope.runId ∧ y.envelope.stepRef = id

namespace Site

variable {o : Orchestrator} {p : Platform} {r : Reader} {pool : WorkerPool} {ex : WorkflowExecutor} {d : WorkflowDefinition}
  {s s' : Site}

/-- What holds on a site at any time. -/
structure Ordered (o : Orchestrator) (ex : WorkflowExecutor) (d : WorkflowDefinition) (s : Site) : Prop where
  safe : Machine.AllSafe ((awaiting ex d).contract o.deployment) s.orchestrator
  origin : ∀ e ∈ s.orchestrator.world.results, s.workers.Conveys e
  asked : ∀ x ∈ s.workers.published, ∃ m ∈ s.orchestrator.world.published, m.sent = true ∧
    x.envelope.runId = m.message.envelope.runId ∧ m.message.task.stepRef = some x.envelope.stepRef ∧
      x.envelope.idempotencyKey = m.message.task.idempotencyKey

theorem waits_of_behind {step : WorkflowStep} {id : StepId} (behind : Behind ex d step id) (member : step ∈ d.steps) (run : RunId) :
    Relation.TransGen (d.dataflow ex).waits (run, step.id) (run, id) := by
  induction behind with
  | direct depends answerable => exact .single ⟨rfl, _, member, rfl, depends, answerable⟩
  | @through step other id depends inside queues _ ih =>
      have waits : (d.dataflow ex).waits (run, step.id) (run, other.id) := ⟨rfl, step, member, rfl, depends, other, inside, rfl, queues⟩
      exact .head waits (ih inside)

theorem mem_answered {w : PoolWorld} {run : RunId} {id : StepId} :
    (run, id) ∈ w.published.map (fun x => (x.envelope.runId, x.envelope.stepRef)) ↔ w.Answered run id := by
  simp only [List.mem_map, Prod.mk.injEq, PoolWorld.Answered]

/-- The answers are in the order of the dataflow. -/
theorem causal_of_reached (reached : Relation.ReflTransGen (d.dataflow ex).Step {} s.dataflow) : Causal ex d s.workers.published := by
  intro before x after split step member named id behind
  have inOrder := Dataflow.InOrder.of_reached reached
  have answered : s.dataflow.answered = before.map (fun x => (x.envelope.runId, x.envelope.stepRef)) ++
      (x.envelope.runId, step.id) :: after.map fun x => (x.envelope.runId, x.envelope.stepRef) := by
    rw [dataflow, split, List.map_append, List.map_cons, named]
  obtain ⟨y, there, same⟩ := List.mem_map.mp (inOrder.after_all answered (waits_of_behind behind member x.envelope.runId))
  exact ⟨y, there, Prod.mk.inj same⟩

/-- What the pool has published stays published. -/
theorem conveys_append {w w' : PoolWorld} {added : List ResultPublication} (more : w'.published = w.published ++ added)
    {e : ResultEnvelope} (conveys : w.Conveys e) : w'.Conveys e := by
  obtain ⟨x, member, mine⟩ := conveys
  exact ⟨x, more ▸ List.mem_append_left _ member, mine⟩

/-- A move of the orchestrator publishes a message or none. -/
theorem published_step {q : Pool RunSig World Unit} {l : Label Choice Actor EnvMove} (step : o.untracked.step s.orchestrator l = some q) :
    q.world.published = s.orchestrator.world.published ∨ ∃ m, q.world.published = s.orchestrator.world.published ++ [m] := by
  rcases Machine.step_cases step with ⟨a, rfl, rfl⟩ | ⟨i, c, op, k, g, rfl, found, rfl⟩ | ⟨i, b, rfl, found, rfl⟩ | ⟨e, rfl, rfl⟩
  · exact .inl rfl
  · by_cases publishes : ∃ info q, op = .stage info (.publishTask q)
    · obtain ⟨info, q, rfl⟩ := publishes
      exact (World.perform_publish o.deployment c s.orchestrator.world info q).imp (fun same => same) fun more => ⟨_, more⟩
    · exact .inl (World.perform_published fun info q same => publishes ⟨info, q, same⟩)
  · exact .inl rfl
  · cases e <;> exact .inl rfl

theorem results_step {q : Pool RunSig World Unit} {l : Label Choice Actor EnvMove}
    (step : o.untracked.step s.orchestrator l = some q) {e : ResultEnvelope} (member : e ∈ q.world.results) :
    e ∈ s.orchestrator.world.results ∨
      ∃ i c k g, l = .run i c ∧ s.orchestrator.procs[i]? = some ⟨.call (.saveResult e) k, g⟩ := by
  rcases Machine.step_cases step with ⟨a, rfl, rfl⟩ | ⟨i, c, op, k, g, rfl, found, rfl⟩ | ⟨i, b, rfl, found, rfl⟩ | ⟨e, rfl, rfl⟩
  · exact .inl member
  · rcases World.results_from (d := o.deployment) (c := c) member with old | rfl
    · exact .inl old
    · exact .inr ⟨i, c, k, g, rfl, found⟩
  · exact .inl member
  · cases e <;> exact .inl member

theorem Ordered.step (safe : ∀ a {w}, ((awaiting ex d).contract o.deployment).valid w →
      (o.program a).Safe ((awaiting ex d).contract o.deployment) (fun _ _ => True) w)
    (obeys : o.untracked.Obeys ((awaiting ex d).contract o.deployment) fun _ _ => true) (accepted : d.Accepted)
    (named : ∀ step ∈ d.steps, step.id ≠ "") (ordered : Ordered o ex d s) (moves : Moves o p r pool s s') :
    Ordered o ex d s' ∧ Relation.ReflTransGen (d.dataflow ex).Step s.dataflow s'.dataflow := by
  cases moves with
  | @orchestrate q l step taken =>
      have kept := (Machine.step_allSafe obeys rfl (fun a _ => safe a ordered.safe.1) ordered.safe step).1
      have origin : ∀ e ∈ q.world.results, s.workers.Conveys e := by
        intro e member
        rcases results_step step member with old | ⟨i, c, k, g, same, found⟩
        · exact ordered.origin e old
        · exact taken i c e k g same found
      rcases published_step step with same | ⟨m, more⟩
      · refine ⟨⟨kept, origin, fun x member => same ▸ ordered.asked x member⟩, ?_⟩
        simp only [dataflow, same]
        exact .refl
      · refine ⟨⟨kept, origin, fun x member => ?_⟩, ?_⟩
        · obtain ⟨m', published, rest⟩ := ordered.asked x member
          exact ⟨m', more ▸ List.mem_append_left _ published, rest⟩
        · cases sent : m.sent with
          | false =>
              simp only [dataflow, more, List.filter_append, List.filter_singleton, sent, List.append_nil, cond_false]
              exact .refl
          | true =>
              -- what the message waited for has been answered
              obtain ⟨step, member, ⟨ref, _⟩, results⟩ := kept.1.1 m (more ▸ List.mem_append_right _ List.mem_cons_self)
              have ready : ∀ k, (d.dataflow ex).waits (m.message.envelope.runId, step.id) k → k ∈ s.dataflow.answered := by
                rintro ⟨run, id⟩ ⟨rfl, other, inside, same, depends, answerable⟩
                obtain rfl := accepted.eq_of_id inside member same
                obtain ⟨e, stored, owner, ref'⟩ := results id depends answerable
                exact mem_answered.mpr (owner ▸ ref' ▸ (origin e stored).answered)
              have next : (d.dataflow ex).Step s.dataflow _ := .send _ ready
              simp only [dataflow, more, List.filter_append, List.filter_singleton, sent, cond_true, List.map_append, List.map_cons,
                List.map_nil, ref, Option.getD_some] at next ⊢
              exact .single next
  | @deliver m a stamped timestamp published sent carried reads =>
      obtain ⟨step, member, ⟨ref, _⟩, results⟩ := ordered.safe.1.1 m published
      obtain ⟨added, more, mine⟩ := @WorkerPool.deliver_published p r pool a s.workers step.id m.message stamped timestamp reads carried
        (named step member) ref
      refine ⟨⟨ordered.safe, fun e stored => conveys_append more (ordered.origin e stored), fun x there => ?_⟩, ?_⟩
      · rcases List.mem_append.mp (more ▸ there) with old | new
        · exact ordered.asked x old
        · obtain ⟨run, step', keyed⟩ := mine x new
          exact ⟨m, published, sent, run, ref.trans (congrArg some step'.symm), keyed⟩
      · have handed : ∀ k ∈ added.map (fun x => (x.envelope.runId, x.envelope.stepRef)), k ∈ s.dataflow.sent := by
          intro k listed
          obtain ⟨x, new, rfl⟩ := List.mem_map.mp listed
          obtain ⟨run, step', _⟩ := mine x new
          refine List.mem_map.mpr ⟨m, List.mem_filter.mpr ⟨published, sent⟩, ?_⟩
          rw [ref, Option.getD_some, run, step']
        have next := @Dataflow.reaches_answers _ (d.dataflow ex) _ _ handed
        simp only [dataflow, more, List.map_append] at next ⊢
        exact next

/-- A site on which nothing has happened. -/
def fresh (registry : List RegistryEntry) (rulesets : String → String → Option LoadedRuleset) (clock : Int) : Site where
  orchestrator := Orchestrator.start Unit (World.fresh registry rulesets clock)

theorem fresh_ordered (registry : List RegistryEntry) (rulesets : String → String → Option LoadedRuleset) (clock : Int) :
    Ordered o ex d (fresh registry rulesets clock) :=
  ⟨(awaiting ex d).fresh_safe o.deployment registry rulesets clock, fun _ none => absurd none List.not_mem_nil, fun _ none => absurd none List.not_mem_nil⟩

/-- Whatever happens on a site. -/
theorem ordered (accepted : d.Accepted) (named : ∀ step ∈ d.steps, step.id ≠ "") {extra : Dict String Json}
    {before after : List PipelineStage} (runs : o.Runs p ex d extra before after) (idle : Idle before after)
    (ordered : Ordered o ex d s) (reached : Relation.ReflTransGen (Moves o p r pool) s s') :
    Ordered o ex d s' ∧ Relation.ReflTransGen (d.dataflow ex).Step s.dataflow s'.dataflow := by
  obtain ⟨safe, obeys⟩ := Ledger.told (awaiting_takes runs accepted named idle o.deployment)
  induction reached with
  | refl => exact ⟨ordered, .refl⟩
  | tail _ moves ih =>
      obtain ⟨kept, next⟩ := ih.1.step safe obeys accepted named moves
      exact ⟨kept, ih.2.trans next⟩

end Site

/-- On any site, whatever fails and however often a task or a result is delivered: a result in the store is a worker's answer
to a task that was sent; a task is sent, and so comes to a worker, only after workers have answered the steps it waits for;
and the workers' answers come in an order in which no step is before one it depends on through the queue. -/
theorem causally_ordered (o : Orchestrator) (p : Platform) (r : Reader) (pool : WorkerPool) (ex : WorkflowExecutor)
    (d : WorkflowDefinition) (accepted : d.Accepted) (named : ∀ step ∈ d.steps, step.id ≠ "") (extra : Dict String Json)
    (before after : List PipelineStage) (runs : o.Runs p ex d extra before after) (idle : Idle before after)
    (registry : List RegistryEntry) (rulesets : String → String → Option LoadedRuleset) (clock : Int) {s : Site}
    (reached : Relation.ReflTransGen (Site.Moves o p r pool) (Site.fresh registry rulesets clock) s) :
    (∀ e ∈ s.orchestrator.world.results, ∃ m ∈ s.orchestrator.world.published, m.sent = true ∧
      m.message.envelope.runId = e.runId ∧ m.message.task.stepRef = some e.stepRef ∧ s.workers.Answered e.runId e.stepRef) ∧
    (∀ m ∈ s.orchestrator.world.published, ∃ step ∈ d.steps, m.message.task.stepRef = some step.id ∧
      ∀ id ∈ step.dependsOn, d.Answerable ex id → s.workers.Answered m.message.envelope.runId id) ∧
    Causal ex d s.workers.published := by
  obtain ⟨ordered, flow⟩ := Site.ordered accepted named runs idle (Site.fresh_ordered registry rulesets clock) reached
  refine ⟨fun e stored => ?_, fun m published => ?_, Site.causal_of_reached flow⟩
  · obtain ⟨x, member, run, ref, _⟩ := ordered.origin e stored
    obtain ⟨m, published, sent, run', ref', _⟩ := ordered.asked x member
    exact ⟨m, published, sent, run'.symm.trans run, ref'.trans (congrArg some ref), x, member, run, ref⟩
  · obtain ⟨step, member, ⟨ref, _⟩, results⟩ := ordered.safe.1.1 m published
    refine ⟨step, member, ref, fun id depends answerable => ?_⟩
    obtain ⟨e, stored, run, same⟩ := results id depends answerable
    exact run ▸ same ▸ (ordered.origin e stored).answered

/-- A site is one way of running the dataflow of its workflow: whatever happens on it from some time on is, seen from far, work
handed out once what it waits for has been answered, and answers to what has been handed out; and the results in the store are
answers. -/
theorem site_refines_dataflow (o : Orchestrator) (p : Platform) (r : Reader) (pool : WorkerPool) (ex : WorkflowExecutor)
    (d : WorkflowDefinition) (accepted : d.Accepted) (named : ∀ step ∈ d.steps, step.id ≠ "") (extra : Dict String Json)
    (before after : List PipelineStage) (runs : o.Runs p ex d extra before after) (idle : Idle before after)
    (registry : List RegistryEntry) (rulesets : String → String → Option LoadedRuleset) (clock : Int) :
    (Site.fresh registry rulesets clock).dataflow = {} ∧
      ∀ s, Relation.ReflTransGen (Site.Moves o p r pool) (Site.fresh registry rulesets clock) s →
        (∀ e ∈ s.orchestrator.world.results, (e.runId, e.stepRef) ∈ s.dataflow.answered) ∧
          ∀ s', Relation.ReflTransGen (Site.Moves o p r pool) s s' →
            Relation.ReflTransGen (d.dataflow ex).Step s.dataflow s'.dataflow := by
  refine ⟨rfl, fun s reached => ?_⟩
  have ordered := (Site.ordered accepted named runs idle (Site.fresh_ordered registry rulesets clock) reached).1
  exact ⟨fun e stored => Site.mem_answered.mpr (ordered.origin e stored).answered,
    fun s' later => (Site.ordered accepted named runs idle ordered later).2⟩

namespace Site

variable {o : Orchestrator} {p : Platform} {r : Reader} {pool : WorkerPool} {s : Site}

/-- The only results taken in are those listed. -/
def Admits (listed : List (RunId × StepId × String)) (q : Pool RunSig World Unit) : Label Choice Actor EnvMove → Bool
  | .run i _ =>
      match q.procs[i]? with
      | some ⟨.call (.saveResult e) _, _⟩ => decide ((e.runId, e.stepRef, e.idempotencyKey) ∈ listed)
      | _ => true
  | _ => true

/-- A run of the orchestrator that takes in answered steps only happens on the site. -/
theorem orchestrated {listed : List (RunId × StepId × String)} (conveyed : ∀ e : ResultEnvelope,
      (e.runId, e.stepRef, e.idempotencyKey) ∈ listed → s.workers.Conveys e)
    {q : Pool RunSig World Unit} (run : Machine.Run o.untracked (Admits listed) s.orchestrator q) :
    Relation.ReflTransGen (Moves o p r pool) s { s with orchestrator := q } := by
  induction run with
  | refl => exact .refl
  | @tail q' q l _ met step ih =>
      refine ih.tail (Moves.orchestrate (s := { s with orchestrator := q' }) step fun i c e k g same found => ?_)
      subst same
      simp only [Admits, found, decide_eq_true_eq] at met
      exact conveyed e met

end Site

namespace Sample

/-- A step, and one that waits for it. -/
def relay : WorkflowDefinition where
  name := "w"
  version := 1
  steps := [{ id := "a" }, { id := "b", dependsOn := ["a"] }]

/-- The result of a task, as its worker publishes it. -/
def answerTo (m : TaskMessage) : Delivery where
  decoded := .ok {
    runId := m.envelope.runId
    stepRef := m.task.stepRef.getD ""
    taskId := m.task.taskId
    idempotencyKey := m.task.idempotencyKey
    tenantId := "t"
    result := { status := "ok", taskId := m.task.taskId } }

/-- The first step has been handed out, under a key. -/
def handedOut (q : Pool RunSig World Unit) : Option TaskMessage :=
  match q.world.published with
  | [m] =>
      if m.sent ∧ m.message.task.stepRef = some "a" ∧ m.message.envelope.runId = "r" ∧ m.message.envelope.actor.isNone then some m.message
      else none
  | _ => none

/-- Its result is in, was delivered again, and the second step has been handed out. -/
def handedOn (q : Pool RunSig World Unit) : Bool :=
  decide (q.procs.length = 3) && decide (ResultStore.count q.world.results "r" "a" = 1) && decide (q.world.published.length = 2) &&
    q.world.published.all fun m => m.message.policyFlags.isEmpty

/-- The key of the message travels with its result. -/
def keyed (m : TaskMessage) : RunId × StepId × String := ("r", "a", m.task.idempotencyKey)

theorem of_handedOut {q : Pool RunSig World Unit} {message : TaskMessage} (out : handedOut q = some message) :
    ∃ m, q.world.published = [m] ∧ m.message = message ∧ m.sent = true ∧ m.message.task.stepRef = some "a" ∧
      m.message.envelope.runId = "r" ∧ m.message.envelope.actor.isNone = true := by
  unfold handedOut at out
  split at out
  · next m same =>
      split at out
      · next met => exact ⟨m, same, Option.some.inj out, met⟩
      · cases out
  · cases out

/-- A worker answers the first step, and the second is handed out. -/
theorem relayed : ∃ (r : Reader) (pool : WorkerPool) (s : Site),
    Relation.ReflTransGen (Site.Moves (orchestrator relay) platform r pool) (Site.fresh [] (fun _ _ => none) 0) s ∧
      handedOn s.orchestrator = true := by
  obtain ⟨q, run, met⟩ := Machine.follow_any (orchestrator relay).untracked (Site.Admits [])
    (Orchestrator.start Unit (World.fresh [] (fun _ _ => none) 0)) ([.spawn (.run "g" tenant none)] ++ calls 0 12)
    (fun q => (handedOut q).any fun m => ((orchestrator relay).untracked.follow (Site.Admits [keyed m]) q
      ([.spawn (.handle (answerTo m))] ++ calls 1 11 ++ [.spawn (.handle (answerTo m))] ++ calls 2 1)).any handedOn) (by decide +kernel)
  cases out : handedOut q with
  | none =>
      rw [out] at met
      cases met
  | some message =>
      rw [out] at met
      obtain ⟨q', onward, met'⟩ := Machine.follow_any _ _ _ _ _ met
      obtain ⟨m, published, rfl, sent, ref, owner, actor⟩ := of_handedOut out
      obtain ⟨reader, reads⟩ := read_exists m.message
      obtain ⟨pool, a, carried, served⟩ := served_by platform reads
      obtain ⟨x, answered, -⟩ := @served_answers _ _ _ _ _ _ served
        { runId := "r", tenant, goal := "g" } (Option.isNone_iff_eq_none.mp actor) "a" (by decide) ref
      have member : x ∈ (pool.deliver platform reader a {}).1.published := answered ▸ List.mem_append_right _ List.mem_cons_self
      obtain ⟨added, more, addressed⟩ := @WorkerPool.deliver_published platform reader pool a {} "a" m.message "" "" reads carried (by decide) ref
      have mine := addressed x (List.nil_append added ▸ more ▸ member)
      let mid : Site := { orchestrator := q, workers := (pool.deliver platform reader a {}).1 }
      have first : Relation.ReflTransGen (Site.Moves (orchestrator relay) platform reader pool) (Site.fresh [] (fun _ _ => none) 0)
          { Site.fresh [] (fun _ _ => none) 0 with orchestrator := q } :=
        Site.orchestrated (fun _ none => absurd none List.not_mem_nil) run
      have delivered : Relation.ReflTransGen (Site.Moves (orchestrator relay) platform reader pool) (Site.fresh [] (fun _ _ => none) 0) mid :=
        first.tail (.deliver (s := { Site.fresh [] (fun _ _ => none) 0 with orchestrator := q }) (published ▸ List.mem_cons_self) sent
          carried reads)
      have conveyed : ∀ e : ResultEnvelope, (e.runId, e.stepRef, e.idempotencyKey) ∈ [keyed m.message] → mid.workers.Conveys e := ?_
      · exact ⟨reader, pool, _, delivered.trans (Site.orchestrated conveyed onward), met'⟩
      intro e listed
      obtain ⟨run, rest⟩ := Prod.mk.inj (List.mem_singleton.mp listed)
      obtain ⟨step, key⟩ := Prod.mk.inj rest
      exact ⟨x, member, mine.1.trans (owner.trans run.symm), mine.2.1.trans step.symm, mine.2.2.trans key.symm⟩

end Sample

open Sample in
/-- A worker answers the first step, and the second is handed out. -/
theorem causally_ordered_relay : ∃ (r : Reader) (pool : WorkerPool) (s : Site),
    Relation.ReflTransGen (Site.Moves (orchestrator relay) platform r pool) (Site.fresh [] (fun _ _ => none) 0) s ∧
      handedOn s.orchestrator = true ∧ (∀ e ∈ s.orchestrator.world.results, s.workers.Answered e.runId e.stepRef) ∧
        Causal executor relay s.workers.published := by
  obtain ⟨r, pool, s, reached, met⟩ := relayed
  have ordered := causally_ordered (orchestrator relay) platform r pool executor relay (by decide +kernel) (by decide) [] [] []
    (orchestrator_runs relay) (fun _ none => absurd none List.not_mem_nil) _ _ _ reached
  refine ⟨r, pool, s, reached, met, fun e stored => ?_, ordered.2.2⟩
  obtain ⟨_, _, _, _, _, answer⟩ := ordered.1 e stored
  exact answer

open Sample in
/-- Seen from far, the first step is handed out and answered, and then the second is handed out. -/
theorem site_refines_relay : ∃ s : Site, handedOn s.orchestrator = true ∧
    Relation.ReflTransGen (relay.dataflow executor).Step {} s.dataflow ∧
      ∀ e ∈ s.orchestrator.world.results, (e.runId, e.stepRef) ∈ s.dataflow.answered := by
  obtain ⟨r, pool, s, reached, met⟩ := relayed
  obtain ⟨start, refines⟩ := site_refines_dataflow (orchestrator relay) platform r pool executor relay (by decide +kernel) (by decide)
    [] [] [] (orchestrator_runs relay) (fun _ none => absurd none List.not_mem_nil) [] (fun _ _ => none) 0
  have next := (refines _ .refl).2 s reached
  rw [start] at next
  exact ⟨s, met, next, (refines s reached).1⟩

end Maof
