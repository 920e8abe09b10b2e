import Maof.Workers.Causality
import Maof.Workflows.Replay

/-!
# One result of a step

Tasks and results are delivered as often as the broker likes, and runs are taken up
again as often as need be. But a worker answers under the key of the task, all tasks
of a step carry one key, and the store keeps one result of a key.
-/

namespace Maof

open Effects (Machine Pool Label)
open Data (Dict)

/-- The store has one result of a key. -/
def World.Keyed (w : World) : Prop := (w.results.map ResultEnvelope.idempotencyKey).Nodup

theorem ResultStore.save_keyed {rows : List ResultEnvelope} (keyed : (rows.map ResultEnvelope.idempotencyKey).Nodup)
    (envelope : ResultEnvelope) : ((ResultStore.save rows envelope).1.map ResultEnvelope.idempotencyKey).Nodup := by
  unfold ResultStore.save
  split
  · exact keyed
  · next new =>
      rw [List.map_append, List.map_singleton, List.nodup_append]
      refine ⟨keyed, List.nodup_singleton _, fun key old key' mine same => ?_⟩
      obtain ⟨e, member, rfl⟩ := List.mem_map.mp old
      rw [List.mem_singleton.mp mine] at same
      exact new (List.any_eq_true.mpr ⟨e, member, decide_eq_true same⟩)

theorem World.Keyed.perform {w : World} (keyed : w.Keyed) (dep : Deployment) (c : Choice) (op : Op) :
    (World.perform dep c w op).1.Keyed := by
  unfold World.Keyed
  by_cases delivery : ∃ e, op = .saveResult e
  · obtain ⟨e, rfl⟩ := delivery
    rcases World.perform_world dep c w (.saveResult e) with same | ⟨record, same⟩
    · rw [same]
      exact keyed
    · rw [same]
      exact ResultStore.save_keyed keyed e
  · rw [World.perform_results fun e same => delivery ⟨e, same⟩]
    exact keyed

/-- All messages of the step of the run were made under the same flags. -/
def World.FlaggedAlike (w : World) (r : RunId) (id : StepId) : Prop :=
  ∀ m ∈ w.published, ∀ m' ∈ w.published, m.message.envelope.runId = r → m'.message.envelope.runId = r →
    m.message.task.stepRef = some id → m'.message.task.stepRef = some id → m.message.policyFlags = m'.message.policyFlags

namespace Site

variable {o : Orchestrator} {p : Platform} {r : Reader} {pool : WorkerPool} {ex : WorkflowExecutor} {d : WorkflowDefinition}
  {s : Site} {registry : List RegistryEntry} {rulesets : String → String → Option LoadedRuleset} {clock : Int}

/-- What the orchestrator does on a site it may do by itself. -/
theorem orchestrator_run (reached : Relation.ReflTransGen (Moves o p r pool) (fresh registry rulesets clock) s) :
    Machine.Run o.untracked (fun _ _ => true) (Orchestrator.start Unit (World.fresh registry rulesets clock)) s.orchestrator := by
  induction reached with
  | refl => exact .refl _
  | tail _ moves ih =>
      cases moves with
      | orchestrate step _ => exact ih.tail rfl step
      | deliver => exact ih

theorem keyed {q : Pool RunSig World Unit} (run : Machine.Run o.untracked (fun _ _ => true)
    (Orchestrator.start Unit (World.fresh registry rulesets clock)) q) : q.world.Keyed := by
  refine run.invariant (I := fun q : Pool RunSig World Unit => q.world.Keyed) List.nodup_nil fun q l q' keyed _ step => ?_
  rcases Machine.step_cases step with ⟨a, rfl, rfl⟩ | ⟨i, c, op, k, g, rfl, found, rfl⟩ | ⟨i, b, rfl, found, rfl⟩ | ⟨e, rfl, rfl⟩
  · exact keyed
  · exact keyed.perform o.deployment c op
  · exact keyed
  · cases e <;> exact keyed

/-- A stored result has the key of a task of its step. -/
theorem Ordered.task {e : ResultEnvelope} (ordered : Ordered o ex d s) (stored : e ∈ s.orchestrator.world.results) :
    ∃ m ∈ s.orchestrator.world.published, m.message.envelope.runId = e.runId ∧ m.message.task.stepRef = some e.stepRef ∧
      m.message.task.idempotencyKey = e.idempotencyKey := by
  obtain ⟨x, member, run, ref, key⟩ := ordered.origin e stored
  obtain ⟨m, published, _, run', ref', key'⟩ := ordered.asked x member
  exact ⟨m, published, run'.symm.trans run, ref'.trans (congrArg some ref), key'.symm.trans key⟩

/-- A message is named by the step it is of. -/
theorem Ordered.described {m : Published} (ordered : Ordered o ex d s) (accepted : d.Accepted)
    (published : m ∈ s.orchestrator.world.published) {step : WorkflowStep} (member : step ∈ d.steps)
    (ref : m.message.task.stepRef = some step.id) : m.message.task.description = WorkflowExecutor.objective d step := by
  obtain ⟨other, inside, ⟨named, described⟩, _⟩ := ordered.safe.1.1 m published
  obtain rfl := accepted.eq_of_id inside member (Option.some.inj (named.symm.trans ref))
  exact described

end Site

/-- However often tasks and results are delivered, runs are resumed and processes fail: the store has at most one result of a
step of a run whose messages were made under the same flags, and so the step is never answered in two ways. -/
theorem one_result_per_step (o : Orchestrator) (p : Platform) (r : Reader) (pool : WorkerPool) (ex : WorkflowExecutor)
    (d : WorkflowDefinition) (accepted : d.Accepted) (named : ∀ step ∈ d.steps, step.id ≠ "") (extra : Dict String Json)
    (before after : List PipelineStage) (runs : o.Runs p ex d extra before after) (idle : Idle before after)
    (undisturbed : Replay.Undisturbed before after) (registry : List RegistryEntry)
    (rulesets : String → String → Option LoadedRuleset) (clock : Int) {s : Site}
    (reached : Relation.ReflTransGen (Site.Moves o p r pool) (Site.fresh registry rulesets clock) s) :
    ∀ runId, ∀ step ∈ d.steps, ex.ReadsBehind p d step → s.orchestrator.world.FlaggedAlike runId step.id →
      ResultStore.count s.orchestrator.world.results runId step.id ≤ 1 := by
  intro runId step member behind alike
  have ordered := (Site.ordered accepted named runs idle (Site.fresh_ordered registry rulesets clock) reached).1
  have run := Site.orchestrator_run reached
  have derived := Replay.derived runs accepted undisturbed registry rulesets clock run
  have one : ∀ e ∈ ResultStore.list s.orchestrator.world.results runId step.id,
      ∀ e' ∈ ResultStore.list s.orchestrator.world.results runId step.id, e.idempotencyKey = e'.idempotencyKey := by
    intro e listed e' listed'
    simp only [ResultStore.list, List.mem_filter, decide_eq_true_eq] at listed listed'
    obtain ⟨m, published, run, ref, key⟩ := ordered.task listed.1
    obtain ⟨m', published', run', ref', key'⟩ := ordered.task listed'.1
    rw [listed.2.1] at run
    rw [listed'.2.1] at run'
    rw [listed.2.2] at ref
    rw [listed'.2.2] at ref'
    have agree := (derived m published).agree (derived m' published') member behind (ordered.described accepted published member ref)
      (ordered.described accepted published' member ref') (alike m published m' published' run run' ref ref')
      (by rw [run, run']) (by rw [run, run']; exact Replay.SameResults.rfl)
    exact key.symm.trans ((agree.2 (run.trans run'.symm)).trans key')
  have keyed : ((ResultStore.list s.orchestrator.world.results runId step.id).map ResultEnvelope.idempotencyKey).Nodup :=
    (Site.keyed run).sublist (List.filter_sublist.map _)
  rw [ResultStore.count]
  generalize ResultStore.list s.orchestrator.world.results runId step.id = rows at one keyed
  rcases rows with _ | ⟨e, _ | ⟨e', rest⟩⟩
  · exact Nat.zero_le 1
  · exact le_refl 1
  · have same := one e List.mem_cons_self e' (List.mem_cons_of_mem _ List.mem_cons_self)
    simp [same] at keyed

open Sample in
/-- The worker's answer is delivered twice. -/
theorem one_result_relayed : ∃ (r : Reader) (pool : WorkerPool) (s : Site),
    Relation.ReflTransGen (Site.Moves (orchestrator relay) platform r pool) (Site.fresh [] (fun _ _ => none) 0) s ∧
      handedOn s.orchestrator = true ∧ ∀ runId, ∀ step ∈ relay.steps, ResultStore.count s.orchestrator.world.results runId step.id ≤ 1 := by
  obtain ⟨r, pool, s, reached, met⟩ := relayed
  refine ⟨r, pool, s, reached, met, fun runId step member => ?_⟩
  simp only [handedOn, Bool.and_eq_true, List.all_eq_true, List.isEmpty_iff] at met
  have behind : executor.ReadsBehind platform relay step := by
    intro id read
    simp only [relay, List.mem_cons, List.not_mem_nil, or_false] at member
    rcases member with rfl | rfl <;> cases read
  exact one_result_per_step (orchestrator relay) platform r pool executor relay (by decide +kernel) (by decide) [] [] []
    (orchestrator_runs relay) (fun _ none => absurd none List.not_mem_nil) (fun _ none => absurd none List.not_mem_nil) _ _ _ reached
    runId step member behind fun m published m' published' _ _ _ _ => (met.2 m published).trans (met.2 m' published').symm

end Maof
