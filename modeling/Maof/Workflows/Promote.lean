import Maof.Persistence.ResultRows
import Maof.Workflows.Definition
import Maof.Authz

/-!
# Promoting a run

The steps of a completed run as a draft definition: one for each step a result is
recorded of, in the order of their first results, each after the one before.
-/

namespace Maof

open Data (Dict)

/-- What `promote_run` is called with, and what the run store holds of the run. -/
structure Promotion where
  runId : RunId
  name : String
  version : Int := 1
  principal : Option Principal := none
  state : Option RunState
  trace : List TraceEntry := []

/-- `env.step_ref or env.task_id`. -/
def ResultEnvelope.stepId (e : ResultEnvelope) : StepId := if e.stepRef = "" then e.taskId else e.stepRef

namespace Promotion

/-- `_resolved_versions`. -/
def resolvedVersions (trace : List TraceEntry) : Dict StepId String :=
  trace.foldl
    (fun versions entry =>
      match entry.kind, entry.step, Dict.get entry.data "agent_version" with
      | "delegation_dispatched", some step, some (.str version) =>
          if step = "" ∨ version = "" then versions else Dict.set versions step version
      | _, _, _ => versions)
    []

def step (versions : Dict StepId String) (prevId : Option StepId) (env : ResultEnvelope) : WorkflowStep where
  id := env.stepId
  taskType := some env.taskType
  dependsOn := prevId.toList
  coordinationMode := some "queue"
  pins := match Dict.get versions env.stepId with
    | some agentVersion => [("agent_version", agentVersion)]
    | none => []

/-- The loop over the envelopes. -/
def steps (versions : Dict StepId String) : (seen : List StepId) → (prevId : Option StepId) →
    List ResultEnvelope → List WorkflowStep
  | _, _, [] => []
  | seen, prevId, env :: envelopes =>
      if env.stepId ∈ seen then steps versions seen prevId envelopes
      else step versions prevId env :: steps versions (env.stepId :: seen) (some env.stepId) envelopes

def draft (q : Promotion) (state : RunState) (envelopes : List ResultEnvelope) : WorkflowDefinition where
  name := q.name
  version := q.version
  description := "promoted from run " ++ q.runId ++ ": " ++ state.goal
  steps := steps (resolvedVersions q.trace) [] none envelopes

/-- `promote_run`, with what `result_store.list` answers. -/
def promoteRun (u : Unicode) (q : Promotion) (listed : Except Exn (List ResultEnvelope)) :
    Except Exn WorkflowDefinition := do
  checkScope u q.principal scopeWorkflowAuthor
  match q.state with
  | none => .error (.valueError ("run not found: " ++ q.runId))
  | some state =>
      if state.status ≠ .completed then
        .error (.valueError ("can only promote COMPLETED runs; run " ++ q.runId ++ " is " ++ state.status.value))
      else
        let envelopes ← listed
        if envelopes.isEmpty then
          .error (.valueError ("run " ++ q.runId ++ " has no recorded task results to promote"))
        else
          match (q.draft state envelopes).validateDag with
          | .ok () => .ok (q.draft state envelopes)
          | .error e => .error (.valueError (e.message u))

end Promotion

/-- The first envelope of its step. -/
def FirstOfStep (envelopes : List ResultEnvelope) (e : ResultEnvelope) : Prop :=
  envelopes.find? (fun e' => e'.stepId = e.stepId) = some e

namespace Promotion

variable {versions : Dict StepId String} {seen : List StepId} {prevId : Option StepId} {envelopes : List ResultEnvelope}

/-! ## A draft is a chain -/

theorem steps_fresh {s : WorkflowStep} (h : s ∈ steps versions seen prevId envelopes) : s.id ∉ seen := by
  induction envelopes generalizing seen prevId with
  | nil => cases h
  | cons env envelopes ih =>
      unfold steps at h
      split at h
      · exact ih h
      · next fresh =>
          rcases List.mem_cons.mp h with rfl | later
          · exact fresh
          · exact fun inside => ih later (List.mem_cons_of_mem _ inside)

theorem nodup_steps : ((steps versions seen prevId envelopes).map WorkflowStep.id).Nodup := by
  induction envelopes generalizing seen prevId with
  | nil => exact List.nodup_nil
  | cons env envelopes ih =>
      unfold steps
      split
      · exact ih
      · refine List.nodup_cons.mpr ⟨fun inside => ?_, ih⟩
        obtain ⟨s, later, same⟩ := List.mem_map.mp inside
        exact steps_fresh later (same ▸ List.mem_cons_self)

/-- A step depends on the one right before it. -/
theorem steps_chain {s : WorkflowStep} (h : s ∈ steps versions seen prevId envelopes) {dep : StepId}
    (needed : dep ∈ s.dependsOn) : ∃ before after, prevId.toList ++
      (steps versions seen prevId envelopes).map WorkflowStep.id = before ++ dep :: s.id :: after := by
  induction envelopes generalizing seen prevId with
  | nil => cases h
  | cons env envelopes ih =>
      unfold steps at h ⊢
      split at h
      · next old =>
          rw [if_pos old]
          exact ih h
      · next fresh =>
          rw [if_neg fresh]
          rcases List.mem_cons.mp h with rfl | later
          · have first : prevId = some dep := Option.mem_toList.mp needed
            rw [first]
            exact ⟨[], _, rfl⟩
          · obtain ⟨before, after, ordered⟩ := ih later
            refine ⟨prevId.toList ++ before, after, ?_⟩
            rw [List.append_assoc, ← ordered]
            rfl

/-- Every draft is accepted: a step comes after the one it depends on. -/
theorem draft_accepted (q : Promotion) (state : RunState) : (q.draft state envelopes).Accepted := by
  have unique : (q.draft state envelopes).ids.Nodup := nodup_steps
  refine WorkflowDefinition.accepted_of_rank unique (fun id => (q.draft state envelopes).ids.idxOf id) ?_
  intro s member dep needed
  obtain ⟨before, after, ordered⟩ := steps_chain member needed
  have ids : (q.draft state envelopes).ids = before ++ dep :: s.id :: after := ordered
  rw [ids] at unique ⊢
  obtain ⟨_, rest, apart⟩ := List.nodup_append.mp unique
  have first : dep ∉ before := fun inside => apart dep inside dep List.mem_cons_self rfl
  have second : s.id ∉ before :=
    fun inside => apart s.id inside s.id (List.mem_cons_of_mem _ List.mem_cons_self) rfl
  have other : dep ≠ s.id := fun same => (List.nodup_cons.mp rest).1 (same ▸ List.mem_cons_self)
  refine ⟨List.mem_append_right _ List.mem_cons_self, ?_⟩
  rw [List.idxOf_append_of_notMem first, List.idxOf_append_of_notMem second, List.idxOf_cons_self,
    List.idxOf_cons_ne _ other, List.idxOf_cons_self]
  omega

/-! ## What a step carries -/

/-- A step carries the task type of the first envelope recorded for it. -/
theorem steps_taskType {s : WorkflowStep} (h : s ∈ steps versions seen prevId envelopes) :
    ∃ e, FirstOfStep envelopes e ∧ s.id = e.stepId ∧ s.taskType = some e.taskType := by
  unfold FirstOfStep
  induction envelopes generalizing seen prevId with
  | nil => cases h
  | cons env envelopes ih =>
      unfold steps at h
      split at h
      · next old =>
          obtain ⟨e, first, same, typed⟩ := ih h
          refine ⟨e, ?_, same, typed⟩
          have other : env.stepId ≠ e.stepId := fun again => steps_fresh h (same ▸ again ▸ old)
          simpa [List.find?_cons, other] using first
      · rcases List.mem_cons.mp h with rfl | later
        · exact ⟨env, by simp, rfl, rfl⟩
        · obtain ⟨e, first, same, typed⟩ := ih later
          refine ⟨e, ?_, same, typed⟩
          have other : env.stepId ≠ e.stepId :=
            fun again => steps_fresh later (same ▸ again ▸ List.mem_cons_self)
          simpa [List.find?_cons, other] using first

/-- Every step a result is recorded of is in the draft. -/
theorem steps_of_first {e : ResultEnvelope} (first : FirstOfStep envelopes e) (fresh : e.stepId ∉ seen) :
    ∃ s ∈ steps versions seen prevId envelopes, s.taskType = some e.taskType := by
  unfold FirstOfStep at first
  induction envelopes generalizing seen prevId with
  | nil => cases first
  | cons env envelopes ih =>
      unfold steps
      rw [List.find?_cons] at first
      by_cases same : env.stepId = e.stepId
      · simp only [same, decide_true, Option.some.injEq] at first
        subst first
        rw [if_neg fresh]
        exact ⟨_, List.mem_cons_self, rfl⟩
      · simp only [same, decide_false] at first
        split
        · exact ih first fresh
        · have later : e.stepId ∉ env.stepId :: seen := by simp [Ne.symm same, fresh]
          obtain ⟨s, member, typed⟩ := ih first later
          exact ⟨s, List.mem_cons_of_mem _ member, typed⟩

/-! ## Over either store -/

/-- What the rows lost of a step. -/
def plain (s : WorkflowStep) : WorkflowStep := { s with taskType := some "generic_task" }

theorem steps_kept (versions : Dict StepId String) (seen : List StepId) (prevId : Option StepId)
    (envelopes : List ResultEnvelope) : steps versions seen prevId (envelopes.map ResultEnvelope.kept) =
      (steps versions seen prevId envelopes).map plain := by
  induction envelopes generalizing seen prevId with
  | nil => rfl
  | cons env envelopes ih =>
      have same : env.kept.stepId = env.stepId := rfl
      rw [List.map_cons, steps, steps, same]
      split
      · exact ih seen prevId
      · rw [ih, List.map_cons]
        rfl

theorem steps_kept_iff : steps versions [] none (envelopes.map ResultEnvelope.kept) = steps versions [] none envelopes ↔
    ∀ e, FirstOfStep envelopes e → e.taskType = "generic_task" := by
  have pointwise := List.map_inj_left (f := plain) (g := id) (l := steps versions [] none envelopes)
  rw [List.map_id] at pointwise
  rw [steps_kept, pointwise]
  constructor
  · intro same e first
    obtain ⟨s, member, typed⟩ : ∃ s ∈ steps versions [] none envelopes, s.taskType = some e.taskType :=
      steps_of_first first List.not_mem_nil
    have lost := congrArg WorkflowStep.taskType (same s member)
    exact (Option.some.inj (lost.trans typed)).symm
  · intro generic s member
    obtain ⟨e, first, _, typed⟩ := steps_taskType member
    rw [generic e first] at typed
    cases s
    cases typed
    rfl

variable {u : Unicode} {q : Promotion} {state : RunState}

/-- A promotion that is allowed, of a completed run. -/
structure Promotes (u : Unicode) (q : Promotion) (state : RunState) : Prop where
  allowed : checkScope u q.principal scopeWorkflowAuthor = .ok ()
  found : q.state = some state
  completed : state.status = .completed

theorem Promotes.run (h : Promotes u q state) (listed : List ResultEnvelope) : promoteRun u q (.ok listed) =
    if listed.isEmpty then
      .error (.valueError ("run " ++ q.runId ++ " has no recorded task results to promote"))
    else .ok (q.draft state listed) := by
  have accepted : (q.draft state listed).validateDag = .ok () := draft_accepted q state
  unfold promoteRun
  rw [h.allowed, h.found]
  simp only [h.completed, accepted, bind, Except.bind, ne_eq, not_true_eq_false, if_false]

theorem draft_eq_iff {listed listed' : List ResultEnvelope} : q.draft state listed = q.draft state listed' ↔
    steps (resolvedVersions q.trace) [] none listed = steps (resolvedVersions q.trace) [] none listed' := by
  constructor
  · exact congrArg WorkflowDefinition.steps
  · intro same
    unfold draft
    rw [same]

/-- The two stores promote a run to the same definition exactly where the first result of every
step has the task type of a row. -/
theorem promotes_alike_iff (h : Promotes u q state) (saves : List ResultEnvelope) :
    promoteRun u q (PostgresResultStore.list (PostgresResultStore.saved saves) q.runId none) =
        promoteRun u q (.ok (InMemoryResultStore.list (InMemoryResultStore.saved saves) q.runId none)) ↔
      ∀ e, FirstOfStep (InMemoryResultStore.list (InMemoryResultStore.saved saves) q.runId none) e →
        e.taskType = "generic_task" := by
  rw [postgres_list, h.run, h.run]
  generalize InMemoryResultStore.list (InMemoryResultStore.saved saves) q.runId none = listed
  have drafts : q.draft state (listed.map ResultEnvelope.kept) = q.draft state listed ↔ _ :=
    draft_eq_iff.trans steps_kept_iff
  rw [← drafts]
  cases listed with
  | nil => simp
  | cons e listed => simp

/-- From memory every step carries the task type its first result was recorded with, which is the
one its worker was sent. -/
theorem promoted_taskType {listed : List ResultEnvelope} {d : WorkflowDefinition} (h : Promotes u q state)
    (promoted : promoteRun u q (.ok listed) = .ok d) {s : WorkflowStep} (member : s ∈ d.steps) :
    ∃ e, FirstOfStep listed e ∧ s.id = e.stepId ∧ s.taskType = some e.taskType := by
  rw [h.run] at promoted
  split at promoted
  · cases promoted
  · cases promoted
    exact steps_taskType member

end Promotion

open Promotion

/-- The stores are interchangeable exactly where every recorded envelope has the task type and the
intent that a row gives back, for promotion where the first of every step has. -/
theorem result_stores_iff (saves : List ResultEnvelope) :
    ((∀ runId stepRef, PostgresResultStore.list (PostgresResultStore.saved saves) runId stepRef =
        .ok (InMemoryResultStore.list (InMemoryResultStore.saved saves) runId stepRef)) ↔
      ∀ e, FirstSaved saves e → e.taskType = "generic_task" ∧ e.intentId = none) ∧
    ∀ u q state, Promotes u q state →
      (promoteRun u q (PostgresResultStore.list (PostgresResultStore.saved saves) q.runId none) =
          promoteRun u q (.ok (InMemoryResultStore.list (InMemoryResultStore.saved saves) q.runId none)) ↔
        ∀ e, FirstOfStep (InMemoryResultStore.list (InMemoryResultStore.saved saves) q.runId none) e →
          e.taskType = "generic_task") ∧
      ∀ d, promoteRun u q (.ok (InMemoryResultStore.list (InMemoryResultStore.saved saves) q.runId none)) = .ok d →
        ∀ s ∈ d.steps, ∃ e, FirstOfStep (InMemoryResultStore.list (InMemoryResultStore.saved saves) q.runId none) e ∧
          s.id = e.stepId ∧ s.taskType = some e.taskType :=
  ⟨lists_agree_iff saves, fun _ _ _ h => ⟨promotes_alike_iff h saves, fun _ promoted _ => promoted_taskType h promoted⟩⟩

namespace Sample

def ordered : ResultEnvelope where
  runId := "run-1"
  stepRef := "order"
  taskId := "t0"
  taskType := "order_placement"
  idempotencyKey := "k0"
  tenantId := "t"
  intentId := some "i"
  result := { status := "ok", taskId := "t0" }

def reusable : Promotion where
  runId := "run-1"
  name := "reusable-cycle"
  state := some { tenantId := "t", goal := "buy", status := .completed }

end Sample

/-- A task type and an intent are lost on the way through the database. -/
theorem task_type_lost :
    ¬ (∀ saves runId stepRef, PostgresResultStore.list (PostgresResultStore.saved saves) runId stepRef =
      .ok (InMemoryResultStore.list (InMemoryResultStore.saved saves) runId stepRef)) ∧
    ¬ ∀ saves u q state, Promotes u q state →
      promoteRun u q (PostgresResultStore.list (PostgresResultStore.saved saves) q.runId none) =
        promoteRun u q (.ok (InMemoryResultStore.list (InMemoryResultStore.saved saves) q.runId none)) := by
  constructor
  · intro alike
    have typed := ((lists_agree_iff [Sample.ordered]).mp (alike [Sample.ordered]) Sample.ordered rfl).1
    exact absurd typed (by decide)
  · intro alike
    have promotes : Promotes { alnum := fun _ => false, printable := fun _ => true } Sample.reusable
      { tenantId := "t", goal := "buy", status := .completed } := ⟨rfl, rfl, rfl⟩
    have typed := (promotes_alike_iff promotes [Sample.ordered]).mp (alike _ _ _ _ promotes) Sample.ordered rfl
    exact absurd typed (by decide)

end Maof
