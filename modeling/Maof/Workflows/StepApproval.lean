import Maof.Effects.Record
import Maof.Orchestrator.Gates

/-!
# Step approvals

The executor writes a step down as approved once its gate's wait returned, and
dispatches it only then. Where it was given no gate it writes the step down all
the same.
-/

namespace Maof

open Effects (Act Prog Contract Machine Pool Event Recorded)

/-- An approval gate's wait, with the step's roles and parties, returned for the run. -/
def Waited (log : List (Event RunSig)) (runId : RunId) (spec : ApprovalSpec) : Prop :=
  ∃ info reason, info.runId = runId ∧
    (⟨.stage info (.approvalWait reason spec.roles spec.parties), .ok ()⟩ : Event RunSig) ∈ log

/-- The step asks for no approval, or it was waited for. -/
def Cleared (log : List (Event RunSig)) (runId : RunId) (step : WorkflowStep) : Prop :=
  ∀ spec, step.approval = some spec → spec.required = true → Waited log runId spec

/-- Every dispatch of a step comes after its approval. -/
def Lawful (d : WorkflowDefinition) (log : List (Event RunSig)) : Prop :=
  ∀ before event after, log = before ++ event :: after → ∀ info op, event.op = .stage info op →
    ∀ step ∈ d.steps, Dispatches d step op → Cleared before info.runId step

theorem Cleared.mono {log log' : List (Event RunSig)} {runId : RunId} {step : WorkflowStep}
    (h : Cleared log runId step) (grown : log <+: log') : Cleared log' runId step := by
  intro spec asked required
  obtain ⟨info, reason, mine, member⟩ := h spec asked required
  exact ⟨info, reason, mine, grown.subset member⟩

theorem Lawful.append {d : WorkflowDefinition} {log : List (Event RunSig)} {event : Event RunSig}
    (h : Lawful d log) (last : ∀ info op, event.op = .stage info op → ∀ step ∈ d.steps,
      Dispatches d step op → Cleared log info.runId step) : Lawful d (log ++ [event]) := by
  intro before e after split
  rcases List.eq_nil_or_concat after with rfl | ⟨after', e', rfl⟩
  · obtain ⟨rfl, same⟩ := List.append_inj' split rfl
    cases same
    exact last
  · rw [List.concat_eq_append, ← List.cons_append, ← List.append_assoc] at split
    obtain ⟨rfl, _⟩ := List.append_inj' split rfl
    exact h before e after' rfl

/-- Every step a context has down as approved was waited for. -/
def Approved (d : WorkflowDefinition) (log : List (Event RunSig)) (runId : RunId) (work : Work) : Prop :=
  ∀ step ∈ d.steps, step.id ∈ work.workflow.approved → Cleared log runId step

/-- Approvals and their records only grow, and no dispatch comes before its approval. -/
def approvalContract (dep : Deployment) (d : WorkflowDefinition) : Contract RunSig (Recorded RunSig World) where
  sem w op w' r := ∃ c, World.perform dep c w.world op = (w'.world, r) ∧ w'.log = w.log ++ [⟨op, r⟩]
  valid w := Lawful d w.log ∧ ∀ r label blob, w.world.checkpoints r = some (label, blob) →
    ∀ sc, checkpointDeserialize blob = .ok sc → Approved d w.log sc.info.runId sc.work
  rely w w' := w.log <+: w'.log
  guar w w' := w.log <+: w'.log
  refl _ := List.prefix_rfl
  trans := List.IsPrefix.trans

section calls

variable {dep : Deployment} {d : WorkflowDefinition} {info : RunInfo} {w w' : Recorded RunSig World}

theorem Approved.mono {work : Work} (h : Approved d w.log info.runId work) (grown : w.log <+: w'.log) :
    Approved d w'.log info.runId work :=
  fun step member approved => (h step member approved).mono grown

/-- A call that is no dispatch of an unapproved step and saves no checkpoint. -/
theorem approval_call {op : Op} {reply : Except Exn op.Ans} (save : ∀ r l b, op ≠ .save r l b)
    (allowed : ∀ info op', op = .stage info op' → ∀ step ∈ d.steps, Dispatches d step op' →
      Cleared w.log info.runId step)
    (valid : (approvalContract dep d).valid w) (law : (approvalContract dep d).sem w op w' reply) :
    (approvalContract dep d).valid w' ∧ (approvalContract dep d).guar w w' := by
  obtain ⟨c, done, log⟩ := law
  have grown : w.log <+: w'.log := ⟨_, log.symm⟩
  refine ⟨⟨log ▸ valid.1.append allowed, fun r label blob saved sc read => ?_⟩, grown⟩
  have world : (World.perform dep c w.world op).1 = w'.world := congrArg Prod.fst done
  rw [← world, World.perform_checkpoints save] at saved
  exact fun step member approved => (valid.2 r label blob saved sc read step member approved).mono grown

theorem approval_save {work : Work} {label : String} {reply : Except Exn Unit}
    (approved : Approved d w.log info.runId work) (valid : (approvalContract dep d).valid w)
    (law : (approvalContract dep d).sem w (.save info.runId label (checkpointSerialize { info, work })) w' reply) :
    (approvalContract dep d).valid w' ∧ (approvalContract dep d).guar w w' := by
  obtain ⟨c, done, log⟩ := law
  have grown : w.log <+: w'.log := ⟨_, log.symm⟩
  refine ⟨⟨log ▸ valid.1.append (by rintro _ _ ⟨⟩), fun r label' blob saved sc read => ?_⟩, grown⟩
  have old : w.world.checkpoints r = some (label', blob) → Approved d w'.log sc.info.runId sc.work :=
    fun found step member down => (valid.2 r label' blob found sc read step member down).mono grown
  have world : (World.perform dep c w.world _).1 = w'.world := congrArg Prod.fst done
  rw [← world] at saved
  rcases World.checkpoints_from saved with there | same
  · exact old there
  · cases same
    cases (deserialize_serialize _).symm.trans read
    exact approved.mono grown

end calls

theorem approval_laws (dep : Deployment) (d : WorkflowDefinition) : DriveLaws (approvalContract dep d)
    (fun info _ work w => Approved d w.log info.runId work) (fun info work w => Approved d w.log info.runId work) where
  entered_stable _ _ _ _ _ h grown _ := h.mono grown
  passed_stable _ _ _ _ h grown _ := h.mono grown
  leave := id
  shared := id
  note _ h := h
  record h := h
  outer {op _ _ _} outer valid law := by
    refine approval_call ?_ ?_ valid law
    · rintro r l b rfl
      exact outer
    · rintro info op' rfl
      exact outer.elim
  save := approval_save
  load {runId blob w w'} valid law sc read := by
    obtain ⟨c, done, log⟩ := law
    have answered : (World.perform dep c w.world (.load runId)).2 = .ok (some blob) := congrArg Prod.snd done
    have took := (congrArg Prod.snd (World.perform_ok answered)).symm.trans answered
    simp only [World.effect, Except.ok.injEq, Option.map_eq_some_iff] at took
    obtain ⟨⟨label, _⟩, kept, rfl⟩ := took
    intro step member approved
    exact (valid.2 runId label _ kept sc read step member approved).mono ⟨_, log.symm⟩
  start _ _ _ := by
    intro step _ none
    cases none

/-- The argument about a drive: what the context has down as approved was waited for. -/
def approvalRule (dep : Deployment) (d : WorkflowDefinition) : DriveRule (approvalContract dep d) where
  entered info _ work w := Approved d w.log info.runId work
  passed info work w := Approved d w.log info.runId work
  laws := approval_laws dep d

section executor

variable {dep : Deployment} {p : Platform} {ex : WorkflowExecutor} {d : WorkflowDefinition} {info : RunInfo}
  {completed : List String} {w w' : Recorded RunSig World}

/-- A gate is there to be waited at, or no step asks for one. -/
def WorkflowExecutor.Asks (ex : WorkflowExecutor) (d : WorkflowDefinition) : Prop :=
  ex.approvalGate = true ∨ ∀ step ∈ d.steps, ∀ spec, step.approval = some spec → spec.required = false

/-- A call that dispatches nothing keeps the contract. -/
theorem approval_idle {op : StageOp} {r : Except Exn op.Ans} (idle : ∀ step ∈ d.steps, ¬ Dispatches d step op)
    (valid : (approvalContract dep d).valid w) (law : (approvalContract dep d).sem w (.stage info op) w' r) :
    (approvalContract dep d).valid w' ∧ (approvalContract dep d).guar w w' := by
  refine approval_call (by rintro _ _ _ ⟨⟩) ?_ valid law
  rintro _ _ ⟨⟩ step member dispatched
  exact absurd dispatched (idle step member)

/-- Approved steps stay waited for when one that was waited for joins them. -/
theorem Approved.grant (accepted : d.Accepted) {work : Work} {step : WorkflowStep} (member : step ∈ d.steps)
    (h : Approved d w.log info.runId work) (cleared : Cleared w.log info.runId step) :
    Approved d w.log info.runId (work.setWorkflow fun s => { s with approved := s.approved ++ [step.id] }) := by
  intro other inside down
  rcases List.mem_append.mp down with old | new
  · exact h other inside old
  · rw [accepted.eq_of_id inside member (List.mem_singleton.mp new)]
    exact cleared

/-- What the executor goes on with after the approval: the step was waited for. -/
theorem approve_clears (accepted : d.Accepted) (asks : ex.Asks d) {step : WorkflowStep} (member : step ∈ d.steps)
    {work : Work} (valid : (approvalContract dep d).valid w) (approved : Approved d w.log info.runId work) :
    (WorkflowExecutor.approve ex d step).Safe ((approvalContract dep d).pull (S := StageSig) (.stage info) fun _ r => r)
      (Act.Outcome (fun _ work w => Approved d w.log info.runId work ∧ Cleared w.log info.runId step)
        fun work w => Approved d w.log info.runId work) work w := by
  have cleared_stable : ∀ work : Work, ((approvalContract dep d).pull (S := StageSig) (.stage info) fun _ r => r).Stable
      fun w => Approved d w.log info.runId work ∧ Cleared w.log info.runId step :=
    fun work w w' h grown _ => ⟨h.1.mono grown, h.2.mono grown⟩
  unfold WorkflowExecutor.approve
  split
  · next none =>
      refine Act.safe_pure ⟨approved, fun spec asked => ?_⟩ (cleared_stable work)
      rw [none] at asked
      cases asked
  · next spec asked =>
      refine Act.safe_get_bind ?_
      split
      · next open_ =>
          simp only [Bool.and_eq_true, decide_eq_true_eq] at open_
          split
          · refine Act.safe_bind (Q := Act.Outcome (fun _ work' w => work' = work ∧
                Approved d w.log info.runId work ∧ Cleared w.log info.runId step)
                fun work w => Approved d w.log info.runId work)
              (Act.safe_await (P := fun w => Approved d w.log info.runId work) approved ?_ (Act.outcome_stable (fun _ w w' h grown _ => ?_) fun w w' h grown _ => ?_) ?_)
              valid (fun _ work' w _ h => ?_) fun _ _ _ _ => id
            · exact fun w w' h grown _ => h.mono grown
            · exact ⟨h.1, h.2.1.mono grown, h.2.2.mono grown⟩
            · exact h.mono grown
            · rintro w₁ w₂ r valid approved ⟨r', law, rfl⟩
              obtain ⟨valid', grown⟩ := approval_idle (fun _ _ => id) valid law
              refine ⟨valid', grown, ?_⟩
              obtain ⟨c, _, log⟩ := law
              cases r with
              | error e => exact approved.mono grown
              | ok u =>
                  -- the wait that returned is the last call of the log
                  refine ⟨rfl, approved.mono grown, fun other same _ => ?_⟩
                  obtain rfl := Option.some.inj (asked.symm.trans same)
                  refine ⟨info, "workflow " ++ d.name ++ " step " ++ step.id, rfl, ?_⟩
                  rw [log]
                  exact List.mem_append_right _ List.mem_cons_self
            · obtain ⟨rfl, approved, cleared⟩ := h
              exact Act.safe_modify ⟨approved.grant accepted member cleared, cleared⟩ (cleared_stable _)
          · next no_gate =>
              have required := asks.resolve_left no_gate step member spec asked
              rw [open_.1] at required
              cases required
      · next closed =>
          refine Act.safe_pure ⟨approved, fun other same required => ?_⟩ (cleared_stable work)
          obtain rfl := Option.some.inj (asked.symm.trans same)
          simp only [Bool.and_eq_true, decide_eq_true_eq, not_and, not_not] at closed
          exact approved step member (closed required) spec asked required

/-- A step is dispatched for the approval it has. -/
theorem runTask_cleared (accepted : d.Accepted) (asks : ex.Asks d) {step : WorkflowStep} (member : step ∈ d.steps) :
    (approvalRule dep d).Body info completed (WorkflowExecutor.runTask p ex d info step) := by
  have dispatched : ∀ {work : Work} {w : Recorded RunSig World}, (approvalContract dep d).valid w →
      Approved d w.log info.runId work → Cleared w.log info.runId step →
      (approvalRule dep d).Leaves info completed
        (ex.coordinator.dispatch p (WorkflowExecutor.delegation p ex d info step work) info) work w := by
    intro work w valid approved cleared
    refine Act.Safe.weaken (dispatch_safe (approvalRule dep d) (P := fun w => Approved d w.log info.runId work ∧
      Cleared w.log info.runId step) (fun w w' h grown _ => ⟨h.1.mono grown, h.2.mono grown⟩) ?_ ⟨approved, cleared⟩) ?_
    · intro op w w' r calls valid held law
      refine approval_call (by rintro _ _ _ ⟨⟩) ?_ valid law
      rintro _ _ ⟨⟩ other inside same
      rw [accepted.eq_of_id inside member (dispatching_step calls same)]
      exact held.2
    · rintro r work' w' _ ⟨rfl, kept⟩
      cases r with
      | ok a => exact kept.1
      | error e => exact kept.1
  intro work w valid approved
  exact runTask_leaves valid (approve_clears accepted asks member valid approved) And.left
    (fun valid h => dispatched valid h.1 h.2) (fun _ _ => id) id

theorem approval_invocation (accepted : d.Accepted) (asks : ex.Asks d) : Invocation (approvalRule dep d) p ex d where
  started := id
  listed {info completed work w w' step r} _ valid approved _ law := by
    obtain ⟨valid', grown⟩ := approval_idle (fun _ _ => id) valid law
    exact ⟨valid', grown, fun _ _ _ => Approved.mono approved grown⟩
  task {info completed work w step} valid approved member _ _ := runTask_cleared accepted asks member work w valid approved
  gate approved _ _ _ := approved
  parked _ := id
  clock := approval_idle fun _ _ => id
  settled _ approved _ := approved

end executor

namespace Orchestrator

/-- Nothing has been called. -/
def unwritten (w : World) : Pool RunSig (Recorded RunSig World) Unit := { world := { world := w }, procs := [] }

theorem obeys_approvals {o : Orchestrator} (d : WorkflowDefinition) :
    o.untracked.recorded.Obeys (approvalContract o.deployment d) fun _ _ => true where
  calls _ _ c _ _ _ _ _ _ := ⟨c, rfl, rfl⟩
  shared _ _ := id
  alone p e _ valid := by
    refine ⟨⟨valid.1, fun r label blob saved => valid.2 r label blob ?_⟩, List.prefix_rfl⟩
    cases e <;> exact saved

end Orchestrator

/-- Where a gate is there to ask, or no step asks, every dispatch of a step in every run comes
after the wait for its approval returned; the pipeline's other stages dispatch no step. -/
theorem steps_approved (o : Orchestrator) (d : WorkflowDefinition) (accepted : d.Accepted)
    (stages : ∀ stage ∈ o.l1.pipeline, (∃ p ex extra, stage = workflowStage p ex d extra ∧ ex.Asks d) ∨
      stage.LeavesWorkflow ∧ ∀ info,
        (stage.execute info).Uses fun op => ∀ step ∈ d.steps, ¬ Dispatches d step op)
    (registry : List RegistryEntry) (rulesets : String → String → Option LoadedRuleset) (clock : Int)
    {q : Pool RunSig (Recorded RunSig World) Unit} (run : Machine.Run o.untracked.recorded (fun _ _ => true)
      (Orchestrator.unwritten (World.fresh registry rulesets clock)) q) : Lawful d q.world.log := by
  have only : (approvalRule o.deployment d).OfWorkflow := by
    refine ⟨fun {info completed work work' w} same approved step member down => ?_, id⟩
    rw [same] at down
    exact approved step member down
  have takes : ∀ info, ∀ stage ∈ o.l1.pipeline, (approvalRule o.deployment d).Takes info stage := by
    intro info stage inside
    rcases stages stage inside with ⟨p, ex, extra, rfl, asks⟩ | ⟨quiet, idle⟩
    · exact workflowStage_takes (approval_invocation accepted asks) id
    · exact quiet_takes (quiet info) (idle info) approval_idle only.later
  have completes : (approvalRule o.deployment d).Completes o.l1.pipeline :=
    fun _ _ => approval_call (by rintro _ _ _ ⟨⟩) (by rintro _ _ ⟨⟩)
  have fresh : Machine.AllSafe (approvalContract o.deployment d)
      (Orchestrator.unwritten (World.fresh registry rulesets clock)) := by
    refine ⟨⟨fun before event after split => ?_, fun r label blob none => ?_⟩, fun b none => ?_⟩
    · exact absurd split (by simp [Orchestrator.unwritten])
    · exact absurd none (by simp [Orchestrator.unwritten, World.fresh])
    · exact absurd none (by simp [Orchestrator.unwritten])
  obtain ⟨⟨⟨lawful, _⟩, _⟩, _⟩ := run.allSafe (Orchestrator.obeys_approvals d)
    (fun p a _ valid => (approvalRule o.deployment d).program_safe takes completes a valid) fresh
  exact lawful

namespace Sample

/-- One step, for a reviewer to approve. -/
def reviewed : WorkflowDefinition :=
  { name := "w", version := 1, steps := [{ id := "a", approval := some { required := true, roles := ["reviewer"] } }] }

/-- The executor is given a gate. -/
def gatedExecutor : WorkflowExecutor := { executor with approvalGate := true }

def reviewing : Orchestrator where
  deployment := { platform }
  l1 := { pipeline := [workflowStage platform gatedExecutor reviewed []] }

/-- The reviewed step's task is published. -/
def hands (e : Event RunSig) : Bool :=
  match e.op with
  | .stage _ (.publishTask q) => decide (q.task.description = "workflow w v1 step a")
  | _ => false

def waits (e : Event RunSig) : Bool :=
  match e.op with
  | .stage _ (.approvalWait _ _ _) => true
  | _ => false

end Sample

open Sample in
/-- The reviewer approves, and the step is dispatched. -/
theorem steps_approved_reviewed : ∃ q : Pool RunSig (Recorded RunSig World) Unit,
    q.world.log.any hands = true ∧ Lawful reviewed q.world.log := by
  obtain ⟨q, run, handed⟩ := Machine.follow_any reviewing.untracked.recorded (fun _ _ => true)
    (Orchestrator.unwritten (World.fresh [] (fun _ _ => none) 0)) ([.spawn (.run "g" tenant none)] ++ calls 0 12)
    (fun q => q.world.log.any hands) (by decide +kernel)
  exact ⟨q, handed, steps_approved reviewing reviewed (by decide +kernel)
    (fun stage inside => .inl ⟨platform, gatedExecutor, [], List.mem_singleton.mp inside, .inl rfl⟩) _ _ _ run⟩

open Sample in
/-- Without a gate the reviewer is not asked: the step is dispatched all the same. -/
theorem unasked_dispatched : ¬ ∀ (o : Orchestrator) (d : WorkflowDefinition), d.Accepted →
    (∀ stage ∈ o.l1.pipeline, ∃ p ex extra, stage = workflowStage p ex d extra) →
    ∀ (registry : List RegistryEntry) (rulesets : String → String → Option LoadedRuleset)
      (clock : Int) (q : Pool RunSig (Recorded RunSig World) Unit),
    Machine.Run o.untracked.recorded (fun _ _ => true)
      (Orchestrator.unwritten (World.fresh registry rulesets clock)) q → Lawful d q.world.log := by
  intro approved
  obtain ⟨q, run, met⟩ := Machine.follow_any (orchestrator reviewed).untracked.recorded (fun _ _ => true)
    (Orchestrator.unwritten (World.fresh [] (fun _ _ => none) 0)) ([.spawn (.run "g" tenant none)] ++ calls 0 12)
    (fun q => q.world.log.any hands && !q.world.log.any waits) (by decide +kernel)
  simp only [Bool.and_eq_true, Bool.not_eq_true', List.any_eq_true, List.any_eq_false] at met
  obtain ⟨⟨event, member, handed⟩, unasked⟩ := met
  obtain ⟨before, after, split⟩ := List.append_of_mem member
  have lawful := approved (orchestrator reviewed) reviewed (by decide +kernel)
    (fun stage inside => ⟨platform, executor, [], List.mem_singleton.mp inside⟩) _ _ _ q run before _ after split
  unfold hands at handed
  split at handed
  · next info t published =>
      have objective : t.task.description = WorkflowExecutor.objective reviewed { id := "a" } :=
        (of_decide_eq_true handed).trans (by decide +kernel)
      obtain ⟨info', reason, _, waited⟩ := lawful info (.publishTask t) published _ List.mem_cons_self
        objective _ rfl rfl
      have quiet := unasked _ (split ▸ List.mem_append_left _ waited)
      exact quiet rfl
  · cases handed

end Maof
