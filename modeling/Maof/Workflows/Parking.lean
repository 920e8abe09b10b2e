import Maof.Orchestrator.Passage
import Maof.Workflows.Readiness

/-!
# What a parked run has taken up

A run is parked on one wakeup. What its drive found ready is dispatched or, for
a gate, waited for; what a later result makes ready has to wait until somebody
takes the run up again.
-/

namespace Maof

open Data (Dict)
open Effects (Act Prog Protocol Machine Pool Proc Label)
open Watch

/-! ## The drive -/

namespace Watch

variable (d : WorkflowDefinition)

/-- A run is parked only with what an invocation rests at, and its wakeup follows. -/
def allowed (g : Watch) : Op → Prop
  | .save r label blob => ∃ info work, blob = checkpointSerialize { info, work } ∧ info.runId = r ∧ Sent d info work g ∧
      (label ∈ waitLabels → g.unscheduled = none ∧ Taken d work.workflow (g.missed info.runId))
  | .schedule r _ gate => ∀ parked, g.unscheduled = some parked → parked.runId = r ∧ Suits d parked.state gate
  | _ => True

def protocol : Protocol RunSig Watch := ⟨allowed d, answers, mark d⟩

end Watch

/-- Calls none of which raises `NeedsWait`. -/
def calmCalls : Protocol StageSig Unit where
  allowed _ _ := True
  answers _ reply := ∀ e, reply = .error e → e.waits = false
  mark _ _ _ := ()

/-- A stage beside the workflow: it leaves the workflow state alone and raises no wait of its own. -/
structure PipelineStage.Passing (stage : PipelineStage) : Prop where
  named : stage.name ∉ waitLabels
  passes : ∀ info work, (stage.execute info).Follows calmCalls (fun r work' _ =>
    work'.workflow = work.workflow ∧ ∀ e, r = .error e → e.waits = false) work ()

section drive

variable {l1 : DefaultL1} {d : WorkflowDefinition} {info : RunInfo} {α : Type}

theorem quiet_watch : Quiet (protocol d) where
  allowed g op other := by
    cases op with
    | save _ _ _ => cases other
    | schedule _ _ _ => cases other
    | _ => trivial
  mark g op reply other := by
    cases op with
    | save _ _ _ => cases other
    | schedule _ _ _ => cases other
    | create _ _ => cases other
    | load _ => cases other
    | stage _ _ => cases other
    | _ => rfl

theorem raised_unwaiting {e : Exn} (raised : Raised (protocol d) e) : e.waits = false := by
  obtain ⟨op, known⟩ := raised
  exact known e rfl

theorem stage_unscheduled (g : Watch) (op : StageOp) (reply : Except Exn op.Ans) :
    (Watch.mark d g (.stage info op) reply).unscheduled = g.unscheduled := by
  cases op with
  | listResults id => rcases reply with e | (_ | ⟨first, rest⟩) <;> rfl
  | publishTask q => cases reply <;> rfl
  | _ => rfl

/-- A checkpoint that parks nothing. -/
theorem save_aside {label : String} (named : label ∉ waitLabels) {work : Work} {g : Watch} (sent : Sent d info work g) :
    (l1.save info label).Follows (protocol d) (Still (protocol d) work g) work g := by
  unfold DefaultL1.save
  split
  · apply Act.follows_get_bind
    refine Act.follows_await (S := RunSig) ⟨info, work, rfl, rfl, sent, fun waits => absurd waits named⟩ fun r known => ?_
    refine ⟨rfl, ?_, ?_⟩
    · simp only [protocol, Watch.mark, if_neg named]
    · rintro e rfl
      exact ⟨_, known⟩
  · exact still_pure

/-- A checkpoint a run is parked with. -/
theorem save_parks (on : l1.checkpointer = true) {kind : WakeKind} {work : Work} {g : Watch} (sent : Sent d info work g)
    (taken : Taken d work.workflow (g.missed info.runId)) (clear : g.unscheduled = none) :
    (l1.save info ("waiting:" ++ kind.value)).Follows (protocol d) (fun _ work' g' => work' = work ∧
      g' = Watch.park g info.runId work.workflow) work g := by
  unfold DefaultL1.save
  rw [if_pos on]
  refine Act.follows_get_bind ⟨⟨info, work, rfl, rfl, sent, fun _ => ⟨clear, taken⟩⟩, fun r _ => ⟨rfl, ?_⟩⟩
  simp only [protocol, Watch.mark, if_pos (wait_label kind), deserialize_serialize]

/-- What the drive asks of a stage. -/
def Halting (d : WorkflowDefinition) (stage : PipelineStage) : Prop :=
  stage.name ∉ waitLabels ∧ ∀ info work g, Sent d info work g →
    (stage.execute info).Follows (watchStage d info) (Rests d info) work g

theorem stage_sent (g : Watch) (op : StageOp) (reply : Except Exn op.Ans) :
    g.sent ⊆ (Watch.mark d g (.stage info op) reply).sent := by
  cases op with
  | listResults id => rcases reply with e | (_ | ⟨first, rest⟩) <;> exact List.Subset.refl _
  | publishTask q =>
      cases reply with
      | error e => exact List.Subset.refl _
      | ok u => exact List.subset_append_left _ _
  | _ => exact List.Subset.refl _

theorem halting_of_passing {stage : PipelineStage} (passing : stage.Passing) : Halting d stage := by
  refine ⟨passing.named, fun info work g sent => ?_⟩
  have carried : ∀ {γ : Type} (prog : Prog StageSig γ) (post : γ → Unit → Prop) (g : Watch), prog.Follows calmCalls post () →
      prog.Follows (watchStage d info) (fun a g' => post a () ∧ g.sent ⊆ g'.sent) g := by
    intro γ prog post
    induction prog with
    | ret a => exact fun g h => ⟨h, List.Subset.refl _⟩
    | call op k ih =>
        refine fun g h => ⟨trivial, fun r known => ?_⟩
        exact Prog.Follows.weaken (ih r _ (h.2 r known)) fun _ _ h => ⟨h.1, List.Subset.trans (stage_sent g op r) h.2⟩
  refine Prog.Follows.weaken (carried _ _ g (passing.passes info work)) ?_
  rintro ⟨r, work'⟩ g' ⟨⟨same, calm⟩, grown⟩
  cases r with
  | ok u =>
      intro step member dispatched
      rw [same] at dispatched
      exact grown (sent step member dispatched)
  | error e => exact Rests.of_calmly (P := fun _ _ _ => False) (calm e rfl) nofun

theorem halting_workflow {p : Platform} {ex : WorkflowExecutor} {extra : Dict String Json} (calm : p.Unwaiting)
    (queue : ∀ step ∈ d.steps, step.kind = .task → ex.mode step = "queue") : Halting d (workflowStage p ex d extra) :=
  ⟨(by decide : "workflow" ∉ waitLabels), fun _ _ _ sent => workflowStage_rests calm queue sent⟩

/-- A program that answers has scheduled what it parked. -/
def Rearmed (r : Except Exn α) (g : Watch) : Prop := ∀ a, r = .ok a → g.unscheduled = none

/-- Checkpoint first, then the wakeup: what is parked is what the invocation rested at. -/
theorem park_follows (armed : Armed l1) {condition : WakeCondition} {gate : Option StepId} {work : Work} {g : Watch}
    (sent : Sent d info work g) (taken : Taken d work.workflow (g.missed info.runId)) (suits : Suits d work.workflow gate)
    (clear : g.unscheduled = none) :
    (l1.park info condition gate).Follows (protocol d) (fun r _ g' => Rearmed r g') work g := by
  unfold DefaultL1.park
  rw [if_pos armed.2]
  refine Act.follows_bind (save_parks armed.1 sent taken clear) ?_ fun _ _ _ _ => nofun
  rintro _ _ _ ⟨rfl, rfl⟩
  refine Act.follows_await_bind (S := RunSig) ?_ (fun _ _ => ?_) fun _ _ => nofun
  · rintro parked ⟨⟩
    exact ⟨rfl, suits⟩
  · apply Act.Follows.weaken (still_leave quiet_watch)
    rintro r _ _ ⟨rfl, rfl, _⟩
    exact fun _ _ => rfl

theorem sent_take {sc : StageContext} {g : Watch} :
    Sent d sc.info sc.work (Watch.take d g sc.info.runId sc.work.workflow) :=
  fun _ member dispatched => List.mem_append_right _ (List.mem_map_of_mem (List.mem_filter.mpr
    ⟨member, decide_eq_true dispatched⟩))

/-- Between two stages nothing is parked, and every dispatched step is known to have been. -/
def watching (d : WorkflowDefinition) : Passage Watch where
  idle g := g.unscheduled = none
  entered info _ work g := Sent d info work g ∧ g.unscheduled = none
  left info e work g := Rests d info (.error e : Except Exn Unit) work g ∧ g.unscheduled = none

theorem watching_along (armed : Armed l1) (halting : ∀ stage ∈ l1.pipeline, Halting d stage) :
    (watching d).Along (protocol d) l1 where
  quiet := quiet_watch
  rests entered := entered.2
  stops left := left.2
  raises raised entered := ⟨Rests.of_calmly (P := fun _ _ _ => False) (raised_unwaiting raised) nofun, entered.2⟩
  staged _ entered := entered
  takes {before stage after info completed work g} split _ _ entered := by
    have halts := halting stage (split ▸ List.mem_append_right before List.mem_cons_self)
    apply Prog.Follows.weaken (Prog.Follows.keeps Watch.unscheduled stage_unscheduled (halts.2 info work g entered.1))
    rintro ⟨r, work'⟩ g' ⟨rests, same⟩
    have clear : g'.unscheduled = none := same.trans entered.2
    cases r with
    | error e => exact ⟨rests, clear⟩
    | ok a =>
        have sent : Sent d info (work'.recorded (completed ++ [stage.name])) g' := rests
        apply Act.Follows.weaken (save_aside halts.1 sent)
        rintro r _ _ ⟨rfl, rfl, raised⟩
        exact ⟨rfl, ⟨sent, clear⟩, raised⟩
  parks left := park_follows armed left.1.1 left.1.2.1 left.1.2.2 left.2
  creates _ _ _ := trivial
  fresh info clear := by
    refine ⟨?_, clear⟩
    intro step _ dispatched
    cases dispatched
  loads _ _ := trivial
  resumed {g runId blob sc} clear _ read := by
    simp only [protocol, Watch.mark, read]
    exact ⟨sent_take, clear⟩

end drive

/-! ## Asked for and scheduled -/

namespace Waker

/-- A row's run and gate, which no call changes. -/
def key (row : Wakeup) : RunId × Option StepId := (row.runId, row.gate)

variable {p : Platform} {b : Backend} {rows : List Wakeup} {γ : Type} {f : Wakeup → γ}

/-- What is read of a row does not depend on its status. -/
def Lasting (f : Wakeup → γ) : Prop := ∀ row status, f { row with status } = f row

theorem key_lasting : Lasting key := fun _ _ => rfl

variable (lasting : Lasting f)
include lasting

theorem map_claimAll (q : Wakeup → Bool) : (claimAll q rows).1.map f = rows.map f := by
  simp only [claimAll, List.map_map]
  apply List.map_congr_left
  intro row _
  simp only [Function.comp_apply]
  split
  · exact lasting row .fired
  · rfl

theorem map_claimFirst (q : Wakeup → Bool) : (claimFirst q rows).map f = rows.map f := by
  induction rows with
  | nil => rfl
  | cons row rows ih =>
      simp only [claimFirst]
      split
      · simp only [List.map_cons, show f (fire row) = f row from lasting row .fired]
      · simp only [List.map_cons, ih]

theorem map_sweepTimers (now : Int) : (sweepTimers p now rows).1.map f = rows.map f := by
  induction rows with
  | nil => rfl
  | cons row rows ih =>
      simp only [sweepTimers]
      split
      · simp only [List.map_cons, ih]
      · split
        · rfl
        · split
          · simp only [List.map_cons, ih, show f (fire row) = f row from lasting row .fired]
          · simp only [List.map_cons, ih]

theorem map_dueTimers (now : Int) : (dueTimers p b now rows).1.map f = rows.map f := by
  cases b with
  | memory => exact map_sweepTimers lasting now
  | postgres => exact map_claimAll lasting _

theorem map_cancel (r : RunId) : (cancel b r rows).map f = rows.map f := by
  cases b with
  | memory => rfl
  | postgres =>
      simp only [cancel, List.map_map]
      apply List.map_congr_left
      intro row _
      simp only [Function.comp_apply]
      split
      · exact lasting row .cancelled
      · rfl

end Waker

namespace World

/-- A task of this run was published under this objective. -/
def asked (w : World) (r : RunId) (objective : String) : Bool :=
  w.published.any fun m => decide (m.message.envelope.runId = r) && decide (m.message.task.description = objective)

/-- A wakeup of the run was scheduled for the gate. -/
def scheduled (w : World) (r : RunId) (gate : StepId) : Bool := decide ((r, some gate) ∈ w.wakeups.map Waker.key)

variable {dep : Deployment} {c : Choice} {w : World} {op : Op} {r : RunId}

/-- But for their status the rows stay, and a schedule adds one. -/
theorem rows_perform {γ : Type} {f : Wakeup → γ} (lasting : Waker.Lasting f) (dep : Deployment) (c : Choice) (w : World) (op : Op) :
    (perform dep c w op).1.wakeups.map f = w.wakeups.map f ∨ ∃ r condition gate, op = .schedule r condition gate ∧
      (perform dep c w op).1.wakeups = w.wakeups ++ [{ runId := r, condition, gate }] := by
  by_cases writes : writesWakeups op = true
  · rcases perform_world dep c w op with same | ⟨record, same⟩ <;> rw [same]
    · exact .inl rfl
    cases op with
    | schedule r condition gate =>
        simp only [effect]
        split
        · next rows scheduled => exact .inr ⟨r, condition, gate, rfl, Waker.mem_schedule scheduled⟩
        · exact .inl rfl
    | satisfyResults r stepRef => exact .inl (Waker.map_claimFirst lasting _)
    | dueTimers => exact .inl (Waker.map_dueTimers lasting _)
    | dueJoins => exact .inl (Waker.map_claimAll lasting _)
    | fireEvent eventKey => exact .inl (Waker.map_claimAll lasting _)
    | cancelWakeups r => exact .inl (Waker.map_cancel lasting _)
    | _ => cases writes
  · rw [perform_wakeups (by simpa using writes)]
    exact .inl rfl

/-- Wakeups are only added. -/
theorem keys_perform (dep : Deployment) (c : Choice) (w : World) (op : Op) :
    w.wakeups.map Waker.key ⊆ (perform dep c w op).1.wakeups.map Waker.key := by
  rcases rows_perform Waker.key_lasting dep c w op with same | ⟨r, condition, gate, _, same⟩ <;> rw [same]
  · exact List.Subset.refl _
  · rw [List.map_append]
    exact List.subset_append_left _ _

theorem scheduled_perform {gate : StepId} (h : w.scheduled r gate = true) :
    (perform dep c w op).1.scheduled r gate = true :=
  decide_eq_true (keys_perform dep c w op (of_decide_eq_true h))

/-- Publications are only added. -/
theorem published_perform (dep : Deployment) (c : Choice) (w : World) (op : Op) :
    w.published ⊆ (perform dep c w op).1.published := by
  by_cases publishes : ∃ info q, op = .stage info (.publishTask q)
  · obtain ⟨info, q, rfl⟩ := publishes
    rcases perform_publish dep c w info q with same | same <;> rw [same]
    · exact List.Subset.refl _
    · exact List.subset_append_left _ _
  · rw [perform_published fun info q same => publishes ⟨info, q, same⟩]
    exact List.Subset.refl _

theorem asked_perform {objective : String} (h : w.asked r objective = true) :
    (perform dep c w op).1.asked r objective = true := by
  obtain ⟨m, member, mine⟩ := List.any_eq_true.mp h
  exact List.any_eq_true.mpr ⟨m, published_perform dep c w op member, mine⟩

/-- A publication that was answered is among those published. -/
theorem asked_publish {info : RunInfo} {q : Publication} {u : Unit}
    (answered : (perform dep c w (.stage info (.publishTask q))).2 = .ok u) :
    (perform dep c w (.stage info (.publishTask q))).1.asked info.runId q.task.description = true := by
  rw [perform_ok answered]
  refine List.any_eq_true.mpr ⟨_, List.mem_append_right _ List.mem_cons_self, ?_⟩
  simp [buildTaskMessage]

/-- A wakeup that was scheduled is there. -/
theorem scheduled_schedule {condition : WakeCondition} {gate : StepId} {u : Unit}
    (answered : (perform dep c w (.schedule r condition (some gate))).2 = .ok u) :
    (perform dep c w (.schedule r condition (some gate))).1.scheduled r gate = true := by
  have took := perform_ok answered
  have replied : (effect dep c w true (.schedule r condition (some gate))).2 = .ok u := took ▸ answered
  rw [took]
  simp only [effect] at replied ⊢
  split
  · next rows done =>
      rw [Waker.mem_schedule done]
      simp [scheduled, Waker.key]
  · next e failed =>
      rw [failed] at replied
      cases replied

end World

open World

/-! ## In any interleaving -/

/-- A ready gate of the park has its wakeup, if it has a ready gate at all. -/
def Timed (d : WorkflowDefinition) (w : World) (parked : Park) : Prop :=
  ∀ step ∈ d.steps, parked.state.ready step = true → step.kind = .gate →
    ∃ other ∈ d.steps, parked.state.ready other = true ∧ other.kind = .gate ∧ w.scheduled parked.runId other.id = true

/-- What a workflow state tells of dispatches is so. -/
def Backed (d : WorkflowDefinition) (w : World) (r : RunId) (s : WorkflowState) : Prop :=
  ∀ step ∈ d.steps, step.id ∈ s.dispatched → w.asked r (WorkflowExecutor.objective d step) = true

/-- What a process has seen is so. -/
structure Truthful (d : WorkflowDefinition) (w : World) (g : Watch) : Prop where
  sent : ∀ r objective, (r, objective) ∈ g.sent → w.asked r objective = true
  taken : ∀ parked ∈ g.parks, Taken d parked.state parked.missing
  backed : ∀ parked ∈ g.parks, Backed d w parked.runId parked.state
  timed : ∀ parked ∈ g.parks, g.unscheduled = some parked ∨ Timed d w parked

/-- Every checkpoint is of its run, and its dispatches were made. -/
def Grounded (d : WorkflowDefinition) (w : World) : Prop :=
  ∀ r label blob, w.checkpoints r = some (label, blob) →
    ∃ sc, checkpointDeserialize blob = .ok sc ∧ sc.info.runId = r ∧ Backed d w r sc.work.workflow

section steps

variable {dep : Deployment} {d : WorkflowDefinition} {c : Choice} {w : World} {g : Watch} {op : Op}

theorem Backed.perform {r : RunId} {s : WorkflowState} (backed : Backed d w r s) :
    Backed d (perform dep c w op).1 r s :=
  fun step member dispatched => asked_perform (backed step member dispatched)

theorem Timed.perform {parked : Park} (timed : Timed d w parked) : Timed d (perform dep c w op).1 parked := by
  intro step member ready kind
  obtain ⟨other, inside, open_, gate, there⟩ := timed step member ready kind
  exact ⟨other, inside, open_, gate, scheduled_perform there⟩

/-- A call leaves true what was true. -/
theorem Truthful.perform (truthful : Truthful d w g) : Truthful d (perform dep c w op).1 g where
  sent r objective member := asked_perform (truthful.sent r objective member)
  taken := truthful.taken
  backed parked member := (truthful.backed parked member).perform
  timed parked member := (truthful.timed parked member).imp id Timed.perform

/-- A history that forgets or adds only what had no result. -/
theorem Truthful.missing (truthful : Truthful d w g) (missing : List (RunId × StepId)) : Truthful d w { g with missing } :=
  ⟨truthful.sent, truthful.taken, truthful.backed, truthful.timed⟩

theorem Truthful.tell (truthful : Truthful d w g) (more : List (RunId × String))
    (known : ∀ r objective, (r, objective) ∈ more → w.asked r objective = true) :
    Truthful d w { g with sent := g.sent ++ more } := by
  refine ⟨fun r objective member => ?_, truthful.taken, truthful.backed, truthful.timed⟩
  rcases List.mem_append.mp member with old | new
  · exact truthful.sent r objective old
  · exact known r objective new

/-- What is known to be sent covers what the context tells of. -/
theorem Truthful.backs (truthful : Truthful d w g) {info : RunInfo} {work : Work} (sent : Sent d info work g) :
    Backed d w info.runId work.workflow :=
  fun step member dispatched => truthful.sent _ _ (sent step member dispatched)

/-- What is parked was taken up, and its wakeup is still to be scheduled. -/
theorem Truthful.park (truthful : Truthful d w g) {r : RunId} {s : WorkflowState} (clear : g.unscheduled = none)
    (taken : Taken d s (g.missed r)) (backed : Backed d w r s) : Truthful d w (Watch.park g r s) := by
  refine ⟨truthful.sent, fun parked member => ?_, fun parked member => ?_, fun parked member => ?_⟩
  · rcases List.mem_append.mp member with old | new
    · exact truthful.taken parked old
    · rw [List.mem_singleton.mp new]
      exact taken
  · rcases List.mem_append.mp member with old | new
    · exact truthful.backed parked old
    · rw [List.mem_singleton.mp new]
      exact backed
  · rcases List.mem_append.mp member with old | new
    · refine .inr ((truthful.timed parked old).resolve_left ?_)
      rw [clear]
      exact nofun
    · rw [List.mem_singleton.mp new]
      exact .inl rfl

/-- A call that is allowed leaves a history that is so. -/
theorem Truthful.step (truthful : Truthful d w g) (grounded : Grounded d w) (allowed : Watch.allowed d g op) :
    Truthful d (World.perform dep c w op).1 (Watch.mark d g op (World.perform dep c w op).2) := by
  have later : Truthful d (World.perform dep c w op).1 g := truthful.perform
  cases op with
  | create tenant goal =>
      cases (World.perform dep c w (.create tenant goal)).2 with
      | error e => exact later
      | ok r => exact later.missing []
  | load r =>
      cases reply : (World.perform dep c w (.load r)).2 with
      | error e => exact later.missing []
      | ok found =>
          cases found with
          | none => exact later.missing []
          | some blob =>
              have answered := (congrArg Prod.snd (perform_ok reply)).symm.trans reply
              simp only [effect, Except.ok.injEq, Option.map_eq_some_iff] at answered
              obtain ⟨⟨label, _⟩, kept, rfl⟩ := answered
              obtain ⟨sc, read, mine, backed⟩ := grounded r label _ kept
              simp only [Watch.mark, read]
              refine (later.tell (told d sc.info.runId sc.work.workflow) ?_).missing []
              intro r' objective member
              obtain ⟨step, there, same⟩ := List.mem_map.mp member
              obtain ⟨inside, dispatched⟩ := List.mem_filter.mp there
              cases same
              exact asked_perform (mine ▸ backed step inside (of_decide_eq_true dispatched))
  | stage info so =>
      cases so with
      | listResults id =>
          cases (World.perform dep c w (.stage info (.listResults id))).2 with
          | error e => exact later
          | ok found =>
              cases found with
              | nil => exact later.missing (g.missing ++ [(info.runId, id)])
              | cons first rest => exact later
      | publishTask q =>
          cases reply : (World.perform dep c w (.stage info (.publishTask q))).2 with
          | error e => exact later
          | ok u =>
              refine later.tell [(info.runId, q.task.description)] ?_
              intro r objective member
              cases List.mem_singleton.mp member
              exact asked_publish reply
      | _ => exact later
  | save r label blob =>
      obtain ⟨info, work, rfl, rfl, sent, waits⟩ := allowed
      simp only [Watch.mark]
      split
      · next waiting =>
          rw [deserialize_serialize]
          obtain ⟨clear, taken⟩ := waits waiting
          exact later.park clear taken (later.backs sent)
      · exact later
  | schedule r condition gate =>
      cases reply : (World.perform dep c w (.schedule r condition gate)).2 with
      | error e => exact later
      | ok u =>
          refine ⟨later.sent, later.taken, later.backed, fun parked member => .inr ?_⟩
          rcases later.timed parked member with due | timed
          · obtain ⟨rfl, suits⟩ := allowed parked due
            intro step inside ready kind
            obtain ⟨other, there, open_, gated, rfl⟩ := suits step inside ready kind
            exact ⟨other, there, open_, gated, scheduled_schedule reply⟩
          · exact timed
  | _ => exact later

/-- What is saved is of its run and tells of what was sent. -/
theorem Grounded.step (grounded : Grounded d w) (truthful : Truthful d w g) (allowed : Watch.allowed d g op) :
    Grounded d (World.perform dep c w op).1 := by
  have old : ∀ r label blob, w.checkpoints r = some (label, blob) → ∃ sc, checkpointDeserialize blob = .ok sc ∧
      sc.info.runId = r ∧ Backed d (World.perform dep c w op).1 r sc.work.workflow := by
    intro r label blob found
    obtain ⟨sc, read, mine, backed⟩ := grounded r label blob found
    exact ⟨sc, read, mine, backed.perform⟩
  intro r label blob found
  rcases checkpoints_from found with there | rfl
  · exact old r label blob there
  · obtain ⟨info, work, rfl, rfl, sent, _⟩ := allowed
    exact ⟨_, deserialize_serialize _, rfl, (truthful.backs sent).perform⟩

end steps

/-- Neither a fault nor a collaborator raises `NeedsWait`: in the repository only the executor does. -/
def Choice.unwaiting (c : Choice) : Bool :=
  !((c.fault.any fun fault => fault.2.waits) || raises c.approval || raises c.verdict || raises c.reply)
where
  raises {α : Type} : Except Exn α → Bool
    | .error e => e.waits
    | .ok _ => false

namespace World

theorem ungoverned_waits {e : Exn} (h : e.governed = false) : e.waits = false := by
  cases e with
  | needsWait condition gate => cases h
  | _ => rfl

theorem raised_waits {op : Op} {e : Exn} (calm : e.waits = false) : (raised op e).waits = false := by
  cases op with
  | stage info so => exact calm
  | _ => exact ungoverned_waits (governed_ungoverned e)

theorem unwaiting_spec {c : Choice} (h : c.unwaiting = true) : (∀ at_ e, c.fault = some (at_, e) → e.waits = false) ∧
    (∀ e, c.approval = .error e → e.waits = false) ∧ (∀ e, c.verdict = .error e → e.waits = false) ∧
      ∀ e, c.reply = .error e → e.waits = false := by
  simp only [Choice.unwaiting, Bool.not_eq_true', Bool.or_eq_false_iff] at h
  obtain ⟨⟨⟨fault, approval⟩, verdict⟩, reply⟩ := h
  refine ⟨fun at_ e same => ?_, fun e same => ?_, fun e same => ?_, fun e same => ?_⟩
  · simpa [same] using fault
  · simpa [Choice.unwaiting.raises, same] using approval
  · simpa [Choice.unwaiting.raises, same] using verdict
  · simpa [Choice.unwaiting.raises, same] using reply

theorem resolveQueue_unwaiting {p : Platform} {q : QueueDispatcher} {registry : List RegistryEntry}
    {contract : DelegationContract} {info : RunInfo} {e : Exn}
    (h : q.resolveQueue p registry contract info = .error e) : e.waits = false := by
  simp only [QueueDispatcher.resolveQueue] at h
  cases loader : q.registryLoader with
  | none => simp [loader] at h
  | some signer =>
      cases version : QueueDispatcher.pin contract with
      | none =>
          simp only [loader, version] at h
          split at h <;> cases h
      | some v =>
          simp only [loader, version] at h
          split at h
          · cases h
            rfl
          · split at h <;> cases h

/-- No call answers with a wait where the environment raises none. -/
theorem perform_unwaiting {d : Deployment} {c : Choice} {w : World} (h : c.unwaiting = true) (named : Named w) (op : Op) :
    Watch.answers op (perform d c w op).2 := by
  obtain ⟨fault, approval, verdict, reply⟩ := unwaiting_spec h
  have effected : ∀ record, Watch.answers op (effect d c w record op).2 := by
    intro record e failed
    have known : Track.answers op (effect d c w record op).2 := effect_answers named op
    cases op with
    | stage info so =>
        cases so with
        | approvalWait _ _ _ =>
            simp only [effect, stageEffect] at failed
            split at failed
            · cases failed
            · next e' denied =>
                cases failed
                exact approval _ denied
        | resolveQueue q contract => exact resolveQueue_unwaiting failed
        | external _ _ => exact reply e failed
        | _ => cases failed
    | validate envelope => exact verdict e failed
    | load r => cases failed
    | _ => exact ungoverned_waits (known e failed)
  unfold perform
  split
  · exact effected true
  · next e there =>
      intro e' same
      cases same
      exact raised_waits (fault _ _ there)
  · next e there =>
      intro e' same
      cases same
      exact raised_waits (fault _ _ there)
  · next e there =>
      intro e' same
      cases same
      exact raised_waits (fault _ _ there)

end World

theorem Grounded.named {d : WorkflowDefinition} {w : World} (grounded : Grounded d w) : Named w := by
  intro r label blob found
  obtain ⟨sc, read, mine, _⟩ := grounded r label blob found
  simp only [runOf, read, mine]

namespace Orchestrator

variable (o : Orchestrator)

/-- The orchestrator with what each process has seen beside it. -/
def watched (d : WorkflowDefinition) : Machine RunSig World Choice Actor EnvMove Watch :=
  o.machine (fun _ => {}) (Watch.mark d)

/-- Nothing but the executor raises `NeedsWait`. -/
def unwaiting (_ : Pool RunSig World Watch) : Label Choice Actor EnvMove → Bool
  | .run _ c => c.unwaiting
  | _ => true

end Orchestrator

/-- A process parked the run with this workflow state. -/
def Parked (p : Pool RunSig World Watch) (r : RunId) (s : WorkflowState) : Prop :=
  ∃ b ∈ p.procs, ∃ parked ∈ b.tag.parks, parked.runId = r ∧ parked.state = s

/-- What holds of the orchestrator between any two calls. -/
structure Attentive (d : WorkflowDefinition) (p : Pool RunSig World Watch) : Prop where
  grounded : Grounded d p.world
  truthful : ∀ b ∈ p.procs, Truthful d p.world b.tag
  parked : ∀ r label blob, p.world.checkpoints r = some (label, blob) → label ∈ waitLabels →
    ∀ sc, checkpointDeserialize blob = .ok sc → Parked p r sc.work.workflow
  follow : Machine.AllFollow (Watch.protocol d) (fun r g => Rearmed r g) p

section runs

variable {o : Orchestrator} {d : WorkflowDefinition} {p q : Pool RunSig World Watch}

/-- No reply takes a park out of the history. -/
theorem parks_mark {g : Watch} {parked : Park} (member : parked ∈ g.parks) (op : Op) (reply : Except Exn op.Ans) :
    parked ∈ (Watch.mark d g op reply).parks := by
  cases op with
  | create tenant goal => cases reply <;> exact member
  | load r =>
      rcases reply with e | (_ | blob)
      · exact member
      · exact member
      · simp only [Watch.mark]
        split <;> exact member
  | stage info so =>
      cases so with
      | listResults id => rcases reply with e | (_ | ⟨first, rest⟩) <;> exact member
      | publishTask q => cases reply <;> exact member
      | _ => exact member
  | save r label blob =>
      simp only [Watch.mark]
      split
      · split
        · exact List.mem_append_left _ member
        · exact member
      · exact member
  | schedule r condition gate => cases reply <;> exact member
  | _ => exact member

/-- A process that goes on keeps its parks. -/
theorem Parked.set {r : RunId} {s : WorkflowState} {i : Nat} {b b' : Proc RunSig Watch} {w : World} (parked : Parked p r s)
    (found : p.procs[i]? = some b) (kept : ∀ x ∈ b.tag.parks, x ∈ b'.tag.parks) : Parked ⟨w, p.procs.set i b'⟩ r s := by
  have inside : i < p.procs.length := (List.getElem?_eq_some_iff.mp found).1
  obtain ⟨x, member, park, there, mine⟩ := parked
  obtain ⟨j, found'⟩ := List.getElem?_of_mem member
  by_cases same : j = i
  · subst same
    cases found.symm.trans found'
    exact ⟨b', List.mem_of_getElem? (List.getElem?_set_self inside), park, kept park there, mine⟩
  · exact ⟨x, List.mem_of_getElem? (i := j) (by rwa [List.getElem?_set_ne (Ne.symm same)]), park, there, mine⟩

/-- A checkpoint to wait at was saved by a process that parked the run. -/
theorem parked_call {i : Nat} {c : Choice} {op : Op} {k : Except Exn op.Ans → Prog RunSig (Except Exn Unit)} {g : Watch}
    {b : Proc RunSig Watch} (attentive : Attentive d p) (found : p.procs[i]? = some ⟨.call op k, g⟩)
    (marked : b.tag = Watch.mark d g op (perform o.deployment c p.world op).2) {r : RunId} {label : String} {blob : Json}
    (saved : (perform o.deployment c p.world op).1.checkpoints r = some (label, blob)) (waits : label ∈ waitLabels)
    {sc : StageContext} (read : checkpointDeserialize blob = .ok sc) :
    Parked ⟨(perform o.deployment c p.world op).1, p.procs.set i b⟩ r sc.work.workflow := by
  have kept : ∀ x ∈ g.parks, x ∈ b.tag.parks := fun x there => marked ▸ parks_mark there op _
  have before : p.world.checkpoints r = some (label, blob) →
      Parked ⟨(perform o.deployment c p.world op).1, p.procs.set i b⟩ r sc.work.workflow :=
    fun old => (attentive.parked r label blob old waits sc read).set found kept
  rcases checkpoints_from saved with old | rfl
  · exact before old
  · refine ⟨b, List.mem_of_getElem? (List.getElem?_set_self (List.getElem?_eq_some_iff.mp found).1),
      ⟨r, sc.work.workflow, g.missed r⟩, ?_, rfl, rfl⟩
    rw [marked]
    simp only [Watch.mark, if_pos waits, read]
    exact List.mem_append_right _ List.mem_cons_self

/-- One step of the orchestrator. -/
theorem Attentive.step (armed : Armed o.l1) (halting : ∀ stage ∈ o.l1.pipeline, Halting d stage) (attentive : Attentive d p)
    {l : Label Choice Actor EnvMove} (met : Orchestrator.unwaiting p l = true) (h : (o.watched d).step p l = some q) :
    Attentive d q := by
  have started : ∀ a, (o.program a).Follows (Watch.protocol d) (fun r g => Rearmed r g) {} := fun a =>
    Passage.program_follows (watching_along armed halting) a (show (watching d).idle {} from rfl)
  have follow : Machine.AllFollow (Watch.protocol d) (fun r g => Rearmed r g) q := by
    refine Machine.step_allFollow rfl started attentive.follow h ?_
    rintro i c op k g rfl found
    exact perform_unwaiting met attentive.grounded.named op
  rcases Machine.step_cases h with ⟨a, rfl, rfl⟩ | ⟨i, c, op, k, g, rfl, found, rfl⟩ |
    ⟨i, b, rfl, found, rfl⟩ | ⟨e, rfl, rfl⟩
  · refine ⟨attentive.grounded, fun b member => ?_, fun r label blob saved waits sc read => ?_, follow⟩
    · rcases List.mem_append.mp member with old | new
      · exact attentive.truthful b old
      · rw [List.mem_singleton.mp new]
        exact ⟨nofun, nofun, nofun, nofun⟩
    · obtain ⟨b, member, park⟩ := attentive.parked r label blob saved waits sc read
      exact ⟨b, List.mem_append_left _ member, park⟩
  · have allowed := attentive.follow.allowed found
    have mine := attentive.truthful _ (List.mem_of_getElem? found)
    refine ⟨attentive.grounded.step mine allowed, fun b member => ?_, fun r label blob saved waits sc read => ?_, follow⟩
    · rcases Machine.mem_set member with rfl | old
      · exact mine.step attentive.grounded allowed
      · exact (attentive.truthful b old).perform
    · exact parked_call attentive found rfl saved waits read
  · refine ⟨attentive.grounded, fun b' member => ?_, fun r label blob saved waits sc read => ?_, follow⟩
    · rcases Machine.mem_set member with rfl | old
      · exact attentive.truthful b (List.mem_of_getElem? found)
      · exact attentive.truthful b' old
    · exact (attentive.parked r label blob saved waits sc read).set found fun _ => id
  · refine ⟨?_, fun b member => ?_, ?_, follow⟩
    · cases e <;> exact attentive.grounded
    · obtain ⟨sent, taken, backed, timed⟩ := attentive.truthful b member
      cases e <;> exact ⟨sent, taken, backed, timed⟩
    · cases e <;> exact attentive.parked

theorem Attentive.run (armed : Armed o.l1) (halting : ∀ stage ∈ o.l1.pipeline, Halting d stage)
    (run : Machine.Run (o.watched d) Orchestrator.unwaiting p q) (attentive : Attentive d p) : Attentive d q :=
  run.invariant attentive fun _ _ _ held met step => held.step armed halting met step

theorem attentive_fresh {registry : List RegistryEntry} {rulesets : String → String → Option LoadedRuleset} {clock : Int} :
    Attentive d (Orchestrator.start Watch (World.fresh registry rulesets clock)) := by
  refine ⟨?_, nofun, ?_, nofun⟩
  · intro r label blob found
    cases found
  · intro r label blob found
    cases found

/-! ### What was there when the run was taken up -/

/-- Whoever takes a run up has looked nothing up yet. -/
theorem missing_load {g : Watch} {r r' : RunId} {id : StepId} {reply : Except Exn (Option Json)} :
    (r', id) ∉ (Watch.mark d g (.load r) reply).missing := by
  rcases reply with e | (_ | blob)
  · exact List.not_mem_nil
  · exact List.not_mem_nil
  · simp only [Watch.mark]
    split <;> exact List.not_mem_nil

theorem parks_load {g : Watch} {r : RunId} {reply : Except Exn (Option Json)} :
    (Watch.mark d g (.load r) reply).parks = g.parks := by
  rcases reply with e | (_ | blob)
  · rfl
  · rfl
  · simp only [Watch.mark]
    split <;> rfl

theorem mark_parks {g : Watch} {op : Op} {reply : Except Exn op.Ans} {parked : Park}
    (member : parked ∈ (Watch.mark d g op reply).parks) : parked ∈ g.parks ∨ parked.missing = g.missed parked.runId := by
  cases op with
  | create tenant goal => cases reply <;> exact .inl member
  | load r => exact .inl (by rwa [parks_load] at member)
  | stage info so =>
      cases so with
      | listResults id => rcases reply with e | (_ | ⟨first, rest⟩) <;> exact .inl member
      | publishTask q => cases reply <;> exact .inl member
      | _ => exact .inl member
  | save r label blob =>
      simp only [Watch.mark] at member
      split at member
      · split at member
        · rcases List.mem_append.mp member with old | new
          · exact .inl old
          · rw [List.mem_singleton.mp new]
            exact .inr rfl
        · exact .inl member
      · exact .inl member
  | schedule r condition gate => cases reply <;> exact .inl member
  | _ => exact .inl member

/-- A step with a result is never told to have none. -/
theorem mark_missing {dep : Deployment} {c : Choice} {w : World} {g : Watch} {op : Op} {r : RunId} {id : StepId}
    (landed : ResultStore.list w.results r id ≠ []) (unseen : (r, id) ∉ g.missing) :
    (r, id) ∉ (Watch.mark d g op (perform dep c w op).2).missing := by
  cases op with
  | create tenant goal =>
      cases (perform dep c w (.create tenant goal)).2 with
      | error e => exact unseen
      | ok r => exact List.not_mem_nil
  | load r => exact missing_load
  | stage info so =>
      cases so with
      | listResults id' =>
          cases reply : (perform dep c w (.stage info (.listResults id'))).2 with
          | error e => exact unseen
          | ok found =>
              cases found with
              | cons first rest => exact unseen
              | nil =>
                  have answered := (congrArg Prod.snd (perform_ok reply)).symm.trans reply
                  simp only [effect, stageEffect, Except.ok.injEq] at answered
                  intro member
                  rcases List.mem_append.mp member with old | new
                  · exact unseen old
                  · cases List.mem_singleton.mp new
                    exact landed answered
      | publishTask q => cases (perform dep c w (.stage info (.publishTask q))).2 <;> exact unseen
      | _ => exact unseen
  | save r' label blob =>
      simp only [Watch.mark]
      split
      · split <;> exact unseen
      · exact unseen
  | schedule r condition gate => cases (perform dep c w (.schedule r condition gate)).2 <;> exact unseen
  | _ => exact unseen

/-- What is known of process `i` since it took the run up with this result in the store. -/
def Landed (old : List Park) (i : Nat) (r : RunId) (id : StepId) (p : Pool RunSig World Watch) : Prop :=
  ResultStore.list p.world.results r id ≠ [] ∧ ∀ b, p.procs[i]? = some b → (r, id) ∉ b.tag.missing ∧
    ∀ parked ∈ b.tag.parks, parked ∈ old ∨ (parked.runId = r → id ∉ parked.missing)

theorem landed_perform {dep : Deployment} {c : Choice} {w : World} {op : Op} {r : RunId} {id : StepId}
    (landed : ResultStore.list w.results r id ≠ []) : ResultStore.list (perform dep c w op).1.results r id ≠ [] := by
  obtain ⟨more, same⟩ := results_perform dep c w op
  rw [← same, ResultStore.list, List.filter_append]
  exact fun none => landed (List.append_eq_nil_iff.mp none).1

theorem Landed.step {old : List Park} {i : Nat} {r : RunId} {id : StepId} (landed : Landed old i r id p)
    (there : i < p.procs.length) {l : Label Choice Actor EnvMove} (h : (o.watched d).step p l = some q) :
    Landed old i r id q ∧ i < q.procs.length := by
  rcases Machine.step_cases h with ⟨a, rfl, rfl⟩ | ⟨j, c, op, k, g, rfl, found, rfl⟩ |
    ⟨j, b, rfl, found, rfl⟩ | ⟨e, rfl, rfl⟩
  · refine ⟨⟨landed.1, fun b same => landed.2 b ?_⟩, by simp; omega⟩
    rwa [List.getElem?_append_left there] at same
  · refine ⟨⟨landed_perform landed.1, fun b same => ?_⟩, by simpa using there⟩
    by_cases mine : j = i
    · subst mine
      rw [List.getElem?_set_self there] at same
      cases same
      obtain ⟨unseen, parks⟩ := landed.2 _ found
      refine ⟨mark_missing landed.1 unseen, fun parked member => ?_⟩
      rcases mark_parks member with before | made
      · exact parks parked before
      · refine .inr fun run missed => unseen (mem_missed.mp ?_)
        rwa [← run, ← made]
    · rw [List.getElem?_set_ne mine] at same
      exact landed.2 b same
  · refine ⟨⟨landed.1, fun b' same => ?_⟩, by simpa using there⟩
    by_cases mine : j = i
    · subst mine
      rw [List.getElem?_set_self there] at same
      cases same
      exact landed.2 b found
    · rw [List.getElem?_set_ne mine] at same
      exact landed.2 b' same
  · refine ⟨⟨?_, landed.2⟩, there⟩
    cases e <;> exact landed.1

/-- A drive finds every result that was in the store when it took the run up. -/
theorem landed_found (o : Orchestrator) (d : WorkflowDefinition) {cond : Pool RunSig World Watch → Label Choice Actor EnvMove → Bool}
    {p p₁ q : Pool RunSig World Watch} {i : Nat} {c : Choice} {r : RunId} {id : StepId} {b b' : Proc RunSig Watch}
    (next : p.next i = some (.load r)) (before : p.procs[i]? = some b) (loaded : (o.watched d).step p (.run i c) = some p₁)
    (landed : ResultStore.list p.world.results r id ≠ []) (run : Machine.Run (o.watched d) cond p₁ q)
    (after : q.procs[i]? = some b') {parked : Park} (made : parked ∈ b'.tag.parks) (new : parked ∉ b.tag.parks)
    (mine : parked.runId = r) : id ∉ parked.missing := by
  obtain ⟨op, k, g, found, rfl⟩ := Machine.call_eq_some loaded
  cases before.symm.trans found
  cases (Pool.next_eq found).symm.trans next
  have there : i < p.procs.length := (List.getElem?_eq_some_iff.mp found).1
  have start : Landed g.parks i r id ⟨(perform o.deployment c p.world (.load r)).1, p.procs.set i
      ⟨k (perform o.deployment c p.world (.load r)).2, Watch.mark d g (.load r) (perform o.deployment c p.world (.load r)).2⟩⟩ := by
    refine ⟨landed_perform landed, fun b same => ?_⟩
    rw [List.getElem?_set_self there] at same
    cases same
    exact ⟨missing_load, fun parked member => .inl (by rwa [parks_load] at member)⟩
  obtain ⟨⟨_, known⟩, _⟩ := run.invariant (I := fun p => Landed g.parks i r id p ∧ i < p.procs.length)
    ⟨start, by simpa using there⟩ fun _ _ _ kept _ step => kept.1.step kept.2 step
  exact ((known b' after).2 parked made).resolve_left new mine

end runs

/-- The drive that parked the run saw the step completed, or was not told that it has no result. -/
def Park.found (parked : Park) (id : StepId) : Bool := parked.state.completed id || decide (id ∉ parked.missing)

/-- The step is completed in the park, or its task was published, or the run waits for a ready gate: this one,
or another that comes before it. -/
def TakenUp (d : WorkflowDefinition) (w : World) (parked : Park) (step : WorkflowStep) : Prop :=
  parked.state.completed step.id = true ∨
    (step.kind = .task ∧ w.asked parked.runId (WorkflowExecutor.objective d step) = true) ∨
    (step.kind = .gate ∧ ∃ other ∈ d.steps, parked.state.ready other = true ∧ other.kind = .gate ∧
      w.scheduled parked.runId other.id = true)

/-- Whatever is interleaved, a run that stands where it was parked has been taken up as far as its drive
could see: a step whose dependencies it found completed was dispatched, or waits for a gate. -/
theorem ready_taken_up (o : Orchestrator) (armed : Armed o.l1) (d : WorkflowDefinition) (accepted : d.Accepted)
    (stages : ∀ stage ∈ o.l1.pipeline, (∃ p ex extra, p.Unwaiting ∧
      (∀ step ∈ d.steps, step.kind = .task → ex.mode step = "queue") ∧ stage = workflowStage p ex d extra) ∨ stage.Passing)
    (registry : List RegistryEntry) (rulesets : String → String → Option LoadedRuleset) (clock : Int)
    {q : Pool RunSig World Watch} (run : Machine.Run (o.watched d) Orchestrator.unwaiting
      (Orchestrator.start Watch (World.fresh registry rulesets clock)) q)
    {r : RunId} {kind : WakeKind} {blob : Json}
    (saved : q.world.checkpoints r = some ("waiting:" ++ kind.value, blob))
    (idle : ∀ b ∈ q.procs, ∀ parked, b.tag.unscheduled = some parked → parked.runId ≠ r) :
    ∃ sc, checkpointDeserialize blob = .ok sc ∧ ∃ b ∈ q.procs, ∃ parked ∈ b.tag.parks, parked.runId = r ∧
      parked.state = sc.work.workflow ∧ ∀ step ∈ d.steps, (∀ dep ∈ step.dependsOn, parked.found dep = true) →
        TakenUp d q.world parked step := by
  have halting : ∀ stage ∈ o.l1.pipeline, Halting d stage := by
    intro stage inside
    rcases stages stage inside with ⟨p, ex, extra, calm, queue, rfl⟩ | passing
    · exact halting_workflow calm queue
    · exact halting_of_passing passing
  have attentive := attentive_fresh.run armed halting run
  obtain ⟨sc, read, _, _⟩ := attentive.grounded r _ blob saved
  obtain ⟨b, member, parked, there, mine, same⟩ := attentive.parked r _ blob saved (wait_label kind) sc read
  refine ⟨sc, read, b, member, parked, there, mine, same, fun step inside found => ?_⟩
  have truthful := attentive.truthful b member
  have taken := truthful.taken parked there
  by_cases done : parked.state.completed step.id = true
  · exact .inl done
  have ready : parked.state.ready step = true := by
    refine ready_iff.mpr ⟨by simpa using done, fun dep needed => ?_⟩
    obtain ⟨other, known, rfl⟩ := List.mem_map.mp (accepted.known inside needed)
    have seen := found other.id needed
    simp only [Park.found, Bool.or_eq_true, decide_eq_true_eq] at seen
    rcases taken.looked other known with finished | absent
    · exact finished
    · exact seen.resolve_right (not_not.mpr absent)
  refine .inr ?_
  cases what : step.kind with
  | task => exact .inl ⟨rfl, truthful.backed parked there step inside (taken.tasks step inside ready what)⟩
  | gate =>
      have timed := (truthful.timed parked there).resolve_left fun due => idle b member parked due mine
      exact .inr ⟨rfl, timed step inside ready what⟩

theorem Sample.platform_unwaiting : Sample.platform.Unwaiting := by
  intro now delay e failed
  cases failed

open Sample in
/-- The task of a run that waits for its result. -/
theorem ready_taken_up_single : ∃ (q : Pool RunSig World Watch) (parked : Park), q.world.statusOf "r" = some .waiting ∧
    parked.runId = "r" ∧ TakenUp single q.world parked { id := "a" } := by
  obtain ⟨q, run, met⟩ := Machine.follow_any ((orchestrator single).watched single) Orchestrator.unwaiting
    (Orchestrator.start Watch (World.fresh [] (fun _ _ => none) 0))
    ([.spawn (.run "g" tenant none)] ++ calls 0 12)
    (fun q => decide (q.world.statusOf "r" = some .waiting) && (q.world.checkpoints "r").any (fun kept => kept.1 = joinLabel) &&
      q.procs.all fun b => b.tag.unscheduled.isNone) (by decide +kernel)
  simp only [Bool.and_eq_true, decide_eq_true_eq, List.all_eq_true, Option.any_eq_true] at met
  obtain ⟨⟨waiting, ⟨label, blob⟩, saved, rfl⟩, settled⟩ := met
  obtain ⟨sc, _, b, _, parked, _, mine, _, up⟩ := ready_taken_up (orchestrator single) ⟨rfl, rfl⟩ single (by decide +kernel)
    (fun stage inside => .inl ⟨platform, executor, [], platform_unwaiting, by decide, List.mem_singleton.mp inside⟩) [] (fun _ _ => none) 0
    run (show q.world.checkpoints "r" = some ("waiting:" ++ WakeKind.resultsReady.value, blob) from saved) fun b member parked due => by simpa [due] using settled b member
  exact ⟨q, parked, waiting, mine, up _ List.mem_cons_self nofun⟩

/-! ## What is left behind -/

/-- The run is parked and not cancelled, nobody is on their way to resume it, and no poll would. -/
def quiescent {G : Type} (o : Orchestrator) (q : Pool RunSig World G) (r : RunId) : Bool :=
  q.procs.all (fun b => !b.live) && decide (q.world.statusOf r = some .waiting) && !q.world.flagged r &&
    (Waker.dueJoins q.world.results q.world.wakeups).2.isEmpty &&
    match (Waker.dueTimers o.deployment.platform o.deployment.backend q.world.clock q.world.wakeups).2 with
    | .ok due => due.isEmpty
    | .error _ => false

/-- A queue step has a result in the store, a gate's wakeup has fired. -/
def World.closed (w : World) (d : WorkflowDefinition) (r : RunId) (id : StepId) : Bool :=
  if d.isGate id then w.fired r id else !(ResultStore.list w.results r id).isEmpty

/-- A task has been dispatched, a gate has its wakeup. -/
def World.started (w : World) (d : WorkflowDefinition) (r : RunId) (step : WorkflowStep) : Bool :=
  match step.kind with
  | .task => w.asked r (WorkflowExecutor.objective d step)
  | .gate => w.scheduled r step.id

/-- Nothing fails or is killed, and a result comes only for a step that was dispatched. -/
def orderly {G : Type} (d : WorkflowDefinition) (q : Pool RunSig World G) : Label Choice Actor EnvMove → Bool
  | .kill _ => false
  | .run i c => c.fault.isNone && match q.next i with
      | some (.saveResult e) => d.steps.any fun step => decide (step.id = e.stepRef) &&
          q.world.asked e.runId (WorkflowExecutor.objective d step)
      | _ => true
  | _ => true

/-- No ready step of this kind is left behind. -/
def NoneLeft (kind : StepKind) : Prop :=
  ∀ (o : Orchestrator) (d : WorkflowDefinition), d.Accepted → Armed o.l1 →
    (∃ p ex extra, (∀ step ∈ d.steps, step.kind = .task → ex.mode step = "queue") ∧
      o.l1.pipeline = [workflowStage p ex d extra]) →
    ∀ (registry : List RegistryEntry) (rulesets : String → String → Option LoadedRuleset) (clock : Int)
      (q : Pool RunSig World Unit), Machine.Run o.untracked (orderly d)
        (Orchestrator.start Unit (World.fresh registry rulesets clock)) q →
    ∀ r, quiescent o q r = true → ∀ step ∈ d.steps, step.kind = kind →
      (∀ dep ∈ step.dependsOn, q.world.closed d r dep = true) → q.world.started d r step = true

namespace Sample

/-- Two tasks, and one that waits for the second of them. -/
def forked : WorkflowDefinition :=
  { name := "w", version := 1, steps := [{ id := "a" }, { id := "b" }, { id := "c", dependsOn := ["b"] }] }

/-- Two gates, each waiting for an event. -/
def twoGates : WorkflowDefinition where
  name := "w"
  version := 1
  steps := ["g", "h"].map fun id => { id, kind := .gate, input := [("wait", .str "external_event")] }

end Sample

open Sample in
/-- The run waits for the first task, and the result of the second wakes nobody. Of two ready
gates one is waited for. -/
theorem ready_left_behind : ¬ NoneLeft .task ∧ ¬ NoneLeft .gate := by
  constructor
  · intro kept
    obtain ⟨q, run, met⟩ := Machine.follow_any (orchestrator forked).untracked (orderly forked)
      (Orchestrator.start Unit (World.fresh [] (fun _ _ => none) 0))
      ([.spawn (.run "g" tenant none)] ++ calls 0 17 ++ [.spawn (.handle (resultOf "b"))] ++ calls 1 2)
      (fun q => quiescent (orchestrator forked) q "r" && q.world.closed forked "r" "b" &&
        !q.world.started forked "r" { id := "c", dependsOn := ["b"] }) (by decide +kernel)
    simp only [Bool.and_eq_true, Bool.not_eq_true'] at met
    obtain ⟨⟨parked, landed⟩, left⟩ := met
    have dispatched := kept (orchestrator forked) forked (by decide +kernel) ⟨rfl, rfl⟩
      ⟨platform, executor, [], by decide, rfl⟩ _ _ _ q run "r" parked { id := "c", dependsOn := ["b"] }
      (by simp [forked]) rfl (by simpa using landed)
    exact absurd (left.symm.trans dispatched) (by decide)
  · intro kept
    obtain ⟨q, run, met⟩ := Machine.follow_any (orchestrator twoGates).untracked (orderly twoGates)
      (Orchestrator.start Unit (World.fresh [] (fun _ _ => none) 0))
      ([.spawn (.run "g" tenant none)] ++ calls 0 10)
      (fun q => quiescent (orchestrator twoGates) q "r" && !q.world.scheduled "r" "h") (by decide +kernel)
    simp only [Bool.and_eq_true, Bool.not_eq_true'] at met
    have scheduled := kept (orchestrator twoGates) twoGates (by decide +kernel) ⟨rfl, rfl⟩
      ⟨platform, executor, [], by decide, rfl⟩ _ _ _ q run "r" met.1
      { id := "h", kind := .gate, input := [("wait", .str "external_event")] } (by simp [twoGates]) rfl nofun
    exact absurd (met.2.symm.trans scheduled) (by decide)

end Maof
