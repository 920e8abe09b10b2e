import Maof.Orchestrator.Discipline

/-!
# How a drive leaves its run

The driver writes `RUNNING` and turns three exceptions into an outcome. Any
other exception of a stage, and any exception of its own calls, goes through it
and leaves the status as it is.
-/

namespace Maof

open Effects (Act Prog)

/-- The statuses a drive may leave. -/
def RunStatus.settled : RunStatus → Bool
  | .waiting | .completed | .failed | .cancelled => true
  | _ => false

/-- The world, and how many calls were made. -/
abbrev Moment : Type := World × Nat

/-- What surrounds the one drive of a run: what becomes of each of its calls, and what everybody
else does after it. Nobody else writes the status of the run. -/
structure Setting (runId : RunId) where
  deployment : Deployment
  choose : Nat → Choice
  between : Nat → World → World
  apart : ∀ n w, (between n w).statusOf runId = w.statusOf runId

namespace Setting

variable {runId : RunId} (e : Setting runId)

def perform (m : Moment) (op : Op) : Moment × Except Exn op.Ans :=
  ((e.between m.2 (World.perform e.deployment (e.choose m.2) m.1 op).1, m.2 + 1),
    (World.perform e.deployment (e.choose m.2) m.1 op).2)

/-- The next call takes effect, whether or not it raises. -/
def Writes (m : Moment) : Bool :=
  match (e.choose m.2).fault with
  | some (.before, _) => false
  | _ => true

/-- How the loop over the stages is left. -/
inductive StagesEnd where
  | passed (work : Work) (m : Moment)
  | cancelled (work : Work) (m : Moment)
  | raised (x : Exn) (work : Work) (m : Moment)

variable (l1 : DefaultL1) (info : RunInfo)

/-- The stages one after the other: a stage that was completed is skipped, and the flag is looked at
before each of the others. -/
def stagesEnd : List PipelineStage → List String → Work → Moment → StagesEnd
  | [], _, work, m => .passed work m
  | stage :: rest, completed, work, m =>
      if stage.name ∈ completed then stagesEnd rest completed work m
      else match (DefaultL1.cancelled info work).eval e.perform m with
        | ((.error x, work), m) => .raised x work m
        | ((.ok true, work), m) => .cancelled work m
        | ((.ok false, work), m) =>
            match (l1.runStage info stage (completed ++ [stage.name]) work).eval e.perform m with
            | ((.error x, work), m) => .raised x work m
            | ((.ok (), work), m) => stagesEnd rest (completed ++ [stage.name]) work m

/-- What a park does before it writes the status. -/
def arrange (condition : WakeCondition) (gate : Option StepId) : DriverM Unit := do
  l1.save info ("waiting:" ++ condition.kind.value)
  if l1.waker then
    runCall (.schedule info.runId condition gate)

/-- The exception is one of the three, and what the driver does about it takes effect. -/
def Governs (x : Exn) (work : Work) (m : Moment) : Prop :=
  match x with
  | .needsWait condition gate => match (arrange l1 info condition gate work).eval e.perform m with
      | ((.ok (), _), m) => e.Writes m
      | ((.error _, _), _) => False
  | .policyDenied _ | .approvalRequired _ => e.Writes m
  | _ => False

/-- The loop is left in a way that the driver writes down. -/
def Lands : StagesEnd → Prop
  | .passed _ m => e.Writes m
  | .cancelled _ m => e.Writes m
  | .raised x work m => e.Governs l1 info x work m

/-- A drive may leave the run as it is at this moment. -/
def Rests (runId : RunId) (m : Moment) : Prop := ∃ s, m.1.statusOf runId = some s ∧ s.settled = true

/-- A drive from this context: its event, its `RUNNING`, and its loop. Where one of the first two
fails the status is the one before. -/
def Drives (sc : StageContext) (eventType : String) (details : Data.Dict String Json) (m : Moment) : Prop :=
  match (l1.emitFor sc eventType details ()).eval e.perform m with
  | ((.error _, _), m) => Rests runId m
  | ((.ok (), _), m) => match e.perform m (.setState runId .running) with
      | (m, .error _) => Rests runId m
      | (m, .ok ()) => e.Lands l1 sc.info
          (e.stagesEnd l1 sc.info l1.pipeline (sc.work.extras.completedStages.getD []).dedup sc.work m)

def Runs (goal : String) (tenant : TenantContext) (principal : Option Principal) (m : Moment) : Prop :=
  match e.perform m (.create tenant goal) with
  | (_, .error _) => False
  | (m, .ok _) => e.Drives l1 (StageContext.initial { runId, tenant, goal, principal }) "run_started"
      [("goal", .str goal)] m

/-- A run that is not taken up again keeps its status. -/
def Resumes (m : Moment) : Prop :=
  if l1.checkpointer then match e.perform m (.load runId) with
    | (m, .ok (some blob)) => match checkpointDeserialize blob with
        | .ok sc => e.Drives l1 sc "run_resumed" [] m
        | .error _ => Rests runId m
    | (m, _) => Rests runId m
  else Rests runId m

/-! ## Calls -/

section calls

variable {e} {m : Moment} {s : RunStatus}

/-- The calls that leave every status alone. -/
def Quiet (op : Op) : Prop := (∀ r s, op ≠ .setState r s) ∧ ∀ r, op ≠ .finalizeCancel r

theorem perform_quiet {op : Op} (quiet : Quiet op) (before : m.1.statusOf runId = some s) :
    (e.perform m op).1.1.statusOf runId = some s := by
  rw [perform, e.apart]
  exact World.statusOf_keeps quiet.1 quiet.2 before

theorem eval_quiet {α : Type} {p : Prog RunSig α} (uses : p.Uses Quiet) (before : m.1.statusOf runId = some s) :
    (p.eval e.perform m).2.1.statusOf runId = some s :=
  uses.eval (J := fun m : Moment => m.1.statusOf runId = some s) (fun _ quiet _ => perform_quiet quiet) before

/-- A status write does what it says unless it fails before its effect. -/
theorem perform_write (written : RunStatus) (before : m.1.statusOf runId = some s) :
    (e.perform m (.setState runId written)).1.1.statusOf runId = some (if e.Writes m then written else s) := by
  obtain ⟨row, found, status⟩ := Option.map_eq_some_iff.mp before
  have effect : ∀ record, (World.effect e.deployment (e.choose m.2) m.1 record (.setState runId written)).1 =
      m.1.setRun runId fun st => { st with status := written } := by
    intro record
    simp only [World.effect, found]
    cases e.deployment.backend with
    | memory => rfl
    | postgres => rfl
  have changed : (m.1.setRun runId fun st => { st with status := written }).statusOf runId = some written := by
    rw [World.statusOf_setRun, if_pos rfl, found, Option.map_some]
  rw [perform, e.apart, World.perform, Writes]
  cases (e.choose m.2).fault with
  | none => rw [effect, changed, if_pos rfl]
  | some f =>
      obtain ⟨at_, x⟩ := f
      cases at_ with
      | before => exact before
      | within => rw [effect, changed, if_pos rfl]
      | after => rw [effect, changed, if_pos rfl]

/-- The last thing a drive does: a status write, and whatever leaves the status alone after it. -/
theorem eval_last {α : Type} {info : RunInfo} {written : RunStatus} {rest : Unit → DriverM α} {work : Work}
    (mine : info.runId = runId) (quiet : ∀ u, (rest u).Uses Quiet) (before : m.1.statusOf runId = some s) :
    (((DefaultL1.setStatus info written >>= rest) work).eval e.perform m).2.1.statusOf runId =
      some (if e.Writes m then written else s) := by
  subst mine
  have after := perform_write (e := e) written before
  have shape : (DefaultL1.setStatus info written work).eval e.perform m =
      (((e.perform m (.setState info.runId written)).2, work), (e.perform m (.setState info.runId written)).1) := rfl
  rw [Act.eval_bind, shape]
  cases (e.perform m (.setState info.runId written)).2 with
  | error x => exact after
  | ok u => exact eval_quiet (quiet u work) after

end calls

/-! ## The pieces of a drive -/

section pieces

variable {e l1 info} {m : Moment} {work : Work}

theorem quiet_emit {eventType : String} {details : Data.Dict String Json} :
    (l1.emit info eventType details).Uses Quiet := by
  unfold DefaultL1.emit
  split
  · exact Act.uses_get_bind fun work => Act.uses_await ⟨nofun, nofun⟩
  · exact Act.uses_pure _

theorem quiet_save {label : String} : (l1.save info label).Uses Quiet := by
  unfold DefaultL1.save
  split
  · exact Act.uses_get_bind fun work => Act.uses_await ⟨nofun, nofun⟩
  · exact Act.uses_pure _

/-- The event and the answer after a status write. -/
theorem quiet_told {eventType : String} {details : Data.Dict String Json} {out : Work → OrchestrationResult} :
    (do l1.emit info eventType details
        let work ← Act.get
        return out work : DriverM OrchestrationResult).Uses Quiet :=
  Act.uses_bind quiet_emit fun _ => Act.uses_get_bind fun _ => Act.uses_pure _

theorem quiet_cancelled : (DefaultL1.cancelled info).Uses Quiet :=
  Act.uses_bind (Act.uses_await ⟨nofun, nofun⟩) fun _ => Act.uses_pure _

theorem quiet_runStage {stage : PipelineStage} {completed : List String} :
    (l1.runStage info stage completed).Uses Quiet := by
  have executed : (liftStage info (stage.execute info)).Uses Quiet := by
    intro s
    exact Prog.Uses.lift (Prog.Uses.all (fun so => ⟨nofun, nofun⟩) _)
  have body : (l1.executed info stage completed).Uses Quiet := by
    apply Act.uses_bind executed
    intro _
    apply Act.uses_bind (Act.uses_modify _)
    intro _
    apply Act.uses_bind quiet_save
    intro _
    apply Act.uses_bind quiet_emit
    intro _
    exact Act.uses_await ⟨nofun, nofun⟩
  rw [DefaultL1.runStage_eq]
  split
  · exact Act.uses_bind (Act.uses_modify _) fun _ => body
  · exact body

theorem quiet_arrange {condition : WakeCondition} {gate : Option StepId} :
    (arrange l1 info condition gate).Uses Quiet := by
  refine Act.uses_bind quiet_save fun _ => ?_
  split
  · exact Act.uses_await ⟨nofun, nofun⟩
  · exact Act.uses_pure _

/-- The loop, by how it is left. -/
theorem eval_stages {stages : List PipelineStage} {completed : List String} :
    (l1.stages info stages completed work).eval e.perform m =
      match e.stagesEnd l1 info stages completed work m with
      | .passed work m => ((.ok none, work), m)
      | .cancelled work m =>
          ((do return some (← l1.leaveCancelled info) : DriverM (Option OrchestrationResult)) work).eval e.perform m
      | .raised x work m => ((.error x, work), m) := by
  induction stages generalizing completed work m with
  | nil => rfl
  | cons stage stages ih =>
      rw [DefaultL1.stages, stagesEnd]
      by_cases skipped : stage.name ∈ completed
      · rw [if_pos skipped, if_pos skipped]
        exact ih
      · rw [if_neg skipped, if_neg skipped, Act.eval_bind]
        rcases outcome : (DefaultL1.cancelled info work).eval e.perform m with ⟨⟨polled, work'⟩, m'⟩
        rw [outcome]
        cases polled with
        | error x => rfl
        | ok cancelled =>
            cases cancelled with
            | true => rfl
            | false =>
                simp only [Bool.false_eq_true, if_false]
                rw [Act.eval_bind]
                rcases outcome' :
                  (l1.runStage info stage (completed ++ [stage.name]) work').eval e.perform m' with ⟨⟨ran, work''⟩, m''⟩
                rw [outcome']
                cases ran with
                | error x => rfl
                | ok u => exact ih

/-- A run is still `RUNNING` where its loop is left. -/
def StagesEnd.moment : StagesEnd → Moment
  | .passed _ m | .cancelled _ m | .raised _ _ m => m

theorem stagesEnd_running {stages : List PipelineStage} {completed : List String} {s : RunStatus}
    (running : m.1.statusOf runId = some s) :
    (e.stagesEnd l1 info stages completed work m).moment.1.statusOf runId = some s := by
  induction stages generalizing completed work m with
  | nil => exact running
  | cons stage stages ih =>
      rw [stagesEnd]
      by_cases skipped : stage.name ∈ completed
      · rw [if_pos skipped]
        exact ih running
      · rw [if_neg skipped]
        have polled := eval_quiet (e := e) (@quiet_cancelled info work) running
        rcases outcome : (DefaultL1.cancelled info work).eval e.perform m with ⟨⟨found, work'⟩, m'⟩
        rw [outcome] at polled ⊢
        cases found with
        | error x => exact polled
        | ok cancelled =>
            cases cancelled with
            | true => exact polled
            | false =>
                have ran := eval_quiet (e := e) (@quiet_runStage l1 info stage (completed ++ [stage.name]) work') polled
                simp only
                rcases outcome' :
                  (l1.runStage info stage (completed ++ [stage.name]) work').eval e.perform m' with ⟨⟨done, work''⟩, m''⟩
                rw [outcome'] at ran ⊢
                cases done with
                | error x => exact ran
                | ok u => exact ih ran

/-- No store of the driver's raises one of the three. -/
theorem perform_ungoverned {op : Op} {x : Exn} (own : (∃ s, op = .setState runId s) ∨ ∃ event, op = .emit event)
    (raised : (e.perform m op).2 = .error x) : x.governed = false := by
  have effect : ∀ record, ∀ x, (World.effect e.deployment (e.choose m.2) m.1 record op).2 = .error x → x.governed = false := by
    intro record x failed
    rcases own with ⟨s, rfl⟩ | ⟨event, rfl⟩
    · simp only [World.effect] at failed
      split at failed <;> cases failed
      rfl
    · cases failed
  have faulty : ∀ y, World.raised op y = World.ungoverned y := by
    intro y
    rcases own with ⟨s, rfl⟩ | ⟨event, rfl⟩ <;> rfl
  rw [perform, World.perform] at raised
  cases fault : (e.choose m.2).fault with
  | none =>
      rw [fault] at raised
      exact effect true x raised
  | some f =>
      obtain ⟨at_, y⟩ := f
      rw [fault] at raised
      cases at_ <;> cases raised <;> rw [faulty] <;> exact World.governed_ungoverned y

theorem eval_emit_ungoverned {eventType : String} {details : Data.Dict String Json} {x : Exn}
    (raised : ((l1.emit info eventType details work).eval e.perform m).1.1 = .error x) : x.governed = false := by
  unfold DefaultL1.emit at raised
  split at raised
  · exact perform_ungoverned (.inr ⟨_, rfl⟩) raised
  · cases raised

/-- The end of a drive raises nothing that the driver would take for a stage's outcome. -/
theorem eval_told_ungoverned {written : RunStatus} {eventType : String} {details : Data.Dict String Json}
    {out : Work → OrchestrationResult} {x : Exn} (mine : info.runId = runId)
    (raised : (((do
      DefaultL1.setStatus info written
      l1.emit info eventType details
      let work ← Act.get
      return out work : DriverM OrchestrationResult) work).eval e.perform m).1.1 = .error x) : x.governed = false := by
  subst mine
  have shape : (DefaultL1.setStatus info written work).eval e.perform m =
      (((e.perform m (.setState info.runId written)).2, work), (e.perform m (.setState info.runId written)).1) := rfl
  rw [Act.eval_bind, shape] at raised
  cases wrote : (e.perform m (.setState info.runId written)).2 with
  | error y =>
      rw [wrote] at raised
      cases raised
      exact perform_ungoverned (.inl ⟨_, rfl⟩) wrote
  | ok u =>
      rw [wrote] at raised
      simp only at raised
      rw [Act.eval_bind] at raised
      rcases emitted : (l1.emit info eventType details work).eval e.perform
        (e.perform m (.setState info.runId written)).1 with ⟨⟨r, work'⟩, m'⟩
      rw [emitted] at raised
      cases r with
      | error y =>
          cases raised
          exact eval_emit_ungoverned (congrArg (fun out => out.1.1) emitted)
      | ok u => cases raised

theorem leave_plain {x : Exn} (plain : x.governed = false) : l1.leave info x = Act.throw x := by
  cases x with
  | needsWait condition gate => cases plain
  | policyDenied reason => cases plain
  | approvalRequired reason => cases plain
  | _ => rfl

/-- An answer handed on is no call. -/
theorem eval_some {answer : DriverM OrchestrationResult} :
    ((do return some (← answer) : DriverM (Option OrchestrationResult)) work).eval e.perform m =
      match (answer work).eval e.perform m with
      | ((.ok out, work), m) => ((.ok (some out), work), m)
      | ((.error x, work), m) => ((.error x, work), m) := by
  rw [Act.eval_bind]
  rcases answered : (answer work).eval e.perform m with ⟨⟨r, work'⟩, m'⟩
  rw [answered]
  cases r with
  | ok out => rfl
  | error x => rfl

/-- A park is its arrangements, and then the status. -/
theorem eval_park {condition : WakeCondition} {gate : Option StepId} :
    (l1.park info condition gate work).eval e.perform m =
      match (arrange l1 info condition gate work).eval e.perform m with
      | ((.ok (), work), m) =>
          ((do
            DefaultL1.setStatus info .waiting
            l1.emit info "run_waiting" [("condition", .str condition.kind.value)]
            let work ← Act.get
            return DefaultL1.result info work "waiting" ("waiting on " ++ condition.kind.value) [] :
              DriverM OrchestrationResult) work).eval e.perform m
      | ((.error x, work), m) => ((.error x, work), m) := by
  rw [DefaultL1.park, arrange, Act.eval_bind, Act.eval_bind]
  rcases saved : (l1.save info ("waiting:" ++ condition.kind.value) work).eval e.perform m with ⟨⟨r, work'⟩, m'⟩
  rw [saved]
  cases r with
  | error x => rfl
  | ok u =>
      cases l1.waker with
      | false => rfl
      | true =>
          simp only [if_true]
          rw [Act.eval_bind]
          rcases scheduled : ((runCall (.schedule info.runId condition gate) : DriverM Unit) work').eval e.perform m'
            with ⟨⟨r, work''⟩, m''⟩
          rw [scheduled]
          cases r with
          | error x => rfl
          | ok u => rfl

/-- Once `RUNNING` is written: the stages, and what is made of how they end. -/
def afterRunning (l1 : DefaultL1) (info : RunInfo) (completed : List String) : DriverM OrchestrationResult := do
  match ← (l1.stages info l1.pipeline completed).tryCatch (l1.leave info) with
  | some out => return out
  | none => l1.complete info

theorem rests_iff {written : RunStatus} (settles : written.settled = true) {b : Bool}
    (status : m.1.statusOf runId = some (if b then written else .running)) : Rests runId m ↔ b = true := by
  constructor
  · rintro ⟨s, known, settled⟩
    rw [status] at known
    cases b with
    | true => rfl
    | false =>
        cases known
        cases settled
  · intro written
    rw [written, if_pos rfl] at status
    exact ⟨_, status, settles⟩

/-- The loop and its handler, by how the loop is left. -/
theorem eval_afterRunning {completed : List String} (mine : info.runId = runId) :
    (afterRunning l1 info completed work).eval e.perform m =
      match e.stagesEnd l1 info l1.pipeline completed work m with
      | .passed work m => (l1.complete info work).eval e.perform m
      | .cancelled work m => (l1.leaveCancelled info work).eval e.perform m
      | .raised (.needsWait condition gate) work m => (l1.park info condition gate work).eval e.perform m
      | .raised (.policyDenied reason) work m => (l1.fail info "denied" "policy_denied" reason work).eval e.perform m
      | .raised (.approvalRequired reason) work m =>
          (l1.fail info "approval_denied" "approval_denied" reason work).eval e.perform m
      | .raised x work m => ((.error x, work), m) := by
  let answered : Option OrchestrationResult → DriverM OrchestrationResult := fun out => match out with
    | some out => return out
    | none => l1.complete info
  have handed : ∀ (answer : DriverM OrchestrationResult) (work : Work) (m : Moment),
      (((do return some (← answer) : DriverM (Option OrchestrationResult)) >>= answered) work).eval e.perform m =
        (answer work).eval e.perform m := by
    intro answer work m
    rw [Act.eval_bind, eval_some]
    rcases outcome : (answer work).eval e.perform m with ⟨⟨r, work'⟩, m'⟩
    rw [outcome]
    cases r with
    | ok out => rfl
    | error x => rfl
  rw [afterRunning, Act.eval_bind, Act.eval_tryCatch, eval_stages]
  cases e.stagesEnd l1 info l1.pipeline completed work m with
  | passed work m => rfl
  | cancelled work m =>
      simp only
      rw [eval_some]
      rcases left : (l1.leaveCancelled info work).eval e.perform m with ⟨⟨r, work'⟩, m'⟩
      rw [left]
      cases r with
      | ok out => rfl
      | error x =>
          have plain : x.governed = false := eval_told_ungoverned mine (congrArg (fun out => out.1.1) left)
          simp only [leave_plain plain]
          rfl
  | raised x work m =>
      cases x with
      | needsWait condition gate =>
          exact (Act.eval_bind _ answered).symm.trans (handed (l1.park info condition gate) work m)
      | policyDenied reason =>
          exact (Act.eval_bind _ answered).symm.trans (handed (l1.fail info "denied" "policy_denied" reason) work m)
      | approvalRequired reason =>
          exact (Act.eval_bind _ answered).symm.trans (handed (l1.fail info "approval_denied" "approval_denied" reason) work m)
      | _ => rfl

/-- The drive of a run whose `RUNNING` is written leaves a settled status exactly if its loop is left
in a way that the driver writes down. -/
theorem settled_afterRunning {completed : List String} (mine : info.runId = runId)
    (running : m.1.statusOf runId = some .running) :
    Rests runId ((afterRunning l1 info completed work).eval e.perform m).2 ↔
      e.Lands l1 info (e.stagesEnd l1 info l1.pipeline completed work m) := by
  have left := @stagesEnd_running _ e l1 info _ work l1.pipeline completed _ running
  have unsettled : ∀ {m : Moment}, m.1.statusOf runId = some .running → (Rests runId m ↔ False) := by
    intro m running
    rw [@rests_iff _ _ .failed rfl false running]
    exact ⟨nofun, nofun⟩
  rw [eval_afterRunning mine]
  cases ended : e.stagesEnd l1 info l1.pipeline completed work m with
  | passed work m =>
      rw [ended] at left
      exact rests_iff rfl (eval_last mine (fun _ => quiet_told) left)
  | cancelled work m =>
      rw [ended] at left
      exact rests_iff rfl (eval_last mine (fun _ => quiet_told) left)
  | raised x work m =>
      rw [ended] at left
      cases x with
      | policyDenied reason => exact rests_iff rfl (eval_last mine (fun _ => quiet_told) left)
      | approvalRequired reason => exact rests_iff rfl (eval_last mine (fun _ => quiet_told) left)
      | needsWait condition gate =>
          have arranged := eval_quiet (e := e) (m := m) (@quiet_arrange l1 info condition gate work) left
          simp only [Lands, Governs]
          rw [eval_park]
          rcases shape : (arrange l1 info condition gate work).eval e.perform m with ⟨⟨r, work'⟩, m'⟩
          rw [shape] at arranged ⊢
          cases r with
          | ok u => exact rests_iff rfl (eval_last mine (fun _ => quiet_told) arranged)
          | error x => exact unsettled arranged
      | _ => exact unsettled left

end pieces

/-! ## A whole drive -/

section drives

variable {e l1} {m : Moment} {sc : StageContext} {eventType : String} {details : Data.Dict String Json}

theorem eval_emitFor : (l1.emitFor sc eventType details ()).eval e.perform m =
    ((((l1.emit sc.info eventType details sc.work).eval e.perform m).1.1, ()),
      ((l1.emit sc.info eventType details sc.work).eval e.perform m).2) := by
  rw [DefaultL1.emitFor, Prog.eval_bind]
  rfl

theorem driveFrom_eq : l1.driveFrom sc = fun u => ((do
    DefaultL1.setStatus sc.info .running
    afterRunning l1 sc.info (sc.work.extras.completedStages.getD []).dedup : DriverM OrchestrationResult) sc.work).bind
      fun out => .ret (out.1, u) := rfl

/-- The write of `RUNNING`, once it has answered. -/
theorem running_of_perform {m' : Moment} {s : RunStatus} (known : m.1.statusOf runId = some s)
    (wrote : e.perform m (.setState runId .running) = (m', .ok ())) : m'.1.statusOf runId = some .running := by
  have status := perform_write (e := e) .running known
  have reply : (World.perform e.deployment (e.choose m.2) m.1 (.setState runId .running)).2 = .ok () :=
    congrArg Prod.snd wrote
  have writes : e.Writes m = true := by
    rw [Writes, World.fault_none reply]
  rw [wrote, writes, if_pos rfl] at status
  exact status

/-- What follows the write of `RUNNING`. -/
theorem eval_driveFrom : (l1.driveFrom sc ()).eval e.perform m =
    match e.perform m (.setState sc.info.runId .running) with
    | (m, .error x) => ((.error x, ()), m)
    | (m, .ok ()) =>
        (((((afterRunning l1 sc.info (sc.work.extras.completedStages.getD []).dedup) sc.work).eval e.perform m).1.1, ()),
          (((afterRunning l1 sc.info (sc.work.extras.completedStages.getD []).dedup) sc.work).eval e.perform m).2) := by
  have shape : (DefaultL1.setStatus sc.info .running sc.work).eval e.perform m =
      (((e.perform m (.setState sc.info.runId .running)).2, sc.work), (e.perform m (.setState sc.info.runId .running)).1) := rfl
  rw [driveFrom_eq, Prog.eval_bind, Act.eval_bind, shape]
  rcases wrote : e.perform m (.setState sc.info.runId .running) with ⟨m', r⟩
  cases r with
  | error x => rfl
  | ok u => rfl

theorem settled_driven {s : RunStatus} (mine : sc.info.runId = runId) (known : m.1.statusOf runId = some s) :
    Rests runId (((do
      l1.emitFor sc eventType details
      l1.driveFrom sc : Act RunSig Unit OrchestrationResult) ()).eval e.perform m).2 ↔
      e.Drives l1 sc eventType details m := by
  have told := eval_quiet (e := e) (m := m) (@quiet_emit l1 sc.info eventType details sc.work) known
  rw [Act.eval_bind, Drives, eval_emitFor]
  rcases emitted : (l1.emit sc.info eventType details sc.work).eval e.perform m with ⟨⟨r, work'⟩, m'⟩
  rw [emitted] at told ⊢
  cases r with
  | error x => exact Iff.rfl
  | ok u =>
      simp only
      rw [eval_driveFrom, mine]
      rcases wrote : e.perform m' (.setState runId .running) with ⟨m'', r⟩
      cases r with
      | error x => exact Iff.rfl
      | ok u => exact settled_afterRunning mine (running_of_perform told wrote)

/-- An exception that the driver does not know goes through it. -/
theorem raised_driven {work : Work} {m₁ m₂ m₃ : Moment} {x : Exn} (mine : sc.info.runId = runId)
    (emitted : (l1.emitFor sc eventType details ()).eval e.perform m = ((.ok (), ()), m₁))
    (wrote : e.perform m₁ (.setState runId .running) = (m₂, .ok ()))
    (ended : e.stagesEnd l1 sc.info l1.pipeline (sc.work.extras.completedStages.getD []).dedup sc.work m₂ = .raised x work m₃)
    (plain : x.governed = false) :
    ((do
      l1.emitFor sc eventType details
      l1.driveFrom sc : Act RunSig Unit OrchestrationResult) ()).eval e.perform m = ((.error x, ()), m₃) := by
  have loop := @eval_afterRunning _ e l1 _ m₂ sc.work (sc.work.extras.completedStages.getD []).dedup mine
  rw [ended] at loop
  have through : (afterRunning l1 sc.info (sc.work.extras.completedStages.getD []).dedup sc.work).eval e.perform m₂ =
      ((.error x, work), m₃) := by
    rw [loop]
    cases x with
    | needsWait condition gate => cases plain
    | policyDenied reason => cases plain
    | approvalRequired reason => cases plain
    | _ => rfl
  rw [Act.eval_bind, emitted]
  simp only
  rw [eval_driveFrom, mine, wrote]
  simp only [through]

theorem quiet_emitFor : (l1.emitFor sc eventType details ()).Uses Quiet :=
  Prog.Uses.bind (quiet_emit sc.work) fun _ => trivial

/-- A run that is created is `PENDING`, and one that is not created has no status. -/
theorem perform_create {tenant : TenantContext} {goal : String} (fresh : m.1.runs runId = none)
    (drawn : (e.choose m.2).text = runId) :
    ((e.perform m (.create tenant goal)).1.1.statusOf runId = none ∧ ∃ x, (e.perform m (.create tenant goal)).2 = .error x) ∨
      (e.perform m (.create tenant goal)).1.1.statusOf runId = some .pending ∧
        ∀ r, (e.perform m (.create tenant goal)).2 = .ok r → r = runId := by
  have created : ∀ record, World.effect e.deployment (e.choose m.2) m.1 record (.create tenant goal) =
      ({ m.1 with runs := Function.update m.1.runs runId (some { tenantId := tenant.tenantId, goal }) }, .ok runId) := by
    intro record
    simp only [World.effect, drawn, fresh]
  have pending : ({ m.1 with runs := Function.update m.1.runs runId (some { tenantId := tenant.tenantId, goal }) } :
      World).statusOf runId = some .pending := by
    simp [World.statusOf]
  have absent : m.1.statusOf runId = none := by
    rw [World.statusOf, fresh, Option.map_none]
  simp only [perform]
  rw [e.apart, World.perform]
  cases (e.choose m.2).fault with
  | none =>
      simp only [created]
      refine .inr ⟨pending, fun r answered => ?_⟩
      cases answered
      rfl
  | some f =>
      obtain ⟨at_, x⟩ := f
      cases at_ with
      | before => exact .inl ⟨absent, _, rfl⟩
      | within =>
          simp only [created]
          refine .inr ⟨pending, fun r answered => ?_⟩
          cases answered
      | after =>
          simp only [created]
          refine .inr ⟨pending, fun r answered => ?_⟩
          cases answered

theorem rests_run {goal : String} {tenant : TenantContext} {principal : Option Principal}
    (fresh : m.1.runs runId = none) (drawn : (e.choose m.2).text = runId) :
    Rests runId ((l1.run goal tenant principal ()).eval e.perform m).2 ↔ e.Runs l1 goal tenant principal m := by
  have began := @perform_create _ e _ tenant goal fresh drawn
  have shape : ((runCall (.create tenant goal) : Act RunSig Unit RunId) ()).eval e.perform m =
      (((e.perform m (.create tenant goal)).2, ()), (e.perform m (.create tenant goal)).1) := rfl
  rw [DefaultL1.run, Act.eval_bind, shape, Runs]
  rcases called : e.perform m (.create tenant goal) with ⟨m', r⟩
  rw [called] at began
  cases r with
  | error x =>
      constructor
      · rintro ⟨s, known, settled⟩
        rcases began with ⟨absent, _⟩ | ⟨pending, _⟩
        · cases absent.symm.trans known
        · cases pending.symm.trans known
          cases settled
      · exact False.elim
  | ok r =>
      rcases began with ⟨_, x, failed⟩ | ⟨pending, named⟩
      · cases failed
      · cases named r rfl
        exact settled_driven rfl pending

theorem rests_resume {s : RunStatus} (known : m.1.statusOf runId = some s) (named : World.Named m.1) :
    Rests runId ((l1.resumeRun runId ()).eval e.perform m).2 ↔ e.Resumes l1 m := by
  rw [DefaultL1.resumeRun, Resumes]
  cases l1.checkpointer with
  | false => exact Iff.rfl
  | true =>
      have shape : ((runCall (.load runId) : Act RunSig Unit (Option Json)) ()).eval e.perform m =
          (((e.perform m (.load runId)).2, ()), (e.perform m (.load runId)).1) := rfl
      have still := @perform_quiet _ e _ _ (.load runId) ⟨nofun, nofun⟩ known
      simp only [Bool.not_true, Bool.false_eq_true, if_false, if_true]
      rw [Act.eval_bind, shape]
      rcases loaded : e.perform m (.load runId) with ⟨m', r⟩
      rw [loaded] at still
      cases r with
      | error x => exact Iff.rfl
      | ok kept =>
          cases kept with
          | none => exact Iff.rfl
          | some blob =>
              simp only
              rw [Act.eval_ofExcept_bind]
              cases read : checkpointDeserialize blob with
              | error x => exact Iff.rfl
              | ok sc =>
                  have reply : (World.perform e.deployment (e.choose m.2) m.1 (.load runId)).2 = .ok (some blob) :=
                    congrArg Prod.snd loaded
                  have mine : sc.info.runId = runId := by
                    have kept := World.perform_answers named (.load runId) blob reply
                    rw [runOf, read] at kept
                    exact Option.some.inj kept
                  exact settled_driven mine still

end drives

end Setting

open Setting

/-- `run` and `resume_run` leave a settled status exactly if every exception on the way is one of the
three and the driver's answer to it takes effect. Any other exception of a stage, a timeout of the
gate's among them, leaves the run `RUNNING` and is raised again. -/
theorem left_settled_iff {runId : RunId} (e : Setting runId) (l1 : DefaultL1) :
    (∀ goal tenant principal m, m.1.runs runId = none → (e.choose m.2).text = runId →
      (Rests runId ((l1.run goal tenant principal ()).eval e.perform m).2 ↔ e.Runs l1 goal tenant principal m)) ∧
    (∀ m, (m.1.runs runId).isSome → World.Named m.1 →
      (Rests runId ((l1.resumeRun runId ()).eval e.perform m).2 ↔ e.Resumes l1 m)) ∧
    ∀ sc eventType details m m₁ m₂ m₃ work x, sc.info.runId = runId → (m.1.runs runId).isSome →
      (l1.emitFor sc eventType details ()).eval e.perform m = ((.ok (), ()), m₁) →
      e.perform m₁ (.setState runId .running) = (m₂, .ok ()) →
      e.stagesEnd l1 sc.info l1.pipeline (sc.work.extras.completedStages.getD []).dedup sc.work m₂ = .raised x work m₃ →
      x.governed = false → ((do
        l1.emitFor sc eventType details
        l1.driveFrom sc : Act RunSig Unit OrchestrationResult) ()).eval e.perform m = ((.error x, ()), m₃) ∧
          m₃.1.statusOf runId = some .running := by
  constructor
  · intro goal tenant principal m fresh drawn
    exact rests_run fresh drawn
  · have status : ∀ {m : Moment}, (m.1.runs runId).isSome → ∃ s, m.1.statusOf runId = some s := by
      intro m there
      obtain ⟨row, found⟩ := Option.isSome_iff_exists.mp there
      use row.status
      rw [World.statusOf, found, Option.map_some]
    constructor
    · intro m there named
      obtain ⟨s, known⟩ := status there
      exact rests_resume known named
    · intro sc eventType details m m₁ m₂ m₃ work x mine there emitted wrote ended plain
      obtain ⟨s, known⟩ := status there
      have told := eval_quiet (e := e) (m := m) (@quiet_emitFor l1 sc eventType details) known
      rw [emitted] at told
      have running := @stagesEnd_running _ e l1 sc.info _ sc.work l1.pipeline (sc.work.extras.completedStages.getD []).dedup _ (running_of_perform told wrote)
      rw [ended] at running
      exact ⟨raised_driven mine emitted wrote ended plain, running⟩

namespace Sample

/-- Nothing fails but the gate, which times out. -/
def timingOut : Setting "r" where
  deployment := { platform }
  choose _ := { text := "r", approval := .error (.timeout "approval 'r' timed out") }
  between _ w := w
  apart _ _ := rfl

/-- A workflow whose one step is to be approved. -/
def gated : DefaultL1 where
  pipeline := [workflowStage platform { executor with approvalGate := true }
    { name := "w", version := 1, steps := [{ id := "a", approval := some { required := true } }] } []]

def unused : World := World.fresh [] (fun _ _ => none) 0

/-- A run that has been created. -/
def begunWorld : World := { unused with runs := Function.update unused.runs "r" (some { tenantId := "t", goal := "g" }) }

def begunContext : StageContext := StageContext.initial { runId := "r", tenant, goal := "g", principal := none }

/-- A stage that raises what a gate raises. -/
def failing : DefaultL1 where
  pipeline := [{ name := "approval", execute := fun _ => Act.throw (.timeout "late") }]
  eventSink := false

end Sample

open Sample

/-- Begun, taken up again, and left by the timeout. -/
theorem left_settled_timeout :
    (Rests "r" ((gated.run "g" tenant none ()).eval timingOut.perform (unused, 0)).2 ↔
      timingOut.Runs gated "g" tenant none (unused, 0)) ∧
    (Rests "r" ((gated.resumeRun "r" ()).eval timingOut.perform (begunWorld, 0)).2 ↔
      timingOut.Resumes gated (begunWorld, 0)) ∧
    ((do
      failing.emitFor begunContext "run_started" []
      failing.driveFrom begunContext : Act RunSig Unit OrchestrationResult) ()).eval timingOut.perform (begunWorld, 0) =
        ((.error (.timeout "late"), ()), (begunWorld.setRun "r" fun st => { st with status := .running }, 2)) := by
  refine ⟨(left_settled_iff timingOut gated).1 "g" tenant none (unused, 0) rfl rfl,
    (left_settled_iff timingOut gated).2.1 (begunWorld, 0) rfl nofun, ?_⟩
  exact ((left_settled_iff timingOut failing).2.2 begunContext "run_started" [] (begunWorld, 0) _ _ _ _ _ rfl rfl rfl rfl rfl rfl).1

/-- A gate that times out leaves the run `RUNNING`, and raises where a denial gives a result. -/
theorem timeout_left_running : ¬ ∀ (runId : RunId) (e : Setting runId) (l1 : DefaultL1) (goal : String) (tenant : TenantContext)
    (m : Moment), m.1.runs runId = none → (e.choose m.2).text = runId →
    Rests runId ((l1.run goal tenant none ()).eval e.perform m).2 ∧
      ∀ text, ((l1.run goal tenant none ()).eval e.perform m).1.1 ≠ .error (.timeout text) := by
  intro settles
  obtain ⟨⟨s, known, settled⟩, _⟩ := settles "r" timingOut gated "g" tenant (unused, 0) rfl rfl
  have running : ((gated.run "g" tenant none ()).eval timingOut.perform (unused, 0)).2.1.statusOf "r" = some .running := by
    decide +kernel
  rw [known] at running
  cases running
  cases settled

end Maof
