import Maof.Orchestrator.System

/-!
# What every drive keeps

An argument about the stages of a run says what holds where a stage starts and
what is left where one raises. The driver, the collector, the poller and the
operator carry it through the rest of their calls, whatever the argument is.
-/

namespace Maof

open Effects (Act Prog Contract Machine)

variable {W : Type}

/-- A call made outside the stages that saves no checkpoint and completes no run. -/
def Op.outer : Op → Prop
  | .stage _ _ | .save _ _ _ | .setState _ .completed => False
  | _ => True

/-- What the calls of a drive, and of the programs besides, do to what is said of a run's context. -/
structure DriveLaws (C : Contract RunSig W) (entered : RunInfo → List String → Work → W → Prop)
    (passed : RunInfo → Work → W → Prop) : Prop where
  entered_stable : ∀ info completed work, C.Stable (entered info completed work)
  passed_stable : ∀ info work, C.Stable (passed info work)
  leave : ∀ {info completed work w}, entered info completed work w → passed info work w
  shared : ∀ {w w'}, C.guar w w' → C.rely w w'
  note : ∀ {info completed work w} (stage : Stage), entered info completed work w →
    entered info completed { work with stage } w
  record : ∀ {info completed work w}, entered info completed work w →
    entered info completed { work with extras := { work.extras with
      completedStages := some (WorkflowExecutor.sortedNames completed) } } w
  outer : ∀ {op w w' r}, op.outer → C.valid w → C.sem w op w' r → C.valid w' ∧ C.guar w w'
  save : ∀ {info work label w w' r}, passed info work w → C.valid w →
    C.sem w (.save info.runId label (checkpointSerialize { info, work })) w' r → C.valid w' ∧ C.guar w w'
  load : ∀ {runId blob w w'}, C.valid w → C.sem w (.load runId) w' (.ok (some blob)) →
    ∀ sc, checkpointDeserialize blob = .ok sc →
      entered sc.info (sc.work.extras.completedStages.getD []).dedup sc.work w'
  start : ∀ {tenant goal runId w w'}, C.valid w → C.sem w (.create tenant goal) w' (.ok runId) →
    ∀ principal, entered { runId, tenant, goal, principal } [] {} w'

/-- An argument about a run's context: what holds where a stage starts, the stages completed so far being
named, and where it is left. -/
structure DriveRule (C : Contract RunSig W) where
  entered : RunInfo → List String → Work → W → Prop
  passed : RunInfo → Work → W → Prop
  laws : DriveLaws C entered passed

namespace DriveRule

variable {C : Contract RunSig W} (rule : DriveRule C)

/-- A part of a stage keeps the argument. -/
def Body (info : RunInfo) (completed : List String) {α : Type} (m : StageM α) : Prop :=
  m.Keeps (C.pull (S := StageSig) (.stage info) fun _ r => r) (rule.entered info completed) (rule.passed info)

/-- A stage carries the argument on to the stages after it. -/
def Takes (info : RunInfo) (stage : PipelineStage) : Prop :=
  ∀ completed work w, C.valid w → rule.entered info completed work w →
    (stage.execute info).Safe (C.pull (S := StageSig) (.stage info) fun _ r => r)
      (Act.Outcome (fun _ => rule.entered info (completed ++ [stage.name])) (rule.passed info)) work w

/-- The status of a run whose stages have all been passed may be written. -/
def Completes (pipeline : List PipelineStage) : Prop :=
  ∀ {info completed work w w' r}, rule.entered info completed work w →
    (∀ stage ∈ pipeline, stage.name ∈ completed) → C.valid w →
    C.sem w (.setState info.runId .completed) w' r → C.valid w' ∧ C.guar w w'

/-- A program of the driver keeps `P`, and leaves what a stage leaves where it raises. -/
def Carries (info : RunInfo) (P : Work → W → Prop) {α : Type} (m : DriverM α) : Prop :=
  m.Keeps C P (rule.passed info)

section driver

variable {rule} {info : RunInfo} {l1 : DefaultL1} {P : Work → W → Prop}

/-- `P` is one of the two assertions, or lies between them. -/
structure Steady (rule : DriveRule C) (info : RunInfo) (P : Work → W → Prop) : Prop where
  stable : ∀ work, C.Stable (P work)
  leave : ∀ {work w}, P work w → rule.passed info work w

theorem steady_entered {completed : List String} : Steady rule info (rule.entered info completed) :=
  ⟨rule.laws.entered_stable info completed, rule.laws.leave⟩

theorem steady_passed : Steady rule info (rule.passed info) := ⟨rule.laws.passed_stable info, id⟩

theorem Steady.outcome {α : Type} (steady : Steady rule info P) {r : Except Exn α} {work : Work} {w w' : W}
    (h : P work w) (valid : C.valid w') (guar : C.guar w w') :
    Act.Outcome (fun _ => P) (rule.passed info) r work w' := by
  have kept := steady.stable work w w' h (rule.laws.shared guar) valid
  cases r with
  | ok a => exact kept
  | error e => exact steady.leave kept

theorem Steady.call (steady : Steady rule info P) {op : Op} (outer : op.outer) :
    rule.Carries info P (runCall op) := by
  refine Act.keeps_await steady.stable (rule.laws.passed_stable info) fun s w₁ w₂ r valid h law => ?_
  obtain ⟨valid', guar⟩ := rule.laws.outer outer valid law
  exact ⟨valid', guar, steady.outcome h valid' guar⟩

theorem Steady.pure (steady : Steady rule info P) {α : Type} (a : α) :
    rule.Carries info P (Pure.pure a : DriverM α) :=
  Act.keeps_pure steady.stable

theorem Steady.emit (steady : Steady rule info P) {eventType : String} {details : Data.Dict String Json} :
    rule.Carries info P (l1.emit info eventType details) := by
  unfold DefaultL1.emit
  split
  · exact Act.keeps_get_bind fun s w valid h => steady.call (by trivial) s w valid h
  · exact steady.pure _

theorem Steady.save (steady : Steady rule info P) {label : String} :
    rule.Carries info P (l1.save info label) := by
  unfold DefaultL1.save
  split
  · refine Act.keeps_get_bind fun s w valid h => Act.safe_await h (steady.stable s)
      (Act.outcome_stable (fun _ => steady.stable s) (rule.laws.passed_stable info s)) ?_
    intro w₁ w₂ r valid h law
    obtain ⟨valid', guar⟩ := rule.laws.save (steady.leave h) valid law
    exact ⟨valid', guar, steady.outcome h valid' guar⟩
  · exact steady.pure _

/-- The write that leaves a drive, and the event after it. -/
theorem Steady.finish (steady : Steady rule info P) {status : RunStatus}
    (write : rule.Carries info P (DefaultL1.setStatus info status)) {eventType : String}
    {details : Data.Dict String Json} {out : Work → OrchestrationResult} :
    rule.Carries info P (do
      DefaultL1.setStatus info status
      l1.emit info eventType details
      let work ← Act.get
      return out work) :=
  Act.keeps_bind write fun _ => Act.keeps_bind steady.emit fun _ =>
    Act.keeps_get_bind fun s w valid h => steady.pure _ s w valid h

/-- What the stages leave: the answer of a cancelled run, or all of them completed. -/
def Ended (rule : DriveRule C) (info : RunInfo) (stages : List PipelineStage) (completed : List String) :
    Option OrchestrationResult → Work → W → Prop
  | none, work, w => ∃ ended, completed ⊆ ended ∧ (∀ stage ∈ stages, stage.name ∈ ended) ∧
      rule.entered info ended work w
  | some _, work, w => rule.passed info work w

theorem ended_cons {stage : PipelineStage} {stages : List PipelineStage} {completed later : List String}
    (grown : completed ⊆ later) (named : stage.name ∈ later) {r : Except Exn (Option OrchestrationResult)}
    {work : Work} {w : W} (h : Act.Outcome (Ended rule info stages later) (rule.passed info) r work w) :
    Act.Outcome (Ended rule info (stage :: stages) completed) (rule.passed info) r work w := by
  match r, h with
  | .error e, h => exact h
  | .ok (some out), h => exact h
  | .ok none, ⟨ended, before, names, entered⟩ =>
      refine ⟨ended, List.Subset.trans grown before, fun s member => ?_, entered⟩
      rcases List.mem_cons.mp member with rfl | rest
      · exact before named
      · exact names s rest

/-- A stage that is run is recorded, saved and told of. -/
theorem runStage_takes {stage : PipelineStage} (takes : rule.Takes info stage) {completed : List String}
    {work : Work} {w : W} (valid : C.valid w) (entered : rule.entered info completed work w) :
    (l1.runStage info stage (completed ++ [stage.name])).Safe C
      (Act.Outcome (fun _ => rule.entered info (completed ++ [stage.name])) (rule.passed info)) work w := by
  have told : rule.Carries info (rule.entered info (completed ++ [stage.name])) (do
      Act.modify fun work => { work with extras := { work.extras with
        completedStages := some (WorkflowExecutor.sortedNames (completed ++ [stage.name])) } }
      l1.save info stage.name
      l1.emit info "run_checkpointed" [("step", .str stage.name)]
      runCall (.appendTrace info.runId { kind := stage.name, step := some stage.name })) := by
    refine Act.keeps_bind ?_ fun _ => Act.keeps_bind steady_entered.save
      fun _ => Act.keeps_bind steady_entered.emit fun _ => steady_entered.call (by trivial)
    exact Act.keeps_modify (rule.laws.entered_stable info _) fun work w _ entered => rule.laws.record entered
  have body : ∀ {work : Work} {w : W}, C.valid w → rule.entered info completed work w → (l1.executed info stage (completed ++ [stage.name])).Safe C
        (Act.Outcome (fun _ => rule.entered info (completed ++ [stage.name])) (rule.passed info)) work w :=
    fun valid entered => Act.safe_bind (Prog.Safe.lift (takes completed _ _ valid entered)) valid
      (fun _ => told) fun _ _ _ _ => id
  rw [DefaultL1.runStage_eq]
  split
  · exact Act.safe_modify_bind (body valid (rule.laws.note _ entered))
  · exact body valid entered

theorem stages_take {stages : List PipelineStage} (takes : ∀ stage ∈ stages, rule.Takes info stage)
    {completed : List String} {work : Work} {w : W} (valid : C.valid w)
    (entered : rule.entered info completed work w) :
    (l1.stages info stages completed).Safe C (Act.Outcome (Ended rule info stages completed) (rule.passed info))
      work w := by
  induction stages generalizing completed work w with
  | nil =>
      refine Act.safe_pure ⟨completed, List.Subset.refl _, fun _ none => ?_, entered⟩ ?_
      · cases none
      · rintro w w' ⟨ended, before, names, entered⟩ moved valid
        exact ⟨ended, before, names, rule.laws.entered_stable _ _ _ w w' entered moved valid⟩
  | cons stage stages ih =>
      have rest : ∀ s ∈ stages, rule.Takes info s := fun s member => takes s (List.mem_cons_of_mem _ member)
      simp only [DefaultL1.stages]
      split
      · next skipped =>
          exact (ih rest valid entered).weaken fun _ _ _ _ => ended_cons (List.Subset.refl _) skipped
      · refine Act.safe_bind (Q := Act.Outcome (fun _ => rule.entered info completed) (rule.passed info))
          (Act.keeps_bind (steady_entered.call (by trivial)) (fun _ => steady_entered.pure _) work w valid entered)
          valid (fun cancelled work w valid entered => ?_) fun _ _ _ _ => id
        cases cancelled with
        | true =>
            exact Act.safe_bind (steady_entered.finish (steady_entered.call (by trivial)) work w valid entered) valid
              (fun out work w valid entered => Act.safe_pure (rule.laws.leave entered) (rule.laws.passed_stable info work))
              fun _ _ _ _ => id
        | false =>
            refine Act.safe_bind (runStage_takes (takes stage List.mem_cons_self) valid entered) valid
              (fun _ work w valid entered => ?_) fun _ _ _ _ => id
            exact (ih rest valid entered).weaken fun _ _ _ _ => ended_cons
              (List.subset_append_left _ _) (List.mem_append_right _ List.mem_cons_self)

/-- What an exception of a stage is made of is an answer, or the exception again. -/
theorem leave_answers (e : Exn) {stages : List PipelineStage} {completed : List String} {work : Work} {w : W}
    (valid : C.valid w) (passed : rule.passed info work w) :
    (l1.leave info e).Safe C (Act.Outcome (Ended rule info stages completed) (rule.passed info)) work w := by
  have answer : ∀ {m : DriverM OrchestrationResult}, rule.Carries info (rule.passed info) m →
      (do return some (← m) : DriverM (Option OrchestrationResult)).Safe C
        (Act.Outcome (Ended rule info stages completed) (rule.passed info)) work w :=
    fun keeps => Act.safe_bind (keeps work w valid passed) valid
      (fun _ work w _ passed => Act.safe_pure passed (rule.laws.passed_stable info work)) fun _ _ _ _ => id
  have finish : ∀ {status : RunStatus} {eventType : String} {details : Data.Dict String Json}
      {out : Work → OrchestrationResult}, status ≠ .completed → rule.Carries info (rule.passed info) (do
        DefaultL1.setStatus info status
        l1.emit info eventType details
        let work ← Act.get
        return out work) := by
    intro status eventType details out other
    refine steady_passed.finish (steady_passed.call ?_)
    cases status <;> trivial
  cases e with
  | needsWait condition gate =>
      refine answer (Act.keeps_bind steady_passed.save fun _ => ?_)
      split
      · exact Act.keeps_bind (steady_passed.call (by trivial)) fun _ => finish (by decide)
      · exact finish (by decide)
  | policyDenied reason => exact answer (finish (by decide))
  | approvalRequired reason => exact answer (finish (by decide))
  | _ => exact Act.safe_throw passed (rule.laws.passed_stable info work)

/-- The run is completed where every stage of the pipeline has been. -/
theorem complete_safe (completes : rule.Completes l1.pipeline) {completed : List String}
    (names : ∀ stage ∈ l1.pipeline, stage.name ∈ completed) :
    rule.Carries info (rule.entered info completed) (l1.complete info) := by
  refine steady_entered.finish (Act.keeps_await (rule.laws.entered_stable info _) (rule.laws.passed_stable info) ?_)
  intro work w₁ w₂ r valid entered law
  obtain ⟨valid', guar⟩ := completes entered names valid law
  exact ⟨valid', guar, steady_entered.outcome entered valid' guar⟩

theorem drive_safe (takes : ∀ stage ∈ l1.pipeline, rule.Takes info stage) (completes : rule.Completes l1.pipeline)
    {work : Work} {w : W} (valid : C.valid w)
    (entered : rule.entered info (work.extras.completedStages.getD []).dedup work w) :
    (l1.drive info).Safe C (fun _ _ _ => True) work w := by
  refine Act.safe_get_bind (Act.safe_bind (steady_entered.call (by trivial) work w valid entered)
    valid (fun _ s w valid entered => ?_) fun _ _ _ _ _ => trivial)
  refine Act.safe_bind (Q := Act.Outcome (Ended rule info l1.pipeline (work.extras.completedStages.getD []).dedup)
    (rule.passed info)) (Act.safe_tryCatch (stages_take takes valid entered) valid (fun _ _ _ _ => id)
    fun e s' w' valid passed => ?_) valid (fun out s' w' valid ended => ?_) fun _ _ _ _ _ => trivial
  · exact leave_answers e valid passed
  · cases out with
    | some out => exact Act.safe_pure trivial (Contract.Stable.const _)
    | none =>
        obtain ⟨completed, _, names, entered⟩ := ended
        exact Act.Safe.weaken (complete_safe completes names s' w' valid entered) fun _ _ _ _ _ => trivial

end driver

section programs

variable {rule} {l1 : DefaultL1}

variable (C) in
/-- A program of the machine that keeps the contract, wherever it starts. -/
abbrev Tame {α : Type} (m : Act RunSig Unit α) : Prop := m.Keeps C (fun _ _ => True) fun _ _ => True

theorem tame_stable (u : Unit) : C.Stable fun w => (fun _ _ => True : Unit → W → Prop) u w :=
  fun _ _ _ _ _ => trivial

theorem tame_pure {α : Type} (a : α) : Tame C (pure a : Act RunSig Unit α) := Act.keeps_pure tame_stable

theorem tame_throw {α : Type} (e : Exn) : Tame C (Act.throw e : Act RunSig Unit α) :=
  Act.keeps_throw tame_stable fun _ _ _ => trivial

theorem tame_ofExcept {α : Type} (r : Except Exn α) : Tame C (Act.ofExcept r : Act RunSig Unit α) :=
  Act.keeps_ofExcept tame_stable tame_stable fun _ _ _ => trivial

/-- An event about a context changes nothing it was entered with. -/
theorem emitFor_safe {sc : StageContext} {eventType : String} {details : Data.Dict String Json}
    {completed : List String} {w : W} (valid : C.valid w) (entered : rule.entered sc.info completed sc.work w) :
    (l1.emitFor sc eventType details).Safe C (fun _ _ w' => rule.entered sc.info completed sc.work w') () w := by
  have still := rule.laws.entered_stable sc.info completed sc.work
  have emitted : (l1.emit sc.info eventType details).Safe C
      (fun _ _ w' => rule.entered sc.info completed sc.work w') sc.work w := by
    unfold DefaultL1.emit
    split
    · refine Act.safe_get_bind (Act.safe_await entered still (fun _ => still) ?_)
      intro w₁ w₂ r valid entered law
      obtain ⟨valid', guar⟩ := rule.laws.outer (by trivial) valid law
      exact ⟨valid', guar, still w₁ w₂ entered (rule.laws.shared guar) valid'⟩
    · exact Act.safe_pure entered still
  exact Prog.Safe.bind emitted valid fun out w' valid' later w'' moved valid'' => later w'' moved valid''

theorem drive_from_context {sc : StageContext} {eventType : String} {details : Data.Dict String Json} {w : W}
    (takes : ∀ info, ∀ stage ∈ l1.pipeline, rule.Takes info stage) (completes : rule.Completes l1.pipeline)
    (valid : C.valid w)
    (entered : rule.entered sc.info (sc.work.extras.completedStages.getD []).dedup sc.work w) :
    (do l1.emitFor sc eventType details
        l1.driveFrom sc : Act RunSig Unit OrchestrationResult).Safe C (fun _ _ _ => True) () w :=
  Act.safe_bind (emitFor_safe valid entered) valid
    (fun _ _ _ valid entered => Prog.Safe.bind (drive_safe (takes sc.info) completes valid entered) valid
      fun _ _ _ _ _ _ _ => trivial)
    fun _ _ _ _ _ => trivial

theorem tame_call (rule : DriveRule C) {op : Op} (outer : op.outer) : Tame C (runCall op : Act RunSig Unit op.Ans) := by
  refine Act.keeps_await tame_stable tame_stable fun s w₁ w₂ r valid _ law => ?_
  obtain ⟨valid', guar⟩ := rule.laws.outer outer valid law
  refine ⟨valid', guar, ?_⟩
  cases r <;> trivial

variable (takes : ∀ info, ∀ stage ∈ l1.pipeline, rule.Takes info stage) (completes : rule.Completes l1.pipeline)
include takes completes

theorem run_tame {goal : String} {tenant : TenantContext} {principal : Option Principal} :
    Tame C (l1.run goal tenant principal) := by
  intro s w valid _
  refine Act.safe_bind (Q := fun r _ w' => ∀ runId, r = .ok runId →
      rule.entered { runId, tenant, goal, principal } [] {} w') ?_ valid
    (fun runId _ w' valid started => ?_) fun _ _ _ _ _ => trivial
  · intro w₁ _ valid w₂ r law
    obtain ⟨valid', guar⟩ := rule.laws.outer (by trivial) valid law
    refine ⟨valid', guar, fun w₃ moved valid₃ => ?_⟩
    rintro runId rfl
    exact rule.laws.entered_stable _ _ _ w₂ w₃ (rule.laws.start valid law principal) moved valid₃
  · refine Act.Safe.weaken (drive_from_context takes completes valid (started runId rfl)) fun r _ _ _ _ => ?_
    cases r <;> trivial

theorem resumeRun_tame {runId : RunId} : Tame C (l1.resumeRun runId) := by
  unfold DefaultL1.resumeRun
  split
  · exact tame_throw _
  · intro s w valid _
    refine Act.safe_bind (Q := fun r _ w' => ∀ blob, r = .ok (some blob) → ∀ sc,
        checkpointDeserialize blob = .ok sc →
          rule.entered sc.info (sc.work.extras.completedStages.getD []).dedup sc.work w') ?_ valid
      (fun found _ w' valid loaded => ?_) fun _ _ _ _ _ => trivial
    · intro w₁ _ valid w₂ r law
      obtain ⟨valid', guar⟩ := rule.laws.outer (by trivial) valid law
      refine ⟨valid', guar, fun w₃ moved valid₃ => ?_⟩
      rintro blob rfl sc read
      exact rule.laws.entered_stable _ _ _ w₂ w₃ (rule.laws.load valid law sc read) moved valid₃
    · cases found with
      | none => exact tame_throw _ _ w' valid trivial
      | some blob =>
          cases read : checkpointDeserialize blob with
          | error e =>
              simp only [read]
              exact tame_throw e _ w' valid trivial
          | ok sc =>
              simp only [Act.ofExcept, read]
              refine Act.Safe.weaken (drive_from_context takes completes valid (loaded blob rfl sc read)) fun r _ _ _ _ => ?_
              cases r <;> trivial

theorem resumeAll_tame {due : List RunId} : Tame C (WakerPoller.resumeAll l1 due) := by
  induction due with
  | nil => exact tame_pure _
  | cons r due ih => exact Act.keeps_bind (resumeRun_tame takes completes) fun _ => ih

theorem handle_tame {collector : ResultCollector} {msg : Delivery} : Tame C (collector.handle l1 msg) := by
  have deliver : ∀ envelope : ResultEnvelope, Tame C (do
      if ← runCall (.saveResult envelope) then
        if ← runCall (.satisfyResults envelope.runId envelope.stepRef) then
          let _ ← l1.resumeRun envelope.runId : Act RunSig Unit Unit) := by
    intro envelope
    refine Act.keeps_bind (tame_call rule (by trivial)) fun fresh => ?_
    split
    · refine Act.keeps_bind (tame_call rule (by trivial)) fun claimed => ?_
      split
      · exact Act.keeps_bind (resumeRun_tame takes completes) fun _ => tame_pure _
      · exact tame_pure _
    · exact tame_pure _
  refine Act.keeps_bind (tame_ofExcept _) fun envelope => ?_
  simp only
  split
  · exact Act.keeps_bind (tame_call rule (by trivial)) fun _ => deliver envelope
  · exact deliver envelope

omit takes completes in
theorem authorized_tame (rule : DriveRule C) {runId : RunId} {authorize : Option (String → Except Exn Unit)} :
    Tame C (RunOps.authorized runId authorize) := by
  cases authorize with
  | none => exact tame_pure _
  | some check =>
      refine Act.keeps_bind (tame_call rule (by trivial)) fun owner => ?_
      cases owner with
      | none => exact tame_pure _
      | some owner => exact Act.keeps_bind (tame_ofExcept _) fun _ => tame_pure _

omit takes completes in
theorem cancel_tame (rule : DriveRule C) {runId : RunId} {authorize : Option (String → Except Exn Unit)} :
    Tame C (RunOps.cancel runId authorize) := by
  refine Act.keeps_bind (authorized_tame rule) fun go => ?_
  split
  · refine Act.keeps_bind (tame_call rule (by trivial)) fun _ => Act.keeps_bind (tame_call rule (by trivial)) fun status => ?_
    split
    · exact Act.keeps_bind (tame_call rule (by trivial)) fun _ => tame_call rule (by trivial)
    · exact Act.keeps_bind (tame_call rule (by trivial)) fun _ => tame_call rule (by trivial)
    · exact tame_pure _
  · exact tame_pure _

omit takes completes in
theorem toProcess_safe {α : Type} {m : Act RunSig Unit α} {w : W} (tame : Tame C m) (valid : C.valid w) :
    (toProcess m).Safe C (fun _ _ => True) w :=
  Prog.Safe.bind (tame () w valid trivial) valid fun _ _ _ _ _ _ _ => trivial

end programs

/-- Every program of the orchestrator is safe where its stages keep the argument. -/
theorem program_safe {o : Orchestrator}
    (takes : ∀ info, ∀ stage ∈ o.l1.pipeline, rule.Takes info stage) (completes : rule.Completes o.l1.pipeline)
    (a : Actor) {w : W} (valid : C.valid w) : (o.program a).Safe C (fun _ _ => True) w := by
  cases a with
  | run goal tenant principal => exact toProcess_safe (run_tame takes completes) valid
  | resume runId => exact toProcess_safe (resumeRun_tame takes completes) valid
  | handle msg => exact toProcess_safe (handle_tame takes completes) valid
  | tick =>
      exact toProcess_safe (Act.keeps_bind (tame_call rule (by trivial)) fun _ =>
        Act.keeps_bind (tame_call rule (by trivial)) fun _ => resumeAll_tame takes completes) valid
  | cancel runId authorize => exact toProcess_safe (cancel_tame rule) valid
  | wake eventKey authorize =>
      exact toProcess_safe (Act.keeps_bind (tame_ofExcept _) fun _ => tame_call rule (by trivial)) valid

end DriveRule

end Maof
