import Maof.Workflows.StepApproval

/-!
# What a cancellation stops

The flag is looked at before each stage, and a whole workflow runs inside one.
Once it is set, no drive begins a stage; a drive that is inside one goes on with
whatever the stage still does.
-/

namespace Maof

open Effects (Act Prog Protocol Machine Pool Event Recorded)

/-- The call dispatches a step of the run's, other than the one that is spared. -/
def Starts (d : WorkflowDefinition) (r : RunId) (spared : Option StepId) : Op → Prop
  | .stage info op => info.runId = r ∧ ∃ step ∈ d.steps, Dispatches d step op ∧ spared ≠ some step.id
  | _ => False

/-- The state of the run, whenever it is read, says that it is to be cancelled. -/
def ToldToQuit (r : RunId) : (op : Op) → Except Exn op.Ans → Prop
  | .getState r', reply => r' = r → ∀ state, reply = .ok state → state.cancelRequested = true
  | _, _ => True

/-- No step but the spared one is dispatched. -/
def quitting (d : WorkflowDefinition) (r : RunId) (spared : Option StepId) : Protocol RunSig Unit where
  allowed _ op := ¬ Starts d r spared op
  answers := ToldToQuit r
  mark g _ _ := g

/-- What is left of a program dispatches no step but the spared one before it has looked at the flag. -/
def QuitsBy {α : Type} (d : WorkflowDefinition) (r : RunId) (spared : Option StepId) (p : Prog RunSig α) : Prop :=
  p.Follows (quitting d r spared) (fun _ _ => True) ()

/-- No process can dispatch a step of the run, but the spared one, before it has looked at the flag. -/
def Winding (d : WorkflowDefinition) (r : RunId) (spared : Option StepId) (p : Pool RunSig (Recorded RunSig World) Unit) : Prop :=
  ∀ b ∈ p.procs, QuitsBy d r spared b.prog

section programs

variable {d : WorkflowDefinition} {r : RunId} {spared : Option StepId} {σ α β : Type}

/-- The calls that are no stage's. -/
def Op.ofStage : Op → Bool
  | .stage _ _ => true
  | _ => false

def Quits (d : WorkflowDefinition) (r : RunId) (spared : Option StepId) (m : Act RunSig σ α) : Prop :=
  ∀ s, QuitsBy d r spared (m s)

/-- What is so of an answer may be used by what comes after it. -/
theorem quits_bind_of {Q : α → Prop} {m : Act RunSig σ α} {f : α → Act RunSig σ β}
    (first : ∀ s, m.Follows (quitting d r spared) (fun reply _ _ => ∀ a, reply = .ok a → Q a) s ())
    (rest : ∀ a, Q a → Quits d r spared (f a)) : Quits d r spared (m >>= f) := by
  intro s
  apply Prog.Follows.bind (first s)
  intro out _ answered
  obtain ⟨reply, s'⟩ := out
  cases reply with
  | ok a => exact rest a (answered a rfl) s'
  | error e => trivial

theorem quits_bind {m : Act RunSig σ α} {f : α → Act RunSig σ β} (first : Quits d r spared m)
    (rest : ∀ a, Quits d r spared (f a)) : Quits d r spared (m >>= f) :=
  quits_bind_of (Q := fun _ => True) (fun s => (first s).weaken fun _ _ _ _ _ => trivial) fun a _ => rest a

theorem quits_tryCatch {m : Act RunSig σ α} {handler : Exn → Act RunSig σ α} (body : Quits d r spared m)
    (handled : ∀ e, Quits d r spared (handler e)) : Quits d r spared (m.tryCatch handler) := by
  intro s
  apply Prog.Follows.bind (body s)
  intro out _ _
  obtain ⟨reply, s'⟩ := out
  cases reply with
  | ok a => trivial
  | error e => exact handled e s'

theorem quits_pure (a : α) : Quits d r spared (pure a : Act RunSig σ α) := fun _ => trivial

theorem quits_throw (e : Exn) : Quits d r spared (Act.throw e : Act RunSig σ α) := fun _ => trivial

theorem quits_get_bind {f : σ → Act RunSig σ β} (rest : ∀ s, Quits d r spared (f s)) :
    Quits d r spared (Act.get >>= f : Act RunSig σ β) := fun s => rest s s

theorem quits_modify (f : σ → σ) : Quits d r spared (Act.modify f : Act RunSig σ Unit) := fun _ => trivial

theorem quits_ofExcept (reply : Except Exn α) : Quits d r spared (Act.ofExcept reply : Act RunSig σ α) := by
  cases reply with
  | ok a => exact quits_pure a
  | error e => exact quits_throw e

theorem quits_call (op : Op) (plain : op.ofStage = false) : Quits d r spared (runCall op : Act RunSig σ op.Ans) := by
  have harmless : ¬ Starts d r spared op := by
    cases op with
    | stage info op => cases plain
    | _ => exact id
  exact fun s => ⟨harmless, fun _ _ => trivial⟩

/-- A stage of another run dispatches nothing of this one. -/
theorem quits_foreign {info : RunInfo} (other : info.runId ≠ r) (m : StageM α) : Quits d r spared (liftStage info m) := by
  intro s
  have uses : (liftStage info m s).Uses fun op => ¬ Starts d r spared op :=
    Prog.Uses.lift (Prog.Uses.all (fun _ starts => other starts.1) (m s))
  apply (Prog.Follows.ofUses (P := quitting d r spared) (g := ()) uses (fun _ => id) fun _ _ _ => rfl).weaken
  exact fun _ _ _ => trivial

end programs

namespace DefaultL1

variable {d : WorkflowDefinition} {r : RunId} {spared : Option StepId} {l1 : DefaultL1} {info : RunInfo}

theorem emit_quits {eventType : String} {details : Data.Dict String Json} : Quits d r spared (l1.emit info eventType details) := by
  unfold emit
  split
  · exact quits_get_bind fun _ => quits_call _ rfl
  · exact quits_pure ()

theorem save_quits {label : String} : Quits d r spared (l1.save info label) := by
  unfold save
  split
  · exact quits_get_bind fun _ => quits_call _ rfl
  · exact quits_pure ()

theorem told_quits {status : RunStatus} {eventType : String} {details : Data.Dict String Json} {out : Work → OrchestrationResult} :
    Quits d r spared (do
      setStatus info status
      l1.emit info eventType details
      let work ← Act.get
      return out work : DriverM OrchestrationResult) := by
  apply quits_bind (quits_call (.setState info.runId status) rfl)
  intro _
  apply quits_bind emit_quits
  intro _
  exact quits_get_bind fun _ => quits_pure _

theorem park_quits {condition : WakeCondition} {gate : Option StepId} : Quits d r spared (l1.park info condition gate) := by
  unfold park
  apply quits_bind save_quits
  intro _
  split
  · exact quits_bind (quits_call _ rfl) fun _ => told_quits
  · exact told_quits

theorem leave_quits (e : Exn) : Quits d r spared (l1.leave info e) := by
  cases e with
  | needsWait condition gate => exact quits_bind park_quits fun _ => quits_pure _
  | policyDenied reason => exact quits_bind told_quits fun _ => quits_pure _
  | approvalRequired reason => exact quits_bind told_quits fun _ => quits_pure _
  | _ => exact quits_throw _

/-- A stage of another run's, and what the driver writes down of it. -/
theorem runStage_quits {stage : PipelineStage} {completed : List String} (other : info.runId ≠ r) :
    Quits d r spared (l1.runStage info stage completed) := by
  have body : Quits d r spared (l1.executed info stage completed) := by
    apply quits_bind (quits_foreign other _)
    intro _
    apply quits_bind (quits_modify _)
    intro _
    apply quits_bind save_quits
    intro _
    apply quits_bind emit_quits
    intro _
    exact quits_call _ rfl
  rw [DefaultL1.runStage_eq]
  split
  · exact quits_bind (quits_modify _) fun _ => body
  · exact body

/-- The flag is looked at before each stage: where it is set, none is begun. -/
theorem stages_quit {stages : List PipelineStage} {completed : List String} :
    Quits d r spared (l1.stages info stages completed) := by
  induction stages generalizing completed with
  | nil => exact quits_pure none
  | cons stage stages ih =>
      rw [DefaultL1.stages]
      split
      · exact ih
      · apply quits_bind_of (Q := fun quit => info.runId = r → quit = true)
        · intro s
          refine ⟨id, fun reply told => ?_⟩
          cases reply with
          | error e =>
              intro quit answered
              cases answered
          | ok state =>
              intro quit answered mine
              cases answered
              rw [told mine state rfl, Bool.true_or]
        · intro quit quits
          cases quit with
          | true => exact quits_bind told_quits fun _ => quits_pure _
          | false =>
              have other : info.runId ≠ r := fun mine => by cases quits mine
              exact quits_bind (runStage_quits other) fun _ => ih

theorem drive_quits : Quits d r spared (l1.drive info) := by
  apply quits_get_bind
  intro work
  apply quits_bind (quits_call (.setState info.runId .running) rfl)
  intro _
  apply quits_bind (quits_tryCatch stages_quit leave_quits)
  intro out
  cases out with
  | some out => exact quits_pure out
  | none => exact told_quits

theorem driveFrom_quits {sc : StageContext} {eventType : String} {details : Data.Dict String Json} :
    Quits d r spared (do
      l1.emitFor sc eventType details
      l1.driveFrom sc : Act RunSig Unit OrchestrationResult) := by
  apply quits_bind
  · intro _
    exact Prog.Follows.bind (emit_quits sc.work) fun _ _ _ => trivial
  · intro _ _
    exact Prog.Follows.bind (drive_quits sc.work) fun _ _ _ => trivial

theorem run_quits {goal : String} {tenant : TenantContext} {principal : Option Principal} :
    Quits d r spared (l1.run goal tenant principal) :=
  quits_bind (quits_call (.create tenant goal) rfl) fun _ => driveFrom_quits

theorem resumeRun_quits {runId : RunId} : Quits d r spared (l1.resumeRun runId) := by
  unfold resumeRun
  split
  · exact quits_throw _
  · apply quits_bind (quits_call (.load runId) rfl)
    intro kept
    cases kept with
    | none => exact quits_throw _
    | some blob => exact quits_bind (quits_ofExcept _) fun _ => driveFrom_quits

end DefaultL1

/-! ## Any number of processes -/

section machine

variable {d : WorkflowDefinition} {r : RunId} {spared : Option StepId} {o : Orchestrator}

theorem resumeAll_quits {l1 : DefaultL1} {due : List RunId} : Quits d r spared (WakerPoller.resumeAll l1 due) := by
  induction due with
  | nil => exact quits_pure ()
  | cons runId due ih => exact quits_bind DefaultL1.resumeRun_quits fun _ => ih

theorem handle_quits {collector : ResultCollector} {l1 : DefaultL1} {msg : Delivery} :
    Quits d r spared (collector.handle l1 msg) := by
  have deliver : ∀ envelope : ResultEnvelope, Quits d r spared (do
      if ← runCall (.saveResult envelope) then
        if ← runCall (.satisfyResults envelope.runId envelope.stepRef) then
          let _ ← l1.resumeRun envelope.runId : Act RunSig Unit Unit) := by
    intro envelope
    apply quits_bind (quits_call (.saveResult envelope) rfl)
    intro fresh
    split
    · apply quits_bind (quits_call (.satisfyResults envelope.runId envelope.stepRef) rfl)
      intro claimed
      split
      · exact quits_bind DefaultL1.resumeRun_quits fun _ => quits_pure ()
      · exact quits_pure ()
    · exact quits_pure ()
  apply quits_bind (quits_ofExcept msg.decoded)
  intro envelope
  simp only
  split
  · exact quits_bind (quits_call (.validate envelope) rfl) fun _ => deliver envelope
  · exact deliver envelope

theorem authorized_quits {runId : RunId} {authorize : Option (String → Except Exn Unit)} :
    Quits d r spared (RunOps.authorized runId authorize) := by
  cases authorize with
  | none => exact quits_pure true
  | some check =>
      apply quits_bind (quits_call (.ownerOf runId) rfl)
      intro owner
      cases owner with
      | none => exact quits_pure false
      | some owner => exact quits_bind (quits_ofExcept _) fun _ => quits_pure true

theorem cancel_quits {runId : RunId} {authorize : Option (String → Except Exn Unit)} :
    Quits d r spared (RunOps.cancel runId authorize) := by
  have finalized : Quits d r spared (do
      runCall (.finalizeCancel runId)
      runCall (.cancelWakeups runId) : Act RunSig Unit Unit) :=
    quits_bind (quits_call (.finalizeCancel runId) rfl) fun _ => quits_call (.cancelWakeups runId) rfl
  apply quits_bind authorized_quits
  intro go
  split
  · apply quits_bind (quits_call (.requestCancel runId) rfl)
    intro _
    apply quits_bind (quits_call (.fetchStatus runId) rfl)
    intro status
    split
    · exact finalized
    · exact finalized
    · exact quits_pure ()
  · exact quits_pure ()

theorem toProcess_quits {α : Type} {m : Act RunSig Unit α} (quits : Quits d r spared m) : QuitsBy d r spared (toProcess m) :=
  Prog.Follows.bind (quits ()) fun _ _ _ => trivial

/-- Whatever is begun looks at the flag before it dispatches anything. -/
theorem program_quits (a : Actor) : QuitsBy d r spared (o.program a) := by
  cases a with
  | run goal tenant principal => exact toProcess_quits DefaultL1.run_quits
  | resume runId => exact toProcess_quits DefaultL1.resumeRun_quits
  | handle msg => exact toProcess_quits handle_quits
  | tick =>
      apply toProcess_quits
      apply quits_bind (quits_call .dueTimers rfl)
      intro timers
      apply quits_bind (quits_call .dueJoins rfl)
      intro joins
      exact resumeAll_quits
  | cancel runId authorize => exact toProcess_quits cancel_quits
  | wake eventKey authorize =>
      exact toProcess_quits (quits_bind (quits_ofExcept authorize) fun _ => quits_call (.fireEvent eventKey) rfl)

/-- The run's state is read as it is. -/
theorem told_to_quit {dep : Deployment} {c : Choice} {w : World} (op : Op) (flag : w.flagged r = true) :
    ToldToQuit r op (World.perform dep c w op).2 := by
  cases op with
  | getState r' =>
      rintro rfl state answered
      have read := (congrArg Prod.snd (World.perform_ok answered)).symm.trans answered
      simp only [World.effect] at read
      split at read
      · next row found =>
          cases read
          rw [World.flagged, found] at flag
          exact flag
      · cases read
  | _ => trivial

/-- A step of a pool that is winding makes no call that dispatches another step, and leaves it so. -/
theorem Winding.step {p q : Pool RunSig (Recorded RunSig World) Unit} {l : Effects.Label Choice Actor EnvMove}
    (winding : Winding d r spared p) (h : o.untracked.recorded.step p l = some q)
    (told : ∀ i c op k g, l = .run i c → p.procs[i]? = some ⟨.call op k, g⟩ →
      ToldToQuit r op (World.perform o.deployment c p.world.world op).2) :
    Winding d r spared q ∧ ∃ added, q.world.log = p.world.log ++ added ∧ ∀ event ∈ added, ¬ Starts d r spared event.op := by
  rcases Machine.step_cases h with ⟨a, rfl, rfl⟩ | ⟨i, c, op, k, g, rfl, found, rfl⟩ |
    ⟨i, b, rfl, found, rfl⟩ | ⟨e, rfl, rfl⟩
  · refine ⟨fun b member => ?_, [], (List.append_nil _).symm, fun _ none => (List.not_mem_nil none).elim⟩
    rcases List.mem_append.mp member with old | new
    · exact winding b old
    · rw [List.mem_singleton.mp new]
      exact program_quits a
  · have mine := winding _ (List.mem_of_getElem? found)
    refine ⟨fun b member => ?_, [_], rfl, fun event member => ?_⟩
    · rcases Machine.mem_set member with rfl | old
      · exact mine.2 _ (told i c op k g rfl found)
      · exact winding b old
    · rw [List.mem_singleton.mp member]
      exact mine.1
  · refine ⟨fun b' member => ?_, [], (List.append_nil _).symm, fun _ none => (List.not_mem_nil none).elim⟩
    rcases Machine.mem_set member with rfl | old
    · trivial
    · exact winding b' old
  · exact ⟨winding, [], (List.append_nil _).symm, fun _ none => (List.not_mem_nil none).elim⟩

/-- No step of the machine takes a flag back. -/
theorem flagged_step {p q : Pool RunSig (Recorded RunSig World) Unit} {l : Effects.Label Choice Actor EnvMove}
    (flag : p.world.world.flagged r = true) (h : o.untracked.recorded.step p l = some q) :
    q.world.world.flagged r = true := by
  rcases Machine.step_cases h with ⟨a, rfl, rfl⟩ | ⟨i, c, op, k, g, rfl, found, rfl⟩ |
    ⟨i, b, rfl, found, rfl⟩ | ⟨e, rfl, rfl⟩
  · exact flag
  · exact World.flagged_stays flag
  · exact flag
  · cases e <;> exact flag

/-- Once the flag is set, the steps that are dispatched are spared ones in every run. -/
theorem Winding.run {p q : Pool RunSig (Recorded RunSig World) Unit} (winding : Winding d r spared p)
    (flag : p.world.world.flagged r = true) (run : Machine.Run o.untracked.recorded (fun _ _ => true) p q) :
    Winding d r spared q ∧ q.world.world.flagged r = true ∧
      ∃ added, q.world.log = p.world.log ++ added ∧ ∀ event ∈ added, ¬ Starts d r spared event.op := by
  induction run with
  | refl => exact ⟨winding, flag, [], (List.append_nil _).symm, fun _ none => (List.not_mem_nil none).elim⟩
  | tail _ _ step ih =>
      obtain ⟨winding, flag, added, log, others⟩ := ih
      obtain ⟨winding', more, log', others'⟩ := winding.step step fun _ _ _ _ _ _ _ => told_to_quit _ flag
      refine ⟨winding', flagged_step flag step, added ++ more, ?_, fun event member => ?_⟩
      · rw [log', log, List.append_assoc]
      · rcases List.mem_append.mp member with old | new
        · exact others event old
        · exact others' event new

end machine

namespace Sample

/-- No process is about to dispatch anything. -/
def dispatching (p : Pool RunSig (Recorded RunSig World) Unit) : Bool :=
  (List.range p.procs.length).any fun i => match p.next i with
    | some (.stage _ op) => match op with
        | .resolveQueue _ _ | .publishTask _ | .generate _ _ _ => true
        | _ => false
    | _ => false

end Sample

open Sample

end Maof
