import Maof.Orchestrator.System

/-!
# Drives under a call protocol

What a protocol has to say of a drive: what holds between two stages, what a
stage leaves where it raises, and what is kept between drives. From these every
process of the orchestrator follows the protocol.
-/

namespace Maof

open Data (Dict)
open Effects (Act Prog Protocol)

/-- The calls that leave a history alone and are free to be made. -/
def Op.aside : Op → Bool
  | .save _ _ _ | .schedule _ _ _ | .create _ _ | .load _ | .stage _ _ => false
  | _ => true

variable {G : Type}

/-- The stage's calls, seen by the process they are made in. -/
def stageCalls (P : Protocol RunSig G) (info : RunInfo) : Protocol StageSig G where
  allowed g op := P.allowed g (.stage info op)
  answers op reply := P.answers (.stage info op) reply
  mark g op reply := P.mark g (.stage info op) reply

/-- The protocol has nothing to say of the calls aside. -/
structure Quiet (P : Protocol RunSig G) : Prop where
  allowed : ∀ g op, op.aside = true → P.allowed g op
  mark : ∀ g op reply, op.aside = true → P.mark g op reply = g

/-- Some call may raise the exception. -/
def Raised (P : Protocol RunSig G) (e : Exn) : Prop := ∃ op : Op, P.answers op (.error e)

section still

variable {P : Protocol RunSig G} {l1 : DefaultL1} {info : RunInfo} {α β σ : Type}

/-- Record and history are as they were; what is raised, a call raised. -/
def Still (P : Protocol RunSig G) (s : σ) (g : G) (r : Except Exn α) (s' : σ) (g' : G) : Prop :=
  s' = s ∧ g' = g ∧ ∀ e, r = .error e → Raised P e

theorem still_bind {m : Act RunSig σ α} {f : α → Act RunSig σ β} {Q : Except Exn β → σ → G → Prop} {s : σ} {g : G}
    (first : m.Follows P (Still P s g) s g) (rest : ∀ a, (f a).Follows P Q s g)
    (fails : ∀ e : Exn, Raised P e → Q (.error e) s g) : (m >>= f).Follows P Q s g := by
  apply Act.follows_bind first
  · rintro a _ _ ⟨rfl, rfl, _⟩
    exact rest a
  · rintro e _ _ ⟨rfl, rfl, raised⟩
    exact fails e (raised e rfl)

theorem still_then {m : Act RunSig σ α} {f : α → Act RunSig σ β} {s : σ} {g : G}
    (first : m.Follows P (Still P s g) s g) (rest : ∀ a, (f a).Follows P (Still P s g) s g) :
    (m >>= f).Follows P (Still P s g) s g := by
  apply still_bind first rest
  intro e raised
  exact ⟨rfl, rfl, fun _ same => Except.error.inj same ▸ raised⟩

theorem still_pure {a : α} {s : σ} {g : G} : (pure a : Act RunSig σ α).Follows P (Still P s g) s g :=
  Act.follows_pure ⟨rfl, rfl, nofun⟩

variable (quiet : Quiet P)
include quiet

theorem still_call {op : Op} (other : op.aside = true) {s : σ} {g : G} :
    (runCall op : Act RunSig σ op.Ans).Follows P (Still P s g) s g := by
  apply Act.follows_await (S := RunSig) (quiet.allowed g op other)
  intro r known
  refine ⟨rfl, quiet.mark g op r other, ?_⟩
  rintro e rfl
  exact ⟨op, known⟩

theorem still_emit {eventType : String} {details : Dict String Json} {s : Work} {g : G} :
    (l1.emit info eventType details).Follows P (Still P s g) s g := by
  unfold DefaultL1.emit
  split
  · exact Act.follows_get_bind (still_call quiet rfl)
  · exact still_pure

/-- The write that leaves a drive, and the event after it. -/
theorem still_leave {status : RunStatus} {eventType : String} {details : Dict String Json} {out : Work → OrchestrationResult}
    {work : Work} {g : G} : (do
      DefaultL1.setStatus info status
      l1.emit info eventType details
      let work ← Act.get
      return out work : DriverM OrchestrationResult).Follows P (Still P work g) work g :=
  still_then (still_call quiet rfl) fun _ => still_then (still_emit quiet) fun _ => Act.follows_get_bind still_pure

end still

/-- A stage's program, carried into the calls of the drive. -/
theorem lift_follows {P : Protocol RunSig G} {info : RunInfo} {α : Type} {m : StageM α} {post : Except Exn α → Work → G → Prop}
    {work : Work} {g : G} (h : m.Follows (stageCalls P info) post work g) : (liftStage info m).Follows P post work g := by
  have carried : ∀ {γ : Type} (prog : Prog StageSig γ) (post : γ → G → Prop) (g : G), prog.Follows (stageCalls P info) post g →
      (prog.lift (T := RunSig) (.stage info) fun _ r => r).Follows P post g := by
    intro γ prog post
    induction prog with
    | ret a => exact fun _ h => h
    | call op k ih => exact fun _ h => ⟨h.1, fun r known => ih r _ (h.2 r known)⟩
  exact carried _ _ _ h

/-- The context with the stages that are completed. -/
def Work.recorded (work : Work) (completed : List String) : Work :=
  { work with extras := { work.extras with completedStages := some (WorkflowExecutor.sortedNames completed) } }

/-- What is said of a drive: between its calls by itself, between two stages, and where a stage raises. -/
structure Passage (G : Type) where
  idle : G → Prop
  entered : RunInfo → List String → Work → G → Prop
  left : RunInfo → Exn → Work → G → Prop

namespace Passage

/-- What the drive asks of a stage: where it answers, its checkpoint may be saved. -/
def Takes (t : Passage G) (P : Protocol RunSig G) (l1 : DefaultL1) (stage : PipelineStage) (info : RunInfo)
    (completed : List String) (work : Work) (g : G) : Prop :=
  (stage.execute info).Follows (stageCalls P info) (fun r work' g' => match r with
    | .ok _ => (l1.save info stage.name).Follows P (fun r saved g'' =>
        saved = work'.recorded (completed ++ [stage.name]) ∧ t.entered info (completed ++ [stage.name]) saved g'' ∧
          ∀ e, r = .error e → Raised P e) (work'.recorded (completed ++ [stage.name])) g'
    | .error e => t.left info e work' g') work g

/-- The calls of a run keep to the protocol where its stages do. -/
structure Along (t : Passage G) (P : Protocol RunSig G) (l1 : DefaultL1) : Prop where
  quiet : Quiet P
  rests : ∀ {info completed work g}, t.entered info completed work g → t.idle g
  stops : ∀ {info e work g}, t.left info e work g → t.idle g
  raises : ∀ {info completed work g e}, Raised P e → t.entered info completed work g → t.left info e work g
  staged : ∀ {info completed work g} stage, t.entered info completed work g → t.entered info completed { work with stage } g
  takes : ∀ {before stage after info completed work g}, l1.pipeline = before ++ stage :: after →
    (∀ s ∈ before, s.name ∈ completed) → stage.name ∉ completed → t.entered info completed work g →
      t.Takes P l1 stage info completed work g
  parks : ∀ {info condition gate work g}, t.left info (.needsWait condition gate) work g →
    (l1.park info condition gate).Follows P (fun r _ g' => ∀ a, r = .ok a → t.idle g') work g
  creates : ∀ g tenant goal, P.allowed g (.create tenant goal)
  fresh : ∀ {g} info, t.idle g → t.entered info [] {} (P.mark g (.create info.tenant info.goal) (.ok info.runId))
  loads : ∀ g runId, P.allowed g (.load runId)
  resumed : ∀ {g runId blob sc}, t.idle g → P.answers (.load runId) (.ok (some blob)) → checkpointDeserialize blob = .ok sc →
    t.entered sc.info (sc.work.extras.completedStages.getD []).dedup sc.work (P.mark g (.load runId) (.ok (some blob)))

/-- A program that answers leaves nothing open. -/
def Idle {α : Type} (t : Passage G) (r : Except Exn α) (g : G) : Prop := ∀ a, r = .ok a → t.idle g

variable {t : Passage G} {P : Protocol RunSig G} {l1 : DefaultL1} {info : RunInfo} {α β σ : Type}

theorem idle_error {e : Exn} {g : G} : t.Idle (.error e : Except Exn α) g := fun _ answered => by cases answered

theorem idle_of_still {r : Except Exn α} {s s' : σ} {g g' : G} (idle : t.idle g) (still : Still P s g r s' g') : t.Idle r g' :=
  fun _ _ => still.2.1 ▸ idle

section drive

variable (along : t.Along P l1)
include along

/-- What a stage, or all of them, leave. -/
def Reaches (t : Passage G) (info : RunInfo) (completed : List String) : Except Exn α → Work → G → Prop
  | .ok _, work, g => t.entered info completed work g
  | .error e, work, g => t.left info e work g

theorem reaches_of_still {r : Except Exn α} {completed : List String} {work work' : Work} {g g' : G}
    (entered : t.entered info completed work g) (still : Still P work g r work' g') : t.Reaches info completed r work' g' := by
  obtain ⟨rfl, rfl, raised⟩ := still
  cases r with
  | ok a => exact entered
  | error e => exact along.raises (raised e rfl) entered

theorem runStage_reaches {stage : PipelineStage} {completed : List String} {work : Work} {g : G}
    (takes : ∀ {work g}, t.entered info completed work g → t.Takes P l1 stage info completed work g)
    (entered : t.entered info completed work g) :
    (l1.runStage info stage (completed ++ [stage.name])).Follows P (t.Reaches info (completed ++ [stage.name])) work g := by
  have body : ∀ {work : Work} {g : G}, t.entered info completed work g → (l1.executed info stage (completed ++ [stage.name])).Follows P (t.Reaches info (completed ++ [stage.name])) work g := by
    intro work g entered
    have traced : Op.aside (.appendTrace info.runId { kind := stage.name, step := some stage.name }) = true := rfl
    apply Act.follows_bind (lift_follows (takes entered))
    · intro _ work' g' saves
      apply Act.follows_modify_bind
      apply Act.follows_bind saves
      · rintro _ _ g'' ⟨rfl, kept, _⟩
        apply Act.Follows.weaken (still_then (still_emit along.quiet) fun _ => still_call along.quiet traced)
        exact fun _ _ _ => reaches_of_still along kept
      · rintro e _ g'' ⟨rfl, kept, raised⟩
        exact along.raises (raised e rfl) kept
    · exact fun _ _ _ left => left
  rw [DefaultL1.runStage_eq]
  split
  · exact Act.follows_modify_bind (body (along.staged _ entered))
  · exact body entered

/-- However the stages end. -/
def Ends (t : Passage G) (info : RunInfo) : Except Exn α → Work → G → Prop
  | .ok _, _, g => t.idle g
  | .error e, work, g => t.left info e work g

theorem ends_of_still {r : Except Exn α} {completed : List String} {work work' : Work} {g g' : G}
    (entered : t.entered info completed work g) (still : Still P work g r work' g') : t.Ends info r work' g' := by
  obtain ⟨rfl, rfl, raised⟩ := still
  cases r with
  | ok a => exact along.rests entered
  | error e => exact along.raises (raised e rfl) entered

theorem stages_end {before stages : List PipelineStage} (split : l1.pipeline = before ++ stages) {completed : List String}
    (passed : ∀ s ∈ before, s.name ∈ completed) {work : Work} {g : G} (entered : t.entered info completed work g) :
    (l1.stages info stages completed).Follows P (t.Ends info) work g := by
  induction stages generalizing before completed work g with
  | nil => exact Act.follows_pure (along.rests entered)
  | cons stage stages ih =>
      have split' : l1.pipeline = (before ++ [stage]) ++ stages := by
        rw [split, List.append_assoc, List.singleton_append]
      simp only [DefaultL1.stages]
      split
      · next skipped =>
          apply ih split' _ entered
          intro s member
          rcases List.mem_append.mp member with early | last
          · exact passed s early
          · rw [List.mem_singleton.mp last]
            exact skipped
      · next new =>
          refine still_bind (still_then (still_call along.quiet rfl) fun _ => still_pure) (fun cancelled => ?_)
            fun _ raised => along.raises raised entered
          cases cancelled with
          | true =>
              apply Act.Follows.weaken (still_then (still_leave along.quiet) fun _ => still_pure)
              exact fun _ _ _ => ends_of_still along entered
          | false =>
              apply Act.follows_bind (runStage_reaches along (along.takes split passed new) entered)
              · intro _ work' g' kept
                apply ih split' _ kept
                intro s member
                rcases List.mem_append.mp member with early | last
                · exact List.mem_append_left _ (passed s early)
                · rw [List.mem_singleton.mp last]
                  exact List.mem_append_right _ (List.mem_singleton_self _)
              · exact fun _ _ _ left => left

/-- What an exception of a stage is made of. -/
theorem leave_idle {e : Exn} {work : Work} {g : G} (left : t.left info e work g) :
    (l1.leave info e).Follows P (fun r _ g' => t.Idle r g') work g := by
  have answer : ∀ {m : DriverM OrchestrationResult}, m.Follows P (fun r _ g' => t.Idle r g') work g →
      (do return some (← m) : DriverM (Option OrchestrationResult)).Follows P (fun r _ g' => t.Idle r g') work g :=
    fun follows => Act.follows_bind follows (fun out _ _ idle => Act.follows_pure fun _ _ => idle out rfl)
      fun _ _ _ _ => idle_error
  have failed : ∀ {status kind reason : String}, (l1.fail info status kind reason).Follows P (fun r _ g' => t.Idle r g') work g :=
    Act.Follows.weaken (still_leave along.quiet) fun _ _ _ => idle_of_still (along.stops left)
  cases e with
  | needsWait condition gate => exact answer (along.parks left)
  | policyDenied reason => exact answer failed
  | approvalRequired reason => exact answer failed
  | _ => exact Act.follows_throw idle_error

theorem drive_idle {work : Work} {g : G} (entered : t.entered info (work.extras.completedStages.getD []).dedup work g) :
    (l1.drive info).Follows P (fun r _ g' => t.Idle r g') work g := by
  refine Act.follows_get_bind (still_bind (still_call along.quiet rfl) (fun _ => ?_) fun _ _ => idle_error)
  have ended := @stages_end _ _ _ _ _ along [] _ rfl _ (fun _ none => (List.not_mem_nil none).elim) _ _ entered
  apply Act.follows_bind (Q := fun r _ g' => t.Idle r g') (Act.follows_tryCatch ended ?_ ?_)
  · intro out work' g' idle
    cases out with
    | some out => exact Act.follows_pure fun _ _ => idle _ rfl
    | none => exact Act.Follows.weaken (still_leave along.quiet) fun _ _ _ => idle_of_still (idle none rfl)
  · exact fun _ _ _ _ => idle_error
  · exact fun out _ _ idle _ _ => idle
  · exact fun e _ _ left => leave_idle along left

end drive

/-! ## Every process -/

section programs

/-- A program that leaves nothing open where nothing was. -/
def Tidy (t : Passage G) (P : Protocol RunSig G) (m : Act RunSig Unit α) : Prop :=
  ∀ g, t.idle g → m.Follows P (fun r _ g' => t.Idle r g') () g

theorem tidy_bind {m : Act RunSig Unit α} {f : α → Act RunSig Unit β} (first : t.Tidy P m) (rest : ∀ a, t.Tidy P (f a)) :
    t.Tidy P (m >>= f) :=
  fun g idle => Act.follows_bind (first g idle) (fun a _ g' answered => rest a g' (answered a rfl)) fun _ _ _ _ => idle_error

theorem tidy_pure (a : α) : t.Tidy P (pure a : Act RunSig Unit α) := fun _ idle => Act.follows_pure fun _ _ => idle

theorem tidy_ofExcept (r : Except Exn α) : t.Tidy P (Act.ofExcept r : Act RunSig Unit α) := by
  cases r with
  | ok a => exact tidy_pure a
  | error e => exact fun _ _ => Act.follows_throw idle_error

theorem tidy_call (quiet : Quiet P) {op : Op} (other : op.aside = true) : t.Tidy P (runCall op : Act RunSig Unit op.Ans) :=
  fun _ idle => Act.Follows.weaken (still_call quiet other) fun _ _ _ => idle_of_still idle

variable (along : t.Along P l1)
include along

/-- The event that opens a drive, and the drive. -/
theorem context_idle {sc : StageContext} {eventType : String} {details : Dict String Json} {g : G}
    (entered : t.entered sc.info (sc.work.extras.completedStages.getD []).dedup sc.work g) :
    (do l1.emitFor sc eventType details
        l1.driveFrom sc : Act RunSig Unit OrchestrationResult).Follows P (fun r _ g' => t.Idle r g') () g := by
  have opened : (l1.emitFor sc eventType details).Follows P (Still P () g) () g :=
    Prog.Follows.bind (still_emit along.quiet) fun _ _ still => ⟨rfl, still.2.1, still.2.2⟩
  apply still_bind opened
  · exact fun _ => Prog.Follows.bind (drive_idle along entered) fun _ _ idle => idle
  · exact fun _ _ => idle_error

theorem run_tidy {goal : String} {tenant : TenantContext} {principal : Option Principal} :
    t.Tidy P (l1.run goal tenant principal) := by
  intro g idle
  refine Act.follows_await_bind (S := RunSig) (along.creates g tenant goal) (fun runId _ => ?_) fun _ _ => idle_error
  exact context_idle along (along.fresh { runId, tenant, goal, principal } idle)

theorem resumeRun_tidy {runId : RunId} : t.Tidy P (l1.resumeRun runId) := by
  intro g idle
  unfold DefaultL1.resumeRun
  split
  · exact Act.follows_throw idle_error
  · refine Act.follows_await_bind (S := RunSig) (along.loads g runId) (fun found known => ?_) fun _ _ => idle_error
    cases found with
    | none => exact Act.follows_throw idle_error
    | some blob =>
        cases read : checkpointDeserialize blob with
        | error e =>
            simp only [read, Act.ofExcept]
            exact Act.follows_throw idle_error
        | ok sc =>
            simp only [read, Act.ofExcept]
            exact Act.follows_pure_bind (context_idle along (along.resumed idle known read))

theorem resumeAll_tidy {due : List RunId} : t.Tidy P (WakerPoller.resumeAll l1 due) := by
  induction due with
  | nil => exact tidy_pure ()
  | cons r due ih => exact tidy_bind (resumeRun_tidy along) fun _ => ih

theorem handle_tidy {collector : ResultCollector} {msg : Delivery} : t.Tidy P (collector.handle l1 msg) := by
  have deliver : ∀ envelope : ResultEnvelope, t.Tidy P (do
      if ← runCall (.saveResult envelope) then
        if ← runCall (.satisfyResults envelope.runId envelope.stepRef) then
          let _ ← l1.resumeRun envelope.runId : Act RunSig Unit Unit) := by
    intro envelope
    apply tidy_bind (tidy_call along.quiet rfl)
    intro fresh
    split
    · apply tidy_bind (tidy_call along.quiet rfl)
      intro claimed
      split
      · exact tidy_bind (resumeRun_tidy along) fun _ => tidy_pure ()
      · exact tidy_pure ()
    · exact tidy_pure ()
  apply tidy_bind (tidy_ofExcept _)
  intro envelope
  simp only
  split
  · exact tidy_bind (tidy_call along.quiet rfl) fun _ => deliver envelope
  · exact deliver envelope

theorem cancel_tidy {runId : RunId} {authorize : Option (String → Except Exn Unit)} :
    t.Tidy P (RunOps.cancel runId authorize) := by
  have authorized : t.Tidy P (RunOps.authorized runId authorize) := by
    cases authorize with
    | none => exact tidy_pure true
    | some check =>
        apply tidy_bind (tidy_call along.quiet rfl)
        intro owner
        cases owner with
        | none => exact tidy_pure false
        | some owner => exact tidy_bind (tidy_ofExcept _) fun _ => tidy_pure true
  apply tidy_bind authorized
  intro go
  split
  · apply tidy_bind (tidy_call along.quiet rfl)
    intro _
    apply tidy_bind (tidy_call along.quiet rfl)
    intro status
    split
    · exact tidy_bind (tidy_call along.quiet rfl) fun _ => tidy_call along.quiet rfl
    · exact tidy_bind (tidy_call along.quiet rfl) fun _ => tidy_call along.quiet rfl
    · exact tidy_pure ()
  · exact tidy_pure ()

end programs

/-- Every process of the orchestrator keeps to the protocol, and leaves nothing open where it answers. -/
theorem program_follows {o : Orchestrator} (along : t.Along P o.l1) (a : Actor) {g : G} (idle : t.idle g) :
    (o.program a).Follows P (fun r g' => t.Idle r g') g := by
  have process : ∀ {α : Type} {m : Act RunSig Unit α}, t.Tidy P m → (toProcess m).Follows P (fun r g' => t.Idle r g') g := by
    intro α m tidy
    apply Prog.Follows.bind (tidy g idle)
    rintro ⟨_ | a, u⟩ g' answered
    · exact idle_error
    · exact fun _ _ => answered a rfl
  cases a with
  | run goal tenant principal => exact process (run_tidy along)
  | resume runId => exact process (resumeRun_tidy along)
  | handle msg => exact process (handle_tidy along)
  | tick =>
      exact process (tidy_bind (tidy_call along.quiet rfl) fun _ => tidy_bind (tidy_call along.quiet rfl) fun _ =>
        resumeAll_tidy along)
  | cancel runId authorize => exact process (cancel_tidy along)
  | wake eventKey authorize => exact process (tidy_bind (tidy_ofExcept _) fun _ => tidy_call along.quiet rfl)

end Passage

/-! ## Processes by their drives -/

/-- The calls made outside of drives. -/
def Op.around : Op → Bool
  | .validate _ | .saveResult _ | .satisfyResults _ _ | .dueTimers | .dueJoins | .fireEvent _ | .ownerOf _ | .requestCancel _
  | .fetchStatus _ | .finalizeCancel _ | .cancelWakeups _ => true
  | _ => false

section drives

variable {P : Protocol RunSig G} {l1 : DefaultL1} {α β : Type}

/-- A program that keeps to the protocol whatever its history. -/
def Ever (P : Protocol RunSig G) (m : Act RunSig Unit α) : Prop := ∀ g, m.Follows P (fun _ _ _ => True) () g

theorem ever_bind {m : Act RunSig Unit α} {f : α → Act RunSig Unit β} (first : Ever P m) (rest : ∀ a, Ever P (f a)) :
    Ever P (m >>= f) :=
  fun g => Act.follows_bind (first g) (fun a _ g' _ => rest a g') fun _ _ _ _ => trivial

theorem ever_pure (a : α) : Ever P (pure a : Act RunSig Unit α) := fun _ => Act.follows_pure trivial

theorem ever_ofExcept (r : Except Exn α) : Ever P (Act.ofExcept r : Act RunSig Unit α) := fun _ => Act.follows_ofExcept trivial

variable (free : ∀ g op, op.around = true → P.allowed g op)
include free

theorem ever_call {op : Op} (outside : op.around = true) : Ever P (runCall op : Act RunSig Unit op.Ans) :=
  fun g => Act.follows_await (S := RunSig) (free g op outside) fun _ _ => trivial

theorem cancel_ever {runId : RunId} {authorize : Option (String → Except Exn Unit)} : Ever P (RunOps.cancel runId authorize) := by
  have authorized : Ever P (RunOps.authorized runId authorize) := by
    cases authorize with
    | none => exact ever_pure true
    | some check =>
        refine ever_bind (ever_call free rfl) fun owner => ?_
        cases owner with
        | none => exact ever_pure false
        | some owner => exact ever_bind (ever_ofExcept _) fun _ => ever_pure true
  have finalize : Ever P (do
      runCall (.finalizeCancel runId)
      runCall (.cancelWakeups runId) : Act RunSig Unit Unit) :=
    ever_bind (ever_call free rfl) fun _ => ever_call free rfl
  refine ever_bind authorized fun go => ?_
  split
  · refine ever_bind (ever_call free rfl) fun _ => ever_bind (ever_call free rfl) fun status => ?_
    split
    · exact finalize
    · exact finalize
    · exact ever_pure ()
  · exact ever_pure ()

variable (resumes : ∀ runId, Ever P (l1.resumeRun runId))
include resumes

theorem handle_ever {collector : ResultCollector} {msg : Delivery} : Ever P (collector.handle l1 msg) := by
  have deliver : ∀ envelope : ResultEnvelope, Ever P (do
      if ← runCall (.saveResult envelope) then
        if ← runCall (.satisfyResults envelope.runId envelope.stepRef) then
          let _ ← l1.resumeRun envelope.runId : Act RunSig Unit Unit) := by
    intro envelope
    refine ever_bind (ever_call free rfl) fun fresh => ?_
    split
    · refine ever_bind (ever_call free rfl) fun claimed => ?_
      split
      · exact ever_bind (resumes _) fun _ => ever_pure ()
      · exact ever_pure ()
    · exact ever_pure ()
  refine ever_bind (ever_ofExcept _) fun envelope => ?_
  simp only
  split
  · exact ever_bind (ever_call free rfl) fun _ => deliver envelope
  · exact deliver envelope

theorem tick_ever : Ever P (WakerPoller.tick l1) := by
  have all : ∀ due, Ever P (WakerPoller.resumeAll l1 due) := by
    intro due
    induction due with
    | nil => exact ever_pure ()
    | cons r due ih => exact ever_bind (resumes r) fun _ => ih
  exact ever_bind (ever_call free rfl) fun timers => ever_bind (ever_call free rfl) fun joins => all _

/-- A protocol that is about drives is kept by every process where every drive keeps it. -/
theorem program_ever {o : Orchestrator} (same : o.l1 = l1) (runs : ∀ goal tenant principal, Ever P (l1.run goal tenant principal))
    (a : Actor) (g : G) : (o.program a).Follows P (fun _ _ => True) g := by
  have process : ∀ {α : Type} {m : Act RunSig Unit α}, Ever P m → (toProcess m).Follows P (fun _ _ => True) g :=
    fun ever => Prog.Follows.bind (ever g) fun _ _ _ => trivial
  cases same
  cases a with
  | run goal tenant principal => exact process (runs goal tenant principal)
  | resume runId => exact process (resumes runId)
  | handle msg => exact process (handle_ever free resumes)
  | tick => exact process (tick_ever free resumes)
  | cancel runId authorize => exact process (cancel_ever free)
  | wake eventKey authorize => exact process (ever_bind (ever_ofExcept _) fun _ => ever_call free rfl)

end drives
end Maof
