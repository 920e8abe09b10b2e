import Maof.Orchestrator.Frames

/-!
# The discipline of a process

What every process of the orchestrator keeps to, whatever its stages do: a
drive writes `RUNNING` once, then one status that leaves; it saves and parks
only the run it drives; and a process that took a run over has rearmed it or
finished it by the time it ends well.
-/

namespace Maof

open Effects (Act Prog Protocol Machine Pool Proc Label)

/-- The part of its history a process is judged by. -/
structure Track where
  /-- The run whose `RUNNING` the process wrote and has not left yet. -/
  driving : Option RunId := none
  /-- The runs it took over and has neither rearmed nor finished. -/
  owes : List RunId := []
  /-- The cancellation under way, and whether it found the run idle. -/
  cancelling : Option (RunId × Bool) := none
deriving DecidableEq

/-- The label of a run parked on a join. -/
def joinLabel : String := "waiting:results_ready"

/-- The run a blob resumes as. -/
def runOf (blob : Json) : Option RunId :=
  match checkpointDeserialize blob with
  | .ok sc => some sc.info.runId
  | .error _ => none

theorem runOf_serialize (sc : StageContext) : runOf (checkpointSerialize sc) = some sc.info.runId := by
  simp only [runOf, deserialize_serialize]

def drop (r : RunId) (rs : List RunId) : List RunId := rs.filter (· ≠ r)

namespace Track

def mark (g : Track) : (op : Op) → Except Exn op.Ans → Track
  | .setState r s, .ok _ =>
      if s = .running then { g with driving := some r, owes := g.owes ++ [r] }
      else { g with driving := none, owes := if s.terminal then drop r g.owes else g.owes }
  | .setState r s, .error _ =>
      if s = .running then { g with owes := g.owes ++ [r] } else { g with driving := none }
  | .save r label _, reply =>
      if label = joinLabel then { g with owes := g.owes ++ [r] }
      else match reply with
        | .ok _ => { g with owes := drop r g.owes }
        | .error _ => g
  | .schedule r condition _, .ok _ =>
      if condition.kind = .resultsReady then { g with owes := drop r g.owes } else g
  | .satisfyResults r _, .ok true => { g with owes := g.owes ++ [r] }
  | .dueJoins, .ok due => { g with owes := g.owes ++ due }
  | .requestCancel r, .ok _ => { g with cancelling := some (r, false) }
  | .fetchStatus r, .ok status =>
      { g with cancelling := if status = some .waiting ∨ status = some .pending then some (r, true) else none }
  | .finalizeCancel _, .ok _ => { g with cancelling := none }
  | _, _ => g

/-- A status is written by whoever drives the run; what is saved resumes as the same run. -/
def allowed (g : Track) : Op → Prop
  | .setState r s => if s = .running then g.driving = none else g.driving = some r
  | .save r _ blob => g.driving = some r ∧ runOf blob = some r
  | .schedule r _ _ => g.driving = some r
  | .fetchStatus r => g.cancelling = some (r, false)
  | .finalizeCancel r => g.cancelling = some (r, true)
  | .requestCancel _ => g.driving = none ∧ g.owes = [] ∧ g.cancelling = none
  | _ => True

/-- Stores never raise the exceptions the driver turns into outcomes, and give
back under a run's name what was saved under it. -/
def answers : (op : Op) → Except Exn op.Ans → Prop
  | .load r, reply => ∀ blob, reply = .ok (some blob) → runOf blob = some r
  | .stage _ _, _ => True
  | .validate _, _ => True
  | _, reply => ∀ e, reply = .error e → e.governed = false

def protocol : Protocol RunSig Track := ⟨allowed, answers, mark⟩

end Track

open Track

section drive

variable (l1 : DefaultL1) (info : RunInfo)

/-- Between the `RUNNING` of a drive and its leaving: the run is driven, and
nothing but this run has been added to what was owed. -/
def Driving (owed : List RunId) (g : Track) : Prop :=
  g.driving = some info.runId ∧ drop info.runId g.owes = drop info.runId owed ∧ g.cancelling = none

/-- After a drive has left: with a checkpointer and a waker the run is no longer owed. -/
def Left (owed : List RunId) (g : Track) : Prop :=
  g.driving = none ∧ g.cancelling = none ∧
    (l1.checkpointer = true → l1.waker = true → g.owes = drop info.runId owed)

variable {l1 info}

theorem drop_drop (r : RunId) (rs : List RunId) : drop r (drop r rs) = drop r rs := by
  simp [drop]

theorem drop_append_self (r : RunId) (rs : List RunId) : drop r (rs ++ [r]) = drop r rs := by
  simp [drop]

theorem Driving.save {owed : List RunId} {g : Track} (h : Driving info owed g) (label : String)
    (blob : Json) (reply : Except Exn Unit) :
    Driving info owed (Track.mark g (.save info.runId label blob) reply) := by
  obtain ⟨driving, same, none⟩ := h
  simp only [Track.mark]
  split
  · exact ⟨driving, (drop_append_self _ _).trans same, none⟩
  · cases reply with
    | ok u => exact ⟨driving, (drop_drop _ _).trans same, none⟩
    | error e => exact ⟨driving, same, none⟩

/-- Calls of the driver that leave the tag as it is. -/
def plain : Op → Bool
  | .stage _ _ | .create _ _ | .getState _ | .appendTrace _ _ | .emit _ | .load _ | .validate _
  | .saveResult _ | .dueTimers | .fireEvent _ | .ownerOf _ | .cancelWakeups _ => true
  | _ => false

theorem plain_mark (op : Op) (h : plain op = true) (g : Track) (reply : Except Exn op.Ans) :
    Track.mark g op reply = g := by
  cases op <;> first | rfl | cases h

theorem plain_allowed (op : Op) (h : plain op = true) (g : Track) : Track.allowed g op := by
  cases op <;> trivial

theorem follows_call (op : Op) {σ : Type} {post : Except Exn op.Ans → σ → Track → Prop} {s : σ}
    {g : Track} (allowed : Track.allowed g op)
    (after : ∀ r, Track.answers op r → post r s (Track.mark g op r)) :
    (runCall op : Act RunSig σ op.Ans).Follows protocol post s g :=
  ⟨allowed, after⟩

theorem follows_call_bind {α : Type} (op : Op) {σ : Type} {k : op.Ans → Act RunSig σ α}
    {post : Except Exn α → σ → Track → Prop} {s : σ} {g : Track} (allowed : Track.allowed g op)
    (ok : ∀ a, Track.answers op (.ok a) → (k a).Follows protocol post s (Track.mark g op (.ok a)))
    (error : ∀ e, Track.answers op (.error e) → post (.error e) s (Track.mark g op (.error e))) :
    (runCall op >>= k : Act RunSig σ α).Follows protocol post s g :=
  Act.follows_await_bind (S := RunSig) allowed ok error

theorem follows_plain {α : Type} (op : Op) {σ : Type} {k : op.Ans → Act RunSig σ α}
    {post : Except Exn α → σ → Track → Prop} {s : σ} {g : Track} (h : plain op = true)
    (ok : ∀ a, Track.answers op (.ok a) → (k a).Follows protocol post s g)
    (error : ∀ e, Track.answers op (.error e) → post (.error e) s g) :
    (runCall op >>= k : Act RunSig σ α).Follows protocol post s g :=
  follows_call_bind op (plain_allowed op h g)
    (fun a known => by rw [plain_mark op h]; exact ok a known)
    fun e known => by rw [plain_mark op h]; exact error e known

theorem follows_stage (stage : PipelineStage) (s : Work) (g : Track) :
    (liftStage info (stage.execute info)).Follows protocol (fun _ _ g' => g' = g) s g := by
  refine Prog.Follows.ofUses (A := fun op : Op => ∃ so, op = .stage info so)
    (Prog.Uses.lift (Prog.Uses.all (fun so => ⟨so, rfl⟩) _)) ?_ ?_
  · rintro op ⟨so, rfl⟩
    exact plain_allowed (.stage info so) rfl g
  · rintro op r ⟨so, rfl⟩
    exact plain_mark (.stage info so) rfl g r

theorem follows_emit (eventType : String) (details : Data.Dict String Json) (s : Work) (g : Track) :
    (l1.emit info eventType details).Follows protocol
      (fun r _ g' => g' = g ∧ ∀ e : Exn, r = .error e → e.governed = false) s g := by
  unfold DefaultL1.emit
  split
  · exact Act.follows_get_bind (follows_call (.emit _) trivial fun r known => ⟨rfl, known⟩)
  · exact Act.follows_pure ⟨rfl, fun e h => by cases h⟩

/-- Emit, then the rest: events do not move the tag. -/
theorem follows_emit_bind {α : Type} {eventType : String} {details : Data.Dict String Json}
    {k : Unit → DriverM α} {post : Except Exn α → Work → Track → Prop} {s : Work} {g : Track}
    (ok : ∀ s', (k ()).Follows protocol post s' g)
    (error : ∀ e s', e.governed = false → post (.error e) s' g) :
    (l1.emit info eventType details >>= k).Follows protocol post s g :=
  Act.follows_bind (follows_emit eventType details s g)
    (fun _ s' _ same => same.1 ▸ ok s')
    fun e s' _ same => same.1 ▸ error e s' (same.2 e rfl)

/-- Save, then the rest: a label that is no join's takes the run off what is owed. -/
theorem follows_save_bind {α : Type} {label : String} {k : Unit → DriverM α} {owed : List RunId}
    {post : Except Exn α → Work → Track → Prop} {s : Work} {g : Track} (h : Driving info owed g)
    (ok : ∀ g', Driving info owed g' →
      (l1.checkpointer = true → label ≠ joinLabel → g'.owes = drop info.runId owed) →
      (k ()).Follows protocol post s g')
    (error : ∀ e g', e.governed = false → Driving info owed g' → post (.error e) s g') :
    (l1.save info label >>= k).Follows protocol post s g := by
  unfold DefaultL1.save
  split
  · refine Act.follows_bind (Q := fun r s' g' => s' = s ∧ g' = Track.mark g (.save info.runId label
        (checkpointSerialize { info, work := s })) r ∧ ∀ e : Exn, r = .error e → e.governed = false)
      ?_ ?_ ?_
    · exact Act.follows_get_bind (follows_call (.save _ _ _) ⟨h.1, runOf_serialize _⟩
        fun r known => ⟨rfl, rfl, known⟩)
    · rintro _ s' g' ⟨rfl, rfl, -⟩
      refine ok _ (h.save label _ (.ok ())) fun _ other => ?_
      simp only [Track.mark, if_neg other, h.2.1]
    · rintro e s' g' ⟨rfl, rfl, plain⟩
      exact error e _ (plain e rfl) (h.save label _ (.error e))
  · next off => exact Act.follows_pure_bind (ok g h fun on => absurd on off)

theorem Driving.leave {owed : List RunId} {g : Track} (h : Driving info owed g) {s : RunStatus}
    (terminal : s.terminal = true) :
    Left l1 info owed (Track.mark g (.setState info.runId s) (.ok ())) := by
  have other : s ≠ .running := fun same => by rw [same] at terminal; cases terminal
  simp only [Track.mark, if_neg other, terminal, if_true]
  exact ⟨rfl, h.2.2, fun _ _ => h.2.1⟩

/-- The write that leaves a drive, and the event after it. -/
theorem follows_leave {status : RunStatus} {eventType : String} {details : Data.Dict String Json}
    {out : Work → OrchestrationResult} {owed : List RunId} {s : Work} {g : Track}
    (h : Driving info owed g) (terminal : status.terminal = true) :
    (do DefaultL1.setStatus info status
        l1.emit info eventType details
        let work ← Act.get
        return out work : DriverM OrchestrationResult).Follows protocol
      (fun r _ g' => match r with
        | .ok _ => Left l1 info owed g'
        | .error (e : Exn) => e.governed = false) s g := by
  have other : status ≠ .running := fun same => by rw [same] at terminal; cases terminal
  refine follows_call_bind (.setState _ _) (by simp only [ Track.allowed, if_neg other]; exact h.1) ?_ ?_
  · intro _ _
    exact follows_emit_bind (fun s' => Act.follows_get_bind (Act.follows_pure (h.leave terminal)))
      fun e s' plain => plain
  · intro e known
    exact known e rfl

theorem follows_runStage {stage : PipelineStage} {completed : List String} {owed : List RunId}
    {s : Work} {g : Track} (h : Driving info owed g) :
    (l1.runStage info stage completed).Follows protocol (fun _ _ g' => Driving info owed g') s g := by
  have rest : ∀ s, (l1.executed info stage completed).Follows protocol (fun _ _ g' => Driving info owed g') s g := by
    intro s
    refine Act.follows_bind (follows_stage stage s g) ?_ ?_
    · rintro _ s' g' rfl
      refine Act.follows_modify_bind (follows_save_bind h (fun g' driving _ => ?_)
        fun _ _ _ driving => driving)
      exact follows_emit_bind (fun s' => follows_call (.appendTrace _ _) trivial fun r _ => driving)
        fun _ _ _ => driving
    · rintro e s' g' rfl
      exact h
  rw [DefaultL1.runStage_eq]
  split
  · exact Act.follows_modify_bind (rest _)
  · exact rest s

variable (l1 info) in
/-- What the stage loop leaves behind. -/
def Looped (owed : List RunId) (r : Except Exn (Option OrchestrationResult)) (g : Track) : Prop :=
  match r with
  | .ok none => Driving info owed g
  | .ok (some _) => Left l1 info owed g
  | .error e => e.governed = true → Driving info owed g

theorem follows_stages {stages : List PipelineStage} {completed : List String} {owed : List RunId}
    {s : Work} {g : Track} (h : Driving info owed g) :
    (l1.stages info stages completed).Follows protocol (fun r _ g' => Looped l1 info owed r g') s g := by
  induction stages generalizing completed s g with
  | nil => exact Act.follows_pure h
  | cons stage rest ih =>
      simp only [DefaultL1.stages]
      split
      · exact ih h
      · refine Act.follows_bind (Q := fun r s' g' => g' = g ∧
          ∀ e : Exn, r = .error e → e.governed = false) ?_ ?_ ?_
        · exact follows_plain (.getState _) rfl (fun a _ => ⟨rfl, fun e none => by cases none⟩)
            fun e known => ⟨rfl, fun _ same => by cases same; exact known e rfl⟩
        · rintro cancelled s' g' ⟨rfl, -⟩
          cases cancelled with
          | true =>
              refine Act.follows_bind (follows_leave h rfl) (fun _ _ _ left => left) ?_
              intro e s'' g'' plain governed
              simp only [plain] at governed
              cases governed
          | false =>
              refine Act.follows_bind (follows_runStage h) (fun _ s'' g'' driving => ih driving) ?_
              exact fun e s'' g'' driving _ => driving
        · rintro e s' g' ⟨rfl, plain⟩ governed
          rw [plain e rfl] at governed
          cases governed

theorem waiting_label (kind : WakeKind) :
    "waiting:" ++ kind.value = joinLabel ↔ kind = .resultsReady := by
  cases kind <;> decide

theorem follows_park {condition : WakeCondition} {gate : Option StepId} {owed : List RunId}
    {s : Work} {g : Track} (h : Driving info owed g) :
    (l1.park info condition gate).Follows protocol
      (fun r _ g' => ∀ a, r = .ok a → Left l1 info owed g') s g := by
  -- once scheduled, the run is no longer owed: its join was rearmed, or its label waits otherwise
  have rest : ∀ g', Driving info owed g' →
      (l1.checkpointer = true → l1.waker = true → g'.owes = drop info.runId owed) →
      (do DefaultL1.setStatus info .waiting
          l1.emit info "run_waiting" [("condition", .str condition.kind.value)]
          let work ← Act.get
          return DefaultL1.result info work "waiting" ("waiting on " ++ condition.kind.value) [] :
        DriverM OrchestrationResult).Follows protocol
        (fun r _ g' => ∀ a, r = .ok a → Left l1 info owed g') s g' := by
    intro g' driving cleared
    refine follows_call_bind (.setState _ _) driving.1 (fun _ _ => ?_) fun e _ a none => by cases none
    refine follows_emit_bind (fun s' => Act.follows_get_bind (Act.follows_pure fun a _ => ?_))
      fun e s' _ a none => by cases none
    exact ⟨rfl, driving.2.2, cleared⟩
  unfold DefaultL1.park
  refine follows_save_bind h (fun g' driving cleared => ?_) fun e g' _ _ a none => by cases none
  split
  · refine follows_call_bind (.schedule _ _ _) driving.1 (fun _ _ => ?_) fun e _ a none => by cases none
    by_cases join : condition.kind = .resultsReady
    · simp only [Track.mark, if_pos join]
      exact rest _ ⟨driving.1, (drop_drop _ _).trans driving.2.1, driving.2.2⟩ fun _ _ => driving.2.1
    · simp only [Track.mark, if_neg join]
      exact rest g' driving fun on _ => cleared on (mt (waiting_label _).mp join)
  · next off => exact Act.follows_pure_bind (rest g' driving fun _ on => absurd on off)

variable (l1 info) in
/-- What a drive leaves behind when it returns. -/
def Returned {α : Type} (owed : List RunId) (r : Except Exn α) (g : Track) : Prop :=
  ∀ a, r = .ok a → Left l1 info owed g

theorem follows_fail {status kind reason : String} {owed : List RunId} {s : Work} {g : Track}
    (h : Driving info owed g) :
    (l1.fail info status kind reason).Follows protocol (fun r _ g' => Returned l1 info owed r g') s g :=
  Act.Follows.weaken (follows_leave h rfl) fun r s' g' left a ok => by
    subst ok
    exact left

/-- Only the exceptions that are outcomes are handled, and those came from a stage. -/
theorem follows_handler {e : Exn} {owed : List RunId} {s : Work} {g : Track}
    (h : e.governed = true → Driving info owed g) :
    (l1.leave info e).Follows protocol (fun r _ g' => ∀ a, r = .ok a → ∃ out, a = some out ∧
      Left l1 info owed g') s g := by
  have settle : ∀ {m : DriverM OrchestrationResult},
      m.Follows protocol (fun r _ g' => Returned l1 info owed r g') s g →
      (do return some (← m) : DriverM (Option OrchestrationResult)).Follows protocol
        (fun r _ g' => ∀ a, r = .ok a → ∃ out, a = some out ∧ Left l1 info owed g') s g := by
    intro m follow
    refine Act.follows_bind follow (fun out s' g' left => Act.follows_pure ?_)
      fun e s' g' _ a none => by cases none
    exact fun a same => ⟨out, (Except.ok.inj same).symm, left out rfl⟩
  cases e with
  | needsWait condition gate => exact settle (follows_park (h rfl))
  | policyDenied reason => exact settle (follows_fail (h rfl))
  | approvalRequired reason => exact settle (follows_fail (h rfl))
  | _ => exact Act.follows_throw fun a none => by cases none

theorem follows_drive {owed : List RunId} {s : Work} {g : Track} (idle : g.driving = none)
    (calm : g.cancelling = none) (same : drop info.runId g.owes = drop info.runId owed) :
    (l1.drive info).Follows protocol (fun r _ g' => Returned l1 info owed r g') s g := by
  unfold DefaultL1.drive
  refine Act.follows_get_bind (follows_call_bind (.setState _ _) idle (fun _ _ => ?_)
    fun e _ a none => by cases none)
  have driving : Driving info owed (Track.mark g (.setState info.runId .running) (.ok ())) :=
    ⟨rfl, (drop_append_self _ _).trans same, calm⟩
  refine Act.follows_bind (Q := fun r _ g' => match r with
      | .ok none => Driving info owed g'
      | .ok (some _) => Left l1 info owed g'
      | .error _ => True) ?_ ?_ ?_
  · refine Act.follows_tryCatch (follows_stages driving) (fun a s' g' looped => ?_)
      fun e s' g' looped => ?_
    · cases a <;> exact looped
    · refine Act.Follows.weaken (follows_handler looped) fun r s'' g'' handled => ?_
      cases r with
      | error e => trivial
      | ok a =>
          obtain ⟨out, rfl, left⟩ := handled a rfl
          exact left
  · rintro (_ | out) s' g' reached
    · refine Act.Follows.weaken (follows_leave reached rfl) fun r s'' g'' left a ok => ?_
      subst ok
      exact left
    · exact Act.follows_pure fun a _ => reached
  · exact fun e s' g' _ a none => by cases none

end drive

section programs

variable {l1 : DefaultL1}

/-- A drive from a context, seen from the process around it. -/
theorem follows_driveFrom {sc : StageContext} {owed : List RunId} {g : Track}
    (idle : g.driving = none) (calm : g.cancelling = none)
    (same : drop sc.info.runId g.owes = drop sc.info.runId owed) :
    (l1.driveFrom sc).Follows protocol (fun r _ g' => Returned l1 sc.info owed r g') () g :=
  Prog.Follows.bind (follows_drive idle calm same) fun _ _ returned => returned

theorem follows_emitFor_bind {α : Type} {sc : StageContext} {eventType : String}
    {details : Data.Dict String Json} {k : Unit → Act RunSig Unit α}
    {post : Except Exn α → Unit → Track → Prop} {g : Track}
    (ok : (k ()).Follows protocol post () g) (error : ∀ e, post (.error e) () g) :
    (l1.emitFor sc eventType details >>= k).Follows protocol post () g := by
  refine Act.follows_bind (Q := fun _ _ g' => g' = g) ?_ ?_ ?_
  · exact Prog.Follows.bind (follows_emit eventType details sc.work g) fun _ _ same => same.1
  · rintro _ _ _ rfl
    exact ok
  · rintro e _ _ rfl
    exact error e

theorem follows_run {goal : String} {tenant : TenantContext} {principal : Option Principal}
    {g : Track} (idle : g = {}) :
    (l1.run goal tenant principal).Follows protocol (fun r _ g' => ∀ a, r = .ok a →
      g'.driving = none ∧ g'.cancelling = none ∧
        (l1.checkpointer = true → l1.waker = true → g'.owes = [])) () g := by
  subst idle
  refine follows_plain (.create _ _) rfl (fun runId _ => ?_) fun e _ a none => by cases none
  refine follows_emitFor_bind ?_ fun e a none => by cases none
  exact Act.Follows.weaken (follows_driveFrom rfl rfl (show drop _ _ = drop _ [] from rfl)) fun r _ g' returned a ok =>
    returned a ok

/-- A resumed run is no longer owed when the resumption returns. -/
theorem follows_resumeRun {runId : RunId} {owed : List RunId} {g : Track}
    (idle : g.driving = none) (calm : g.cancelling = none) (same : drop runId g.owes = drop runId owed) :
    (l1.resumeRun runId).Follows protocol (fun r _ g' => ∀ a, r = .ok a →
      g'.driving = none ∧ g'.cancelling = none ∧
        (l1.checkpointer = true → l1.waker = true → g'.owes = drop runId owed)) () g := by
  unfold DefaultL1.resumeRun
  split
  · exact Act.follows_throw fun a none => by cases none
  · refine follows_plain (.load _) rfl (fun found known => ?_) fun e _ a none => by cases none
    cases found with
    | none => exact Act.follows_throw fun a none => by cases none
    | some blob =>
        have mine := known blob rfl
        unfold runOf at mine
        split at mine
        · next sc read =>
            simp only [Act.ofExcept]
            simp only [read]
            obtain rfl := Option.some.inj mine
            refine Act.follows_pure_bind (follows_emitFor_bind ?_ fun e a none => by cases none)
            exact Act.Follows.weaken (follows_driveFrom idle calm same) fun r _ g' returned a ok =>
              returned a ok
        · cases mine

variable (l1) in
/-- With a checkpointer and a waker a parked run can be rearmed. -/
def Armed : Prop := l1.checkpointer = true ∧ l1.waker = true

variable (l1) in
/-- A process that ends well leaves no run driven, owed or half cancelled. -/
def Settled {α : Type} (r : Except Exn α) (g : Track) : Prop :=
  ∀ a, r = .ok a → g.driving = none ∧ g.cancelling = none ∧ (Armed l1 → g.owes = [])

theorem follows_handle {c : ResultCollector} {msg : Delivery} :
    (c.handle l1 msg).Follows protocol (fun r _ g' => Settled l1 r g') () {} := by
  have deliver : ∀ envelope : ResultEnvelope, (do
      if ← runCall (.saveResult envelope) then
        if ← runCall (.satisfyResults envelope.runId envelope.stepRef) then
          let _ ← l1.resumeRun envelope.runId : Act RunSig Unit Unit).Follows protocol
        (fun r _ g' => Settled l1 r g') () {} := by
    intro envelope
    refine follows_plain (.saveResult _) rfl (fun fresh _ => ?_) fun e _ a none => by cases none
    cases fresh with
    | false => exact Act.follows_pure fun _ _ => ⟨rfl, rfl, fun _ => rfl⟩
    | true =>
        refine follows_call_bind (.satisfyResults _ _) trivial (fun claimed _ => ?_)
          fun e _ a none => by cases none
        cases claimed with
        | false => exact Act.follows_pure fun _ _ => ⟨rfl, rfl, fun _ => rfl⟩
        | true =>
            refine Act.follows_bind (follows_resumeRun rfl rfl
              (show drop envelope.runId [envelope.runId] = drop envelope.runId [] by simp [drop]))
              (fun out _ g' returned => Act.follows_pure fun _ _ => ?_) fun e _ _ _ a none => by cases none
            obtain ⟨idle, calm, cleared⟩ := returned out rfl
            exact ⟨idle, calm, fun armed => cleared armed.1 armed.2⟩
  refine Act.follows_bind (Q := fun _ _ g' => g' = {}) (Act.follows_ofExcept rfl) ?_
    fun e _ _ _ a none => by cases none
  rintro envelope _ _ rfl
  simp only
  split
  · exact follows_plain (.validate _) rfl (fun _ _ => deliver envelope) fun e _ a none => by cases none
  · exact deliver envelope

theorem follows_resumeAll {due : List RunId} {g : Track} (idle : g.driving = none)
    (calm : g.cancelling = none) (covered : Armed l1 → ∀ r ∈ g.owes, r ∈ due) :
    (WakerPoller.resumeAll l1 due).Follows protocol (fun r _ g' => Settled l1 r g') () g := by
  induction due generalizing g with
  | nil =>
      refine Act.follows_pure fun _ _ => ⟨idle, calm, fun armed => ?_⟩
      exact List.eq_nil_iff_forall_not_mem.mpr fun r member => by cases covered armed r member
  | cons r due ih =>
      refine Act.follows_bind (follows_resumeRun idle calm rfl) (fun out _ g' returned => ?_)
        fun e _ _ _ a none => by cases none
      obtain ⟨idle', calm', cleared⟩ := returned out rfl
      refine ih idle' calm' fun armed x member => ?_
      rw [cleared armed.1 armed.2] at member
      obtain ⟨owed, other⟩ := List.mem_filter.mp member
      exact (List.mem_cons.mp (covered armed x owed)).resolve_left (by simpa using other)

theorem follows_tick : (WakerPoller.tick l1).Follows protocol (fun r _ g' => Settled l1 r g') () {} := by
  refine follows_plain .dueTimers rfl (fun timers _ => ?_) fun e _ a none => by cases none
  refine follows_call_bind .dueJoins trivial (fun joins _ => ?_) fun e _ a none => by cases none
  exact follows_resumeAll rfl rfl fun _ r member => WakerPoller.mem_extend.mpr (.inr member)

theorem follows_authorized {runId : RunId} {authorize : Option (String → Except Exn Unit)} :
    (RunOps.authorized runId authorize).Follows protocol (fun _ _ g' => g' = {}) () {} := by
  cases authorize with
  | none => exact Act.follows_pure rfl
  | some check =>
      refine follows_plain (.ownerOf _) rfl (fun owner _ => ?_) fun e _ => rfl
      cases owner with
      | none => exact Act.follows_pure rfl
      | some owner =>
          refine Act.follows_bind (Q := fun _ _ g' => g' = {}) (Act.follows_ofExcept rfl) ?_
            fun _ _ _ same => same
          rintro _ _ _ rfl
          exact Act.follows_pure rfl

theorem follows_finalize {runId : RunId} {g : Track} (h : g = { cancelling := some (runId, true) }) :
    (do runCall (.finalizeCancel runId)
        runCall (.cancelWakeups runId) : Act RunSig Unit Unit).Follows protocol
      (fun r _ g' => Settled l1 r g') () g := by
  subst h
  refine follows_call_bind (.finalizeCancel _) rfl (fun _ _ => ?_) fun e _ a none => by cases none
  exact follows_call (.cancelWakeups _) trivial fun r _ a _ => ⟨rfl, rfl, fun _ => rfl⟩

theorem follows_cancel {runId : RunId} {authorize : Option (String → Except Exn Unit)} :
    (RunOps.cancel runId authorize).Follows protocol (fun r _ g' => Settled l1 r g') () {} := by
  refine Act.follows_bind follows_authorized ?_ fun e _ _ _ a none => by cases none
  rintro go _ _ rfl
  cases go with
  | false => exact Act.follows_pure fun _ _ => ⟨rfl, rfl, fun _ => rfl⟩
  | true =>
      refine follows_call_bind (.requestCancel _) ⟨rfl, rfl, rfl⟩ (fun _ _ => ?_)
        fun e _ a none => by cases none
      refine follows_call_bind (.fetchStatus _) rfl (fun status _ => ?_) fun e _ a none => by cases none
      split
      · exact follows_finalize rfl
      · exact follows_finalize rfl
      · next idle busy =>
          refine Act.follows_pure fun _ _ => ⟨rfl, ?_, fun _ => rfl⟩
          have neither : ¬(status = some .waiting ∨ status = some .pending) := by
            rintro (rfl | rfl)
            · exact idle rfl
            · exact busy rfl
          simp only [Track.mark, if_neg neither]

theorem follows_wake {eventKey : String} {authorize : Except Exn Unit} :
    (RunOps.wake eventKey authorize).Follows protocol (fun r _ g' => Settled l1 r g') () {} := by
  refine Act.follows_bind (Q := fun _ _ g' => g' = {}) (Act.follows_ofExcept rfl) ?_
    fun e _ _ _ a none => by cases none
  rintro _ _ _ rfl
  exact follows_call (.fireEvent _) trivial fun r _ a _ => by
    cases r <;> exact ⟨rfl, rfl, fun _ => rfl⟩

theorem follows_toProcess {α : Type} {m : Act RunSig Unit α} {g : Track}
    (h : m.Follows protocol (fun r _ g' => Settled l1 r g') () g) :
    (toProcess m).Follows protocol (fun r g' => Settled l1 r g') g := by
  refine Prog.Follows.bind h ?_
  rintro ⟨_ | a, u⟩ g' settled
  · intro a none
    cases none
  · exact fun _ _ => settled a rfl

/-- Every process of the orchestrator keeps the discipline from its start. -/
theorem program_follows (o : Orchestrator) (a : Actor) :
    (o.program a).Follows protocol (fun r g => Settled o.l1 r g) {} := by
  cases a with
  | run goal tenant principal =>
      refine follows_toProcess (Act.Follows.weaken (follows_run rfl) fun r _ g' h a ok => ?_)
      obtain ⟨idle, calm, cleared⟩ := h a ok
      exact ⟨idle, calm, fun armed => cleared armed.1 armed.2⟩
  | resume runId =>
      refine follows_toProcess (Act.Follows.weaken (follows_resumeRun rfl rfl
        (show drop _ [] = drop _ [] from rfl)) fun r _ g' h a ok => ?_)
      obtain ⟨idle, calm, cleared⟩ := h a ok
      exact ⟨idle, calm, fun armed => cleared armed.1 armed.2⟩
  | handle msg => exact follows_toProcess follows_handle
  | tick => exact follows_toProcess follows_tick
  | cancel runId authorize => exact follows_toProcess follows_cancel
  | wake eventKey authorize => exact follows_toProcess follows_wake

end programs

/-! ## Keeping to it in any interleaving -/

namespace World

/-- What is kept under a run's name resumes as that run. -/
def Named (w : World) : Prop := ∀ r label blob, w.checkpoints r = some (label, blob) → runOf blob = some r

theorem governed_ungoverned (e : Exn) : (ungoverned e).governed = false := by
  unfold ungoverned
  split
  · rfl
  · next plain => simpa using plain

theorem sweepTimers_error {p : Platform} {now : Int} {rows : List Wakeup} {e : Exn}
    (h : (Waker.sweepTimers p now rows).2 = .error e) : e.governed = false := by
  induction rows with
  | nil => cases h
  | cons w rows ih =>
      simp only [Waker.sweepTimers] at h
      split at h
      · exact ih h
      · split at h
        · cases h
          rfl
        · split at h
          · cases tail : (Waker.sweepTimers p now rows).2 with
            | ok due => rw [tail] at h; cases h
            | error e' =>
                rw [tail] at h
                cases h
                exact ih tail
          · exact ih h

theorem effect_answers {d : Deployment} {c : Choice} {w : World} {record : Bool} (named : Named w)
    (op : Op) : Track.answers op (effect d c w record op).2 := by
  cases op with
  | stage info so => trivial
  | validate envelope => trivial
  | load r =>
      intro blob h
      simp only [effect, Except.ok.injEq, Option.map_eq_some_iff] at h
      obtain ⟨⟨label, kept⟩, found, rfl⟩ := h
      exact named r label kept found
  | create tenant goal =>
      intro e h
      simp only [effect] at h
      split at h <;> cases h
      rfl
  | getState r =>
      intro e h
      simp only [effect] at h
      split at h <;> cases h
      rfl
  | setState r status =>
      intro e h
      simp only [effect] at h
      split at h <;> cases h
      rfl
  | schedule r condition gate =>
      intro e h
      simp only [effect, Waker.schedule] at h
      split at h
      · cases h
      · next rows failed =>
          cases h
          split at failed
          · split at failed <;> cases failed
            rfl
          · cases failed
  | dueTimers =>
      intro e h
      simp only [effect, Waker.dueTimers] at h
      split at h
      · exact sweepTimers_error h
      · cases h
  | _ => intro e h; cases h

theorem perform_answers {d : Deployment} {c : Choice} {w : World} (named : Named w) (op : Op) :
    Track.answers op (perform d c w op).2 := by
  have faulty : ∀ e, Track.answers op (.error (raised op e)) := by
    intro e
    cases op with
    | stage info so => trivial
    | validate envelope => trivial
    | load r => intro blob h; cases h
    | _ => intro e' h; cases h; exact governed_ungoverned e
  unfold perform
  split
  · exact effect_answers named op
  · exact faulty _
  · exact faulty _
  · exact faulty _

/-- Saves under a run's name of what resumes as that run keep the store named. -/
theorem perform_named {d : Deployment} {c : Choice} {w : World} {op : Op} (named : Named w)
    (saves : ∀ r label blob, op = .save r label blob → runOf blob = some r) :
    Named (perform d c w op).1 := by
  intro r label blob found
  rcases checkpoints_from found with old | saved
  · exact named r label blob old
  · exact saves r label blob saved

end World

namespace Orchestrator

variable (o : Orchestrator)

/-- The orchestrator with the track of each process beside it. -/
def tracked : Machine RunSig World Choice Actor EnvMove Track := o.machine (fun _ => {}) Track.mark

/-- The store is named and every running process keeps the discipline. -/
def Kept (p : Pool RunSig World Track) : Prop :=
  World.Named p.world ∧ Machine.AllFollow protocol (fun r g => Settled o.l1 r g) p

variable {o}

theorem kept_fresh {registry : List RegistryEntry}
    {rulesets : String → String → Option LoadedRuleset} {clock : Int} :
    o.Kept (start Track (World.fresh registry rulesets clock)) := by
  refine ⟨fun r label blob found => ?_, fun b member => ?_⟩
  · exact absurd found (by simp [start, World.fresh])
  · exact absurd member (by simp [start])

theorem step_kept {p q : Pool RunSig World Track} {l : Label Choice Actor EnvMove}
    (kept : o.Kept p) (h : o.tracked.step p l = some q) : o.Kept q := by
  refine ⟨?_, Machine.step_allFollow rfl (program_follows o) kept.2 h
    fun i c op k g _ _ => World.perform_answers kept.1 op⟩
  rcases Machine.step_cases h with ⟨a, rfl, rfl⟩ | ⟨i, c, op, k, g, rfl, found, rfl⟩ |
    ⟨i, b, rfl, found, rfl⟩ | ⟨e, rfl, rfl⟩
  · exact kept.1
  · refine World.perform_named kept.1 fun r label blob same => ?_
    subst same
    exact (kept.2.allowed found).2
  · exact kept.1
  · cases e <;> exact kept.1

/-- A process that has just moved runs on, has raised, or has ended well and left nothing open. -/
theorem Kept.moved {p : Pool RunSig World Track} (kept : o.Kept p) {i : Nat} {c : Choice} {op : Op}
    {k : Except Exn op.Ans → Prog RunSig (Except Exn Unit)} {g : Track}
    (found : p.procs[i]? = some ⟨.call op k, g⟩) :
    let reply := (World.perform o.deployment c p.world op).2
    (Proc.mk (k reply) (Track.mark g op reply)).live = true ∨ (∃ e, k reply = .ret (.error e)) ∨
      Settled o.l1 (.ok ()) (Track.mark g op reply) := by
  intro reply
  have rest := (kept.2 _ (List.mem_of_getElem? found) rfl).2 reply (World.perform_answers kept.1 op)
  cases ended : k reply with
  | call op' k' => exact .inl rfl
  | ret out =>
      rw [ended] at rest
      cases out with
      | error e => exact .inr (.inl ⟨e, rfl⟩)
      | ok u => exact .inr (.inr rest)

theorem run_kept {cond : Pool RunSig World Track → Label Choice Actor EnvMove → Bool}
    {p q : Pool RunSig World Track} (run : Machine.Run o.tracked cond p q) (kept : o.Kept p) :
    o.Kept q :=
  run.invariant kept fun _ _ _ kept _ step => step_kept kept step

end Orchestrator
end Maof
