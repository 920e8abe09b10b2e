import Maof.Orchestrator.Gates

/-!
# What an invocation leaves ready

The executor raises its wait only after a pass that completed nothing. Every
step it knew to be ready then has been dispatched, and of the ready gates the
first one met is the one it waits for.
-/

namespace Maof

open Data (Dict)
open Effects (Act Prog Protocol)

/-- Control flow, raised by the executor and by nothing it calls. -/
def Exn.waits : Exn → Bool
  | .needsWait _ _ => true
  | _ => false

/-- A step that is not completed, all of whose dependencies are. -/
def WorkflowState.ready (s : WorkflowState) (step : WorkflowStep) : Bool :=
  !s.completed step.id && step.dependsOn.all s.completed

/-- The steps that are not completed, as a number. -/
def WorkflowDefinition.pending (d : WorkflowDefinition) (s : WorkflowState) : Nat :=
  d.steps.countP fun step => !s.completed step.id

section state

variable {d : WorkflowDefinition} {s s' : WorkflowState} {step : WorkflowStep}

theorem ready_congr (same : ∀ id, s'.completed id = s.completed id) (step : WorkflowStep) :
    s'.ready step = s.ready step := by
  have agree : s'.completed = s.completed := funext same
  simp only [WorkflowState.ready, agree]

theorem pending_le (grown : ∀ id, s.completed id = true → s'.completed id = true) : d.pending s' ≤ d.pending s := by
  apply List.countP_mono_left
  intro step _ left
  simp only [Bool.not_eq_true'] at left ⊢
  by_contra done
  rw [grown step.id (by simpa using done)] at left
  cases left

/-- A step that got completed is one less to go. -/
theorem pending_lt (grown : ∀ id, s.completed id = true → s'.completed id = true) (member : step ∈ d.steps)
    (before : s.completed step.id = false) (after : s'.completed step.id = true) : d.pending s' < d.pending s := by
  obtain ⟨front, back, split⟩ := List.append_of_mem member
  have earlier : front.countP (fun step => !s'.completed step.id) ≤ front.countP fun step => !s.completed step.id :=
    pending_le (d := { d with steps := front }) grown
  have later : back.countP (fun step => !s'.completed step.id) ≤ back.countP fun step => !s.completed step.id :=
    pending_le (d := { d with steps := back }) grown
  simp only [WorkflowDefinition.pending, split, List.countP_append, List.countP_cons, before, after]
  simp
  omega

end state

/-! ## What a process has seen -/

/-- A run as it was parked: its workflow state, and the steps that the drive had
looked up since it took the run up and had found no result of. -/
structure Park where
  runId : RunId
  state : WorkflowState
  missing : List StepId

/-- The part of its history a drive's parking is judged by: `sent` names the runs and
objectives of the tasks known to have been dispatched. -/
structure Watch where
  missing : List (RunId × StepId) := []
  sent : List (RunId × String) := []
  parks : List Park := []
  unscheduled : Option Park := none

/-- The labels of the checkpoints a run is parked with. -/
def waitLabels : List String :=
  [WakeKind.resultsReady, .timer, .externalEvent].map fun kind => "waiting:" ++ kind.value

theorem wait_label (kind : WakeKind) : "waiting:" ++ kind.value ∈ waitLabels := by
  cases kind <;> decide

namespace Watch

variable (d : WorkflowDefinition)

/-- The dispatches a workflow state tells of. -/
def told (r : RunId) (s : WorkflowState) : List (RunId × String) :=
  (d.steps.filter fun step => step.id ∈ s.dispatched).map fun step => (r, WorkflowExecutor.objective d step)

def take (g : Watch) (r : RunId) (s : WorkflowState) : Watch :=
  { g with missing := [], sent := g.sent ++ told d r s }

/-- The steps of the run that had no result. -/
def missed (g : Watch) (r : RunId) : List StepId := (g.missing.filter fun found => found.1 = r).map Prod.snd

def park (g : Watch) (r : RunId) (s : WorkflowState) : Watch :=
  { g with parks := g.parks ++ [⟨r, s, g.missed r⟩], unscheduled := some ⟨r, s, g.missed r⟩ }

def mark (g : Watch) : (op : Op) → Except Exn op.Ans → Watch
  | .create _ _, .ok _ => { g with missing := [] }
  | .load _, .ok (some blob) => match checkpointDeserialize blob with
      | .ok sc => take d g sc.info.runId sc.work.workflow
      | .error _ => { g with missing := [] }
  | .load _, _ => { g with missing := [] }
  | .stage info (.listResults id), .ok [] => { g with missing := g.missing ++ [(info.runId, id)] }
  | .stage info (.publishTask q), .ok _ => { g with sent := g.sent ++ [(info.runId, q.task.description)] }
  | .save r label blob, _ => if label ∈ waitLabels then match checkpointDeserialize blob with
      | .ok sc => park g r sc.work.workflow
      | .error _ => g
    else g
  | .schedule _ _ _, .ok _ => { g with unscheduled := none }
  | _, _ => g

theorem mem_missed {g : Watch} {r : RunId} {id : StepId} : id ∈ g.missed r ↔ (r, id) ∈ g.missing := by
  simp [missed]

/-- No awaited call raises `NeedsWait`. -/
def answers (op : Op) (reply : Except Exn op.Ans) : Prop := ∀ e, reply = .error e → e.waits = false

end Watch

open Watch

/-- Every step put down as dispatched is known to have been. -/
def Sent (d : WorkflowDefinition) (info : RunInfo) (work : Work) (g : Watch) : Prop :=
  ∀ step ∈ d.steps, step.id ∈ work.workflow.dispatched → (info.runId, WorkflowExecutor.objective d step) ∈ g.sent

/-- The steps among `ids` are completed, or were looked up and had no result. -/
def Looked (info : RunInfo) (ids : List StepId) (work : Work) (g : Watch) : Prop :=
  ∀ id ∈ ids, work.workflow.completed id = true ∨ (info.runId, id) ∈ g.missing

/-- Every ready task was dispatched, and every step that is not completed had no result. -/
structure Taken (d : WorkflowDefinition) (s : WorkflowState) (missing : List StepId) : Prop where
  tasks : ∀ step ∈ d.steps, s.ready step = true → step.kind = .task → step.id ∈ s.dispatched
  looked : ∀ step ∈ d.steps, s.completed step.id = true ∨ step.id ∈ missing

/-- Where a gate is ready, the wait is for a ready gate. -/
def Suits (d : WorkflowDefinition) (s : WorkflowState) (gate : Option StepId) : Prop :=
  ∀ step ∈ d.steps, s.ready step = true → step.kind = .gate →
    ∃ other ∈ d.steps, s.ready other = true ∧ other.kind = .gate ∧ gate = some other.id

/-- What a stage leaves behind where it answers, and where it raises its wait. -/
def Rests {α : Type} (d : WorkflowDefinition) (info : RunInfo) : Except Exn α → Work → Watch → Prop
  | .ok _, work, g => Sent d info work g
  | .error (.needsWait _ gate), work, g => Sent d info work g ∧ Taken d work.workflow (g.missed info.runId) ∧ Suits d work.workflow gate
  | .error _, _, _ => True

/-- `P` where an answer is given; what is raised is no wait. -/
def Calmly {α σ : Type} (P : α → σ → Watch → Prop) : Except Exn α → σ → Watch → Prop
  | .ok a, s, g => P a s g
  | .error e, _, _ => e.waits = false

theorem Rests.of_calmly {α : Type} {d : WorkflowDefinition} {info : RunInfo} {P : α → Work → Watch → Prop}
    {r : Except Exn α} {work : Work} {g : Watch} (h : Calmly P r work g)
    (rests : ∀ a, P a work g → Sent d info work g) : Rests d info r work g := by
  cases r with
  | ok a => exact rests a h
  | error e =>
      cases e with
      | needsWait condition gate => cases h
      | _ => trivial

/-- The stage's calls, seen by the process they are made in. -/
def watchStage (d : WorkflowDefinition) (info : RunInfo) : Protocol StageSig Watch where
  allowed _ _ := True
  answers op reply := Watch.answers (.stage info op) reply
  mark g op reply := Watch.mark d g (.stage info op) reply

section stage

variable {p : Platform} {ex : WorkflowExecutor} {d : WorkflowDefinition} {info : RunInfo} {α β : Type}

theorem calmly_bind {K : Protocol StageSig Watch} {m : StageM α} {f : α → StageM β} {P : α → Work → Watch → Prop}
    {Q : β → Work → Watch → Prop} {s : Work} {g : Watch} (first : m.Follows K (Calmly P) s g)
    (rest : ∀ a s' g', P a s' g' → (f a).Follows K (Calmly Q) s' g') : (m >>= f).Follows K (Calmly Q) s g :=
  Act.follows_bind first rest fun _ _ _ => id

theorem calmly_call {op : StageOp} {P : op.Ans → Work → Watch → Prop} {s : Work} {g : Watch}
    (after : ∀ a, P a s (Watch.mark d g (.stage info op) (.ok a))) :
    (stageCall op : StageM op.Ans).Follows (watchStage d info) (Calmly P) s g := by
  refine Act.follows_await (S := StageSig) trivial fun r known => ?_
  cases r with
  | ok a => exact after a
  | error e => exact known e rfl

/-- The look-ups: each step among them is completed, or had no result. -/
theorem refresh_looks (steps : List WorkflowStep) {ids : List StepId} {work : Work} {g : Watch} (sent : Sent d info work g)
    (looked : Looked info ids work g) : (WorkflowExecutor.refresh steps).Follows (watchStage d info)
      (Calmly fun _ work' g' => Sent d info work' g' ∧ Looked info (ids ++ steps.map WorkflowStep.id) work' g') work g := by
  induction steps generalizing ids work g with
  | nil => exact Act.follows_pure ⟨sent, by simpa using looked⟩
  | cons step steps ih =>
      have next : ∀ {work : Work} {g : Watch}, Sent d info work g → Looked info (ids ++ [step.id]) work g →
          (WorkflowExecutor.refresh steps).Follows (watchStage d info) (Calmly fun _ work' g' => Sent d info work' g' ∧
            Looked info (ids ++ (step :: steps).map WorkflowStep.id) work' g') work g := by
        intro work g sent looked
        simpa only [List.append_assoc, List.map_cons, List.singleton_append] using ih sent looked
      have also : ∀ {work : Work} {g : Watch}, Looked info ids work g → (work.workflow.completed step.id = true ∨ (info.runId, step.id) ∈ g.missing) →
          Looked info (ids ++ [step.id]) work g := by
        intro work g looked here id member
        rcases List.mem_append.mp member with old | new
        · exact looked id old
        · rw [List.mem_singleton.mp new]
          exact here
      refine Act.follows_get_bind ?_
      split
      · next done => exact next sent (also looked (.inl done))
      · refine calmly_bind (P := fun found s' g' => s' = work ∧ g' = Watch.mark d g (.stage info (.listResults step.id)) (.ok found))
          (calmly_call fun found => ⟨rfl, rfl⟩) ?_
        rintro found _ _ ⟨rfl, rfl⟩
        cases found with
        | nil =>
            refine next sent (also (fun id member => ?_) (.inr (List.mem_append_right _ List.mem_cons_self)))
            exact (looked id member).imp_right (List.mem_append_left _)
        | cons first rest =>
            refine Act.follows_modify_bind (next sent (also (fun id member => ?_) (.inl ?_)))
            · exact (looked id member).imp_left fun done => (completed_putOutput _ _ _ _).mpr (.inr done)
            · exact (completed_putOutput _ _ _ _).mpr (.inl rfl)

/-- The approval of a step is put down, and nothing else. -/
theorem approve_watched {step : WorkflowStep} {work : Work} {g : Watch} :
    (WorkflowExecutor.approve ex d step).Follows (watchStage d info) (Calmly fun _ work' g' => g' = g ∧
      work'.workflow.outputs = work.workflow.outputs ∧ work'.workflow.gatesWaited = work.workflow.gatesWaited ∧
      work'.workflow.dispatched = work.workflow.dispatched) work g := by
  unfold WorkflowExecutor.approve
  split
  · exact Act.follows_pure ⟨rfl, rfl, rfl, rfl⟩
  · next spec asked =>
      refine Act.follows_get_bind ?_
      split
      · split
        · refine calmly_bind (P := fun _ work' g' => work' = work ∧ g' = g) (calmly_call fun _ => ⟨rfl, rfl⟩) ?_
          rintro _ _ _ ⟨rfl, rfl⟩
          exact Act.follows_modify ⟨rfl, rfl, rfl, rfl⟩
        · exact Act.follows_modify ⟨rfl, rfl, rfl, rfl⟩
      · exact Act.follows_pure ⟨rfl, rfl, rfl, rfl⟩

/-- A delegation dispatched to a queue is a task published under its objective. -/
theorem dispatch_sends {c : DefaultCoordinator} {contract : DelegationContract} {work : Work} {g : Watch}
    (queue : contract.coordinationMode = some "queue") : (c.dispatch p contract info).Follows (watchStage d info)
      (Calmly fun _ work' g' => work' = work ∧ g' = { g with sent := g.sent ++ [(info.runId, contract.objective)] }) work g := by
  have mode : orElse contract.coordinationMode c.defaultMode = "queue" := by
    rw [queue]
    rfl
  unfold DefaultCoordinator.dispatch
  rw [if_pos mode]
  split
  · next q found =>
      unfold QueueDispatcher.dispatch
      refine Act.follows_get_bind (calmly_bind (P := fun _ work' g' => work' = work ∧ g' = g)
        (calmly_call fun _ => ⟨rfl, rfl⟩) ?_)
      rintro ⟨name, manifest⟩ asked seen ⟨rfl, rfl⟩
      have told : ∀ {entry : TraceEntry} {sub : SubResult} {work : Work} {g : Watch}, (do
          stageCall (.appendTrace entry)
          return sub : StageM SubResult).Follows (watchStage d info) (Calmly fun _ work' g' => work' = work ∧ g' = g) work g := by
        intro entry sub work g
        refine calmly_bind (P := fun _ work' g' => work' = work ∧ g' = g) (calmly_call fun _ => ⟨rfl, rfl⟩) ?_
        rintro _ _ _ ⟨rfl, rfl⟩
        exact Act.follows_pure ⟨rfl, rfl⟩
      refine calmly_bind (P := fun _ work' g' => work' = asked ∧ g' = { seen with
        sent := seen.sent ++ [(info.runId, contract.objective)] }) (calmly_call fun _ => ⟨rfl, rfl⟩) ?_
      rintro _ _ _ ⟨rfl, rfl⟩
      exact told
  · exact Act.follows_throw rfl

/-- A task of a queue step that is run has been dispatched, and completes nothing yet. -/
theorem runTask_sends {step : WorkflowStep} (queue : ex.mode step = "queue") {work : Work} {g : Watch}
    (sent : Sent d info work g) : (WorkflowExecutor.runTask p ex d info step).Follows (watchStage d info)
      (Calmly fun done work' g' => done = false ∧ Sent d info work' g' ∧ g'.missing = g.missing ∧
        work'.workflow.outputs = work.workflow.outputs ∧ work'.workflow.gatesWaited = work.workflow.gatesWaited ∧
        work.workflow.dispatched ⊆ work'.workflow.dispatched ∧ step.id ∈ work'.workflow.dispatched) work g := by
  refine calmly_bind approve_watched ?_
  rintro _ work' g ⟨rfl, outputs, gates, dispatched⟩
  have still : Sent d info work' g := fun other member there => sent other member (dispatched ▸ there)
  refine Act.follows_get_bind ?_
  simp only [queue]
  rw [if_neg (by decide)]
  split
  · refine calmly_bind (dispatch_sends (by simp only [WorkflowExecutor.delegation, queue])) ?_
    rintro _ _ _ ⟨rfl, rfl⟩
    refine Act.follows_modify_bind (Act.follows_pure ⟨rfl, ?_, rfl, outputs, gates, ?_, ?_⟩)
    · intro other member there
      rcases List.mem_append.mp there with old | new
      · exact List.mem_append_left _ (still other member old)
      · refine List.mem_append_right _ (List.mem_singleton.mpr ?_)
        simp only [WorkflowExecutor.delegation, WorkflowExecutor.objective, List.mem_singleton.mp new]
    · rw [← dispatched]
      exact List.subset_append_left _ _
    · exact List.mem_append_right _ List.mem_cons_self
  · next there =>
      exact Act.follows_pure ⟨rfl, still, rfl, outputs, gates, fun _ => dispatched ▸ id, not_not.mp there⟩

/-- The gate to wait for is a ready one that was not waited for before. -/
def Waits (d : WorkflowDefinition) (s : WorkflowState) (gate : Option WorkflowStep) : Prop :=
  ∀ g, gate = some g → g ∈ d.steps ∧ g.kind = .gate ∧ s.ready g = true ∧ g.id ∉ s.gatesWaited

/-- What looking at some steps in turn leaves: where it completed none of them, each
that is ready was dispatched, or is a gate and there is one to wait for. -/
structure Swept (d : WorkflowDefinition) (steps : List WorkflowStep) (gate : Option WorkflowStep)
    (out : Option WorkflowStep × Bool) (s s' : WorkflowState) : Prop where
  waits : Waits d s' out.1
  kept : gate.isSome = true → out.1.isSome = true
  dispatched : s.dispatched ⊆ s'.dispatched
  grown : ∀ id, s.completed id = true → s'.completed id = true
  fewer : out.2 = true → d.pending s' < d.pending s
  still : out.2 = false → ∀ id, s'.completed id = s.completed id
  tasks : out.2 = false → ∀ step ∈ steps, s'.ready step = true → step.kind = .task → step.id ∈ s'.dispatched
  gates : out.2 = false → ∀ step ∈ steps, s'.ready step = true → step.kind = .gate → out.1.isSome = true

/-- Nothing changed but what was dispatched. -/
theorem Swept.unmoved {steps : List WorkflowStep} {gate gate' : Option WorkflowStep} {s s' : WorkflowState}
    (same : s'.outputs = s.outputs) (waits : Waits d s' gate') (kept : gate.isSome = true → gate'.isSome = true)
    (dispatched : s.dispatched ⊆ s'.dispatched)
    (tasks : ∀ step ∈ steps, s'.ready step = true → step.kind = .task → step.id ∈ s'.dispatched)
    (gates : ∀ step ∈ steps, s'.ready step = true → step.kind = .gate → gate'.isSome = true) :
    Swept d steps gate (gate', false) s s' := by
  have agree : ∀ id, s'.completed id = s.completed id := fun id => by simp only [WorkflowState.completed, same]
  exact ⟨waits, kept, dispatched, fun x done => (agree x).trans done, (absurd · Bool.false_ne_true), fun _ => agree, fun _ => tasks, fun _ => gates⟩

/-- The steps looked at one after the other. -/
theorem Swept.append {steps more : List WorkflowStep} {gate gate₁ gate₂ : Option WorkflowStep} {done₁ done₂ : Bool}
    {s s₁ s₂ : WorkflowState} (first : Swept d steps gate (gate₁, done₁) s s₁)
    (rest : Swept d more gate₁ (gate₂, done₂) s₁ s₂) : Swept d (steps ++ more) gate (gate₂, done₁ || done₂) s s₂ where
  waits := rest.waits
  kept h := rest.kept (first.kept h)
  dispatched := List.Subset.trans first.dispatched rest.dispatched
  grown id done := rest.grown id (first.grown id done)
  fewer h := by
    rcases Bool.or_eq_true_iff.mp h with early | late
    · exact Nat.lt_of_le_of_lt (pending_le rest.grown) (first.fewer early)
    · exact Nat.lt_of_lt_of_le (rest.fewer late) (pending_le first.grown)
  still h id := by
    obtain ⟨none₁, none₂⟩ := Bool.or_eq_false_iff.mp h
    rw [rest.still none₂, first.still none₁]
  tasks h step member ready kind := by
    obtain ⟨none₁, none₂⟩ := Bool.or_eq_false_iff.mp h
    rcases List.mem_append.mp member with early | late
    · rw [ready_congr (rest.still none₂)] at ready
      exact rest.dispatched (first.tasks none₁ step early ready kind)
    · exact rest.tasks none₂ step late ready kind
  gates h step member ready kind := by
    obtain ⟨none₁, none₂⟩ := Bool.or_eq_false_iff.mp h
    rcases List.mem_append.mp member with early | late
    · rw [ready_congr (rest.still none₂)] at ready
      exact rest.kept (first.gates none₁ step early ready kind)
    · exact rest.gates none₂ step late ready kind

theorem ready_iff {s : WorkflowState} {step : WorkflowStep} :
    s.ready step = true ↔ s.completed step.id = false ∧ ∀ dep ∈ step.dependsOn, s.completed dep = true := by
  simp [WorkflowState.ready]

/-- A gate that was waited for is passed: the one to wait for is another. -/
theorem passed_swept {s : WorkflowState} {step : WorkflowStep} {gate : Option WorkflowStep}
    (member : step ∈ d.steps) (open_ : s.completed step.id = false) (waited : step.id ∈ s.gatesWaited)
    (waits : Waits d s gate) (output : Dict String Json) :
    Swept d [step] gate (gate, true) s (s.putOutput step.id output) := by
  have grown : ∀ id, s.completed id = true → (s.putOutput step.id output).completed id = true :=
    fun id done => (completed_putOutput s step.id output id).mpr (.inr done)
  have done : (s.putOutput step.id output).completed step.id = true := (completed_putOutput s step.id output step.id).mpr (.inl rfl)
  refine ⟨fun g found => ?_, id, List.Subset.refl _, grown, fun _ => pending_lt grown member open_ done, nofun, nofun, nofun⟩
  obtain ⟨inside, kind, ready, fresh⟩ := waits g found
  obtain ⟨left, deps⟩ := ready_iff.mp ready
  refine ⟨inside, kind, ready_iff.mpr ⟨?_, fun dep needed => grown dep (deps dep needed)⟩, fresh⟩
  apply Bool.eq_false_iff.mpr
  intro finished
  rcases (completed_putOutput s step.id output g.id).mp finished with same | old
  · exact fresh (same ▸ waited)
  · rw [left] at old
    cases old

/-- What is known of the history while the steps are looked at. -/
def Sees (d : WorkflowDefinition) (info : RunInfo) (g : Watch) (P : WorkflowState → Prop) (work' : Work) (g' : Watch) :
    Prop :=
  Sent d info work' g' ∧ g'.missing = g.missing ∧ P work'.workflow

theorem visit_sweeps {step : WorkflowStep} (member : step ∈ d.steps)
    (queue : step.kind = .task → ex.mode step = "queue") {gate : Option WorkflowStep} {work : Work} {g : Watch}
    (sent : Sent d info work g) (waits : Waits d work.workflow gate) :
    (WorkflowExecutor.visit p ex d info step gate).Follows (watchStage d info) (Calmly fun out =>
      Sees d info g (Swept d [step] gate out work.workflow)) work g := by
  refine Act.follows_get_bind ?_
  simp only
  split
  · next shut =>
      -- completed already, or a dependency is not
      have unready : work.workflow.ready step = false := by
        simp only [WorkflowState.ready, Bool.and_eq_false_iff, Bool.not_eq_false', List.all_eq_false]
        simpa [Bool.or_eq_true, List.any_eq_true] using shut
      refine Act.follows_pure ⟨sent, rfl, Swept.unmoved rfl waits id (List.Subset.refl _) ?_ ?_⟩
      · intro other here ready
        rw [List.mem_singleton.mp here, unready] at ready
        cases ready
      · intro other here ready
        rw [List.mem_singleton.mp here, unready] at ready
        cases ready
  · next open_ =>
      have ready : work.workflow.ready step = true := by
        apply ready_iff.mpr
        simpa [Bool.or_eq_true, List.any_eq_true] using open_
      cases kind : step.kind with
      | gate =>
          simp only
          split
          · next waited =>
              exact Act.follows_modify_bind (Act.follows_pure ⟨sent, rfl,
                passed_swept member (ready_iff.mp ready).1 waited waits _⟩)
          · next fresh =>
              refine Act.follows_pure ⟨sent, rfl, Swept.unmoved rfl ?_ (fun _ => rfl) (List.Subset.refl _) ?_ fun _ _ _ _ => rfl⟩
              · intro other found
                cases gate with
                | none => cases found; exact ⟨member, kind, ready, fresh⟩
                | some first => exact waits other found
              · intro other here _ task
                rw [List.mem_singleton.mp here, kind] at task
                cases task
      | task =>
          refine calmly_bind (runTask_sends (queue kind) sent) ?_
          rintro _ work' g' ⟨rfl, sent', missing, outputs, gates, dispatched, there⟩
          refine Act.follows_pure ⟨sent', missing, Swept.unmoved outputs ?_ id dispatched ?_ ?_⟩
          · intro other found
            obtain ⟨inside, kind, ready, fresh⟩ := waits other found
            have agree : ∀ id, work'.workflow.completed id = work.workflow.completed id :=
              fun id => by simp only [WorkflowState.completed, outputs]
            exact ⟨inside, kind, (ready_congr agree other).trans ready, gates ▸ fresh⟩
          · intro other here _ _
            rw [List.mem_singleton.mp here]
            exact there
          · intro other here _ barrier
            rw [List.mem_singleton.mp here, kind] at barrier
            cases barrier

/-- One pass over the steps. -/
theorem pass_sweeps {steps : List WorkflowStep} (within : ∀ step ∈ steps, step ∈ d.steps)
    (queue : ∀ step ∈ d.steps, step.kind = .task → ex.mode step = "queue") {gate : Option WorkflowStep} {progressed : Bool}
    {work : Work} {g : Watch} (sent : Sent d info work g) (waits : Waits d work.workflow gate) :
    (WorkflowExecutor.pass p ex d info steps gate progressed).Follows (watchStage d info) (Calmly fun out work' g' =>
      ∃ done, out.2 = (progressed || done) ∧ Sees d info g (Swept d steps gate (out.1, done) work.workflow) work' g') work g := by
  induction steps generalizing gate progressed work g with
  | nil =>
      refine Act.follows_pure ⟨false, by simp, sent, rfl, ?_⟩
      exact Swept.unmoved rfl waits (fun there => there) (List.Subset.refl _) nofun nofun
  | cons step steps ih =>
      have here := within step List.mem_cons_self
      refine calmly_bind (visit_sweeps here (queue step here) sent waits) ?_
      rintro ⟨gate₁, done₁⟩ work₁ g₁ ⟨sent₁, missing₁, first⟩
      refine Act.Follows.weaken (ih (fun s member => within s (List.mem_cons_of_mem _ member)) sent₁ first.waits) ?_
      intro r work₂ g₂ rest
      cases r with
      | error e => exact rest
      | ok out =>
          obtain ⟨done₂, flag, sent₂, missing₂, rest⟩ := rest
          exact ⟨done₁ || done₂, by rw [flag, Bool.or_assoc], sent₂, missing₂.trans missing₁, first.append rest⟩

/-- Once a pass completed nothing, every ready task is dispatched, and there is a gate to wait for if one is ready. -/
structure Settles (d : WorkflowDefinition) (s : WorkflowState) (gate : Option WorkflowStep) : Prop where
  waits : Waits d s gate
  tasks : ∀ step ∈ d.steps, s.ready step = true → step.kind = .task → step.id ∈ s.dispatched
  gates : ∀ step ∈ d.steps, s.ready step = true → step.kind = .gate → gate.isSome = true

/-- The passes come to an end before the fuel does: each that goes on completed a step. -/
theorem rounds_settle (queue : ∀ step ∈ d.steps, step.kind = .task → ex.mode step = "queue") {fuel : Nat}
    {gate : Option WorkflowStep} {work : Work} {g : Watch} (enough : d.pending work.workflow < fuel)
    (sent : Sent d info work g) (looked : Looked info d.ids work g) (waits : Waits d work.workflow gate) :
    (WorkflowExecutor.rounds p ex d info fuel gate).Follows (watchStage d info) (Calmly fun gate' work' g' =>
      Sent d info work' g' ∧ Looked info d.ids work' g' ∧ Settles d work'.workflow gate') work g := by
  induction fuel generalizing gate work g with
  | zero => exact absurd enough (Nat.not_lt_zero _)
  | succ fuel ih =>
      refine calmly_bind (pass_sweeps (fun _ => id) queue sent waits) ?_
      rintro ⟨gate₁, progressed⟩ work₁ g₁ ⟨done, flag, sent₁, missing, swept⟩
      have looked₁ : Looked info d.ids work₁ g₁ := fun id member =>
        (looked id member).imp (swept.grown id) fun absent => missing ▸ absent
      simp only [Bool.false_or] at flag
      subst flag
      cases progressed with
      | true => exact ih (Nat.lt_of_lt_of_le (swept.fewer rfl) (Nat.le_of_lt_succ enough)) sent₁ looked₁ swept.waits
      | false => exact Act.follows_pure ⟨sent₁, looked₁, swept.waits, swept.tasks rfl, swept.gates rfl⟩

/-- `datetime` arithmetic raises errors of its own. -/
def Platform.Unwaiting (p : Platform) : Prop := ∀ now delay e, p.later now delay = .error e → e.waits = false

theorem float_unwaiting {value : Json} {e : Exn} (h : p.float value = .error e) : e.waits = false := by
  cases value with
  | str s =>
      simp only [Platform.float] at h
      split at h
      · cases h
      · cases h
        rfl
  | null => cases h; rfl
  | arr xs => cases h; rfl
  | obj f => cases h; rfl
  | bool b => cases h
  | int n =>
      simp only [Platform.float] at h
      split at h
      · cases h
      · cases h
        rfl
  | float x => cases h

theorem calmly_ofExcept {r : Except Exn α} (calm : ∀ e, r = .error e → e.waits = false) {work : Work} {g : Watch} :
    (Act.ofExcept r : StageM α).Follows (watchStage d info) (Calmly fun _ work' g' => work' = work ∧ g' = g) work g := by
  cases r with
  | ok a => exact Act.follows_pure ⟨rfl, rfl⟩
  | error e => exact Act.follows_throw (calm e rfl)

/-- What a gate waits for is only read off. -/
theorem gateCondition_watched (calm : p.Unwaiting) {step : WorkflowStep} {work : Work} {g : Watch} :
    (WorkflowExecutor.gateCondition p info step).Follows (watchStage d info)
      (Calmly fun _ work' g' => work' = work ∧ g' = g) work g := by
  refine Act.follows_get_bind ?_
  simp only
  split
  · exact Act.follows_pure ⟨rfl, rfl⟩
  · split
    · refine calmly_bind (calmly_ofExcept fun e => float_unwaiting) ?_
      rintro delay _ _ ⟨rfl, rfl⟩
      refine calmly_bind (P := fun _ work' g' => work' = _ ∧ g' = _) (calmly_call fun _ => ⟨rfl, rfl⟩) ?_
      rintro now _ _ ⟨rfl, rfl⟩
      refine calmly_bind (calmly_ofExcept (calm now delay)) ?_
      rintro wakeAt _ _ ⟨rfl, rfl⟩
      exact Act.follows_pure ⟨rfl, rfl⟩
    · exact Act.follows_pure ⟨rfl, rfl⟩

theorem Settles.taken {work : Work} {g : Watch} {gate : Option WorkflowStep} (settles : Settles d work.workflow gate)
    (looked : Looked info d.ids work g) : Taken d work.workflow (g.missed info.runId) :=
  ⟨settles.tasks, fun step member => (looked step.id (List.mem_map_of_mem member)).imp_right mem_missed.mpr⟩

/-- With no gate to wait for there is no ready gate. -/
theorem settle_rests {work : Work} {g : Watch} (sent : Sent d info work g) (looked : Looked info d.ids work g)
    (settles : Settles d work.workflow none) :
    (WorkflowExecutor.settle p d).Follows (watchStage d info) (Rests d info) work g := by
  refine Act.follows_get_bind ?_
  simp only
  split
  · exact Act.follows_modify sent
  · split
    · exact Act.follows_throw trivial
    · refine Act.follows_throw ⟨sent, settles.taken looked, fun step member ready kind => ?_⟩
      cases settles.gates step member ready kind

theorem run_rests (calm : p.Unwaiting) (queue : ∀ step ∈ d.steps, step.kind = .task → ex.mode step = "queue") {work : Work}
    {g : Watch} (sent : Sent d info work g) :
    (WorkflowExecutor.run p ex d info).Follows (watchStage d info) (Rests d info) work g := by
  have fails : ∀ {γ : Type} (P : γ → Work → Watch → Prop) (e : Exn) (work : Work) (g : Watch),
      Calmly P (.error e) work g → Rests d info (.error e : Except Exn Unit) work g := by
    intro γ P e work g plain
    exact Rests.of_calmly (P := fun _ _ _ => False) plain nofun
  have refreshed : (WorkflowExecutor.refresh d.steps).Follows (watchStage d info)
      (Calmly fun _ work' g' => Sent d info work' g' ∧ Looked info d.ids work' g') (work.setWorkflow id) g := by
    have none : Looked info [] (work.setWorkflow id) g := nofun
    have started : Sent d info (work.setWorkflow id) g := sent
    exact refresh_looks d.steps started none
  refine Act.follows_modify_bind (Act.follows_bind refreshed ?_ (fails _))
  rintro _ work₁ g₁ ⟨sent₁, looked₁⟩
  have start : d.pending work₁.workflow < d.steps.length + 1 := Nat.lt_succ_of_le List.countP_le_length
  refine Act.follows_bind (rounds_settle queue start sent₁ looked₁ nofun) ?_ (fails _)
  rintro (_ | gate) work₂ g₂ ⟨sent₂, looked₂, settles⟩
  · exact settle_rests sent₂ looked₂ settles
  · refine Act.follows_modify_bind (Act.follows_bind (gateCondition_watched calm) ?_ (fails _))
    rintro condition _ _ ⟨rfl, rfl⟩
    obtain ⟨member, kind, ready, _⟩ := settles.waits gate rfl
    have taken := settles.taken looked₂
    exact Act.follows_throw ⟨sent₂, ⟨taken.tasks, taken.looked⟩, fun _ _ _ _ => ⟨gate, member, ready, kind, rfl⟩⟩

/-- The stage of a workflow of queue tasks and gates. -/
theorem workflowStage_rests (calm : p.Unwaiting) (queue : ∀ step ∈ d.steps, step.kind = .task → ex.mode step = "queue")
    {extra : Dict String Json} {work : Work} {g : Watch} (sent : Sent d info work g) :
    ((workflowStage p ex d extra).execute info).Follows (watchStage d info) (Rests d info) work g := by
  unfold workflowStage
  simp only
  split
  · exact Act.follows_modify_bind (run_rests calm queue sent)
  · exact run_rests calm queue sent

end stage

end Maof
