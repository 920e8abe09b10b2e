import Maof.Effects.Grounds
import Maof.Orchestrator.Discipline
import Maof.Orchestrator.Passage
import Maof.Workflows.StepApproval

/-!
# What the audit trail stands on

The driver tells of a run at its start, after every stage and where a drive leaves. What it tells
has been done by then: the store has answered the write the event is about, and the run is one
that was created for the tenant the event names, by whomever and however often it was resumed.
-/

namespace Maof

open Data (Dict)
open Effects (Act Prog Protocol Machine Pool Label Event Recorded Founded Supported)

namespace Audit

/-- A call that answered. -/
abbrev did (op : Op) (a : op.Ans) : Event RunSig := ⟨op, .ok a⟩

/-- The context is that of a run the process created, or one it loaded. -/
def Known (g : List (Event RunSig)) (info : RunInfo) : Prop :=
  did (.create info.tenant info.goal) info.runId ∈ g ∨
    ∃ blob work, did (.load info.runId) (some blob) ∈ g ∧ checkpointDeserialize blob = .ok ⟨info, work⟩

/-- The stage was written to the trace, or had been completed in what was loaded. -/
def Passed (g : List (Event RunSig)) (runId : RunId) (name : String) : Prop :=
  did (.appendTrace runId { kind := name, step := some name }) () ∈ g ∨
    ∃ blob sc, did (.load runId) (some blob) ∈ g ∧ checkpointDeserialize blob = .ok sc ∧
      name ∈ sc.work.extras.completedStages.getD []

/-- The context is saved where there is a checkpointer. -/
def saving (l1 : DefaultL1) (sc : StageContext) (label : String) : List (Event RunSig) :=
  if l1.checkpointer then [did (.save sc.info.runId label (checkpointSerialize sc)) ()] else []

/-- What parks a run: its checkpoint, its wakeup, and only then its status. -/
def parking (l1 : DefaultL1) (sc : StageContext) (condition : WakeCondition) (gate : Option StepId) : List (Event RunSig) :=
  saving l1 sc ("waiting:" ++ condition.kind.value) ++
    (if l1.waker then [did (.schedule sc.info.runId condition gate) ()] else []) ++ [did (.setState sc.info.runId .waiting) ()]

/-- The events of the driver about a context, each with the calls it stands on. -/
inductive Told (l1 : DefaultL1) (g : List (Event RunSig)) (info : RunInfo) (work : Work) : AuditEvent → Prop
  | started : did (.create info.tenant info.goal) info.runId ∈ g →
      Told l1 g info work (DefaultL1.auditEvent info work "run_started" [("goal", .str info.goal)])
  | resumed {blob : Json} : did (.load info.runId) (some blob) ∈ g → checkpointDeserialize blob = .ok ⟨info, work⟩ →
      Told l1 g info work (DefaultL1.auditEvent info work "run_resumed" [])
  | checkpointed {stage : PipelineStage} : stage ∈ l1.pipeline → stage.name ∈ work.extras.completedStages.getD [] →
      (saving l1 ⟨info, work⟩ stage.name).Sublist g →
      Told l1 g info work (DefaultL1.auditEvent info work "run_checkpointed" [("step", .str stage.name)])
  | waiting {condition : WakeCondition} {gate : Option StepId} : (parking l1 ⟨info, work⟩ condition gate).Sublist g →
      Told l1 g info work (DefaultL1.auditEvent info work "run_waiting" [("condition", .str condition.kind.value)])
  | cancelled {state : RunState} : (state.cancelRequested || decide (state.status = .cancelled)) = true →
      [did (.getState info.runId) state, did (.setState info.runId .cancelled) ()].Sublist g →
      Told l1 g info work (DefaultL1.auditEvent info work "run_cancelled" [])
  | failed {reason kind : String} : kind = "policy_denied" ∨ kind = "approval_denied" →
      did (.setState info.runId .failed) () ∈ g →
      Told l1 g info work (DefaultL1.auditEvent info work "run_failed" [("reason", .str reason), ("kind", .str kind)])
  | completed : (∀ stage ∈ l1.pipeline, Passed g info.runId stage.name) → did (.setState info.runId .completed) () ∈ g →
      Told l1 g info work (DefaultL1.auditEvent info work "run_completed" [])

/-- The run was created for this tenant. -/
def Created (g : List (Event RunSig)) (info : RunInfo) : Prop := did (.create info.tenant info.goal) info.runId ∈ g

section grounds

variable {g g' : List (Event RunSig)} {info : RunInfo} {work : Work} {l1 : DefaultL1} {event : AuditEvent}

theorem Known.mono (known : Known g info) (more : g.Sublist g') : Known g' info := by
  rcases known with created | ⟨blob, work, loaded, read⟩
  · exact .inl (more.subset created)
  · exact .inr ⟨blob, work, more.subset loaded, read⟩

theorem Passed.mono {runId : RunId} {name : String} (passed : Passed g runId name) (more : g.Sublist g') :
    Passed g' runId name := by
  rcases passed with traced | ⟨blob, sc, loaded, read⟩
  · exact .inl (more.subset traced)
  · exact .inr ⟨blob, sc, more.subset loaded, read⟩

theorem Told.mono (told : Told l1 g info work event) (more : g.Sublist g') : Told l1 g' info work event := by
  cases told with
  | started created => exact .started (more.subset created)
  | resumed loaded read => exact .resumed (more.subset loaded) read
  | checkpointed member completed saved => exact .checkpointed member completed (saved.trans more)
  | waiting parked => exact .waiting (parked.trans more)
  | cancelled found left => exact .cancelled found (left.trans more)
  | failed kind written => exact .failed kind (more.subset written)
  | completed passed written => exact .completed (fun stage member => (passed stage member).mono more) (more.subset written)

theorem Told.eq_auditEvent (told : Told l1 g info work event) : ∃ eventType details,
    event = DefaultL1.auditEvent info work eventType details := by
  cases told <;> exact ⟨_, _, rfl⟩

/-- An event stands on what it tells; a save, on where its context is from. -/
def grounds (l1 : DefaultL1) (g : List (Event RunSig)) : Op → Prop
  | .emit event => ∃ info work, Known g info ∧ Told l1 g info work event
  | .save runId _ blob => ∃ sc : StageContext, sc.info.runId = runId ∧ blob = checkpointSerialize sc ∧ Known g sc.info
  | _ => True

/-- What is loaded of a run is a context of it. -/
def answers : (op : Op) → Except Exn op.Ans → Prop
  | .load r, reply => ∀ blob, reply = .ok (some blob) → runOf blob = some r
  | _, _ => True

theorem grounds_mono {op : Op} (more : g.Sublist g') (reasons : grounds l1 g op) : grounds l1 g' op := by
  cases op with
  | emit event =>
      obtain ⟨info, work, known, told⟩ := reasons
      exact ⟨info, work, known.mono more, told.mono more⟩
  | save runId label blob =>
      obtain ⟨sc, mine, same, known⟩ := reasons
      exact ⟨sc, mine, same, known.mono more⟩
  | _ => trivial

theorem run_eq_of_runOf {blob : Json} {runId : RunId} {sc : StageContext} (mine : runOf blob = some runId)
    (read : checkpointDeserialize blob = .ok sc) : sc.info.runId = runId := by
  rw [runOf, read] at mine
  exact Option.some.inj mine

end grounds

/-! ## What a drive tells -/

section drive

variable {l1 : DefaultL1} {info : RunInfo} {work : Work} {g : List (Event RunSig)}

abbrev protocol (l1 : DefaultL1) : Protocol RunSig (List (Event RunSig)) := .grounded (grounds l1) answers

/-- Nothing but calls was added, and the record is as it was. -/
def Added {σ α : Type} (s : σ) (g : List (Event RunSig)) (_ : Except Exn α) (s' : σ) (g' : List (Event RunSig)) : Prop :=
  s' = s ∧ g <+: g'

theorem emit_told {eventType : String} {details : Dict String Json} (known : Known g info)
    (told : Told l1 g info work (DefaultL1.auditEvent info work eventType details)) :
    (l1.emit info eventType details).Follows (protocol l1) (Added work g) work g := by
  have stands : grounds l1 g (.emit (DefaultL1.auditEvent info work eventType details)) := ⟨info, work, known, told⟩
  unfold DefaultL1.emit
  split
  · refine Act.follows_get_bind (Act.follows_await (S := RunSig) stands fun r _ => ?_)
    exact ⟨rfl, List.prefix_append _ _⟩
  · exact Act.follows_pure ⟨rfl, List.prefix_refl g⟩

theorem save_known {label : String} (known : Known g info) :
    (l1.save info label).Follows (protocol l1) (fun r work' g' => work' = work ∧ g <+: g' ∧
      ∀ a, r = .ok a → g' = g ++ saving l1 ⟨info, work⟩ label) work g := by
  have stands : grounds l1 g (.save info.runId label (checkpointSerialize ⟨info, work⟩)) := ⟨⟨info, work⟩, rfl, rfl, known⟩
  unfold DefaultL1.save saving
  split
  · refine Act.follows_get_bind ⟨stands, fun r _ => ⟨rfl, List.prefix_append _ _, ?_⟩⟩
    rintro _ rfl
    rfl
  · refine Act.follows_pure ⟨rfl, List.prefix_refl g, fun _ _ => ?_⟩
    rw [List.append_nil]

/-- The status a drive leaves with is written, and then told of. -/
theorem leave_told {status : RunStatus} {eventType : String} {details : Dict String Json}
    {out : Work → OrchestrationResult} (known : Known g info)
    (told : Told l1 (g ++ [did (.setState info.runId status) ()]) info work (DefaultL1.auditEvent info work eventType details)) :
    (do DefaultL1.setStatus info status
        l1.emit info eventType details
        let work ← Act.get
        return out work : DriverM OrchestrationResult).Follows (protocol l1) (fun _ _ g' => g <+: g') work g := by
  refine Act.follows_await_bind (S := RunSig) trivial (fun _ _ => ?_) fun _ _ => List.prefix_append _ _
  have known' : Known (g ++ [did (.setState info.runId status) ()]) info := known.mono (List.sublist_append_left _ _)
  refine Act.follows_bind (emit_told known' told) ?_ fun _ _ _ added => (List.prefix_append _ _).trans added.2
  rintro _ _ g' ⟨rfl, later⟩
  exact Act.follows_get_bind (Act.follows_pure ((List.prefix_append _ _).trans later))

theorem leaveCancelled_told {state : RunState} (known : Known g info)
    (found : (state.cancelRequested || decide (state.status = .cancelled)) = true)
    (read : did (.getState info.runId) state ∈ g) :
    (l1.leaveCancelled info).Follows (protocol l1) (fun _ _ g' => g <+: g') work g := by
  refine leave_told known (.cancelled found ?_)
  exact (List.singleton_sublist.mpr read).append (List.Sublist.refl [did (.setState info.runId .cancelled) ()])

theorem fail_told {status kind reason : String} (known : Known g info)
    (kinds : kind = "policy_denied" ∨ kind = "approval_denied") :
    (l1.fail info status kind reason).Follows (protocol l1) (fun _ _ _ => True) work g := by
  refine Act.Follows.weaken (leave_told known (.failed kinds ?_)) fun _ _ _ _ => trivial
  exact List.mem_append_right _ (List.mem_singleton_self _)

/-- The run is parked before it is told to wait. -/
theorem park_told {condition : WakeCondition} {gate : Option StepId} (known : Known g info) :
    (l1.park info condition gate).Follows (protocol l1) (fun _ _ _ => True) work g := by
  refine Act.follows_bind (save_known known) ?_ fun _ _ _ _ => trivial
  rintro _ work _ ⟨rfl, later, saved⟩
  obtain rfl := saved _ rfl
  have leave : ∀ scheduled : List (Event RunSig),
      scheduled = (if l1.waker then [did (.schedule info.runId condition gate) ()] else []) →
      (do DefaultL1.setStatus info .waiting
          l1.emit info "run_waiting" [("condition", .str condition.kind.value)]
          let work ← Act.get
          return DefaultL1.result info work "waiting" ("waiting on " ++ condition.kind.value) [] :
            DriverM OrchestrationResult).Follows (protocol l1) (fun _ _ _ => True) work
        (g ++ saving l1 ⟨info, work⟩ ("waiting:" ++ condition.kind.value) ++ scheduled) := by
    rintro scheduled rfl
    have known' := (known.mono later.sublist).mono (List.sublist_append_left _
      (if l1.waker then [did (.schedule info.runId condition gate) ()] else []))
    have parked : (parking l1 ⟨info, work⟩ condition gate).Sublist (g ++ saving l1 ⟨info, work⟩ ("waiting:" ++ condition.kind.value) ++
        (if l1.waker then [did (.schedule info.runId condition gate) ()] else []) ++ [did (.setState info.runId .waiting) ()]) := by
      rw [parking, List.append_assoc g, List.append_assoc g]
      exact List.sublist_append_right _ _
    exact Act.Follows.weaken (leave_told known' (.waiting parked)) fun _ _ _ _ => trivial
  split
  · next wakes =>
      refine Act.follows_await_bind (S := RunSig) trivial (fun _ _ => ?_) fun _ _ => trivial
      exact leave _ (if_pos wakes).symm
  · next asleep =>
      have parked := leave [] (if_neg asleep).symm
      rwa [List.append_nil] at parked

/-- What is added to the record of a run's stage, where it answers. -/
theorem executed_told {stage : PipelineStage} {completed : List String} (member : stage ∈ l1.pipeline)
    (among : stage.name ∈ completed) (known : Known g info) :
    (l1.executed info stage completed).Follows (protocol l1) (fun r _ g' => g <+: g' ∧
      ∀ a, r = .ok a → Passed g' info.runId stage.name) work g := by
  have uses : (liftStage info (stage.execute info)).Uses fun op => ∃ so, op = Op.stage info so :=
    fun _ => Prog.Uses.lift (Prog.Uses.all (fun so => ⟨so, rfl⟩) _)
  have calls : (liftStage info (stage.execute info)).Follows (protocol l1) (fun _ _ g' => g <+: g') work g := by
    refine Prog.Follows.ofFree (uses work) ?_ g
    rintro _ _ ⟨so, rfl⟩
    trivial
  refine Act.follows_bind calls (fun _ work₁ g₁ first => ?_) fun _ _ _ later => ⟨later, fun _ h => by cases h⟩
  refine Act.follows_modify_bind (Act.follows_bind (save_known (known.mono first.sublist)) ?_ ?_)
  · rintro _ _ _ ⟨rfl, later, saved⟩
    obtain rfl := saved _ rfl
    have known' := known.mono (first.trans later).sublist
    refine Act.follows_bind (emit_told known' (.checkpointed member ?_ (List.sublist_append_right _ _))) ?_ ?_
    · exact (List.mem_insertionSort _).mpr among
    · rintro _ _ g₂ ⟨rfl, told⟩
      have grown := (first.trans later).trans told
      refine ⟨trivial, fun r _ => ⟨grown.trans (List.prefix_append _ _), ?_⟩⟩
      rintro _ rfl
      exact .inl (List.mem_append_right _ (List.mem_singleton_self _))
    · exact fun _ _ _ added => ⟨(first.trans later).trans added.2, fun _ h => by cases h⟩
  · exact fun _ _ _ added => ⟨first.trans added.2.1, fun _ h => by cases h⟩

theorem runStage_told {stage : PipelineStage} {completed : List String} (member : stage ∈ l1.pipeline)
    (among : stage.name ∈ completed) (known : Known g info) :
    (l1.runStage info stage completed).Follows (protocol l1) (fun r _ g' => g <+: g' ∧
      ∀ a, r = .ok a → Passed g' info.runId stage.name) work g := by
  rw [DefaultL1.runStage_eq]
  split
  · exact Act.follows_modify_bind (executed_told member among known)
  · exact executed_told member among known

/-- The stages that are left: where none stopped the drive, all have been passed. -/
theorem stages_told {stages : List PipelineStage} {completed : List String} (inside : ∀ stage ∈ stages, stage ∈ l1.pipeline)
    (known : Known g info) (passed : ∀ name ∈ completed, Passed g info.runId name) :
    (l1.stages info stages completed).Follows (protocol l1) (fun r _ g' => g <+: g' ∧
      (r = .ok none → ∀ stage ∈ stages, Passed g' info.runId stage.name)) work g := by
  induction stages generalizing completed work g with
  | nil => exact Act.follows_pure ⟨List.prefix_refl g, fun _ _ none => (List.not_mem_nil none).elim⟩
  | cons stage stages ih =>
      have member := inside stage List.mem_cons_self
      have rest := fun s there => inside s (List.mem_cons_of_mem stage there)
      simp only [DefaultL1.stages]
      split
      · next skipped =>
          refine Act.Follows.weaken (ih rest known passed) ?_
          rintro _ _ g' ⟨later, all⟩
          refine ⟨later, fun ended s there => ?_⟩
          rcases List.mem_cons.mp there with rfl | there
          · exact (passed _ skipped).mono later.sublist
          · exact all ended s there
      · refine Act.follows_bind (Q := fun r s' g' => s' = work ∧ g <+: g' ∧ ∀ c, r = .ok c → ∃ state : RunState,
            c = (state.cancelRequested || decide (state.status = .cancelled)) ∧ did (.getState info.runId) state ∈ g') ?_ ?_
          fun _ _ _ asked => ⟨asked.2.1, fun ended => by cases ended⟩
        · refine Act.follows_await_bind (S := RunSig) trivial (fun state _ => ?_) fun _ _ => ⟨rfl, List.prefix_append _ _, fun _ ended => by cases ended⟩
          refine Act.follows_pure ⟨rfl, List.prefix_append _ _, ?_⟩
          rintro _ ⟨⟩
          exact ⟨state, rfl, List.mem_append_right _ (List.mem_singleton_self _)⟩
        · rintro cancelled _ g₁ ⟨rfl, asked, found⟩
          obtain ⟨state, same, read⟩ := found _ rfl
          have known₁ := known.mono asked.sublist
          cases cancelled with
          | true =>
              refine Act.follows_bind (leaveCancelled_told known₁ same.symm read) ?_ fun _ _ _ later => ⟨asked.trans later, fun ended => by cases ended⟩
              exact fun out _ _ later => Act.follows_pure ⟨asked.trans later, fun ended => by cases ended⟩
          | false =>
              have among : stage.name ∈ completed ++ [stage.name] := List.mem_append_right _ (List.mem_singleton_self _)
              refine Act.follows_bind (runStage_told member among known₁) ?_ fun _ _ _ ran => ⟨asked.trans ran.1, fun ended => by cases ended⟩
              rintro _ _ g₂ ⟨ran, mine⟩
              have here := mine _ rfl
              refine Act.Follows.weaken (ih rest (known₁.mono ran.sublist) ?_) ?_
              · intro name there
                rcases List.mem_append.mp there with old | new
                · exact (passed name old).mono (asked.trans ran).sublist
                · rwa [List.mem_singleton.mp new]
              · rintro _ _ g₃ ⟨later, all⟩
                refine ⟨(asked.trans ran).trans later, fun ended s there => ?_⟩
                rcases List.mem_cons.mp there with rfl | there
                · exact here.mono later.sublist
                · exact all ended s there

theorem handler_told (e : Exn) (known : Known g info) :
    (l1.leave info e).Follows (protocol l1) (fun r _ _ => r ≠ .ok none) work g := by
  have answer : ∀ {m : DriverM OrchestrationResult}, m.Follows (protocol l1) (fun _ _ _ => True) work g →
      (do return some (← m) : DriverM (Option OrchestrationResult)).Follows (protocol l1) (fun r _ _ => r ≠ .ok none) work g :=
    fun follows => Act.follows_bind follows (fun _ _ _ _ => Act.follows_pure fun ended => by cases ended) fun _ _ _ _ ended => by cases ended
  cases e with
  | needsWait condition gate => exact answer (park_told known)
  | policyDenied reason => exact answer (fail_told known (.inl rfl))
  | approvalRequired reason => exact answer (fail_told known (.inr rfl))
  | _ => exact Act.follows_throw fun ended => by cases ended

/-- A drive of a known context tells what it did. -/
theorem drive_told (known : Known g info)
    (passed : ∀ name ∈ work.extras.completedStages.getD [], Passed g info.runId name) :
    (l1.drive info).Follows (protocol l1) (fun _ _ _ => True) work g := by
  refine Act.follows_get_bind (Act.follows_await_bind (S := RunSig) trivial (fun _ _ => ?_) fun _ _ => trivial)
  have later : g.Sublist (g ++ [did (.setState info.runId .running) ()]) := List.sublist_append_left _ _
  refine Act.follows_bind (Q := fun r _ g' => r = .ok none → Known g' info ∧ ∀ stage ∈ l1.pipeline, Passed g' info.runId stage.name)
    (Act.follows_tryCatch (stages_told (fun _ member => member) (known.mono later)
      fun name there => (passed name (List.mem_dedup.mp there)).mono later) ?_ ?_) ?_ fun _ _ _ _ => trivial
  · exact fun out _ _ ended same => ⟨(known.mono later).mono ended.1.sublist, ended.2 same⟩
  · exact fun e _ _ ended => Act.Follows.weaken (handler_told e ((known.mono later).mono ended.1.sublist))
      fun _ _ _ other same => (other same).elim
  · intro out work' g' ended
    cases out with
    | some out => exact Act.follows_pure trivial
    | none =>
        obtain ⟨known', all⟩ := ended rfl
        refine Act.Follows.weaken (leave_told known' (.completed (fun stage member => ?_) ?_)) fun _ _ _ _ => trivial
        · exact (all stage member).mono (List.sublist_append_left _ _)
        · exact List.mem_append_right _ (List.mem_singleton_self _)

end drive

/-! ## What any process tells -/

section programs

variable {l1 : DefaultL1}

/-- The event that opens a drive, and the drive. -/
theorem context_told {sc : StageContext} {eventType : String} {details : Dict String Json} {g : List (Event RunSig)}
    (known : Known g sc.info) (told : Told l1 g sc.info sc.work (DefaultL1.auditEvent sc.info sc.work eventType details))
    (passed : ∀ name ∈ sc.work.extras.completedStages.getD [], Passed g sc.info.runId name) :
    (do l1.emitFor sc eventType details
        l1.driveFrom sc : Act RunSig Unit OrchestrationResult).Follows (protocol l1) (fun _ _ _ => True) () g := by
  have opened : (l1.emitFor sc eventType details).Follows (protocol l1) (fun _ _ g' => g <+: g') () g :=
    Prog.Follows.bind (emit_told known told) fun _ _ added => added.2
  refine Act.follows_bind opened (fun _ _ g' later => ?_) fun _ _ _ _ => trivial
  exact Prog.Follows.bind (drive_told (known.mono later.sublist) fun name there => (passed name there).mono later.sublist)
    fun _ _ _ => trivial

theorem run_told (goal : String) (tenant : TenantContext) (principal : Option Principal) :
    Ever (protocol l1) (l1.run goal tenant principal) := by
  intro g
  refine Act.follows_await_bind (S := RunSig) trivial (fun runId _ => ?_) fun _ _ => trivial
  have created : did (.create tenant goal) runId ∈ g ++ [did (.create tenant goal) runId] :=
    List.mem_append_right _ (List.mem_singleton_self _)
  exact context_told (.inl created) (.started created) fun _ none => (List.not_mem_nil none).elim

theorem resumeRun_told (runId : RunId) : Ever (protocol l1) (l1.resumeRun runId) := by
  intro g
  unfold DefaultL1.resumeRun
  split
  · exact Act.follows_throw trivial
  · refine Act.follows_await_bind (S := RunSig) trivial (fun found mine => ?_) fun _ _ => trivial
    cases found with
    | none => exact Act.follows_throw trivial
    | some blob =>
        have loaded : did (.load runId) (some blob) ∈ g ++ [did (.load runId) (some blob)] :=
          List.mem_append_right _ (List.mem_singleton_self _)
        cases read : checkpointDeserialize blob with
        | error e =>
            simp only [read, Act.ofExcept]
            exact Act.follows_throw trivial
        | ok sc =>
            simp only [read, Act.ofExcept]
            obtain rfl := run_eq_of_runOf (mine blob rfl) read
            refine Act.follows_pure_bind (context_told (.inr ⟨blob, sc.work, loaded, read⟩) (.resumed loaded read) ?_)
            exact fun name there => .inr ⟨blob, sc, loaded, read, there⟩

/-- Every process of the orchestrator keeps to its grounds. -/
theorem program_told (o : Orchestrator) (a : Actor) (g : List (Event RunSig)) :
    (o.program a).Follows (protocol o.l1) (fun _ _ => True) g := by
  refine program_ever (fun g op outside => ?_) resumeRun_told rfl run_told a g
  cases op with
  | emit event => cases outside
  | save runId label blob => cases outside
  | _ => trivial

end programs

/-! ## Where a context is from -/

section record

variable {o : Orchestrator}

theorem grounding (o : Orchestrator) : Machine.Grounding o.untracked (grounds o.l1) answers World.Named where
  mono := grounds_mono
  starts a := program_told o a []
  answered c op named := by
    cases op with
    | load r => exact World.perform_answers named (.load r)
    | _ => trivial
  called c op named reasons := by
    refine World.perform_named named ?_
    rintro r label blob rfl
    obtain ⟨sc, rfl, rfl, _⟩ := reasons
    exact runOf_serialize sc
  alone e named := by cases e <;> exact named

/-- What is loaded had been saved. -/
def Loads (before : List (Event RunSig)) (e : Event RunSig) : Prop :=
  ∀ r blob, e = did (.load r) (some blob) → ∃ label reply, ⟨.save r label blob, reply⟩ ∈ before

/-- The record of a run knows where its checkpoints and its events are from. -/
structure Logged (q : Pool RunSig (Recorded RunSig World) Unit) : Prop where
  kept : ∀ r label blob, q.world.world.checkpoints r = some (label, blob) → ∃ reply, ⟨.save r label blob, reply⟩ ∈ q.world.log
  loaded : Founded Loads q.world.log
  events : ∀ event ∈ q.world.world.events, ∃ reply, ⟨.emit event, reply⟩ ∈ q.world.log

/-- A load that answers gives what is kept. -/
theorem loads_kept {dep : Deployment} {c : Choice} {w : World} {r : RunId} {blob : Json}
    (found : (World.perform dep c w (.load r)).2 = .ok (some blob)) : ∃ label, w.checkpoints r = some (label, blob) := by
  unfold World.perform at found
  split at found
  · simp only [World.effect, Except.ok.injEq, Option.map_eq_some_iff] at found
    obtain ⟨⟨label, kept⟩, there, rfl⟩ := found
    exact ⟨label, there⟩
  all_goals cases found

theorem Logged.step {q q' : Pool RunSig (Recorded RunSig World) Unit} {l : Label Choice Actor EnvMove} (logged : Logged q)
    (h : o.untracked.recorded.step q l = some q') : Logged q' := by
  rcases Machine.step_cases h with ⟨a, rfl, rfl⟩ | ⟨i, c, op, k, g, rfl, found, rfl⟩ | ⟨i, b, rfl, found, rfl⟩ | ⟨e, rfl, rfl⟩
  · exact ⟨logged.kept, logged.loaded, logged.events⟩
  · refine ⟨fun r label blob there => ?_, logged.loaded.snoc ?_, fun event there => ?_⟩
    · rcases World.checkpoints_from there with old | rfl
      · obtain ⟨reply, member⟩ := logged.kept r label blob old
        exact ⟨reply, List.mem_append_left _ member⟩
      · exact ⟨_, List.mem_append_right _ (List.mem_singleton_self _)⟩
    · rintro r blob same
      obtain ⟨rfl, answered⟩ := Event.mk.inj same
      obtain ⟨label, there⟩ := loads_kept (eq_of_heq answered)
      obtain ⟨reply, member⟩ := logged.kept r label blob there
      exact ⟨label, reply, member⟩
    · rcases World.events_from there with old | rfl
      · obtain ⟨reply, member⟩ := logged.events event old
        exact ⟨reply, List.mem_append_left _ member⟩
      · exact ⟨_, List.mem_append_right _ (List.mem_singleton_self _)⟩
  · exact ⟨logged.kept, logged.loaded, logged.events⟩
  · cases e <;> exact ⟨logged.kept, logged.loaded, logged.events⟩

/-- However often its context was saved and loaded, a run that is known was created. -/
theorem created_of_known {l1 : DefaultL1} {log : List (Event RunSig)} (grounded : Supported (grounds l1) log)
    (loaded : Founded Loads log) {part : List (Event RunSig)} (inside : part <+: log) {info : RunInfo} (known : Known part info) :
    Created part info := by
  induction n : part.length using Nat.strong_induction_on generalizing part info with
  | _ n ih =>
      subst n
      rcases known with created | ⟨blob, work, load, read⟩
      · exact created
      · obtain ⟨before, after, rfl, source⟩ := loaded.of_mem inside load
        obtain ⟨label, reply, saved⟩ := source _ _ rfl
        have earlier : before <+: log := (List.prefix_append _ _).trans inside
        obtain ⟨first, rest, rfl, sc, -, rfl, known⟩ := grounded.of_mem earlier saved
        rw [deserialize_serialize] at read
        cases read
        have created : Created first sc.info :=
          ih first.length (by simp only [List.length_append, List.length_cons]; omega) ((List.prefix_append _ _).trans earlier) known rfl
        exact List.mem_append_left _ (List.mem_append_left _ created)

end record

/-- An event that is told of a run that was created for its tenant, on the calls that were made by then. -/
def Vouched (l1 : DefaultL1) (before : List (Event RunSig)) (event : AuditEvent) : Prop :=
  ∃ info work, Told l1 before info work event ∧ Created before info ∧ event.tenantId = info.tenant.tenantId ∧
    event.envelope = [("run_id", .str info.runId)]

end Audit

open Audit

/-- Whatever fails, whoever dies and however runs are interleaved: the audit trail of the driver has only events that were
told, and every one was told when the store had answered what it tells, of a run created for the tenant it names. -/
theorem audit_sound (o : Orchestrator) (registry : List RegistryEntry) (rulesets : String → String → Option LoadedRuleset)
    (clock : Int) {q : Pool RunSig (Recorded RunSig World) Unit} (run : Machine.Run o.untracked.recorded (fun _ _ => true)
      (Orchestrator.unwritten (World.fresh registry rulesets clock)) q) :
    (∀ event ∈ q.world.world.events, ∃ reply, ⟨.emit event, reply⟩ ∈ q.world.log) ∧
      ∀ before event reply after, q.world.log = before ++ ⟨.emit event, reply⟩ :: after → Vouched o.l1 before event := by
  have grounded : Supported (grounds o.l1) q.world.log :=
    Machine.Run.grounded (grounding o) (fun _ _ _ none => by cases none) run
  have logged : Logged q := by
    refine Machine.Run.invariant run ⟨?_, Effects.founded_nil, ?_⟩ fun _ _ _ logged _ step => logged.step step
    · exact fun _ _ _ none => by cases none
    · exact fun _ none => (List.not_mem_nil none).elim
  refine ⟨logged.events, fun before event reply after whole => ?_⟩
  obtain ⟨info, work, known, told⟩ := grounded before ⟨.emit event, reply⟩ after whole
  have inside : before <+: q.world.log := whole ▸ List.prefix_append _ _
  obtain ⟨eventType, details, rfl⟩ := told.eq_auditEvent
  exact ⟨info, work, told, created_of_known grounded logged.loaded inside known, rfl, rfl⟩

open Sample in
/-- A run that parks, is resumed by its result and completes. -/
theorem audit_sound_completed : ∃ q : Pool RunSig (Recorded RunSig World) Unit,
    (q.world.world.events.map AuditEvent.eventType = ["run_started", "run_waiting", "run_resumed", "run_checkpointed", "run_completed"]) ∧
      ∀ before event reply after, q.world.log = before ++ ⟨.emit event, reply⟩ :: after →
        Vouched (orchestrator single).l1 before event := by
  obtain ⟨q, run, met⟩ := Machine.follow_any (orchestrator single).untracked.recorded (fun _ _ => true)
    (Orchestrator.unwritten (World.fresh [] (fun _ _ => none) 0))
    ([.spawn (.run "g" tenant none)] ++ calls 0 12 ++ [.spawn (.handle (resultOf "a"))] ++ calls 1 12)
    (fun q => decide (q.world.world.events.map AuditEvent.eventType =
      ["run_started", "run_waiting", "run_resumed", "run_checkpointed", "run_completed"])) (by decide +kernel)
  exact ⟨q, of_decide_eq_true met, (audit_sound (orchestrator single) [] (fun _ _ => none) 0 run).2⟩

end Maof
