import Maof.Effects.Ghost
import Maof.Orchestrator.Outcomes
import Maof.Workflows.Writes

/-!
# Which stages a run has executed

The driver records its progress as a set of names. As long as no two stages
share a name, and no stage writes that set, the set names a prefix of the
pipeline in every checkpoint, whatever fails and wherever a process dies.
-/

namespace Maof

open Effects (Act Prog Noted)

/-! ## The driver, with notes -/

/-- What is told of the stages of a run, by their places in the pipeline: one was started, one
returned, and a checkpoint was written with these names. -/
inductive Milestone where
  | started (i : Nat)
  | returned (i : Nat)
  | saved (names : List String)
deriving DecidableEq

abbrev NotedSig : Effects.Sig := Effects.Sig.noted RunSig Milestone

/-- The driver's calls among notes. -/
abbrev quietly {σ α : Type} (m : Act RunSig σ α) : Act NotedSig σ α := m.silent Milestone

namespace DefaultL1

variable (l1 : DefaultL1) (info : RunInfo)

/-- `runStage` of the stage at a place. -/
def runStageNoted (i : Nat) (stage : PipelineStage) (completed : List String) : Act NotedSig Work Unit := do
  match Stage.ofValue? stage.name with
  | some s => Act.modify fun work => { work with stage := s }
  | none => pure ()
  Act.note (.started i)
  quietly (liftStage info (stage.execute info))
  Act.note (.returned i)
  Act.modify fun work => { work with extras := { work.extras with
    completedStages := some (WorkflowExecutor.sortedNames completed) } }
  quietly (save l1 info stage.name)
  quietly (emit l1 info "run_checkpointed" [("step", .str stage.name)])
  quietly (runCall (.appendTrace info.runId { kind := stage.name, step := some stage.name }))

def stagesNoted : List PipelineStage → Nat → List String → Act NotedSig Work (Option OrchestrationResult)
  | [], _, _ => return none
  | stage :: rest, i, completed => do
      if stage.name ∈ completed then
        stagesNoted rest (i + 1) completed
      else if ← quietly (cancelled info) then
        return some (← quietly (leaveCancelled l1 info))
      else
        runStageNoted l1 info i stage (completed ++ [stage.name])
        stagesNoted rest (i + 1) (completed ++ [stage.name])

def driveNoted : Act NotedSig Work OrchestrationResult := do
  let completed := ((← Act.get).extras.completedStages.getD []).dedup
  quietly (setStatus info .running)
  match ← (stagesNoted l1 info l1.pipeline 0 completed).tryCatch fun e => quietly (leave l1 info e) with
  | some out => return out
  | none => quietly (complete l1 info)

def driveFromNoted (sc : StageContext) : Act NotedSig Unit OrchestrationResult := fun s =>
  (driveNoted l1 sc.info sc.work).bind fun out => .ret (out.1, s)

def runNoted (goal : String) (tenant : TenantContext) (principal : Option Principal) :
    Act NotedSig Unit OrchestrationResult := do
  let runId ← quietly (runCall (.create tenant goal))
  let sc := StageContext.initial { runId, tenant, goal, principal }
  quietly (emitFor l1 sc "run_started" [("goal", .str goal)])
  driveFromNoted l1 sc

def resumeRunNoted (runId : RunId) : Act NotedSig Unit OrchestrationResult := do
  if !l1.checkpointer then
    Act.throw (.runtime "cannot resume without a checkpointer")
  else
    match ← quietly (runCall (.load runId)) with
    | none => Act.throw (.keyError ("no checkpoint for run '" ++ runId ++ "'"))
    | some blob => do
        let sc ← quietly (Act.ofExcept (S := RunSig) (checkpointDeserialize blob))
        quietly (emitFor l1 sc "run_resumed" [])
        driveFromNoted l1 sc

section forget

variable {l1 info}

theorem forget_runStage {i : Nat} {stage : PipelineStage} {completed : List String} :
    (l1.runStageNoted info i stage completed).forget = l1.runStage info stage completed := by
  unfold runStageNoted runStage
  cases Stage.ofValue? stage.name with
  | none => simp only [Act.forget_bind, Act.forget_silent, Act.forget_note, Act.forget_modify, Act.pure_bind]
  | some s => simp only [Act.forget_bind, Act.forget_silent, Act.forget_note, Act.forget_modify, Act.pure_bind]

theorem forget_stages {stages : List PipelineStage} {i : Nat} {completed : List String} :
    (l1.stagesNoted info stages i completed).forget = l1.stages info stages completed := by
  induction stages generalizing i completed with
  | nil => rfl
  | cons stage stages ih =>
      rw [stagesNoted, DefaultL1.stages]
      by_cases skipped : stage.name ∈ completed
      · rw [if_pos skipped, if_pos skipped]
        exact ih
      · rw [if_neg skipped, if_neg skipped, Act.forget_bind, Act.forget_silent]
        apply congrArg (cancelled info >>= ·)
        funext found
        cases found with
        | true => simp only [if_true, Act.forget_bind, Act.forget_silent, Act.forget_pure]
        | false => simp only [Bool.false_eq_true, if_false, Act.forget_bind, forget_runStage, ih]

theorem forget_drive : (l1.driveNoted info).forget = l1.drive info := by
  unfold driveNoted drive
  simp only [Act.forget_bind, Act.forget_get, Act.forget_silent, Act.forget_tryCatch, forget_stages]
  apply congrArg (Act.get >>= ·)
  funext work
  apply congrArg (setStatus info .running >>= ·)
  funext _
  apply congrArg (((l1.stages info l1.pipeline (work.extras.completedStages.getD []).dedup).tryCatch (l1.leave info)) >>= ·)
  funext out
  cases out with
  | none => exact Act.forget_silent _
  | some out => rfl

theorem forget_driveFrom {sc : StageContext} : (l1.driveFromNoted sc).forget = l1.driveFrom sc := by
  funext s
  refine (Effects.Prog.forget_bind _ _).trans ?_
  have drive := congrFun (@forget_drive l1 sc.info) sc.work
  exact congrArg (fun p => p.bind fun out => .ret (out.1, s)) drive

/-- The notes change nothing of a run. -/
theorem forget_run {goal : String} {tenant : TenantContext} {principal : Option Principal} :
    (l1.runNoted goal tenant principal).forget = l1.run goal tenant principal := by
  unfold runNoted run
  simp only [Act.forget_bind, Act.forget_silent, forget_driveFrom]

theorem forget_resumeRun {runId : RunId} : (l1.resumeRunNoted runId).forget = l1.resumeRun runId := by
  unfold resumeRunNoted resumeRun
  cases l1.checkpointer with
  | false => rfl
  | true =>
      simp only [Bool.not_true, Bool.false_eq_true, if_false, Act.forget_bind, Act.forget_silent]
      apply congrArg (runCall (.load runId) >>= ·)
      funext kept
      cases kept with
      | none => rfl
      | some blob => simp only [Act.forget_bind, Act.forget_silent, forget_driveFrom]

end forget

end DefaultL1

/-! ## Drives one after the other -/

/-- What surrounds one drive of a run: what becomes of each of its calls, at which of them its process
dies, and what everybody else does in between. Nobody else writes the checkpoint of the run. -/
structure Course (runId : RunId) where
  deployment : Deployment
  choose : Nat → Choice
  lives : Nat → Bool
  between : Nat → World → World
  apart : ∀ n w, (between n w).checkpoints runId = w.checkpoints runId

/-- The names a blob says are completed. -/
def completedOf (blob : Json) : List String :=
  match checkpointDeserialize blob with
  | .ok sc => sc.work.extras.completedStages.getD []
  | .error _ => []

namespace Course

variable {runId : RunId} (c : Course runId)

def perform (m : World × Nat) (op : Op) : (World × Nat) × Option (Except Exn op.Ans) :=
  ((c.between m.2 (World.perform c.deployment (c.choose m.2) m.1 op).1, m.2 + 1),
    if c.lives m.2 then some (World.perform c.deployment (c.choose m.2) m.1 op).2 else none)

/-- A save of the run's that takes effect is noted. -/
def marks (m : World × Nat) : Op → List Milestone
  | .save r _ blob => match (c.choose m.2).fault with
      | some (.before, _) => []
      | _ => if r = runId then [.saved (completedOf blob)] else []
  | _ => []

/-- A drive by itself, from a world and what was noted before. -/
def drives (m : Act NotedSig Unit OrchestrationResult) (w : Noted Milestone World) :
    Option (Except Exn OrchestrationResult × Unit) × Noted Milestone World :=
  let out := (m ()).evalTill (Noted.perform c.perform c.marks) { world := (w.world, 0), notes := w.notes }
  (out.1, { world := out.2.world.1, notes := out.2.notes })

end Course

/-- The drives of one run, each after the other: what the last of them answered if its process lived,
and the world with its notes. In between the world changes as it likes but for the run's checkpoint. -/
inductive History (l1 : DefaultL1) (runId : RunId) :
    Option (Except Exn OrchestrationResult × Unit) → Noted Milestone World → Prop
  | begun {w : World} (c : Course runId) (goal : String) (tenant : TenantContext) (principal : Option Principal)
      (unsaved : w.checkpoints runId = none) (drawn : (c.choose 0).text = runId) :
      History l1 runId (c.drives (l1.runNoted goal tenant principal) { world := w }).1
        (c.drives (l1.runNoted goal tenant principal) { world := w }).2
  | resumed {r : Option (Except Exn OrchestrationResult × Unit)} {m : Noted Milestone World} {w : World} (c : Course runId)
      (before : History l1 runId r m) (apart : w.checkpoints runId = m.world.checkpoints runId) :
      History l1 runId (c.drives (l1.resumeRunNoted runId) { m with world := w }).1
        (c.drives (l1.resumeRunNoted runId) { m with world := w }).2

/-- Where it parks, the stage has left the record of the completed stages alone. -/
def PipelineStage.LeavesProgress (stage : PipelineStage) : Prop :=
  ∀ info work, (stage.execute info work).Yields fun out => ∀ condition gate, out.1 = .error (.needsWait condition gate) →
    out.2.extras.completedStages = work.extras.completedStages

/-- A stage that a checkpoint named is not started after it. -/
def Milestone.Apart (pipeline : List PipelineStage) : Milestone → Milestone → Prop
  | .saved names, .started i => ∀ stage, pipeline[i]? = some stage → stage.name ∉ names
  | _, _ => True

/-- The pipeline's stages have been completed up to `c`, and the last checkpoint says so up to `k`. -/
structure Journal (l1 : DefaultL1) (runId : RunId) (c k : Nat) (checkpoint : Option (String × Json))
    (notes : List Milestone) : Prop where
  reached : k ≤ c
  inside : c ≤ l1.pipeline.length
  unsaved : checkpoint = none → k = 0
  kept : ∀ label blob, checkpoint = some (label, blob) → ∃ sc, checkpointDeserialize blob = .ok sc ∧
    sc.info.runId = runId ∧ (sc.work.extras.completedStages.getD []).Perm ((l1.pipeline.take k).map PipelineStage.name)
  returned : (List.range c).map Milestone.returned |>.Sublist notes
  saved : ∀ names, .saved names ∈ notes → ∀ name ∈ names, name ∈ (l1.pipeline.take k).map PipelineStage.name
  apart : notes.Pairwise (Milestone.Apart l1.pipeline)


namespace Journal

variable {l1 : DefaultL1} {runId : RunId} {c k : Nat} {checkpoint : Option (String × Json)} {notes : List Milestone}

theorem pairwise_snoc {n : Milestone} (journal : Journal l1 runId c k checkpoint notes)
    (last : ∀ m ∈ notes, m.Apart l1.pipeline n) : (notes ++ [n]).Pairwise (Milestone.Apart l1.pipeline) := by
  rw [List.pairwise_append]
  refine ⟨journal.apart, List.pairwise_singleton _ _, fun m member n' single => ?_⟩
  obtain rfl := List.mem_singleton.mp single
  exact last m member

/-- Only a stage that no checkpoint names is started. -/
theorem started {stage : PipelineStage} (journal : Journal l1 runId c k checkpoint notes)
    (distinct : (l1.pipeline.map PipelineStage.name).Nodup) (next : l1.pipeline[c]? = some stage) :
    Journal l1 runId c k checkpoint (notes ++ [.started c]) where
  reached := journal.reached
  inside := journal.inside
  unsaved := journal.unsaved
  kept := journal.kept
  returned := journal.returned.trans (List.sublist_append_left _ _)
  saved names member := by
    rcases List.mem_append.mp member with old | new
    · exact journal.saved names old
    · cases List.mem_singleton.mp new
  apart := by
    apply journal.pairwise_snoc
    intro m member
    cases m with
    | started i => trivial
    | returned i => trivial
    | saved names =>
        intro stage' found named
        obtain rfl := Option.some.inj (next.symm.trans found)
        have early := journal.saved names member _ named
        rw [List.map_take] at early
        obtain ⟨j, bound, same⟩ := List.mem_take_iff_getElem.mp early
        have here : (l1.pipeline.map PipelineStage.name)[c]? = some stage.name := by
          rw [List.getElem?_map, next, Option.map_some]
        obtain ⟨inside, at_⟩ := List.getElem?_eq_some_iff.mp here
        have equal := (distinct.getElem_inj_iff).mp (same.trans at_.symm)
        have reached := journal.reached
        omega

theorem finished {stage : PipelineStage} (journal : Journal l1 runId c k checkpoint notes)
    (next : l1.pipeline[c]? = some stage) : Journal l1 runId (c + 1) k checkpoint (notes ++ [.returned c]) where
  reached := Nat.le_succ_of_le journal.reached
  inside := (List.getElem?_eq_some_iff.mp next).1
  unsaved := journal.unsaved
  kept := journal.kept
  returned := by
    rw [List.range_succ, List.map_append]
    exact journal.returned.append (List.Sublist.refl _)
  saved names member := by
    rcases List.mem_append.mp member with old | new
    · exact journal.saved names old
    · cases List.mem_singleton.mp new
  apart := journal.pairwise_snoc fun m _ => by cases m <;> trivial

/-- A save of a context that knows the stages up to `c`. -/
theorem save {label : String} {sc : StageContext} (journal : Journal l1 runId c k checkpoint notes)
    (mine : sc.info.runId = runId)
    (known : (sc.work.extras.completedStages.getD []).Perm ((l1.pipeline.take c).map PipelineStage.name)) :
    Journal l1 runId c c (some (label, checkpointSerialize sc))
      (notes ++ [.saved (completedOf (checkpointSerialize sc))]) := by
  have read : completedOf (checkpointSerialize sc) = sc.work.extras.completedStages.getD [] := by
    rw [completedOf, deserialize_serialize]
  constructor
  · exact Nat.le_refl c
  · exact journal.inside
  · nofun
  · intro label' blob stored
    cases stored
    exact ⟨_, deserialize_serialize sc, mine, known⟩
  · exact journal.returned.trans (List.sublist_append_left _ _)
  · intro names member name named
    rcases List.mem_append.mp member with old | new
    · have early := journal.saved names old name named
      rw [List.map_take] at early ⊢
      exact (List.take_prefix_take_left (l := l1.pipeline.map PipelineStage.name) journal.reached).subset early
    · cases List.mem_singleton.mp new
      rw [read] at named
      exact known.subset named
  · exact journal.pairwise_snoc fun m _ => by cases m <;> trivial

/-- What is known of a run between its drives. -/
theorem settle (journal : Journal l1 runId c k checkpoint notes) : Journal l1 runId k k checkpoint notes where
  reached := Nat.le_refl k
  inside := journal.reached.trans journal.inside
  unsaved := journal.unsaved
  kept := journal.kept
  returned := ((List.range_sublist.mpr journal.reached).map _).trans journal.returned
  saved := journal.saved
  apart := journal.apart

theorem empty : Journal l1 runId 0 0 none [] where
  reached := Nat.le_refl 0
  inside := Nat.zero_le _
  unsaved _ := rfl
  kept := nofun
  returned := List.Sublist.refl _
  saved := nofun
  apart := List.Pairwise.nil

end Journal


/-! ## One drive -/

namespace DefaultL1

variable {l1 : DefaultL1} {runId : RunId} {c : Course runId} {info : RunInfo} {work : Work} {m : Noted Milestone (World × Nat)}

/-- Where a run has got to: its stages have been completed up to `n`. -/
def Reached (l1 : DefaultL1) (runId : RunId) (n : Nat) (m : Noted Milestone (World × Nat)) : Prop :=
  ∃ k, Journal l1 runId n k (m.world.1.checkpoints runId) m.notes

/-- Where a drive may be left. -/
def Halfway (l1 : DefaultL1) (runId : RunId) (m : Noted Milestone (World × Nat)) : Prop := ∃ n, Reached l1 runId n m

/-- The context knows the stages up to `n`. -/
def Knows (l1 : DefaultL1) (n : Nat) (work : Work) : Prop :=
  (work.extras.completedStages.getD []).Perm ((l1.pipeline.take n).map PipelineStage.name)

/-- The calls that save nothing. -/
def Calm (op : Op) : Prop := ∀ r label blob, op ≠ .save r label blob

theorem calm_keeps {n : Nat} (op : NotedSig.Op) (calm : Sum.elim Calm (fun _ => False) op) (m : Noted Milestone (World × Nat))
    (reached : Reached l1 runId n m) : Reached l1 runId n (Noted.perform c.perform c.marks m op).1 := by
  cases op with
  | inr note => exact calm.elim
  | inl op =>
      obtain ⟨k, journal⟩ := reached
      have unmarked : c.marks m.world op = [] := by
        cases op with
        | save r label blob => exact absurd rfl (calm r label blob)
        | _ => rfl
      use k
      simp only [Noted.perform, Course.perform, unmarked, List.append_nil]
      rw [c.apart, World.perform_checkpoints calm]
      exact journal

/-- A program that only reads its context and saves nothing. -/
theorem leads_calm {α σ : Type} {n : Nat} {p : Act RunSig σ α} {s : σ} (uses : p.Uses Calm) (reads : p.Reads)
    (reached : Reached l1 runId n m) :
    (quietly p).Leads (Noted.perform c.perform c.marks) (Halfway l1 runId)
      (fun _ s' m' => s' = s ∧ Reached l1 runId n m') s m :=
  Act.Leads.ofReads uses.silent reads.silent (fun _ left => ⟨n, left⟩) (fun op calm m => calm_keeps op calm m) reached

theorem calm_emit {eventType : String} {details : Data.Dict String Json} :
    (l1.emit info eventType details).Uses Calm ∧ (l1.emit info eventType details).Reads := by
  unfold emit
  split
  · exact ⟨Act.uses_get_bind fun work => Act.uses_await nofun, Act.reads_get_bind fun work => Act.reads_await _⟩
  · exact ⟨Act.uses_pure _, Act.reads_pure _⟩

theorem leads_emit {n : Nat} {eventType : String} {details : Data.Dict String Json} (reached : Reached l1 runId n m) :
    (quietly (l1.emit info eventType details)).Leads (Noted.perform c.perform c.marks) (Halfway l1 runId)
      (fun _ s' m' => s' = work ∧ Reached l1 runId n m') work m :=
  leads_calm calm_emit.1 calm_emit.2 reached

/-- A call that saves nothing, and what is known of its reply. -/
theorem leads_reply {σ : Type} {n : Nat} {s : σ} (op : Op) (calm : Calm op) {P : Except Exn op.Ans → Prop}
    (law : P (World.perform c.deployment (c.choose m.world.2) m.world.1 op).2) (reached : Reached l1 runId n m) :
    (quietly (runCall op : Act RunSig σ op.Ans)).Leads (Noted.perform c.perform c.marks) (Halfway l1 runId)
      (fun r s' m' => s' = s ∧ Reached l1 runId n m' ∧ P r) s m := by
  have kept := calm_keeps (c := c) (.inl op) calm m reached
  apply @Act.leads_await NotedSig _ _ _ _ _ _ (.inl op) _
  simp only [Noted.perform, Course.perform] at kept ⊢
  cases c.lives m.world.2 with
  | true => simpa only using ⟨trivial, kept, law⟩
  | false => exact ⟨n, kept⟩

/-- A call that saves nothing. -/
theorem leads_call {σ : Type} {n : Nat} {s : σ} (op : Op) (calm : Calm op) (reached : Reached l1 runId n m) :
    (quietly (runCall op : Act RunSig σ op.Ans)).Leads (Noted.perform c.perform c.marks) (Halfway l1 runId)
      (fun _ s' m' => s' = s ∧ Reached l1 runId n m') s m :=
  leads_calm (Act.uses_await calm) (Act.reads_await (S := RunSig) op) reached

/-- A save by a context that knows how far the run has got. -/
theorem leads_save {n : Nat} {label : String} (mine : info.runId = runId) (known : Knows l1 n work)
    (reached : Reached l1 runId n m) :
    (quietly (l1.save info label)).Leads (Noted.perform c.perform c.marks) (Halfway l1 runId)
      (fun _ s' m' => s' = work ∧ Reached l1 runId n m') work m := by
  unfold save
  cases l1.checkpointer with
  | false => exact ⟨rfl, reached⟩
  | true =>
      subst mine
      have kept : Reached l1 info.runId n (Noted.perform (S := RunSig) c.perform c.marks m
          (.inl (.save info.runId label (checkpointSerialize { info, work })))).1 := by
        obtain ⟨k, journal⟩ := reached
        simp only [Reached, Noted.perform, Course.perform, Course.marks, c.apart]
        rw [World.perform]
        have saved := @Journal.save _ _ _ _ _ _ label { info, work } journal rfl known
        cases fault : (c.choose m.world.2).fault with
        | none =>
            simp only [if_true, World.effect, Function.update_self]
            exact ⟨n, saved⟩
        | some f =>
            obtain ⟨at_, x⟩ := f
            cases at_ with
            | before =>
                simp only [List.append_nil]
                exact ⟨k, journal⟩
            | within =>
                simp only [if_true, World.effect, Function.update_self]
                exact ⟨n, saved⟩
            | after =>
                simp only [if_true, World.effect, Function.update_self]
                exact ⟨n, saved⟩
      have called : (Act.await (S := NotedSig) (.inl (.save info.runId label (checkpointSerialize { info, work }))) :
          Act NotedSig Work Unit).Leads (Noted.perform c.perform c.marks) (Halfway l1 info.runId)
          (fun _ s' m' => s' = work ∧ Reached l1 info.runId n m') work m := by
        apply Act.leads_await
        split
        · exact ⟨rfl, kept⟩
        · exact ⟨n, kept⟩
      exact called


/-- A status write, an event, and the answer. -/
theorem leads_told {n : Nat} {status : RunStatus} {eventType : String} {details : Data.Dict String Json}
    {out : Work → OrchestrationResult} {P : OrchestrationResult → Prop} (told : ∀ work, P (out work))
    (reached : Reached l1 runId n m) :
    (quietly (do
      setStatus info status
      l1.emit info eventType details
      let work ← Act.get
      return out work : DriverM OrchestrationResult)).Leads (Noted.perform c.perform c.marks) (Halfway l1 runId)
        (fun r s m => s = work ∧ Reached l1 runId n m ∧ ∀ given, r = .ok given → P given) work m := by
  have uses : (do
      setStatus info status
      l1.emit info eventType details
      let work ← Act.get
      return out work : DriverM OrchestrationResult).Uses Calm := by
    apply Act.uses_bind (@Act.uses_await RunSig _ _ (.setState info.runId status) nofun)
    intro _
    apply Act.uses_bind calm_emit.1
    intro _
    exact Act.uses_get_bind fun _ => Act.uses_pure _
  have gives : (do
      setStatus info status
      l1.emit info eventType details
      let work ← Act.get
      return out work : DriverM OrchestrationResult).Gives P := by
    apply Act.gives_bind
    intro _
    apply Act.gives_bind
    intro _
    exact Act.gives_get_bind fun work => Act.gives_pure (told work)
  have reads : (do
      setStatus info status
      l1.emit info eventType details
      let work ← Act.get
      return out work : DriverM OrchestrationResult).Reads := by
    apply Act.reads_bind (Act.reads_await (S := RunSig) (.setState info.runId status))
    intro _
    apply Act.reads_bind calm_emit.2
    intro _
    exact Act.reads_get_bind fun _ => Act.reads_pure _
  have dies : ∀ m, Reached l1 runId n m → Halfway l1 runId m := fun _ left => ⟨n, left⟩
  apply (Prog.Leads.ofUses (uses.silent work) ((reads work).and (gives work)).silent dies
    (fun op calm m => calm_keeps (c := c) op calm m) reached).weaken
  intro out m given
  exact ⟨given.1.1, given.2, given.1.2⟩

/-- How a program of the stages is left: an answer has what `P` says, and where it parks the context
still knows how far the run has got. -/
def Progress {α : Type} (l1 : DefaultL1) (runId : RunId) (P : α → Work → Noted Milestone (World × Nat) → Prop) :
    Except Exn α → Work → Noted Milestone (World × Nat) → Prop
  | .ok a, work, m => P a work m
  | .error e, work, m => ∃ n, Reached l1 runId n m ∧ ∀ condition gate, e = .needsWait condition gate → Knows l1 n work

/-- What a drive that is left before its end answers. -/
def Unfinished (out : OrchestrationResult) : Prop := out.status ≠ "completed"

/-- A park saves the context as it is. -/
theorem leads_park {n : Nat} (mine : info.runId = runId) (known : Knows l1 n work) (reached : Reached l1 runId n m)
    (condition : WakeCondition) (gate : Option StepId) :
    (quietly (l1.park info condition gate)).Leads (Noted.perform c.perform c.marks) (Halfway l1 runId)
      (fun r _ m => Reached l1 runId n m ∧ ∀ out, r = .ok out → Unfinished out) work m := by
  have parked : ∀ {s : Work} {m : Noted Milestone (World × Nat)}, Reached l1 runId n m → (quietly (do
      setStatus info .waiting
      l1.emit info "run_waiting" [("condition", .str condition.kind.value)]
      return result info (← Act.get) "waiting" ("waiting on " ++ condition.kind.value) [] :
        DriverM OrchestrationResult)).Leads (Noted.perform c.perform c.marks) (Halfway l1 runId)
      (fun r _ m => Reached l1 runId n m ∧ ∀ out, r = .ok out → Unfinished out) s m :=
    fun reached => (leads_told (fun _ => (by decide : "waiting" ≠ "completed")) reached).weaken fun _ _ _ told => told.2
  have raise : ∀ (e : Exn) (s : Work) (m : Noted Milestone (World × Nat)), s = work ∧ Reached l1 runId n m →
      Reached l1 runId n m ∧ ∀ out, (.error e : Except Exn OrchestrationResult) = .ok out → Unfinished out :=
    fun _ _ _ same => ⟨same.2, nofun⟩
  unfold park
  refine Act.leads_silent_bind (leads_save mine known reached) ?_ raise
  intro _ s m saved
  cases l1.waker with
  | false => exact parked saved.2
  | true =>
      refine Act.leads_silent_bind (leads_call (.schedule info.runId condition gate) nofun saved.2) ?_ ?_
      · intro _ s m told
        exact parked told.2
      · intro e s m failed
        exact ⟨failed.2, nofun⟩

/-- An answer that is handed on. -/
theorem leads_some {n : Nat} {ask : DriverM OrchestrationResult} {s : Work}
    (asked : (quietly ask).Leads (Noted.perform c.perform c.marks) (Halfway l1 runId)
      (fun r _ m => Reached l1 runId n m ∧ ∀ out, r = .ok out → Unfinished out) s m) :
    (quietly (do return some (← ask) : DriverM (Option OrchestrationResult))).Leads (Noted.perform c.perform c.marks)
      (Halfway l1 runId) (fun r _ m => Reached l1 runId n m ∧ ∀ out, r = .ok out → ∃ given, out = some given ∧ Unfinished given) s m := by
  apply Act.leads_silent_bind asked
  · intro out s m given
    refine ⟨given.1, fun r same => ?_⟩
    cases same
    exact ⟨out, rfl, given.2 out rfl⟩
  · intro e s m failed
    exact ⟨failed.1, nofun⟩

/-- What an exception of a stage is made of. -/
theorem leads_leave {n : Nat} {e : Exn} (mine : info.runId = runId) (reached : Reached l1 runId n m)
    (known : ∀ condition gate, e = .needsWait condition gate → Knows l1 n work) :
    (quietly (l1.leave info e)).Leads (Noted.perform c.perform c.marks) (Halfway l1 runId)
      (fun r _ m => Reached l1 runId n m ∧ ∀ out, r = .ok out → ∃ given, out = some given ∧ Unfinished given) work m := by
  cases e with
  | needsWait condition gate => exact leads_some (leads_park mine (known condition gate rfl) reached condition gate)
  | policyDenied reason =>
      exact leads_some ((leads_told (fun _ => (by decide : "denied" ≠ "completed")) reached).weaken fun _ _ _ told => told.2)
  | approvalRequired reason =>
      exact leads_some ((leads_told (fun _ => (by decide : "approval_denied" ≠ "completed")) reached).weaken fun _ _ _ told => told.2)
  | _ => exact ⟨reached, nofun⟩

/-- What follows a stage that has returned. -/
theorem leads_recorded {n : Nat} {stage : PipelineStage} (mine : info.runId = runId) (known : Knows l1 n work)
    (reached : Reached l1 runId n m) : (do
      quietly (l1.save info stage.name)
      quietly (l1.emit info "run_checkpointed" [("step", .str stage.name)])
      quietly (runCall (.appendTrace info.runId { kind := stage.name, step := some stage.name })) :
        Act NotedSig Work Unit).Leads (Noted.perform c.perform c.marks) (Halfway l1 runId)
          (Progress l1 runId fun _ s m => Knows l1 n s ∧ Reached l1 runId n m) work m := by
  have raise : ∀ (e : Exn) (s : Work) (m : Noted Milestone (World × Nat)), s = work ∧ Reached l1 runId n m →
      Progress l1 runId (fun (_ : Unit) s m => Knows l1 n s ∧ Reached l1 runId n m) (.error e) s m := by
    intro e s m same
    obtain ⟨rfl, reached⟩ := same
    exact ⟨n, reached, fun _ _ _ => known⟩
  refine Act.leads_bind (leads_save mine known reached) ?_ raise
  intro _ s m saved
  obtain ⟨rfl, reached⟩ := saved
  refine Act.leads_bind (leads_emit reached) ?_ raise
  intro _ s m emitted
  obtain ⟨rfl, reached⟩ := emitted
  apply (leads_call (.appendTrace info.runId { kind := stage.name, step := some stage.name }) nofun reached).weaken
  intro r s m traced
  cases r with
  | ok u =>
      obtain ⟨rfl, reached⟩ := traced
      exact ⟨known, reached⟩
  | error e => exact raise e s m traced

/-- One stage, the next that is left. -/
theorem leads_runStage {n : Nat} {stage : PipelineStage} {completed : List String} (mine : info.runId = runId)
    (distinct : (l1.pipeline.map PipelineStage.name).Nodup) (leaves : stage.LeavesProgress)
    (next : l1.pipeline[n]? = some stage) (names : completed.Perm ((l1.pipeline.take (n + 1)).map PipelineStage.name))
    (known : Knows l1 n work) (reached : Reached l1 runId n m) :
    (l1.runStageNoted info n stage completed).Leads (Noted.perform c.perform c.marks) (Halfway l1 runId)
      (Progress l1 runId fun _ s m => Knows l1 (n + 1) s ∧ Reached l1 runId (n + 1) m) work m := by
  have body : ∀ {s : Work}, Knows l1 n s → (do
      Act.note (.started n)
      quietly (liftStage info (stage.execute info))
      Act.note (.returned n)
      Act.modify fun work => { work with extras := { work.extras with
        completedStages := some (WorkflowExecutor.sortedNames completed) } }
      quietly (l1.save info stage.name)
      quietly (l1.emit info "run_checkpointed" [("step", .str stage.name)])
      quietly (runCall (.appendTrace info.runId { kind := stage.name, step := some stage.name })) :
        Act NotedSig Work Unit).Leads (Noted.perform c.perform c.marks) (Halfway l1 runId)
          (Progress l1 runId fun _ s m => Knows l1 (n + 1) s ∧ Reached l1 runId (n + 1) m) s m := by
    intro s known
    have executes : (quietly (liftStage info (stage.execute info))).Leads (Noted.perform c.perform c.marks) (Halfway l1 runId)
        (fun r s m => Reached l1 runId n m ∧ ∀ condition gate, r = .error (Exn.needsWait condition gate) → Knows l1 n s)
        s { m with notes := m.notes ++ [.started n] } := by
      have calm : (liftStage info (stage.execute info)).Uses Calm := by
        intro s
        apply Prog.Uses.lift
        exact Prog.Uses.all (fun _ => nofun) _
      have yields := @Prog.Yields.lift _ _ RunSig (.stage info) (fun _ r => r) _ _ (leaves info s)
      obtain ⟨k, journal⟩ := reached
      apply (Prog.Leads.ofUses (calm.silent s) (Prog.Yields.silent (N := Milestone) yields) (fun _ left => ⟨n, left⟩)
        (fun op calm m => calm_keeps op calm m) ⟨k, journal.started distinct next⟩).weaken
      intro out m ended
      obtain ⟨same, reached⟩ := ended
      refine ⟨reached, fun condition gate parks => ?_⟩
      rw [Knows, same condition gate parks]
      exact known
    apply Act.leads_bind (Q := fun r s' m' => r = .ok () ∧ s' = s ∧ m' = { m with notes := m.notes ++ [.started n] })
      (Act.leads_note ⟨rfl, rfl, rfl⟩)
    · intro _ s' m' noted
      obtain ⟨-, rfl, rfl⟩ := noted
      apply Act.leads_bind executes
      · intro _ s m executed
        obtain ⟨⟨k, journal⟩, -⟩ := executed
        apply Act.leads_bind (Q := fun r s' m' => r = .ok () ∧ s' = s ∧ m' = { m with notes := m.notes ++ [.returned n] })
          (Act.leads_note ⟨rfl, rfl, rfl⟩)
        · intro _ s' m' noted
          obtain ⟨-, rfl, rfl⟩ := noted
          apply Act.leads_modify_bind
          apply leads_recorded mine
          · exact ((List.perm_insertionSort _ completed).trans names)
          · exact ⟨k, journal.finished next⟩
        · intro e s' m' noted
          cases noted.1
      · intro e s m raised
        refine ⟨n, raised.1, fun condition gate parks => raised.2 condition gate ?_⟩
        rw [parks]
    · intro e s' m' noted
      cases noted.1
  unfold runStageNoted
  cases Stage.ofValue? stage.name with
  | none => exact body known
  | some place => exact body (s := { work with stage := place }) known


/-- Where the loop over the stages is left. -/
def Looped (l1 : DefaultL1) (runId : RunId) (out : Option OrchestrationResult) (m : Noted Milestone (World × Nat)) : Prop :=
  ∃ n, Reached l1 runId n m ∧ (out = none → n = l1.pipeline.length) ∧ ∀ given, out = some given → Unfinished given

/-- The stages skipped are those already completed; the next one is the first that is not. -/
theorem named_iff {i n : Nat} {stage : PipelineStage} {completed : List String}
    (distinct : (l1.pipeline.map PipelineStage.name).Nodup) (at_ : l1.pipeline[i]? = some stage)
    (names : completed.Perm ((l1.pipeline.take n).map PipelineStage.name)) : stage.name ∈ completed ↔ i < n := by
  have here : (l1.pipeline.map PipelineStage.name)[i]? = some stage.name := by
    rw [List.getElem?_map, at_, Option.map_some]
  obtain ⟨inside, found⟩ := List.getElem?_eq_some_iff.mp here
  rw [names.mem_iff, List.map_take, List.mem_take_iff_getElem]
  constructor
  · rintro ⟨j, bound, same⟩
    have equal := distinct.getElem_inj_iff.mp (same.trans found.symm)
    omega
  · intro early
    exact ⟨i, by omega, found⟩

theorem leads_stages (mine : info.runId = runId) (distinct : (l1.pipeline.map PipelineStage.name).Nodup)
    (leaves : ∀ stage ∈ l1.pipeline, stage.LeavesProgress) {stages : List PipelineStage} {i n : Nat} {completed : List String}
    (left : l1.pipeline.drop i = stages) (behind : i ≤ n)
    (names : completed.Perm ((l1.pipeline.take n).map PipelineStage.name)) (known : Knows l1 n work) (reached : Reached l1 runId n m) :
    (l1.stagesNoted info stages i completed).Leads (Noted.perform c.perform c.marks) (Halfway l1 runId)
      (Progress l1 runId fun out _ m => Looped l1 runId out m) work m := by
  induction stages generalizing i n completed work m with
  | nil =>
      refine ⟨n, reached, fun _ => ?_, nofun⟩
      obtain ⟨k, journal⟩ := reached
      have inside := journal.inside
      have passed := List.drop_eq_nil_iff.mp left
      omega
  | cons stage stages ih =>
      have at_ : l1.pipeline[i]? = some stage := by
        rw [← List.head?_drop, left, List.head?_cons]
      have tail : l1.pipeline.drop (i + 1) = stages := by
        rw [← List.tail_drop, left, List.tail_cons]
      have next := named_iff distinct at_ names
      rw [stagesNoted]
      by_cases skipped : stage.name ∈ completed
      · rw [if_pos skipped]
        exact ih tail (next.mp skipped) names known reached
      · rw [if_neg skipped]
        have here : n = i := by
          have late := mt next.mpr skipped
          omega
        subst here
        have polls : (cancelled info).Uses Calm ∧ (cancelled info).Reads :=
          ⟨Act.uses_bind (@Act.uses_await RunSig _ _ (.getState info.runId) nofun) fun _ => Act.uses_pure _,
            Act.reads_bind (Act.reads_await (S := RunSig) (.getState info.runId)) fun _ => Act.reads_pure _⟩
        apply Act.leads_bind (leads_calm polls.1 polls.2 reached)
        · intro found s m polled
          obtain ⟨rfl, reached⟩ := polled
          cases found with
          | true =>
              have told : (quietly (l1.leaveCancelled info)).Leads (Noted.perform c.perform c.marks) (Halfway l1 runId)
                  (fun r s' m => s' = s ∧ Reached l1 runId n m ∧ ∀ given, r = .ok given → Unfinished given) s m :=
                leads_told (fun _ => (by decide : "cancelled" ≠ "completed")) reached
              apply Act.leads_bind told
              · intro out s m told
                refine ⟨n, told.2.1, nofun, fun given same => ?_⟩
                cases same
                exact told.2.2 out rfl
              · intro e s m failed
                obtain ⟨rfl, reached, -⟩ := failed
                exact ⟨n, reached, fun _ _ _ => known⟩
          | false =>
              have more : (completed ++ [stage.name]).Perm ((l1.pipeline.take (n + 1)).map PipelineStage.name) := by
                rw [List.take_add_one, at_, List.map_append]
                exact names.append_right _
              apply Act.leads_bind (leads_runStage mine distinct (leaves stage (List.mem_of_getElem? at_)) at_ more known reached)
              · intro _ s m ran
                exact ih tail (Nat.le_refl _) more ran.1 ran.2
              · intro e s m raised
                exact raised
        · intro e s m failed
          obtain ⟨rfl, reached⟩ := failed
          exact ⟨n, reached, fun _ _ _ => known⟩

/-- What a drive answers, and where it leaves the run. -/
def Answered (l1 : DefaultL1) (runId : RunId) (r : Except Exn OrchestrationResult) (m : Noted Milestone (World × Nat)) : Prop :=
  ∃ n, Reached l1 runId n m ∧ ∀ out, r = .ok out → out.status = "completed" → n = l1.pipeline.length

/-- A drive that raises completes nothing. -/
theorem Answered.raised {n : Nat} {e : Exn} (reached : Reached l1 runId n m) : Answered l1 runId (.error e) m := by
  refine ⟨n, reached, fun out answered => ?_⟩
  cases answered

theorem leads_drive {n : Nat} (mine : info.runId = runId) (distinct : (l1.pipeline.map PipelineStage.name).Nodup)
    (leaves : ∀ stage ∈ l1.pipeline, stage.LeavesProgress) (known : Knows l1 n work) (reached : Reached l1 runId n m) :
    (l1.driveNoted info).Leads (Noted.perform c.perform c.marks) (Halfway l1 runId) (fun r _ m => Answered l1 runId r m) work m := by
  have names : ((work.extras.completedStages.getD []).dedup).Perm ((l1.pipeline.take n).map PipelineStage.name) := by
    have once : (work.extras.completedStages.getD []).Nodup := by
      rw [known.nodup_iff, List.map_take]
      exact distinct.sublist (List.take_sublist n _)
    rw [once.dedup]
    exact known
  apply Act.leads_get_bind
  apply Act.leads_bind (leads_call (.setState info.runId .running) nofun reached)
  · intro _ s m wrote
    obtain ⟨rfl, reached⟩ := wrote
    apply Act.leads_bind (Q := fun r _ m => Halfway l1 runId m ∧ ∀ out, r = .ok out → Looped l1 runId out m)
    · apply Act.leads_tryCatch (leads_stages mine distinct leaves rfl (Nat.zero_le n) names known reached)
      · intro out s m looped
        obtain ⟨n, reached, rest⟩ := looped
        refine ⟨⟨n, reached⟩, fun given same => ?_⟩
        cases same
        exact ⟨n, reached, rest⟩
      · intro e s m raised
        obtain ⟨n, reached, known⟩ := raised
        apply (leads_leave mine reached known).weaken
        intro r s m left
        refine ⟨⟨n, left.1⟩, fun out same => ?_⟩
        obtain ⟨given, rfl, unfinished⟩ := left.2 out same
        refine ⟨n, left.1, nofun, fun other same => ?_⟩
        cases same
        exact unfinished
    · intro out s m looped
      obtain ⟨n, reached, finished, unfinished⟩ := looped.2 out rfl
      cases out with
      | some out =>
          refine ⟨n, reached, fun given same completed => ?_⟩
          cases same
          exact absurd completed (unfinished out rfl)
      | none =>
          have told : (quietly (l1.complete info)).Leads (Noted.perform c.perform c.marks) (Halfway l1 runId)
              (fun r s' m => s' = s ∧ Reached l1 runId n m ∧ ∀ given, r = .ok given → True) s m :=
            leads_told (fun _ => trivial) reached
          apply told.weaken
          intro r s' m told
          exact ⟨n, told.2.1, fun _ _ _ => finished rfl⟩
    · intro e s m raised
      obtain ⟨n, reached⟩ := raised.1
      exact .raised reached
  · intro e s m failed
    exact .raised failed.2

variable (distinct : (l1.pipeline.map PipelineStage.name).Nodup) (leaves : ∀ stage ∈ l1.pipeline, stage.LeavesProgress)
include distinct leaves

/-- A drive from a context, with the event before it. -/
theorem leads_driveFrom {n : Nat} {sc : StageContext} {eventType : String} {details : Data.Dict String Json}
    (mine : sc.info.runId = runId) (known : Knows l1 n sc.work) (reached : Reached l1 runId n m) : (do
      quietly (l1.emitFor sc eventType details)
      l1.driveFromNoted sc : Act NotedSig Unit OrchestrationResult).Leads (Noted.perform c.perform c.marks) (Halfway l1 runId)
        (fun r _ m => Answered l1 runId r m) () m := by
  have emits : (l1.emitFor sc eventType details).Uses Calm ∧ (l1.emitFor sc eventType details).Reads :=
    ⟨fun _ => Prog.Uses.bind (calm_emit.1 sc.work) fun _ => trivial,
      fun _ => Prog.Yields.bind (Prog.Yields.any _) fun _ _ => rfl⟩
  apply Act.leads_bind (leads_calm emits.1 emits.2 reached)
  · intro _ _ m told
    apply Prog.Leads.bind (leads_drive mine distinct leaves known told.2)
    intro out m answered
    exact answered
  · intro e _ m failed
    exact .raised failed.2

/-- The first drive of a run, its id drawn by the store. -/
theorem leads_run {goal : String} {tenant : TenantContext} {principal : Option Principal} (drawn : (c.choose 0).text = runId)
    (first : m.world.2 = 0) (reached : Reached l1 runId 0 m) :
    (l1.runNoted goal tenant principal).Leads (Noted.perform c.perform c.marks) (Halfway l1 runId)
      (fun r _ m => Answered l1 runId r m) () m := by
  have named : ∀ r, (World.perform c.deployment (c.choose m.world.2) m.world.1 (.create tenant goal)).2 = .ok r → r = runId := by
    intro r answered
    rw [first, World.perform, World.fault_none answered] at answered
    simp only [World.effect, drawn] at answered
    split at answered
    · cases answered
    · cases answered
      rfl
  unfold runNoted
  apply Act.leads_bind (leads_reply (.create tenant goal) (fun _ _ _ same => by cases same) (P := fun r => ∀ id, r = .ok id → id = runId) named reached)
  · intro id _ m given
    obtain rfl := given.2.2 id rfl
    have none_yet : Knows l1 0 (StageContext.initial { runId := id, tenant, goal, principal }).work := List.Perm.refl []
    exact leads_driveFrom distinct leaves rfl none_yet given.2.1
  · intro e _ m failed
    exact .raised failed.2.1

theorem leads_resumeRun {k : Nat} (journal : Journal l1 runId k k (m.world.1.checkpoints runId) m.notes) :
    (l1.resumeRunNoted runId).Leads (Noted.perform c.perform c.marks) (Halfway l1 runId)
      (fun r _ m => Answered l1 runId r m) () m := by
  have found : ∀ blob, (World.perform c.deployment (c.choose m.world.2) m.world.1 (.load runId)).2 = .ok (some blob) →
      ∃ sc, checkpointDeserialize blob = .ok sc ∧ sc.info.runId = runId ∧ Knows l1 k sc.work := by
    intro blob answered
    rw [World.perform, World.fault_none answered] at answered
    simp only [World.effect, Except.ok.injEq, Option.map_eq_some_iff] at answered
    obtain ⟨⟨label, kept⟩, stored, rfl⟩ := answered
    exact journal.kept label kept stored
  unfold resumeRunNoted
  cases l1.checkpointer with
  | false => exact .raised ⟨k, journal⟩
  | true =>
      simp only [Bool.not_true, Bool.false_eq_true, if_false]
      apply Act.leads_bind (leads_reply (.load runId) (fun _ _ _ same => by cases same) (P := fun r => ∀ blob, r = .ok (some blob) →
        ∃ sc, checkpointDeserialize blob = .ok sc ∧ sc.info.runId = runId ∧ Knows l1 k sc.work) found ⟨k, journal⟩)
      · intro kept _ m given
        cases kept with
        | none => exact .raised given.2.1
        | some blob =>
            obtain ⟨sc, read, mine, known⟩ := given.2.2 blob rfl
            simp only [read]
            exact leads_driveFrom distinct leaves mine known given.2.1
      · intro e _ m failed
        exact .raised failed.2.1

end DefaultL1


/-! ## Any number of drives -/

section runs

open DefaultL1

variable {l1 : DefaultL1} {runId : RunId} {r : Option (Except Exn OrchestrationResult × Unit)} {m : Noted Milestone World}

/-- Where a drive has answered, and where its process has died. -/
def Course.Ended (l1 : DefaultL1) (runId : RunId) (r : Option (Except Exn OrchestrationResult × Unit))
    (m : Noted Milestone World) : Prop :=
  ∃ n k, Journal l1 runId n k (m.world.checkpoints runId) m.notes ∧
    ∀ out, r = some (.ok out, ()) → out.status = "completed" → n = l1.pipeline.length

theorem Course.ended {c : Course runId} {p : Act NotedSig Unit OrchestrationResult}
    (leads : p.Leads (Noted.perform c.perform c.marks) (Halfway l1 runId) (fun r _ m => Answered l1 runId r m) ()
      { world := (m.world, 0), notes := m.notes }) : Course.Ended l1 runId (c.drives p m).1 (c.drives p m).2 := by
  have till := Prog.Leads.till leads
  simp only [Course.drives]
  split at till
  · next a w answered =>
      obtain ⟨n, ⟨k, journal⟩, completed⟩ := till
      rw [answered]
      refine ⟨n, k, journal, fun out same => completed out ?_⟩
      cases same
      rfl
  · next w died =>
      obtain ⟨n, k, journal⟩ := till
      rw [died]
      exact ⟨n, k, journal, nofun⟩

/-- What is so of a run after any number of drives. -/
theorem History.ended (distinct : (l1.pipeline.map PipelineStage.name).Nodup)
    (leaves : ∀ stage ∈ l1.pipeline, stage.LeavesProgress) (history : History l1 runId r m) : Course.Ended l1 runId r m := by
  induction history with
  | begun c goal tenant principal unsaved drawn =>
      apply Course.ended
      apply leads_run distinct leaves drawn rfl
      refine ⟨0, ?_⟩
      simp only [unsaved]
      exact Journal.empty
  | resumed c before apart ih =>
      obtain ⟨n, k, journal, -⟩ := ih
      apply Course.ended
      apply leads_resumeRun distinct leaves
      simp only [apart]
      exact journal.settle

/-- Where no two stages share a name and none writes the record of the completed ones, a stage that
a checkpoint named is not started again, and a run that completes has been through every stage in order. -/
theorem stages_once_in_order (l1 : DefaultL1) (runId : RunId) (distinct : (l1.pipeline.map PipelineStage.name).Nodup)
    (leaves : ∀ stage ∈ l1.pipeline, stage.LeavesProgress) {r : Option (Except Exn OrchestrationResult × Unit)}
    {m : Noted Milestone World} (history : History l1 runId r m) :
    m.notes.Pairwise (Milestone.Apart l1.pipeline) ∧
      ∀ out, r = some (.ok out, ()) → out.status = "completed" →
        ((List.range l1.pipeline.length).map Milestone.returned).Sublist m.notes := by
  obtain ⟨n, k, journal, finished⟩ := history.ended distinct leaves
  refine ⟨journal.apart, fun out answered completed => ?_⟩
  rw [← finished out answered completed]
  exact journal.returned

end runs

/-- The notes are beside the drive: it answers, and leaves the world, as without them. -/
theorem Course.drives_forget {runId : RunId} (c : Course runId) (p : Act NotedSig Unit OrchestrationResult) (m : Noted Milestone World) :
    ((p.forget ()).evalTill c.perform (m.world, 0)).1 = (c.drives p m).1 ∧
      ((p.forget ()).evalTill c.perform (m.world, 0)).2.1 = (c.drives p m).2.world := by
  have forgotten := @Effects.evalTill_forget _ _ _ _ c.perform c.marks (p ())
    { world := (m.world, 0), notes := m.notes }
  exact ⟨congrArg Prod.fst forgotten, congrArg (fun out => out.2.1) forgotten⟩

/-- The drives of a history are those of `run` and `resume_run`. -/
theorem Course.drives_real {runId : RunId} (c : Course runId) (l1 : DefaultL1) (m : Noted Milestone World) :
    (∀ goal tenant principal, ((l1.run goal tenant principal ()).evalTill c.perform (m.world, 0)).1 =
        (c.drives (l1.runNoted goal tenant principal) m).1 ∧
      ((l1.run goal tenant principal ()).evalTill c.perform (m.world, 0)).2.1 =
        (c.drives (l1.runNoted goal tenant principal) m).2.world) ∧
    ((l1.resumeRun runId ()).evalTill c.perform (m.world, 0)).1 = (c.drives (l1.resumeRunNoted runId) m).1 ∧
      ((l1.resumeRun runId ()).evalTill c.perform (m.world, 0)).2.1 = (c.drives (l1.resumeRunNoted runId) m).2.world := by
  constructor
  · intro goal tenant principal
    rw [← DefaultL1.forget_run]
    exact c.drives_forget _ m
  · rw [← DefaultL1.forget_resumeRun]
    exact c.drives_forget _ m

/-- A workflow stage never writes the record of the completed stages. -/
theorem workflowStage_leavesProgress {p : Platform} {ex : WorkflowExecutor} {d : WorkflowDefinition}
    {extra : Data.Dict String Json} : (workflowStage p ex d extra).LeavesProgress := by
  intro info work
  have moved := @workflowStage_moves p ex d info extra (fun before after => after.extras.completedStages = before.extras.completedStages)
    { refl := fun _ => rfl
      trans := fun _ _ _ first second => second.trans first
      state := fun _ _ => rfl
      finished := fun _ _ => rfl } (fun _ _ => rfl) work
  exact moved.weaken fun _ same _ _ _ => same

namespace Sample

/-- Nothing fails, nobody interferes, and the process lives. -/
def steady : Course "r" where
  deployment := { platform }
  choose _ := { text := "r" }
  lives _ := true
  between _ w := w
  apart _ _ := rfl

/-- A workflow of one queue step, and a stage after it. -/
def reporting : DefaultL1 where
  pipeline := [workflowStage platform executor single [], { name := "report", execute := fun _ => pure () }]

/-- The first drive parks on the step. -/
def parkedRun : Noted Milestone World := (steady.drives (reporting.runNoted "g" tenant none) { world := unused }).2

def answeredWorld : World :=
  { parkedRun.world with results := [{
      runId := "r"
      stepRef := "a"
      taskId := "a"
      idempotencyKey := "a"
      tenantId := "t"
      result := { status := "ok", taskId := "a" } }] }

/-- Two workflows, the one after the other. -/
def twoWorkflows : DefaultL1 where
  pipeline := [workflowStage platform { coordinator := { inProcess := some {} }, defaultMode := "in_process" } single [],
    workflowStage platform executor { single with name := "v" } []]

def completes : Option (Except Exn OrchestrationResult × Unit) → Bool
  | some (.ok out, _) => out.status = "completed"
  | _ => false

theorem completes_spec {r : Option (Except Exn OrchestrationResult × Unit)} (done : completes r = true) :
    ∃ out, r = some (.ok out, ()) ∧ out.status = "completed" := by
  match r, done with
  | some (.ok out, ()), done => exact ⟨out, rfl, of_decide_eq_true done⟩

end Sample

open Sample

/-- Parked, taken up again, and completed with both stages. -/
theorem stages_once_in_order_parked : ∃ r m, History reporting "r" r m ∧ m.notes.Pairwise (Milestone.Apart reporting.pipeline) ∧
    ((List.range 2).map Milestone.returned).Sublist m.notes := by
  have begun : History reporting "r" _ parkedRun := .begun (w := unused) steady "g" tenant none rfl rfl
  have history : History reporting "r" _ _ := .resumed (w := answeredWorld) steady begun rfl
  have leaves : ∀ stage ∈ reporting.pipeline, stage.LeavesProgress := by
    intro stage member
    rcases List.mem_cons.mp member with rfl | last
    · exact workflowStage_leavesProgress
    · obtain rfl := List.mem_singleton.mp last
      intro info work condition gate parks
      cases parks
  have kept := stages_once_in_order reporting "r" (by decide) leaves history
  obtain ⟨out, answered, completed⟩ := completes_spec
    (r := (steady.drives (reporting.resumeRunNoted "r") { parkedRun with world := answeredWorld }).1) (by decide +kernel)
  exact ⟨_, _, history, kept.1, kept.2 out answered completed⟩

/-- Of two workflows the second is taken for the first: it is skipped, and the run completes. -/
theorem second_workflow_skipped : ¬ ∀ (l1 : DefaultL1) (runId : RunId) (r : Option (Except Exn OrchestrationResult × Unit))
    (m : Noted Milestone World), History l1 runId r m → m.notes.Pairwise (Milestone.Apart l1.pipeline) ∧
      ∀ out, r = some (.ok out, ()) → out.status = "completed" →
        ((List.range l1.pipeline.length).map Milestone.returned).Sublist m.notes := by
  intro whole
  obtain ⟨out, answered, completed⟩ := completes_spec
    (r := (steady.drives (twoWorkflows.runNoted "g" tenant none) { world := unused }).1) (by decide +kernel)
  have through := (whole twoWorkflows "r" _ _ (.begun steady "g" tenant none rfl rfl)).2 out answered completed
  have returned := through.subset (List.mem_map_of_mem (List.mem_range.mpr (show 1 < 2 by decide)))
  have never : Milestone.returned 1 ∉
      (steady.drives (twoWorkflows.runNoted "g" tenant none) { world := unused }).2.notes := by decide +kernel
  exact never returned

end Maof
