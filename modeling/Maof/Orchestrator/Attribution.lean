import Maof.Orchestrator.Discipline

/-!
# Attribution

The actor of a task envelope and of the driver's events is the principal of the
context a drive runs on. A fresh context has the principal the run was started
with; a context read back from a checkpoint has none.
-/

namespace Maof

open Effects (Act Prog Protocol Machine Pool Proc Label)

/-- For whom a process acts: the principal it was given, the run it started, and
the run and principal of the context it works on. -/
structure Attribution where
  principal : Option Principal := none
  started : Option (RunId × Option Principal) := none
  acts : Option (RunId × Option Principal) := none

namespace Attribution

def ofActor : Actor → Attribution
  | .run _ _ principal => { principal }
  | _ => {}

def mark (g : Attribution) : (op : Op) → Except Exn op.Ans → Attribution
  | .create _ _, .ok r => { g with started := some (r, g.principal), acts := some (r, g.principal) }
  | .load r, .ok (some _) => { g with acts := some (r, none) }
  | _, _ => g

/-- The event is about the run and names its actor. -/
def names (event : AuditEvent) (r : RunId) (principal : Option Principal) : Prop :=
  event.envelope = [("run_id", .str r)] ∧ event.actor = principal.map Principal.asActor

def allowed (g : Attribution) : Op → Prop
  | .create _ _ => g.started = none
  | .stage info _ => g.acts = some (info.runId, info.principal)
  | .emit event => ∃ r principal, g.acts = some (r, principal) ∧ names event r principal
  | .save r _ blob => (∃ principal, g.acts = some (r, principal)) ∧ runOf blob = some r
  | _ => True

def answers : (op : Op) → Except Exn op.Ans → Prop
  | .load r, reply => ∀ blob, reply = .ok (some blob) → runOf blob = some r
  | _, _ => True

def protocol : Protocol RunSig Attribution := ⟨allowed, answers, mark⟩

end Attribution

open Attribution

/-! ## What a drive calls -/

/-- The calls a drive makes about the context it runs on. -/
def DriveOp (info : RunInfo) : Op → Prop
  | .stage i _ => i = info
  | .emit event => names event info.runId info.principal
  | .save r _ blob => r = info.runId ∧ runOf blob = some r
  | .create _ _ | .load _ | .saveResult _ | .validate _ => False
  | _ => True

section uses

variable {l1 : DefaultL1} {info : RunInfo}

theorem call_uses (op : Op) (mine : DriveOp info op) :
    (runCall op : DriverM op.Ans).Uses (DriveOp info) :=
  Act.uses_await (S := RunSig) mine

theorem emit_uses {eventType : String} {details : Data.Dict String Json} :
    (l1.emit info eventType details).Uses (DriveOp info) := by
  unfold DefaultL1.emit
  split
  · exact Act.uses_get_bind fun work => Act.uses_await ⟨rfl, rfl⟩
  · exact Act.uses_pure _

theorem save_uses {label : String} : (l1.save info label).Uses (DriveOp info) := by
  unfold DefaultL1.save
  split
  · exact Act.uses_get_bind fun work => Act.uses_await ⟨rfl, runOf_serialize _⟩
  · exact Act.uses_pure _

theorem leave_uses {status : RunStatus} {eventType : String} {details : Data.Dict String Json}
    {out : Work → OrchestrationResult} :
    (do DefaultL1.setStatus info status
        l1.emit info eventType details
        let work ← Act.get
        return out work : DriverM OrchestrationResult).Uses (DriveOp info) :=
  Act.uses_bind (call_uses (.setState _ _) trivial) fun _ =>
    Act.uses_bind emit_uses fun _ => Act.uses_get_bind fun _ => Act.uses_pure _

theorem runStage_uses {stage : PipelineStage} {completed : List String} :
    (l1.runStage info stage completed).Uses (DriveOp info) := by
  have body : (l1.executed info stage completed).Uses (DriveOp info) := by
    refine Act.uses_bind (fun s => Prog.Uses.lift (Prog.Uses.all (fun so => rfl) _)) fun _ => ?_
    refine Act.uses_bind (Act.uses_modify _) fun _ => Act.uses_bind save_uses fun _ => ?_
    exact Act.uses_bind emit_uses fun _ => call_uses (.appendTrace _ _) trivial
  rw [DefaultL1.runStage_eq]
  split
  · exact Act.uses_bind (Act.uses_modify _) fun _ => body
  · exact body

theorem stages_uses {stages : List PipelineStage} {completed : List String} :
    (l1.stages info stages completed).Uses (DriveOp info) := by
  induction stages generalizing completed with
  | nil => exact Act.uses_pure _
  | cons stage stages ih =>
      simp only [DefaultL1.stages]
      split
      · exact ih
      · refine Act.uses_bind (Act.uses_bind (call_uses (.getState _) trivial)
          fun _ => Act.uses_pure _) fun cancelled => ?_
        cases cancelled with
        | true => exact Act.uses_bind leave_uses fun _ => Act.uses_pure _
        | false => exact Act.uses_bind runStage_uses fun _ => ih

theorem handler_uses (e : Exn) : (l1.leave info e).Uses (DriveOp info) := by
  cases e with
  | needsWait condition gate =>
      refine Act.uses_bind (Act.uses_bind save_uses fun _ => ?_) fun _ => Act.uses_pure _
      split
      · exact Act.uses_bind (call_uses (.schedule _ _ _) trivial) fun _ => leave_uses
      · exact leave_uses
  | policyDenied reason => exact Act.uses_bind leave_uses fun _ => Act.uses_pure _
  | approvalRequired reason => exact Act.uses_bind leave_uses fun _ => Act.uses_pure _
  | _ => exact Act.uses_throw _

theorem drive_uses : (l1.drive info).Uses (DriveOp info) := by
  refine Act.uses_get_bind fun work => Act.uses_bind (call_uses (.setState _ _) trivial)
    fun _ => Act.uses_bind (Act.uses_tryCatch stages_uses handler_uses) fun out => ?_
  cases out with
  | some out => exact Act.uses_pure _
  | none => exact leave_uses

/-- The event that opens a drive, and the drive. -/
theorem drive_from_context_uses {sc : StageContext} {eventType : String}
    {details : Data.Dict String Json} :
    (do l1.emitFor sc eventType details
        l1.driveFrom sc : Act RunSig Unit OrchestrationResult).Uses (DriveOp sc.info) :=
  Act.uses_bind (fun _ => Prog.Uses.bind (emit_uses _) fun _ => trivial) fun _ _ =>
    Prog.Uses.bind (drive_uses _) fun _ => trivial

end uses

/-! ## Every process is attributed -/

section follows

variable {l1 : DefaultL1}

/-- A program that is attributed from any tag. -/
abbrev Attributed {α : Type} (m : Act RunSig Unit α) : Prop :=
  ∀ g, m.Follows protocol (fun _ _ _ => True) () g

theorem attributed_bind {α β : Type} {m : Act RunSig Unit α} {f : α → Act RunSig Unit β}
    (first : Attributed m) (rest : ∀ a, Attributed (f a)) : Attributed (m >>= f) :=
  fun g => Act.follows_bind (first g) (fun a _ g' _ => rest a g') fun _ _ _ _ => trivial

theorem attributed_pure {α : Type} (a : α) : Attributed (pure a : Act RunSig Unit α) :=
  fun _ => Act.follows_pure trivial

theorem attributed_ofExcept {α : Type} (r : Except Exn α) :
    Attributed (Act.ofExcept r : Act RunSig Unit α) :=
  fun _ => Act.follows_ofExcept trivial

theorem attributed_await (op : Op) {g : Attribution} {post : Except Exn op.Ans → Unit → Attribution → Prop}
    (free : Attribution.allowed g op)
    (after : ∀ r, Attribution.answers op r → post r () (Attribution.mark g op r)) :
    (runCall op : Act RunSig Unit op.Ans).Follows protocol post () g :=
  ⟨free, after⟩

theorem attributed_call {op : Op} (free : ∀ g, Attribution.allowed g op) :
    Attributed (runCall op : Act RunSig Unit op.Ans) :=
  fun g => attributed_await op (free g) fun _ _ => trivial

theorem follows_context {sc : StageContext} {eventType : String} {details : Data.Dict String Json}
    {g : Attribution} (acts : g.acts = some (sc.info.runId, sc.info.principal)) :
    (do l1.emitFor sc eventType details
        l1.driveFrom sc : Act RunSig Unit OrchestrationResult).Follows protocol
      (fun _ _ _ => True) () g := by
  refine Prog.Follows.weaken (Prog.Follows.ofUses (drive_from_context_uses ()) ?_ ?_)
    fun _ _ _ => trivial
  · intro op mine
    cases op with
    | stage info so => exact mine ▸ acts
    | emit event => exact ⟨_, _, acts, mine⟩
    | save r label blob => exact ⟨⟨_, mine.1 ▸ acts⟩, mine.2⟩
    | create _ _ => cases mine
    | load _ => cases mine
    | _ => trivial
  · intro op reply mine
    cases op with
    | create _ _ => cases mine
    | load _ => cases mine
    | _ => cases reply <;> rfl

theorem run_attributed {goal : String} {tenant : TenantContext} {principal : Option Principal} :
    (l1.run goal tenant principal).Follows protocol (fun _ _ _ => True) () { principal } := by
  refine Act.follows_bind (Q := fun r _ g => ∀ id, r = .ok id → g.acts = some (id, principal)) ?_ ?_
    fun _ _ _ _ => trivial
  · refine attributed_await (.create tenant goal) rfl ?_
    rintro r _ id rfl
    rfl
  · exact fun id _ g acts => follows_context (acts id rfl)

theorem resumeRun_attributed {runId : RunId} : Attributed (l1.resumeRun runId) := by
  intro g
  unfold DefaultL1.resumeRun
  split
  · exact Act.follows_throw trivial
  · refine Act.follows_bind (Q := fun r _ g => ∀ blob, r = .ok (some blob) →
        runOf blob = some runId ∧ g.acts = some (runId, none)) ?_ ?_ fun _ _ _ _ => trivial
    · refine attributed_await (.load runId) trivial ?_
      rintro r known blob rfl
      exact ⟨known blob rfl, rfl⟩
    · rintro (_ | blob) _ g loaded
      · exact Act.follows_throw trivial
      · obtain ⟨mine, acts⟩ := loaded blob rfl
        unfold runOf at mine
        split at mine
        · next sc read =>
            simp only [Act.ofExcept]
            simp only [read]
            obtain rfl := Option.some.inj mine
            refine Act.follows_pure_bind (follows_context ?_)
            rw [acts, checkpointDeserialize_principal read]
        · cases mine

theorem resumeAll_attributed {due : List RunId} : Attributed (WakerPoller.resumeAll l1 due) := by
  induction due with
  | nil => exact attributed_pure _
  | cons r due ih => exact attributed_bind resumeRun_attributed fun _ => ih

theorem handle_attributed {collector : ResultCollector} {msg : Delivery} :
    Attributed (collector.handle l1 msg) := by
  have deliver : ∀ envelope : ResultEnvelope, Attributed (do
      if ← runCall (.saveResult envelope) then
        if ← runCall (.satisfyResults envelope.runId envelope.stepRef) then
          let _ ← l1.resumeRun envelope.runId : Act RunSig Unit Unit) := by
    intro envelope
    refine attributed_bind (attributed_call fun _ => trivial) fun fresh => ?_
    split
    · refine attributed_bind (attributed_call fun _ => trivial) fun claimed => ?_
      split
      · exact attributed_bind resumeRun_attributed fun _ => attributed_pure _
      · exact attributed_pure _
    · exact attributed_pure _
  refine attributed_bind (attributed_ofExcept _) fun envelope => ?_
  simp only
  split
  · exact attributed_bind (attributed_call fun _ => trivial) fun _ => deliver envelope
  · exact deliver envelope

theorem authorized_attributed {runId : RunId} {authorize : Option (String → Except Exn Unit)} :
    Attributed (RunOps.authorized runId authorize) := by
  cases authorize with
  | none => exact attributed_pure _
  | some check =>
      refine attributed_bind (attributed_call fun _ => trivial) fun owner => ?_
      cases owner with
      | none => exact attributed_pure _
      | some owner => exact attributed_bind (attributed_ofExcept _) fun _ => attributed_pure _

theorem cancel_attributed {runId : RunId} {authorize : Option (String → Except Exn Unit)} :
    Attributed (RunOps.cancel runId authorize) := by
  have finalize : Attributed (do
      runCall (.finalizeCancel runId)
      runCall (.cancelWakeups runId) : Act RunSig Unit Unit) :=
    attributed_bind (attributed_call fun _ => trivial) fun _ => attributed_call fun _ => trivial
  refine attributed_bind authorized_attributed fun go => ?_
  split
  · refine attributed_bind (attributed_call fun _ => trivial) fun _ =>
      attributed_bind (attributed_call fun _ => trivial) fun status => ?_
    split
    · exact finalize
    · exact finalize
    · exact attributed_pure _
  · exact attributed_pure _

theorem tick_attributed : Attributed (WakerPoller.tick l1) := by
  refine attributed_bind (attributed_call fun _ => trivial) fun timers => ?_
  exact attributed_bind (attributed_call fun _ => trivial) fun joins => resumeAll_attributed

theorem wake_attributed {eventKey : String} {authorize : Except Exn Unit} :
    Attributed (RunOps.wake eventKey authorize) := by
  refine attributed_bind (attributed_ofExcept _) fun _ => ?_
  exact attributed_call fun _ => trivial

theorem program_attributed (o : Orchestrator) (a : Actor) :
    (o.program a).Follows protocol (fun _ _ => True) (ofActor a) := by
  have process : ∀ {α : Type} {m : Act RunSig Unit α} {g : Attribution},
      m.Follows protocol (fun _ _ _ => True) () g →
      (toProcess m).Follows protocol (fun _ _ => True) g :=
    fun follows => Prog.Follows.bind follows fun _ _ _ => trivial
  cases a with
  | run goal tenant principal => exact process run_attributed
  | resume runId => exact process (resumeRun_attributed _)
  | handle msg => exact process (handle_attributed _)
  | tick => exact process (tick_attributed _)
  | cancel runId authorize => exact process (cancel_attributed _)
  | wake eventKey authorize => exact process (wake_attributed _)

end follows

/-! ## Who started what -/

open World

/-- A process of the pool started the run, for this principal. -/
def Starter (p : Pool RunSig World Attribution) (r : RunId) (principal : Option Principal) : Prop :=
  ∃ b ∈ p.procs, b.tag.started = some (r, principal)

/-- Some process started the run for a principal. -/
def principaled (p : Pool RunSig World Attribution) (r : RunId) : Bool :=
  p.procs.any fun b => match b.tag.started with
    | some (r', some _) => decide (r' = r)
    | _ => false

/-- Runs have one starter, and all that was said of a run was said for its starter's principal. -/
structure Credited (p : Pool RunSig World Attribution) : Prop where
  named : World.Named p.world
  rows : ∀ r a, Starter p r a → p.world.runs r ≠ none
  unique : ∀ r a a', Starter p r a → Starter p r a' → a = a'
  acting : ∀ b ∈ p.procs, ∀ r a, b.tag.acts = some (r, a) → Starter p r a
  saved : ∀ r, p.world.checkpoints r ≠ none → ∃ a, Starter p r a
  sent : ∀ m ∈ p.world.published, ∃ a, Starter p m.message.envelope.runId a ∧
    m.message.envelope.actor = a.map Principal.asActor
  told : ∀ e ∈ p.world.events, ∃ r a, Starter p r a ∧ names e r a

/-- No run started for a principal is resumed: no load of its checkpoint answers. -/
def unresumed (p : Pool RunSig World Attribution) : Label Choice Actor EnvMove → Bool
  | .run i c => match p.next i with
      | some (.load r) => c.fault.isSome || (p.world.checkpoints r).isNone || !principaled p r
      | _ => true
  | _ => true

section steps

variable {dep : Deployment} {p : Pool RunSig World Attribution} {i : Nat} {c : Choice} {op : Op}
  {k : Except Exn op.Ans → Prog RunSig (Except Exn Unit)} {g : Attribution}

theorem mark_started (plain : ∀ tenant goal, op ≠ .create tenant goal) (reply : Except Exn op.Ans) :
    (Attribution.mark g op reply).started = g.started := by
  cases op with
  | create tenant goal => exact absurd rfl (plain tenant goal)
  | load r => rcases reply with e | (_ | blob) <;> rfl
  | _ => rfl

theorem mark_load {r r' : RunId} {a : Option Principal} {reply : Except Exn (Option Json)}
    (h : (Attribution.mark g (.load r) reply).acts = some (r', a)) :
    g.acts = some (r', a) ∨ (∃ blob, reply = .ok (some blob)) ∧ r' = r ∧ a = none := by
  rcases reply with e | (_ | blob)
  · exact .inl h
  · exact .inl h
  · cases h
    exact .inr ⟨⟨blob, rfl⟩, rfl, rfl⟩

theorem Starter.set {b b' : Proc RunSig Attribution} {w : World} {r : RunId} {a : Option Principal}
    (starter : Starter p r a) (found : p.procs[i]? = some b')
    (mine : b'.tag.started = some (r, a) → b.tag.started = some (r, a)) :
    Starter ⟨w, p.procs.set i b⟩ r a := by
  have inside : i < p.procs.length := (List.getElem?_eq_some_iff.mp found).1
  obtain ⟨x, member, started⟩ := starter
  obtain ⟨j, found'⟩ := List.getElem?_of_mem member
  by_cases same : j = i
  · subst same
    cases found.symm.trans found'
    exact ⟨b, List.mem_of_getElem? (List.getElem?_set_self inside), mine started⟩
  · exact ⟨x, List.mem_of_getElem? (i := j) (by rwa [List.getElem?_set_ne (Ne.symm same)]), started⟩

/-- A move of a process that starts nothing. -/
theorem Credited.moved {b b' : Proc RunSig Attribution} {w : World} (credited : Credited p)
    (found : p.procs[i]? = some b') (started : b.tag.started = b'.tag.started)
    (named : World.Named w) (rows : ∀ r, p.world.runs r ≠ none → w.runs r ≠ none)
    (acting : ∀ r a, b.tag.acts = some (r, a) → Starter p r a)
    (saved : ∀ r, w.checkpoints r ≠ none → p.world.checkpoints r ≠ none ∨ ∃ a, Starter p r a)
    (sent : ∀ m ∈ w.published, m ∈ p.world.published ∨ ∃ a, Starter p m.message.envelope.runId a ∧
      m.message.envelope.actor = a.map Principal.asActor)
    (told : ∀ e ∈ w.events, e ∈ p.world.events ∨ ∃ r a, Starter p r a ∧ names e r a) :
    Credited ⟨w, p.procs.set i b⟩ := by
  have later : ∀ {r a}, Starter p r a → Starter ⟨w, p.procs.set i b⟩ r a :=
    fun starter => starter.set found fun mine => started.trans mine
  have old : ∀ {r a}, Starter ⟨w, p.procs.set i b⟩ r a → Starter p r a := by
    rintro r a ⟨b', member, mine⟩
    rcases Machine.mem_set member with rfl | before
    · exact ⟨_, List.mem_of_getElem? found, started.symm.trans mine⟩
    · exact ⟨b', before, mine⟩
  refine ⟨named, fun r a starter => rows r (credited.rows r a (old starter)),
    fun r a a' starter starter' => credited.unique r a a' (old starter) (old starter'), ?_, ?_, ?_, ?_⟩
  · intro b' member r a acts
    rcases Machine.mem_set member with rfl | before
    · exact later (acting r a acts)
    · exact later (credited.acting b' before r a acts)
  · intro r there
    rcases saved r there with before | ⟨a, starter⟩
    · obtain ⟨a, starter⟩ := credited.saved r before
      exact ⟨a, later starter⟩
    · exact ⟨a, later starter⟩
  · intro m member
    rcases sent m member with before | ⟨a, starter, same⟩
    · obtain ⟨a, starter, same⟩ := credited.sent m before
      exact ⟨a, later starter, same⟩
    · exact ⟨a, later starter, same⟩
  · intro e member
    rcases told e member with before | ⟨r, a, starter, same⟩
    · obtain ⟨r, a, starter, same⟩ := credited.told e before
      exact ⟨r, a, later starter, same⟩
    · exact ⟨r, a, later starter, same⟩

/-- A call that answers nothing the process is attributed by. -/
theorem plain_credited (credited : Credited p) (found : p.procs[i]? = some ⟨.call op k, g⟩)
    (allowed : Attribution.allowed g op) {b : Proc RunSig Attribution}
    (started : b.tag.started = g.started)
    (acting : ∀ r a, b.tag.acts = some (r, a) → Starter p r a) :
    Credited ⟨(perform dep c p.world op).1, p.procs.set i b⟩ := by
  have mine : ∀ r a, g.acts = some (r, a) → Starter p r a :=
    credited.acting _ (List.mem_of_getElem? found)
  refine credited.moved found started (perform_named credited.named ?_) (fun r => runs_perform) acting
    (fun r there => ?_) (fun m member => ?_) fun e member => ?_
  · rintro r label blob rfl
    exact allowed.2
  · obtain ⟨⟨label, blob⟩, saved⟩ := Option.ne_none_iff_exists'.mp there
    rcases checkpoints_from saved with old | rfl
    · exact .inl (Option.ne_none_iff_exists'.mpr ⟨_, old⟩)
    · obtain ⟨a, acts⟩ := allowed.1
      exact .inr ⟨a, mine r a acts⟩
  · rcases published_from member with old | ⟨info, q, rfl, rfl⟩
    · exact .inl old
    · exact .inr ⟨info.principal, mine info.runId info.principal allowed, rfl⟩
  · rcases events_from member with old | rfl
    · exact .inl old
    · obtain ⟨r, a, acts, same⟩ := allowed
      exact .inr ⟨r, a, mine r a acts, same⟩

/-- A run that is created had no row, so no starter. -/
theorem create_credited {tenant : TenantContext} {goal : String}
    {k : Except Exn RunId → Prog RunSig (Except Exn Unit)} (credited : Credited p)
    (found : p.procs[i]? = some ⟨.call (.create tenant goal) k, g⟩) (first : g.started = none) :
    let out := perform dep c p.world (.create tenant goal)
    Credited ⟨out.1, p.procs.set i ⟨k out.2, Attribution.mark g (.create tenant goal) out.2⟩⟩ := by
  intro out
  have mine : ∀ r a, g.acts = some (r, a) → Starter p r a :=
    credited.acting _ (List.mem_of_getElem? found)
  cases reply : out.2 with
  | error e => exact plain_credited credited found first rfl mine
  | ok id =>
      have took : out = effect dep c p.world true (.create tenant goal) := perform_ok reply
      obtain ⟨fresh, world, rfl⟩ : p.world.runs c.text = none ∧ out.1 = { p.world with
          runs := Function.update p.world.runs c.text (some { tenantId := tenant.tenantId, goal }) } ∧
          id = c.text := by
        simp only [took, effect] at reply ⊢
        split at reply
        · cases reply
        · next none => cases reply; exact ⟨none, by simp only, rfl⟩
      have inside : i < p.procs.length := (List.getElem?_eq_some_iff.mp found).1
      have started : (Attribution.mark g (.create tenant goal) (.ok c.text)).started =
          some (c.text, g.principal) := rfl
      have later : ∀ {r a}, Starter p r a → Starter ⟨out.1, p.procs.set i ⟨k (.ok c.text),
          Attribution.mark g (.create tenant goal) (.ok c.text)⟩⟩ r a :=
        fun starter => starter.set found fun none => by rw [first] at none; cases none
      have mine' : Starter ⟨out.1, p.procs.set i ⟨k (.ok c.text),
          Attribution.mark g (.create tenant goal) (.ok c.text)⟩⟩ c.text g.principal :=
        ⟨_, List.mem_of_getElem? (List.getElem?_set_self inside), started⟩
      have old : ∀ {r a}, Starter ⟨out.1, p.procs.set i ⟨k (.ok c.text),
          Attribution.mark g (.create tenant goal) (.ok c.text)⟩⟩ r a →
          Starter p r a ∨ (r = c.text ∧ a = g.principal) := by
        rintro r a ⟨b', member, here⟩
        rcases Machine.mem_set member with rfl | before
        · cases started.symm.trans here
          exact .inr ⟨rfl, rfl⟩
        · exact .inl ⟨b', before, here⟩
      have unstarted : ∀ {a}, ¬ Starter p c.text a := fun starter => credited.rows _ _ starter fresh
      refine ⟨?_, ?_, ?_, ?_, ?_, ?_, ?_⟩
      · simp only [world]
        exact credited.named
      · intro r a starter
        simp only [world]
        rcases old starter with before | ⟨rfl, _⟩
        · have there := credited.rows r a before
          by_cases same : r = c.text
          · simp [same]
          · simpa [Function.update_apply, same] using there
        · simp
      · intro r a a' starter starter'
        rcases old starter with before | ⟨rfl, rfl⟩ <;> rcases old starter' with before' | ⟨same, rfl⟩
        · exact credited.unique r a a' before before'
        · exact absurd (same ▸ before) unstarted
        · exact absurd before' unstarted
        · rfl
      · intro b' member r a acts
        rcases Machine.mem_set member with rfl | before
        · cases acts
          exact mine'
        · exact later (credited.acting b' before r a acts)
      · intro r there
        simp only [world] at there
        obtain ⟨a, starter⟩ := credited.saved r there
        exact ⟨a, later starter⟩
      · intro m member
        simp only [world] at member
        obtain ⟨a, starter, same⟩ := credited.sent m member
        exact ⟨a, later starter, same⟩
      · intro e member
        simp only [world] at member
        obtain ⟨r, a, starter, same⟩ := credited.told e member
        exact ⟨r, a, later starter, same⟩

end steps

namespace Orchestrator

variable (o : Orchestrator)

/-- The orchestrator with the attribution of each process beside it. -/
def attributed : Machine RunSig World Choice Actor EnvMove Attribution :=
  o.machine Attribution.ofActor Attribution.mark

variable {o}

theorem step_credited {p q : Pool RunSig World Attribution} {l : Label Choice Actor EnvMove}
    (credited : Credited p) (follow : Machine.AllFollow protocol (fun _ _ => True) p)
    (met : unresumed p l = true) (h : o.attributed.step p l = some q) :
    Credited q ∧ Machine.AllFollow protocol (fun _ _ => True) q := by
  refine ⟨?_, Machine.step_allFollow rfl (program_attributed o) follow h ?_⟩
  · rcases Machine.step_cases h with ⟨a, rfl, rfl⟩ | ⟨i, c, op, k, g, rfl, found, rfl⟩ |
      ⟨i, b, rfl, found, rfl⟩ | ⟨e, rfl, rfl⟩
    · -- a process starts and acts for nothing before its first call
      have blank : (ofActor a).started = none ∧ (ofActor a).acts = none := by cases a <;> exact ⟨rfl, rfl⟩
      have same : ∀ r x, Starter { p with procs := p.procs ++
          [⟨o.attributed.program a, o.attributed.tag a⟩] } r x ↔ Starter p r x := by
        refine fun r x => ⟨fun ⟨b, member, mine⟩ => ?_,
          fun ⟨b, member, mine⟩ => ⟨b, List.mem_append_left _ member, mine⟩⟩
        rcases List.mem_append.mp member with before | new
        · exact ⟨b, before, mine⟩
        · rw [List.mem_singleton.mp new] at mine
          cases blank.1.symm.trans mine
      refine ⟨credited.named, ?_, ?_, fun b member r x acts => ?_, ?_, ?_, ?_⟩
      · simpa only [same] using credited.rows
      · simpa only [same] using credited.unique
      · rw [same]
        rcases List.mem_append.mp member with before | new
        · exact credited.acting b before r x acts
        · rw [List.mem_singleton.mp new] at acts
          cases blank.2.symm.trans acts
      · simpa only [same] using credited.saved
      · simpa only [same] using credited.sent
      · simpa only [same] using credited.told
    · have allowed := follow.allowed found
      have mine : ∀ r a, g.acts = some (r, a) → Starter p r a :=
        credited.acting _ (List.mem_of_getElem? found)
      cases op with
      | create tenant goal => exact create_credited credited found allowed
      | load r =>
          refine plain_credited credited found allowed (mark_started (by rintro _ _ ⟨⟩) _) ?_
          intro r' a acts
          rcases mark_load acts with old | ⟨⟨blob, reply⟩, rfl, rfl⟩
          · exact mine r' a old
          · -- the run has a starter, and not one with a principal
            have took := (congrArg Prod.snd (perform_ok reply)).symm.trans reply
            simp only [effect, Except.ok.injEq, Option.map_eq_some_iff] at took
            obtain ⟨kept, there, _⟩ := took
            obtain ⟨a, b, member, started⟩ := credited.saved r' (by rw [there]; rintro ⟨⟩)
            cases a with
            | none => exact ⟨b, member, started⟩
            | some principal =>
                have known : principaled p r' = true :=
                  List.any_eq_true.mpr ⟨b, member, by simp [started]⟩
                simp [unresumed, Pool.next_eq found, fault_none reply, there, known] at met
      | _ =>
          refine plain_credited credited found allowed ?_ fun r a acts => mine r a ?_
          · rfl
          · exact acts
    · exact credited.moved found rfl credited.named (fun _ => id)
        (credited.acting b (List.mem_of_getElem? found)) (fun _ => .inl) (fun _ => .inl) fun _ => .inl
    · cases e <;> exact ⟨credited.named, credited.rows, credited.unique, credited.acting,
        credited.saved, credited.sent, credited.told⟩
  · rintro i c op k g rfl found
    cases op with
    | load r => exact World.perform_answers credited.named (.load r)
    | _ => trivial

end Orchestrator

open Orchestrator

/-- As long as no run started for a principal is resumed, every task published for
such a run and every event the driver emits about it names that principal. -/
theorem actor_kept (o : Orchestrator) (registry : List RegistryEntry)
    (rulesets : String → String → Option LoadedRuleset) (clock : Int)
    {q : Pool RunSig World Attribution}
    (run : Machine.Run o.attributed unresumed
      (Orchestrator.start Attribution (World.fresh registry rulesets clock)) q)
    {r : RunId} {principal : Principal} (started : Starter q r (some principal)) :
    (∀ m ∈ q.world.published, m.message.envelope.runId = r →
      m.message.envelope.actor = some principal.asActor) ∧
    ∀ e ∈ q.world.events, e.envelope = [("run_id", .str r)] → e.actor = some principal.asActor := by
  obtain ⟨credited, _⟩ := run.invariant
    (I := fun p => Credited p ∧ Machine.AllFollow protocol (fun _ _ => True) p)
    (by
      have idle : ∀ b, b ∉ (Orchestrator.start Attribution (World.fresh registry rulesets clock)).procs := by
        simp [Orchestrator.start]
      refine ⟨⟨fun r label blob none => ?_, ?_, ?_, ?_, fun r there => ?_, fun m none => ?_,
        fun e none => ?_⟩, fun b member => absurd member (idle b)⟩
      · exact absurd none (by simp [Orchestrator.start, World.fresh])
      · rintro r a ⟨b, member, _⟩
        exact absurd member (idle b)
      · rintro r a a' ⟨b, member, _⟩
        exact absurd member (idle b)
      · exact fun b member => absurd member (idle b)
      · exact absurd rfl there
      · exact absurd none (by simp [Orchestrator.start, World.fresh])
      · exact absurd none (by simp [Orchestrator.start, World.fresh]))
    fun p l q held met step => step_credited held.1 held.2 met step
  refine ⟨fun m member mine => ?_, fun e member mine => ?_⟩
  · obtain ⟨a, starter, same⟩ := credited.sent m member
    rw [mine] at starter
    rw [same, credited.unique r a (some principal) starter started]
    rfl
  · obtain ⟨r', a, starter, about, same⟩ := credited.told e member
    rw [mine] at about
    simp only [List.cons.injEq, Prod.mk.injEq, Json.str.injEq, true_and, and_true] at about
    subst about
    rw [same, credited.unique r a (some principal) starter started]
    rfl

namespace Sample

def user : Principal := { id := "u" }

/-- The pool's first process started `r` for the user. -/
theorem starter_user {q : Pool RunSig World Attribution}
    (h : (q.procs.any fun b => decide (b.tag.started = some ("r", some user))) = true) :
    Starter q "r" (some user) := by
  obtain ⟨b, member, mine⟩ := List.any_eq_true.mp h
  exact ⟨b, member, by simpa using mine⟩

end Sample

open Sample in
/-- A run that dispatches its step and parks. -/
theorem actor_kept_parked : ∃ q : Pool RunSig World Attribution, q.world.published ≠ [] ∧
    ∀ m ∈ q.world.published, m.message.envelope.runId = "r" →
      m.message.envelope.actor = some user.asActor := by
  obtain ⟨q, run, met⟩ := Machine.follow_any (orchestrator single).attributed unresumed
    (Orchestrator.start Attribution (World.fresh [] (fun _ _ => none) 0))
    ([.spawn (.run "g" tenant (some user))] ++ calls 0 12)
    (fun q => (q.procs.any fun b => decide (b.tag.started = some ("r", some user))) &&
      !q.world.published.isEmpty)
    (by decide +kernel)
  simp only [Bool.and_eq_true, Bool.not_eq_true', List.isEmpty_eq_false_iff] at met
  exact ⟨q, met.2, (actor_kept _ _ _ _ run (starter_user met.1)).1⟩

namespace Sample

/-- Two queue steps, the second after the first. -/
def chain : WorkflowDefinition :=
  { name := "w", version := 1, steps := [{ id := "a" }, { id := "b", dependsOn := ["a"] }] }

end Sample

open Sample in
/-- The step dispatched after the first park names nobody. -/
theorem resumed_actor_lost : ¬ ∀ (o : Orchestrator) (registry : List RegistryEntry)
    (rulesets : String → String → Option LoadedRuleset) (clock : Int)
    (q : Pool RunSig World Attribution),
    Machine.Run o.attributed (fun _ _ => true)
      (Orchestrator.start Attribution (World.fresh registry rulesets clock)) q →
    ∀ r principal, Starter q r (some principal) → ∀ m ∈ q.world.published,
      m.message.envelope.runId = r → m.message.envelope.actor = some principal.asActor := by
  intro kept
  obtain ⟨q, run, met⟩ := Machine.follow_any (orchestrator chain).attributed (fun _ _ => true)
    (Orchestrator.start Attribution (World.fresh [] (fun _ _ => none) 0))
    ([.spawn (.run "g" tenant (some user))] ++ calls 0 13 ++ [.spawn (.handle (resultOf "a"))] ++
      calls 1 10)
    (fun q => (q.procs.any fun b => decide (b.tag.started = some ("r", some user))) &&
      q.world.published.any fun m => decide (m.message.envelope.runId = "r") &&
        m.message.envelope.actor.isNone)
    (by decide +kernel)
  simp only [Bool.and_eq_true, List.any_eq_true, decide_eq_true_eq, Option.isNone_iff_eq_none] at met
  obtain ⟨starter, m, member, mine, nobody⟩ := met
  have named := kept _ _ _ _ q run "r" user (starter_user (List.any_eq_true.mpr
    (by simpa using starter))) m member mine
  rw [nobody] at named
  cases named

end Maof
