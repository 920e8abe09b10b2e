import Maof.Workers.Answers
import Maof.Workflows.Posting

/-!
# A join and the message it waits for

A run is parked on the result of a step whose task message went to the broker,
and what a worker makes of that message is a result of this run and this step.
-/

namespace Maof

open Data (Dict)
open Effects (Act Prog Protocol Machine Pool Proc Label)

/-! ## The drive -/

section drive

variable {p : Platform} {d : WorkflowDefinition} {l1 : DefaultL1} {info : RunInfo}

/-- Between two stages the dispatched steps have their messages. -/
def tellings (p : Platform) (d : WorkflowDefinition) : Passage Posts where
  idle _ := True
  entered info _ work g := Told p d info work g
  left info e work g := Leaves p d info (.error e : Except Exn Unit) work g

theorem quiet_posts : Quiet (Posts.protocol p d) where
  allowed g op other := by
    cases op with
    | save _ _ _ => cases other
    | schedule _ _ _ => cases other
    | stage _ _ => cases other
    | _ => trivial
  mark g op reply other := by
    cases op with
    | load _ => cases other
    | stage _ _ => cases other
    | _ => rfl

theorem raised_calm {e : Exn} (raised : Raised (Posts.protocol p d) e) : e.waits = false := by
  obtain ⟨op, known⟩ := raised
  exact known e rfl

/-- A checkpoint is saved of a context whose dispatched steps have their messages. -/
theorem still_save {label : String} {work : Work} {g : Posts} (told : Told p d info work g) :
    (l1.save info label).Follows (Posts.protocol p d) (Still (Posts.protocol p d) work g) work g := by
  unfold DefaultL1.save
  split
  · apply Act.follows_get_bind
    refine Act.follows_await (S := RunSig) ⟨info, work, rfl, rfl, told⟩ fun r known => ⟨rfl, rfl, ?_⟩
    rintro e rfl
    exact ⟨_, known⟩
  · exact still_pure

theorem park_posts {condition : WakeCondition} {gate : Option StepId} {work : Work} {g : Posts}
    (told : Told p d info work g) (posted : Posted p d info.runId condition g) :
    (l1.park info condition gate).Follows (Posts.protocol p d) (fun _ _ _ => True) work g := by
  have left : (do
      DefaultL1.setStatus info .waiting
      l1.emit info "run_waiting" [("condition", .str condition.kind.value)]
      return DefaultL1.result info (← Act.get) "waiting" ("waiting on " ++ condition.kind.value) [] :
        DriverM OrchestrationResult).Follows (Posts.protocol p d) (fun _ _ _ => True) work g :=
    Act.Follows.weaken (still_leave quiet_posts) fun _ _ _ _ => trivial
  apply still_bind (still_save told)
  · intro _
    split
    · exact Act.follows_await_bind (S := RunSig) posted (fun _ _ => left) fun _ _ => trivial
    · exact left
  · exact fun _ _ => trivial

/-- A drive keeps every dispatched step with its message where its stages do. -/
theorem tellings_along (leaving : ∀ stage ∈ l1.pipeline, Leaving p d stage) : (tellings p d).Along (Posts.protocol p d) l1 where
  quiet := quiet_posts
  rests _ := trivial
  stops _ := trivial
  raises raised _ := leaves_of_calm (raised_calm raised)
  staged _ told := told
  takes {before stage after info completed work g} split _ _ told := by
    have member : stage ∈ l1.pipeline := split ▸ List.mem_append_right before List.mem_cons_self
    apply Prog.Follows.weaken (leaving stage member info work g told)
    rintro ⟨r, work'⟩ g' left
    cases r with
    | error e => exact left
    | ok a =>
        have kept : Told p d info (work'.recorded (completed ++ [stage.name])) g' := left
        apply Act.Follows.weaken (still_save kept)
        rintro r _ _ ⟨rfl, rfl, raised⟩
        exact ⟨rfl, kept, raised⟩
  parks left := by
    apply Act.Follows.weaken (park_posts left.1 left.2)
    exact fun _ _ _ _ _ _ => trivial
  creates _ _ _ := trivial
  fresh _ _ := by
    intro id dispatched
    cases dispatched
  loads _ _ := trivial
  resumed {g runId blob sc} _ _ read := by
    simp only [Posts.protocol, Posts.mark, read]
    intro id dispatched
    exact .inl (List.mem_append_right _ (List.mem_map_of_mem dispatched))

end drive

/-! ## In any interleaving -/

/-- The step has a name, and a message of it and the run was given to the broker. -/
def World.posted (w : World) (r : RunId) (id : StepId) : Prop :=
  id ≠ "" ∧ ∃ m ∈ w.published, m.sent = true ∧ m.message.envelope.runId = r ∧ m.message.task.stepRef = some id

/-- A message was given to the broker under this key. -/
def World.keyed (w : World) (key : String) : Prop := ∃ m ∈ w.published, m.sent = true ∧ m.idempotencyKey = key

/-- What a process knows is so. -/
structure Known (w : World) (g : Posts) : Prop where
  known : ∀ r id, (r, id) ∈ g.known → w.posted r id
  keys : ∀ key ∈ g.keys, w.keyed key

/-- A message published under the key of a step is that step's, of that run. -/
def Published.Honest (p : Platform) (d : WorkflowDefinition) (m : Published) : Prop :=
  ∀ step ∈ d.steps, ∀ r taskType payload, m.idempotencyKey = stepKey p d step r taskType payload →
    m.message.envelope.runId = r ∧ m.message.task.stepRef = some step.id

/-- What holds of the world between any two calls. -/
structure Correlated (p : Platform) (d : WorkflowDefinition) (w : World) : Prop where
  built : ∀ m ∈ w.published, ∃ info work task rulesetRef schemaId,
    m.message = buildTaskMessage info work task rulesetRef none schemaId
  honest : ∀ m ∈ w.published, m.Honest p d
  guarded : ∀ key, "publish:" ++ key ∈ w.onceKeys → w.keyed key
  grounded : ∀ r label blob, w.checkpoints r = some (label, blob) →
    ∃ sc, checkpointDeserialize blob = .ok sc ∧ sc.info.runId = r ∧ ∀ id ∈ sc.work.workflow.dispatched, w.posted r id
  awaited : ∀ row ∈ w.wakeups, row.condition.kind = .resultsReady → ∀ id, row.condition.stepRef = some id → w.posted row.runId id

namespace World

variable {dep : Deployment} {c : Choice} {w : World} {op : Op} {r : RunId} {id : StepId} {key : String}

theorem posted_perform (h : w.posted r id) : (perform dep c w op).1.posted r id := by
  obtain ⟨named, m, member, mine⟩ := h
  exact ⟨named, m, published_perform dep c w op member, mine⟩

theorem keyed_perform (h : w.keyed key) : (perform dep c w op).1.keyed key := by
  obtain ⟨m, member, mine⟩ := h
  exact ⟨m, published_perform dep c w op member, mine⟩

/-- A publication is there under its key, now or from before. -/
theorem publish_keyed (guarded : ∀ key, "publish:" ++ key ∈ w.onceKeys → w.keyed key) (info : RunInfo) (q : Publication)
    (record : Bool) : (w.publish info q record).keyed q.task.idempotencyKey := by
  by_cases held : (q.guarded && decide ("publish:" ++ q.task.idempotencyKey ∈ w.onceKeys)) = true
  · simp only [Bool.and_eq_true, decide_eq_true_eq] at held
    obtain ⟨m, member, mine⟩ := guarded _ held.2
    exact ⟨m, List.mem_append_left _ member, mine⟩
  · refine ⟨w.messageOf info q, List.mem_append_right _ List.mem_cons_self, ?_, rfl⟩
    simp only [messageOf, Bool.eq_false_iff.mpr held, Bool.not_false]

theorem publish_guarded (guarded : ∀ key, "publish:" ++ key ∈ w.onceKeys → w.keyed key) (info : RunInfo) (q : Publication)
    (record : Bool) : ∀ key, "publish:" ++ key ∈ (w.publish info q record).onceKeys → (w.publish info q record).keyed key := by
  have kept : ∀ key, "publish:" ++ key ∈ w.onceKeys → (w.publish info q record).keyed key := by
    intro key there
    obtain ⟨m, member, mine⟩ := guarded key there
    exact ⟨m, List.mem_append_left _ member, mine⟩
  intro key there
  simp only [publish] at there
  split at there
  · rcases List.mem_append.mp there with old | new
    · exact kept key old
    · have texts := congrArg String.toList (List.mem_singleton.mp new)
      simp only [String.toList_append] at texts
      rw [String.toList_injective (List.append_cancel_left texts)]
      exact publish_keyed guarded info q record
  · exact kept key there

end World

open World

section steps

variable {p : Platform} {dep : Deployment} {d : WorkflowDefinition} {c : Choice} {w : World} {g : Posts} {op : Op}

/-- A step that has its message has it in the world. -/
theorem posted_of_has (correlated : Correlated p d w) (known : Known w g) {r : RunId} {id : StepId} (has : g.Has p d r id) :
    w.posted r id := by
  rcases has with told | ⟨step, member, rfl, named, taskType, payload, published⟩
  · exact known.known r id told
  · obtain ⟨m, there, sent, same⟩ := known.keys _ published
    exact ⟨named, m, there, sent, correlated.honest m there step member r taskType payload same⟩

theorem Known.perform (known : Known w g) : Known (perform dep c w op).1 g where
  known r id member := posted_perform (known.known r id member)
  keys key member := keyed_perform (known.keys key member)

/-- What a process learns from a reply is so. -/
theorem Known.step (known : Known w g) (correlated : Correlated p d w) :
    Known (World.perform dep c w op).1 (Posts.mark g op (World.perform dep c w op).2) := by
  have later : Known (World.perform dep c w op).1 g := known.perform
  cases op with
  | load r =>
      cases reply : (World.perform dep c w (.load r)).2 with
      | error e => exact later
      | ok found =>
          cases found with
          | none => exact later
          | some blob =>
              have answered := (congrArg Prod.snd (perform_ok reply)).symm.trans reply
              simp only [effect, Except.ok.injEq, Option.map_eq_some_iff] at answered
              obtain ⟨⟨label, _⟩, kept, rfl⟩ := answered
              obtain ⟨sc, read, mine, posted⟩ := correlated.grounded r label _ kept
              simp only [Posts.mark, read]
              refine ⟨fun r' id member => ?_, later.keys⟩
              rcases List.mem_append.mp member with old | new
              · exact later.known r' id old
              · obtain ⟨id', dispatched, same⟩ := List.mem_map.mp new
                cases same
                rw [mine]
                exact posted_perform (posted _ dispatched)
  | stage info so =>
      cases so with
      | publishTask q =>
          cases reply : (World.perform dep c w (.stage info (.publishTask q))).2 with
          | error e => exact later
          | ok u =>
              refine ⟨later.known, fun key member => ?_⟩
              rcases List.mem_append.mp member with old | new
              · exact later.keys key old
              · rw [List.mem_singleton.mp new, perform_ok reply]
                exact publish_keyed correlated.guarded info q true
      | _ => exact later
  | _ => exact later

/-- The messages are honest, and what the guard holds was sent. -/
theorem messages_step (correlated : Correlated p d w) (allowed : Posts.allowed p d g op) :
    (∀ m ∈ (World.perform dep c w op).1.published, (∃ info work task rulesetRef schemaId,
      m.message = buildTaskMessage info work task rulesetRef none schemaId) ∧ m.Honest p d) ∧
    ∀ key, "publish:" ++ key ∈ (World.perform dep c w op).1.onceKeys → (World.perform dep c w op).1.keyed key := by
  constructor
  · intro m member
    rcases published_from member with old | ⟨info, q, rfl, rfl⟩
    · exact ⟨correlated.built m old, correlated.honest m old⟩
    · refine ⟨⟨info, q.work, q.task, q.rulesetRef, q.schemaId, rfl⟩, fun step inside r taskType payload key => ?_⟩
      obtain ⟨mine, ref⟩ := allowed step inside r taskType payload key
      exact ⟨mine.symm, ref⟩
  · by_cases publishes : ∃ info q, op = .stage info (.publishTask q)
    · obtain ⟨info, q, rfl⟩ := publishes
      rcases perform_world dep c w (.stage info (.publishTask q)) with same | ⟨record, same⟩ <;> rw [same]
      · exact correlated.guarded
      · exact publish_guarded correlated.guarded info q record
    · rw [perform_onceKeys fun info q same => publishes ⟨info, q, same⟩]
      exact fun key there => keyed_perform (correlated.guarded key there)

/-- A call that is allowed keeps every park waiting for a message that was sent. -/
theorem Correlated.step (correlated : Correlated p d w) (known : Known w g) (allowed : Posts.allowed p d g op) :
    Correlated p d (World.perform dep c w op).1 := by
  obtain ⟨messages, guarded⟩ := @messages_step _ dep _ c _ _ _ correlated allowed
  refine ⟨fun m member => (messages m member).1, fun m member => (messages m member).2, guarded, ?_, ?_⟩
  · have old : ∀ r label blob, w.checkpoints r = some (label, blob) → ∃ sc, checkpointDeserialize blob = .ok sc ∧
        sc.info.runId = r ∧ ∀ id ∈ sc.work.workflow.dispatched, (World.perform dep c w op).1.posted r id := by
      intro r label blob found
      obtain ⟨sc, read, mine, posted⟩ := correlated.grounded r label blob found
      exact ⟨sc, read, mine, fun id member => posted_perform (posted id member)⟩
    intro r label blob found
    rcases checkpoints_from found with there | rfl
    · exact old r label blob there
    · obtain ⟨info, work, rfl, rfl, told⟩ := allowed
      refine ⟨_, deserialize_serialize _, rfl, fun id member => posted_perform ?_⟩
      exact posted_of_has correlated known (told id member)
  · have old : ∀ row ∈ w.wakeups, row.condition.kind = .resultsReady → ∀ id, row.condition.stepRef = some id →
        (World.perform dep c w op).1.posted row.runId id :=
      fun row member joins id ref => posted_perform (correlated.awaited row member joins id ref)
    have lasting : Waker.Lasting fun row : Wakeup => (row.runId, row.condition) := fun _ _ => rfl
    intro row member joins id ref
    rcases rows_perform lasting dep c w op with same | ⟨r, condition, gate, rfl, same⟩
    · have read : (row.runId, row.condition) ∈ w.wakeups.map fun row : Wakeup => (row.runId, row.condition) :=
        same ▸ List.mem_map_of_mem member
      obtain ⟨before, there, alike⟩ := List.mem_map.mp read
      obtain ⟨runs, conditions⟩ := Prod.mk.inj alike
      rw [← runs]
      rw [← conditions] at joins ref
      exact old before there joins id ref
    · rw [same] at member
      rcases List.mem_append.mp member with before | new
      · exact old row before joins id ref
      · rw [List.mem_singleton.mp new] at joins ref ⊢
        exact posted_perform (posted_of_has correlated known (allowed joins id ref))

theorem Correlated.named (correlated : Correlated p d w) : Named w := by
  intro r label blob found
  obtain ⟨sc, read, mine, _⟩ := correlated.grounded r label blob found
  simp only [runOf, read, mine]

end steps

namespace Orchestrator

variable (o : Orchestrator)

/-- The orchestrator with what each process knows of task messages beside it. -/
def posting : Machine RunSig World Choice Actor EnvMove Posts := o.machine (fun _ => {}) Posts.mark

/-- Nothing but the executor raises `NeedsWait`. -/
def calm : Label Choice Actor EnvMove → Bool
  | .run _ c => c.unwaiting
  | _ => true

end Orchestrator

/-- What holds of the orchestrator between any two calls. -/
structure Corresponding (p : Platform) (d : WorkflowDefinition) (q : Pool RunSig World Posts) : Prop where
  world : Correlated p d q.world
  known : ∀ b ∈ q.procs, Known q.world b.tag
  follow : Machine.AllFollow (Posts.protocol p d) (fun _ _ => True) q

section runs

variable {o : Orchestrator} {p : Platform} {d : WorkflowDefinition} {q q' : Pool RunSig World Posts}

theorem Corresponding.step (leaving : ∀ stage ∈ o.l1.pipeline, Leaving p d stage) (corresponding : Corresponding p d q)
    {l : Label Choice Actor EnvMove} (met : Orchestrator.calm l = true) (h : o.posting.step q l = some q') : Corresponding p d q' := by
  have started : ∀ a, (o.program a).Follows (Posts.protocol p d) (fun _ _ => True) {} := fun a =>
    Prog.Follows.weaken (Passage.program_follows (tellings_along leaving) a trivial) fun _ _ _ => trivial
  have follow : Machine.AllFollow (Posts.protocol p d) (fun _ _ => True) q' := by
    refine Machine.step_allFollow rfl started corresponding.follow h ?_
    rintro i c op k g rfl found
    exact perform_unwaiting met corresponding.world.named op
  rcases Machine.step_cases h with ⟨a, rfl, rfl⟩ | ⟨i, c, op, k, g, rfl, found, rfl⟩ |
    ⟨i, b, rfl, found, rfl⟩ | ⟨e, rfl, rfl⟩
  · refine ⟨corresponding.world, fun b member => ?_, follow⟩
    rcases List.mem_append.mp member with old | new
    · exact corresponding.known b old
    · rw [List.mem_singleton.mp new]
      exact ⟨nofun, nofun⟩
  · have mine := corresponding.known _ (List.mem_of_getElem? found)
    refine ⟨corresponding.world.step mine (corresponding.follow.allowed found), fun b member => ?_, follow⟩
    rcases Machine.mem_set member with rfl | old
    · exact mine.step corresponding.world
    · exact (corresponding.known b old).perform
  · refine ⟨corresponding.world, fun b' member => ?_, follow⟩
    rcases Machine.mem_set member with rfl | old
    · exact corresponding.known b (List.mem_of_getElem? found)
    · exact corresponding.known b' old
  · obtain ⟨built, honest, guarded, grounded, awaited⟩ := corresponding.world
    refine ⟨?_, fun b member => ?_, follow⟩
    · cases e <;> exact ⟨built, honest, guarded, grounded, awaited⟩
    · obtain ⟨known, keys⟩ := corresponding.known b member
      cases e <;> exact ⟨known, keys⟩

theorem corresponding_fresh {registry : List RegistryEntry} {rulesets : String → String → Option LoadedRuleset} {clock : Int} :
    Corresponding p d (Orchestrator.start Posts (World.fresh registry rulesets clock)) := by
  refine ⟨⟨?_, ?_, ?_, ?_, ?_⟩, ?_, ?_⟩
  · exact fun _ none => (List.not_mem_nil none).elim
  · exact fun _ none => (List.not_mem_nil none).elim
  · exact fun _ none => (List.not_mem_nil none).elim
  · intro r label blob found
    cases found
  · exact fun _ none => (List.not_mem_nil none).elim
  · exact fun _ none => (List.not_mem_nil none).elim
  · exact fun _ none => (List.not_mem_nil none).elim

end runs

/-- A wakeup of the run waits for the result of the step. -/
def World.awaits (w : World) (r : RunId) (id : StepId) : Prop :=
  ∃ row ∈ w.wakeups, row.runId = r ∧ row.condition.kind = .resultsReady ∧ row.condition.stepRef = some id

/-- Some pool serves the message, and whichever does publishes a result of this run and this step. -/
def Published.Answers (p : Platform) (m : Published) (r : RunId) (id : StepId) : Prop :=
  (∃ reader pool a, Served p reader pool m.message a {}) ∧
    ∀ reader pool a w, Served p reader pool m.message a w → ∃ publication,
      (WorkerPool.deliver p reader pool a w).1.published = w.published ++ [publication] ∧
        (WorkerPool.deliver p reader pool a w).2 = .ok () ∧
        publication.envelope.runId = r ∧ publication.envelope.stepRef = id

/-- Where the coordinator hands every step to its queue that the executor does not run itself, every park waits
for a message that was sent and that a worker answers for this run and step. -/
theorem joins_answered (o : Orchestrator) (p : Platform) (injective : Function.Injective p.sha256) (calm : p.Unwaiting)
    (d : WorkflowDefinition) (stages : ∀ stage ∈ o.l1.pipeline,
      (∃ ex extra, Handed ex d ∧ stage = workflowStage p ex d extra) ∨ stage.Beside p d)
    (registry : List RegistryEntry) (rulesets : String → String → Option LoadedRuleset) (clock : Int)
    {q : Pool RunSig World Unit} (run : Machine.Run o.untracked (fun _ l => Orchestrator.calm l)
      (Orchestrator.start Unit (World.fresh registry rulesets clock)) q)
    {r : RunId} {id : StepId} (parked : q.world.awaits r id) :
    ∃ m ∈ q.world.published, m.sent = true ∧ m.Answers p r id := by
  have leaving : ∀ stage ∈ o.l1.pipeline, Leaving p d stage := by
    intro stage inside
    rcases stages stage inside with ⟨ex, extra, handed, rfl⟩ | beside
    · exact leaving_workflow injective calm handed
    · exact leaving_of_beside beside
  obtain ⟨q', posting, same, _⟩ := @Effects.Machine.Run.retag _ _ _ _ _ _ _ _ (fun _ => ({} : Posts)) Posts.mark _ _ _ run
    (Orchestrator.start Posts (World.fresh registry rulesets clock)) ⟨rfl, rfl⟩
  have corresponding : Corresponding p d q' :=
    posting.invariant corresponding_fresh fun _ _ _ held met step => held.step leaving met step
  obtain ⟨row, member, rfl, joins, ref⟩ := parked
  rw [← same] at member ⊢
  obtain ⟨named, m, there, sent, mine, step⟩ := corresponding.world.awaited row member joins id ref
  obtain ⟨info, work, task, rulesetRef, schemaId, built⟩ := corresponding.world.built m there
  refine ⟨m, there, sent, ?_, ?_⟩
  · rw [built]
    exact served_exists p info work task rulesetRef schemaId
  · intro reader pool a w served
    have actor : m.message.envelope.actor = info.actor := by
      rw [built]
      rfl
    obtain ⟨publication, published, returned, ofRun, ofStep⟩ := served_answers served actor named step
    exact ⟨publication, published, returned, ofRun.trans mine, ofStep⟩

open Sample in
/-- The join of a queue step. -/
theorem joins_answered_single : ∃ q : Pool RunSig World Unit, q.world.awaits "r" "a" ∧
    ∃ m ∈ q.world.published, m.sent = true ∧ m.Answers platform "r" "a" := by
  obtain ⟨q, run, met⟩ := Machine.follow_any (orchestrator single).untracked (fun _ l => Orchestrator.calm l)
    (Orchestrator.start Unit (World.fresh [] (fun _ _ => none) 0)) ([.spawn (.run "g" tenant none)] ++ calls 0 12)
    (fun q => q.world.wakeups.any fun row => row.runId = "r" && row.condition.kind = .resultsReady &&
      row.condition.stepRef = some "a") (by decide +kernel)
  obtain ⟨row, member, mine⟩ := List.any_eq_true.mp met
  simp only [Bool.and_eq_true, decide_eq_true_eq] at mine
  have parked : q.world.awaits "r" "a" := ⟨row, member, mine.1.1, mine.1.2, mine.2⟩
  refine ⟨q, parked, joins_answered (orchestrator single) platform (fun _ _ => id) platform_unwaiting single (fun stage inside => .inl ?_)
    [] (fun _ _ => none) 0 run parked⟩
  exact ⟨executor, [], by simp [Handed, single, executor, WorkflowExecutor.mode, orElse], List.mem_singleton.mp inside⟩

namespace Sample

/-- The executor takes the mode for the queue's, the coordinator for its own. -/
def shouted : WorkflowDefinition where
  name := "w"
  version := 1
  steps := [{ id := "a", coordinationMode := some "Queue" }]

/-- Both ways of coordination are there. -/
def versatile : WorkflowExecutor := { coordinator := { queue := some {}, inProcess := some {} } }

def shouting : Orchestrator where
  deployment := { platform }
  l1 := { pipeline := [workflowStage platform versatile shouted []] }

end Sample

open Sample in
/-- A subagent was asked, its answer dropped, and the run waits for a message that nobody sent. -/
theorem join_unanswered : ¬ ∀ (o : Orchestrator) (p : Platform) (ex : WorkflowExecutor) (d : WorkflowDefinition) (extra : Dict String Json),
    Function.Injective p.sha256 → p.Unwaiting → d.Accepted → o.l1.pipeline = [workflowStage p ex d extra] →
    ∀ (registry : List RegistryEntry) (rulesets : String → String → Option LoadedRuleset) (clock : Int) (q : Pool RunSig World Unit),
      Machine.Run o.untracked (fun _ l => Orchestrator.calm l) (Orchestrator.start Unit (World.fresh registry rulesets clock)) q →
      ∀ r id, q.world.statusOf r = some .waiting → q.world.awaits r id → ∃ m ∈ q.world.published, m.sent = true ∧ m.Answers p r id := by
  intro claimed
  obtain ⟨q, run, met⟩ := Machine.follow_any shouting.untracked (fun _ l => Orchestrator.calm l)
    (Orchestrator.start Unit (World.fresh [] (fun _ _ => none) 0)) ([.spawn (.run "g" tenant none)] ++ calls 0 11)
    (fun q => decide (q.world.statusOf "r" = some .waiting) && q.world.published.isEmpty &&
      q.world.wakeups.any fun row => row.runId = "r" && row.condition.kind = .resultsReady && row.condition.stepRef = some "a")
    (by decide +kernel)
  simp only [Bool.and_eq_true, decide_eq_true_eq, List.isEmpty_iff] at met
  obtain ⟨⟨waiting, nothing⟩, rows⟩ := met
  obtain ⟨row, member, mine⟩ := List.any_eq_true.mp rows
  simp only [Bool.and_eq_true, decide_eq_true_eq] at mine
  obtain ⟨m, there, _⟩ := claimed shouting platform versatile shouted [] (fun _ _ => id) platform_unwaiting (by decide +kernel) rfl [] (fun _ _ => none) 0
    q run "r" "a" waiting ⟨row, member, mine.1.1, mine.1.2, mine.2⟩
  rw [nothing] at there
  cases there

end Maof
