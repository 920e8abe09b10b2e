import Maof.Orchestrator.Frames

/-!
# Routing

What a queue dispatch publishes to, said of the registry rows rather than of the
lists the resolver filters.
-/

namespace Maof

open Effects (Act Prog Contract)

namespace QueueDispatcher

/-- The manifest of an approved entry that verifies: it is granted to the tenant,
accepts the task type, and is the named agent where one is named. -/
def Eligible (p : Platform) (signer : Signer) (registry : List RegistryEntry) (d : DelegationContract)
    (info : RunInfo) (m : AgentManifest) : Prop :=
  ∃ e ∈ registry, e.manifest = m ∧ e.status = .approved ∧ verifyEntry p signer e = .ok () ∧
    (m.kind = .l2Agent ∨ m.kind = .mcpServer) ∧ d.routedType ∈ m.acceptedTaskTypes ∧
    scopesGranted m (some info.tenant) = true ∧ ∀ id, d.agent = some id → id ≠ "" → m.id = id

/-- The manifest has the pinned version, where one is pinned. -/
def Pinned (d : DelegationContract) (m : AgentManifest) : Prop := ∀ v, pin d = some v → m.version = v

/-- Where a dispatch may go: to an eligible manifest of the pinned version that takes the
run, and to the fallback only where there is none and the pin was not missed. -/
inductive Routed (p : Platform) (q : QueueDispatcher) (signer : Signer) (registry : List RegistryEntry)
    (d : DelegationContract) (info : RunInfo) (queue : String) : Prop
  | manifest (m : AgentManifest) (eligible : Eligible p signer registry d info m)
      (pinned : Pinned d m) (takes : takes p info.runId m = true) (bound : m.queue = some queue)
  | fallback (conventional : queue = q.queueResolver d.routedType)
      (none : ∀ m, Eligible p signer registry d info m → Pinned d m → QueueDispatcher.takes p info.runId m = false)
      (unmissed : (∃ m, Eligible p signer registry d info m) →
        ∃ m, Eligible p signer registry d info m ∧ Pinned d m)

variable {p : Platform} {q : QueueDispatcher} {signer : Signer} {registry : List RegistryEntry}
  {d : DelegationContract} {info : RunInfo}

theorem mem_byAgent {m : AgentManifest} {candidates : List AgentManifest} :
    m ∈ byAgent d candidates ↔ m ∈ candidates ∧ ∀ id, d.agent = some id → id ≠ "" → m.id = id := by
  unfold byAgent
  cases d.agent with
  | none => simp
  | some id =>
      by_cases empty : id = ""
      · simp [empty]
      · simp [empty]

theorem mem_candidates {m : AgentManifest} :
    m ∈ byAgent d (agentsForTaskType p signer registry d.routedType (some info.tenant)) ↔
      Eligible p signer registry d info m := by
  rw [mem_byAgent]
  constructor
  · rintro ⟨member, agent⟩
    simp only [agentsForTaskType, List.mem_filter, List.mem_map, routable, Bool.and_eq_true,
      Bool.or_eq_true, decide_eq_true_eq] at member
    obtain ⟨⟨e, trusted, rfl⟩, ⟨kind, accepts⟩, granted⟩ := member
    simp only [approvedEntries, listApproved, List.mem_filter, decide_eq_true_eq] at trusted
    obtain ⟨⟨inside, approved⟩, verified⟩ := trusted
    refine ⟨e, inside, rfl, approved, ?_, kind, accepts, granted, agent⟩
    unfold RegistryEntry.trusted at verified
    split at verified
    · assumption
    · cases verified
  · rintro ⟨e, inside, rfl, approved, verified, kind, accepts, granted, agent⟩
    refine ⟨?_, agent⟩
    simp only [agentsForTaskType, List.mem_filter, List.mem_map, routable, Bool.and_eq_true,
      Bool.or_eq_true, decide_eq_true_eq, approvedEntries, listApproved]
    exact ⟨⟨e, ⟨⟨inside, approved⟩, by simp only [RegistryEntry.trusted, verified]⟩, rfl⟩,
      ⟨kind, accepts⟩, granted⟩

theorem firstTaking_some {runId : RunId} {m : AgentManifest} {candidates : List AgentManifest}
    (h : firstTaking p runId candidates = some m) : m ∈ candidates ∧ takes p runId m = true := by
  induction candidates with
  | nil => cases h
  | cons x rest ih =>
      simp only [firstTaking] at h
      split at h
      · next here => cases h; exact ⟨List.mem_cons_self, here⟩
      · exact ⟨List.mem_cons_of_mem _ (ih h).1, (ih h).2⟩

theorem firstTaking_none {runId : RunId} {candidates : List AgentManifest}
    (h : firstTaking p runId candidates = none) : ∀ m ∈ candidates, takes p runId m = false := by
  induction candidates with
  | nil => exact fun m none => absurd none (by simp)
  | cons x rest ih =>
      simp only [firstTaking] at h
      split at h
      · cases h
      · next here =>
          intro m member
          rcases List.mem_cons.mp member with rfl | later
          · simpa using here
          · exact ih h m later

theorem queue_of_takes {runId : RunId} {m : AgentManifest} (h : takes p runId m = true) :
    m.queue = some (orElse m.queue "") := by
  simp only [takes, Bool.and_eq_true, decide_eq_true_eq] at h
  cases queue : m.queue with
  | none => simp [queue, orElse] at h
  | some s =>
      by_cases empty : s = ""
      · simp [queue, orElse, empty] at h
      · simp [orElse, empty]

/-- What the resolver answers with a loader. -/
theorem resolveQueue_routed {queue : String} {manifest : Option AgentManifest}
    (loader : q.registryLoader = some signer)
    (h : q.resolveQueue p registry d info = .ok (queue, manifest)) :
    Routed p q signer registry d info queue := by
  -- the last step, for the candidates the pin leaves
  have route : ∀ candidates : List AgentManifest,
      (∀ m, m ∈ candidates ↔ Eligible p signer registry d info m ∧ Pinned d m) →
      ((∃ m, Eligible p signer registry d info m) → ∃ m, Eligible p signer registry d info m ∧ Pinned d m) →
      (∀ m, firstTaking p info.runId candidates = some m → orElse m.queue "" = queue) →
      (firstTaking p info.runId candidates = none → q.queueResolver d.routedType = queue) →
      Routed p q signer registry d info queue := by
    intro candidates left unmissed taken fallback
    cases first : firstTaking p info.runId candidates with
    | some m =>
        obtain ⟨member, takes⟩ := firstTaking_some first
        obtain ⟨eligible, pinned⟩ := (left m).mp member
        rw [← taken m first]
        exact .manifest m eligible pinned takes (queue_of_takes takes)
    | none =>
        exact .fallback (fallback first).symm (fun m eligible pinned =>
          firstTaking_none first m ((left m).mpr ⟨eligible, pinned⟩)) unmissed
  simp only [resolveQueue, loader] at h
  cases version : pin d with
  | none =>
      simp only [version] at h
      have free : ∀ m, Pinned d m := by
        intro m v pinned
        rw [version] at pinned
        cases pinned
      refine route (byAgent d (agentsForTaskType p signer registry d.routedType (some info.tenant))) (fun m => ?_) ?_
        (fun m first => ?_) fun first => ?_
      · simp [mem_candidates, free m]
      · rintro ⟨m, eligible⟩
        exact ⟨m, eligible, free m⟩
      · rw [first] at h
        cases h
        rfl
      · rw [first] at h
        cases h
        rfl
  | some v =>
      simp only [version] at h
      split at h
      · cases h
      · next matched =>
          have only : ∀ m, Pinned d m ↔ m.version = v := by
            intro m
            simp [Pinned, version]
          refine route ((byAgent d (agentsForTaskType p signer registry d.routedType (some info.tenant))).filter
            fun m => m.version = v) (fun m => ?_) ?_ (fun m first => ?_) fun first => ?_
          · simp [mem_candidates, only]
          · -- there are candidates, so one of them has the pinned version
            rintro ⟨m, eligible⟩
            simp only [Bool.and_eq_true, Bool.not_eq_true', not_and, Bool.not_eq_true,
              List.isEmpty_eq_false_iff] at matched
            obtain ⟨m', member⟩ := List.exists_mem_of_ne_nil _
              (matched (List.ne_nil_of_mem (mem_candidates.mpr eligible)))
            simp only [List.mem_filter, decide_eq_true_eq] at member
            exact ⟨m', mem_candidates.mp member.1, (only m').mpr member.2⟩
          · rw [first] at h
            cases h
            rfl
          · rw [first] at h
            cases h
            rfl

end QueueDispatcher

open World QueueDispatcher

/-- The calls of a stage, with nobody else moving. -/
def alone (dep : Deployment) (info : RunInfo) : Contract StageSig World where
  sem w op w' r := ∃ c, perform dep c w (.stage info op) = (w', r)
  valid _ := True
  rely w w' := w' = w
  guar _ _ := True
  refl _ := rfl
  trans first second := second.trans first

/-- However far a dispatch gets and whatever faults it meets, it publishes nothing,
and then has not answered, or one message, where it may go. -/
theorem dispatch_routed (dep : Deployment) (q : QueueDispatcher) (signer : Signer)
    (loader : q.registryLoader = some signer) (d : DelegationContract) (info : RunInfo) (work : Work)
    {w w' : World} {rest : Prog StageSig (Except Exn SubResult × Work)}
    (run : Prog.Steps (alone dep info) (q.dispatch dep.platform d info work) w rest w') :
    (w'.published = w.published ∧ ∀ out work', rest ≠ .ret (.ok out, work')) ∨
      ∃ m, w'.published = w.published ++ [m] ∧
        Routed dep.platform q signer w.registry d info m.queue := by
  have quiet : ∀ w w', (alone dep info).rely w w' → w' = w := fun _ _ same => same
  rcases Prog.Steps.call_cases quiet (StageOp.resolveQueue q d) run with
    ⟨rfl, rfl⟩ | ⟨w₁, r, ⟨c, read⟩, run⟩
  · exact .inl ⟨rfl, by rintro _ _ ⟨⟩⟩
  have same : w₁.published = w.published := by
    rw [← show (perform dep c w (.stage info (.resolveQueue q d))).1 = w₁ from congrArg Prod.fst read]
    exact perform_published (by rintro _ _ ⟨⟩)
  cases r with
  | error e =>
      obtain ⟨rfl, rfl⟩ := run.ret_cases quiet
      exact .inl ⟨same, by rintro _ _ ⟨⟩⟩
  | ok routed =>
      obtain ⟨queue, manifest⟩ := routed
      have answered : (perform dep c w (.stage info (.resolveQueue q d))).2 = .ok (queue, manifest) :=
        congrArg Prod.snd read
      have resolved : q.resolveQueue dep.platform w.registry d info = .ok (queue, manifest) :=
        (congrArg Prod.snd (perform_ok answered)).symm.trans answered
      have may : Routed dep.platform q signer w.registry d info queue :=
        resolveQueue_routed loader resolved
      rcases Prog.Steps.call_cases quiet (StageOp.publishTask
          (publication dep.platform q d info work queue)) run with
        ⟨rfl, rfl⟩ | ⟨w₂, r, ⟨c, sent⟩, run⟩
      · exact .inl ⟨same, by rintro _ _ ⟨⟩⟩
      have after := perform_publish dep c w₁ info (publication dep.platform q d info work queue)
      rw [show (perform dep c w₁ _).1 = w₂ from congrArg Prod.fst sent, same] at after
      cases r with
      | error e =>
          obtain ⟨rfl, rfl⟩ := run.ret_cases quiet
          rcases after with nothing | one
          · exact .inl ⟨nothing, by rintro _ _ ⟨⟩⟩
          · exact .inr ⟨_, one, may⟩
      | ok u =>
          have one : w₂.published = w.published ++
              [w₁.messageOf info (publication dep.platform q d info work queue)] := by
            have answered : (perform dep c w₁ (.stage info (.publishTask
              (publication dep.platform q d info work queue)))).2 = .ok u := congrArg Prod.snd sent
            rw [← same, ← show (perform dep c w₁ _).1 = w₂ from congrArg Prod.fst sent,
              perform_ok answered]
            rfl
          refine .inr ⟨w₁.messageOf info (publication dep.platform q d info work queue), ?_, may⟩
          rcases Prog.Steps.call_cases quiet (StageOp.appendTrace (dispatchTrace d
              (some (stepRef dep.platform d)) manifest)) run with
            ⟨rfl, rfl⟩ | ⟨w₃, r, ⟨c, traced⟩, run⟩
          · exact one
          have last : w₃.published = w₂.published := by
            rw [← show (perform dep c w₂ _).1 = w₃ from congrArg Prod.fst traced]
            exact perform_published (by rintro _ _ ⟨⟩)
          cases r with
          | error e => obtain ⟨_, rfl⟩ := run.ret_cases quiet; exact last.trans one
          | ok u => obtain ⟨_, rfl⟩ := run.ret_cases quiet; exact last.trans one

/-- The three calls of a dispatch, when none fails, publish one message. -/
theorem dispatch_steps (dep : Deployment) (q : QueueDispatcher) (d : DelegationContract)
    (info : RunInfo) (work : Work) (w : World) {queue : String} {manifest : Option AgentManifest}
    (resolved : q.resolveQueue dep.platform w.registry d info = .ok (queue, manifest)) :
    ∃ out w' msg, Prog.Steps (alone dep info) (q.dispatch dep.platform d info work) w
      (.ret (.ok out, work)) w' ∧ w'.published = w.published ++ [msg] := by
  obtain ⟨told, read⟩ : ∃ told, perform dep {} w (.stage info (.resolveQueue q d)) =
      (told, .ok (queue, manifest)) :=
    ⟨_, by simp only [perform, effect, stageEffect, resolved]; rfl⟩
  have same : told.published = w.published := by
    rw [← show (perform dep {} w (.stage info (.resolveQueue q d))).1 = told from congrArg Prod.fst read]
    exact perform_published (by rintro _ _ ⟨⟩)
  refine ⟨_, _, told.messageOf info (publication dep.platform q d info work queue),
    .call ⟨{}, read⟩ (.call ⟨{}, rfl⟩ (.call ⟨{}, rfl⟩ (.refl _ _))), ?_⟩
  rw [← same]
  rfl

namespace Sample

def worker : AgentManifest where
  id := "w"
  kind := .l2Agent
  name := "worker"
  version := "1"
  endpoint := ""
  acceptedTaskTypes := ["t"]
  queue := some "q"

def signer : Signer := { keys := [("default", "k")] }

/-- A manifest has an approved entry that verifies. -/
theorem entry_verified {p : Platform} (nonempty : ∀ secret body, p.hmacSha256 secret body ≠ "")
    (m : AgentManifest) :
    ∃ e : RegistryEntry, e.manifest = m ∧ e.status = .approved ∧ verifyEntry p signer e = .ok () := by
  have held : Data.Dict.get signer.keys signer.activeKid = some "k" := rfl
  exact ⟨_, rfl, rfl,
    verifyEntry_signEntry (signEntry_ok p "now" { manifest := m } held) (by decide) nonempty⟩

/-- A task of type `t` for one agent. -/
def ask (agent : String) : DelegationContract :=
  { objective := "o", outputFormat := "text", taskType := some "t", agent := some agent }

def runInfo : RunInfo := { runId := "r", tenant, goal := "g" }

def dispatcher : QueueDispatcher := { registryLoader := some signer }

end Sample

open Sample in
/-- The worker is found by its id. -/
theorem dispatch_routed_worker : ∃ (e : RegistryEntry) (w' : World) (m : _), e.manifest = worker ∧
    w'.published = [m] ∧ Routed platform dispatcher signer [e] (ask "w") runInfo m.queue := by
  obtain ⟨e, is, approved, verified⟩ :=
    entry_verified (p := platform) (fun secret body => by simp [platform]) worker
  have trusted : approvedEntries platform signer [e] = [e] := by
    simp [approvedEntries, listApproved, approved, RegistryEntry.trusted, verified]
  have found : byAgent (ask "w")
      (agentsForTaskType platform signer [e] (ask "w").routedType (some runInfo.tenant)) = [worker] := by
    rw [agentsForTaskType, trusted, List.map_cons, is]
    rfl
  have resolved : dispatcher.resolveQueue platform [e] (ask "w") runInfo = .ok ("q", some worker) := by
    simp only [resolveQueue, dispatcher, found]
    rfl
  obtain ⟨out, w', msg, run, -⟩ := dispatch_steps { platform } dispatcher (ask "w") runInfo {}
    { registry := [e] } resolved
  rcases dispatch_routed { platform } dispatcher signer rfl (ask "w") runInfo {} run with
    ⟨_, unanswered⟩ | sent
  · exact absurd rfl (unanswered out {})
  · obtain ⟨m, one, routed⟩ := sent
    exact ⟨e, w', m, is, one, routed⟩

open Sample in
/-- With nobody registered, a task for a named agent goes to the fallback queue. -/
theorem named_falls_back : ¬ ∀ (dep : Deployment) (q : QueueDispatcher) (signer : Signer),
    q.registryLoader = some signer → ∀ (d : DelegationContract) (info : RunInfo) (work : Work),
    (∃ id, d.agent = some id ∧ id ≠ "") ∨ (∃ v, pin d = some v) →
    ∀ (w w' : World) (rest : Prog StageSig (Except Exn SubResult × Work)),
    Prog.Steps (alone dep info) (q.dispatch dep.platform d info work) w rest w' →
      w'.published = w.published ∨ ∃ m msg, w'.published = w.published ++ [msg] ∧
        Eligible dep.platform signer w.registry d info m ∧ Pinned d m ∧ m.queue = some msg.queue := by
  intro closed
  have resolved : dispatcher.resolveQueue platform [] (ask "x") runInfo = .ok ("tasks.t", none) := rfl
  obtain ⟨out, w', sent, run, one⟩ := dispatch_steps { platform } dispatcher (ask "x") runInfo {}
    {} resolved
  rcases closed { platform } dispatcher signer rfl (ask "x") runInfo {} (.inl ⟨"x", rfl, by decide⟩) _ _ _ run
    with none | ⟨m, _, _, ⟨e, inside, _⟩, _⟩
  · simp [none] at one
  · exact absurd inside (by simp)

end Maof
