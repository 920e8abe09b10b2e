import Maof.Orchestrator.Attribution
import Maof.Transport.Wire
import Maof.Workflows.Completion

/-!
# Results as they are delivered

A result is taken from a message that verified, decoded to it and passed the
validator, in this order and at that moment, before it is stored.
-/

namespace Maof

open Effects (Act Prog Protocol Machine Pool Proc Label)

/-- The `post_result` hook of a policy engine, as it decides at one moment. -/
abbrev PostResult : Type := TaskEnvelope → Task → TaskResult → Except Exn RuleDecision

def resultEnv (envelope : ResultEnvelope) : TaskEnvelope where
  runId := envelope.runId
  tenantId := envelope.tenantId
  intentId := none
  stage := .publish
  rulesetRef := none
  rulesetVersion := none
  schemaId := none
  mode := "sandbox"
  region := "us-east-1"
  actor := none

def resultTask (envelope : ResultEnvelope) : Task where
  taskId := envelope.taskId
  taskType := envelope.taskType
  description := "post_result validation"
  idempotencyKey := envelope.idempotencyKey
  stepRef := some envelope.stepRef

def makePostResultValidator (u : Unicode) (policy : Option PostResult) (schemas : Option SchemaRegistry)
    (envelope : ResultEnvelope) : Except Exn Unit := do
  SchemaRegistry.conforms u schemas (envelope.taskType ++ ".result.v1") envelope.result.output
  match policy with
  | none => return ()
  | some postResult =>
      let decision ← postResult (resultEnv envelope) (resultTask envelope) envelope.result
      if decision.denied then .error (.policyDenied decision.denialReason)

/-- What reaches an orchestrator whose results come by message: the message, or a command that is none. -/
inductive Inbound where
  | message (msg : IncomingMessage)
  | command (a : Actor) (own : ∀ msg, a ≠ .handle msg)

/-- A collector that requires signatures, its validator made of a policy hook and a schema registry.
What the hook decides may change with the world and the moment. -/
structure Intake where
  orchestrator : Orchestrator
  signer : Signer
  reader : Reader
  schemas : Option SchemaRegistry := none
  policy : Option (World → Choice → PostResult) := none
  validated : orchestrator.collector.validator = true

/-- The message a process handles, and the envelope its validator let pass. -/
structure Receipt where
  message : Option IncomingMessage := none
  checked : Option ResultEnvelope := none

def Receipt.mark (g : Receipt) : (op : Op) → Except Exn op.Ans → Receipt
  | .validate e, .ok _ => { g with checked := some e }
  | _, _ => g

namespace Intake

variable (i : Intake)

/-- `verify`, `parse_message` and `model_validate`, in this order. -/
def received (msg : IncomingMessage) : Except Exn ResultEnvelope := do
  i.signer.verify i.orchestrator.deployment.platform msg.body msg.headers
  let data ← i.reader.loads msg.body
  i.reader.resultEnvelope data

def validator (w : World) (c : Choice) : ResultEnvelope → Except Exn Unit :=
  makePostResultValidator i.orchestrator.deployment.platform.unicode (i.policy.map fun hook => hook w c) i.schemas

/-- A call of the validator is answered by it. -/
def judged (w : World) (c : Choice) : Op → Choice
  | .validate e => { c with verdict := i.validator w c e }
  | _ => c

def program : Inbound → Prog RunSig (Except Exn Unit)
  | .message msg => i.orchestrator.program (.handle { decoded := i.received msg })
  | .command a _ => i.orchestrator.program a

def tag : Inbound → Receipt
  | .message msg => { message := some msg }
  | .command _ _ => {}

def machine : Machine RunSig World Choice Inbound EnvMove Receipt where
  perform c w op := World.perform i.orchestrator.deployment (i.judged w c op) w op
  program := i.program
  env e w := e.apply w
  tag := tag
  mark := Receipt.mark

/-- The envelope decoded from a body that verified, conforms and is not denied. -/
structure Passes (w : World) (msg : IncomingMessage) (e : ResultEnvelope) : Prop where
  verified : i.signer.verify i.orchestrator.deployment.platform msg.body msg.headers = .ok ()
  decoded : ∃ data, i.reader.loads msg.body = .ok data ∧ i.reader.resultEnvelope data = .ok e
  conforms : SchemaRegistry.conforms i.orchestrator.deployment.platform.unicode i.schemas
    (e.taskType ++ ".result.v1") e.result.output = .ok ()
  granted : ∀ hook, i.policy = some hook → ∃ c decision,
    hook w c (resultEnv e) (resultTask e) e.result = .ok decision ∧ decision.denied = false

/-- At a moment of the run, a process that handled the message found that it passes. -/
def Admitted (start q : Pool RunSig World Receipt) (e : ResultEnvelope) : Prop :=
  ∃ p msg, Machine.Run i.machine (fun _ _ => true) start p ∧ Machine.Run i.machine (fun _ _ => true) p q ∧
    (∃ b ∈ p.procs, b.tag.message = some msg) ∧ i.Passes p.world msg e

/-- A result is validated as its message decodes to it, and stored once it was. -/
def protocol : Protocol RunSig Receipt where
  allowed g
    | .validate e => ∃ msg, g.message = some msg ∧ i.received msg = .ok e
    | .saveResult e => g.checked = some e
    | _ => True
  answers _ _ := True
  mark := Receipt.mark

/-- The calls that neither validate nor store a result. -/
def besides : Op → Prop
  | .validate _ | .saveResult _ => False
  | _ => True

section uses

variable {l1 : DefaultL1}

theorem context_besides {sc : StageContext} {eventType : String} {details : Data.Dict String Json} :
    (do l1.emitFor sc eventType details
        l1.driveFrom sc : Act RunSig Unit OrchestrationResult).Uses besides := by
  refine fun s => (drive_from_context_uses s).mono fun op drives => ?_
  cases op with
  | validate e => exact drives
  | saveResult e => exact drives
  | _ => trivial

theorem call_besides {op : Op} (other : besides op) : (runCall op : Act RunSig Unit op.Ans).Uses besides :=
  Act.uses_await (S := RunSig) other

theorem resumeRun_besides {runId : RunId} : (l1.resumeRun runId).Uses besides := by
  unfold DefaultL1.resumeRun
  split
  · exact Act.uses_throw _
  · refine Act.uses_bind (call_besides (by trivial)) fun found => ?_
    cases found with
    | none => exact Act.uses_throw _
    | some blob => exact Act.uses_bind (Act.uses_ofExcept _) fun sc => context_besides

theorem resumeAll_besides {due : List RunId} : (WakerPoller.resumeAll l1 due).Uses besides := by
  induction due with
  | nil => exact Act.uses_pure _
  | cons r due ih => exact Act.uses_bind resumeRun_besides fun _ => ih

theorem cancel_besides {runId : RunId} {authorize : Option (String → Except Exn Unit)} :
    (RunOps.cancel runId authorize).Uses besides := by
  have allowed : (RunOps.authorized runId authorize).Uses besides := by
    cases authorize with
    | none => exact Act.uses_pure _
    | some check =>
        refine Act.uses_bind (call_besides (by trivial)) fun owner => ?_
        cases owner with
        | none => exact Act.uses_pure _
        | some owner => exact Act.uses_bind (Act.uses_ofExcept _) fun _ => Act.uses_pure _
  refine Act.uses_bind allowed fun go => ?_
  split
  · refine Act.uses_bind (call_besides (by trivial)) fun _ => Act.uses_bind (call_besides (by trivial)) fun status => ?_
    split
    · exact Act.uses_bind (call_besides (by trivial)) fun _ => call_besides (by trivial)
    · exact Act.uses_bind (call_besides (by trivial)) fun _ => call_besides (by trivial)
    · exact Act.uses_pure _
  · exact Act.uses_pure _

/-- Only a delivery validates or stores. -/
theorem command_besides (o : Orchestrator) {a : Actor} (own : ∀ msg, a ≠ .handle msg) : (o.program a).Uses besides := by
  have process : ∀ {α : Type} {m : Act RunSig Unit α}, m.Uses besides → (toProcess m).Uses besides :=
    fun uses => Prog.Uses.bind (uses ()) fun _ => trivial
  cases a with
  | run goal tenant principal =>
      exact process (Act.uses_bind (call_besides (by trivial)) fun runId => context_besides)
  | resume runId => exact process resumeRun_besides
  | handle msg => exact absurd rfl (own msg)
  | tick =>
      exact process (Act.uses_bind (call_besides (by trivial)) fun timers =>
        Act.uses_bind (call_besides (by trivial)) fun joins => resumeAll_besides)
  | cancel runId authorize => exact process cancel_besides
  | wake eventKey authorize =>
      exact process (Act.uses_bind (Act.uses_ofExcept _) fun _ => call_besides (by trivial))

end uses

variable {i}

theorem besides_follows {α : Type} {p : Prog RunSig α} {g : Receipt} (uses : p.Uses besides) :
    p.Follows i.protocol (fun _ g' => g' = g) g := by
  refine Prog.Follows.ofUses uses (fun op other => ?_) fun op r other => ?_
  · cases op with
    | validate e => exact other.elim
    | saveResult e => exact other.elim
    | _ => trivial
  · cases op with
    | validate e => exact other.elim
    | _ => rfl

/-- A delivery is stored after its validator let it pass. -/
theorem handle_follows (msg : IncomingMessage) :
    (i.program (.message msg)).Follows i.protocol (fun _ _ => True) { message := some msg } := by
  have rest : ∀ e : ResultEnvelope, (do
      if ← runCall (.satisfyResults e.runId e.stepRef) then
        let _ ← i.orchestrator.l1.resumeRun e.runId : Act RunSig Unit Unit).Uses besides := by
    intro e
    refine Act.uses_bind (call_besides (by trivial)) fun claimed => ?_
    split
    · exact Act.uses_bind resumeRun_besides fun _ => Act.uses_pure _
    · exact Act.uses_pure _
  have handled : (i.orchestrator.collector.handle i.orchestrator.l1 { decoded := i.received msg }).Follows i.protocol
      (fun _ _ _ => True) () { message := some msg } := by
    unfold ResultCollector.handle
    simp only
    cases got : i.received msg with
    | error e => exact trivial
    | ok e =>
        simp only [Act.ofExcept, i.validated, if_true]
        have validating : i.protocol.allowed { message := some msg } (.validate e) := ⟨msg, rfl, got⟩
        refine Act.follows_pure_bind (Act.follows_await_bind validating (fun _ _ => ?_) fun _ _ => trivial)
        have storing : i.protocol.allowed { message := some msg, checked := some e } (.saveResult e) := rfl
        refine Act.follows_await_bind storing (fun fresh _ => ?_) fun _ _ => trivial
        split
        · exact Prog.Follows.weaken (besides_follows (rest e ())) fun _ _ _ => trivial
        · exact Act.follows_pure trivial
  exact Prog.Follows.bind handled fun _ _ _ => trivial

theorem program_follows (a : Inbound) : (i.program a).Follows i.protocol (fun _ _ => True) (tag a) := by
  cases a with
  | message msg => exact handle_follows msg
  | command a own => exact (besides_follows (command_besides i.orchestrator own)).weaken fun _ _ _ => trivial

/-! ## What is stored was admitted -/

theorem received_ok {msg : IncomingMessage} {e : ResultEnvelope} (h : i.received msg = .ok e) :
    i.signer.verify i.orchestrator.deployment.platform msg.body msg.headers = .ok () ∧
      ∃ data, i.reader.loads msg.body = .ok data ∧ i.reader.resultEnvelope data = .ok e := by
  obtain ⟨_, verified, rest⟩ := ok_of_bind h
  obtain ⟨data, loaded, read⟩ := ok_of_bind rest
  exact ⟨verified, data, loaded, read⟩

theorem validator_ok {w : World} {c : Choice} {e : ResultEnvelope} (h : i.validator w c e = .ok ()) :
    SchemaRegistry.conforms i.orchestrator.deployment.platform.unicode i.schemas (e.taskType ++ ".result.v1")
        e.result.output = .ok () ∧
      ∀ hook, i.policy = some hook → ∃ c decision,
        hook w c (resultEnv e) (resultTask e) e.result = .ok decision ∧ decision.denied = false := by
  obtain ⟨_, conforms, rest⟩ := ok_of_bind h
  refine ⟨conforms, fun hook made => ?_⟩
  rw [made] at rest
  obtain ⟨decision, decided, granted⟩ := ok_of_bind rest
  refine ⟨c, decision, decided, ?_⟩
  cases denied : decision.denied with
  | false => rfl
  | true =>
      rw [denied] at granted
      cases granted

/-- The call of a validator that answers lets its envelope pass. -/
theorem passes_validated {w : World} {c : Choice} {msg : IncomingMessage} {e : ResultEnvelope} {u : Unit}
    (got : i.received msg = .ok e) (answered : (i.machine.perform c w (.validate e)).2 = .ok u) : i.Passes w msg e := by
  have verdict : i.validator w c e = .ok () := by
    have took := (congrArg Prod.snd (World.perform_ok answered)).symm.trans answered
    exact took
  obtain ⟨verified, decoded⟩ := received_ok got
  obtain ⟨conforms, granted⟩ := validator_ok verdict
  exact ⟨verified, decoded, conforms, granted⟩

theorem Admitted.later {start q q' : Pool RunSig World Receipt} {e : ResultEnvelope} (h : i.Admitted start q e)
    (run : Machine.Run i.machine (fun _ _ => true) q q') : i.Admitted start q' e := by
  obtain ⟨p, msg, reached, onward, handled, passes⟩ := h
  exact ⟨p, msg, reached, onward.trans run, handled, passes⟩

/-- Every stored envelope, and every one a process has had validated, was admitted. -/
structure Screened (i : Intake) (start q : Pool RunSig World Receipt) : Prop where
  reached : Machine.Run i.machine (fun _ _ => true) start q
  follow : Machine.AllFollow i.protocol (fun _ _ => True) q
  stored : ∀ e ∈ q.world.results, i.Admitted start q e
  checked : ∀ b ∈ q.procs, ∀ e, b.tag.checked = some e → i.Admitted start q e

/-- What a call leaves checked was checked before, or passes now. -/
theorem marked_checked {w : World} {c : Choice} {g : Receipt} {op : Op} {e : ResultEnvelope}
    (allowed : i.protocol.allowed g op) (held : (g.mark op (i.machine.perform c w op).2).checked = some e) :
    g.checked = some e ∨ ∃ msg, g.message = some msg ∧ i.Passes w msg e := by
  unfold Receipt.mark at held
  split at held
  · next e' u answered =>
      obtain rfl := Option.some.inj held
      obtain ⟨msg, handles, got⟩ := allowed
      exact .inr ⟨msg, handles, passes_validated got answered⟩
  · exact .inl held

theorem step_screened {start p q : Pool RunSig World Receipt} {l : Label Choice Inbound EnvMove}
    (screened : Screened i start p) (h : i.machine.step p l = some q) : Screened i start q := by
  have run : Machine.Run i.machine (fun _ _ => true) p q := .tail (.refl p) rfl h
  have follow : Machine.AllFollow i.protocol (fun _ _ => True) q :=
    Machine.step_allFollow rfl program_follows screened.follow h fun _ _ _ _ _ _ _ => trivial
  have stored : ∀ e ∈ p.world.results, i.Admitted start q e := fun e member => (screened.stored e member).later run
  have checked : ∀ b ∈ p.procs, ∀ e, b.tag.checked = some e → i.Admitted start q e :=
    fun b member e held => (screened.checked b member e held).later run
  rcases Machine.step_cases h with ⟨a, rfl, rfl⟩ | ⟨j, c, op, k, g, rfl, found, rfl⟩ | ⟨j, b, rfl, found, rfl⟩ |
    ⟨move, rfl, rfl⟩
  · refine ⟨screened.reached.trans run, follow, stored, fun b member e held => ?_⟩
    rcases List.mem_append.mp member with old | new
    · exact checked b old e held
    · rw [List.mem_singleton.mp new] at held
      cases a <;> cases held
  · have mine := List.mem_of_getElem? found
    have allowed : i.protocol.allowed g op := screened.follow.allowed found
    refine ⟨screened.reached.trans run, follow, fun e member => ?_, fun b member e held => ?_⟩
    · rcases World.results_from member with old | rfl
      · exact stored e old
      · exact checked _ mine e allowed
    · rcases Machine.mem_set member with rfl | old
      · rcases marked_checked allowed held with before | ⟨msg, handles, passes⟩
        · exact checked _ mine e before
        · exact ⟨p, msg, screened.reached, run, ⟨_, mine, handles⟩, passes⟩
      · exact checked b old e held
  · refine ⟨screened.reached.trans run, follow, stored, fun b' member e held => ?_⟩
    rcases Machine.mem_set member with rfl | old
    · exact checked b (List.mem_of_getElem? found) e held
    · exact checked b' old e held
  · refine ⟨screened.reached.trans run, follow, fun e member => stored e ?_, checked⟩
    cases move <;> exact member

theorem run_screened {start q : Pool RunSig World Receipt} (run : Machine.Run i.machine (fun _ _ => true) start q)
    (none : start.procs = []) (empty : start.world.results = []) : Screened i start q := by
  refine run.invariant ⟨.refl start, fun b member => ?_, fun e member => ?_, fun b member => ?_⟩
    fun p l q screened _ h => step_screened screened h
  · rw [none] at member
    cases member
  · rw [empty] at member
    cases member
  · rw [none] at member
    cases member

end Intake

/-- Every envelope ever stored was delivered in a body that verified, conforms to its registered schema and
was not denied at that moment; a queue step is completed, and its output bound, only from such a one. -/
theorem results_admitted (i : Intake) (p : Platform) (ex : WorkflowExecutor) (d : WorkflowDefinition)
    (accepted : d.Accepted) (extra : Data.Dict String Json) (before after : List PipelineStage)
    (runs : i.orchestrator.Runs p ex d extra before after) (registry : List RegistryEntry)
    (rulesets : String → String → Option LoadedRuleset) (clock : Int) {q : Pool RunSig World Receipt}
    (run : Machine.Run i.machine (fun _ _ => true) (Orchestrator.start Receipt (World.fresh registry rulesets clock)) q) :
    (∀ e ∈ q.world.results,
        i.Admitted (Orchestrator.start Receipt (World.fresh registry rulesets clock)) q e) ∧
      FromFirst p ex d q.world ∧
      ∀ r id output, FirstResult q.world.results r id output → ∃ e ∈ q.world.results,
        e.runId = r ∧ e.stepRef = id ∧ e.result.output = output ∧
          i.Admitted (Orchestrator.start Receipt (World.fresh registry rulesets clock)) q e := by
  have screened := Intake.run_screened run rfl rfl
  have obeys : i.machine.Obeys (sourceContract p ex d i.orchestrator.deployment) fun _ _ => true :=
    ⟨fun p _ c op _ _ _ _ _ => ⟨i.judged p.world c op, rfl⟩, fun _ _ => id,
      fun p e _ valid => by cases e <;> exact ⟨valid, List.prefix_rfl⟩⟩
  have fresh : Machine.AllSafe (sourceContract p ex d i.orchestrator.deployment)
      (Orchestrator.start Receipt (World.fresh registry rulesets clock)) :=
    ⟨source_fresh registry rulesets clock i.orchestrator.deployment, fun b none => by cases none⟩
  have programs : ∀ a, ∃ actor, i.machine.program a = i.orchestrator.program actor := by
    intro a
    cases a with
    | message msg => exact ⟨.handle { decoded := i.received msg }, rfl⟩
    | command actor own => exact ⟨actor, rfl⟩
  obtain ⟨_, first, _⟩ := rests_on_first runs accepted obeys programs run fresh
  refine ⟨screened.stored, first, fun r id output found => ?_⟩
  obtain ⟨e, head, same⟩ := found
  have listed := List.mem_of_mem_head? head
  rw [ResultStore.list, List.mem_filter, decide_eq_true_eq] at listed
  exact ⟨e, listed.1, listed.2.1, listed.2.2, same, screened.stored e listed.1⟩

namespace Sample

def begun : Inbound := .command (.run "g" tenant none) (by rintro _ ⟨⟩)

/-- A result as it is on the wire. -/
def resultText : String :=
  "\x7b\"run_id\":\"r\",\"step_ref\":\"a\",\"task_id\":\"a\",\"idempotency_key\":\"a\",\"tenant_id\":\"t\",\"result\":\x7b\"status\":\"ok\",\"task_id\":\"a\"\x7d\x7d"

def resultJson : Json :=
  .obj [("run_id", .str "r"), ("step_ref", .str "a"), ("task_id", .str "a"), ("idempotency_key", .str "a"),
    ("tenant_id", .str "t"), ("result", .obj [("status", .str "ok"), ("task_id", .str "a")])]

/-- The hash of the one body that is signed. -/
def hashing : Platform := { platform with hmacSha256 := fun _ _ => "6d6163" }

/-- Results are signed, and may not report a failure. -/
def screening : Intake where
  orchestrator := { orchestrator single with deployment := { platform := hashing }, collector := { validator := true } }
  signer := { keys := [("default", "k")] }
  reader := {
    loads := fun body => if body = resultText then .ok resultJson else .error (.valueError "Expecting value")
    envelope := fun _ => .error (.valueError "validation error")
    toolRef := fun _ => .error (.valueError "validation error")
    resultEnvelope := fun _ => (resultOf "a").decoded }
  schemas := some { validators := [("generic_task.result.v1", fun _ => .ok ())] }
  policy := some fun _ _ _ _ result => .ok { denied := decide (result.status ≠ "ok") }
  validated := rfl

def signedResult : IncomingMessage where
  body := resultText
  headers := [("kid", "default"), ("sig", "6d6163")]

end Sample

open Sample in
theorem results_admitted_signed : ∃ q : Pool RunSig World Receipt, q.world.results ≠ [] ∧
    q.world.statusOf "r" = some .completed ∧ ∀ e ∈ q.world.results,
      screening.Admitted (Orchestrator.start Receipt (World.fresh [] (fun _ _ => none) 0)) q e := by
  obtain ⟨q, run, met⟩ := Machine.follow_any screening.machine (fun _ _ => true)
    (Orchestrator.start Receipt (World.fresh [] (fun _ _ => none) 0))
    ([.spawn begun] ++ List.replicate 12 (.run 0 { text := "r" }) ++
      [.spawn (.message signedResult)] ++ List.replicate 13 (.run 1 { text := "r" }))
    (fun q => !q.world.results.isEmpty && decide (q.world.statusOf "r" = some .completed)) (by decide +kernel)
  simp only [Bool.and_eq_true, Bool.not_eq_true', List.isEmpty_eq_false_iff, decide_eq_true_eq] at met
  exact ⟨q, met.1, met.2, (results_admitted screening platform executor single (by decide +kernel) [] [] []
    ⟨rfl, fun _ none => (by cases none), fun _ none => (by cases none), fun _ none => (by cases none)⟩ _ _ _ run).1⟩

end Maof
