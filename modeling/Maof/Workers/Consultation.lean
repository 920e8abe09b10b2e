import Maof.Agents.Client
import Maof.Workers.Commit

/-!
# Consulting agents from a worker

A pool gives one factory to every task it handles. The factory was made for one
tenant; the tenant and the actor of the message play no part in what it answers
and reports.
-/

namespace Maof

open Data (Dict)
open Effects (Sig Act Prog)

inductive ConsultOp where
  | client (agentId : String)

abbrev ConsultSig (C : Type) : Sig := ⟨ConsultOp, fun _ => AgentClient C, Exn⟩

/-- A pool with its agents, the tenant its factory was made for, and the attributes of every tenant. -/
structure ConsultingPool (C : Type) where
  pool : WorkerPool
  trust : Signer
  agents : (name : String) → Dict String Json → L2Context → Act (ConsultSig C) Unit TaskResult
  attributes : String → Dict String String := fun _ => []
  home : String
  clientBuilder : AgentManifest → Except Exn C
  eventSink : Bool := true

/-- `ctx.agents.client(agent_id)`, as it is called for a message. -/
structure Consultation (C : Type) where
  tenantId : String
  actor : Option Json
  agentId : String
  env : ClientEnv
  factory : AgentClientFactory C
  repo : InMemoryRegistryRepo

/-- What can be seen of the handling of a message. -/
inductive Happening (C : Type) where
  | called (op : PoolOp)
  | consulted (agentId : String) (events : List AuditEvent) (answer : Except Exn (AgentClient C))
  | ended (outcome : Except Exn Unit)

/-- The registry, the factory, the consultations so far and what was seen of each tenant's messages. -/
structure Bureau (C : Type) where
  repo : InMemoryRegistryRepo
  factory : AgentClientFactory C
  log : List (Consultation C) := []
  happened : List (Option String × Happening C) := []

/-- A delivery: the message, and what everything but the registry answers meanwhile. -/
structure Visit where
  msg : IncomingMessage
  timestamp : String := ""
  replies : (op : PoolOp) → Except Exn op.Ans
  clientEnv : String → ClientEnv := fun _ => {}

inductive BureauStep where
  | registry (call : RegistryCall)
  | deliver (v : Visit)

def Bureau.heard {C : Type} (b : Bureau C) (tenantId : String) : List (Option String × Happening C) :=
  b.happened.filter fun h => h.1 = some tenantId

namespace ConsultingPool

variable {C : Type} (p : Platform) (r : Reader) (k : ConsultingPool C)

def context (tenantId : String) : TenantContext := { tenantId, attributes := k.attributes tenantId }

def factory : AgentClientFactory C where
  tenant := k.context k.home
  clientBuilder := k.clientBuilder
  eventSink := k.eventSink

/-- The tenant of a message that is read. -/
def tenantOf (v : Visit) : Option String :=
  match k.pool.received p r v.msg with
  | .ok (_, ctx) => some ctx.tenant.tenantId
  | .error _ => none

def consult (v : Visit) (ctx : L2Context) (b : Bureau C) :
    (op : ConsultOp) → Bureau C × Except Exn (AgentClient C)
  | .client agentId =>
      let out := b.factory.client p k.trust (v.clientEnv agentId) agentId b.repo
      ({ b with
        factory := out.factory
        log := b.log ++ [{
          tenantId := ctx.tenant.tenantId
          actor := ctx.envelope.actor
          agentId
          env := v.clientEnv agentId
          factory := b.factory
          repo := b.repo }]
        happened := b.happened ++ [(k.tenantOf p r v, .consulted agentId out.events out.answer)] }, out.answer)

def perform (v : Visit) (b : Bureau C) (op : PoolOp) : Bureau C × Except Exn op.Ans :=
  let b := { b with happened := b.happened ++ [(k.tenantOf p r v, .called op)] }
  match op with
  | .handle agent taskBody ctx =>
      let out := (k.agents agent taskBody ctx ()).eval (k.consult p r v ctx) b
      (out.2, out.1.1)
  | .getState runId => (b, v.replies (.getState runId))
  | .emit event => (b, v.replies (.emit event))
  | .recorded key => (b, v.replies (.recorded key))
  | .publish publication => (b, v.replies (.publish publication))
  | .record key => (b, v.replies (.record key))

def step (b : Bureau C) : BureauStep → Bureau C
  | .registry call => { b with repo := call.after p k.trust b.repo }
  | .deliver v =>
      let out := (k.pool.handle p r v.timestamp v.msg ()).eval (k.perform p r v) b
      { out.2 with happened := out.2.happened ++ [(k.tenantOf p r v, .ended out.1.1)] }

def run (repo : InMemoryRegistryRepo) (steps : List BureauStep) : Bureau C :=
  steps.foldl (k.step p r) { repo, factory := k.factory }

/-- The steps that are left when the messages of the other tenants are not handled. -/
def concerns (tenantId : String) : BureauStep → Bool
  | .registry _ => true
  | .deliver v => k.tenantOf p r v = some tenantId

end ConsultingPool

namespace Consultation

variable {C : Type} (p : Platform) (k : ConsultingPool C) (x : Consultation C)

def consulted : Consulted C := x.factory.client p k.trust x.env x.agentId x.repo

/-- The scopes of the message's actor that are names. -/
def actorNames (actor : Option Json) : List String :=
  match WorkerPool.actorScopes actor with
  | .ok held => held.filterMap fun | .str scope => some scope | _ => none
  | .error _ => []

/-- A client is handed out only under scopes the actor or the tenant of the message holds, and
the event carries that tenant. -/
def Isolated : Prop :=
  (∀ c, (x.consulted p k).answer = .ok c → ∀ scope ∈ c.manifest.rbacScopes,
    scope ∈ actorNames x.actor ∨ scope ∈ tenantScopes (k.context x.tenantId)) ∧
  ∀ event ∈ (x.consulted p k).events, event.tenantId = x.tenantId

/-- The factory has a client for the agent: it built one before, or the agent is trusted, granted
to the factory's own tenant, and its client can be built. -/
def Served : Prop :=
  Dict.get x.factory.cache x.agentId ≠ none ∨
    (∃ found, AgentClientFactory.loads p k.trust x.env x.repo = .ok found) ∧
      ∃ manifest handle, x.factory.Entitled p k.trust x.repo x.agentId manifest ∧
        x.factory.clientBuilder manifest = .ok handle

/-- Agents the factory has a client for are consulted for messages of its own tenant only. -/
def AtHome : Prop := x.tenantId = k.home ∨ ¬ x.Served p k

end Consultation

/-! ## One consultation -/

namespace AgentClientFactory

variable {C : Type} {p : Platform} {signer : Signer} {f : AgentClientFactory C} {env : ClientEnv} {agentId : String}
  {r : InMemoryRegistryRepo}

/-- What a consultation changes of a factory is its cache. -/
theorem client_made (p : Platform) (signer : Signer) (f : AgentClientFactory C) (env : ClientEnv) (agentId : String)
    (r : InMemoryRegistryRepo) : ∃ cache, (f.client p signer env agentId r).factory = { f with cache } := by
  rcases client_cases p signer f env agentId r with ⟨c, _, same⟩ | ⟨_, e, same⟩ | ⟨c, _, _, same⟩
  · exact ⟨f.cache, by rw [same, emit_factory]⟩
  · exact ⟨f.cache, by rw [same]⟩
  · exact ⟨Dict.set f.cache agentId c, by rw [same, emit_factory]⟩

theorem emit_events (f : AgentClientFactory C) (env : ClientEnv) (agentId : String) (c : AgentClient C) :
    ∀ event ∈ (f.emit env agentId c).events, event.tenantId = f.tenant.tenantId := by
  unfold emit
  split
  · simp only [List.forall_mem_singleton]
    rfl
  · simp

theorem client_events : ∀ event ∈ (f.client p signer env agentId r).events, event.tenantId = f.tenant.tenantId := by
  intro event member
  rcases client_cases p signer f env agentId r with ⟨c, _, same⟩ | ⟨_, e, same⟩ | ⟨c, _, _, same⟩
  · rw [same] at member
    exact emit_events f env agentId c event member
  · rw [same] at member
    cases member
  · rw [same] at member
    exact emit_events { f with cache := Dict.set f.cache agentId c } env agentId c event member

/-- Where the sink is wired, a factory that has a client for the agent reports. -/
theorem client_reports (sink : f.eventSink = true) (served : Dict.get f.cache agentId ≠ none ∨
    ∃ c, f.resolve p signer env agentId r = .ok c) : (f.client p signer env agentId r).events ≠ [] := by
  have told : ∀ g : AgentClientFactory C, g.eventSink = true → ∀ c, (g.emit env agentId c).events ≠ [] := by
    intro g sink c
    simp [emit, sink]
  unfold client
  cases held : Dict.get f.cache agentId with
  | some c => exact told f sink c
  | none =>
      rcases served with cached | ⟨c, resolved⟩
      · exact absurd held cached
      · simp only [resolved]
        exact told { f with cache := Dict.set f.cache agentId c } sink c

end AgentClientFactory

namespace Consultation

open AgentClientFactory (client_cases client_events client_reports resolve_ok emit_factory emit_answer)

variable {C : Type} {p : Platform} {k : ConsultingPool C} {x : Consultation C}

theorem served_iff : x.Served p k ↔ Dict.get x.factory.cache x.agentId ≠ none ∨
    ∃ c, x.factory.resolve p k.trust x.env x.agentId x.repo = .ok c := by
  refine or_congr Iff.rfl ⟨?_, ?_⟩
  · rintro ⟨loaded, manifest, handle, entitled, built⟩
    exact ⟨⟨manifest, handle⟩, resolve_ok.mpr ⟨loaded, entitled, built⟩⟩
  · rintro ⟨c, resolved⟩
    obtain ⟨loaded, entitled, built⟩ := resolve_ok.mp resolved
    exact ⟨loaded, c.manifest, c.handle, entitled, built⟩

/-- An agent the factory has no client for is refused. -/
theorem refused (unserved : ¬ x.Served p k) : Dict.get x.factory.cache x.agentId = none ∧
    ∃ e, x.factory.resolve p k.trust x.env x.agentId x.repo = .error e := by
  rw [served_iff, not_or, not_not] at unserved
  obtain ⟨fresh, unbuilt⟩ := unserved
  refine ⟨fresh, ?_⟩
  cases resolved : x.factory.resolve p k.trust x.env x.agentId x.repo with
  | error e => exact ⟨e, rfl⟩
  | ok c => exact absurd ⟨c, resolved⟩ unbuilt

theorem consulted_unserved (unserved : ¬ x.Served p k) : ∃ e, x.consulted p k = ⟨x.factory, [], .error e⟩ := by
  obtain ⟨fresh, e, resolved⟩ := refused unserved
  exact ⟨e, by simp only [consulted, AgentClientFactory.client, fresh, resolved]⟩

/-- The factory is the pool's, and the clients it keeps are granted to its tenant. -/
def Own (k : ConsultingPool C) (f : AgentClientFactory C) : Prop :=
  { f with cache := [] } = k.factory ∧
    ∀ agentId c, Dict.get f.cache agentId = some c → scopesGranted c.manifest (some f.tenant) = true

theorem own_tenant {f : AgentClientFactory C} (own : Own k f) : f.tenant = k.context k.home :=
  congrArg AgentClientFactory.tenant own.1

theorem own_sink {f : AgentClientFactory C} (own : Own k f) : f.eventSink = k.eventSink :=
  congrArg AgentClientFactory.eventSink own.1

theorem own_client {f : AgentClientFactory C} (own : Own k f) (env : ClientEnv) (agentId : String)
    (r : InMemoryRegistryRepo) : Own k (f.client p k.trust env agentId r).factory := by
  rcases client_cases p k.trust f env agentId r with ⟨c, _, same⟩ | ⟨_, e, same⟩ | ⟨c, _, entitled, same⟩
  · rw [same, emit_factory]
    exact own
  · rw [same]
    exact own
  · rw [same, emit_factory]
    refine ⟨own.1, fun agentId' c' held => ?_⟩
    simp only [Dict.get_set] at held
    split at held
    · cases held
      exact entitled.2
    · exact own.2 agentId' c' held

/-- At home, and only there, a consultation is isolated. -/
theorem isolated_of_home (own : Own k x.factory) (home : x.AtHome p k) : x.Isolated p k := by
  rcases home with here | unserved
  · have granted : ∀ c, (x.consulted p k).answer = .ok c → scopesGranted c.manifest (some x.factory.tenant) = true := by
      intro c answers
      unfold consulted at answers
      rcases client_cases p k.trust x.factory x.env x.agentId x.repo with
        ⟨c', held, same⟩ | ⟨_, e, same⟩ | ⟨c', _, entitled, same⟩
      · rw [same] at answers
        obtain ⟨_, rfl⟩ := emit_answer.mp answers
        exact own.2 _ _ held
      · rw [same] at answers
        cases answers
      · rw [same] at answers
        obtain ⟨_, rfl⟩ := emit_answer.mp answers
        exact entitled.2
    constructor
    · intro c answers scope member
      have held := granted c answers
      rw [own_tenant own] at held
      refine .inr ?_
      rw [here]
      exact of_decide_eq_true (List.all_eq_true.mp held scope member)
    · intro event member
      rw [client_events event member, own_tenant own, here]
      rfl
  · obtain ⟨e, same⟩ := consulted_unserved unserved
    constructor
    · intro c answers
      rw [same] at answers
      cases answers
    · intro event member
      rw [same] at member
      cases member

theorem home_of_isolated (own : Own k x.factory) (sink : k.eventSink = true) (isolated : x.Isolated p k) :
    x.AtHome p k := by
  by_cases served : x.Served p k
  · have reported := client_reports ((own_sink own).trans sink) (served_iff.mp served)
    obtain ⟨event, member⟩ := List.exists_mem_of_ne_nil _ reported
    have named := client_events event member
    refine .inl ?_
    rw [← isolated.2 event member, named, own_tenant own]
    rfl
  · exact .inr served

end Consultation

/-! ## A delivery -/

namespace ConsultingPool

open Consultation (Own own_client refused)

variable {C : Type} {p : Platform} {r : Reader} {k : ConsultingPool C} {v : Visit}

/-- The agent is given the tenant of the message. -/
def ForMessage (p : Platform) (r : Reader) (k : ConsultingPool C) (v : Visit) : PoolOp → Prop
  | .handle _ _ ctx => k.tenantOf p r v = some ctx.tenant.tenantId
  | _ => True

theorem besides_forMessage (op : PoolOp) (other : op.besides) : ForMessage p r k v op := by
  cases op with
  | handle agent taskBody ctx => exact absurd other id
  | getState | emit | recorded | publish | record => trivial

theorem stripTools_tenant {ctx ctx' : L2Context} (h : WorkerPool.stripTools ctx = .ok ctx') :
    ctx'.tenant = ctx.tenant := by
  obtain ⟨held, _, made⟩ := ok_of_bind h
  cases made
  rfl

theorem admitted_strips {pool : WorkerPool} {taskBody : Dict String Json} {ctx ctx' : L2Context} {agent : String}
    (h : pool.admitted p taskBody ctx = .ok (agent, ctx')) : WorkerPool.stripTools ctx = .ok ctx' := by
  unfold WorkerPool.admitted at h
  dsimp only at h
  split at h
  · cases h
  · obtain ⟨_, _, h⟩ := ok_of_bind h
    split at h
    · cases h
    · obtain ⟨stripped, strips, made⟩ := ok_of_bind h
      cases made
      exact strips

theorem handle_uses : (k.pool.handle p r v.timestamp v.msg).Uses (ForMessage p r k v) := by
  refine WorkerPool.uses_handle besides_forMessage fun taskBody ctx agent ctx' read let_ => ?_
  have mine : k.tenantOf p r v = some ctx.tenant.tenantId := by simp only [tenantOf, read]
  change k.tenantOf p r v = some ctx'.tenant.tenantId
  rw [mine, stripTools_tenant (admitted_strips let_)]

/-- Every consultation so far kept to the factory's tenant. -/
def AllHome (p : Platform) (k : ConsultingPool C) (b : Bureau C) : Prop := ∀ x ∈ b.log, x.AtHome p k

/-- The factory and those the consultations so far found are the pool's own. -/
def Genuine (k : ConsultingPool C) (b : Bureau C) : Prop := Own k b.factory ∧ ∀ x ∈ b.log, Own k x.factory

theorem consult_back (ctx : L2Context) (op : ConsultOp) (b : Bureau C)
    (h : AllHome p k (k.consult p r v ctx b op).1) : AllHome p k b :=
  fun x member => h x (List.mem_append_left _ member)

theorem consult_genuine {ctx : L2Context} {b : Bureau C} (h : Genuine k b) (op : ConsultOp) :
    Genuine k (k.consult p r v ctx b op).1 := by
  refine ⟨own_client h.1 _ _ _, fun x member => ?_⟩
  rcases List.mem_append.mp member with old | new
  · exact h.2 x old
  · rw [List.mem_singleton.mp new]
    exact h.1

/-- The bureau once a call to the pool was seen. -/
def seen (p : Platform) (r : Reader) (k : ConsultingPool C) (v : Visit) (b : Bureau C) (op : PoolOp) : Bureau C :=
  { b with happened := b.happened ++ [(k.tenantOf p r v, .called op)] }

theorem perform_handle (b : Bureau C) (agent : String) (taskBody : Dict String Json) (ctx : L2Context) :
    k.perform p r v b (.handle agent taskBody ctx) =
      (((k.agents agent taskBody ctx ()).eval (k.consult p r v ctx) (seen p r k v b (.handle agent taskBody ctx))).2,
        ((k.agents agent taskBody ctx ()).eval (k.consult p r v ctx) (seen p r k v b (.handle agent taskBody ctx))).1.1) :=
  rfl

theorem perform_back (op : PoolOp) (b : Bureau C) (h : AllHome p k (k.perform p r v b op).1) : AllHome p k b := by
  cases op with
  | handle agent taskBody ctx =>
      rw [perform_handle] at h
      have before : AllHome p k (seen p r k v b (.handle agent taskBody ctx)) := Prog.eval_back (consult_back ctx) h
      exact before
  | getState | emit | recorded | publish | record => exact h

theorem perform_genuine {b : Bureau C} (h : Genuine k b) (op : PoolOp) : Genuine k (k.perform p r v b op).1 := by
  cases op with
  | handle agent taskBody ctx =>
      rw [perform_handle]
      have start : Genuine k (seen p r k v b (.handle agent taskBody ctx)) := h
      dsimp only
      exact (Prog.Uses.all (fun _ => trivial) _).eval (J := Genuine k)
        (fun op (_ : True) b kept => consult_genuine kept op) start
  | getState | emit | recorded | publish | record => exact h

theorem step_back (s : BureauStep) (b : Bureau C) (h : AllHome p k (k.step p r b s)) : AllHome p k b := by
  cases s with
  | registry call => exact h
  | deliver v => exact Prog.eval_back perform_back h

theorem step_genuine {b : Bureau C} (h : Genuine k b) (s : BureauStep) : Genuine k (k.step p r b s) := by
  cases s with
  | registry call => exact h
  | deliver v =>
      exact (Prog.Uses.all (fun _ => trivial) _).eval (J := Genuine k)
        (fun op (_ : True) b kept => perform_genuine kept op) h

theorem run_genuine (repo : InMemoryRegistryRepo) (steps : List BureauStep) : Genuine k (k.run p r repo steps) := by
  have kept : ∀ b : Bureau C, Genuine k b → Genuine k (steps.foldl (k.step p r) b) := by
    induction steps with
    | nil => exact fun _ h => h
    | cons s steps ih => exact fun b h => ih _ (step_genuine h s)
  refine kept _ ⟨⟨rfl, ?_⟩, ?_⟩
  · intro agentId c held
    cases held
  · intro x member
    cases member

/-! ## With and without the other tenants -/

/-- What the run and the run without the other tenants' messages have in common: the registry, what
was seen of the tenant's messages, and the factory, but for clients built for its own tenant. -/
structure Alike (k : ConsultingPool C) (tenantId : String) (b b' : Bureau C) : Prop where
  repo : b'.repo = b.repo
  factory : b'.factory = if tenantId = k.home then b.factory else { b.factory with cache := [] }
  heard : b'.heard tenantId = b.heard tenantId

variable {tenantId : String} {b b' : Bureau C}

theorem Alike.same (h : Alike k tenantId b b') (who : Option String) (seen : Happening C) :
    Alike k tenantId { b with happened := b.happened ++ [(who, seen)] }
      { b' with happened := b'.happened ++ [(who, seen)] } where
  repo := h.repo
  factory := h.factory
  heard := by
    have old := h.heard
    simp only [Bureau.heard, List.filter_append] at old ⊢
    rw [old]

theorem Alike.other (h : Alike k tenantId b b') {who : Option String} (other : who ≠ some tenantId)
    (seen : Happening C) : Alike k tenantId { b with happened := b.happened ++ [(who, seen)] } b' where
  repo := h.repo
  factory := h.factory
  heard := by
    have old := h.heard
    simp only [Bureau.heard, List.filter_append, List.filter_cons, other, decide_false, Bool.false_eq_true, if_false,
      List.filter_nil, List.append_nil] at old ⊢
    exact old

/-- A consultation for the tenant's own message answers alike in both runs. -/
theorem consult_alike {ctx : L2Context} (given : ctx.tenant.tenantId = tenantId) (op : ConsultOp) (home : AllHome p k (k.consult p r v ctx b op).1)
    (h : Alike k tenantId b b') : (k.consult p r v ctx b op).2 = (k.consult p r v ctx b' op).2 ∧
      Alike k tenantId (k.consult p r v ctx b op).1 (k.consult p r v ctx b' op).1 := by
  obtain ⟨agentId⟩ := op
  have here := home _ (List.mem_append_right _ (List.mem_singleton_self _))
  by_cases own : tenantId = k.home
  · have factories : b'.factory = b.factory := by rw [h.factory, if_pos own]
    simp only [consult, factories, h.repo]
    refine ⟨trivial, ⟨rfl, by rw [if_pos own], ?_⟩⟩
    have old := h.heard
    simp only [Bureau.heard, List.filter_append] at old ⊢
    rw [old]
  · rcases here with at_home | unserved
    · exact absurd (given.symm.trans at_home) own
    · obtain ⟨fresh, e, resolved⟩ := refused unserved
      dsimp only at fresh resolved
      have factories : b'.factory = { b.factory with cache := [] } := by rw [h.factory, if_neg own]
      have first : b.factory.client p k.trust (v.clientEnv agentId) agentId b.repo = ⟨b.factory, [], .error e⟩ := by
        simp only [AgentClientFactory.client, fresh, resolved]
      have second : b'.factory.client p k.trust (v.clientEnv agentId) agentId b'.repo =
          ⟨b'.factory, [], .error e⟩ := by
        have again : b'.factory.resolve p k.trust (v.clientEnv agentId) agentId b'.repo = .error e := by
          rw [factories, h.repo]
          exact resolved
        have none : Dict.get b'.factory.cache agentId = none := by rw [factories]; rfl
        simp only [AgentClientFactory.client, none, again]
      simp only [consult, first, second]
      refine ⟨trivial, ⟨h.repo, h.factory, ?_⟩⟩
      have old := h.heard
      simp only [Bureau.heard, List.filter_append] at old ⊢
      rw [old]

/-- A consultation for another tenant's message leaves the two runs alike. -/
theorem consult_other {ctx : L2Context} (other : k.tenantOf p r v ≠ some tenantId)
    (given : ctx.tenant.tenantId ≠ tenantId) (op : ConsultOp) (home : AllHome p k (k.consult p r v ctx b op).1)
    (h : Alike k tenantId b b') : Alike k tenantId (k.consult p r v ctx b op).1 b' := by
  obtain ⟨agentId⟩ := op
  have here := home _ (List.mem_append_right _ (List.mem_singleton_self _))
  obtain ⟨cache, made⟩ := AgentClientFactory.client_made p k.trust b.factory (v.clientEnv agentId) agentId b.repo
  refine ⟨h.repo, ?_, ?_⟩
  · by_cases own : tenantId = k.home
    · rcases here with at_home | unserved
      · exact absurd (at_home.trans own.symm) given
      · obtain ⟨fresh, e, resolved⟩ := refused unserved
        dsimp only at fresh resolved
        simp only [consult, AgentClientFactory.client, fresh, resolved]
        exact h.factory
    · simp only [consult, made]
      rw [h.factory, if_neg own, if_neg own]
  · have old := h.heard
    simp only [consult, Bureau.heard, List.filter_append, List.filter_cons, other, decide_false, Bool.false_eq_true,
      if_false, List.filter_nil, List.append_nil] at old ⊢
    exact old

theorem perform_alike (mine : k.tenantOf p r v = some tenantId) (op : PoolOp) (about : ForMessage p r k v op)
    (home : AllHome p k (k.perform p r v b op).1) (h : Alike k tenantId b b') :
    (k.perform p r v b op).2 = (k.perform p r v b' op).2 ∧
      Alike k tenantId (k.perform p r v b op).1 (k.perform p r v b' op).1 := by
  have start : Alike k tenantId (seen p r k v b op) (seen p r k v b' op) := h.same _ _
  cases op with
  | handle agent taskBody ctx =>
      have given : ctx.tenant.tenantId = tenantId := Option.some.inj (about.symm.trans mine)
      rw [perform_handle] at home
      rw [perform_handle, perform_handle]
      dsimp only at home ⊢
      obtain ⟨answer, after⟩ := (Prog.Uses.all (fun _ => trivial) (k.agents agent taskBody ctx ())).eval_alike_while
        (R := Alike k tenantId) (consult_back ctx)
        (fun op (_ : True) b b' good alike => consult_alike given op good alike) home start
      exact ⟨by rw [answer], after⟩
  | getState | emit | recorded | publish | record => exact ⟨rfl, start⟩

theorem perform_other (other : k.tenantOf p r v ≠ some tenantId) (op : PoolOp) (about : ForMessage p r k v op)
    (home : AllHome p k (k.perform p r v b op).1) (h : Alike k tenantId b b') :
    Alike k tenantId (k.perform p r v b op).1 b' := by
  have start : Alike k tenantId (seen p r k v b op) b' := h.other other _
  cases op with
  | handle agent taskBody ctx =>
      have given : ctx.tenant.tenantId ≠ tenantId := fun same => other (about.trans (congrArg some same))
      rw [perform_handle] at home ⊢
      dsimp only at home ⊢
      exact (Prog.Uses.all (fun _ => trivial) (k.agents agent taskBody ctx ())).eval_while
        (J := fun b => Alike k tenantId b b') (consult_back ctx)
        (fun op (_ : True) b good alike => consult_other other given op good alike) home start
  | getState | emit | recorded | publish | record => exact start

/-- A step of the whole run, and the same step of the run without the other tenants if it is kept. -/
theorem step_alike (s : BureauStep) (home : AllHome p k (k.step p r b s)) (h : Alike k tenantId b b') :
    Alike k tenantId (k.step p r b s) (if k.concerns p r tenantId s then k.step p r b' s else b') := by
  cases s with
  | registry call =>
      refine ⟨?_, h.factory, h.heard⟩
      simp only [concerns, if_true, step, h.repo]
  | deliver v =>
      by_cases mine : k.tenantOf p r v = some tenantId
      · have kept : k.concerns p r tenantId (.deliver v) = true := decide_eq_true mine
        rw [if_pos kept]
        obtain ⟨answer, after⟩ := (handle_uses (v := v) ()).eval_alike_while (R := Alike k tenantId) perform_back
          (fun op about b b' good alike => perform_alike mine op about good alike) home h
        simp only [step, ← answer]
        exact after.same _ _
      · rw [if_neg (by simp [concerns, mine])]
        have after := (handle_uses (v := v) ()).eval_while (J := fun b => Alike k tenantId b b') perform_back
          (fun op about b good alike => perform_other mine op about good alike) home h
        exact after.other mine _

theorem run_alike (repo : InMemoryRegistryRepo) (tenantId : String) (steps : List BureauStep)
    (home : AllHome p k (k.run p r repo steps)) :
    Alike k tenantId (k.run p r repo steps) (k.run p r repo (steps.filter (k.concerns p r tenantId))) := by
  induction steps using List.reverseRecOn with
  | nil =>
      refine ⟨rfl, ?_, rfl⟩
      split <;> rfl
  | append_singleton steps s ih =>
      rw [run, List.foldl_append] at home ⊢
      have later := step_alike s home (ih (step_back s _ home))
      rw [run, List.filter_append, List.foldl_append]
      by_cases kept : k.concerns p r tenantId s = true
      · rw [if_pos kept] at later
        rw [List.filter_cons_of_pos kept]
        exact later
      · rw [if_neg kept] at later
        rw [List.filter_cons_of_neg kept]
        exact later

end ConsultingPool

/-- Consultations are isolated by tenant, and what is seen of a tenant's messages does not depend
on the others', if agents the factory has a client for are consulted for its own tenant only; where
the sink is wired, only then. -/
theorem consultations_isolated {C : Type} (p : Platform) (r : Reader) (k : ConsultingPool C)
    (repo : InMemoryRegistryRepo) (steps : List BureauStep) :
    ((∀ x ∈ (k.run p r repo steps).log, x.AtHome p k) →
      (∀ x ∈ (k.run p r repo steps).log, x.Isolated p k) ∧
        ∀ tenantId, (k.run p r repo steps).heard tenantId =
          (k.run p r repo (steps.filter (k.concerns p r tenantId))).heard tenantId) ∧
    (k.eventSink = true → (∀ x ∈ (k.run p r repo steps).log, x.Isolated p k) →
      ∀ x ∈ (k.run p r repo steps).log, x.AtHome p k) := by
  obtain ⟨_, genuine⟩ := ConsultingPool.run_genuine (p := p) (r := r) (k := k) repo steps
  constructor
  · intro home
    constructor
    · exact fun x member => Consultation.isolated_of_home (genuine x member) (home x member)
    · exact fun tenantId => (ConsultingPool.run_alike repo tenantId steps home).heard.symm
  · intro sink isolated x member
    exact Consultation.home_of_isolated (genuine x member) sink (isolated x member)

namespace Sample

/-- An agent that asks for a scope, approved. -/
def catalogued : InMemoryRegistryRepo :=
  (RegistryHistory.of registrar registrarSigner
    [.submit {} { candidate with rbacScopes := ["catalog:read"] } none, .approve {} "agent" none]).repo

/-- A message of a tenant that holds no scope. -/
def umbrella : Reader where
  loads _ := .ok (.obj [("envelope", .null), ("task", .obj [("task_type", .str "order")])])
  envelope _ := .ok {
    runId := "run"
    tenantId := "umbrella"
    intentId := none
    stage := .publish
    rulesetRef := none
    rulesetVersion := none
    schemaId := none
    mode := "sandbox"
    region := "us-east-1"
    actor := none }
  toolRef _ := .error (.external "no tool")
  resultEnvelope _ := .error (.external "no result")

def order : Visit where
  msg := { body := "" }
  replies
    | .getState _ => .error (.keyError "run not found")
    | .handle _ _ _ => .error (.external "unused")
    | .recorded _ => .ok false
    | .emit _ | .publish _ | .record _ => .ok ()

/-- The factory was made for a tenant that holds the scope. -/
def catalogPool : ConsultingPool Unit where
  pool := { signer := registrarSigner, registry := { byTaskType := [("order", "orders")] }, requireSignature := false }
  trust := registrarSigner
  agents _ _ _ := do
    let _ ← Act.await (S := ConsultSig Unit) (.client "agent")
    return { status := "ok", taskId := "t" }
  attributes tenantId := if tenantId = "acme" then [("scopes", "catalog:read")] else []
  home := "acme"
  clientBuilder _ := .ok ()

/-- A client was handed out under a scope that neither the actor nor the tenant holds. -/
def leaks (x : Consultation Unit) : Bool :=
  match (x.consulted registrar catalogPool).answer with
  | .ok c => c.manifest.rbacScopes.any fun scope =>
      !(scope ∈ Consultation.actorNames x.actor || scope ∈ tenantScopes (catalogPool.context x.tenantId))
  | .error _ => false

theorem leaks_not_isolated {x : Consultation Unit} (isolated : x.Isolated registrar catalogPool) : leaks x = false := by
  unfold leaks
  split
  · next c answers =>
      rw [List.any_eq_false]
      intro scope member
      simp only [Bool.not_eq_true, Bool.not_eq_false', Bool.or_eq_true, decide_eq_true_eq]
      exact isolated.1 c answers scope member
  · rfl

end Sample

open Sample in
/-- The agent of one tenant's message is given a client under another tenant's scope. -/
theorem consulted_across : ¬ ∀ (p : Platform) (r : Reader) (k : ConsultingPool Unit) (repo : InMemoryRegistryRepo)
    (steps : List BureauStep),
    (∀ x ∈ (k.run p r repo steps).log, x.Isolated p k) ∧
      ∀ tenantId, (k.run p r repo steps).heard tenantId =
        (k.run p r repo (steps.filter (k.concerns p r tenantId))).heard tenantId := by
  intro claimed
  have leaked : (catalogPool.run registrar umbrella catalogued [.deliver order]).log.any leaks = true := by
    decide +kernel
  obtain ⟨x, member, leak⟩ := List.any_eq_true.mp leaked
  have isolated := (claimed registrar umbrella catalogPool catalogued [.deliver order]).1 x member
  rw [leaks_not_isolated isolated] at leak
  cases leak

end Maof
