import Maof.Orchestrator.World
import Maof.Registry.Lifecycle
import Mathlib.Data.List.Induction

/-!
# Consulting other agents

A factory resolves an agent of the registry into a client and keeps the client.
The trust check and the scope check stand behind that cache, so a client that was
handed out once is handed out again whatever became of its entry.
-/

namespace Maof

open Data (Dict)

/-- What the builder connected, with the manifest it was built from. -/
structure AgentClient (C : Type) where
  manifest : AgentManifest
  handle : C

structure AgentClientFactory (C : Type) where
  tenant : TenantContext
  clientBuilder : AgentManifest → Except Exn C
  eventSink : Bool := true
  cache : Dict String (AgentClient C) := []

/-- What the factory's sink and the loader's do during a call. -/
structure ClientEnv where
  emitted : Except Exn Unit := .ok ()
  rejected : Except Exn Unit := .ok ()

/-- What a call of `client` leaves, the events it gave the sink, and its answer. -/
structure Consulted (C : Type) where
  factory : AgentClientFactory C
  events : List AuditEvent
  answer : Except Exn (AgentClient C)

namespace AgentClientFactory

variable {C : Type} (p : Platform) (signer : Signer) (f : AgentClientFactory C)

def consultedEvent (agentId : String) : AuditEvent where
  tenantId := f.tenant.tenantId
  eventType := "agent_consulted"
  envelope := [("agent", .str agentId)]

/-- Report the consultation, then hand out the client. -/
def emit (env : ClientEnv) (agentId : String) (client : AgentClient C) : Consulted C :=
  if f.eventSink then
    { factory := f, events := [f.consultedEvent agentId], answer := env.emitted.map fun _ => client }
  else { factory := f, events := [], answer := .ok client }

/-- The loader reports the approved entries it rejects. -/
def loads (env : ClientEnv) (r : InMemoryRegistryRepo) : Except Exn (List AgentManifest) := do
  if !(listApproved r.values).all (RegistryEntry.trusted p signer) then
    env.rejected
  return manifests p signer r

def trustedManifest (r : InMemoryRegistryRepo) (agentId : String) : Option AgentManifest :=
  (manifests p signer r).find? fun m => m.id = agentId

/-- The client of an agent that is trusted and granted to the factory's tenant. -/
def resolve (env : ClientEnv) (agentId : String) (r : InMemoryRegistryRepo) : Except Exn (AgentClient C) := do
  let manifests ← loads p signer env r
  match manifests.find? fun m => m.id = agentId with
  | none =>
      throw (.registryTrust ("no approved registry agent " ++ Template.reprText p.unicode (.str agentId)))
  | some manifest =>
      if scopesGranted manifest (some f.tenant) then
        let handle ← f.clientBuilder manifest
        return { manifest, handle }
      else
        throw (.registryTrust ("tenant " ++ Template.reprText p.unicode (.str f.tenant.tenantId) ++
          " lacks scopes for " ++ Template.reprText p.unicode (.str agentId)))

def client (env : ClientEnv) (agentId : String) (r : InMemoryRegistryRepo) : Consulted C :=
  match Dict.get f.cache agentId with
  | some client => f.emit env agentId client
  | none =>
      match f.resolve p signer env agentId r with
      | .error e => { factory := f, events := [], answer := .error e }
      | .ok client => emit { f with cache := Dict.set f.cache agentId client } env agentId client

/-- The sink takes the event of a consultation. -/
def Heard (env : ClientEnv) : Prop := f.eventSink = true → env.emitted = .ok ()

/-- The agent is trusted under this manifest, which is granted to the factory's tenant. -/
def Entitled (r : InMemoryRegistryRepo) (agentId : String) (manifest : AgentManifest) : Prop :=
  trustedManifest p signer r agentId = some manifest ∧ scopesGranted manifest (some f.tenant) = true

section laws

variable {p : Platform} {signer : Signer} {f : AgentClientFactory C} {env : ClientEnv} {agentId : String}
  {r : InMemoryRegistryRepo} {c : AgentClient C}

theorem mem_of_trusted {manifest : AgentManifest} (h : trustedManifest p signer r agentId = some manifest) :
    manifest ∈ manifests p signer r ∧ manifest.id = agentId := by
  unfold trustedManifest at h
  have named := List.find?_some h
  exact ⟨List.mem_of_find?_eq_some h, of_decide_eq_true named⟩

theorem trusted_of_mem {manifest : AgentManifest} (h : manifest ∈ manifests p signer r) :
    trustedManifest p signer r manifest.id = some manifest := by
  have only := RegistryHistory.filter_key (RegistryHistory.manifests_nodup p signer r) h
  rw [trustedManifest, ← List.head?_filter, only]
  rfl

theorem loads_ok {found : List AgentManifest} (h : loads p signer env r = .ok found) :
    found = manifests p signer r := by
  unfold loads at h
  split at h
  · obtain ⟨_, _, h⟩ := ok_of_bind h
    cases h
    rfl
  · cases h
    rfl

/-- A client is built of what the tenant is entitled to, where the loader and the builder answer. -/
theorem resolve_ok : f.resolve p signer env agentId r = .ok c ↔ (∃ found, loads p signer env r = .ok found) ∧
    f.Entitled p signer r agentId c.manifest ∧ f.clientBuilder c.manifest = .ok c.handle := by
  constructor
  · intro resolved
    obtain ⟨found, loaded, resolved⟩ := ok_of_bind resolved
    rw [loads_ok loaded] at resolved
    split at resolved
    · cases resolved
    · next manifest trusted =>
        split at resolved
        · next granted =>
            obtain ⟨handle, built, made⟩ := ok_of_bind resolved
            cases made
            exact ⟨⟨found, loaded⟩, ⟨trusted, granted⟩, built⟩
        · cases resolved
  · rintro ⟨⟨found, loaded⟩, ⟨trusted, granted⟩, built⟩
    rw [trustedManifest] at trusted
    simp only [resolve, loaded, loads_ok loaded, bind, Except.bind, trusted, granted, if_true, built]
    rfl

/-- What a call does to the cache: nothing, or it keeps the client it built. -/
theorem client_cases (p : Platform) (signer : Signer) (f : AgentClientFactory C) (env : ClientEnv) (agentId : String)
    (r : InMemoryRegistryRepo) :
    (∃ c, Dict.get f.cache agentId = some c ∧ f.client p signer env agentId r = f.emit env agentId c) ∨
      (Dict.get f.cache agentId = none ∧ ∃ e, f.client p signer env agentId r = ⟨f, [], .error e⟩) ∨
      ∃ c, Dict.get f.cache agentId = none ∧ f.Entitled p signer r agentId c.manifest ∧
        f.client p signer env agentId r =
          emit { f with cache := Dict.set f.cache agentId c } env agentId c := by
  unfold client
  cases held : Dict.get f.cache agentId with
  | some c => exact .inl ⟨c, rfl, rfl⟩
  | none =>
      cases built : f.resolve p signer env agentId r with
      | error e => exact .inr (.inl ⟨rfl, e, rfl⟩)
      | ok c => exact .inr (.inr ⟨c, rfl, (resolve_ok.mp built).2.1, rfl⟩)

theorem emit_factory (f : AgentClientFactory C) (env : ClientEnv) (agentId : String) (c : AgentClient C) :
    (f.emit env agentId c).factory = f := by
  unfold emit
  split <;> rfl

/-- A client is handed out only if the sink took the event. -/
theorem emit_answer {c' : AgentClient C} : (f.emit env agentId c).answer = .ok c' ↔ f.Heard env ∧ c' = c := by
  unfold emit Heard
  split
  · next sink =>
      simp only [sink, forall_const]
      cases env.emitted with
      | error e => simp [Except.map]
      | ok _ => simp [Except.map, eq_comm]
  · next silent => simp [silent, eq_comm]

end laws

end AgentClientFactory

/-! ## Histories -/

/-- The registry and one factory that lives beside it. -/
structure Consultancy (C : Type) where
  repo : InMemoryRegistryRepo
  factory : AgentClientFactory C

inductive ConsultancyCall where
  | registry (call : RegistryCall)
  | client (env : ClientEnv) (agentId : String)

namespace Consultancy

open AgentClientFactory (trustedManifest mem_of_trusted trusted_of_mem client_cases emit_factory emit_answer)

variable {C : Type} (p : Platform) (signer : Signer)

def after (w : Consultancy C) : ConsultancyCall → Consultancy C
  | .registry call => { w with repo := call.after p signer w.repo }
  | .client env agentId => { w with factory := (w.factory.client p signer env agentId w.repo).factory }

def run (w : Consultancy C) (calls : List ConsultancyCall) : Consultancy C := calls.foldl (after p signer) w

/-- A client that is handed out was built from the manifest of an entry of the registry that is
approved and verifies now, and the tenant is granted its scopes. -/
def Current (w : Consultancy C) (env : ClientEnv) (agentId : String) : Prop :=
  ∀ c, (w.factory.client p signer env agentId w.repo).answer = .ok c →
    c.manifest ∈ manifests p signer w.repo ∧ c.manifest.id = agentId ∧
      scopesGranted c.manifest (some w.factory.tenant) = true

/-- The call is the one that put the agent's client into the cache. -/
def Caches (w : Consultancy C) (env : ClientEnv) (agentId : String) : Prop :=
  Dict.get w.factory.cache agentId = none ∧
    (Dict.get (w.after p signer (.client env agentId)).factory.cache agentId).isSome

/-- The registry trusts the agent as it did when the agent's client was built. -/
def Undisturbed (w : Consultancy C) (before : List ConsultancyCall) (agentId : String) : Prop :=
  ∀ early env later, before = early ++ .client env agentId :: later →
    Caches p signer (w.run p signer early) env agentId →
    trustedManifest p signer (w.run p signer before).repo agentId =
      trustedManifest p signer (w.run p signer early).repo agentId

/-- A factory that has handed out nothing yet. -/
def opened (repo : InMemoryRegistryRepo) (tenant : TenantContext) (clientBuilder : AgentManifest → Except Exn C)
    (eventSink : Bool) : Consultancy C where
  repo
  factory := { tenant, clientBuilder, eventSink }

variable {p : Platform} {signer : Signer} {w : Consultancy C}

theorem run_snoc (before : List ConsultancyCall) (c : ConsultancyCall) :
    w.run p signer (before ++ [c]) = (w.run p signer before).after p signer c :=
  List.foldl_append

theorem run_append (before later : List ConsultancyCall) :
    w.run p signer (before ++ later) = (w.run p signer before).run p signer later :=
  List.foldl_append

/-- What a factory is made with stays. -/
theorem after_made (c : ConsultancyCall) : (w.after p signer c).factory.tenant = w.factory.tenant ∧
    (w.after p signer c).factory.eventSink = w.factory.eventSink := by
  cases c with
  | registry call => exact ⟨rfl, rfl⟩
  | client env agentId =>
      simp only [after]
      rcases client_cases p signer w.factory env agentId w.repo with ⟨c, _, same⟩ | ⟨_, e, same⟩ | ⟨c, _, _, same⟩
      · rw [same, emit_factory]
        exact ⟨rfl, rfl⟩
      · rw [same]
        exact ⟨rfl, rfl⟩
      · rw [same, emit_factory]
        exact ⟨rfl, rfl⟩

theorem run_made (calls : List ConsultancyCall) : (w.run p signer calls).factory.tenant = w.factory.tenant ∧
    (w.run p signer calls).factory.eventSink = w.factory.eventSink := by
  induction calls using List.reverseRecOn with
  | nil => exact ⟨rfl, rfl⟩
  | append_singleton calls c ih =>
      rw [run_snoc]
      obtain ⟨tenant, sink⟩ := @after_made C p signer (w.run p signer calls) c
      exact ⟨tenant.trans ih.1, sink.trans ih.2⟩

/-- A client that was not in the cache is put there as one the tenant is entitled to. -/
theorem caches_entitled {env : ClientEnv} {agentId : String} (caches : w.Caches p signer env agentId) :
    ∃ c, Dict.get (w.after p signer (.client env agentId)).factory.cache agentId = some c ∧
      w.factory.Entitled p signer w.repo agentId c.manifest := by
  obtain ⟨fresh, kept⟩ := caches
  simp only [after] at kept ⊢
  rcases client_cases p signer w.factory env agentId w.repo with ⟨c, held, _⟩ | ⟨_, e, same⟩ | ⟨c, _, entitled, same⟩
  · rw [fresh] at held
    cases held
  · rw [same, fresh] at kept
    cases kept
  · rw [same, emit_factory]
    exact ⟨c, by simp, entitled⟩

/-- A cached client stays the one it is. -/
theorem after_cached {agentId : String} {c : AgentClient C} (held : Dict.get w.factory.cache agentId = some c)
    (call : ConsultancyCall) : Dict.get (w.after p signer call).factory.cache agentId = some c := by
  cases call with
  | registry call => exact held
  | client env agentId' =>
      simp only [after]
      rcases client_cases p signer w.factory env agentId' w.repo with ⟨c', _, same⟩ | ⟨_, e, same⟩ | ⟨c', fresh, _, same⟩
      · rw [same, emit_factory]
        exact held
      · rw [same]
        exact held
      · rw [same, emit_factory, Dict.get_set]
        by_cases here : agentId' = agentId
        · rw [here, held] at fresh
          cases fresh
        · rw [if_neg here]
          exact held

theorem run_cached {agentId : String} {c : AgentClient C} (held : Dict.get w.factory.cache agentId = some c)
    (calls : List ConsultancyCall) : Dict.get (w.run p signer calls).factory.cache agentId = some c := by
  induction calls using List.reverseRecOn with
  | nil => exact held
  | append_singleton calls call ih =>
      rw [run_snoc]
      exact after_cached ih call

/-- A client that one call put into the cache was not there before it, or is the call's. -/
theorem cached_before {agentId : String} {c : AgentClient C} {call : ConsultancyCall}
    (held : Dict.get (w.after p signer call).factory.cache agentId = some c) :
    Dict.get w.factory.cache agentId = some c ∨ ∃ env, call = .client env agentId ∧ w.Caches p signer env agentId := by
  cases old : Dict.get w.factory.cache agentId with
  | some c' =>
      have same := @after_cached C p signer w agentId c' old call
      rw [held] at same
      cases same
      exact .inl rfl
  | none =>
      cases call with
      | registry call => exact absurd (held.symm.trans old) (by simp)
      | client env agentId' =>
          by_cases here : agentId' = agentId
          · subst here
            exact .inr ⟨env, rfl, old, by rw [held]; rfl⟩
          · simp only [after] at held
            rcases client_cases p signer w.factory env agentId' w.repo with
              ⟨c', _, same⟩ | ⟨_, e, same⟩ | ⟨c', _, _, same⟩
            · rw [same, emit_factory, old] at held
              cases held
            · rw [same, old] at held
              cases held
            · rw [same, emit_factory, Dict.get_set, if_neg here, old] at held
              cases held

/-- Every cached client was put there by a call of the history. -/
theorem cached_since (empty : w.factory.cache = []) {before : List ConsultancyCall} {agentId : String}
    {c : AgentClient C} (held : Dict.get (w.run p signer before).factory.cache agentId = some c) :
    ∃ early env later, before = early ++ .client env agentId :: later ∧
      (w.run p signer early).Caches p signer env agentId := by
  induction before using List.reverseRecOn with
  | nil =>
      simp only [run, List.foldl_nil, empty] at held
      cases held
  | append_singleton before call ih =>
      rw [run_snoc] at held
      rcases cached_before held with old | ⟨env, rfl, caches⟩
      · obtain ⟨early, env, later, rfl, caches⟩ := ih old
        exact ⟨early, env, later ++ [call], by simp, caches⟩
      · exact ⟨before, env, [], rfl, caches⟩

/-- What is in the cache after the call that put it there was built from the manifest trusted then. -/
theorem cached_trusted {early : List ConsultancyCall} (later : List ConsultancyCall) {env : ClientEnv}
    {agentId : String} (caches : (w.run p signer early).Caches p signer env agentId) :
    ∃ c, Dict.get (w.run p signer (early ++ .client env agentId :: later)).factory.cache agentId = some c ∧
      (w.run p signer early).factory.Entitled p signer (w.run p signer early).repo agentId c.manifest := by
  obtain ⟨c, held, entitled⟩ := caches_entitled caches
  refine ⟨c, ?_, entitled⟩
  rw [show early ++ .client env agentId :: later = (early ++ [.client env agentId]) ++ later by simp, run_append,
    run_snoc]
  exact run_cached held later

end Consultancy

open Consultancy AgentClientFactory in
/-- Every client a factory hands out is current exactly where no client in its cache had its
agent's trusted manifest change since it was built. -/
theorem consultation_current {C : Type} (p : Platform) (signer : Signer) (repo : InMemoryRegistryRepo)
    (tenant : TenantContext) (clientBuilder : AgentManifest → Except Exn C) (eventSink : Bool)
    (calls : List ConsultancyCall) :
    let start := Consultancy.opened repo tenant clientBuilder eventSink
    (∀ before env agentId later, calls = before ++ .client env agentId :: later →
      (start.run p signer before).Current p signer env agentId) ↔
    ∀ before env agentId later, calls = before ++ .client env agentId :: later →
      start.factory.Heard env → start.Undisturbed p signer before agentId := by
  intro start
  have made := fun before => @run_made C p signer start before
  constructor
  · intro current before env agentId later split heard early env' mid within caches
    obtain ⟨c, held, trusted, _⟩ := cached_trusted mid caches
    rw [← within] at held
    have answers : ((start.run p signer before).factory.client p signer env agentId
        (start.run p signer before).repo).answer = .ok c := by
      rw [client, held]
      exact emit_answer.mpr ⟨fun sink => heard ((made before).2 ▸ sink), rfl⟩
    obtain ⟨member, named, _⟩ := current before env agentId later split c answers
    rw [trusted, ← trusted_of_mem member, named]
  · intro undisturbed before env agentId later split c answers
    rcases client_cases p signer (start.run p signer before).factory env agentId (start.run p signer before).repo with
      ⟨c', held, same⟩ | ⟨_, e, same⟩ | ⟨c', _, entitled, same⟩
    · rw [same] at answers
      obtain ⟨heard, rfl⟩ := emit_answer.mp answers
      obtain ⟨early, env', mid, within, caches⟩ := cached_since rfl held
      have quiet := undisturbed before env agentId later split (fun sink => heard ((made before).2.symm ▸ sink))
      obtain ⟨c', held', trusted, granted⟩ := cached_trusted mid caches
      rw [← within, held] at held'
      cases held'
      rw [← quiet early env' mid within caches] at trusted
      obtain ⟨member, named⟩ := mem_of_trusted trusted
      rw [(made early).1] at granted
      exact ⟨member, named, (made before).1 ▸ granted⟩
    · rw [same] at answers
      cases answers
    · rw [same] at answers
      obtain ⟨_, rfl⟩ := emit_answer.mp answers
      obtain ⟨member, named⟩ := mem_of_trusted entitled.1
      exact ⟨member, named, entitled.2⟩

namespace Sample

/-- The agent was submitted and approved. -/
def enrolled : InMemoryRegistryRepo := (RegistryHistory.of registrar registrarSigner unexamined).repo

def consultancy : Consultancy Unit := .opened enrolled { tenantId := "acme" } (fun _ => .ok ()) true

/-- The agent is consulted, and revoked. -/
def revoking : List ConsultancyCall := [.client {} "agent", .registry (.revoke {} "agent" none)]

end Sample

open Sample Consultancy in
/-- The agent's client is handed out once more after the agent was revoked. -/
theorem revoked_consulted : ¬ ∀ (p : Platform) (signer : Signer) (repo : InMemoryRegistryRepo)
    (tenant : TenantContext) (clientBuilder : AgentManifest → Except Exn Unit) (eventSink : Bool)
    (calls before : List ConsultancyCall) (env : ClientEnv) (agentId : String) (later : List ConsultancyCall),
    calls = before ++ .client env agentId :: later →
      ((opened repo tenant clientBuilder eventSink).run p signer before).Current p signer env agentId := by
  intro claimed
  have current : (consultancy.run registrar registrarSigner revoking).Current registrar registrarSigner {} "agent" :=
    claimed _ _ _ _ _ _ _ revoking {} "agent" [] rfl
  have trusted : (manifests registrar registrarSigner
      (consultancy.run registrar registrarSigner revoking).repo).length = 0 := by
    decide +kernel
  have answered : ((consultancy.run registrar registrarSigner revoking).factory.client registrar registrarSigner {}
      "agent" (consultancy.run registrar registrarSigner revoking).repo).answer.isOk = true := by
    decide +kernel
  unfold Current at current
  rw [List.length_eq_zero_iff.mp trusted] at current
  cases answers : ((consultancy.run registrar registrarSigner revoking).factory.client registrar registrarSigner {}
      "agent" (consultancy.run registrar registrarSigner revoking).repo).answer with
  | error e =>
      rw [answers] at answered
      cases answered
  | ok c => cases (current c answers).1

end Maof
