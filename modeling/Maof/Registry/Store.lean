import Maof.Authz

/-!
# The discovery registry and its lifecycle

Submit leaves a pending entry, approve certifies and signs it, revoke destroys
the signature; every transition is reported.
-/

namespace Maof

open Data (Dict)

/-- Entries under the id of their manifest. -/
structure InMemoryRegistryRepo where
  entries : Dict String RegistryEntry := []
  keyed : ∀ kv ∈ entries, kv.1 = kv.2.manifest.id
  nodup : (Dict.keys entries).Nodup

namespace InMemoryRegistryRepo

def empty : InMemoryRegistryRepo := ⟨[], by simp, List.nodup_nil⟩

def put (r : InMemoryRegistryRepo) (entry : RegistryEntry) : InMemoryRegistryRepo where
  entries := Dict.set r.entries entry.manifest.id entry
  keyed kv member := by
    rcases Dict.mem_set member with rfl | old
    · rfl
    · exact r.keyed kv old
  nodup := Dict.nodup_set r.nodup _ _

def get (r : InMemoryRegistryRepo) (entryId : String) : Option RegistryEntry := Dict.get r.entries entryId

def values (r : InMemoryRegistryRepo) : List RegistryEntry := r.entries.map Prod.snd

theorem get_put (r : InMemoryRegistryRepo) (entry : RegistryEntry) (entryId : String) :
    (r.put entry).get entryId = if entry.manifest.id = entryId then some entry else r.get entryId :=
  Dict.get_set _ _ _ _

theorem mem_values {r : InMemoryRegistryRepo} {e : RegistryEntry} :
    e ∈ r.values ↔ r.get e.manifest.id = some e := by
  constructor
  · intro member
    obtain ⟨kv, inside, rfl⟩ := List.mem_map.mp member
    exact Dict.get_of_mem r.nodup (by rw [← r.keyed kv inside]; exact inside)
  · intro found
    exact List.mem_map.mpr ⟨_, Dict.mem_of_get found, rfl⟩

end InMemoryRegistryRepo

/-- The clock and the sink of a call, the certifier and the search index if they are wired,
and how a rate is written with two decimals. -/
structure RegistryEnv where
  now : String := ""
  emitted : Except Exn Unit := .ok ()
  certifier : Option (AgentManifest → Except Exn (Bool × PyNumber)) := none
  search : Option (AgentManifest → Except Exn Unit) := none
  fixed2 : PyNumber → String := fun _ => ""

namespace RegistryStore

variable (p : Platform) (signer : Signer)

def submit (env : RegistryEnv) (manifest : AgentManifest) (principal : Option Principal)
    (r : InMemoryRegistryRepo) : InMemoryRegistryRepo × Except Exn RegistryEntry :=
  match checkScope p.unicode principal scopeRegistryAuthor with
  | .error e => (r, .error e)
  | .ok () => (r.put { manifest }, env.emitted.map fun _ => { manifest })

def fetch (entryId : String) (r : InMemoryRegistryRepo) : Except Exn RegistryEntry :=
  match r.get entryId with
  | some entry => .ok entry
  | none => .error (.keyError ("registry entry not found: " ++ Template.reprText p.unicode (.str entryId)))

def minPassRate (certification : Dict String Json) : Json :=
  (Dict.get certification "min_pass_rate").getD (.float (.ofInt 1))

/-- The certification gate: the agent must pass its eval suite first. -/
def certified (env : RegistryEnv) (entryId : String) (entry : RegistryEntry) : Except Exn Unit :=
  match entry.manifest.certification, env.certifier with
  | some certification, some certify => do
      let (passed, passRate) ← certify entry.manifest
      let minRate ← p.float (minPassRate certification)
      if !passed || passRate.lt (p.value minRate) then
        env.emitted
        throw (.registryTrust ("registry entry " ++ Template.reprText p.unicode (.str entryId) ++
          " failed certification (pass_rate=" ++ env.fixed2 passRate ++ " < min " ++ env.fixed2 (p.value minRate) ++ ")"))
  | _, _ => return ()

def indexed (env : RegistryEnv) (manifest : AgentManifest) : Except Exn Unit :=
  match env.search with
  | some index => index manifest
  | none => .ok ()

def approve (env : RegistryEnv) (entryId : String) (principal : Option Principal) (r : InMemoryRegistryRepo) :
    InMemoryRegistryRepo × Except Exn RegistryEntry :=
  match (do checkScope p.unicode principal scopeRegistryApprove
            let entry ← fetch p entryId r
            certified p env entryId entry
            signEntry p signer env.now entry) with
  | .error e => (r, .error e)
  | .ok signed =>
      (r.put signed, do
        indexed env signed.manifest
        env.emitted
        return signed)

def revoke (env : RegistryEnv) (entryId : String) (principal : Option Principal) (r : InMemoryRegistryRepo) :
    InMemoryRegistryRepo × Except Exn RegistryEntry :=
  match (do checkScope p.unicode principal scopeRegistryApprove
            fetch p entryId r) with
  | .error e => (r, .error e)
  | .ok entry =>
      let revoked := { entry with status := .revoked, signature := none, kid := none }
      (r.put revoked, env.emitted.map fun _ => revoked)

end RegistryStore

inductive RegistryCall where
  | submit (env : RegistryEnv) (manifest : AgentManifest) (principal : Option Principal)
  | approve (env : RegistryEnv) (entryId : String) (principal : Option Principal)
  | revoke (env : RegistryEnv) (entryId : String) (principal : Option Principal)

namespace RegistryCall

def principal : RegistryCall → Option Principal
  | .submit _ _ who | .approve _ _ who | .revoke _ _ who => who

def run (p : Platform) (signer : Signer) :
    RegistryCall → InMemoryRegistryRepo → InMemoryRegistryRepo × Except Exn RegistryEntry
  | .submit env manifest who, r => RegistryStore.submit p env manifest who r
  | .approve env entryId who, r => RegistryStore.approve p signer env entryId who r
  | .revoke env entryId who, r => RegistryStore.revoke p env entryId who r

/-- What a call leaves of the repository. -/
def after (p : Platform) (signer : Signer) (r : InMemoryRegistryRepo) (c : RegistryCall) :
    InMemoryRegistryRepo := (c.run p signer r).1

end RegistryCall

/-- `RegistryLoader.manifests()`. -/
def manifests (p : Platform) (signer : Signer) (r : InMemoryRegistryRepo) : List AgentManifest :=
  (approvedEntries p signer r.values).map RegistryEntry.manifest

theorem mem_manifests {p : Platform} {signer : Signer} {r : InMemoryRegistryRepo} {m : AgentManifest} :
    m ∈ manifests p signer r ↔
      ∃ e, r.get m.id = some e ∧ e.manifest = m ∧ e.status = .approved ∧ e.trusted p signer = true := by
  simp only [manifests, approvedEntries, listApproved, List.mem_map, List.mem_filter, decide_eq_true_eq]
  constructor
  · rintro ⟨e, ⟨⟨member, approved⟩, trusted⟩, rfl⟩
    exact ⟨e, InMemoryRegistryRepo.mem_values.mp member, rfl, approved, trusted⟩
  · rintro ⟨e, found, rfl, approved, trusted⟩
    exact ⟨e, ⟨⟨InMemoryRegistryRepo.mem_values.mpr found, approved⟩, trusted⟩, rfl⟩

end Maof
