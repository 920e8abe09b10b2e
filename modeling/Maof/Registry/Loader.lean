import Maof.Policy.Rulesets

/-!
# The registry as the orchestrator reads it

Only entries that are approved and whose signature verifies over the manifest
and its trust state are returned; the rest are reported and skipped.
-/

namespace Maof

open Data (Dict)

structure ContextDeclaration where
  id : String
  kind : String
  description : String
  scope : String
  supplies : List String := []
  requiresFromL1 : List String := []
  sourceRef : Option String := none
  mutable_ : Bool := false

def ContextDeclaration.dump (c : ContextDeclaration) : Json :=
  .obj [("id", .str c.id), ("kind", .str c.kind), ("description", .str c.description),
    ("scope", .str c.scope), ("supplies", .strs c.supplies),
    ("requires_from_l1", .strs c.requiresFromL1), ("source_ref", .ofStr? c.sourceRef),
    ("mutable", .bool c.mutable_)]

inductive AgentKind where
  | l2Agent
  | mcpServer
  | contextSource
deriving DecidableEq, Repr

def AgentKind.value : AgentKind → String
  | .l2Agent => "l2_agent"
  | .mcpServer => "mcp_server"
  | .contextSource => "context_source"

structure AgentManifest where
  id : String
  kind : AgentKind
  name : String
  version : String
  endpoint : String
  capabilities : List String := []
  acceptedTaskTypes : List String := []
  providedSchemas : List String := []
  rbacScopes : List String := []
  contextTags : List String := []
  tenancy : String := "tenant"
  sideLoadedContext : List ContextDeclaration := []
  description : String := ""
  resolverSchemes : List String := []
  queue : Option String := none
  required : Bool := false
  certification : Option (Dict String Json) := none
  canaryPct : PyFloat := .zero
  metadata : Dict String Json := []

def AgentManifest.dump (m : AgentManifest) : Json :=
  .obj [("id", .str m.id), ("kind", .str m.kind.value), ("name", .str m.name),
    ("version", .str m.version), ("endpoint", .str m.endpoint),
    ("capabilities", .strs m.capabilities), ("accepted_task_types", .strs m.acceptedTaskTypes),
    ("provided_schemas", .strs m.providedSchemas), ("rbac_scopes", .strs m.rbacScopes),
    ("context_tags", .strs m.contextTags), ("tenancy", .str m.tenancy),
    ("side_loaded_context", .arr (m.sideLoadedContext.map ContextDeclaration.dump)),
    ("description", .str m.description), ("resolver_schemes", .strs m.resolverSchemes),
    ("queue", .ofStr? m.queue), ("required", .bool m.required),
    ("certification", (m.certification.map Json.obj).getD .null), ("canary_pct", .float m.canaryPct),
    ("metadata", .obj m.metadata)]

inductive EntryStatus where
  | pending
  | approved
  | revoked
deriving DecidableEq, Repr

def EntryStatus.value : EntryStatus → String
  | .pending => "pending"
  | .approved => "approved"
  | .revoked => "revoked"

structure RegistryEntry where
  manifest : AgentManifest
  status : EntryStatus := .pending
  signature : Option String := none
  kid : Option String := none
  approvedAt : Option String := none

/-- The text signed over: the manifest and its trust state. -/
def canonicalBytes (manifest : AgentManifest) (status : EntryStatus) (approvedAt : Option String) :
    String :=
  String.ofList (JsonText.canonical (.obj [("manifest", manifest.dump), ("status", .str status.value),
    ("approved_at", .ofStr? approvedAt)]))

def signEntry (p : Platform) (signer : Signer) (now : String) (entry : RegistryEntry) :
    Except Exn RegistryEntry := do
  let sig ← signer.sign p (canonicalBytes entry.manifest .approved (some now))
  return { entry with
    status := .approved
    signature := some sig
    kid := some signer.activeKid
    approvedAt := some now }

def verifyEntry (p : Platform) (signer : Signer) (entry : RegistryEntry) : Except Exn Unit :=
  let name := "registry entry " ++ Template.reprText p.unicode (.str entry.manifest.id)
  if entry.status ≠ .approved then
    .error (.registryTrust (name ++ " is not approved (status=" ++
      Template.reprText p.unicode (.str entry.status.value) ++ ")"))
  else if entry.signature.getD "" = "" ∨ entry.kid.getD "" = "" then
    .error (.registryTrust (name ++ " is unsigned"))
  else match signer.verify p (canonicalBytes entry.manifest entry.status entry.approvedAt)
      [("kid", entry.kid.getD ""), ("sig", entry.signature.getD "")] with
    | .ok () => .ok ()
    | .error _ => .error (.registryTrust (name ++ " failed verification"))

theorem signEntry_ok (p : Platform) {signer : Signer} (now : String) (entry : RegistryEntry) {secret : String}
    (held : Dict.get signer.keys signer.activeKid = some secret) :
    signEntry p signer now entry = .ok { entry with
      status := .approved
      signature := some (p.hmacSha256 secret (canonicalBytes entry.manifest .approved (some now)))
      kid := some signer.activeKid
      approvedAt := some now } := by
  simp only [signEntry, Signer.sign, held]
  rfl

/-- A signed entry verifies, unless its key is nameless or its signature empty. -/
theorem verifyEntry_signEntry {p : Platform} {signer : Signer} {now : String} {entry signed : RegistryEntry}
    (h : signEntry p signer now entry = .ok signed) (named : signer.activeKid ≠ "")
    (nonempty : ∀ secret body, p.hmacSha256 secret body ≠ "") : verifyEntry p signer signed = .ok () := by
  cases held : Dict.get signer.keys signer.activeKid with
  | none => simp [signEntry, Signer.sign, held] at h
  | some secret =>
      rw [signEntry_ok p now entry held] at h
      cases h
      obtain ⟨key, sig⟩ := extractHeader_signed signer.activeKid
        (p.hmacSha256 secret (canonicalBytes entry.manifest .approved (some now)))
      simp only [verifyEntry, Signer.verify, Option.getD_some, key, sig, held]
      rw [if_neg (by simp), if_neg (by simp [named, nonempty]), if_neg (by simp [named, nonempty])]
      simp

/-- An entry the loader trusts. -/
def RegistryEntry.trusted (p : Platform) (signer : Signer) (entry : RegistryEntry) : Bool :=
  match verifyEntry p signer entry with
  | .ok () => true
  | .error _ => false

/-- `repo.list_approved`. -/
def listApproved (registry : List RegistryEntry) : List RegistryEntry :=
  registry.filter fun e => e.status = .approved

def approvedEntries (p : Platform) (signer : Signer) (registry : List RegistryEntry) :
    List RegistryEntry :=
  (listApproved registry).filter (RegistryEntry.trusted p signer)

def splitCommas : List Char → List (List Char)
  | [] => [[]]
  | c :: s =>
      if c = ',' then [] :: splitCommas s
      else match splitCommas s with
        | part :: parts => (c :: part) :: parts
        | [] => [[c]]

/-- The tenant's scopes, comma-separated in `attributes["scopes"]`. -/
def tenantScopes (tenant : TenantContext) : List String :=
  let raw := (Dict.get tenant.attributes "scopes").getD ""
  (((splitCommas raw.toList).map Template.strip).filter fun s => !s.isEmpty).map String.ofList

/-- `_scopes_granted` as the loader calls it, with a tenant and no principal. -/
def scopesGranted (m : AgentManifest) (tenant : Option TenantContext) : Bool :=
  match tenant with
  | none => true
  | some t => m.rbacScopes.all fun scope => scope ∈ tenantScopes t

def routable (taskType : String) (tenant : Option TenantContext) (m : AgentManifest) : Bool :=
  (m.kind = .l2Agent || m.kind = .mcpServer) && taskType ∈ m.acceptedTaskTypes &&
    scopesGranted m tenant

def agentsForTaskType (p : Platform) (signer : Signer) (registry : List RegistryEntry)
    (taskType : String) (tenant : Option TenantContext) : List AgentManifest :=
  ((approvedEntries p signer registry).map RegistryEntry.manifest).filter (routable taskType tenant)

end Maof
