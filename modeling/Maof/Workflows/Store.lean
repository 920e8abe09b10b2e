import Maof.Authz
import Maof.Workflows.Definition
import Mathlib.Data.List.MinMax

/-!
# The signed workflow store

Submitting leaves a pending entry, approving signs its canonical bytes with its
trust state, loading wants both the status and the signature, revoking destroys
the signature. The same store runs over entries in memory and over the rows of a
table.
-/

namespace Maof

open Data (Dict)

/-! ## `model_dump` -/

def ApprovalSpec.dump (a : ApprovalSpec) : Json :=
  .obj [("required", .bool a.required), ("roles", .strs a.roles), ("parties", .int a.parties)]

def StepKind.value : StepKind → String
  | .task => "task"
  | .gate => "gate"

def WorkflowStep.dump (s : WorkflowStep) : Json :=
  .obj [("id", .str s.id), ("kind", .str s.kind.value), ("task_type", .ofStr? s.taskType),
    ("agent", .ofStr? s.agent), ("depends_on", .strs s.dependsOn), ("input", .obj s.input),
    ("coordination_mode", .ofStr? s.coordinationMode),
    ("approval", (s.approval.map ApprovalSpec.dump).getD .null),
    ("pins", .obj (s.pins.map fun kv => (kv.1, .str kv.2)))]

def WorkflowDefinition.dump (d : WorkflowDefinition) : Json :=
  .obj [("name", .str d.name), ("version", .int d.version), ("description", .str d.description),
    ("steps", .arr (d.steps.map WorkflowStep.dump))]

structure WorkflowEntry where
  definition : WorkflowDefinition
  status : String := "pending"
  signature : Option String := none
  kid : Option String := none
  approvedAt : Option String := none

def canonicalWorkflowBytes (definition : WorkflowDefinition) (status : String) (approvedAt : Option String) :
    String :=
  String.ofList (JsonText.canonical (.obj [("definition", definition.dump), ("status", .str status),
    ("approved_at", .ofStr? approvedAt)]))

/-! ## Repositories -/

/-- The first entry whose key is the greatest. -/
def maxBy {α : Type} (key : α → Int) (entries : List α) : Option α :=
  @List.argmax α Int Int.instLinearOrder.toPreorder _ key entries

theorem maxBy_some {α : Type} {key : α → Int} {entries : List α} {x : α} (h : maxBy key entries = some x) :
    x ∈ entries ∧ ∀ y ∈ entries, key y ≤ key x :=
  ⟨List.argmax_mem h, fun _ inside => List.le_of_mem_argmax (f := key) inside h⟩

theorem maxBy_none {α : Type} {key : α → Int} {entries : List α} : maxBy key entries = none ↔ entries = [] := by
  unfold maxBy
  exact List.argmax_eq_none

structure WorkflowRepo (R : Type) where
  put : R → WorkflowEntry → Except Exn R
  get : R → (name : String) → (version : Int) → Except Exn (Option WorkflowEntry)
  latestApproved : R → (name : String) → Except Exn (Option WorkflowEntry)

/-- Entries under their own name and version. -/
structure InMemoryWorkflowRepo where
  entries : Dict (String × Int) WorkflowEntry := []
  keyed : ∀ kv ∈ entries, kv.1 = (kv.2.definition.name, kv.2.definition.version)
  nodup : (Dict.keys entries).Nodup

namespace InMemoryWorkflowRepo

def empty : InMemoryWorkflowRepo := ⟨[], by simp, List.nodup_nil⟩

def put (r : InMemoryWorkflowRepo) (entry : WorkflowEntry) : InMemoryWorkflowRepo where
  entries := Dict.set r.entries (entry.definition.name, entry.definition.version) entry
  keyed kv member := by
    rcases Dict.mem_set member with rfl | old
    · rfl
    · exact r.keyed kv old
  nodup := Dict.nodup_set r.nodup _ _

def get (r : InMemoryWorkflowRepo) (name : String) (version : Int) : Option WorkflowEntry :=
  Dict.get r.entries (name, version)

def candidates (r : InMemoryWorkflowRepo) (name : String) : List WorkflowEntry :=
  (r.entries.filter fun kv => kv.1.1 = name ∧ kv.2.status = "approved").map Prod.snd

def latestApproved (r : InMemoryWorkflowRepo) (name : String) : Option WorkflowEntry :=
  maxBy (fun e => e.definition.version) (r.candidates name)

end InMemoryWorkflowRepo

def inMemoryWorkflowRepo : WorkflowRepo InMemoryWorkflowRepo where
  put r entry := .ok (r.put entry)
  get r name version := .ok (r.get name version)
  latestApproved r name := .ok (r.latestApproved name)

/-- A row of `workflows` but for its key, as it is read: `definition` is what
`model_validate` makes of the JSONB column. -/
structure WorkflowRow where
  definition : Except Exn WorkflowDefinition
  status : String
  signature : Option String
  kid : Option String
  approvedAt : Option String

/-- What is read back of a JSONB and of a TIMESTAMPTZ column that were written, and the
entries the database refuses. -/
structure WorkflowColumns where
  jsonb : WorkflowDefinition → Except Exn WorkflowDefinition := .ok
  timestamptz : String → Except Exn String := .ok
  refuses : WorkflowEntry → Option Exn := fun _ => none

abbrev WorkflowTable : Type := Dict (String × Int) WorkflowRow

namespace PostgresWorkflowRepo

def stamp (db : WorkflowColumns) : Option String → Except Exn (Option String)
  | none => .ok none
  | some text => some <$> db.timestamptz text

/-- `INSERT … ON CONFLICT (name, version) DO UPDATE`. -/
def put (db : WorkflowColumns) (rows : WorkflowTable) (entry : WorkflowEntry) : Except Exn WorkflowTable := do
  let approvedAt ← stamp db entry.approvedAt
  match db.refuses entry with
  | some e => throw e
  | none =>
      return Dict.set rows (entry.definition.name, entry.definition.version) {
        definition := db.jsonb entry.definition
        status := entry.status
        signature := entry.signature
        kid := entry.kid
        approvedAt }

/-- `_to_entry`. -/
def toEntry (row : WorkflowRow) : Except Exn WorkflowEntry := do
  let definition ← row.definition
  return {
    definition
    status := row.status
    signature := row.signature
    kid := row.kid
    approvedAt := row.approvedAt }

def get (rows : WorkflowTable) (name : String) (version : Int) : Except Exn (Option WorkflowEntry) :=
  match Dict.get rows (name, version) with
  | none => .ok none
  | some row => some <$> toEntry row

/-- `WHERE name = $1 AND status = 'approved' ORDER BY version DESC LIMIT 1`. -/
def latestRow (rows : WorkflowTable) (name : String) : Option ((String × Int) × WorkflowRow) :=
  maxBy (fun kv => kv.1.2) (rows.filter fun kv => kv.1.1 = name ∧ kv.2.status = "approved")

def latestApproved (rows : WorkflowTable) (name : String) : Except Exn (Option WorkflowEntry) :=
  match latestRow rows name with
  | none => .ok none
  | some kv => some <$> toEntry kv.2

end PostgresWorkflowRepo

def postgresWorkflowRepo (db : WorkflowColumns) : WorkflowRepo WorkflowTable where
  put := PostgresWorkflowRepo.put db
  get := PostgresWorkflowRepo.get
  latestApproved := PostgresWorkflowRepo.latestApproved

/-! ## The store -/

/-- The clock of a call, and what its event sink does. -/
structure StoreEnv where
  now : String := ""
  emitted : Except Exn Unit := .ok ()

namespace WorkflowStore

variable {R : Type} (repo : WorkflowRepo R) (p : Platform) (signer : Signer)

/-- Write the entry, then report it. -/
def keep (emitted : Except Exn Unit) (entry : WorkflowEntry) (r : R) : R × Except Exn WorkflowEntry :=
  match repo.put r entry with
  | .error e => (r, .error e)
  | .ok r' => (r', emitted.map fun _ => entry)

/-- The entry, or a `KeyError`. -/
def fetch (name : String) (version : Int) (r : R) : Except Exn WorkflowEntry := do
  match ← repo.get r name version with
  | some entry => return entry
  | none => throw (.keyError ("workflow not found: " ++ name ++ " v" ++ toString version))

def submit (definition : WorkflowDefinition) (principal : Option Principal) (r : R) :
    R × Except Exn WorkflowEntry :=
  match checkScope p.unicode principal scopeWorkflowAuthor with
  | .error e => (r, .error e)
  | .ok () => keep repo (.ok ()) { definition } r

def sign (now : String) (entry : WorkflowEntry) : Except Exn WorkflowEntry := do
  let sig ← signer.sign p (canonicalWorkflowBytes entry.definition "approved" (some now))
  return { entry with
    status := "approved"
    signature := some sig
    kid := some signer.activeKid
    approvedAt := some now }

def approve (env : StoreEnv) (name : String) (version : Int) (principal : Option Principal) (r : R) :
    R × Except Exn WorkflowEntry :=
  match (do checkScope p.unicode principal scopeWorkflowApprove
            let entry ← fetch repo name version r
            sign p signer env.now entry) with
  | .error e => (r, .error e)
  | .ok signed => keep repo env.emitted signed r

def revoke (env : StoreEnv) (name : String) (version : Int) (principal : Option Principal) (r : R) :
    R × Except Exn WorkflowEntry :=
  match (do checkScope p.unicode principal scopeWorkflowApprove
            fetch repo name version r) with
  | .error e => (r, .error e)
  | .ok entry =>
      keep repo env.emitted { entry with status := "revoked", signature := none, kid := none } r

/-- The definition of an entry that is approved and whose signature verifies. -/
def executable (name : String) (entry : WorkflowEntry) : Except Exn WorkflowDefinition :=
  let which := "workflow " ++ Template.reprText p.unicode (.str name) ++ " v" ++
    toString entry.definition.version
  if entry.status ≠ "approved" ∨ entry.signature.getD "" = "" ∨ entry.kid.getD "" = "" then
    .error (.registryTrust (which ++ " is not executable"))
  else match signer.verify p (canonicalWorkflowBytes entry.definition entry.status entry.approvedAt)
      [("kid", entry.kid.getD ""), ("sig", entry.signature.getD "")] with
    | .ok () => .ok entry.definition
    | .error _ => .error (.registryTrust (which ++ " failed verification"))

def load (name : String) (version : Option Int) (r : R) : Except Exn WorkflowDefinition := do
  let found ← match version with
    | some v => repo.get r name v
    | none => repo.latestApproved r name
  match found with
  | some entry => executable p signer name entry
  | none => throw (.registryTrust ("no approved workflow " ++ Template.reprText p.unicode (.str name)))

section executable

variable {p : Platform} {signer : Signer}

/-- The entry is approved and its signature verifies. -/
def Verifies (p : Platform) (signer : Signer) (e : WorkflowEntry) : Prop :=
  e.status = "approved" ∧ ∃ kid sig secret, e.kid = some kid ∧ e.signature = some sig ∧ kid ≠ "" ∧ sig ≠ "" ∧
    Dict.get signer.keys kid = some secret ∧
      (p.hmacSha256 secret (canonicalWorkflowBytes e.definition "approved" e.approvedAt)).toLower = sig.toLower

theorem executable_ok {name : String} {e : WorkflowEntry} {d : WorkflowDefinition} :
    executable p signer name e = .ok d ↔ Verifies p signer e ∧ d = e.definition := by
  unfold executable Verifies
  simp only
  split
  · next unsigned =>
      constructor
      · rintro ⟨⟩
      · rintro ⟨⟨approved, kid, sig, _, hasKid, hasSig, named, signed, _⟩, _⟩
        simp [approved, hasKid, hasSig, named, signed] at unsigned
  · next complete =>
      simp only [not_or, not_not] at complete
      obtain ⟨approved, signed, named⟩ := complete
      obtain ⟨sig, hasSig⟩ : ∃ sig, e.signature = some sig := by
        cases h : e.signature with
        | none => simp [h] at signed
        | some sig => exact ⟨sig, rfl⟩
      obtain ⟨kid, hasKid⟩ : ∃ kid, e.kid = some kid := by
        cases h : e.kid with
        | none => simp [h] at named
        | some kid => exact ⟨kid, rfl⟩
      simp only [hasSig, hasKid, Option.getD_some, Option.some.injEq] at signed named ⊢
      have read := @Signer.verify_ok p signer (canonicalWorkflowBytes e.definition e.status e.approvedAt) kid sig
      rw [approved] at read
      constructor
      · intro loaded
        split at loaded
        · next verified =>
            rw [approved] at verified
            obtain ⟨_, _, secret, held, matches_⟩ := read.mp verified
            cases loaded
            exact ⟨⟨approved, kid, sig, secret, rfl, rfl, named, signed, held, matches_⟩, rfl⟩
        · cases loaded
      · rintro ⟨⟨_, _, _, secret, rfl, rfl, _, _, held, matches_⟩, rfl⟩
        have verified := read.mpr ⟨named, signed, secret, held, matches_⟩
        rw [approved, verified]

end executable

end WorkflowStore
/-- A call of the store, by a principal or by a trusted caller. -/
inductive WorkflowCall where
  | submit (definition : WorkflowDefinition) (principal : Option Principal)
  | approve (env : StoreEnv) (name : String) (version : Int) (principal : Option Principal)
  | revoke (env : StoreEnv) (name : String) (version : Int) (principal : Option Principal)

namespace WorkflowCall

open WorkflowStore (fetch sign)

def principal : WorkflowCall → Option Principal
  | .submit _ who | .approve _ _ _ who | .revoke _ _ _ who => who

variable {R : Type} (repo : WorkflowRepo R) (p : Platform) (signer : Signer)

def run : WorkflowCall → R → R × Except Exn WorkflowEntry
  | .submit definition principal, r => WorkflowStore.submit repo p definition principal r
  | .approve env name version principal, r => WorkflowStore.approve repo p signer env name version principal r
  | .revoke env name version principal, r => WorkflowStore.revoke repo p env name version principal r

/-- What the call signs. -/
def signs (r : R) : WorkflowCall → List (WorkflowDefinition × String)
  | .approve env name version principal =>
      match (do checkScope p.unicode principal scopeWorkflowApprove
                let entry ← fetch repo name version r
                sign p signer env.now entry) with
      | .error _ => []
      | .ok signed => [(signed.definition, env.now)]
  | _ => []

end WorkflowCall

end Maof
