import Maof.Orchestrator.Intake
import Maof.Registry.Loader
import Maof.Workers.ToolScopes
import Maof.Workflows.Trust

/-!
# What a signed body is taken for

Task messages, result envelopes, registry entries and workflow entries are signed as canonical
texts, perhaps all with one key, and none of them names its role. The fields at the top of a
text tell its role, and each consumer looks for one that only its own role has.
-/

namespace Maof

open Data (Dict)
open Effects (Act)

inductive BodyRole where
  | taskMessage
  | resultEnvelope
  | registryEntry
  | workflowEntry
deriving DecidableEq, Repr

/-- The texts that are signed in a role. -/
inductive BodyRole.Signs : BodyRole → String → Prop
  | taskMessage (m : TaskMessage) (stamped timestamp : String) :
      Signs .taskMessage (serializeMessage (m.dump stamped timestamp))
  | resultEnvelope (e : ResultEnvelope) (timestamp : String) : Signs .resultEnvelope (serializeMessage (e.dump timestamp))
  | registryEntry (manifest : AgentManifest) (status : EntryStatus) (approvedAt : Option String) :
      Signs .registryEntry (canonicalBytes manifest status approvedAt)
  | workflowEntry (definition : WorkflowDefinition) (status : String) (approvedAt : Option String) :
      Signs .workflowEntry (canonicalWorkflowBytes definition status approvedAt)

/-- The fields at the top of a text of the role. -/
def BodyRole.fields : BodyRole → List String
  | .taskMessage => ["envelope", "task", "policy_flags", "toolset", "data_pointers", "semantic_model", "timestamp"]
  | .resultEnvelope => ["run_id", "step_ref", "task_id", "task_type", "idempotency_key", "tenant_id", "intent_id", "result",
      "timestamp"]
  | .registryEntry => ["manifest", "status", "approved_at"]
  | .workflowEntry => ["definition", "status", "approved_at"]

/-- A field that no other role has. -/
def BodyRole.mark : BodyRole → String
  | .taskMessage => "envelope"
  | .resultEnvelope => "result"
  | .registryEntry => "manifest"
  | .workflowEntry => "definition"

namespace BodyRole

variable {role role' : BodyRole} {body : String}

theorem mark_mem (role : BodyRole) : role.mark ∈ role.fields := by
  cases role <;> decide

theorem mark_notMem (other : role ≠ role') : role.mark ∉ role'.fields := by
  revert other
  cases role <;> cases role' <;> decide

theorem nodup_fields (role : BodyRole) : role.fields.Nodup := by
  cases role <;> decide

/-- A signed text is that of a dictionary with the role's fields. -/
theorem Signs.dict (signs : role.Signs body) : ∃ fields, Dict.keys fields = role.fields ∧ body = serializeMessage (.obj fields) := by
  cases signs with
  | taskMessage m stamped timestamp => exact ⟨_, rfl, rfl⟩
  | resultEnvelope e timestamp => exact ⟨_, rfl, rfl⟩
  | registryEntry manifest status approvedAt => exact ⟨_, rfl, rfl⟩
  | workflowEntry definition status approvedAt => exact ⟨_, rfl, rfl⟩

end BodyRole

/-- Dictionaries with one canonical text have the same keys. -/
theorem keys_of_serialized {fields fields' : Dict String Json} (nodup : (Dict.keys fields).Nodup)
    (same : serializeMessage (.obj fields') = serializeMessage (.obj fields)) (key : String) :
    key ∈ Dict.keys fields' ↔ key ∈ Dict.keys fields := by
  have alike := JsonText.get_of_normal nodup (JsonText.normal_of_canonical (String.ofList_injective same)) key
  rw [Dict.mem_keys_iff, Dict.mem_keys_iff, ← Option.isSome_map, alike, Option.isSome_map]

/-- A text is signed in one role. -/
theorem BodyRole.Signs.unique {role role' : BodyRole} {body : String} (signs : role.Signs body) (signs' : role'.Signs body) :
    role = role' := by
  obtain ⟨fields, keys, written⟩ := signs.dict
  obtain ⟨fields', keys', written'⟩ := signs'.dict
  by_contra other
  have nodup : (Dict.keys fields').Nodup := by
    rw [keys']
    exact role'.nodup_fields
  have there := (keys_of_serialized nodup (written.symm.trans written') role.mark).mp (by rw [keys]; exact role.mark_mem)
  rw [keys'] at there
  exact BodyRole.mark_notMem other there

/-! ## Consumers -/

/-- The fields of a result envelope that have no default. -/
def ResultEnvelope.required : List String := ["run_id", "step_ref", "task_id", "idempotency_key", "tenant_id", "result"]

/-- `json.loads` gives a dictionary the keys it was written with, and a model refuses one that
lacks a required field. -/
structure Reader.KeepsFields (r : Reader) : Prop where
  loads : ∀ fields data, (Dict.keys fields).Nodup → r.loads (serializeMessage (.obj fields)) = .ok data →
    ∃ fields', data = .obj fields' ∧ ∀ key, key ∈ Dict.keys fields' ↔ key ∈ Dict.keys fields
  resultEnvelope : ∀ fields, ∀ key ∈ ResultEnvelope.required, key ∉ Dict.keys fields →
    ∃ e, r.resultEnvelope (.obj fields) = .error e

/-- What a collector takes a message for: the signature where it is required, then the body. -/
def ResultCollector.received (p : Platform) (signer : Signer) (r : Reader) (requireSignature : Bool) (msg : IncomingMessage) :
    Except Exn ResultEnvelope := do
  if requireSignature then
    signer.verify p msg.body msg.headers
  let data ← r.loads msg.body
  r.resultEnvelope data

theorem Intake.received_eq (i : Intake) (msg : IncomingMessage) : i.received msg =
    ResultCollector.received i.orchestrator.deployment.platform i.signer i.reader true msg := rfl

section consumers

variable {r : Reader} {role : BodyRole} {msg : IncomingMessage}

/-- What a body of another role is read as lacks the field that marks this one. -/
theorem BodyRole.Signs.unmarked (keeps : r.KeepsFields) (signs : role.Signs msg.body) {wanted : BodyRole}
    (other : role ≠ wanted) {data : Json} (read : r.loads msg.body = .ok data) :
    ∃ fields, data = .obj fields ∧ wanted.mark ∉ Dict.keys fields := by
  obtain ⟨fields, keys, written⟩ := signs.dict
  rw [written] at read
  obtain ⟨fields', rfl, same⟩ := keeps.loads fields data (by rw [keys]; exact role.nodup_fields) read
  refine ⟨fields', rfl, ?_⟩
  rw [same, keys]
  exact BodyRole.mark_notMem (Ne.symm other)

theorem WorkerPool.received_reads {p : Platform} {pool : WorkerPool} {out : Dict String Json × L2Context}
    (got : pool.received p r msg = .ok out) :
    ∃ data rebuilt, r.loads msg.body = .ok data ∧ reconstructL2Context r data = .ok rebuilt := by
  unfold WorkerPool.received at got
  dsimp only at got
  split at got
  · obtain ⟨_, _, got⟩ := ok_of_bind got
    obtain ⟨data, read, got⟩ := ok_of_bind got
    obtain ⟨rebuilt, built, _⟩ := ok_of_bind got
    exact ⟨data, rebuilt, read, built⟩
  · obtain ⟨data, read, got⟩ := ok_of_bind got
    obtain ⟨rebuilt, built, _⟩ := ok_of_bind got
    exact ⟨data, rebuilt, read, built⟩

theorem WorkerPool.received_error (keeps : r.KeepsFields) (signs : role.Signs msg.body) (other : role ≠ .taskMessage)
    (p : Platform) (pool : WorkerPool) : ∃ e, pool.received p r msg = .error e := by
  cases got : pool.received p r msg with
  | error e => exact ⟨e, rfl⟩
  | ok out =>
      obtain ⟨data, rebuilt, read, built⟩ := received_reads got
      obtain ⟨fields, rfl, lacks⟩ := signs.unmarked keeps other read
      -- the envelope is the first thing looked for
      obtain ⟨_, found, _⟩ := ok_of_bind built
      have none : Dict.get fields "envelope" = none := by
        rwa [BodyRole.mark, Dict.mem_keys_iff, Bool.not_eq_true, Option.isSome_eq_false_iff, Option.isNone_iff_eq_none] at lacks
      simp [Json.subscript, none] at found

theorem ResultCollector.received_reads {p : Platform} {signer : Signer} {requireSignature : Bool} {e : ResultEnvelope}
    (got : ResultCollector.received p signer r requireSignature msg = .ok e) :
    ∃ data, r.loads msg.body = .ok data ∧ r.resultEnvelope data = .ok e := by
  cases requireSignature with
  | true =>
      obtain ⟨_, _, got⟩ := ok_of_bind got
      exact ok_of_bind got
  | false => exact ok_of_bind got

theorem ResultCollector.received_error (keeps : r.KeepsFields) (signs : role.Signs msg.body) (other : role ≠ .resultEnvelope)
    (p : Platform) (signer : Signer) (requireSignature : Bool) :
    ∃ e, ResultCollector.received p signer r requireSignature msg = .error e := by
  cases got : ResultCollector.received p signer r requireSignature msg with
  | error e => exact ⟨e, rfl⟩
  | ok out =>
      obtain ⟨data, read, accepted⟩ := received_reads got
      obtain ⟨fields, rfl, lacks⟩ := signs.unmarked keeps other read
      obtain ⟨e, refused⟩ := keeps.resultEnvelope fields "result" (by decide) lacks
      rw [refused] at accepted
      cases accepted

/-- No text is signed in two roles, and a consumer raises over a text of another role before it
awaits anything. -/
theorem roles_apart (keeps : r.KeepsFields) :
    (∀ role role' body, BodyRole.Signs role body → BodyRole.Signs role' body → role = role') ∧
    (∀ (p : Platform) (pool : WorkerPool) timestamp role (msg : IncomingMessage), BodyRole.Signs role msg.body →
      role ≠ .taskMessage → ∃ e, pool.handle p r timestamp msg = Act.throw e) ∧
    ∀ (p : Platform) (signer : Signer) requireSignature (collector : ResultCollector) l1 role (msg : IncomingMessage),
      BodyRole.Signs role msg.body → role ≠ .resultEnvelope →
      ∃ e, collector.handle l1 { decoded := ResultCollector.received p signer r requireSignature msg } = Act.throw e := by
  refine ⟨fun _ _ _ signs signs' => signs.unique signs', ?_, ?_⟩
  · intro p pool timestamp role msg signs other
    obtain ⟨e, refused⟩ := WorkerPool.received_error keeps signs other p pool
    refine ⟨e, ?_⟩
    rw [WorkerPool.handle, refused]
    rfl
  · intro p signer requireSignature collector l1 role msg signs other
    obtain ⟨e, refused⟩ := ResultCollector.received_error keeps signs other p signer requireSignature
    refine ⟨e, ?_⟩
    rw [ResultCollector.handle, refused]
    rfl

end consumers

namespace Sample

/-- The text of the approved workflow. -/
def bareText : String := canonicalWorkflowBytes bare "approved" (some "")

/-- It is sent as a message, with the signature of its entry. -/
def bareMessage : IncomingMessage where
  body := bareText
  headers := [("kid", "default"), ("sig", tally bareText)]

/-- Reads that text, and no other. -/
def bareReader : Reader where
  loads body :=
    if body = bareText then .ok (.obj [("definition", bare.dump), ("status", .str "approved"), ("approved_at", .str "")])
    else .error (.valueError "Expecting value")
  envelope _ := .error (.valueError "validation error")
  toolRef _ := .error (.valueError "validation error")
  resultEnvelope _ := .error (.valueError "validation error")

theorem bareReader_keeps : bareReader.KeepsFields where
  loads := by
    intro fields data nodup read
    simp only [bareReader] at read
    split at read
    next same =>
      cases read
      exact ⟨_, rfl, keys_of_serialized nodup same.symm⟩
    next => cases read
  resultEnvelope _ _ _ _ := ⟨_, rfl⟩

end Sample

open Sample in
/-- The signed workflow is neither worked on nor taken for a result. -/
theorem roles_apart_workflow :
    (∃ e, ({ signer := vaultSigner, registry := {} } : WorkerPool).handle sealing bareReader "" bareMessage = Act.throw e) ∧
    ∃ e, ResultCollector.handle {} (orchestrator single).l1
      { decoded := ResultCollector.received sealing vaultSigner bareReader true bareMessage } = Act.throw e := by
  obtain ⟨-, worker, collector⟩ := roles_apart bareReader_keeps
  exact ⟨worker _ _ _ .workflowEntry _ (.workflowEntry bare _ _) (by decide),
    collector _ _ _ _ _ .workflowEntry _ (.workflowEntry bare _ _) (by decide)⟩

end Maof
