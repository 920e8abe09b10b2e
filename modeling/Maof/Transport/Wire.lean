import Maof.Orchestrator.Lifecycle
import Maof.Orchestrator.Messages

/-!
# Messages as they are received

The text of a message is read by the JSON parser and validated by the models;
what these make of a text is a parameter. Task schemas are validators by id.
-/

namespace Maof

open Data (Dict)

structure IncomingMessage where
  body : String
  headers : Dict String String := []

/-- `json.loads`, the models' validation, and `dict` of a value that is no object. -/
structure Reader where
  loads : String → Except Exn Json
  envelope : Json → Except Exn TaskEnvelope
  toolRef : Json → Except Exn ToolRef
  resultEnvelope : Json → Except Exn ResultEnvelope
  coerced : Json → Except Exn (Dict String Json) := fun _ => .error (.typeError "cannot convert to a dict")

structure SchemaRegistry where
  validators : Dict String (Dict String Json → Except String Unit)

namespace SchemaRegistry

def isRegistered (s : SchemaRegistry) (schemaId : String) : Bool := (Dict.get s.validators schemaId).isSome

def validate (u : Unicode) (s : SchemaRegistry) (schemaId : String) (body : Dict String Json) : Except Exn Unit :=
  match Dict.get s.validators schemaId with
  | none => .error (.schemaValidation ("unknown schema_id: " ++ Template.reprText u (.str schemaId)))
  | some validator =>
      match validator body with
      | .ok () => .ok ()
      | .error message => .error (.schemaValidation (schemaId ++ ": " ++ message))

/-- Validate where the schema is registered. -/
def conforms (u : Unicode) (schemas : Option SchemaRegistry) (schemaId : String) (body : Dict String Json) :
    Except Exn Unit :=
  match schemas with
  | some s => if s.isRegistered schemaId then s.validate u schemaId body else .ok ()
  | none => .ok ()

end SchemaRegistry

/-- `for item in value`. -/
def Json.items : Json → Except Exn (List Json)
  | .arr items => .ok items
  | .obj fields => .ok (fields.map fun kv => .str kv.1)
  | .str s => .ok (s.toList.map fun c => .str (String.ofList [c]))
  | _ => .error (.typeError "object is not iterable")

/-- An element of a set: the lists and dictionaries are not hashable. -/
def Json.hashed : Json → Except Exn Json
  | .arr _ | .obj _ => .error (.typeError "unhashable type")
  | value => .ok value

/-- `value[key]`. -/
def Json.subscript (value : Json) (key : String) : Except Exn Json :=
  match value with
  | .obj fields => match Dict.get fields key with
      | some found => .ok found
      | none => .error (.keyError key)
  | _ => .error (.typeError "indices must be integers")

/-- What a worker rebuilds from a task message. The handles it gives the agent besides
(the guard, the artifact store, the clients) are the environment's. -/
structure L2Context where
  envelope : TaskEnvelope
  tenant : TenantContext
  dataPointers : Dict String Json := []
  policyFlags : Dict String Json := []
  toolset : List ToolRef := []
  semanticModel : Dict String Json := []

def Reader.asDict (r : Reader) : Json → Except Exn (Dict String Json)
  | .obj fields => .ok fields
  | value => r.coerced value

def reconstructL2Context (r : Reader) (message : Json) : Except Exn (Json × L2Context) := do
  let envData ← message.subscript "envelope"
  let envelope ← r.envelope envData
  let dataPointers ← r.asDict ((message.get? "data_pointers").getD (.obj []))
  let policyFlags ← r.asDict ((message.get? "policy_flags").getD (.obj []))
  let tools ← ((message.get? "toolset").getD (.arr [])).items
  let toolset ← tools.mapM r.toolRef
  let semanticModel ← r.asDict ((message.get? "semantic_model").getD (.obj []))
  let taskBody ← message.subscript "task"
  return (taskBody, {
    envelope
    tenant := { tenantId := envelope.tenantId }
    dataPointers
    policyFlags
    toolset
    semanticModel })

/-! ## Result envelopes -/

def TaskResult.dump (r : TaskResult) : Json :=
  .obj [("status", .str r.status), ("task_id", .str r.taskId), ("output", .obj r.output),
    ("artifacts", .strs r.artifacts), ("error", .ofStr? r.error),
    ("idempotency_key", .ofStr? r.idempotencyKey), ("run_id", .ofStr? r.runId),
    ("step_ref", .ofStr? r.stepRef)]

/-- `timestamp` is written when the envelope is made. -/
def ResultEnvelope.dump (e : ResultEnvelope) (timestamp : String) : Json :=
  .obj [("run_id", .str e.runId), ("step_ref", .str e.stepRef), ("task_id", .str e.taskId),
    ("task_type", .str e.taskType), ("idempotency_key", .str e.idempotencyKey),
    ("tenant_id", .str e.tenantId), ("intent_id", .ofStr? e.intentId), ("result", e.result.dump),
    ("timestamp", .str timestamp)]

def serializeMessage (message : Json) : String := String.ofList (JsonText.canonical message)

/-- A result envelope handed to the broker. -/
structure ResultPublication where
  queue : String
  envelope : ResultEnvelope
  body : String
  headers : Dict String String
  messageId : String
  correlationId : String

/-- What `publish_result` gives the broker; signing raises where the active key is missing. -/
def resultPublication (p : Platform) (signer : Signer) (timestamp queue : String) (envelope : ResultEnvelope) :
    Except Exn ResultPublication := do
  let body := serializeMessage (envelope.dump timestamp)
  let sig ← signer.sign p body
  return {
    queue
    envelope
    body
    headers := [("kid", signer.activeKid), ("sig", sig), ("idempotency_key", envelope.idempotencyKey)]
    messageId := "result:" ++ envelope.idempotencyKey
    correlationId := envelope.runId }

end Maof
