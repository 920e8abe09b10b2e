import Maof.Data.JsonText
import Maof.Runs.Checkpoint

/-!
# What a checkpoint brings back

The carrier with its extras as the free dictionary they are: everything in a checkpoint is
read back as it was saved, and saved again as the same text.
-/

namespace Maof

open Data (Dict)
open Checkpoint

/-- The stage context without the audit log and the live handles. -/
structure Carrier where
  runId : RunId
  tenant : TenantContext
  goal : String
  stage : Stage := .chat
  dialogue : List String := []
  intent : Option Intent := none
  envelope : Option ContextEnvelope := none
  plan : Option Plan := none
  policyDecisions : List DecisionTrace := []
  mode : String := "sandbox"
  region : String := "us-east-1"
  extras : Dict String Json := []
  traceRef : Option String := none
  principal : Option Principal := none

namespace Carrier

def payload (sc : Carrier) : Json :=
  .obj [("run_id", .str sc.runId), ("tenant", tenantJson sc.tenant), ("goal", .str sc.goal),
    ("stage", .str sc.stage.value), ("dialogue", .strs sc.dialogue),
    ("intent", (sc.intent.map fun i => .obj i.dump).getD .null),
    ("envelope", (sc.envelope.map envelopeJson).getD .null),
    ("plan", (sc.plan.map fun p => .obj p.dump).getD .null),
    ("policy_decisions", .arr (sc.policyDecisions.map decisionJson)), ("mode", .str sc.mode),
    ("region", .str sc.region), ("trace_ref", .ofStr? sc.traceRef), ("extras", .obj sc.extras)]

/-- `checkpoint_serialize`. -/
def serialize (sc : Carrier) : String := String.ofList (JsonText.dumps sc.payload)

def carrier? (data : Json) : Option Carrier := do
  let f ← obj? data
  return {
    runId := ← need f "run_id" str?
    tenant := ← need f "tenant" tenant?
    goal := ← need f "goal" str?
    stage := ← need f "stage" stage?
    dialogue := ← need f "dialogue" (list? str?)
    intent := ← need f "intent" (nullable? intent?)
    envelope := ← need f "envelope" (nullable? envelope?)
    plan := ← need f "plan" (nullable? plan?)
    policyDecisions := ← need f "policy_decisions" (list? decision?)
    mode := ← need f "mode" str?
    region := ← need f "region" str?
    traceRef := (← may f "trace_ref" (nullable? str?)).join
    extras := (← may f "extras" obj?).getD [] }

/-- `checkpoint_deserialize`, over what `json.loads` reads. -/
def deserialize (loads : String → Except Exn Json) (blob : String) : Except Exn Carrier := do
  let data ← loads blob
  match carrier? data with
  | some sc => return sc
  | none => .error (.valueError "malformed checkpoint")

/-- Only the principal is not read back. -/
theorem carrier?_payload (sc : Carrier) : carrier? sc.payload = some { sc with principal := none } := by
  have intent := nullable?_map sc.intent intent?_dump fun _ => by simp
  have envelope := nullable?_map sc.envelope envelope?_envelopeJson fun _ => by
    simp [envelopeJson]
  have plan := nullable?_map sc.plan plan?_dump fun _ => by simp
  have decisions := list?_map sc.policyDecisions decision?_decisionJson
  unfold carrier? payload
  rw [obj?, Option.bind_eq_bind, Option.bind_some]
  refine need_bind rfl rfl (need_bind rfl (tenant?_tenantJson sc.tenant) (need_bind rfl rfl ?_))
  refine need_bind rfl (stage?_value sc.stage) (need_bind rfl (strs?_strs sc.dialogue) (need_bind rfl intent ?_))
  refine need_bind rfl envelope (need_bind rfl plan (need_bind rfl decisions (need_bind rfl rfl (need_bind rfl rfl ?_))))
  simp [may, Dict.get, obj?]

end Carrier

/-- The carrier of a context whose own entries are told apart from an adopter's. -/
def StageContext.carrier (sc : StageContext) : Carrier where
  runId := sc.info.runId
  tenant := sc.info.tenant
  goal := sc.info.goal
  stage := sc.work.stage
  dialogue := sc.work.dialogue
  intent := sc.work.intent
  envelope := sc.work.envelope
  plan := sc.work.plan
  policyDecisions := sc.work.policyDecisions
  mode := sc.work.mode
  region := sc.work.region
  extras := extrasJson sc.work.extras
  traceRef := sc.work.traceRef
  principal := sc.info.principal

/-- The driver saves the carrier of its context. -/
theorem StageContext.payload_carrier (sc : StageContext) : sc.carrier.payload = checkpointSerialize sc := rfl

end Maof
