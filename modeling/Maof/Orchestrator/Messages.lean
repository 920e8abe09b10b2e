import Maof.Types

/-!
# Task messages

The wire shape of a task, the same whichever stage emits it.
-/

namespace Maof

open Data (Dict)

structure TaskEnvelope where
  runId : RunId
  tenantId : String
  intentId : Option String
  stage : Stage
  rulesetRef : Option String
  rulesetVersion : Option Int
  schemaId : Option String
  mode : String
  region : String
  actor : Option Json

structure TaskMessage where
  envelope : TaskEnvelope
  task : Task
  policyFlags : Dict String String
  toolset : List ToolRef
  dataPointers : Dict String String
  semanticModel : Dict String Json

def buildTaskMessage (info : RunInfo) (work : Work) (task : Task) (rulesetRef : Option String)
    (rulesetVersion : Option Int) (schemaId : Option String) : TaskMessage where
  envelope := {
    runId := info.runId
    tenantId := info.tenant.tenantId
    intentId := work.intentId
    stage := .publish
    rulesetRef
    rulesetVersion
    schemaId
    mode := work.mode
    region := work.region
    actor := info.actor }
  task
  policyFlags := (work.envelope.map ContextEnvelope.policyFlags).getD []
  toolset := (work.envelope.map ContextEnvelope.toolset).getD []
  dataPointers := Dict.update [] (((work.envelope.map ContextEnvelope.dataPointers).getD []).map
    fun dp => (dp.aliasName, dp.uri))
  semanticModel := (work.envelope.map ContextEnvelope.semanticModel).getD []

end Maof
