import Maof.Registry.Loader

/-!
# Delegations and where they are routed
-/

namespace Maof

open Data (Dict)

structure DelegationContract where
  objective : String
  outputFormat : String
  toolGuidance : List String := []
  boundaries : List String := []
  parentTraceRef : String := ""
  acceptedSchema : Option String := none
  coordinationMode : Option String := none
  taskType : Option String := none
  stepRef : Option String := none
  payload : Dict String Json := []
  pins : Dict String String := []
  agent : Option String := none

/-- `value or fallback` on an optional string. -/
def orElse (value : Option String) (fallback : String) : String :=
  match value with
  | some s => if s = "" then fallback else s
  | none => fallback

def schemaRoot (schemaId : Option String) : String :=
  match schemaId with
  | some s => if s = "" then "generic_task" else String.ofList (s.toList.takeWhile (· ≠ '.'))
  | none => "generic_task"

def DelegationContract.routedType (d : DelegationContract) : String :=
  orElse d.taskType (schemaRoot d.acceptedSchema)

structure QueueDispatcher where
  queueResolver : String → String := fun taskType => "tasks." ++ taskType
  /-- An idempotency guard is wired around the publish. -/
  guarded : Bool := false
  /-- The key the registry loader verifies with; `none` without a loader. -/
  registryLoader : Option Signer := none

namespace QueueDispatcher

/-- The manifests left once the agent id, when one is named, has been applied. -/
def byAgent (d : DelegationContract) (candidates : List AgentManifest) : List AgentManifest :=
  match d.agent with
  | some id => if id = "" then candidates else candidates.filter fun m => m.id = id
  | none => candidates

/-- The pinned version, when it is not empty. -/
def pin (d : DelegationContract) : Option String :=
  (Dict.get d.pins "agent_version").filter (· ≠ "")

def pinMismatch (p : Platform) (version taskType : String) (candidates : List AgentManifest) : Exn :=
  .registryTrust ("version pin " ++ Template.reprText p.unicode (.str version) ++ " for " ++
    Template.reprText p.unicode (.str taskType) ++ " matches no approved agent (available: " ++
    Template.reprText p.unicode (.strs (candidates.map AgentManifest.version)) ++ ")")

/-- A manifest whose queue takes this run: it has one, and no canary excludes the run. -/
def takes (p : Platform) (runId : RunId) (m : AgentManifest) : Bool :=
  orElse m.queue "" ≠ "" && (!PyFloat.lt .zero m.canaryPct || inCanaryCohort p runId m.canaryPct)

/-- The first candidate in order that takes the run. -/
def firstTaking (p : Platform) (runId : RunId) : List AgentManifest → Option AgentManifest
  | [] => none
  | m :: rest => if takes p runId m then some m else firstTaking p runId rest

/-- `_resolve_queue`, over the registry rows of the moment. -/
def resolveQueue (p : Platform) (q : QueueDispatcher) (registry : List RegistryEntry)
    (d : DelegationContract) (info : RunInfo) : Except Exn (String × Option AgentManifest) :=
  let taskType := d.routedType
  let fallback := q.queueResolver taskType
  match q.registryLoader with
  | none => .ok (fallback, none)
  | some signer =>
      let candidates := byAgent d (agentsForTaskType p signer registry taskType (some info.tenant))
      let route (candidates : List AgentManifest) : Except Exn (String × Option AgentManifest) :=
        match firstTaking p info.runId candidates with
        | some m => .ok (orElse m.queue "", some m)
        | none => .ok (fallback, none)
      match pin d with
      | none => route candidates
      | some version =>
          let pinned := candidates.filter fun m => m.version = version
          if !candidates.isEmpty && pinned.isEmpty then
            .error (pinMismatch p version taskType candidates)
          else route pinned

end QueueDispatcher

structure InProcessSubagent where
  /-- `len(result) > summary_chars` hands the full text to the artifact store. -/
  artifacts : Bool := false
  summaryChars : Nat := 2000
  model : Option String := none

structure DefaultCoordinator where
  queue : Option QueueDispatcher := none
  inProcess : Option InProcessSubagent := none
  defaultMode : String := "in_process"

end Maof
