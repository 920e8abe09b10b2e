import Maof.Orchestrator.L1

/-!
# The orchestrator as a machine

Any number of drives, deliveries, polls and operator commands over one world,
interleaved call by call. Each process keeps a tag, the part of its own history
an argument needs.
-/

namespace Maof

open Effects (Act Prog Machine Pool)

inductive Actor where
  | run (goal : String) (tenant : TenantContext) (principal : Option Principal)
  | resume (runId : RunId)
  | handle (msg : Delivery)
  | tick
  | cancel (runId : RunId) (authorize : Option (String → Except Exn Unit))
  | wake (eventKey : String) (authorize : Except Exn Unit)

/-- What happens outside the processes. -/
inductive EnvMove where
  | clock (now : Int)
  | registry (rows : List RegistryEntry)
  | rulesets (rows : String → String → Option LoadedRuleset)

def EnvMove.apply : EnvMove → World → World
  | .clock now, w => { w with clock := now }
  | .registry rows, w => { w with registry := rows }
  | .rulesets rows, w => { w with rulesets := rows }

/-- A deployment before its first run. -/
def World.fresh (registry : List RegistryEntry) (rulesets : String → String → Option LoadedRuleset)
    (clock : Int) : World :=
  { registry, rulesets, clock }

structure Orchestrator where
  deployment : Deployment
  l1 : DefaultL1
  collector : ResultCollector := {}

/-- Run a program to its outcome and drop the answer. -/
def toProcess {α : Type} (m : Act RunSig Unit α) : Prog RunSig (Except Exn Unit) :=
  (m ()).bind fun out => .ret (out.1.map fun _ => ())

namespace Orchestrator

variable (o : Orchestrator)

def program : Actor → Prog RunSig (Except Exn Unit)
  | .run goal tenant principal => toProcess (o.l1.run goal tenant principal)
  | .resume runId => toProcess (o.l1.resumeRun runId)
  | .handle msg => toProcess (o.collector.handle o.l1 msg)
  | .tick => toProcess (WakerPoller.tick o.l1)
  | .cancel runId authorize => toProcess (RunOps.cancel runId authorize)
  | .wake eventKey authorize => toProcess (RunOps.wake eventKey authorize)

/-- The machine, with the history `G` an argument keeps beside each process. -/
def machine {G : Type} (tag : Actor → G) (mark : G → (op : Op) → Except Exn op.Ans → G) :
    Machine RunSig World Choice Actor EnvMove G where
  perform c w op := World.perform o.deployment c w op
  program := o.program
  env e w := e.apply w
  tag
  mark

def start (G : Type) (w : World) : Pool RunSig World G := { world := w, procs := [] }

end Orchestrator

/-! ## A small deployment -/

namespace Sample

/-- Hashes that keep their input, and times written as tallies. -/
def platform : Platform where
  unicode := { alnum := fun _ => false, printable := fun _ => true }
  sha256 text := text
  hmacSha256 secret body := "mac:" ++ secret ++ body
  nearest x := x
  exact := PyFloat.spelled
  parseRfc3339 text := some text.length
  later now _ := .ok (String.ofList (List.replicate (now.toNat + 1) '|'))

def executor : WorkflowExecutor := { coordinator := { queue := some {} } }

def orchestrator (d : WorkflowDefinition) : Orchestrator where
  deployment := { platform }
  l1 := { pipeline := [workflowStage platform executor d []] }

/-- One queue step. -/
def single : WorkflowDefinition := { name := "w", version := 1, steps := [{ id := "a" }] }

def tenant : TenantContext := { tenantId := "t" }

/-- The result of a step, as its worker publishes it. -/
def resultOf (step : StepId) : Delivery where
  decoded := .ok {
    runId := "r"
    stepRef := step
    taskId := step
    idempotencyKey := step
    tenantId := "t"
    result := { status := "ok", taskId := step } }

/-- Process `i` makes its next `n` calls, none of which fails. -/
def calls (i n : Nat) : List (Effects.Label Choice Actor EnvMove) :=
  List.replicate n (.run i { text := "r" })

end Sample
end Maof
