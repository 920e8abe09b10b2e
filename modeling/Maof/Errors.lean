import Maof.Types

/-!
# Wake conditions and errors

`NeedsWait` is control flow, the rest are failures. A wait raised for a gate
step keeps the step's id as history; no program reads it.
-/

namespace Maof

inductive WakeKind where
  | resultsReady
  | timer
  | externalEvent
deriving DecidableEq, Repr

def WakeKind.value : WakeKind → String
  | .resultsReady => "results_ready"
  | .timer => "timer"
  | .externalEvent => "external_event"

structure WakeCondition where
  kind : WakeKind
  stepRef : Option StepId := none
  expected : Nat := 1
  wakeAt : Option String := none
  eventKey : Option String := none
deriving DecidableEq, Repr

inductive Exn where
  | needsWait (condition : WakeCondition) (gate : Option StepId)
  | policyDenied (reason : String)
  | approvalRequired (reason : String)
  | timeout (message : String)
  | maof (message : String)
  | registryTrust (message : String)
  | signature (message : String)
  | schemaValidation (message : String)
  | keyError (message : String)
  | valueError (message : String)
  | typeError (message : String)
  | permission (message : String)
  | authz (message : String)
  | runtime (message : String)
  | external (message : String)
deriving DecidableEq, Repr

/-- `str(exc)`. -/
def Exn.message : Exn → String
  | .needsWait condition _ => "waiting on " ++ condition.kind.value
  | .policyDenied m | .approvalRequired m | .timeout m | .maof m | .registryTrust m | .signature m
  | .schemaValidation m | .keyError m | .valueError m | .typeError m | .permission m | .authz m
  | .runtime m | .external m => m

/-- The exceptions the driver turns into an outcome of the run. -/
def Exn.governed : Exn → Bool
  | .needsWait _ _ | .policyDenied _ | .approvalRequired _ => true
  | _ => false

/-- A computation that answers answered step by step. -/
theorem ok_of_bind {α β : Type} {r : Except Exn α} {k : α → Except Exn β} {b : β} (h : (r >>= k) = .ok b) :
    ∃ a, r = .ok a ∧ k a = .ok b := by
  cases r with
  | error e => cases h
  | ok a => exact ⟨a, rfl, h⟩

end Maof
