import Maof.Transport.Signing

/-!
# Results and wakeups

The result store and the two wakers, each operation as a function of the rows
it reads and writes. A row keeps the gate it was scheduled for as history.
-/

namespace Maof

structure ResultEnvelope where
  runId : RunId
  stepRef : StepId
  taskId : String
  taskType : String := "generic_task"
  idempotencyKey : String
  tenantId : String
  intentId : Option String := none
  result : TaskResult

namespace ResultStore

/-- Persist; `false` when a result with this key was already recorded. -/
def save (rows : List ResultEnvelope) (envelope : ResultEnvelope) : List ResultEnvelope × Bool :=
  if rows.any fun e => e.idempotencyKey = envelope.idempotencyKey then (rows, false)
  else (rows ++ [envelope], true)

def list (rows : List ResultEnvelope) (runId : RunId) (stepRef : StepId) : List ResultEnvelope :=
  rows.filter fun e => e.runId = runId ∧ e.stepRef = stepRef

def count (rows : List ResultEnvelope) (runId : RunId) (stepRef : StepId) : Nat :=
  (list rows runId stepRef).length

end ResultStore

/-- Where runs, results and wakeups are kept. -/
inductive Backend where
  | memory
  | postgres
deriving DecidableEq, Repr

inductive WakeStatus where
  | pending
  | fired
  | cancelled
deriving DecidableEq, Repr

structure Wakeup where
  runId : RunId
  condition : WakeCondition
  status : WakeStatus := .pending
  gate : Option StepId := none
deriving DecidableEq, Repr

namespace Waker

variable (p : Platform) (b : Backend) (results : List ResultEnvelope)

/-- Enough results of the join have landed. -/
def ready (w : Wakeup) : Bool :=
  match w.condition.stepRef with
  | some step => w.condition.expected ≤ ResultStore.count results w.runId step
  | none => false

def isJoin (w : Wakeup) : Bool := w.status = .pending && w.condition.kind = .resultsReady

def joins (runId : RunId) (stepRef : StepId) (w : Wakeup) : Bool :=
  isJoin w && w.runId = runId && w.condition.stepRef = some stepRef

def fire (w : Wakeup) : Wakeup := { w with status := .fired }

/-- Fire the first row that qualifies. -/
def claimFirst (q : Wakeup → Bool) : List Wakeup → List Wakeup
  | [] => []
  | w :: rows => if q w then fire w :: rows else w :: claimFirst q rows

/-- Fire every row that qualifies and name the runs. -/
def claimAll (q : Wakeup → Bool) (rows : List Wakeup) : List Wakeup × List RunId :=
  (rows.map fun w => if q w then fire w else w, (rows.filter q).map Wakeup.runId)

/-- The row `satisfy_results` claims: in memory only the first join of the step
is looked at, in the database any whose results are there. -/
def claimable (runId : RunId) (stepRef : StepId) (rows : List Wakeup) : Wakeup → Bool :=
  match b with
  | .memory => fun w => joins runId stepRef w &&
      match rows.find? (joins runId stepRef) with
      | some first => ready results first
      | none => false
  | .postgres => fun w => joins runId stepRef w && ready results w

def satisfyResults (runId : RunId) (stepRef : StepId) (rows : List Wakeup) : List Wakeup × Bool :=
  let q := claimable b results runId stepRef rows
  (claimFirst q rows, rows.any q)

def dueJoins (rows : List Wakeup) : List Wakeup × List RunId :=
  claimAll (fun w => isJoin w && ready results w) rows

def awaitsEvent (eventKey : String) (w : Wakeup) : Bool :=
  w.status = .pending && w.condition.kind = .externalEvent && w.condition.eventKey = some eventKey

def fireEvent (eventKey : String) (rows : List Wakeup) : List Wakeup × List RunId :=
  claimAll (awaitsEvent eventKey) rows

/-- The time a pending timer is set to. -/
def alarm (w : Wakeup) : Option String :=
  if w.status = .pending ∧ w.condition.kind = .timer then w.condition.wakeAt else none

def unparsable (text : String) : Exn := .valueError ("Invalid isoformat string: '" ++ text ++ "'")

/-- The in-memory sweep: an unparsable time raises, with the rows before it already fired. -/
def sweepTimers (now : Int) : List Wakeup → List Wakeup × Except Exn (List RunId)
  | [] => ([], .ok [])
  | w :: rows =>
      match alarm w with
      | none => let (rest, out) := sweepTimers now rows; (w :: rest, out)
      | some text =>
          match p.parseRfc3339 text with
          | none => (w :: rows, .error (unparsable text))
          | some time =>
              let (rest, out) := sweepTimers now rows
              if time ≤ now then (fire w :: rest, out.map (w.runId :: ·)) else (w :: rest, out)

/-- A row whose `wake_at` column has passed. -/
def timerDue (now : Int) (w : Wakeup) : Bool :=
  match (alarm w).bind p.parseRfc3339 with
  | some time => time ≤ now
  | none => false

def dueTimers (now : Int) (rows : List Wakeup) : List Wakeup × Except Exn (List RunId) :=
  match b with
  | .memory => sweepTimers p now rows
  | .postgres => let (rest, due) := claimAll (timerDue p now) rows; (rest, .ok due)

/-- The database converts a timer's time when it is scheduled. -/
def schedule (runId : RunId) (condition : WakeCondition) (gate : Option StepId)
    (rows : List Wakeup) : Except Exn (List Wakeup) :=
  let row : Wakeup := { runId, condition, gate }
  match b, condition.wakeAt with
  | .postgres, some text =>
      if text ≠ "" ∧ (p.parseRfc3339 text).isNone then .error (unparsable text)
      else .ok (rows ++ [row])
  | _, _ => .ok (rows ++ [row])

/-- `UPDATE run_wakeups SET status = 'cancelled'`: the in-memory waker has no such row. -/
def cancel (runId : RunId) (rows : List Wakeup) : List Wakeup :=
  match b with
  | .memory => rows
  | .postgres => rows.map fun w =>
      if w.runId = runId ∧ w.status = .pending then { w with status := .cancelled } else w

end Waker
end Maof
