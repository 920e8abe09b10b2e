import Maof.Data.Agenda
import Maof.Orchestrator.Lifecycle

/-!
# The two wakers

One waker scans a list, the other a table, operation by operation and with all that a condition
may hold: any `expected`, times of any text. What driver and server do with a value is a
parameter, as is the row that `LIMIT 1` picks.
-/

namespace Maof.Wakers

open Data (Slot)
open Data.Agenda (pending sweep claimAny)

structure Condition where
  kind : WakeKind
  stepRef : Option StepId := none
  expected : Int := 1
  wakeAt : Option String := none
  eventKey : Option String := none
deriving DecidableEq, Repr

/-- A datetime, without an offset or with one. -/
inductive Moment where
  | naive (wall : Int)
  | aware (time : Int)
deriving DecidableEq, Repr

/-- A row of `run_wakeups`, less its status. -/
structure Row where
  id : Nat
  runId : RunId
  kind : WakeKind
  stepRef : Option StepId
  expected : Int
  wakeAt : Option Int
  eventKey : Option String
deriving DecidableEq, Repr

structure Driver where
  /-- `datetime.fromisoformat`. -/
  fromisoformat : String → Option Moment
  /-- The instant a datetime is stored as, where there is one. -/
  sent : Moment → Option Int
  /-- A text a statement can be given. -/
  text : String → Bool
  /-- A row that can be inserted into `run_wakeups`, and a result into `run_results`. -/
  takes : Row → Bool
  records : ResultEnvelope → Bool
  fromisoformat_empty : fromisoformat "" = none
  sent_aware : ∀ time stored, sent (.aware time) = some stored → stored = time

namespace Driver

variable (d : Driver)

def parseRfc3339 (value : String) : Option Moment :=
  d.fromisoformat (String.ofList (value.toList.flatMap fun c => if c = 'Z' then "+00:00".toList else [c]))

def unparsable (text : String) : Exn := .valueError ("Invalid isoformat string: '" ++ text ++ "'")

/-- `_parse_rfc3339(condition.at) if condition.at else None`, as the driver sends it. -/
def wakeAt (c : Condition) : Except Exn (Option Int) :=
  match c.wakeAt with
  | none => .ok none
  | some text =>
      if text = "" then .ok none
      else match d.parseRfc3339 text with
        | none => .error (unparsable text)
        | some moment => match d.sent moment with
          | none => .error (.external "date value out of range")
          | some time => .ok (some time)

end Driver

/-! ## In memory -/

/-- An entry, and its place in the list. -/
structure Scheduled where
  id : Nat
  runId : RunId
  condition : Condition
deriving DecidableEq, Repr

structure InMemory where
  scheduled : List (Slot Scheduled) := []
  results : List ResultEnvelope := []

def ready (results : List ResultEnvelope) (runId : RunId) (stepRef : StepId) (expected : Int) : Bool :=
  expected ≤ ResultStore.count results runId stepRef

namespace Scheduled

variable (s : Scheduled)

def joins (runId : RunId) (stepRef : StepId) : Bool :=
  s.runId = runId && s.condition.kind = .resultsReady && s.condition.stepRef = some stepRef

def awaits (eventKey : String) : Bool := s.condition.kind = .externalEvent && s.condition.eventKey = some eventKey

/-- A join whose results are there. -/
def joined (results : List ResultEnvelope) : Bool :=
  s.condition.kind = .resultsReady && match s.condition.stepRef with
    | none => false
    | some stepRef => ready results s.runId stepRef s.condition.expected

/-- The time of a timer. -/
def alarm : Option String := if s.condition.kind = .timer then s.condition.wakeAt else none

end Scheduled

namespace InMemory

/-- The first pending join of the step is claimed, or none. -/
def satisfyResults (results : List ResultEnvelope) (runId : RunId) (stepRef : StepId) :
    List (Slot Scheduled) → List (Slot Scheduled) × Option Scheduled
  | [] => ([], none)
  | s :: rest =>
      if !s.fired && s.item.joins runId stepRef then
        if ready results runId stepRef s.item.condition.expected then ({ s with fired := true } :: rest, some s.item)
        else (s :: rest, none)
      else let (rest, out) := satisfyResults results runId stepRef rest; (s :: rest, out)

/-- A time that cannot be read or compared raises, with the entries before it already fired. -/
def dueTimers (d : Driver) (now : Int) : List (Slot Scheduled) → List (Slot Scheduled) × Except Exn (List Scheduled)
  | [] => ([], .ok [])
  | s :: rest =>
      let (swept, due) := dueTimers d now rest
      if s.fired then (s :: swept, due)
      else match s.item.alarm with
        | none => (s :: swept, due)
        | some text => match d.parseRfc3339 text with
          | none => (s :: rest, .error (Driver.unparsable text))
          | some (.naive _) => (s :: rest, .error (.typeError "can't compare offset-naive and offset-aware datetimes"))
          | some (.aware time) =>
              if time ≤ now then ({ s with fired := true } :: swept, due.map (s.item :: ·)) else (s :: swept, due)

end InMemory

/-! ## In the database -/

structure Database where
  rows : List (Slot Row) := []
  results : List ResultEnvelope := []

namespace Row

variable (r : Row)

def count (results : List ResultEnvelope) : Nat :=
  match r.stepRef with
  | none => 0
  | some stepRef => ResultStore.count results r.runId stepRef

def joined (results : List ResultEnvelope) : Bool := r.kind = .resultsReady && r.expected ≤ r.count results

def joins (results : List ResultEnvelope) (runId : RunId) (stepRef : StepId) : Bool :=
  r.joined results && r.runId = runId && r.stepRef = some stepRef

def awaits (eventKey : String) : Bool := r.kind = .externalEvent && r.eventKey = some eventKey

def due (now : Int) : Bool :=
  r.kind = .timer && match r.wakeAt with
    | none => false
    | some time => time ≤ now

end Row

def row (id : Nat) (runId : RunId) (c : Condition) (wakeAt : Option Int) : Row :=
  { id, runId, kind := c.kind, stepRef := c.stepRef, expected := c.expected, wakeAt, eventKey := c.eventKey }

/-! ## Operations -/

inductive Op where
  | schedule (runId : RunId) (condition : Condition)
  | save (envelope : ResultEnvelope)
  | satisfyResults (runId : RunId) (stepRef : StepId)
  | fireEvent (eventKey : String)
  | dueTimers (now : Int)
  | dueJoins

def refused : Exn := .external "the database refused a value"

/-- An operation, and the entries it claims. -/
def InMemory.perform (d : Driver) (m : InMemory) : Op → InMemory × Except Exn (List Scheduled)
  | .schedule runId condition =>
      ({ m with scheduled := m.scheduled ++ [{ item := { id := m.scheduled.length, runId, condition } }] }, .ok [])
  | .save envelope => ({ m with results := (ResultStore.save m.results envelope).1 }, .ok [])
  | .satisfyResults runId stepRef =>
      let (scheduled, claimed) := satisfyResults m.results runId stepRef m.scheduled
      ({ m with scheduled }, .ok claimed.toList)
  | .fireEvent eventKey =>
      let (scheduled, claimed) := sweep (Scheduled.awaits · eventKey) m.scheduled
      ({ m with scheduled }, .ok claimed)
  | .dueTimers now =>
      let (scheduled, claimed) := dueTimers d now m.scheduled
      ({ m with scheduled }, claimed)
  | .dueJoins =>
      let (scheduled, claimed) := sweep (Scheduled.joined · m.results) m.scheduled
      ({ m with scheduled }, .ok claimed)

/-- An operation, and the rows it claims; `choice` is the row that `LIMIT 1` picks. -/
def Database.perform (d : Driver) (choice : Nat) (db : Database) : Op → Database × Except Exn (List Row)
  | .schedule runId condition => match d.wakeAt condition with
      | .error e => (db, .error e)
      | .ok wakeAt =>
          let added := row db.rows.length runId condition wakeAt
          if d.takes added then ({ db with rows := db.rows ++ [{ item := added }] }, .ok []) else (db, .error refused)
  | .save envelope =>
      if d.records envelope then ({ db with results := (ResultStore.save db.results envelope).1 }, .ok []) else (db, .error refused)
  | .satisfyResults runId stepRef =>
      if d.text runId && d.text stepRef then
        let (rows, claimed) := claimAny (Row.joins · db.results runId stepRef) choice db.rows
        ({ db with rows }, .ok claimed.toList)
      else (db, .error refused)
  | .fireEvent eventKey =>
      if d.text eventKey then
        let (rows, claimed) := sweep (Row.awaits · eventKey) db.rows
        ({ db with rows }, .ok claimed)
      else (db, .error refused)
  | .dueTimers now =>
      let (rows, claimed) := sweep (Row.due · now) db.rows
      ({ db with rows }, .ok claimed)
  | .dueJoins =>
      let (rows, claimed) := sweep (Row.joined · db.results) db.rows
      ({ db with rows }, .ok claimed)

end Maof.Wakers
