import Maof.Orchestrator.Lifecycle
import Maof.Runs.Checkpoint
import Maof.Transport.Wire

/-!
# The two result stores

In memory an envelope is kept whole; a row of `run_results` keeps neither its task
type nor its intent, so what is listed from the database has the defaults there.
-/

namespace Maof

open Data (Dict)

/-! ## Task results as JSON -/

namespace TaskResult

open Checkpoint (str? obj? list? nullable? need)

/-- `TaskResult.model_validate`, of what `model_dump` gave. -/
def validate (j : Json) : Option TaskResult := do
  let f ← obj? j
  return {
    status := ← need f "status" str?
    taskId := ← need f "task_id" str?
    output := ← need f "output" obj?
    artifacts := ← need f "artifacts" (list? str?)
    error := ← need f "error" (nullable? str?)
    idempotencyKey := ← need f "idempotency_key" (nullable? str?)
    runId := ← need f "run_id" (nullable? str?)
    stepRef := ← need f "step_ref" (nullable? str?) }

@[simp] theorem validate_dump (r : TaskResult) : validate r.dump = some r := by
  simp [validate, dump, obj?, need, Dict.get, str?]

end TaskResult

/-! ## In memory -/

namespace InMemoryResultStore

def list (rows : List ResultEnvelope) (runId : RunId) (stepRef : Option StepId) : List ResultEnvelope :=
  rows.filter fun e => e.runId = runId ∧ (stepRef = none ∨ stepRef = some e.stepRef)

/-- What a sequence of saves leaves. -/
def saved (saves : List ResultEnvelope) : List ResultEnvelope :=
  saves.foldl (fun rows e => (ResultStore.save rows e).1) []

end InMemoryResultStore

/-! ## In the database -/

/-- A row of `run_results`, in the order of their ids. -/
structure ResultRow where
  runId : RunId
  stepRef : StepId
  taskId : String
  idempotencyKey : String
  tenantId : String
  result : Json

def ResultEnvelope.row (e : ResultEnvelope) : ResultRow where
  runId := e.runId
  stepRef := e.stepRef
  taskId := e.taskId
  idempotencyKey := e.idempotencyKey
  tenantId := e.tenantId
  result := e.result.dump

/-- A row that does not validate raises. -/
def ResultRow.envelope (row : ResultRow) : Except Exn ResultEnvelope :=
  match TaskResult.validate row.result with
  | none => .error (.valueError "validation error for TaskResult")
  | some result => .ok {
      runId := row.runId
      stepRef := row.stepRef
      taskId := row.taskId
      idempotencyKey := row.idempotencyKey
      tenantId := row.tenantId
      result := result }

namespace PostgresResultStore

/-- `ON CONFLICT (idempotency_key) DO NOTHING`. -/
def save (rows : List ResultRow) (envelope : ResultEnvelope) : List ResultRow × Bool :=
  if rows.any fun row => row.idempotencyKey = envelope.idempotencyKey then (rows, false)
  else (rows ++ [envelope.row], true)

/-- `WHERE run_id = $1`, and `AND step_ref = $2` where one is given. -/
def selected (rows : List ResultRow) (runId : RunId) : Option StepId → List ResultRow
  | none => rows.filter fun row => row.runId = runId
  | some stepRef => rows.filter fun row => row.runId = runId ∧ row.stepRef = stepRef

def list (rows : List ResultRow) (runId : RunId) (stepRef : Option StepId) : Except Exn (List ResultEnvelope) :=
  (selected rows runId stepRef).mapM ResultRow.envelope

def saved (saves : List ResultEnvelope) : List ResultRow :=
  saves.foldl (fun rows e => (save rows e).1) []

end PostgresResultStore

/-! ## One against the other -/

namespace ResultEnvelope

/-- What of an envelope comes back from its row. -/
def kept (e : ResultEnvelope) : ResultEnvelope := { e with taskType := "generic_task", intentId := none }

@[simp] theorem envelope_row (e : ResultEnvelope) : e.row.envelope = .ok e.kept := by
  simp [ResultRow.envelope, row, kept]

theorem kept_eq_self {e : ResultEnvelope} : e.kept = e ↔ e.taskType = "generic_task" ∧ e.intentId = none := by
  constructor
  · intro same
    exact ⟨(congrArg taskType same).symm, (congrArg intentId same).symm⟩
  · rintro ⟨typed, intent⟩
    cases e
    cases typed
    cases intent
    rfl

end ResultEnvelope

/-- The first envelope saved under its key. -/
def FirstSaved (saves : List ResultEnvelope) (e : ResultEnvelope) : Prop :=
  saves.find? (fun e' => e'.idempotencyKey = e.idempotencyKey) = some e

section laws

variable {saves : List ResultEnvelope}

theorem save_rows (rows : List ResultEnvelope) (e : ResultEnvelope) :
    PostgresResultStore.save (rows.map ResultEnvelope.row) e =
      ((ResultStore.save rows e).1.map ResultEnvelope.row, (ResultStore.save rows e).2) := by
  have keys : (rows.map ResultEnvelope.row).any (fun row => row.idempotencyKey = e.idempotencyKey) =
      rows.any fun e' => e'.idempotencyKey = e.idempotencyKey := by
    rw [List.any_map]
    rfl
  unfold PostgresResultStore.save ResultStore.save
  rw [keys]
  split
  · rfl
  · simp

/-- The database holds the row of every envelope kept in memory. -/
theorem saved_rows (saves : List ResultEnvelope) :
    PostgresResultStore.saved saves = (InMemoryResultStore.saved saves).map ResultEnvelope.row := by
  have alike : ∀ rows : List ResultEnvelope,
      saves.foldl (fun rows e => (PostgresResultStore.save rows e).1) (rows.map ResultEnvelope.row) =
        (saves.foldl (fun rows e => (ResultStore.save rows e).1) rows).map ResultEnvelope.row := by
    induction saves with
    | nil => intro rows; rfl
    | cons e saves ih => intro rows; rw [List.foldl_cons, List.foldl_cons, save_rows, ih]
  exact alike []

theorem selected_rows (rows : List ResultEnvelope) (runId : RunId) (stepRef : Option StepId) :
    PostgresResultStore.selected (rows.map ResultEnvelope.row) runId stepRef =
      (InMemoryResultStore.list rows runId stepRef).map ResultEnvelope.row := by
  unfold InMemoryResultStore.list
  cases stepRef with
  | none =>
      rw [PostgresResultStore.selected, List.filter_map]
      congr 2
      funext e
      apply decide_eq_decide.mpr
      simp [ResultEnvelope.row]
  | some stepRef =>
      rw [PostgresResultStore.selected, List.filter_map]
      congr 2
      funext e
      apply decide_eq_decide.mpr
      simp [ResultEnvelope.row, eq_comm]

/-- A list from the database is the one from memory with what the rows kept. -/
theorem postgres_list (saves : List ResultEnvelope) (runId : RunId) (stepRef : Option StepId) :
    PostgresResultStore.list (PostgresResultStore.saved saves) runId stepRef =
      .ok ((InMemoryResultStore.list (InMemoryResultStore.saved saves) runId stepRef).map ResultEnvelope.kept) := by
  rw [PostgresResultStore.list, saved_rows, selected_rows]
  induction InMemoryResultStore.list (InMemoryResultStore.saved saves) runId stepRef with
  | nil => rfl
  | cons e es ih =>
      rw [List.map_cons, List.mapM_cons, ResultEnvelope.envelope_row, ih]
      rfl

/-- Memory holds the first envelope of every key. -/
theorem mem_saved {e : ResultEnvelope} : e ∈ InMemoryResultStore.saved saves ↔ FirstSaved saves e := by
  have holds : ∀ rows : List ResultEnvelope,
      e ∈ saves.foldl (fun rows e => (ResultStore.save rows e).1) rows ↔ e ∈ rows ∨
        (∀ e' ∈ rows, e'.idempotencyKey ≠ e.idempotencyKey) ∧ FirstSaved saves e := by
    unfold FirstSaved
    induction saves with
    | nil => intro rows; simp
    | cons first saves ih =>
        intro rows
        rw [List.foldl_cons, ih, List.find?_cons]
        unfold ResultStore.save
        split
        · next there =>
            obtain ⟨e', inside, same⟩ := List.any_eq_true.mp there
            grind
        · next absent =>
            have fresh : ∀ e' ∈ rows, e'.idempotencyKey ≠ first.idempotencyKey := by simpa using absent
            grind
  simpa [InMemoryResultStore.saved] using holds []

/-- The stores list the same exactly where every envelope that was first saved under its key has
what a row gives back. -/
theorem lists_agree_iff (saves : List ResultEnvelope) :
    (∀ runId stepRef, PostgresResultStore.list (PostgresResultStore.saved saves) runId stepRef =
      .ok (InMemoryResultStore.list (InMemoryResultStore.saved saves) runId stepRef)) ↔
    ∀ e, FirstSaved saves e → e.taskType = "generic_task" ∧ e.intentId = none := by
  have same : ∀ es : List ResultEnvelope, es.map ResultEnvelope.kept = es ↔
      ∀ e ∈ es, e.taskType = "generic_task" ∧ e.intentId = none := by
    intro es
    simp only [← ResultEnvelope.kept_eq_self]
    have pointwise := List.map_inj_left (f := ResultEnvelope.kept) (g := id) (l := es)
    rwa [List.map_id] at pointwise
  simp only [postgres_list, Except.ok.injEq, same]
  constructor
  · intro plain e first
    refine plain e.runId none e (List.mem_filter.mpr ⟨mem_saved.mpr first, ?_⟩)
    simp
  · intro plain runId stepRef e listed
    exact plain e (mem_saved.mp (List.mem_filter.mp listed).1)

end laws

end Maof
