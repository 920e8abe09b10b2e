import Maof.Data.PyValue
import Maof.Runs.Carrier
import Maof.Runs.Idempotency

/-!
# The keys of planned tasks

The publish stage derives the key of a task from its whole body. A planner may put any value
into a payload that `json.dumps` takes; after a crash the stage has the payload a checkpoint
makes of it.
-/

namespace Maof

open Data (Dict)
open JsonText (canonical)

/-- A task as a planner makes it. -/
structure RawTask where
  taskId : String
  taskType : String
  priority : Int := 5
  description : String
  intentId : Option String := none
  policyNotes : List String := []
  idempotencyKey : String
  stepRef : Option String := none
  replyTo : Option String := none
  payload : Dict String PyValue := []

structure RawPlan where
  tasks : List RawTask := []
  taskTypes : List String := []
  notes : List String := []

namespace RawTask

def withPayload (t : RawTask) (payload : Dict String Json) : Task where
  taskId := t.taskId
  taskType := t.taskType
  priority := t.priority
  description := t.description
  intentId := t.intentId
  policyNotes := t.policyNotes
  idempotencyKey := t.idempotencyKey
  stepRef := t.stepRef
  replyTo := t.replyTo
  payload := payload

/-- The payload as a value of its own. -/
def input (t : RawTask) : PyValue := .dict (t.payload.map fun kv => (.str kv.1, kv.2))

/-- As `checkpoint_serialize` writes it. -/
def written (t : RawTask) : Task := t.withPayload (t.payload.map fun kv => (kv.1, kv.2.written))

/-- As `checkpoint_deserialize` has it. -/
def reload (t : RawTask) : Task :=
  t.withPayload (Dict.update [] (t.payload.map fun kv => (kv.1, kv.2.reload)))

/-- `None`, or a string. -/
def ofStr? : Option String → PyValue
  | none => .null
  | some s => .str s

/-- `task.model_dump(exclude={"idempotency_key"})`. -/
def body (t : RawTask) : PyValue :=
  .dict [(.str "task_id", .str t.taskId), (.str "task_type", .str t.taskType), (.str "priority", .int t.priority),
    (.str "description", .str t.description), (.str "intent_id", ofStr? t.intentId),
    (.str "policy_notes", .list (t.policyNotes.map .str)), (.str "step_ref", ofStr? t.stepRef),
    (.str "reply_to", ofStr? t.replyTo), (.str "payload", t.input)]

end RawTask

def Task.raw (t : Task) : RawTask where
  taskId := t.taskId
  taskType := t.taskType
  priority := t.priority
  description := t.description
  intentId := t.intentId
  policyNotes := t.policyNotes
  idempotencyKey := t.idempotencyKey
  stepRef := t.stepRef
  replyTo := t.replyTo
  payload := t.payload.map fun kv => (kv.1, kv.2.py)

namespace RawPlan

def written (p : RawPlan) : Plan where
  tasks := p.tasks.map RawTask.written
  taskTypes := p.taskTypes
  notes := p.notes

def reload (p : RawPlan) : Plan where
  tasks := p.tasks.map RawTask.reload
  taskTypes := p.taskTypes
  notes := p.notes

end RawPlan

/-- What a body is hashed in. -/
def material (runId stepId taskType : String) (canonical : List Char) : String :=
  String.ofList (runId.toList ++ nul :: (stepId.toList ++ nul :: (taskType.toList ++ nul :: canonical)))

theorem makeIdempotencyKey_eq (sha256 : String → String) (runId stepId taskType : String) (body : Json) :
    makeIdempotencyKey sha256 runId stepId taskType body = sha256 (material runId stepId taskType (canonical body)) := rfl

/-- The key `PublishStage.execute` computes for a task, or nothing where sorting the body raises. -/
def PublishStage.key (sha256 : String → String) (runId : RunId) (t : RawTask) : Option String :=
  t.body.canonical?.map fun text => sha256 (material runId t.taskId t.taskType text)

theorem material_inj {runId stepId taskType : String} {text text' : List Char}
    (same : material runId stepId taskType text = material runId stepId taskType text') : text = text' := by
  have chars := String.ofList_injective same
  have rest := (List.cons.inj (List.append_cancel_left chars)).2
  have rest := (List.cons.inj (List.append_cancel_left rest)).2
  exact (List.cons.inj (List.append_cancel_left rest)).2

namespace RawTask

theorem ofStr?_reload (s : Option String) : (ofStr? s).reload.py = ofStr? s := by
  cases s <;> rfl

theorem ofStr?_ordered (s : Option String) : (ofStr? s).Ordered := by
  cases s with
  | none => exact .null
  | some s => exact .str s

theorem strs_reload (xs : List String) : (PyValue.list (xs.map .str)).reload.py = .list (xs.map .str) := by
  have items : ∀ xs : List String, Json.pyItems (PyValue.reloadItems (xs.map .str)) = xs.map .str := by
    intro xs
    induction xs with
    | nil => rfl
    | cons x xs ih =>
        rw [List.map_cons, PyValue.reloadItems, Json.pyItems, ih]
        rfl
  rw [PyValue.reload, Json.py, items]

theorem input_reload (t : RawTask) : t.reload.raw.input = t.input.reload.py := by
  have fields : PyValue.reloadFields (t.payload.map fun kv => (.str kv.1, kv.2)) = t.payload.map fun kv => (kv.1, kv.2.reload) := by
    rw [PyValue.reloadFields_eq, List.map_map]
    rfl
  have read : t.input.reload = .obj (Dict.update [] (t.payload.map fun kv => (kv.1, kv.2.reload))) := by
    unfold input
    rw [PyValue.reload, fields]
  rw [read, Json.py, Json.pyFields_eq]
  simp [input, reload, withPayload, Task.raw]

/-- After the crash the stage hashes the body read back of the one before. -/
theorem body_reload (t : RawTask) : t.reload.raw.body = t.body.reload.py := by
  have read : t.body.reload = .obj [("task_id", .str t.taskId), ("task_type", .str t.taskType),
      ("priority", .int t.priority), ("description", .str t.description), ("intent_id", (ofStr? t.intentId).reload),
      ("policy_notes", (PyValue.list (t.policyNotes.map .str)).reload), ("step_ref", (ofStr? t.stepRef).reload),
      ("reply_to", (ofStr? t.replyTo).reload), ("payload", t.input.reload)] := by
    unfold body
    simp [PyValue.reload, PyValue.reloadFields, PyKey.name, Dict.update, Dict.set]
  rw [read]
  simp only [Json.py, Json.pyFields, ofStr?_reload, strs_reload, ← input_reload]
  rfl

/-- Only the payload can be out of order. -/
theorem body_ordered (t : RawTask) : t.body.Ordered ↔ t.input.Ordered := by
  constructor
  · intro ordered
    cases ordered with
    | dict _ _ values => exact values (.str "payload", t.input) (by simp)
  · intro ordered
    have order : PyKey.sorted? id [.str "task_id", .str "task_type", .str "priority", .str "description",
        .str "intent_id", .str "policy_notes", .str "step_ref", .str "reply_to", .str "payload"] =
        some [.str "description", .str "intent_id", .str "payload", .str "policy_notes", .str "priority",
          .str "reply_to", .str "step_ref", .str "task_id", .str "task_type"] := by
      decide
    refine .dict order (by decide) ?_
    have notes : (PyValue.list (t.policyNotes.map .str)).Ordered := by
      refine .list fun x inside => ?_
      obtain ⟨note, -, rfl⟩ := List.mem_map.mp inside
      exact .str note
    simp [PyValue.Ordered.str, PyValue.Ordered.int, ofStr?_ordered, notes, ordered]

end RawTask

/-- The hash of a body's text is that of another body only where the texts are the same. -/
def Tells (sha256 : String → String) (runId : RunId) (t : RawTask) : Prop :=
  ∀ text, t.body.canonical? = some text →
    sha256 (material runId t.taskId t.taskType text) =
      sha256 (material runId t.taskId t.taskType (canonical t.body.reload)) →
    material runId t.taskId t.taskType text = material runId t.taskId t.taskType (canonical t.body.reload)

/-- A key is stable just where the payload is in order. -/
theorem PublishStage.key_reload {sha256 : String → String} {runId : RunId} {t : RawTask} (tells : Tells sha256 runId t) :
    key sha256 runId t = key sha256 runId t.reload.raw ↔ t.input.Ordered := by
  have after : key sha256 runId t.reload.raw =
      some (sha256 (material runId t.taskId t.taskType (canonical t.body.reload))) := by
    rw [key, RawTask.body_reload, Json.canonical?_py]
    rfl
  rw [after, ← t.body_ordered, ← PyValue.canonical?_reload, key]
  constructor
  · intro same
    obtain ⟨text, found, hashed⟩ := Option.map_eq_some_iff.mp same
    rw [found, material_inj (tells text found hashed)]
  · intro same
    rw [same, Option.map_some]

theorem RawPlan.resumed {loads : String → Except Exn Json} {sc : Carrier} {raw : RawPlan}
    (inverse : loads { sc with plan := some raw.written }.serialize = .ok { sc with plan := some raw.reload }.payload) :
    Carrier.deserialize loads { sc with plan := some raw.written }.serialize =
      .ok { sc with plan := some raw.reload, principal := none } := by
  rw [Carrier.deserialize, inverse]
  simp [bind, Except.bind, pure, Except.pure, Carrier.carrier?_payload]

/-- The keys the publish stage computes of a plan before a crash are those it computes of the plan a
checkpoint brings back just where every dictionary of a payload has names that ascend in Python's
order of its keys. -/
theorem plan_keys_stable_iff {sha256 : String → String} {loads : String → Except Exn Json} {sc : Carrier} {raw : RawPlan}
    (inverse : loads { sc with plan := some raw.written }.serialize = .ok { sc with plan := some raw.reload }.payload)
    (tells : ∀ t ∈ raw.tasks, Tells sha256 sc.runId t) :
    (∃ sc' plan, Carrier.deserialize loads { sc with plan := some raw.written }.serialize = .ok sc' ∧
      sc'.plan = some plan ∧
      raw.tasks.map (PublishStage.key sha256 sc.runId) = plan.tasks.map fun t => PublishStage.key sha256 sc'.runId t.raw) ↔
      ∀ t ∈ raw.tasks, t.input.Ordered := by
  have keys : (raw.tasks.map (PublishStage.key sha256 sc.runId) =
      raw.reload.tasks.map fun t => PublishStage.key sha256 sc.runId t.raw) ↔ ∀ t ∈ raw.tasks, t.input.Ordered := by
    rw [RawPlan.reload, List.map_map, List.map_inj_left]
    exact forall₂_congr fun t inside => PublishStage.key_reload (tells t inside)
  rw [← keys, RawPlan.resumed inverse]
  constructor
  · rintro ⟨sc', plan, found, planned, same⟩
    cases found
    cases planned
    exact same
  · intro same
    exact ⟨_, _, rfl, rfl, same⟩

/-- A plan of one task whose payload maps sizes to prices. -/
def pricing (prices : List (PyKey × PyValue)) : RawPlan where
  tasks := [{ taskId := "t1", taskType := "quote", description := "quote the sizes", idempotencyKey := "",
              payload := [("prices", .dict prices)] }]

def quoting : Carrier where
  runId := "r1"
  tenant := { tenantId := "acme" }
  goal := "quote the sizes"

/-- A payload with one key is stable. -/
theorem plan_keys_stable_single : ∃ sc' plan,
    Carrier.deserialize (fun _ => .ok { quoting with plan := some (pricing [(.int 9, .int 40)]).reload }.payload)
      { quoting with plan := some (pricing [(.int 9, .int 40)]).written }.serialize = .ok sc' ∧
    sc'.plan = some plan ∧ (pricing [(.int 9, .int 40)]).tasks.map (PublishStage.key id quoting.runId) =
      plan.tasks.map fun t => PublishStage.key id sc'.runId t.raw := by
  refine (plan_keys_stable_iff rfl fun _ _ _ _ same => same).mpr ?_
  have prices : (PyValue.dict [(.int 9, .int 40)]).Ordered :=
    @PyValue.Ordered.dict _ [.int 9] (by decide) (by decide) (List.forall_mem_singleton.mpr (.int 40))
  exact List.forall_mem_singleton.mpr
    (@PyValue.Ordered.dict _ [.str "prices"] (by decide) (by decide) (List.forall_mem_singleton.mpr prices))

/-- The sizes 9 and 10 are sorted as numbers before a crash and as texts after it. -/
theorem sizes_reordered : ¬ ∀ (sha256 : String → String) (loads : String → Except Exn Json) (sc : Carrier) (raw : RawPlan),
    loads { sc with plan := some raw.written }.serialize = .ok { sc with plan := some raw.reload }.payload →
    ∃ sc' plan, Carrier.deserialize loads { sc with plan := some raw.written }.serialize = .ok sc' ∧
      sc'.plan = some plan ∧
      raw.tasks.map (PublishStage.key sha256 sc.runId) =
        plan.tasks.map fun t => PublishStage.key sha256 sc'.runId t.raw := by
  intro stable
  let raw := pricing [(.int 9, .int 40), (.int 10, .int 50)]
  obtain ⟨sc', plan, found, planned, same⟩ :=
    stable id (fun _ => .ok { quoting with plan := some raw.reload }.payload) quoting raw rfl
  rw [RawPlan.resumed rfl] at found
  cases found
  cases planned
  have key := (List.cons.inj same).1
  have ordered := (PublishStage.key_reload fun _ _ same => same).mp key
  cases ordered with
  | dict _ _ values =>
      have prices : (PyValue.dict [(.int 9, .int 40), (.int 10, .int 50)]).Ordered := values (.str "prices", _) List.mem_cons_self
      cases prices with
      | dict order ascend _ =>
          have sorted : PyKey.sorted? id [.int 9, .int 10] = some [.int 9, .int 10] := by decide
          cases order.symm.trans sorted
          exact absurd ascend (by decide)

end Maof
