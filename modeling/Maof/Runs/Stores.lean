import Maof.Data.Conversation
import Maof.Orchestrator.System
import Maof.Policy.Actions
import Maof.Runs.Trace

/-!
# The two run stores

A client creates runs and goes on about them by the ids it was given. In memory the ids are
counted and every run has its own list of trace entries; in the database they are drawn, and the
entries of all runs are rows of one table. The database takes values and gives them back as they were.
-/

namespace Maof

open Data (Dict Service)

/-- `RunState` with its id and the rest of its columns. -/
structure RunRecord extends RunState where
  runId : RunId
  currentStep : Option String := none
  updatedAt : Int

/-- What the environment gives to a call. -/
structure Drawing where
  now : Int
  uuid : RunId

structure RunStore (σ : Type) where
  create : Drawing → σ → TenantContext → String → σ × Except Exn RunId
  appendTrace : Drawing → σ → RunId → TraceEntry → (ts : Int) → σ × Except Exn Unit
  readTrace : σ → RunId → (since : Option String) → Except Exn (List TraceRow)
  getState : σ → RunId → Except Exn RunRecord
  requestCancel : Drawing → σ → RunId → σ × Except Exn Unit
  setState : Drawing → σ → RunId → Option RunStatus → (currentStep : Option String) → σ × Except Exn Unit

/-! ## In memory -/

structure InMemoryRunStore where
  runs : Dict RunId RunRecord := []
  traces : Dict RunId (List TraceRow) := []
  seq : Nat := 0

namespace InMemoryRunStore

def idOf (n : Nat) : RunId := "run-" ++ toString n

def create (t : Drawing) (s : InMemoryRunStore) (tenant : TenantContext) (goal : String) : InMemoryRunStore × Except Exn RunId :=
  let runId := idOf (s.seq + 1)
  ({ runs := Dict.set s.runs runId { tenantId := tenant.tenantId, goal, runId, updatedAt := t.now }
     traces := Dict.set s.traces runId []
     seq := s.seq + 1 }, .ok runId)

def bucket (s : InMemoryRunStore) (runId : RunId) : List TraceRow := (Dict.get s.traces runId).getD []

/-- The entry keeps the time its writer gave it. -/
def appendTrace (_ : Drawing) (s : InMemoryRunStore) (runId : RunId) (entry : TraceEntry) (ts : Int) :
    InMemoryRunStore × Except Exn Unit :=
  let stamped : TraceRow := { runId, seq := (s.bucket runId).length + 1, entry, ts }
  ({ s with traces := Dict.set s.traces runId (s.bucket runId ++ [stamped]) }, .ok ())

def readTrace (p : Platform) (s : InMemoryRunStore) (runId : RunId) : Option String → Except Exn (List TraceRow)
  | none => .ok (s.bucket runId)
  | some since => do
      let cutoff ← PolicyAction.int p (.str since)
      return (s.bucket runId).filter fun e => cutoff < e.seq

def getState (s : InMemoryRunStore) (runId : RunId) : Except Exn RunRecord :=
  match Dict.get s.runs runId with
  | some state => .ok state
  | none => .error (.keyError ("run not found: " ++ runId))

/-- The record under the id is replaced; `updated_at` stays as it was. -/
def replace (s : InMemoryRunStore) (runId : RunId) (f : RunRecord → RunRecord) : InMemoryRunStore × Except Exn Unit :=
  match Dict.get s.runs runId with
  | some state => ({ s with runs := Dict.set s.runs runId (f state) }, .ok ())
  | none => (s, .error (.keyError runId))

def requestCancel (_ : Drawing) (s : InMemoryRunStore) (runId : RunId) : InMemoryRunStore × Except Exn Unit :=
  s.replace runId fun state => { state with cancelRequested := true }

def setState (_ : Drawing) (s : InMemoryRunStore) (runId : RunId) (status : Option RunStatus) (currentStep : Option String) :
    InMemoryRunStore × Except Exn Unit :=
  s.replace runId fun state => { state with
    status := status.getD state.status
    currentStep := currentStep.orElse fun _ => state.currentStep }

def store (p : Platform) : RunStore InMemoryRunStore :=
  { create, appendTrace, readTrace := readTrace p, getState, requestCancel, setState }

end InMemoryRunStore

/-! ## In the database -/

/-- The tables `runs` and `run_trace`. -/
structure PostgresRunStore where
  runs : List RunRecord := []
  trace : List TraceRow := []

namespace PostgresRunStore

/-- `INSERT INTO runs … RETURNING run_id`, under a drawn primary key. -/
def create (t : Drawing) (s : PostgresRunStore) (tenant : TenantContext) (goal : String) : PostgresRunStore × Except Exn RunId :=
  if s.runs.any fun row => row.runId = t.uuid then (s, .error (.external "duplicate key value"))
  else ({ s with runs := s.runs ++ [{ tenantId := tenant.tenantId, goal, runId := t.uuid, updatedAt := t.now }] }, .ok t.uuid)

/-- The number is taken under the run's lock; the time is the database's. -/
def appendTrace (t : Drawing) (s : PostgresRunStore) (runId : RunId) (entry : TraceEntry) (_ : Int) :
    PostgresRunStore × Except Exn Unit :=
  ({ s with trace := s.trace ++ [{ runId, seq := RunTrace.nextSeq s.trace runId, entry, ts := t.now }] }, .ok ())

/-- What fits the parameter of a `BIGINT` comparison. -/
def int8 (n : Int) : Bool := decide (-2 ^ 63 ≤ n ∧ n < 2 ^ 63)

def select (s : PostgresRunStore) (runId : RunId) (above : Option Int) : List TraceRow :=
  (s.trace.filter fun row => row.runId = runId && above.all fun n => n < (row.seq : Int)).insertionSort fun a b => a.seq ≤ b.seq

def readTrace (p : Platform) (s : PostgresRunStore) (runId : RunId) : Option String → Except Exn (List TraceRow)
  | none => .ok (s.select runId none)
  | some since => do
      let cutoff ← PolicyAction.int p (.str since)
      if int8 cutoff then return s.select runId (some cutoff)
      else .error (.external "value out of int64 range")

def getState (s : PostgresRunStore) (runId : RunId) : Except Exn RunRecord :=
  match s.runs.find? fun row => row.runId = runId with
  | some row => .ok row
  | none => .error (.keyError ("run not found: " ++ runId))

/-- `UPDATE runs SET … , updated_at = now() WHERE run_id = $1`. -/
def update (t : Drawing) (s : PostgresRunStore) (runId : RunId) (f : RunRecord → RunRecord) : PostgresRunStore × Except Exn Unit :=
  ({ s with runs := s.runs.map fun row => if row.runId = runId then { f row with updatedAt := t.now } else row }, .ok ())

def requestCancel (t : Drawing) (s : PostgresRunStore) (runId : RunId) : PostgresRunStore × Except Exn Unit :=
  s.update t runId fun row => { row with cancelRequested := true }

/-- `COALESCE($2, status)`, `COALESCE($3, current_step)`. -/
def setState (t : Drawing) (s : PostgresRunStore) (runId : RunId) (status : Option RunStatus) (currentStep : Option String) :
    PostgresRunStore × Except Exn Unit :=
  s.update t runId fun row => { row with
    status := status.getD row.status
    currentStep := currentStep.orElse fun _ => row.currentStep }

def store (p : Platform) : RunStore PostgresRunStore :=
  { create, appendTrace, readTrace := readTrace p, getState, requestCancel, setState }

end PostgresRunStore

/-! ## A client's conversation -/

/-- The calls of a client, about runs in the order it created them. -/
inductive RunCall where
  | create (tenant : TenantContext) (goal : String)
  | appendTrace (run : Nat) (entry : TraceEntry) (ts : Int)
  | readTrace (run : Nat) (since : Option String)
  | getState (run : Nat)
  | requestCancel (run : Nat)
  | setState (run : Nat) (status : Option RunStatus) (currentStep : Option String)

inductive RunAnswer where
  | created
  | done
  | trace (rows : List TraceRow)
  | state (record : RunRecord)

/-- A run that was created is called about by its id, and the answer is about that id. -/
def RunStore.about {σ : Type} (x : σ × List RunId) (run : Nat) (call : RunId → σ × Except Exn RunAnswer) :
    (σ × List RunId) × Option (Except Exn (RunId × RunAnswer)) :=
  match x.2[run]? with
  | none => (x, none)
  | some runId => (((call runId).1, x.2), some ((call runId).2.map fun a => (runId, a)))

/-- The client keeps the ids it was given. -/
def RunStore.session {σ : Type} (store : RunStore σ) (turns : Nat → Drawing) :
    Service RunCall (Option (Except Exn (RunId × RunAnswer))) (σ × List RunId) where
  answer turn x
    | .create tenant goal =>
        match store.create (turns turn) x.1 tenant goal with
        | (s, .ok runId) => ((s, x.2 ++ [runId]), some (.ok (runId, .created)))
        | (s, .error e) => ((s, x.2), some (.error e))
    | .appendTrace run entry ts => about x run fun runId =>
        let out := store.appendTrace (turns turn) x.1 runId entry ts
        (out.1, out.2.map fun _ => .done)
    | .readTrace run since => about x run fun runId => (x.1, (store.readTrace x.1 runId since).map .trace)
    | .getState run => about x run fun runId => (x.1, (store.getState x.1 runId).map .state)
    | .requestCancel run => about x run fun runId =>
        let out := store.requestCancel (turns turn) x.1 runId
        (out.1, out.2.map fun _ => .done)
    | .setState run status currentStep => about x run fun runId =>
        let out := store.setState (turns turn) x.1 runId status currentStep
        (out.1, out.2.map fun _ => .done)

/-- What an answer says beside the id it is about and the time. -/
inductive RunView where
  | created
  | done
  | trace (entries : List (TraceEntry × Nat))
  | state (state : RunState) (currentStep : Option String)
  /-- The answer is about another run. -/
  | foreign

def RunAnswer.view (runId : RunId) : RunAnswer → RunView
  | .created => .created
  | .done => .done
  | .trace rows => if rows.all fun row => row.runId = runId then .trace (rows.map fun row => (row.entry, row.seq)) else .foreign
  | .state record => if record.runId = runId then .state record.toRunState record.currentStep else .foreign

def RunAnswer.seen (answer : Option (Except Exn (RunId × RunAnswer))) : Option (Except Exn RunView) :=
  answer.map fun reply => reply.map fun a => a.2.view a.1

/-! ## What a run store is for -/

/-- A run as anybody who asks about it sees it. -/
structure BookedRun extends RunState where
  currentStep : Option String := none
  trace : List TraceEntry := []

/-- The runs in the order of their creation. -/
abbrev RunBook : Type := List BookedRun

namespace RunBook

variable (p : Platform) (fits : Int → Bool)

/-- The number a read starts above. -/
def cutoff : Option String → Except Exn (Option Int)
  | none => .ok none
  | some since => do
      let n ← PolicyAction.int p (.str since)
      if fits n then return some n else .error (.external "value out of int64 range")

/-- The entries with their numbers, from one on. -/
def entries (run : BookedRun) (above : Option Int) : List (TraceEntry × Nat) :=
  (run.trace.zipIdx 1).filter fun e => above.all fun n => n < (e.2 : Int)

def about (book : RunBook) (run : Nat) (call : BookedRun → BookedRun × Except Exn RunView) :
    RunBook × Option (Except Exn RunView) :=
  match book[run]? with
  | none => (book, none)
  | some r => (book.set run (call r).1, some (call r).2)

def service : Service RunCall (Option (Except Exn RunView)) RunBook where
  answer _ book
    | .create tenant goal => (book ++ [{ tenantId := tenant.tenantId, goal }], some (.ok .created))
    | .appendTrace run entry _ => about book run fun r => ({ r with trace := r.trace ++ [entry] }, .ok .done)
    | .readTrace run since => about book run fun r => (r, (cutoff p fits since).map fun above => .trace (entries r above))
    | .getState run => about book run fun r => (r, .ok (.state r.toRunState r.currentStep))
    | .requestCancel run => about book run fun r => ({ r with cancelRequested := true }, .ok .done)
    | .setState run status currentStep => about book run fun r => ({ r with
        status := status.getD r.status
        currentStep := currentStep.orElse fun _ => r.currentStep }, .ok .done)

end RunBook

/-! ## Stores that show the book -/

/-- Under the id there are the record and the rows of the run. -/
structure Shown (record : Option RunRecord) (rows : List TraceRow) (runId : RunId) (run : BookedRun) : Prop where
  state : ∃ r, record = some r ∧ r.runId = runId ∧ r.toRunState = run.toRunState ∧ r.currentStep = run.currentStep
  numbered : rows.map (fun row => (row.entry, row.seq)) = run.trace.zipIdx 1
  mine : ∀ row ∈ rows, row.runId = runId

/-- Every run of the book is shown under the id it was created with. -/
structure Exhibits (record : RunId → Option RunRecord) (rows : RunId → List TraceRow) (ids : List RunId) (book : RunBook) : Prop where
  length : ids.length = book.length
  distinct : ids.Nodup
  shown : ∀ {i : Nat} {runId run}, ids[i]? = some runId → book[i]? = some run → Shown (record runId) (rows runId) runId run

namespace Exhibits

variable {record record' : RunId → Option RunRecord} {rows rows' : RunId → List TraceRow} {ids : List RunId} {book : RunBook}

theorem nil : Exhibits record rows [] [] := ⟨rfl, List.nodup_nil, fun none _ => by cases none⟩

/-- A run is known to both or to neither. -/
theorem both (shows_ : Exhibits record rows ids book) (i : Nat) : (ids[i]? = none ∧ book[i]? = none) ∨
    ∃ runId run, ids[i]? = some runId ∧ book[i]? = some run ∧ Shown (record runId) (rows runId) runId run := by
  cases named : ids[i]? with
  | none =>
      rw [List.getElem?_eq_none_iff] at named
      exact .inl ⟨rfl, List.getElem?_eq_none_iff.mpr (shows_.length ▸ named)⟩
  | some runId =>
      obtain ⟨inside, _⟩ := List.getElem?_eq_some_iff.mp named
      have within : i < book.length := shows_.length ▸ inside
      have booked : book[i]? = some book[i] := List.getElem?_eq_getElem within
      exact .inr ⟨runId, book[i], rfl, booked, shows_.shown named booked⟩

theorem set (shows_ : Exhibits record rows ids book) {i : Nat} {runId : RunId} {run : BookedRun} (named : ids[i]? = some runId)
    (mine : Shown (record' runId) (rows' runId) runId run)
    (others : ∀ other, other ≠ runId → record' other = record other ∧ rows' other = rows other) :
    Exhibits record' rows' ids (book.set i run) := by
  refine ⟨by rw [List.length_set]; exact shows_.length, shows_.distinct, ?_⟩
  intro j other run' there booked
  by_cases same : i = j
  · subst same
    rw [named] at there
    cases there
    obtain ⟨inside, _⟩ := List.getElem?_eq_some_iff.mp named
    have within : i < book.length := shows_.length ▸ inside
    rw [List.getElem?_set_self within] at booked
    cases booked
    exact mine
  · have different : other ≠ runId := by
      rintro rfl
      obtain ⟨inside, _⟩ := List.getElem?_eq_some_iff.mp named
      exact same ((List.getElem?_inj inside shows_.distinct).mp (named.trans there.symm))
    rw [List.getElem?_set_ne same] at booked
    rw [(others other different).1, (others other different).2]
    exact shows_.shown there booked

theorem snoc (shows_ : Exhibits record rows ids book) {runId : RunId} {run : BookedRun} (fresh : runId ∉ ids)
    (mine : Shown (record' runId) (rows' runId) runId run)
    (others : ∀ other, other ≠ runId → record' other = record other ∧ rows' other = rows other) :
    Exhibits record' rows' (ids ++ [runId]) (book ++ [run]) := by
  refine ⟨by rw [List.length_append, List.length_append, shows_.length]; rfl, ?_, ?_⟩
  · rw [List.nodup_append]
    refine ⟨shows_.distinct, List.nodup_singleton _, ?_⟩
    rintro a member _ (last : _) rfl
    rw [List.mem_singleton.mp last] at member
    exact fresh member
  · intro j other run' there booked
    by_cases old : j < ids.length
    · rw [List.getElem?_append_left old] at there
      rw [List.getElem?_append_left (shows_.length ▸ old)] at booked
      have different : other ≠ runId := by
        rintro rfl
        exact fresh (List.mem_of_getElem? there)
      rw [(others other different).1, (others other different).2]
      exact shows_.shown there booked
    · rw [List.getElem?_append_right (Nat.le_of_not_lt old)] at there
      rw [List.getElem?_append_right (shows_.length ▸ Nat.le_of_not_lt old), ← shows_.length] at booked
      cases last : j - ids.length with
      | zero =>
          rw [last] at there booked
          cases there
          cases booked
          exact mine
      | succ n =>
          rw [last] at there
          cases there

end Exhibits

/-- The entry that is next in number. -/
theorem Shown.append {record : Option RunRecord} {rows : List TraceRow} {runId : RunId} {run : BookedRun}
    (shown : Shown record rows runId run) (entry : TraceEntry) (ts : Int) :
    Shown record (rows ++ [{ runId, seq := run.trace.length + 1, entry, ts }]) runId { run with trace := run.trace ++ [entry] } := by
  refine ⟨shown.state, ?_, fun row member => ?_⟩
  · rw [List.map_append, shown.numbered, List.zipIdx_append]
    simp [Nat.add_comm]
  · rcases List.mem_append.mp member with old | new
    · exact shown.mine row old
    · rw [List.mem_singleton.mp new]

theorem Shown.length {record : Option RunRecord} {rows : List TraceRow} {runId : RunId} {run : BookedRun}
    (shown : Shown record rows runId run) : rows.length = run.trace.length := by
  have lengths := congrArg List.length shown.numbered
  rwa [List.length_map, List.length_zipIdx] at lengths

/-- What is read of the rows is what the book has above the number. -/
theorem Shown.view_trace {record : Option RunRecord} {rows : List TraceRow} {runId : RunId} {run : BookedRun}
    (shown : Shown record rows runId run) (above : Option Int) :
    RunAnswer.view runId (.trace (rows.filter fun row => above.all fun n => n < (row.seq : Int))) = .trace (RunBook.entries run above) := by
  have mine : (rows.filter fun row => above.all fun n => n < (row.seq : Int)).all (fun row => row.runId = runId) = true := by
    rw [List.all_eq_true]
    intro row member
    exact decide_eq_true (shown.mine row (List.mem_filter.mp member).1)
  rw [RunAnswer.view, if_pos mine, RunBook.entries, ← shown.numbered, List.filter_map]
  rfl

theorem Shown.view_state {rows : List TraceRow} {runId : RunId} {run : BookedRun} {r : RunRecord}
    (shown : Shown (some r) rows runId run) : RunAnswer.view runId (.state r) = .state run.toRunState run.currentStep := by
  obtain ⟨_, ⟨⟩, mine, same, step⟩ := shown.state
  rw [RunAnswer.view, if_pos mine, same, step]

/-! ## A call about one run -/

section about

variable {σ : Type} {record : RunId → Option RunRecord} {rows : RunId → List TraceRow} {book : RunBook}
  {x : σ × List RunId} {i : Nat} {call : RunId → σ × Except Exn RunAnswer} {f : BookedRun → BookedRun × Except Exn RunView}

theorem about_keeps {R : RunBook → σ × List RunId → Prop} (shows_ : Exhibits record rows x.2 book) (holds : R book x)
    (known : ∀ {runId run}, x.2[i]? = some runId → Shown (record runId) (rows runId) runId run →
      R (book.set i (f run).1) ((call runId).1, x.2)) :
    R (RunBook.about book i f).1 (RunStore.about x i call).1 := by
  unfold RunBook.about RunStore.about
  rcases shows_.both i with ⟨unnamed, unbooked⟩ | ⟨runId, run, named, booked, shown⟩
  · rw [unnamed, unbooked]
    exact holds
  · rw [booked, named]
    exact known named shown

theorem about_seen (shows_ : Exhibits record rows x.2 book)
    (known : ∀ {runId run}, Shown (record runId) (rows runId) runId run → (call runId).2.map (RunAnswer.view runId) = (f run).2) :
    RunAnswer.seen (RunStore.about x i call).2 = (RunBook.about book i f).2 := by
  unfold RunBook.about RunStore.about
  rcases shows_.both i with ⟨unnamed, unbooked⟩ | ⟨runId, run, named, booked, shown⟩
  · rw [unnamed, unbooked]
    rfl
  · rw [booked, named]
    simp only [RunAnswer.seen, Option.map_some, ← known shown]
    cases (call runId).2 <;> rfl

end about

namespace InMemoryRunStore

theorem idOf_inj {m n : Nat} (same : idOf m = idOf n) : m = n := by
  have digits : ∀ k : Nat, (toString k).toList = Nat.toDigits 10 k := by
    intro k
    change (Nat.repr k).toList = _
    rw [Nat.repr, String.toList_ofList]
  have chars := congrArg String.toList same
  simp only [idOf, String.toList_append] at chars
  have spelled := List.append_cancel_left chars
  rw [digits, digits] at spelled
  have read := congrArg (fun cs => Nat.ofDigitChars 10 cs 0) spelled
  rwa [Nat.ofDigitChars_toDigits (by decide) (by decide), Nat.ofDigitChars_toDigits (by decide) (by decide)] at read

/-- The store shows the book, and has counted its runs. -/
structure Holds (book : RunBook) (x : InMemoryRunStore × List RunId) : Prop where
  shows_ : Exhibits (Dict.get x.1.runs) x.1.bucket x.2 book
  counted : ∀ runId ∈ x.2, ∃ n ≤ x.1.seq, runId = idOf n

variable {p : Platform} {turns : Nat → Drawing} {turn : Nat} {book : RunBook} {x : InMemoryRunStore × List RunId}

theorem bucket_set {s : InMemoryRunStore} {runId other : RunId} {rows : List TraceRow} :
    ({ s with traces := Dict.set s.traces runId rows } : InMemoryRunStore).bucket other =
      if runId = other then rows else s.bucket other := by
  unfold bucket
  rw [Dict.get_set]
  split <;> rfl

theorem Holds.create (holds : Holds book x) (t : Drawing) (tenant : TenantContext) (goal : String) :
    Holds (book ++ [{ tenantId := tenant.tenantId, goal }])
      ((InMemoryRunStore.create t x.1 tenant goal).1, x.2 ++ [idOf (x.1.seq + 1)]) := by
  have fresh : idOf (x.1.seq + 1) ∉ x.2 := by
    intro member
    obtain ⟨n, below, same⟩ := holds.counted _ member
    have := idOf_inj same
    omega
  have empty : (InMemoryRunStore.create t x.1 tenant goal).1.bucket (idOf (x.1.seq + 1)) = [] := by
    rw [InMemoryRunStore.create, bucket, Dict.get_set_self]
    rfl
  refine ⟨holds.shows_.snoc fresh ⟨⟨_, Dict.get_set_self _ _ _, rfl, rfl, rfl⟩, ?_, ?_⟩ ?_, ?_⟩
  · rw [empty]
    rfl
  · rw [empty]
    exact fun _ none => (List.not_mem_nil none).elim
  · intro other different
    simp only [InMemoryRunStore.create, bucket, Dict.get_set_ne _ _ different.symm, and_self]
  · intro runId member
    rcases List.mem_append.mp member with old | new
    · obtain ⟨n, below, same⟩ := holds.counted runId old
      exact ⟨n, Nat.le_succ_of_le below, same⟩
    · exact ⟨x.1.seq + 1, Nat.le_refl _, List.mem_singleton.mp new⟩

theorem Holds.replace (holds : Holds book x) {i : Nat} {runId : RunId} {run : BookedRun} (named : x.2[i]? = some runId)
    (shown : Shown (Dict.get x.1.runs runId) (x.1.bucket runId) runId run) (f : RunRecord → RunRecord) (run' : BookedRun)
    (traced : run'.trace = run.trace) (does : ∀ r : RunRecord, r.toRunState = run.toRunState → r.currentStep = run.currentStep →
      (f r).runId = r.runId ∧ (f r).toRunState = run'.toRunState ∧ (f r).currentStep = run'.currentStep) :
    Holds (book.set i run') ((x.1.replace runId f).1, x.2) ∧ (x.1.replace runId f).2 = .ok () := by
  obtain ⟨r, kept, mine, state, step⟩ := shown.state
  obtain ⟨same, state', step'⟩ := does r state step
  simp only [InMemoryRunStore.replace, kept]
  refine ⟨⟨holds.shows_.set named ⟨⟨f r, Dict.get_set_self _ _ _, same.trans mine, state', step'⟩, ?_, shown.mine⟩ ?_,
    holds.counted⟩, trivial⟩
  · rw [traced]
    exact shown.numbered
  · intro other different
    exact ⟨Dict.get_set_ne _ _ different.symm, rfl⟩

/-- What is kept in memory is the book. -/
theorem refines (p : Platform) (turns : Nat → Drawing) : ((store p).session turns).Refines
    (RunBook.service p fun _ => true) (fun _ => Holds) RunAnswer.seen where
  keeps := by
    intro turn book x c holds
    cases c with
    | create tenant goal => exact holds.create (turns turn) tenant goal
    | appendTrace run entry ts =>
        refine about_keeps holds.shows_ holds fun {runId r} named shown => ⟨holds.shows_.set named ?_ ?_, holds.counted⟩
        · have appended := shown.append entry ts
          rw [← shown.length] at appended
          simp only [store, InMemoryRunStore.appendTrace, bucket_set, if_pos]
          exact appended
        · intro other different
          simp only [store, InMemoryRunStore.appendTrace, bucket_set, if_neg different.symm, and_self]
    | readTrace run since =>
        refine about_keeps holds.shows_ holds fun {runId r} named shown => ⟨holds.shows_.set named shown ?_, holds.counted⟩
        exact fun _ _ => ⟨rfl, rfl⟩
    | getState run =>
        refine about_keeps holds.shows_ holds fun {runId r} named shown => ⟨holds.shows_.set named shown ?_, holds.counted⟩
        exact fun _ _ => ⟨rfl, rfl⟩
    | requestCancel run =>
        refine about_keeps holds.shows_ holds fun {runId r} named shown => (holds.replace named shown
          (fun state => { state with cancelRequested := true }) { r with cancelRequested := true } rfl ?_).1
        rintro ⟨state, _, _, _⟩ (rfl : state = _) step
        exact ⟨rfl, rfl, step⟩
    | setState run status currentStep =>
        refine about_keeps holds.shows_ holds fun {runId r} named shown => (holds.replace named shown
          (fun state => { state with status := status.getD state.status, currentStep := currentStep.orElse fun _ => state.currentStep })
          { r with status := status.getD r.status, currentStep := currentStep.orElse fun _ => r.currentStep } rfl ?_).1
        rintro ⟨state, _, _, _⟩ (rfl : state = _) (rfl : _ = _)
        exact ⟨rfl, rfl, rfl⟩
  answers := by
    intro turn book x c holds
    cases c with
    | create tenant goal => rfl
    | appendTrace run entry ts => exact about_seen holds.shows_ fun _ => rfl
    | readTrace run since =>
        refine about_seen holds.shows_ fun {runId r} shown => ?_
        have views := shown.view_trace
        cases since with
        | none =>
            have all := views none
            simp only [Option.all_none, List.filter_true] at all
            exact congrArg Except.ok all
        | some since =>
            simp only [store, readTrace, RunBook.cutoff]
            cases PolicyAction.int p (.str since) with
            | error e => rfl
            | ok n => exact congrArg Except.ok (views (some n))
    | getState run =>
        refine about_seen holds.shows_ fun {runId r} shown => ?_
        obtain ⟨record, kept, _⟩ := shown.state
        rw [kept] at shown
        simp only [store, getState, kept]
        exact congrArg Except.ok shown.view_state
    | requestCancel run =>
        refine about_seen holds.shows_ fun {runId r} shown => ?_
        obtain ⟨record, kept, _⟩ := shown.state
        simp only [store, requestCancel, replace, kept]
        rfl
    | setState run status currentStep =>
        refine about_seen holds.shows_ fun {runId r} shown => ?_
        obtain ⟨record, kept, _⟩ := shown.state
        simp only [store, setState, replace, kept]
        rfl

end InMemoryRunStore

namespace PostgresRunStore

/-- The row of `runs` under the primary key. -/
def row (s : PostgresRunStore) (runId : RunId) : Option RunRecord := s.runs.find? fun row => row.runId = runId

/-- The rows of `run_trace` of the run. -/
def rowsOf (s : PostgresRunStore) (runId : RunId) : List TraceRow := s.trace.filter fun row => row.runId = runId

/-- The tables show the book, and have rows only of runs that were created. -/
structure Holds (turns : Nat → Drawing) (turn : Nat) (book : RunBook) (x : PostgresRunStore × List RunId) : Prop where
  shows_ : Exhibits x.1.row x.1.rowsOf x.2 book
  drawn : ∀ runId ∈ x.2, ∃ earlier < turn, runId = (turns earlier).uuid
  runs : ∀ row ∈ x.1.runs, row.runId ∈ x.2
  trace : ∀ row ∈ x.1.trace, row.runId ∈ x.2

variable {p : Platform} {turns : Nat → Drawing} {turn : Nat} {book : RunBook} {x : PostgresRunStore × List RunId}

theorem Holds.later (holds : Holds turns turn book x) : Holds turns (turn + 1) book x where
  shows_ := holds.shows_
  drawn runId member := by
    obtain ⟨earlier, before, same⟩ := holds.drawn runId member
    exact ⟨earlier, Nat.lt_succ_of_lt before, same⟩
  runs := holds.runs
  trace := holds.trace

/-- Numbered from one on, the rows are in the order of their numbers, and the next number is one more than they are. -/
theorem numbers_of_shown {record : Option RunRecord} {rows : List TraceRow} {runId : RunId} {run : BookedRun}
    (shown : Shown record rows runId run) : rows.map TraceRow.seq = List.range' 1 run.trace.length := by
  have numbers := congrArg (List.map Prod.snd) shown.numbered
  rw [List.map_map, List.zipIdx_map_snd] at numbers
  exact numbers

theorem select_shown {s : PostgresRunStore} {record : Option RunRecord} {runId : RunId} {run : BookedRun}
    (shown : Shown record (s.rowsOf runId) runId run) (above : Option Int) :
    s.select runId above = (s.rowsOf runId).filter fun row => above.all fun n => n < (row.seq : Int) := by
  have ascending : (s.rowsOf runId).Pairwise fun a b => a.seq ≤ b.seq := by
    rw [← List.pairwise_map (f := TraceRow.seq) (R := fun a b => a ≤ b), numbers_of_shown shown]
    exact List.pairwise_le_range' 1
  have split : (s.trace.filter fun row => row.runId = runId && above.all fun n => n < (row.seq : Int)) =
      (s.rowsOf runId).filter fun row => above.all fun n => n < (row.seq : Int) := by
    rw [rowsOf, List.filter_filter]
    refine List.filter_congr fun row _ => ?_
    rw [Bool.and_comm]
  rw [select, split, (ascending.sublist List.filter_sublist).insertionSort_eq]

theorem nextSeq_shown {s : PostgresRunStore} {record : Option RunRecord} {runId : RunId} {run : BookedRun}
    (shown : Shown record (s.rowsOf runId) runId run) : RunTrace.nextSeq s.trace runId = run.trace.length + 1 := by
  have numbers := numbers_of_shown shown
  have least : 0 < RunTrace.nextSeq s.trace runId := Nat.succ_pos _
  have bounded : ¬ run.trace.length + 1 < RunTrace.nextSeq s.trace runId := by
    rw [RunTrace.lt_nextSeq (Nat.succ_pos _)]
    rintro ⟨row, member, mine, reaches⟩
    have inside : row.seq ∈ (s.rowsOf runId).map TraceRow.seq :=
      List.mem_map_of_mem (List.mem_filter.mpr ⟨member, decide_eq_true mine⟩)
    rw [numbers, List.mem_range'_1] at inside
    omega
  cases length : run.trace.length with
  | zero => omega
  | succ n =>
      have reached : n + 1 < RunTrace.nextSeq s.trace runId := by
        rw [RunTrace.lt_nextSeq (Nat.succ_pos _)]
        have inside : n + 1 ∈ (s.rowsOf runId).map TraceRow.seq := by
          rw [numbers, List.mem_range'_1]
          omega
        obtain ⟨row, member, same⟩ := List.mem_map.mp inside
        obtain ⟨there, mine⟩ := List.mem_filter.mp member
        exact ⟨row, there, of_decide_eq_true mine, Nat.le_of_eq same.symm⟩
      omega

theorem Holds.create (holds : Holds turns turn book x) (drawn : Function.Injective fun t => (turns t).uuid)
    (tenant : TenantContext) (goal : String) : ∃ s, PostgresRunStore.create (turns turn) x.1 tenant goal = (s, .ok (turns turn).uuid) ∧
      Holds turns (turn + 1) (book ++ [{ tenantId := tenant.tenantId, goal }]) (s, x.2 ++ [(turns turn).uuid]) := by
  have fresh : (turns turn).uuid ∉ x.2 := by
    intro member
    obtain ⟨earlier, before, same⟩ := holds.drawn _ member
    have := drawn same
    omega
  have absent : (x.1.runs.any fun row => row.runId = (turns turn).uuid) = false := by
    rw [List.any_eq_false]
    intro row member
    rw [decide_eq_true_eq]
    rintro same
    exact fresh (same ▸ holds.runs row member)
  have unkept : x.1.runs.find? (fun row => row.runId = (turns turn).uuid) = none := by
    rw [List.find?_eq_none]
    intro row member
    rw [decide_eq_true_eq]
    rintro same
    exact fresh (same ▸ holds.runs row member)
  have untraced : x.1.rowsOf (turns turn).uuid = [] := by
    rw [rowsOf, List.filter_eq_nil_iff]
    intro row member
    rw [decide_eq_true_eq]
    rintro same
    exact fresh (same ▸ holds.trace row member)
  let created : RunRecord := { tenantId := tenant.tenantId, goal, runId := (turns turn).uuid, updatedAt := (turns turn).now }
  refine ⟨{ x.1 with runs := x.1.runs ++ [created] }, ?_, ?_, ?_, ?_, ?_⟩
  · rw [PostgresRunStore.create, absent]
    rfl
  · refine holds.shows_.snoc fresh ⟨⟨created, ?_, rfl, rfl, rfl⟩, ?_, ?_⟩ ?_
    · rw [row, List.find?_append, unkept, Option.none_or]
      exact List.find?_cons_of_pos (decide_eq_true rfl)
    · exact (congrArg (List.map _) untraced).trans rfl
    · intro row member
      exact absurd (untraced ▸ member : row ∈ []) List.not_mem_nil
    · intro other different
      refine ⟨?_, rfl⟩
      rw [row, List.find?_append, List.find?_cons_of_neg (by simpa using different.symm), List.find?_nil, Option.or_none]
      rfl
  · intro runId member
    rcases List.mem_append.mp member with old | new
    · obtain ⟨earlier, before, same⟩ := holds.drawn runId old
      exact ⟨earlier, Nat.lt_succ_of_lt before, same⟩
    · exact ⟨turn, Nat.lt_succ_self _, List.mem_singleton.mp new⟩
  · intro row member
    rcases List.mem_append.mp member with old | new
    · exact List.mem_append_left _ (holds.runs row old)
    · rw [List.mem_singleton.mp new]
      exact List.mem_append_right _ (List.mem_singleton_self _)
  · exact fun row member => List.mem_append_left _ (holds.trace row member)

theorem Holds.append (holds : Holds turns turn book x) {i : Nat} {runId : RunId} {run : BookedRun} (named : x.2[i]? = some runId)
    (shown : Shown (x.1.row runId) (x.1.rowsOf runId) runId run) (entry : TraceEntry) (ts : Int) :
    Holds turns (turn + 1) (book.set i { run with trace := run.trace ++ [entry] })
      ((PostgresRunStore.appendTrace (turns turn) x.1 runId entry ts).1, x.2) := by
  have later := holds.later
  refine ⟨holds.shows_.set named ?_ ?_, later.drawn, later.runs, ?_⟩
  · have appended := shown.append entry (turns turn).now
    rw [← nextSeq_shown shown] at appended
    have rows : (PostgresRunStore.appendTrace (turns turn) x.1 runId entry ts).1.rowsOf runId = x.1.rowsOf runId ++
        [{ runId, seq := RunTrace.nextSeq x.1.trace runId, entry, ts := (turns turn).now }] := by
      simp [PostgresRunStore.appendTrace, rowsOf, List.filter_append]
    rw [rows]
    exact appended
  · intro other different
    refine ⟨rfl, ?_⟩
    simp [PostgresRunStore.appendTrace, rowsOf, List.filter_append, different.symm]
  · intro row member
    rcases List.mem_append.mp member with old | new
    · exact holds.trace row old
    · rw [List.mem_singleton.mp new]
      exact List.mem_of_getElem? named

theorem row_update {t : Drawing} {s : PostgresRunStore} {runId other : RunId} {f : RunRecord → RunRecord}
    (same : ∀ r, (f r).runId = r.runId) : (s.update t runId f).1.row other =
      if other = runId then (s.row other).map fun r => { f r with updatedAt := t.now } else s.row other := by
  have keeps : (fun row : RunRecord => decide (row.runId = other)) ∘
      (fun row => if row.runId = runId then { f row with updatedAt := t.now } else row) = fun row => decide (row.runId = other) := by
    funext row
    simp only [Function.comp]
    split
    · rw [same]
    · rfl
  rw [update, row, List.find?_map, keeps]
  cases found : s.runs.find? fun row => row.runId = other with
  | none => simp [row, found]
  | some r =>
      have mine : r.runId = other := of_decide_eq_true (List.find?_some (p := fun row : RunRecord => decide (row.runId = other)) found)
      simp only [row, found, Option.map_some, mine]
      split <;> rfl

theorem Holds.update (holds : Holds turns turn book x) {i : Nat} {runId : RunId} {run : BookedRun} (named : x.2[i]? = some runId)
    (shown : Shown (x.1.row runId) (x.1.rowsOf runId) runId run) (f : RunRecord → RunRecord) (run' : BookedRun)
    (traced : run'.trace = run.trace) (same : ∀ r, (f r).runId = r.runId) (does : ∀ r : RunRecord, r.toRunState = run.toRunState →
      r.currentStep = run.currentStep → (f r).toRunState = run'.toRunState ∧ (f r).currentStep = run'.currentStep) :
    Holds turns (turn + 1) (book.set i run') ((x.1.update (turns turn) runId f).1, x.2) := by
  have later := holds.later
  obtain ⟨r, kept, mine, state, step⟩ := shown.state
  obtain ⟨state', step'⟩ := does r state step
  refine ⟨holds.shows_.set named ⟨⟨{ f r with updatedAt := (turns turn).now }, ?_, (same r).trans mine, state', step'⟩, ?_, shown.mine⟩ ?_,
    later.drawn, ?_, later.trace⟩
  · rw [row_update same, if_pos rfl, kept]
    rfl
  · rw [traced]
    exact shown.numbered
  · intro other different
    exact ⟨by rw [row_update same, if_neg different], rfl⟩
  · intro row member
    obtain ⟨old, there, rfl⟩ := List.mem_map.mp member
    split
    · change (f old).runId ∈ x.2
      rw [same]
      exact holds.runs old there
    · exact holds.runs old there

/-- What the tables hold is the book. -/
theorem refines (p : Platform) (turns : Nat → Drawing) (drawn : Function.Injective fun t => (turns t).uuid) :
    ((store p).session turns).Refines (RunBook.service p int8) (Holds turns) RunAnswer.seen where
  keeps := by
    intro turn book x c holds
    cases c with
    | create tenant goal =>
        obtain ⟨s, created, later⟩ := holds.create drawn tenant goal
        simp only [RunStore.session, store, created]
        exact later
    | appendTrace run entry ts =>
        exact about_keeps holds.shows_ holds.later fun named shown => holds.append named shown entry ts
    | readTrace run since =>
        refine about_keeps holds.shows_ holds.later fun {runId r} named shown => ?_
        have later := holds.later
        exact ⟨holds.shows_.set named shown fun _ _ => ⟨rfl, rfl⟩, later.drawn, later.runs, later.trace⟩
    | getState run =>
        refine about_keeps holds.shows_ holds.later fun {runId r} named shown => ?_
        have later := holds.later
        exact ⟨holds.shows_.set named shown fun _ _ => ⟨rfl, rfl⟩, later.drawn, later.runs, later.trace⟩
    | requestCancel run =>
        refine about_keeps holds.shows_ holds.later fun {runId r} named shown => holds.update named shown
          (fun row => { row with cancelRequested := true }) { r with cancelRequested := true } rfl (fun _ => rfl) ?_
        rintro ⟨state, _, _, _⟩ (rfl : state = _) step
        exact ⟨rfl, step⟩
    | setState run status currentStep =>
        refine about_keeps holds.shows_ holds.later fun {runId r} named shown => holds.update named shown
          (fun row => { row with status := status.getD row.status, currentStep := currentStep.orElse fun _ => row.currentStep })
          { r with status := status.getD r.status, currentStep := currentStep.orElse fun _ => r.currentStep } rfl (fun _ => rfl) ?_
        rintro ⟨state, _, _, _⟩ (rfl : state = _) (rfl : _ = _)
        exact ⟨rfl, rfl⟩
  answers := by
    intro turn book x c holds
    cases c with
    | create tenant goal =>
        obtain ⟨s, created, _⟩ := holds.create drawn tenant goal
        simp only [RunStore.session, store, created]
        rfl
    | appendTrace run entry ts => exact about_seen holds.shows_ fun _ => rfl
    | readTrace run since =>
        refine about_seen holds.shows_ fun {runId r} shown => ?_
        have views : ∀ above, RunAnswer.view runId (.trace (x.1.select runId above)) = .trace (RunBook.entries r above) := by
          intro above
          rw [select_shown shown]
          exact shown.view_trace above
        cases since with
        | none => exact congrArg Except.ok (views none)
        | some since =>
            simp only [store, readTrace, RunBook.cutoff]
            cases PolicyAction.int p (.str since) with
            | error e => rfl
            | ok n =>
                simp only [bind, Except.bind]
                split
                · exact congrArg Except.ok (views (some n))
                · rfl
    | getState run =>
        refine about_seen holds.shows_ fun {runId r} shown => ?_
        obtain ⟨record, kept, _⟩ := shown.state
        rw [kept] at shown
        simp only [row] at kept
        simp only [store, getState, kept]
        exact congrArg Except.ok shown.view_state
    | requestCancel run => exact about_seen holds.shows_ fun _ => rfl
    | setState run status currentStep => exact about_seen holds.shows_ fun _ => rfl

end PostgresRunStore

/-! ## One for the other -/

namespace RunBook

variable {p : Platform}

end RunBook

namespace Sample

end Sample

end Maof
