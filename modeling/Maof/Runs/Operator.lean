import Maof.Authz
import Maof.Effects.Ghost
import Maof.Orchestrator.L1
import Maof.Runs.Trace

/-!
# Operator commands

`maof runs` over the run tables. A command checks scopes and tenants only where
its branch hands the operator's principal on.
-/

namespace Maof

open Data (Dict)
open Effects (Act)

/-! ## Who the operator is -/

inductive TenancyMode where
  | single
  | multi
deriving DecidableEq, Repr

structure Settings where
  tenancyMode : TenancyMode := .multi
  principalId : String := ""
  principalScopes : String := ""
  principalRoles : String := ""
  principalOrg : String := ""

def scopeRunsRead : String := "runs:read"

def scopeRunsWrite : String := "runs:write"

/-- `sorted(ADMIN_SCOPES)`. -/
def adminScopes : List String :=
  [scopeRegistryApprove, scopeRegistryAuthor, scopeRunsRead, scopeRunsWrite, scopeWorkflowApprove, scopeWorkflowAuthor]

/-- `_split_csv`. -/
def splitCsv (value : String) : List String :=
  (((splitCommas value.toList).map Template.strip).filter fun part => !part.isEmpty).map String.ofList

def servicePrincipal : Principal := { id := "maof-service", kind := "service" }

/-- `resolve_operator_principal`. -/
def resolveOperatorPrincipal (settings : Settings) : Principal :=
  if settings.principalId ≠ "" then {
    id := settings.principalId
    org := settings.principalOrg
    roles := splitCsv settings.principalRoles
    scopes := splitCsv settings.principalScopes }
  else if settings.tenancyMode = .single then { servicePrincipal with scopes := adminScopes }
  else servicePrincipal

/-- `resolve_tenant`. -/
def resolveTenant (settings : Settings) (tenantId : Option String) : Except Exn TenantContext :=
  let given := tenantId.filter (· ≠ "")
  match settings.tenancyMode with
  | .single => .ok { tenantId := given.getD "default", multiTenant := false }
  | .multi => match given with
      | some tenantId => .ok { tenantId }
      | none => .error (.maof "multi-tenant mode requires an explicit tenant_id")

/-- `require_run_read` and `require_run_write`: the scope, and the tenant of the run. -/
def requireRun (u : Unicode) (scope verb runTenantId : String) (principal : Option Principal)
    (tenant : Option TenantContext) : Except Exn Unit := do
  requireScopes u principal [scope] tenant
  match tenant with
  | none => return ()
  | some tenant =>
      if tenant.tenantId ≠ runTenantId then
        let who := (principal.map Principal.id).getD "<anonymous>"
        .error (.authz ("principal " ++ Template.reprText u (.str who) ++ " (tenant " ++
          Template.reprText u (.str tenant.tenantId) ++ ") may not " ++ verb ++ " a run in tenant " ++
          Template.reprText u (.str runTenantId)))
      else return ()

def requireRunRead (u : Unicode) : String → Option Principal → Option TenantContext → Except Exn Unit :=
  requireRun u scopeRunsRead "read"

def requireRunWrite (u : Unicode) : String → Option Principal → Option TenantContext → Except Exn Unit :=
  requireRun u scopeRunsWrite "modify"

/-! ## The run tables -/

structure RunRow where
  tenantId : String
  goal : String
  status : RunStatus := .pending
  currentStep : Option String := none
  cancelRequested : Bool := false
  principalId : Option String := none
  createdAt : Int := 0
  updatedAt : Int := 0
deriving DecidableEq, Repr

structure RunsDb where
  runs : Dict RunId RunRow := []
  wakeups : List Wakeup := []
  trace : List TraceRow := []

namespace RunsDb

variable (u : Unicode) (db : RunsDb)

/-- `UPDATE runs SET … WHERE run_id = $1`. -/
def setRun (runId : RunId) (f : RunRow → RunRow) : RunsDb :=
  match Dict.get db.runs runId with
  | some row => { db with runs := Dict.set db.runs runId (f row) }
  | none => db

/-- The statements of `cancel` and `wake`; they make no other call. -/
def perform (now : Int) (db : RunsDb) : (op : Op) → RunsDb × Except Exn op.Ans
  | .ownerOf runId => (db, .ok ((Dict.get db.runs runId).map RunRow.tenantId))
  | .requestCancel runId => (db.setRun runId fun row => { row with cancelRequested := true, updatedAt := now }, .ok ())
  | .fetchStatus runId => (db, .ok ((Dict.get db.runs runId).map RunRow.status))
  | .finalizeCancel runId => (db.setRun runId fun row => { row with status := .cancelled, updatedAt := now }, .ok ())
  | .cancelWakeups runId => ({ db with wakeups := Waker.cancel .postgres runId db.wakeups }, .ok ())
  | .fireEvent eventKey =>
      let (wakeups, woken) := Waker.fireEvent eventKey db.wakeups
      ({ db with wakeups }, .ok woken)
  | _ => (db, .error (.external "not a call of the operator"))

/-- `($1::text IS NULL OR tenant_id = $1) AND ($2::text IS NULL OR status = $2)`. -/
def listed (tenantId status : Option String) (row : RunRow) : Bool :=
  tenantId.all (row.tenantId = ·) && status.all (row.status.value = ·)

def listRuns (tenantId status : Option String) (principal : Option Principal) (limit : Nat) :
    Except Exn (List (RunId × RunRow)) := do
  checkScope u principal scopeRunsRead
  return ((db.runs.filter fun kv => listed tenantId status kv.2).insertionSort fun a b => b.2.createdAt ≤ a.2.createdAt).take limit

def «show» (runId : RunId) (principal : Option Principal) (tenant : Option TenantContext) : Except Exn (Option RunRow) :=
  match Dict.get db.runs runId with
  | none => .ok none
  | some row => do
      if principal.isSome then
        requireRunRead u row.tenantId principal tenant
      return some row

def traceOf (runId : RunId) (principal : Option Principal) (tenant : Option TenantContext) : Except Exn (List TraceRow) :=
  match principal with
  | none => .ok (RunTrace.readTrace db.trace runId none)
  | some _ => match Dict.get db.runs runId with
      | none => .ok []
      | some row => do
          requireRunRead u row.tenantId principal tenant
          return RunTrace.readTrace db.trace runId none

/-- `cancel`, with the check it makes of an asserted principal. -/
def cancel (now : Int) (runId : RunId) (principal : Option Principal) (tenant : Option TenantContext) :
    Except Exn Unit × RunsDb :=
  let check := principal.map fun who owner => requireRunWrite u owner (some who) tenant
  let out := (RunOps.cancel runId check ()).eval (perform now) db
  (out.1.1, out.2)

def wake (now : Int) (eventKey : String) (principal : Option Principal) : Except Exn (List RunId) × RunsDb :=
  let out := (RunOps.wake eventKey (checkScope u principal scopeRunsWrite) ()).eval (perform now) db
  (out.1.1, out.2)

end RunsDb

/-! ## The commands -/

/-- The subcommands over the run tables, with their arguments; `promote` reads the stores of a run instead. -/
inductive RunsCommand where
  | list (tenant status : Option String)
  | «show» (runId : RunId) (tenant : Option String)
  | trace (runId : RunId) (tenant : Option String)
  | cancel (runId : RunId)
  | wake (eventKey : String)

/-- What is written to the standard output. -/
inductive Line where
  | run (runId : RunId) (tenantId status goal : String)
  | row (runId : RunId) (row : RunRow)
  | notFound
  | entry (seq : Nat) (kind : String) (step : Option String)
  | cancelRequested (runId : RunId)
  | woken (runIds : List RunId)
deriving DecidableEq, Repr

/-- A command's output, its exit code or what it raises, and the tables it leaves. -/
structure Ran where
  printed : List Line := []
  exit : Except Exn Nat := .ok 0
  db : RunsDb

/-- `_run_runs`. -/
def runRuns (u : Unicode) (settings : Settings) (now : Int) (db : RunsDb) : RunsCommand → Ran
  | .list tenant status =>
      match db.listRuns u tenant status none 50 with
      | .ok rows =>
          let printed := rows.map fun kv =>
            Line.run kv.1 kv.2.tenantId kv.2.status.value (String.ofList (kv.2.goal.toList.take 60))
          { db, printed }
      | .error e => { db, exit := .error e }
  | .«show» runId tenant =>
      match resolveTenant settings tenant >>= fun tenant => db.«show» u runId (some (resolveOperatorPrincipal settings)) (some tenant) with
      | .ok (some row) => { db, printed := [.row runId row] }
      | .ok none => { db, printed := [.notFound], exit := .ok 1 }
      | .error e => { db, exit := .error e }
  | .trace runId tenant =>
      match resolveTenant settings tenant >>= fun tenant => db.traceOf u runId (some (resolveOperatorPrincipal settings)) (some tenant) with
      | .ok rows => { db, printed := rows.map fun row => .entry row.seq row.entry.kind row.entry.step }
      | .error e => { db, exit := .error e }
  | .cancel runId =>
      match db.cancel u now runId none none with
      | (.ok (), db) => { db, printed := [.cancelRequested runId] }
      | (.error e, db) => { db, exit := .error e }
  | .wake eventKey =>
      match db.wake u now eventKey none with
      | (.ok woken, db) => { db, printed := [.woken woken] }
      | (.error e, db) => { db, exit := .error e }

/-! ## What a command may do -/

/-- The line tells of a run. -/
def Line.tells : Line → Bool
  | .run _ _ _ _ | .row _ _ | .entry _ _ _ => true
  | .woken runIds => !runIds.isEmpty
  | .notFound | .cancelRequested _ => false

/-- The command told of a run, or changed a table. -/
def Ran.Acts (before : RunsDb) (out : Ran) : Prop := (∃ line ∈ out.printed, line.tells = true) ∨ out.db ≠ before

namespace RunsCommand

def scope : RunsCommand → String
  | .list _ _ | .«show» _ _ | .trace _ _ => scopeRunsRead
  | .cancel _ | .wake _ => scopeRunsWrite

/-- The run a command is about. -/
def about : RunsCommand → Option RunId
  | .«show» runId _ | .trace runId _ | .cancel runId => some runId
  | .list _ _ | .wake _ => none

/-- `args.tenant`; `cancel` has no such argument. -/
def tenant : RunsCommand → Option String
  | .list tenant _ | .show _ tenant | .trace _ tenant => tenant
  | .cancel _ | .wake _ => none

/-- The command acts only for an operator that holds its scope, and only on a run of the resolved tenant. -/
def Authorized (u : Unicode) (settings : Settings) (now : Int) (db : RunsDb) (command : RunsCommand) : Prop :=
  (runRuns u settings now db command).Acts db →
    command.scope ∈ (resolveOperatorPrincipal settings).scopes ∧
    ∀ runId, command.about = some runId → ∃ tenant row, resolveTenant settings command.tenant = .ok tenant ∧
      Dict.get db.runs runId = some row ∧ row.tenantId = tenant.tenantId

/-- A row that a cancellation at that time leaves as it is. -/
def Spent (now : Int) (row : RunRow) : Prop :=
  row.cancelRequested = true ∧ row.updatedAt = now ∧ row.status ≠ .waiting ∧ row.status ≠ .pending

/-- There is nothing to act on, or the operator may. -/
def Guarded (settings : Settings) (now : Int) (db : RunsDb) : RunsCommand → Prop
  | .list tenant status => scopeRunsRead ∈ (resolveOperatorPrincipal settings).scopes ∨
      ∀ kv ∈ db.runs, RunsDb.listed tenant status kv.2 = false
  | .«show» _ _ | .trace _ _ => True
  | .cancel runId => ∀ row, Dict.get db.runs runId = some row → Spent now row ∨
      scopeRunsWrite ∈ (resolveOperatorPrincipal settings).scopes ∧
        ∃ tenant, resolveTenant settings none = .ok tenant ∧ row.tenantId = tenant.tenantId
  | .wake eventKey => scopeRunsWrite ∈ (resolveOperatorPrincipal settings).scopes ∨
      ∀ w ∈ db.wakeups, Waker.awaitsEvent eventKey w = false

end RunsCommand

/-! ## Checks -/

theorem requireScopes_ok {u : Unicode} {principal : Option Principal} {scope : String} {tenant : Option TenantContext} :
    requireScopes u principal [scope] tenant = .ok () ↔ scope ∈ heldScopes principal tenant := by
  by_cases held : scope ∈ heldScopes principal tenant
  · simp [requireScopes, held]
  · simp [requireScopes, held]

theorem requireRun_ok {u : Unicode} {scope verb owner : String} {principal : Option Principal} {tenant : TenantContext}
    (allowed : requireRun u scope verb owner principal (some tenant) = .ok ()) :
    scope ∈ heldScopes principal (some tenant) ∧ tenant.tenantId = owner := by
  unfold requireRun at allowed
  obtain ⟨⟨⟩, scopes, allowed⟩ := ok_of_bind allowed
  refine ⟨requireScopes_ok.mp scopes, ?_⟩
  by_contra other
  simp only [ne_eq, other, not_false_eq_true, if_true] at allowed
  cases allowed

/-- A resolved tenant grants nothing by itself. -/
theorem tenantScopes_resolved {settings : Settings} {given : Option String} {tenant : TenantContext}
    (resolved : resolveTenant settings given = .ok tenant) : tenantScopes tenant = [] := by
  unfold resolveTenant at resolved
  simp only at resolved
  split at resolved
  · cases resolved
    rfl
  · split at resolved
    · cases resolved
      rfl
    · cases resolved

theorem held_resolved {settings : Settings} {given : Option String} {tenant : TenantContext} {who : Principal} {scope : String}
    (resolved : resolveTenant settings given = .ok tenant) (held : scope ∈ heldScopes (some who) (some tenant)) :
    scope ∈ who.scopes := by
  have own : heldScopes (some who) (some tenant) = who.scopes ++ tenantScopes tenant := rfl
  rw [own, tenantScopes_resolved resolved, List.append_nil] at held
  exact held

/-! ## What each statement does -/

namespace RunsDb

variable {u : Unicode} {db : RunsDb} {now : Int} {runId : RunId} {row : RunRow} {principal : Option Principal}
  {tenant : Option TenantContext}

theorem show_allowed (asserted : principal.isSome = true) (shown : db.«show» u runId principal tenant = .ok (some row)) :
    Dict.get db.runs runId = some row ∧ requireRunRead u row.tenantId principal tenant = .ok () := by
  unfold RunsDb.«show» at shown
  split at shown
  · cases shown
  · next found =>
      rw [if_pos asserted] at shown
      obtain ⟨⟨⟩, allowed, shown⟩ := ok_of_bind shown
      cases shown
      exact ⟨found, allowed⟩

theorem traceOf_allowed {who : Principal} {rows : List TraceRow} (traced : db.traceOf u runId (some who) tenant = .ok rows)
    (some_ : rows ≠ []) : ∃ row, Dict.get db.runs runId = some row ∧ requireRunRead u row.tenantId (some who) tenant = .ok () := by
  unfold traceOf at traced
  simp only at traced
  split at traced
  · cases traced
    exact absurd rfl some_
  · next row found =>
      obtain ⟨⟨⟩, allowed, traced⟩ := ok_of_bind traced
      exact ⟨row, found, allowed⟩

/-- Without a principal every row that is asked for is listed. -/
theorem listRuns_unasserted {tenantId status : Option String} {limit : Nat} (some_ : 0 < limit) : ∃ rows,
    db.listRuns u tenantId status none limit = .ok rows ∧
      (rows = [] ↔ ∀ kv ∈ db.runs, listed tenantId status kv.2 = false) := by
  refine ⟨_, rfl, ?_⟩
  rw [List.take_eq_nil_iff, or_iff_right (by omega), ← List.length_eq_zero_iff, List.length_insertionSort,
    List.length_eq_zero_iff, List.filter_eq_nil_iff]
  simp

/-- A row once it is cancelled. -/
def cancelRow (now : Int) (row : RunRow) : RunRow :=
  if row.status = .waiting ∨ row.status = .pending then
    { row with status := .cancelled, cancelRequested := true, updatedAt := now }
  else { row with cancelRequested := true, updatedAt := now }

theorem setRun_none (missing : Dict.get db.runs runId = none) (f : RunRow → RunRow) : db.setRun runId f = db := by
  unfold setRun
  rw [missing]

theorem setRun_some (found : Dict.get db.runs runId = some row) (f : RunRow → RunRow) :
    db.setRun runId f = { db with runs := Dict.set db.runs runId (f row) } := by
  unfold setRun
  rw [found]

/-- Without a principal a cancellation goes ahead at once. -/
theorem cancel_unasserted : db.cancel u now runId none none =
    let flagged := db.setRun runId fun row => { row with cancelRequested := true, updatedAt := now }
    match (Dict.get flagged.runs runId).map RunRow.status with
    | some .waiting | some .pending =>
        let final := flagged.setRun runId fun row => { row with status := .cancelled, updatedAt := now }
        (.ok (), { final with wakeups := Waker.cancel .postgres runId final.wakeups })
    | _ => (.ok (), flagged) := by
  let flagged := db.setRun runId fun row => { row with cancelRequested := true, updatedAt := now }
  have flags : ∀ settle : Option RunStatus → Act RunSig Unit Unit,
      ((do runCall (.requestCancel runId); settle (← runCall (.fetchStatus runId)) : Act RunSig Unit Unit) ()).eval (perform now) db =
        (settle ((Dict.get flagged.runs runId).map RunRow.status) ()).eval (perform now) flagged := fun _ => rfl
  unfold cancel
  simp only [Option.map_none, RunOps.cancel, RunOps.authorized, Effects.Act.pure_bind, if_true, flags]
  change _ = match (Dict.get flagged.runs runId).map RunRow.status with
    | some .waiting | some .pending => _
    | _ => _
  cases (Dict.get flagged.runs runId).map RunRow.status with
  | none => rfl
  | some status => cases status <;> rfl

theorem cancel_none (missing : Dict.get db.runs runId = none) : db.cancel u now runId none none = (.ok (), db) := by
  rw [cancel_unasserted, setRun_none missing]
  simp only [missing, Option.map_none]

theorem cancel_some (found : Dict.get db.runs runId = some row) : db.cancel u now runId none none = (.ok (), {
    db with
    runs := Dict.set db.runs runId (cancelRow now row)
    wakeups := if row.status = .waiting ∨ row.status = .pending then Waker.cancel .postgres runId db.wakeups else db.wakeups }) := by
  rw [cancel_unasserted, setRun_some found]
  simp only [Dict.get_set_self, Option.map_some]
  cases status : row.status <;> simp [cancelRow, status, setRun, Dict.set_set]

theorem wake_unasserted (eventKey : String) : db.wake u now eventKey none =
    (.ok (Waker.fireEvent eventKey db.wakeups).2, { db with wakeups := (Waker.fireEvent eventKey db.wakeups).1 }) := rfl

theorem fireEvent_none {eventKey : String} {rows : List Wakeup} :
    (Waker.fireEvent eventKey rows).2 = [] ↔ ∀ w ∈ rows, Waker.awaitsEvent eventKey w = false := by
  unfold Waker.fireEvent Waker.claimAll
  rw [List.map_eq_nil_iff, List.filter_eq_nil_iff]
  simp

theorem fireEvent_quiet {eventKey : String} {rows : List Wakeup} (quiet : ∀ w ∈ rows, Waker.awaitsEvent eventKey w = false) :
    (Waker.fireEvent eventKey rows).1 = rows := by
  have same : rows.map (fun w => if Waker.awaitsEvent eventKey w then Waker.fire w else w) = rows.map id := by
    apply List.map_congr_left
    intro w inside
    rw [quiet w inside]
    rfl
  exact same.trans (List.map_id _)

theorem cancelRow_eq : cancelRow now row = row ↔ RunsCommand.Spent now row := by
  unfold cancelRow RunsCommand.Spent
  obtain ⟨tenantId, goal, status, currentStep, cancelRequested, principalId, createdAt, updatedAt⟩ := row
  split
  · next waits =>
      constructor
      · intro same
        have settled : RunStatus.cancelled = status := congrArg RunRow.status same
        subst settled
        rcases waits with waits | waits <;> cases waits
      · rintro ⟨_, _, waiting, pending⟩
        rcases waits with waits | waits
        · exact absurd waits waiting
        · exact absurd waits pending
  · next runs =>
      rw [not_or] at runs
      simp only [RunRow.mk.injEq, true_and, eq_comm]
      constructor
      · rintro ⟨flagged, touched⟩
        exact ⟨flagged, touched, runs⟩
      · rintro ⟨flagged, touched, _⟩
        exact ⟨flagged, touched⟩

/-- A cancellation leaves the tables exactly where it finds no row, or one it leaves as it is. -/
theorem cancel_still : (db.cancel u now runId none none).2 = db ↔
    ∀ row, Dict.get db.runs runId = some row → RunsCommand.Spent now row := by
  cases found : Dict.get db.runs runId with
  | none =>
      rw [cancel_none found]
      exact iff_of_true rfl (fun row held => by cases held)
  | some row =>
      rw [cancel_some found]
      constructor
      · intro same row' held
        obtain rfl := Option.some.inj held
        have kept : Dict.get (Dict.set db.runs runId (cancelRow now row)) runId = Dict.get db.runs runId :=
          congrArg (fun db : RunsDb => Dict.get db.runs runId) same
        rw [Dict.get_set_self, found] at kept
        exact cancelRow_eq.mp (Option.some.inj kept)
      · intro spent
        have done := spent row rfl
        obtain ⟨before, after, whole, set⟩ := Dict.set_of_get found
        have idle : ¬ (row.status = .waiting ∨ row.status = .pending) := not_or.mpr done.2.2
        rw [cancelRow_eq.mpr done, set, ← whole, if_neg idle]

end RunsDb

/-! ## Which commands are authorized -/

namespace RunsCommand

variable {u : Unicode} {settings : Settings} {now : Int} {db : RunsDb}

theorem list_acts (tenant status : Option String) : (runRuns u settings now db (.list tenant status)).Acts db ↔
    ¬ ∀ kv ∈ db.runs, RunsDb.listed tenant status kv.2 = false := by
  have unasserted : ∃ rows, db.listRuns u tenant status none 50 = .ok rows ∧
      (rows = [] ↔ ∀ kv ∈ db.runs, RunsDb.listed tenant status kv.2 = false) := RunsDb.listRuns_unasserted (by decide)
  obtain ⟨rows, read, none⟩ := unasserted
  rw [← none]
  unfold Ran.Acts runRuns
  simp only [read, ne_eq, not_true_eq_false, or_false, List.mem_map]
  constructor
  · rintro ⟨line, ⟨kv, inside, _⟩, _⟩ none
    rw [none] at inside
    cases inside
  · intro some
    obtain ⟨kv, inside⟩ := List.exists_mem_of_ne_nil _ some
    exact ⟨_, ⟨kv, inside, rfl⟩, rfl⟩

theorem wake_acts (eventKey : String) : (runRuns u settings now db (.wake eventKey)).Acts db ↔
    ¬ ∀ w ∈ db.wakeups, Waker.awaitsEvent eventKey w = false := by
  unfold Ran.Acts runRuns
  simp only [RunsDb.wake_unasserted, List.mem_singleton, exists_eq_left]
  rw [← RunsDb.fireEvent_none]
  constructor
  · rintro (told | changed) none
    · rw [Line.tells, none] at told
      cases told
    · rw [RunsDb.fireEvent_quiet (RunsDb.fireEvent_none.mp none)] at changed
      exact changed rfl
  · intro some
    refine .inl ?_
    rw [Line.tells, List.isEmpty_eq_false_iff.mpr some]
    rfl

theorem cancel_acts (runId : RunId) : (runRuns u settings now db (.cancel runId)).Acts db ↔
    ¬ ∀ row, Dict.get db.runs runId = some row → Spent now row := by
  rw [← RunsDb.cancel_still (u := u)]
  have finishes : (db.cancel u now runId none none).1 = .ok () := by
    cases found : Dict.get db.runs runId with
    | none => rw [RunsDb.cancel_none found]
    | some row => rw [RunsDb.cancel_some found]
  unfold Ran.Acts runRuns
  simp only
  generalize db.cancel u now runId none none = out at finishes ⊢
  obtain ⟨answer, db'⟩ := out
  cases finishes
  simp [Line.tells]

/-- What is shown of a run is shown to who may read it. -/
theorem show_authorized (runId : RunId) (tenant : Option String) : Authorized u settings now db (.«show» runId tenant) := by
  intro acts
  unfold Ran.Acts runRuns at acts
  simp only at acts
  split at acts
  · next row shown =>
      obtain ⟨resolved, is, shown⟩ := ok_of_bind shown
      obtain ⟨found, allowed⟩ := RunsDb.show_allowed rfl shown
      obtain ⟨held, owner⟩ := requireRun_ok allowed
      refine ⟨held_resolved is held, fun runId' same => ?_⟩
      cases same
      exact ⟨resolved, row, is, found, owner.symm⟩
  · simp [Line.tells] at acts
  · simp at acts

theorem trace_authorized (runId : RunId) (tenant : Option String) : Authorized u settings now db (.trace runId tenant) := by
  intro acts
  unfold Ran.Acts runRuns at acts
  simp only at acts
  split at acts
  · next rows traced =>
      obtain ⟨resolved, is, traced⟩ := ok_of_bind traced
      have some : rows ≠ [] := by
        rintro rfl
        simp at acts
      obtain ⟨row, found, allowed⟩ := RunsDb.traceOf_allowed traced some
      obtain ⟨held, owner⟩ := requireRun_ok allowed
      refine ⟨held_resolved is held, fun runId' same => ?_⟩
      cases same
      exact ⟨resolved, row, is, found, owner.symm⟩
  · simp at acts

end RunsCommand

/-- `show` and `trace` are authorized always. The others, which hand no principal on, are so exactly where there is
nothing for them to act on, or the operator happens to hold the scope and the run to be of the resolved tenant. -/
theorem command_authorized_iff (u : Unicode) (settings : Settings) (now : Int) (db : RunsDb) (command : RunsCommand) :
    command.Authorized u settings now db ↔ command.Guarded settings now db := by
  cases command with
  | list tenant status =>
      unfold RunsCommand.Authorized RunsCommand.Guarded
      rw [RunsCommand.list_acts, not_imp_comm, ← or_iff_not_imp_left]
      simp [RunsCommand.about, RunsCommand.scope]
  | «show» runId tenant => exact iff_of_true (RunsCommand.show_authorized runId tenant) trivial
  | trace runId tenant => exact iff_of_true (RunsCommand.trace_authorized runId tenant) trivial
  | cancel runId =>
      unfold RunsCommand.Authorized RunsCommand.Guarded
      rw [RunsCommand.cancel_acts]
      constructor
      · intro authorized row found
        by_cases spent : RunsCommand.Spent now row
        · exact .inl spent
        · obtain ⟨held, owned⟩ := authorized fun all => spent (all row found)
          obtain ⟨tenant, row', resolved, found', owner⟩ := owned runId rfl
          obtain rfl := Option.some.inj (found.symm.trans found')
          exact .inr ⟨held, tenant, resolved, owner⟩
      · intro guarded acts
        rw [not_forall] at acts
        obtain ⟨row, acts⟩ := acts
        obtain ⟨found, unspent⟩ := Classical.not_imp.mp acts
        obtain ⟨held, tenant, resolved, owner⟩ := (guarded row found).resolve_left unspent
        refine ⟨held, fun runId' same => ?_⟩
        cases same
        exact ⟨tenant, row, resolved, found, owner⟩
  | wake eventKey =>
      unfold RunsCommand.Authorized RunsCommand.Guarded
      rw [RunsCommand.wake_acts, not_imp_comm, ← or_iff_not_imp_left]
      simp [RunsCommand.about, RunsCommand.scope]

namespace Sample

/-- A run of another tenant, and an operator nobody has given a scope. -/
def foreign : RunsDb where
  runs := [("run-1", { tenantId := "globex", goal := "refund", status := .running })]

/-- Nobody is configured, and there are many tenants. -/
def anonymous : Settings := {}

end Sample

/-- An operator without a scope cancels the run of a tenant it did not name. -/
theorem anonymous_cancels : ¬ ∀ (u : Unicode) (settings : Settings) (now : Int) (db : RunsDb) (command : RunsCommand),
    command.Authorized u settings now db := by
  intro authorized
  let u : Unicode := { alnum := fun _ => false, printable := fun _ => true }
  have acts : (runRuns u Sample.anonymous 7 Sample.foreign (.cancel "run-1")).Acts Sample.foreign := by
    rw [RunsCommand.cancel_acts]
    intro spent
    exact absurd (spent _ rfl).1 (by decide)
  have held := (authorized u Sample.anonymous 7 Sample.foreign (.cancel "run-1") acts).1
  exact absurd held (by decide +kernel)

end Maof
