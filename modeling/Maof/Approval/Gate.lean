import Maof.Effects.Machine
import Maof.Platform

/-!
# The approval gate

A gate keeps the approvals its process asked for; with a repository every
approval is a row besides, which other processes read and write. Between two
awaits a process has its gate to itself, so each stretch of code between them
is one call here.
-/

namespace Maof

open Data (Dict)
open Effects (Sig Act)

structure Resolution where
  principalId : String
  org : String
  roles : List String
  approved : Bool := true
deriving DecidableEq, Repr

/-- `_Pending`. -/
structure PendingApproval where
  event : Bool := false
  approved : Bool := false
  reason : String := ""
  requiredRoles : List String := []
  parties : Int := 1
  resolutions : List Resolution := []
deriving DecidableEq, Repr

/-- The arguments of one `resolve`. -/
structure Vote where
  approved : Bool
  reason : String := ""
  tenantId : Option String := none
  principal : Option Principal := none
deriving DecidableEq, Repr

/-- What `resolve` finds before its first await. -/
inductive Review where
  | refused (e : Exn)
  /-- Further parties are awaited. -/
  | counted
  /-- The role-bound approval is decided. -/
  | decided (approved : Bool)
  /-- No role-bound approval is pending in this process; whether another one is. -/
  | direct (held : Bool)
deriving DecidableEq, Repr

namespace PendingApproval

def roles (v : Vote) : List String := (v.principal.map Principal.roles).getD []

/-- `roles & set(pending.required_roles)`. -/
def qualified (pd : PendingApproval) (v : Vote) : Bool :=
  v.principal.isSome && (roles v).any fun role => role ∈ pd.requiredRoles

def refusal (u : Unicode) (pd : PendingApproval) (approvalId : String) (v : Vote) : Exn :=
  .permission ("approval " ++ Template.reprText u (.str approvalId) ++ " requires one of roles " ++
    Template.reprText u (.strs pd.requiredRoles) ++ "; got " ++
    Template.reprText u (.strs ((roles v).dedup.insertionSort (· ≤ ·))))

/-- Each distinct principal counts once. -/
def count (pd : PendingApproval) (v : Vote) : PendingApproval :=
  match v.principal with
  | none => pd
  | some p =>
      if pd.resolutions.any fun r => r.principalId = p.id then pd
      else { pd with resolutions :=
        pd.resolutions ++ [{ principalId := p.id, org := p.org, roles := p.roles }] }

/-- The role-bound branch of `resolve`, up to its first await. -/
def review (u : Unicode) (pd : PendingApproval) (approvalId : String) (v : Vote) :
    PendingApproval × Review :=
  if pd.requiredRoles.isEmpty then (pd, .direct true)
  else if !pd.qualified v then (pd, .refused (refusal u pd approvalId v))
  else if !v.approved then
    ({ pd with approved := false, reason := v.reason, event := true }, .decided false)
  else
    let pd := pd.count v
    if pd.resolutions.length < pd.parties then (pd, .counted)
    else ({ pd with approved := true, event := true }, .decided true)

/-- The other branch, after its row has been written. -/
def settle (pd : PendingApproval) (v : Vote) : PendingApproval :=
  { pd with approved := v.approved, reason := v.reason, event := true }

/-- What a waiter of this process reads: the flag, once the event is set. -/
def signal (pd : PendingApproval) : Option Bool := if pd.event then some pd.approved else none

end PendingApproval

inductive ApprovalStatus where
  | pending
  | approved
  | denied
deriving DecidableEq, Repr

def ApprovalStatus.ofFlag (approved : Bool) : ApprovalStatus := if approved then .approved else .denied

/-- What a waiter makes of a row's status. -/
def ApprovalStatus.signal : ApprovalStatus → Option Bool
  | .approved => some true
  | .denied => some false
  | .pending => none

structure ApprovalRow where
  tenantId : String
  runId : RunId
  reason : String
  status : ApprovalStatus := .pending
deriving DecidableEq, Repr

namespace PostgresApprovalRepo

/-- `($3::text IS NULL OR tenant_id = $3)`. -/
def ownedBy (tenantId : Option String) (row : ApprovalRow) : Bool :=
  match tenantId with
  | none => true
  | some t => row.tenantId = t

def resolve (rows : Dict String ApprovalRow) (approvalId : String) (approved : Bool)
    (tenantId : Option String) : Dict String ApprovalRow :=
  rows.map fun kv =>
    if kv.1 = approvalId ∧ ownedBy tenantId kv.2 then (kv.1, { kv.2 with status := .ofFlag approved })
    else kv

def finds (rows : Dict String ApprovalRow) (approvalId : String) (tenantId : Option String) : Bool :=
  rows.any fun kv => decide (kv.1 = approvalId) && ownedBy tenantId kv.2

end PostgresApprovalRepo

/-- The gates of all processes, their repository, and, as history, the approvals
asked for with roles, the first decision each got and what its waiters returned. -/
structure ApprovalWorld (Host : Type) where
  gates : Host → Dict String PendingApproval := fun _ => []
  counters : Host → Nat := fun _ => 0
  rows : Dict String ApprovalRow := []
  roleBound : List String := []
  decided : Dict String Bool := []
  answers : List (String × Bool) := []

/-- What the environment decides about one call. -/
structure ApprovalChoice where
  fault : Option (Bool × Exn) := none
  /-- The id the database gives a new row. -/
  text : String := ""
  expired : Bool := false

inductive ApprovalOp (Host : Type) where
  | create (tenantId : String) (runId : RunId) (reason : String)
  /-- Without a repository the id is drawn from the gate's counter. -/
  | draw (host : Host) (runId : RunId)
  | open_ (host : Host) (approvalId : String) (roles : List String) (parties : Int)
  | review (host : Host) (approvalId : String) (vote : Vote)
  | updateRow (approvalId : String) (approved : Bool) (tenantId : Option String)
  | settle (host : Host) (approvalId : String) (vote : Vote)
  | held (host : Host) (approvalId : String)
  | peek (host : Host) (approvalId : String)
  | fetchRow (approvalId : String)
  | expired
  | emit (eventType approvalId reason : String)

abbrev ApprovalOp.Ans {Host : Type} : ApprovalOp Host → Type
  | .create _ _ _ | .draw _ _ => String
  | .review _ _ _ => Review
  | .held _ _ | .expired => Bool
  | .peek _ _ | .fetchRow _ => Option Bool
  | .open_ _ _ _ _ | .updateRow _ _ _ | .settle _ _ _ | .emit _ _ _ => Unit

abbrev ApprovalSig (Host : Type) : Sig := ⟨ApprovalOp Host, ApprovalOp.Ans, Exn⟩

namespace ApprovalGate

variable {Host : Type}

abbrev GateM (Host α : Type) : Type := Act (ApprovalSig Host) Unit α

abbrev gateCall (op : ApprovalOp Host) : GateM Host op.Ans := Act.await (S := ApprovalSig Host) op

variable (repo : Bool) (host : Host)

def request (tenantId : String) (runId : RunId) (reason : String) (roles : List String) (parties : Int) :
    GateM Host String := do
  let approvalId ←
    if repo then gateCall (.create tenantId runId reason) else gateCall (.draw host runId)
  gateCall (.open_ host approvalId roles parties)
  gateCall (.emit "approval_requested" approvalId reason)
  return approvalId

def eventOf (approved : Bool) : String := if approved then "approval_granted" else "approval_denied"

def writeRow (approvalId : String) (approved : Bool) (tenantId : Option String) : GateM Host Unit :=
  if repo then gateCall (.updateRow approvalId approved tenantId) else return ()

def resolve (approvalId : String) (v : Vote) : GateM Host Unit := do
  match ← gateCall (.review host approvalId v) with
  | .refused e => Act.throw e
  | .counted => return ()
  | .decided approved =>
      writeRow repo approvalId approved v.tenantId
      gateCall (.emit (eventOf approved) approvalId v.reason)
  | .direct held =>
      writeRow repo approvalId v.approved v.tenantId
      if held then gateCall (.settle host approvalId v)
      gateCall (.emit (eventOf v.approved) approvalId v.reason)

def timedOut (u : Unicode) (approvalId : String) : Exn :=
  .timeout ("approval " ++ Template.reprText u (.str approvalId) ++ " timed out")

/-- One look at the event and at the row. -/
def look (held : Bool) (approvalId : String) : GateM Host (Option Bool) := do
  match ← (if held then gateCall (.peek host approvalId) else return none) with
  | some approved => return some approved
  | none => if repo then gateCall (.fetchRow approvalId) else return none

/-- `while True`, for so many turns; no answer while it still waits. -/
def poll (u : Unicode) (held : Bool) (approvalId : String) : Nat → GateM Host (Option Bool)
  | 0 => return none
  | turns + 1 => do
      match ← look repo host held approvalId with
      | some approved => return some approved
      | none =>
          if ← gateCall .expired then Act.throw (timedOut u approvalId)
          else poll u held approvalId turns

def waitFor (u : Unicode) (approvalId : String) (turns : Nat) : GateM Host (Option Bool) := do
  let held ← gateCall (.held host approvalId)
  if !held && !repo then
    Act.throw (.keyError ("unknown approval: " ++ Template.reprText u (.str approvalId)))
  else poll repo host u held approvalId turns

/-- Stage entry point: block until approved; a denial raises. -/
def wait (u : Unicode) (autoApprove : Bool) (tenantId : String) (runId : RunId) (reason : String)
    (roles : List String) (parties : Int) (turns : Nat) : GateM Host (Option Unit) := do
  if autoApprove then
    return some ()
  else
    let approvalId ← request repo host tenantId runId reason roles parties
    match ← waitFor repo host u approvalId turns with
    | none => return none
    | some true => return some ()
    | some false =>
        Act.throw (.approvalRequired (if reason = "" then "approval denied" else reason))

end ApprovalGate

namespace ApprovalWorld

variable {Host : Type} [DecidableEq Host]

def pending (w : ApprovalWorld Host) (host : Host) (approvalId : String) : Option PendingApproval :=
  Dict.get (w.gates host) approvalId

def setPending (w : ApprovalWorld Host) (host : Host) (approvalId : String) (pd : PendingApproval) :
    ApprovalWorld Host :=
  { w with gates := Function.update w.gates host (Dict.set (w.gates host) approvalId pd) }

/-- The first decision stands, as history. -/
def decideFirst (w : ApprovalWorld Host) (approvalId : String) (approved : Bool) : ApprovalWorld Host :=
  match Dict.get w.decided approvalId with
  | some _ => w
  | none => { w with decided := w.decided ++ [(approvalId, approved)] }

/-- What `resolve` does before its first await. -/
def review (u : Unicode) (w : ApprovalWorld Host) (host : Host) (approvalId : String) (v : Vote) :
    ApprovalWorld Host × Review :=
  match w.pending host approvalId with
  | none => (w, .direct false)
  | some pd =>
      match pd.review u approvalId v with
      | (pd', .decided approved) =>
          ((w.setPending host approvalId pd').decideFirst approvalId approved, .decided approved)
      | (pd', out) => (w.setPending host approvalId pd', out)

/-- `UPDATE approvals`, which decides where it finds the row. -/
def updateRow (w : ApprovalWorld Host) (approvalId : String) (approved : Bool) (tenantId : Option String) :
    ApprovalWorld Host :=
  let rows := PostgresApprovalRepo.resolve w.rows approvalId approved tenantId
  if PostgresApprovalRepo.finds w.rows approvalId tenantId then
    { w with rows }.decideFirst approvalId approved
  else { w with rows }

def answer (w : ApprovalWorld Host) (approvalId : String) (out : Option Bool) : ApprovalWorld Host :=
  match out with
  | some approved => { w with answers := w.answers ++ [(approvalId, approved)] }
  | none => w

def effect (u : Unicode) (c : ApprovalChoice) (w : ApprovalWorld Host) :
    (op : ApprovalOp Host) → ApprovalWorld Host × Except Exn op.Ans
  | .create tenantId runId reason =>
      match Dict.get w.rows c.text with
      | some _ => (w, .error (.external "duplicate key value"))
      | none => ({ w with rows := w.rows ++ [(c.text, { tenantId, runId, reason })] }, .ok c.text)
  | .draw host runId =>
      let n := w.counters host + 1
      ({ w with counters := Function.update w.counters host n },
        .ok ("appr-" ++ runId ++ "-" ++ toString n))
  | .open_ host approvalId requiredRoles parties =>
      let opened := w.setPending host approvalId { requiredRoles, parties }
      ({ opened with
        roleBound := if requiredRoles.isEmpty then w.roleBound else w.roleBound ++ [approvalId] }, .ok ())
  | .review host approvalId v => let (w', out) := w.review u host approvalId v; (w', .ok out)
  | .updateRow approvalId approved tenantId =>
      (w.updateRow approvalId approved tenantId, .ok ())
  | .settle host approvalId v =>
      match w.pending host approvalId with
      | some pd =>
          ((w.setPending host approvalId (pd.settle v)).decideFirst approvalId v.approved, .ok ())
      | none => (w, .ok ())
  | .held host approvalId => (w, .ok (w.pending host approvalId).isSome)
  | .peek host approvalId =>
      let out := (w.pending host approvalId).bind PendingApproval.signal
      (w.answer approvalId out, .ok out)
  | .fetchRow approvalId =>
      let out := (Dict.get w.rows approvalId).bind fun row => row.status.signal
      (w.answer approvalId out, .ok out)
  | .expired => (w, .ok c.expired)
  | .emit _ _ _ => (w, .ok ())

/-- Only the awaited calls can fail: before their effect, or after it. A read that
fails is not returned. -/
def awaited : ApprovalOp Host → Bool
  | .create _ _ _ | .updateRow _ _ _ | .fetchRow _ | .emit _ _ _ => true
  | _ => false

def perform (u : Unicode) (c : ApprovalChoice) (w : ApprovalWorld Host) (op : ApprovalOp Host) :
    ApprovalWorld Host × Except Exn op.Ans :=
  if awaited op then
    match c.fault with
    | none => effect u c w op
    | some (false, e) => (w, .error e)
    | some (true, e) => match op with
        | .fetchRow _ => (w, .error e)
        | op => ((effect u c w op).1, .error e)
  else effect u c w op

end ApprovalWorld

namespace Sample

def unicode : Unicode := { alnum := fun _ => false, printable := fun _ => true }

end Sample
end Maof
