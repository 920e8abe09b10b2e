import Maof.Approval.Finality
import Maof.Approval.Tenancy
import Maof.Orchestrator.System
import Mathlib.Data.List.DropRight

/-!
# The approval service

Whoever knows an approval's token decides it over HTTP. The token is the approval's
id with its signature, and the service hands a request on to the gate of its process
only with the token of the approval it names.
-/

namespace Maof

open Data (Dict)
open Effects (Act Prog Machine Pool Protocol Label)

/-! ## Tokens -/

namespace ApprovalToken

/-- `text.rpartition(sep)`: what stands before the last separator, if there is one, and after it. -/
def rpartition (sep : Char) (text : String) : String × String :=
  if sep ∈ text.toList then
    (String.ofList (text.toList.rdropWhile (· ≠ sep)).dropLast, String.ofList (text.toList.rtakeWhile (· ≠ sep)))
  else ("", text)

def ascii (text : String) : Bool := text.toList.all fun c => c.toNat < 128

/-- `hmac.compare_digest`, of text. -/
def compareDigest (a b : String) : Except Exn Bool :=
  if ascii a && ascii b then .ok (a = b)
  else .error (.typeError "comparing strings with non-ASCII characters is not supported")

variable (p : Platform)

def mintApprovalToken (approvalId secret : String) : String := approvalId ++ "." ++ p.hmacSha256 secret approvalId

def verifyApprovalToken (token secret : String) : Except Exn String := do
  let (approvalId, sig) := rpartition '.' token
  if approvalId = "" ∨ sig = "" then
    throw (.signature "malformed approval token")
  if !(← compareDigest (p.hmacSha256 secret approvalId) sig) then
    throw (.signature "invalid approval token")
  return approvalId

variable {p}

/-- A text with a separator is its two parts, with a separator between them. -/
theorem eq_of_rpartition {sep : Char} {text before after : String} (parts : rpartition sep text = (before, after))
    (found : before ≠ "") : text = before ++ String.ofList [sep] ++ after := by
  unfold rpartition at parts
  split at parts
  · next inside =>
      cases parts
      have some_left : text.toList.rdropWhile (· ≠ sep) ≠ [] := by
        rw [ne_eq, List.rdropWhile_eq_nil_iff]
        exact fun none => by simpa using none sep inside
      have last : (text.toList.rdropWhile (· ≠ sep)).getLast some_left = sep := by
        simpa using List.rdropWhile_last_not (fun c => decide (c ≠ sep)) text.toList some_left
      have whole := List.rdropWhile_append_rtakeWhile (p := fun c => decide (c ≠ sep)) (l := text.toList)
      rw [← List.dropLast_append_getLast some_left, last] at whole
      rw [← String.toList_inj]
      simpa using whole.symm
  · cases parts
    exact absurd rfl found

/-- What stands after the last separator is found. -/
theorem rpartition_append {sep : Char} {after : String} (plain : sep ∉ after.toList) (before : String) :
    rpartition sep (before ++ String.ofList [sep] ++ after) = (before, after) := by
  have chars : (before ++ String.ofList [sep] ++ after).toList = before.toList ++ sep :: after.toList := by simp
  have free : ∀ c ∈ after.toList.reverse, decide (c ≠ sep) = true := by
    intro c member
    refine decide_eq_true fun same => plain ?_
    exact same ▸ List.mem_reverse.mp member
  have left : (before.toList ++ sep :: after.toList).rdropWhile (· ≠ sep) = before.toList ++ [sep] := by
    rw [List.rdropWhile, List.reverse_append, List.reverse_cons, List.append_assoc, List.dropWhile_append_of_pos free]
    simp
  have right : (before.toList ++ sep :: after.toList).rtakeWhile (· ≠ sep) = after.toList := by
    rw [List.rtakeWhile, List.reverse_append, List.reverse_cons, List.append_assoc, List.takeWhile_append_of_pos free]
    simp
  rw [rpartition, chars, if_pos (List.mem_append_right _ List.mem_cons_self), left, right, List.dropLast_concat, String.ofList_toList,
    String.ofList_toList]

variable {secret approvalId : String}

/-- Only what was minted for the approval passes. -/
theorem minted_of_verify {token : String} (passes : verifyApprovalToken p token secret = .ok approvalId) :
    token = mintApprovalToken p approvalId secret := by
  unfold verifyApprovalToken at passes
  rcases parts : rpartition '.' token with ⟨id, sig⟩
  rw [parts] at passes
  simp only at passes
  split at passes
  · cases passes
  · next present =>
      obtain ⟨same, compared, passes⟩ := ok_of_bind passes
      have equal : same = true → p.hmacSha256 secret id = sig := by
        rintro rfl
        unfold compareDigest at compared
        split at compared
        · exact of_decide_eq_true (Except.ok.inj compared)
        · cases compared
      cases same with
      | false => cases passes
      | true =>
          obtain rfl : id = approvalId := Except.ok.inj passes
          rw [mintApprovalToken, equal rfl]
          exact eq_of_rpartition parts fun none => present (.inl none)

/-- What was minted passes, where the digest is written in ASCII, and without dots. -/
theorem verify_mint (named : approvalId ≠ "") (digest : p.hmacSha256 secret approvalId ≠ "")
    (plain : '.' ∉ (p.hmacSha256 secret approvalId).toList) (hex : ascii (p.hmacSha256 secret approvalId) = true) :
    verifyApprovalToken p (mintApprovalToken p approvalId secret) secret = .ok approvalId := by
  have parts : rpartition '.' (mintApprovalToken p approvalId secret) = (approvalId, p.hmacSha256 secret approvalId) :=
    rpartition_append plain approvalId
  simp [verifyApprovalToken, parts, named, digest, compareDigest, hex, bind, Except.bind, pure, Except.pure]

end ApprovalToken

/-! ## Requests -/

/-- What the service answers where it raises nothing; what is raised becomes a server error. -/
structure ServiceReply where
  code : Nat
  body : Dict String Json

namespace ApprovalService

open ApprovalGate (GateM process)
open ApprovalToken (mintApprovalToken verifyApprovalToken)

variable {Host : Type} (p : Platform) (secret : String)

/-- `HTTPException(status_code=403, detail=detail)`. -/
def forbidden (detail : String) : ServiceReply := { code := 403, body := [("detail", .str detail)] }

/-- `_check`: how the request is refused, if it is. -/
def check (approvalId token : String) : Except Exn (Option ServiceReply) :=
  if secret = "" then .ok none
  else match verifyApprovalToken p token secret with
    | .ok found => .ok (if found ≠ approvalId then some (forbidden "token/approval mismatch") else none)
    | .error (.signature reason) => .ok (some (forbidden reason))
    | .error e => .error e

variable (repo : Bool) (host : Host)

/-- A request that names an approval and carries a token. -/
def decide (approved : Bool) (status approvalId token : String) : GateM Host ServiceReply := do
  match ← Act.ofExcept (S := ApprovalSig Host) (check p secret approvalId token) with
  | some refusal => return refusal
  | none =>
      ApprovalGate.resolve repo host approvalId { approved }
      return { code := 200, body := [("approval_id", .str approvalId), ("status", .str status)] }

/-- `POST /approvals/{approval_id}/approve`. -/
def approve (approvalId token : String) : GateM Host ServiceReply := decide p secret repo host true "approved" approvalId token

/-- `POST /approvals/{approval_id}/deny`. -/
def deny (approvalId token : String) : GateM Host ServiceReply := decide p secret repo host false "denied" approvalId token

end ApprovalService

/-- Who runs in a process that has a gate: its own code, or a request to its service. -/
inductive ServiceActor (Host : Type) where
  | own (actor : ApprovalActor Host)
  | approve (host : Host) (approvalId token : String)
  | deny (host : Host) (approvalId token : String)

namespace ApprovalService

open ApprovalGate (GateM process)
open ApprovalToken (mintApprovalToken)

variable {Host : Type} (p : Platform) (secret : Host → String) (repo : Bool)

def program : ServiceActor Host → Prog (ApprovalSig Host) (Except Exn Unit)
  | .own actor => ApprovalGate.program repo p.unicode actor
  | .approve host approvalId token => process (approve p (secret host) repo host approvalId token)
  | .deny host approvalId token => process (deny p (secret host) repo host approvalId token)

/-- The gates of all processes and their services; a process is tagged with what it was started for. -/
def machine [DecidableEq Host] :
    Machine (ApprovalSig Host) (ApprovalWorld Host) ApprovalChoice (ServiceActor Host) Empty (ServiceActor Host) where
  perform c w op := ApprovalWorld.perform p.unicode c w op
  program := program p secret repo
  env e _ := e.elim
  tag a := a
  mark a _ _ := a

def start (Host : Type) : Pool (ApprovalSig Host) (ApprovalWorld Host) (ServiceActor Host) := { world := {}, procs := [] }

/-! ## Who decides -/

/-- The calls that ask and wait decide nothing. -/
def asks : ApprovalOp Host → Prop
  | .review _ _ _ | .updateRow _ _ _ | .settle _ _ _ => False
  | _ => True

/-- The calls of a resolution, which decide its approval as it votes. -/
def votes (id : String) (v : Vote) : ApprovalOp Host → Prop
  | .review _ id' v' | .settle _ id' v' => id' = id ∧ v' = v
  | .updateRow id' approved _ => id' = id ∧ approved = v.approved
  | .emit _ _ _ => True
  | _ => False

/-- The token is the one minted for the approval. -/
def Genuine (host : Host) (approvalId token : String) : Prop := token = mintApprovalToken p approvalId (secret host)

/-- What a process calls, by what it was started for; a review decides as it is voted. -/
def decisive : Protocol (ApprovalSig Host) (ServiceActor Host) where
  allowed a op := match a with
    | .own (.resolve _ id v) => votes id v op
    | .own _ => asks op
    | .approve host id token => Genuine p secret host id token ∧ votes id { approved := true } op
    | .deny host id token => Genuine p secret host id token ∧ votes id { approved := false } op
  answers op r := match op, r with
    | .review _ _ v, .ok (.decided approved) => approved = v.approved
    | _, _ => True
  mark a _ _ := a

/-- The process was started to decide the approval in this way, and was let do so. -/
def Decides (a : ServiceActor Host) (id : String) (approved : Bool) : Prop :=
  (∃ host v, a = .own (.resolve host id v) ∧ v.approved = approved) ∨
    ∃ host token, Genuine p secret host id token ∧ a = if approved then .approve host id token else .deny host id token

variable {p secret}

theorem genuine_of_check {host : Host} {approvalId token : String} (set : secret host ≠ "")
    (passes : check p (secret host) approvalId token = .ok none) : Genuine p secret host approvalId token := by
  unfold check at passes
  rw [if_neg set] at passes
  split at passes
  · next found verified =>
      simp only [Except.ok.injEq, ite_eq_right_iff, reduceCtorEq, imp_false, not_not] at passes
      exact passes ▸ ApprovalToken.minted_of_verify verified
  · cases passes
  · cases passes

section programs

variable {a : ServiceActor Host} {id : String} {v : Vote}

theorem resolve_decisive (permitted : ∀ op, votes id v op → (decisive p secret).allowed a op) (repo : Bool) (host : Host) :
    (ApprovalGate.resolve repo host id v).Follows (decisive p secret) (fun _ _ g => g = a) () a := by
  have write : (ApprovalGate.writeRow repo id v.approved v.tenantId : GateM Host Unit).Follows (decisive p secret)
      (fun _ _ g => g = a) () a := by
    cases repo with
    | false => exact Act.follows_pure rfl
    | true => exact Act.follows_await (permitted (.updateRow id v.approved v.tenantId) ⟨rfl, rfl⟩) fun _ _ => rfl
  have tell : (ApprovalGate.gateCall (.emit (ApprovalGate.eventOf v.approved) id v.reason) : GateM Host Unit).Follows
      (decisive p secret) (fun _ _ g => g = a) () a :=
    Act.follows_await (permitted (.emit _ id v.reason) trivial) fun _ _ => rfl
  refine Act.follows_await_bind (permitted (.review host id v) ⟨rfl, rfl⟩) (fun found known => ?_) fun _ _ => rfl
  cases found with
  | refused e => exact Act.follows_throw rfl
  | counted => exact Act.follows_pure rfl
  | decided approved =>
      obtain rfl : approved = v.approved := known
      refine Act.follows_bind write (fun _ _ g same => ?_) fun _ _ _ same => same
      exact same ▸ tell
  | direct held =>
      refine Act.follows_bind write (fun _ _ g same => ?_) fun _ _ _ same => same
      obtain rfl : g = a := same
      cases held with
      | false => exact tell
      | true => exact Act.follows_await_bind (permitted (.settle host id v) ⟨rfl, rfl⟩) (fun _ _ => tell) fun _ _ => rfl

/-- A request goes on to the gate only with the approval's token. -/
theorem decide_decisive {host : Host} {token status : String} {approved : Bool} (set : secret host ≠ "")
    (permitted : Genuine p secret host id token → ∀ op, votes id { approved } op → (decisive p secret).allowed a op) (repo : Bool) :
    (decide p (secret host) repo host approved status id token).Follows (decisive p secret) (fun _ _ g => g = a) () a := by
  refine Act.follows_bind (Q := fun r _ g => g = a ∧ check p (secret host) id token = r) (Act.follows_ofExcept ⟨rfl, rfl⟩)
    (fun refused _ g reached => ?_) fun _ _ _ reached => reached.1
  obtain ⟨rfl, checked⟩ := reached
  cases refused with
  | some reply => exact Act.follows_pure rfl
  | none =>
      have resolved := resolve_decisive (permitted (genuine_of_check set checked)) repo host
      exact Act.follows_bind resolved (fun _ _ _ same => Act.follows_pure same) fun _ _ _ same => same

theorem request_asks (host : Host) (tenantId : String) (runId : RunId) (reason : String) (roles : List String) (parties : Int) :
    (ApprovalGate.request repo host tenantId runId reason roles parties).Uses asks := by
  have call : ∀ op : ApprovalOp Host, asks op → (ApprovalGate.gateCall op).Uses asks := fun _ allowed => Act.uses_await allowed
  have rest : ∀ id, (do
      ApprovalGate.gateCall (.open_ host id roles parties)
      ApprovalGate.gateCall (.emit "approval_requested" id reason)
      return id : GateM Host String).Uses asks := fun id =>
    Act.uses_bind (call (.open_ host id roles parties) trivial) fun _ =>
      Act.uses_bind (call (.emit "approval_requested" id reason) trivial) fun _ => Act.uses_pure _
  cases repo with
  | false => exact Act.uses_bind (call (.draw host runId) trivial) rest
  | true => exact Act.uses_bind (call (.create tenantId runId reason) trivial) rest

theorem waitFor_asks (host : Host) (u : Unicode) (id : String) (turns : Nat) :
    (ApprovalGate.waitFor repo host u id turns).Uses asks := by
  refine fun s => (ApprovalWorld.waitFor_reads repo host u id turns s).mono fun op reads => ?_
  cases op with
  | review _ _ _ | updateRow _ _ _ | settle _ _ _ => exact reads.elim
  | _ => trivial

theorem wait_asks (host : Host) (u : Unicode) (autoApprove : Bool) (tenantId : String) (runId : RunId) (reason : String)
    (roles : List String) (parties : Int) (turns : Nat) :
    (ApprovalGate.wait repo host u autoApprove tenantId runId reason roles parties turns).Uses asks := by
  unfold ApprovalGate.wait
  split
  · exact Act.uses_pure _
  · refine Act.uses_bind (request_asks repo host tenantId runId reason roles parties) fun id =>
      Act.uses_bind (waitFor_asks repo host u id turns) fun found => ?_
    cases found with
    | none => exact Act.uses_pure _
    | some approved => cases approved with
      | true => exact Act.uses_pure _
      | false => exact Act.uses_throw _

/-- Whatever a process was started for, it decides only that. -/
theorem program_decisive (set : ∀ host, secret host ≠ "") (a : ServiceActor Host) :
    (program p secret repo a).Follows (decisive p secret) (fun _ _ => True) a := by
  have asking : ∀ {α : Type} {m : GateM Host α}, (∀ op, asks op → (decisive p secret).allowed a op) → m.Uses asks →
      (process m).Follows (decisive p secret) (fun _ _ => True) a := by
    intro α m permitted uses
    have all : (process m).Uses asks := (uses ()).bind fun _ => trivial
    exact (Prog.Follows.ofUses all permitted fun _ _ _ => rfl).weaken fun _ _ _ => trivial
  have deciding : ∀ {α : Type} {m : GateM Host α}, m.Follows (decisive p secret) (fun _ _ g => g = a) () a →
      (process m).Follows (decisive p secret) (fun _ _ => True) a := by
    intro α m follows
    exact Prog.Follows.bind follows fun _ _ _ => trivial
  cases a with
  | own actor =>
      cases actor with
      | request host tenantId runId reason roles parties =>
          exact asking (fun _ asks => asks) (request_asks repo host tenantId runId reason roles parties)
      | resolve host id v => exact deciding (resolve_decisive (a := .own (.resolve host id v)) (fun _ votes => votes) repo host)
      | waitFor host id turns => exact asking (fun _ asks => asks) (waitFor_asks repo host p.unicode id turns)
      | wait host autoApprove tenantId runId reason roles parties turns =>
          exact asking (fun _ asks => asks) (wait_asks repo host p.unicode autoApprove tenantId runId reason roles parties turns)
  | approve host id token =>
      exact deciding (decide_decisive (a := .approve host id token) (set host) (fun genuine _ votes => ⟨genuine, votes⟩) repo)
  | deny host id token =>
      exact deciding (decide_decisive (a := .deny host id token) (set host) (fun genuine _ votes => ⟨genuine, votes⟩) repo)

end programs

/-! ## What is decided -/

/-- A review decides as it is voted. -/
theorem review_verdict {u : Unicode} {pd pd' : PendingApproval} {id : String} {v : Vote} {b : Bool}
    (reviewed : pd.review u id v = (pd', .decided b)) : b = v.approved := by
  unfold PendingApproval.review at reviewed
  split at reviewed
  · cases reviewed
  · split at reviewed
    · cases reviewed
    · split at reviewed
      · next denied =>
          cases reviewed
          simpa using denied.symm
      · next granted =>
          simp only at reviewed
          split at reviewed
          · cases reviewed
          · cases reviewed
            simpa using granted

theorem review_answers [DecidableEq Host] (u : Unicode) (c : ApprovalChoice) (w : ApprovalWorld Host) (op : ApprovalOp Host) :
    (decisive p secret).answers op (ApprovalWorld.perform u c w op).2 := by
  cases op with
  | review host id v =>
      simp only [ApprovalWorld.perform, ApprovalWorld.awaited, ApprovalWorld.effect, ApprovalWorld.review, Bool.false_eq_true, if_false]
      cases w.pending host id with
      | none => trivial
      | some pd =>
          rcases reviewed : pd.review u id v with ⟨pd', out⟩
          simp only [reviewed]
          cases out with
          | decided b => exact review_verdict reviewed
          | _ => trivial
  | _ => trivial

/-- A decision is the one its process was started for. -/
theorem decides_of_allowed {u : Unicode} {w : ApprovalWorld Host} {a : ServiceActor Host} {op : ApprovalOp Host} {id : String} {b : Bool}
    (allowed : (decisive p secret).allowed a op) (deciding : ApprovalWorld.decision u w op = some (id, b)) :
    Decides p secret a id b := by
  have voted : ∀ {id' v}, votes id' v op → id' = id ∧ v.approved = b := by
    intro id' v votes
    cases op with
    | review host id'' v' =>
        obtain ⟨rfl, rfl⟩ := votes
        obtain ⟨pd, _, found⟩ := Option.bind_eq_some_iff.mp deciding
        rcases reviewed : pd.review u id'' v' with ⟨pd', out⟩
        rw [reviewed] at found
        cases out with
        | decided b' =>
            cases found
            exact ⟨rfl, (review_verdict reviewed).symm⟩
        | _ => cases found
    | updateRow id'' approved t =>
        obtain ⟨rfl, rfl⟩ := votes
        simp only [ApprovalWorld.decision] at deciding
        split at deciding
        · cases deciding
          exact ⟨rfl, rfl⟩
        · cases deciding
    | settle host id'' v' =>
        obtain ⟨rfl, rfl⟩ := votes
        simp only [ApprovalWorld.decision] at deciding
        split at deciding
        · cases deciding
          exact ⟨rfl, rfl⟩
        · cases deciding
    | emit _ _ _ => cases deciding
    | _ => exact votes.elim
  have idle : ¬ asks op := by
    cases op with
    | review _ _ _ | updateRow _ _ _ | settle _ _ _ => exact not_false
    | _ => cases deciding
  cases a with
  | own actor =>
      cases actor with
      | resolve host id' v =>
          obtain ⟨rfl, rfl⟩ := voted allowed
          exact .inl ⟨host, v, rfl, rfl⟩
      | _ => exact absurd allowed idle
  | approve host id' token =>
      obtain ⟨rfl, rfl⟩ := voted allowed.2
      exact .inr ⟨host, token, allowed.1, rfl⟩
  | deny host id' token =>
      obtain ⟨rfl, rfl⟩ := voted allowed.2
      exact .inr ⟨host, token, allowed.1, rfl⟩

end ApprovalService

namespace ApprovalWorld

variable {Host : Type} {w : ApprovalWorld Host} {B : String → Bool → Prop}

/-- Whatever a waiter may read or has returned is a decision there is a reason for. -/
structure Backed (B : String → Bool → Prop) (w : ApprovalWorld Host) : Prop where
  flags : ∀ host id b, w.flag host id = some b → B id b
  rows : ∀ id b, w.rowSignal id = some b → B id b
  answers : ∀ id b, (id, b) ∈ w.answers → B id b

theorem Backed.mono {B' : String → Bool → Prop} (backed : Backed B w) (more : ∀ id b, B id b → B' id b) : Backed B' w where
  flags host id b seen := more id b (backed.flags host id b seen)
  rows id b seen := more id b (backed.rows id b seen)
  answers id b seen := more id b (backed.answers id b seen)

theorem Backed.decideFirst (backed : Backed B w) (id : String) (b : Bool) : Backed B (w.decideFirst id b) where
  flags host id' b' seen := backed.flags host id' b' (flag_decideFirst w id b host id' ▸ seen)
  rows id' b' seen := backed.rows id' b' (by rwa [rowSignal, decideFirst_rows] at seen)
  answers id' b' seen := backed.answers id' b' (decideFirst_answers w id b ▸ seen)

theorem Backed.answered (backed : Backed B w) {id : String} {out : Option Bool} (known : ∀ b, out = some b → B id b) :
    Backed B (w.answer id out) := by
  cases out with
  | none => exact backed
  | some b =>
      refine ⟨backed.flags, backed.rows, fun id' b' seen => ?_⟩
      rcases List.mem_append.mp seen with old | new
      · exact backed.answers id' b' old
      · cases List.mem_singleton.mp new
        exact known b rfl

variable [DecidableEq Host] {u : Unicode}

theorem Backed.setPending (backed : Backed B w) {host : Host} {id : String} {pd : PendingApproval}
    (signal : ∀ b, pd.signal = some b → B id b) : Backed B (w.setPending host id pd) := by
  refine ⟨fun host' id' b seen => ?_, backed.rows, backed.answers⟩
  rw [flag_setPending] at seen
  split at seen
  · next here => exact here.2 ▸ signal b seen
  · exact backed.flags host' id' b seen

/-- A call whose decision there is a reason for. -/
theorem Backed.effect (backed : Backed B w) (c : ApprovalChoice) {op : ApprovalOp Host}
    (deciding : ∀ id b, decision u w op = some (id, b) → B id b) : Backed B (ApprovalWorld.effect u c w op).1 := by
  cases op with
  | create tenantId runId reason =>
      simp only [ApprovalWorld.effect]
      split
      · exact backed
      · refine ⟨backed.flags, fun id b seen => ?_, backed.answers⟩
        simp only [rowSignal, Dict.get_append] at seen
        cases found : Dict.get w.rows id with
        | some row => exact backed.rows id b (by simpa [rowSignal, found] using seen)
        | none =>
            -- a row just created is pending
            simp only [found, Dict.get] at seen
            split at seen
            · cases seen
            · cases seen
  | open_ host id roles parties =>
      have opened : Backed B (w.setPending host id { requiredRoles := roles, parties }) := backed.setPending (by rintro _ ⟨⟩)
      exact ⟨opened.flags, opened.rows, opened.answers⟩
  | review host id v =>
      cases held : w.pending host id with
      | none =>
          simp only [ApprovalWorld.effect, review, held]
          exact backed
      | some pd =>
          rcases reviewed : pd.review u id v with ⟨pd', out⟩
          simp only [ApprovalWorld.effect, review, held, reviewed]
          cases out with
          | decided b =>
              refine (backed.setPending fun b' seen => ?_).decideFirst id b
              rw [PendingApproval.review_decided reviewed] at seen
              exact Option.some.inj seen ▸ deciding id b (by simp only [decision, held, Option.bind_some, reviewed])
          | _ =>
              refine backed.setPending fun b seen => ?_
              rw [PendingApproval.review_signal reviewed (by rintro _ ⟨⟩)] at seen
              exact backed.flags host id b (by rw [flag, held]; exact seen)
  | updateRow id b t =>
      have written : Backed B { w with rows := PostgresApprovalRepo.resolve w.rows id b t } := by
        refine ⟨backed.flags, fun id' b' seen => ?_, backed.answers⟩
        rcases get_resolve w.rows id b t id' with same | ⟨rfl, found, wrote⟩
        · exact backed.rows id' b' (same.symm.trans seen)
        · obtain rfl : b = b' := Option.some.inj (wrote.symm.trans seen)
          exact deciding id' b (by simp only [decision, found, if_true])
      simp only [ApprovalWorld.effect, updateRow]
      split
      · exact written.decideFirst id b
      · exact written
  | settle host id v =>
      cases held : w.pending host id with
      | none =>
          simp only [ApprovalWorld.effect, held]
          exact backed
      | some pd =>
          simp only [ApprovalWorld.effect, held]
          refine (backed.setPending fun b seen => ?_).decideFirst id v.approved
          obtain rfl : v.approved = b := Option.some.inj seen
          exact deciding id v.approved (by simp [decision, held])
  | peek host id => exact backed.answered (backed.flags host id)
  | fetchRow id => exact backed.answered (backed.rows id)
  | draw host runId => exact ⟨backed.flags, backed.rows, backed.answers⟩
  | _ => exact backed

theorem Backed.perform (backed : Backed B w) (c : ApprovalChoice) {op : ApprovalOp Host}
    (deciding : ∀ id b, decision u w op = some (id, b) → B id b) : Backed B (ApprovalWorld.perform u c w op).1 := by
  rcases perform_world (u := u) c w op with same | same
  · rw [same]
    exact backed
  · rw [same]
    exact backed.effect c deciding

end ApprovalWorld

namespace ApprovalService

open ApprovalToken (mintApprovalToken)

variable {Host : Type} [DecidableEq Host] {p : Platform} {secret : Host → String} {repo : Bool}

/-- Somebody was started to decide so, and was let do so. -/
def Reason (p : Platform) (secret : Host → String) (q : Pool (ApprovalSig Host) (ApprovalWorld Host) (ServiceActor Host)) (id : String)
    (approved : Bool) : Prop := ∃ x ∈ q.procs, Decides p secret x.tag id approved

theorem Reason.later {q q' : Pool (ApprovalSig Host) (ApprovalWorld Host) (ServiceActor Host)}
    {l : Label ApprovalChoice (ServiceActor Host) Empty} (step : (machine p secret repo).step q l = some q') {id : String} {approved : Bool}
    (reason : Reason p secret q id approved) : Reason p secret q' id approved := by
  obtain ⟨x, member, decides⟩ := reason
  obtain ⟨x', member', same⟩ := Machine.step_started (M := machine p secret repo) (fun _ _ _ => rfl) step member
  exact ⟨x', member', same ▸ decides⟩

/-- Every process does what it was started for, and whatever is decided there is a reason for. -/
structure Accounted (p : Platform) (secret : Host → String) (q : Pool (ApprovalSig Host) (ApprovalWorld Host) (ServiceActor Host)) :
    Prop where
  follow : Machine.AllFollow (decisive p secret) (fun _ _ => True) q
  backed : ApprovalWorld.Backed (Reason p secret q) q.world

theorem Accounted.step (set : ∀ host, secret host ≠ "") {q q' : Pool (ApprovalSig Host) (ApprovalWorld Host) (ServiceActor Host)}
    {l : Label ApprovalChoice (ServiceActor Host) Empty} (accounted : Accounted p secret q)
    (step : (machine p secret repo).step q l = some q') : Accounted p secret q' := by
  refine ⟨?_, ?_⟩
  · exact Machine.step_allFollow rfl (program_decisive repo set) accounted.follow step fun i c op _ _ _ _ => review_answers p.unicode c q.world op
  · have earlier := accounted.backed.mono fun _ _ reason => reason.later step
    rcases Machine.step_cases step with ⟨a, rfl, rfl⟩ | ⟨i, c, op, k, g, rfl, found, rfl⟩ | ⟨i, b, rfl, found, rfl⟩ | ⟨e, rfl, rfl⟩
    · exact earlier
    · have deciding : ∀ id b, ApprovalWorld.decision p.unicode q.world op = some (id, b) → Reason p secret q id b :=
        fun id b decided => ⟨_, List.mem_of_getElem? found, decides_of_allowed (accounted.follow.allowed found) decided⟩
      exact earlier.perform c fun id b decided => (deciding id b decided).later step
    · exact earlier
    · exact e.elim

end ApprovalService
end Maof
