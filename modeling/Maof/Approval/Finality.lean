import Maof.Approval.Parties

/-!
# The first decision stands

Requests, resolutions and waiters of any number of processes, interleaved call
by call. The gate's flag and the row are written without looking at what was
decided before; where no call goes against the first decision, every copy and
every waiter agrees with it for ever.
-/

namespace Maof

open Data (Dict)
open Effects (Act Prog Machine Pool Protocol Label)

inductive ApprovalActor (Host : Type) where
  | request (host : Host) (tenantId : String) (runId : RunId) (reason : String) (roles : List String)
      (parties : Int)
  | resolve (host : Host) (approvalId : String) (vote : Vote)
  | waitFor (host : Host) (approvalId : String) (turns : Nat)
  | wait (host : Host) (autoApprove : Bool) (tenantId : String) (runId : RunId) (reason : String)
      (roles : List String) (parties : Int) (turns : Nat)

namespace ApprovalGate

variable {Host : Type}

def process {α : Type} (m : GateM Host α) : Prog (ApprovalSig Host) (Except Exn Unit) :=
  (m ()).bind fun out => .ret (out.1.map fun _ => ())

def program (repo : Bool) (u : Unicode) : ApprovalActor Host → Prog (ApprovalSig Host) (Except Exn Unit)
  | .request host tenantId runId reason roles parties =>
      process (request repo host tenantId runId reason roles parties)
  | .resolve host approvalId vote => process (resolve repo host approvalId vote)
  | .waitFor host approvalId turns => process (waitFor repo host u approvalId turns)
  | .wait host autoApprove tenantId runId reason roles parties turns =>
      process (wait repo host u autoApprove tenantId runId reason roles parties turns)

/-- The gates of all processes; a process is tagged with the call it was started by. -/
def machine [DecidableEq Host] (repo : Bool) (u : Unicode) :
    Machine (ApprovalSig Host) (ApprovalWorld Host) ApprovalChoice (ApprovalActor Host) Empty
      (ApprovalActor Host) where
  perform c w op := ApprovalWorld.perform u c w op
  program := program repo u
  env e _ := e.elim
  tag a := a
  mark a _ _ := a

def start (Host : Type) : Pool (ApprovalSig Host) (ApprovalWorld Host) (ApprovalActor Host) :=
  { world := {}, procs := [] }

/-! ## What a waiter returns -/

/-- The tag is what the last look at the event or the row found. -/
def looks (Host : Type) : Protocol (ApprovalSig Host) (Option (String × Bool)) where
  allowed _ _ := True
  answers _ _ := True
  mark g op r := match op, r with
    | .peek _ id, .ok (some b) => some (id, b)
    | .fetchRow id, .ok (some b) => some (id, b)
    | _, _ => g

theorem look_looks (repo : Bool) (host : Host) (held : Bool) (id : String) (g : Option (String × Bool)) :
    (look repo host held id).Follows (looks Host) (fun r _ g' => ∀ b, r = .ok (some b) → g' = some (id, b))
      () g := by
  have row : ∀ g, ((if repo then gateCall (.fetchRow id) else return none : GateM Host (Option Bool))).Follows
      (looks Host) (fun r _ g' => ∀ b, r = .ok (some b) → g' = some (id, b)) () g := by
    intro g
    cases repo with
    | false => exact Effects.Act.follows_pure (by rintro _ ⟨⟩)
    | true =>
        refine ⟨trivial, fun r _ => ?_⟩
        rintro b rfl
        rfl
  cases held with
  | false => exact Effects.Act.follows_pure_bind (row g)
  | true =>
      refine Effects.Act.follows_await_bind trivial (fun found _ => ?_) (by rintro _ _ _ ⟨⟩)
      cases found with
      | none => exact row _
      | some b =>
          refine Effects.Act.follows_pure ?_
          rintro _ ⟨⟩
          rfl

theorem poll_looks (repo : Bool) (host : Host) (u : Unicode) (held : Bool) (id : String) (turns : Nat)
    (g : Option (String × Bool)) :
    (poll repo host u held id turns).Follows (looks Host)
      (fun r _ g' => ∀ b, r = .ok (some b) → g' = some (id, b)) () g := by
  induction turns generalizing g with
  | zero => exact Effects.Act.follows_pure (by rintro _ ⟨⟩)
  | succ turns ih =>
      refine Effects.Act.follows_bind (look_looks repo host held id g) (fun found _ g' reached => ?_)
        (by rintro _ _ _ _ _ ⟨⟩)
      cases found with
      | some b =>
          refine Effects.Act.follows_pure ?_
          rintro _ ⟨⟩
          exact reached b rfl
      | none =>
          refine Effects.Act.follows_await_bind trivial (fun late _ => ?_) (by rintro _ _ _ ⟨⟩)
          cases late with
          | true => exact Effects.Act.follows_throw (by rintro _ ⟨⟩)
          | false => exact ih _

/-- A waiter returns what its last look found. -/
theorem waitFor_looks (repo : Bool) (host : Host) (u : Unicode) (id : String) (turns : Nat)
    (g : Option (String × Bool)) :
    (waitFor repo host u id turns).Follows (looks Host)
      (fun r _ g' => ∀ b, r = .ok (some b) → g' = some (id, b)) () g := by
  refine Effects.Act.follows_await_bind trivial (fun held _ => ?_) (by rintro _ _ _ ⟨⟩)
  split
  · exact Effects.Act.follows_throw (by rintro _ ⟨⟩)
  · exact poll_looks repo host u held id turns _

end ApprovalGate

/-! ## Decisions -/

namespace PendingApproval

/-- A review that decides nothing leaves the signal as it was. -/
theorem review_signal {u : Unicode} {pd pd' : PendingApproval} {id : String} {v : Vote} {out : Review}
    (h : pd.review u id v = (pd', out)) (idle : ∀ b, out ≠ .decided b) : pd'.signal = pd.signal := by
  unfold PendingApproval.review at h
  split at h
  · cases h; rfl
  · split at h
    · cases h; rfl
    · split at h
      · cases h; exact absurd rfl (idle false)
      · simp only at h
        split at h
        · cases h
          unfold PendingApproval.count
          split
          · rfl
          · split <;> rfl
        · cases h; exact absurd rfl (idle true)

end PendingApproval

namespace ApprovalWorld

variable {Host : Type}

/-- What a call is about to decide, and of which approval. -/
def decision (u : Unicode) (w : ApprovalWorld Host) : ApprovalOp Host → Option (String × Bool)
  | .review host id v =>
      (w.pending host id).bind fun pd => match (pd.review u id v).2 with
        | .decided b => some (id, b)
        | _ => none
  | .settle host id v => if (w.pending host id).isSome then some (id, v.approved) else none
  | .updateRow id b t => if PostgresApprovalRepo.finds w.rows id t then some (id, b) else none
  | _ => none

/-- Whether a call counts the parties before it decides. -/
def counts : ApprovalOp Host → Bool
  | .review _ _ _ => true
  | _ => false

/-- The call goes against no earlier decision, and is not the first one on a role-bound
approval without counting its parties. -/
def settles (u : Unicode) (w : ApprovalWorld Host) (op : ApprovalOp Host) : Bool :=
  match decision u w op with
  | none => true
  | some (id, b) =>
      match Dict.get w.decided id with
      | some b' => b' = b
      | none => counts op || !decide (id ∈ w.roleBound)

/-- What the gate of a process tells its waiters. -/
def flag (w : ApprovalWorld Host) (host : Host) (id : String) : Option Bool :=
  (w.pending host id).bind PendingApproval.signal

/-- Every flag a waiter may read, every decided row and every answer is the first decision. -/
structure Final (w : ApprovalWorld Host) : Prop where
  flags : ∀ host id b, w.flag host id = some b → Dict.get w.decided id = some b
  rows : ∀ id b, w.rowSignal id = some b → Dict.get w.decided id = some b
  answers : ∀ id b, (id, b) ∈ w.answers → Dict.get w.decided id = some b

variable {u : Unicode} {w : ApprovalWorld Host}

theorem get_decideFirst (w : ApprovalWorld Host) (id : String) (b : Bool) (id' : String) :
    Dict.get (w.decideFirst id b).decided id' =
      (Dict.get w.decided id').orElse fun _ => if id = id' then some b else none := by
  unfold decideFirst
  cases before : Dict.get w.decided id with
  | some b' =>
      by_cases same : id = id'
      · subst same
        simp [before]
      · simp [same]
  | none =>
      show Dict.get (w.decided ++ [(id, b)]) id' = _
      rw [Dict.get_append]
      rfl

theorem decided_mono (w : ApprovalWorld Host) (id : String) (b : Bool) {id' : String} {b' : Bool}
    (h : Dict.get w.decided id' = some b') : Dict.get (w.decideFirst id b).decided id' = some b' := by
  rw [get_decideFirst, h]
  rfl

/-- A decision that goes against none stands afterwards. -/
theorem decided_self {id : String} {b : Bool} (agrees : ∀ b', Dict.get w.decided id = some b' → b' = b) :
    Dict.get (w.decideFirst id b).decided id = some b := by
  rw [get_decideFirst]
  cases before : Dict.get w.decided id with
  | some b' => rw [agrees b' before]; rfl
  | none => simp

/-- What was so before, or is the first decision now. -/
theorem Final.step {w' : ApprovalWorld Host} (h : Final w)
    (mono : ∀ id b, Dict.get w.decided id = some b → Dict.get w'.decided id = some b)
    (flags : ∀ host id b, w'.flag host id = some b → w.flag host id = some b ∨ Dict.get w'.decided id = some b)
    (rows : ∀ id b, w'.rowSignal id = some b → w.rowSignal id = some b ∨ Dict.get w'.decided id = some b)
    (answers : ∀ id b, (id, b) ∈ w'.answers → (id, b) ∈ w.answers ∨ Dict.get w'.decided id = some b) :
    Final w' where
  flags host id b seen := (flags host id b seen).elim (fun old => mono id b (h.flags host id b old)) fun new => new
  rows id b seen := (rows id b seen).elim (fun old => mono id b (h.rows id b old)) fun new => new
  answers id b seen := (answers id b seen).elim (fun old => mono id b (h.answers id b old)) fun new => new

theorem flag_decideFirst (w : ApprovalWorld Host) (id : String) (b : Bool) (host : Host) (id' : String) :
    (w.decideFirst id b).flag host id' = w.flag host id' :=
  congrArg (Option.bind · PendingApproval.signal) (pending_decideFirst w id b host id')

theorem decideFirst_answers (w : ApprovalWorld Host) (id : String) (b : Bool) :
    (w.decideFirst id b).answers = w.answers := by
  unfold decideFirst
  split <;> rfl

theorem Final.answered (h : Final w) {id : String} {out : Option Bool}
    (known : ∀ b, out = some b → Dict.get w.decided id = some b) : Final (w.answer id out) := by
  cases out with
  | none => exact h
  | some b =>
      refine h.step (fun _ _ old => old) (fun _ _ _ => .inl) (fun _ _ => .inl) fun id' b' seen => ?_
      rcases List.mem_append.mp seen with old | new
      · exact .inl old
      · cases List.mem_singleton.mp new
        exact .inr (known b rfl)

variable [DecidableEq Host]

theorem flag_setPending (w : ApprovalWorld Host) (host host' : Host) (id id' : String) (pd : PendingApproval) :
    (w.setPending host id pd).flag host' id' =
      if host = host' ∧ id = id' then pd.signal else w.flag host' id' := by
  unfold flag
  rw [pending_setPending]
  split
  · rfl
  · rfl

/-- A pending approval takes a decision. -/
theorem Final.flagged (h : Final w) {host : Host} {id : String} {b : Bool} {pd : PendingApproval}
    (signal : pd.signal = some b) (agrees : ∀ b', Dict.get w.decided id = some b' → b' = b) :
    Final ((w.setPending host id pd).decideFirst id b) := by
  refine h.step (fun id' b' old => decided_mono (w.setPending host id pd) id b old) (fun host' id' b' seen => ?_) (fun id' b' seen => ?_)
    (fun id' b' seen => ?_)
  · rw [flag_decideFirst, flag_setPending] at seen
    split at seen
    · next here =>
        obtain rfl : b = b' := Option.some.inj (signal.symm.trans seen)
        rw [← here.2]
        exact .inr (decided_self agrees)
    · exact .inl seen
  · rw [rowSignal, decideFirst_rows] at seen
    exact .inl seen
  · rw [decideFirst_answers] at seen
    exact .inl seen

theorem get_resolve (rows : Dict String ApprovalRow) (id : String) (b : Bool) (t : Option String)
    (id' : String) : (Dict.get (PostgresApprovalRepo.resolve rows id b t) id').bind (fun row => row.status.signal) =
        (Dict.get rows id').bind (fun row => row.status.signal) ∨
      (id' = id ∧ PostgresApprovalRepo.finds rows id t = true ∧
        (Dict.get (PostgresApprovalRepo.resolve rows id b t) id').bind (fun row => row.status.signal) = some b) := by
  by_cases same : id' = id
  · subst same
    induction rows with
    | nil => exact .inl rfl
    | cons kv rows ih =>
        simp only [PostgresApprovalRepo.resolve, PostgresApprovalRepo.finds, List.map_cons, List.any_cons] at ih ⊢
        by_cases here : kv.1 = id'
        · by_cases owned : PostgresApprovalRepo.ownedBy t kv.2 = true
          · refine .inr ⟨trivial, by simp [here, owned], ?_⟩
            rw [if_pos ⟨here, owned⟩]
            cases b with
            | false => simp [Dict.get, here, ApprovalStatus.ofFlag, ApprovalStatus.signal]
            | true => simp [Dict.get, here, ApprovalStatus.ofFlag, ApprovalStatus.signal]
          · rw [if_neg fun both => owned both.2]
            exact .inl (by simp [Dict.get, here])
        · rw [if_neg fun both => here both.1]
          simpa [Dict.get, here] using ih
  · exact .inl (by rw [get_resolve_ne rows (Ne.symm same)])

end ApprovalWorld

namespace ApprovalGate

variable {Host : Type}

/-- A resolution calls about its own approval. -/
def callsOf (Host : Type) : Protocol (ApprovalSig Host) (ApprovalActor Host) where
  allowed a op := match a with
    | .resolve _ id _ => ApprovalWorld.about id op
    | _ => True
  answers _ _ := True
  mark a _ _ := a

theorem program_follows (repo : Bool) (u : Unicode) (a : ApprovalActor Host) :
    (program repo u a).Follows (callsOf Host) (fun _ _ => True) a := by
  have within : (program repo u a).Uses ((callsOf Host).allowed a) := by
    cases a with
    | resolve host id v => exact (ApprovalWorld.resolve_uses repo id v ()).bind fun _ => trivial
    | _ => exact Effects.Prog.Uses.all (fun _ => trivial) _
  exact (Effects.Prog.Follows.ofUses within (fun _ => id) fun _ _ _ => rfl).weaken fun _ _ _ => trivial

variable [DecidableEq Host] {repo : Bool} {u : Unicode}

/-- Every call taken goes against no decision. -/
def settling (u : Unicode) (p : Pool (ApprovalSig Host) (ApprovalWorld Host) (ApprovalActor Host))
    (l : Label ApprovalChoice (ApprovalActor Host) Empty) : Bool :=
  match l with
  | .run i _ => (p.next i).all (ApprovalWorld.settles u p.world)
  | _ => true

end ApprovalGate
end Maof
