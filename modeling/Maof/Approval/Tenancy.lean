import Maof.Approval.Roles

/-!
# Tenants

A call of another tenant never writes the row. It writes the gate of the process
that holds the approval, unless that gate's role check refuses it.
-/

namespace Maof

open Data (Dict)
open Effects (Prog)
open ApprovalWorld (votesOn)

/-- The call carries the id of another tenant. -/
def Vote.foreign (t : String) (v : Vote) : Bool :=
  match v.tenantId with
  | some t' => t' ≠ t
  | none => false

namespace ApprovalWorld

variable {Host : Type} {repo : Bool} {u : Unicode} {host : Host} {w w' : ApprovalWorld Host}
  {id t : String} {roles : List String}

/-- Two worlds have the same gates and the same row for an approval. -/
def Alike (id : String) (w w' : ApprovalWorld Host) : Prop :=
  (∀ host, w.pending host id = w'.pending host id) ∧ Dict.get w.rows id = Dict.get w'.rows id

theorem get_resolve_self (rows : Dict String ApprovalRow) (id : String) (b : Bool) (t : Option String) :
    Dict.get (PostgresApprovalRepo.resolve rows id b t) id = (Dict.get rows id).map fun row =>
      if PostgresApprovalRepo.ownedBy t row = true then { row with status := .ofFlag b } else row := by
  induction rows with
  | nil => rfl
  | cons kv rows ih =>
      simp only [PostgresApprovalRepo.resolve, List.map_cons] at ih ⊢
      by_cases mine : kv.1 = id
      · by_cases owned : PostgresApprovalRepo.ownedBy t kv.2 = true
        · simp [Dict.get, mine, owned]
        · simp [Dict.get, mine, owned]
      · rw [if_neg fun both => mine both.1]
        simpa [Dict.get, mine] using ih

/-- The calls of resolutions of an approval and of its waiters. -/
def concerns (id : String) : ApprovalOp Host → Prop
  | .review _ id' _ | .updateRow id' _ _ | .settle _ id' _ | .emit _ id' _ | .held _ id' | .peek _ id'
  | .fetchRow id' => id' = id
  | .expired => True
  | _ => False

theorem alike_decideFirst (h : Alike id w w') (b : Bool) :
    Alike id (w.decideFirst id b) (w'.decideFirst id b) := by
  refine ⟨fun host => ?_, ?_⟩
  · rw [pending, pending, pending_decideFirst, pending_decideFirst]
    exact h.1 host
  · rw [decideFirst_rows, decideFirst_rows]
    exact h.2

theorem alike_answer (h : Alike id w w') (out : Option Bool) : Alike id (w.answer id out) (w'.answer id out) := by
  cases out with
  | none => exact h
  | some b => exact h

theorem pending_updateRow (w : ApprovalWorld Host) (id : String) (b : Bool) (t : Option String) (host : Host)
    (id' : String) : (w.updateRow id b t).pending host id' = w.pending host id' := by
  simp only [updateRow]
  split
  · exact pending_decideFirst { w with rows := PostgresApprovalRepo.resolve w.rows id b t } id b host id'
  · rfl

theorem updateRow_rows (w : ApprovalWorld Host) (id : String) (b : Bool) (t : Option String) :
    (w.updateRow id b t).rows = PostgresApprovalRepo.resolve w.rows id b t := by
  simp only [updateRow]
  split
  · exact decideFirst_rows _ _ _
  · rfl

/-- The calls of an approval's waiters. -/
def reads (id : String) : ApprovalOp Host → Prop
  | .held _ id' | .peek _ id' | .fetchRow id' => id' = id
  | .expired => True
  | _ => False

theorem waitFor_reads (repo : Bool) (host : Host) (u : Unicode) (id : String) (turns : Nat) :
    (ApprovalGate.waitFor repo host u id turns).Uses (reads id) := by
  have look : ∀ held, (ApprovalGate.look repo host held id).Uses (reads id) := by
    intro held
    have row : (if repo then ApprovalGate.gateCall (.fetchRow id) else return none :
        ApprovalGate.GateM Host (Option Bool)).Uses (reads id) := by
      cases repo with
      | false => exact Effects.Act.uses_pure _
      | true => exact Effects.Act.uses_await rfl
    refine Effects.Act.uses_bind ?_ fun found => ?_
    · cases held with
      | false => exact Effects.Act.uses_pure _
      | true => exact Effects.Act.uses_await rfl
    · cases found with
      | none => exact row
      | some b => exact Effects.Act.uses_pure _
  have poll : ∀ held turns, (ApprovalGate.poll repo host u held id turns).Uses (reads id) := by
    intro held turns
    induction turns with
    | zero => exact Effects.Act.uses_pure _
    | succ turns ih =>
        refine Effects.Act.uses_bind (look held) fun found => ?_
        cases found with
        | some b => exact Effects.Act.uses_pure _
        | none =>
            refine Effects.Act.uses_bind (Effects.Act.uses_await trivial) fun late => ?_
            cases late with
            | true => exact Effects.Act.uses_throw _
            | false => exact ih
  refine Effects.Act.uses_bind (Effects.Act.uses_await rfl) fun held => ?_
  split
  · exact Effects.Act.uses_throw _
  · exact poll _ _

theorem waitFor_uses (repo : Bool) (host : Host) (u : Unicode) (id : String) (turns : Nat) :
    (ApprovalGate.waitFor repo host u id turns).Uses (concerns id) := by
  refine fun s => (waitFor_reads repo host u id turns s).mono fun op reads => ?_
  cases op with
  | held _ _ | peek _ _ | fetchRow _ | expired => exact reads
  | _ => exact reads.elim

/-- One process holds the approval, and its row, if any, is the tenant's. -/
structure Held (holder : Host) (roles : List String) (t id : String) (w : ApprovalWorld Host) : Prop where
  bound : ∃ pd, w.pending holder id = some pd ∧ pd.requiredRoles = roles
  alone : ∀ host, host ≠ holder → w.pending host id = none
  owned : ∀ row, Dict.get w.rows id = some row → row.tenantId = t

theorem Held.alike {holder : Host} (h : Held holder roles t id w) (alike : Alike id w w') :
    Held holder roles t id w' where
  bound := alike.1 holder ▸ h.bound
  alone host other := (alike.1 host).symm.trans (h.alone host other)
  owned row found := h.owned row (alike.2.trans found)

theorem Held.decideFirst {holder : Host} (h : Held holder roles t id w) (id' : String) (b : Bool) :
    Held holder roles t id (w.decideFirst id' b) where
  bound := by
    rw [pending, pending_decideFirst]
    exact h.bound
  alone host other := (pending_decideFirst _ _ _ _ _).trans (h.alone host other)
  owned := by
    rw [decideFirst_rows]
    exact h.owned

/-- The calls of a resolution that finds no pending approval. -/
def writes (id : String) (v : Vote) (op : ApprovalOp Host) : Prop :=
  op = .updateRow id v.approved v.tenantId ∨ op = .emit (ApprovalGate.eventOf v.approved) id v.reason

theorem unheld_uses (host : Host) (repo : Bool) (id : String) (v : Vote) :
    (do ApprovalGate.writeRow repo id v.approved v.tenantId
        if false then ApprovalGate.gateCall (.settle host id v)
        ApprovalGate.gateCall (.emit (ApprovalGate.eventOf v.approved) id v.reason) :
      ApprovalGate.GateM Host Unit).Uses (writes id v) := by
  refine Effects.Act.uses_bind ?_ fun _ => Effects.Act.uses_await (.inr rfl)
  unfold ApprovalGate.writeRow
  split
  · exact Effects.Act.uses_await (.inl rfl)
  · exact Effects.Act.uses_pure _

variable [DecidableEq Host]

/-- The gates of all processes resolve, call after call. -/
def afterAll (repo : Bool) (u : Unicode) (calls : List (Host × ResolveCall)) (w : ApprovalWorld Host) :
    ApprovalWorld Host :=
  calls.foldl (fun w call =>
    ((ApprovalGate.resolve repo call.1 call.2.approvalId call.2.vote ()).eval (perform u call.2.choice) w).2) w

/-- What a waiter that looks at an approval returns, so far. -/
def outcome (repo : Bool) (u : Unicode) (host : Host) (id : String) (turns : Nat) (c : ApprovalChoice)
    (w : ApprovalWorld Host) : Except Exn (Option Bool) :=
  ((ApprovalGate.waitFor repo host u id turns ()).eval (perform u c) w).1.1

theorem alike_setPending (h : Alike id w w') (host : Host) (pd : PendingApproval) :
    Alike id (w.setPending host id pd) (w'.setPending host id pd) := by
  refine ⟨fun host' => ?_, h.2⟩
  rw [pending_setPending, pending_setPending, h.1]

/-- Nothing a call reads or writes of an approval tells alike worlds apart. -/
theorem effect_alike (c : ApprovalChoice) (h : Alike id w w') {op : ApprovalOp Host} (mine : concerns id op) :
    (effect u c w op).2 = (effect u c w' op).2 ∧ Alike id (effect u c w op).1 (effect u c w' op).1 := by
  cases op with
  | review host id' v =>
      obtain rfl : id' = id := mine
      simp only [effect, review, h.1 host]
      cases w'.pending host id' with
      | none => exact ⟨rfl, h⟩
      | some pd =>
          rcases reviewed : pd.review u id' v with ⟨pd', out⟩
          cases out with
          | decided b => simpa only [reviewed] using ⟨trivial, alike_decideFirst (alike_setPending h host pd') b⟩
          | _ => simpa only [reviewed] using ⟨trivial, alike_setPending h host pd'⟩
  | updateRow id' b t =>
      obtain rfl : id' = id := mine
      refine ⟨rfl, fun host => ?_, ?_⟩
      · rw [effect, pending_updateRow, effect, pending_updateRow, h.1]
      · rw [effect, updateRow_rows, effect, updateRow_rows, get_resolve_self, get_resolve_self, h.2]
  | settle host id' v =>
      obtain rfl : id' = id := mine
      simp only [effect, h.1 host]
      cases w'.pending host id' with
      | none => exact ⟨rfl, h⟩
      | some pd => exact ⟨rfl, alike_decideFirst (alike_setPending h host _) _⟩
  | held host id' =>
      obtain rfl : id' = id := mine
      exact ⟨by simp only [effect, h.1 host], h⟩
  | peek host id' =>
      obtain rfl : id' = id := mine
      simp only [effect, h.1 host]
      exact ⟨trivial, alike_answer h _⟩
  | fetchRow id' =>
      obtain rfl : id' = id := mine
      simp only [effect, h.2]
      exact ⟨trivial, alike_answer h _⟩
  | emit _ _ _ => exact ⟨rfl, h⟩
  | expired => exact ⟨rfl, h⟩
  | _ => cases mine

theorem perform_alike (c : ApprovalChoice) (h : Alike id w w') {op : ApprovalOp Host} (mine : concerns id op) :
    (perform u c w op).2 = (perform u c w' op).2 ∧ Alike id (perform u c w op).1 (perform u c w' op).1 := by
  have done := effect_alike (u := u) c h mine
  unfold perform
  split
  · split
    · exact done
    · exact ⟨rfl, h⟩
    · split
      · exact ⟨rfl, h⟩
      · exact ⟨rfl, done.2⟩
  · exact done

/-- A waiter returns the same in alike worlds. -/
theorem outcome_alike (h : Alike id w w') (turns : Nat) (c : ApprovalChoice) :
    outcome repo u host id turns c w = outcome repo u host id turns c w' := by
  have same := (waitFor_uses repo host u id turns ()).eval_alike
    (fun op mine v v' alike => perform_alike (u := u) c alike mine) h
  unfold outcome
  rw [same.1]

/-- A resolution of another approval. -/
theorem resolve_elsewhere (repo : Bool) (u : Unicode) (w : ApprovalWorld Host) (host : Host) {id' : String}
    (other : id' ≠ id) (v : Vote) (c : ApprovalChoice) :
    Alike id w ((ApprovalGate.resolve repo host id' v ()).eval (perform u c) w).2 := by
  refine (resolve_uses repo id' v ()).eval (J := fun w' => Alike id w w') (fun op about v' alike => ?_)
    ⟨fun _ => rfl, rfl⟩
  have kept := fun host => @perform_apart Host u host _ c v' id id' other op about
  exact ⟨fun host => (alike.1 host).trans (kept host).1.symm, alike.2.trans (kept host).2.symm⟩

/-- A resolution, of this approval or another one, keeps alike worlds alike. -/
theorem resolve_alike (h : Alike id w w') (host : Host) (id' : String) (v : Vote) (c : ApprovalChoice) :
    Alike id ((ApprovalGate.resolve repo host id' v ()).eval (perform u c) w).2
      ((ApprovalGate.resolve repo host id' v ()).eval (perform u c) w').2 := by
  by_cases mine : id' = id
  · subst mine
    refine ((resolve_uses repo id' v ()).eval_alike (fun op about v v' alike => ?_) h).2
    refine perform_alike c alike ?_
    cases op with
    | review _ _ _ | updateRow _ _ _ | settle _ _ _ | emit _ _ _ => exact about
    | _ => cases about
  · have left := resolve_elsewhere repo u w host mine v c
    have right := resolve_elsewhere repo u w' host mine v c
    exact ⟨fun host => ((left.1 host).symm.trans (h.1 host)).trans (right.1 host),
      (left.2.symm.trans h.2).trans right.2⟩

/-- The holder's approval changes, roles apart. -/
theorem Held.setPending {holder : Host} (h : Held holder roles t id w) {pd pd' : PendingApproval}
    (found : w.pending host id = some pd) (same : pd'.requiredRoles = pd.requiredRoles) :
    Held holder roles t id (w.setPending host id pd') := by
  have here : host = holder := by
    by_contra other
    rw [h.alone host other] at found
    cases found
  subst here
  refine ⟨⟨pd', by rw [pending_setPending, if_pos ⟨rfl, rfl⟩], ?_⟩, fun host' other => ?_, h.owned⟩
  · obtain ⟨pd₀, there, roles⟩ := h.bound
    cases there.symm.trans found
    exact same.trans roles
  · rw [pending_setPending, if_neg fun both => other both.1.symm]
    exact h.alone host' other

theorem Held.perform {holder : Host} (h : Held holder roles t id w) (c : ApprovalChoice) {op : ApprovalOp Host}
    (mine : about id op) : Held holder roles t id (perform u c w op).1 := by
  rcases perform_world (u := u) c w op with same | same
  · rwa [same]
  rw [same]
  cases op with
  | review host id' v =>
      obtain rfl : id' = id := mine
      cases found : w.pending host id' with
      | none => simpa only [effect, review, found] using h
      | some pd =>
          rcases reviewed : pd.review u id' v with ⟨pd', out⟩
          have same : pd'.requiredRoles = pd.requiredRoles := by
            rw [← PendingApproval.review_roles u pd id' v, reviewed]
          have set := h.setPending found same
          cases out with
          | decided b => simpa only [effect, review, found, reviewed] using set.decideFirst id' b
          | _ => simpa only [effect, review, found, reviewed] using set
  | updateRow id' b t' =>
      obtain rfl : id' = id := mine
      have written : Held holder roles t id' { w with rows := PostgresApprovalRepo.resolve w.rows id' b t' } := by
        refine ⟨h.bound, h.alone, fun row found => ?_⟩
        obtain ⟨row', there, rfl⟩ := Option.map_eq_some_iff.mp ((get_resolve_self _ _ _ _).symm.trans found)
        split
        · exact h.owned row' there
        · exact h.owned row' there
      simp only [effect, updateRow]
      split
      · exact written.decideFirst id' b
      · exact written
  | settle host id' v =>
      obtain rfl : id' = id := mine
      simp only [effect]
      split
      · next pd found =>
          have same : (pd.settle v).requiredRoles = pd.requiredRoles := rfl
          have set := h.setPending found same
          exact set.decideFirst id' v.approved
      · exact h
  | emit _ _ _ => exact h
  | _ => cases mine

theorem Held.resolve {holder : Host} (h : Held holder roles t id w) (repo : Bool) (u : Unicode) (host : Host)
    (id' : String) (v : Vote) (c : ApprovalChoice) :
    Held holder roles t id ((ApprovalGate.resolve repo host id' v ()).eval (ApprovalWorld.perform u c) w).2 := by
  by_cases mine : id' = id
  · subst mine
    exact (resolve_uses repo id' v ()).eval (fun op about w' held => held.perform c about) h
  · exact h.alike (resolve_elsewhere repo u w host mine v c)

/-- The gates a foreign call cannot reach: those of other processes, and the holder's
where its role check refuses the call. -/
def Spared (holder : Host) (roles : List String) (host : Host) (v : Vote) : Prop :=
  host ≠ holder ∨ roles ≠ [] ∧ ∀ p, v.principal = some p → p.holds roles = false

/-- A spared call of another tenant leaves the approval and its row alone. -/
theorem resolve_spared {holder : Host} (h : Held holder roles t id w) (repo : Bool) (u : Unicode) {host : Host}
    {v : Vote} (foreign : v.foreign t = true) (spared : Spared holder roles host v) (c : ApprovalChoice) :
    Alike id w ((ApprovalGate.resolve repo host id v ()).eval (perform u c) w).2 := by
  unfold ApprovalGate.resolve
  by_cases here : host = holder
  · -- the role check refuses
    subst here
    obtain ⟨bound, misses⟩ := spared.resolve_left fun other => other rfl
    obtain ⟨pd, found, rfl⟩ := h.bound
    have refused : pd.review u id v = (pd, .refused (pd.refusal u id v)) := by
      have unqualified : pd.qualified v = false := by
        unfold PendingApproval.qualified PendingApproval.roles
        cases principal : v.principal with
        | none => rfl
        | some p => exact misses p principal
      unfold PendingApproval.review
      rw [if_neg (by rwa [List.isEmpty_iff]), unqualified]
      rfl
    obtain ⟨reply, left⟩ := @perform_review Host u host _ c w id v pd found
    rw [refused] at reply left
    rw [Effects.Act.eval_await_ok reply]
    refine ⟨fun host' => ?_, ?_⟩
    · show _ = ((w.review u host id v).1).pending host' id
      simp only [review, found, refused, pending_setPending]
      split
      · next same => rw [← same.1, found]
      · rfl
    · show _ = Dict.get (w.review u host id v).1.rows id
      simp only [review, found, refused]
      rfl
  · have missing : w.pending host id = none := h.alone host here
    have found : perform u c w (.review host id v) = (w, .ok (.direct false)) := by
      simp only [perform, awaited, effect, review, missing]
      rfl
    rw [Effects.Act.eval_await_ok (congrArg Prod.snd found), found]
    refine (unheld_uses host repo id v ()).eval (J := fun w' => Alike id w w')
      (fun op either w' alike => ?_) ⟨fun _ => rfl, rfl⟩
    rcases perform_world (u := u) c w' op with same | same
    · rwa [same]
    rw [same]
    rcases either with rfl | rfl
    · refine ⟨fun host' => ?_, ?_⟩
      · exact (alike.1 host').trans (pending_updateRow w' id _ _ host' id).symm
      · have unmatched : ∀ row, Dict.get w'.rows id = some row →
            PostgresApprovalRepo.ownedBy v.tenantId row = false := by
          intro row there
          have mine := h.owned row (alike.2.trans there)
          unfold Vote.foreign at foreign
          unfold PostgresApprovalRepo.ownedBy
          cases asserted : v.tenantId with
          | none => simp [asserted] at foreign
          | some t' =>
              simp only [asserted, decide_eq_true_eq] at foreign
              simp [mine, Ne.symm foreign]
        have kept : Dict.get (PostgresApprovalRepo.resolve w'.rows id v.approved v.tenantId) id =
            Dict.get w'.rows id := by
          rw [get_resolve_self]
          cases there : Dict.get w'.rows id with
          | none => rfl
          | some row => simp [unmatched row there]
        exact alike.2.trans (kept.symm.trans (congrArg (Dict.get · id) (updateRow_rows w' id _ _).symm))
    · exact alike

/-- Foreign calls that are all spared can be left out. -/
theorem alike_without {holder : Host} (repo : Bool) (u : Unicode) {calls : List (Host × ResolveCall)}
    (spared : ∀ c ∈ calls, c.2.approvalId = id → c.2.vote.foreign t = true → Spared holder roles c.1 c.2.vote)
    (h : Held holder roles t id w) (alike : Alike id w w') :
    Alike id (afterAll repo u calls w)
      (afterAll repo u (calls.filter fun c => !c.2.vote.foreign t) w') := by
  induction calls generalizing w w' with
  | nil => exact alike
  | cons c calls ih =>
      have rest := fun c' member => spared c' (List.mem_cons_of_mem _ member)
      have held := h.resolve repo u c.1 c.2.approvalId c.2.vote c.2.choice
      cases foreign : c.2.vote.foreign t with
      | true =>
          rw [List.filter_cons_of_neg (by simp [foreign])]
          refine ih rest held ?_
          have idle : Alike id w ((ApprovalGate.resolve repo c.1 c.2.approvalId c.2.vote ()).eval
              (perform u c.2.choice) w).2 := by
            by_cases mine : c.2.approvalId = id
            · have here := spared c List.mem_cons_self mine foreign
              rw [mine]
              exact resolve_spared h repo u foreign here _
            · exact resolve_elsewhere repo u w c.1 mine _ _
          exact ⟨fun host => (idle.1 host).symm.trans (alike.1 host), idle.2.symm.trans alike.2⟩
      | false =>
          rw [List.filter_cons_of_pos (by simp [foreign])]
          exact ih rest held (resolve_alike alike _ _ _ _)

/-! ## Calls that are not spared -/

theorem afterAll_one (repo : Bool) (u : Unicode) (host : Host) (calls : List ResolveCall) (w : ApprovalWorld Host) :
    afterAll repo u (calls.map fun call => (host, call)) w = after repo u host calls w := by
  unfold afterAll after
  rw [List.foldl_map]

/-- Without roles a call sets the event. -/
theorem resolve_direct {pd : PendingApproval} (found : w.pending host id = some pd) (free : pd.requiredRoles = [])
    (repo : Bool) (u : Unicode) (v : Vote) :
    (((ApprovalGate.resolve repo host id v ()).eval (perform u {}) w).2.pending host id).bind
      PendingApproval.signal = some v.approved := by
  have reviewed : pd.review u id v = (pd, .direct true) := by
    unfold PendingApproval.review
    rw [if_pos (List.isEmpty_iff.mpr free)]
  obtain ⟨reply, left⟩ := @perform_review Host u host _ {} w id v pd found
  rw [reviewed] at reply left
  unfold ApprovalGate.resolve
  rw [Effects.Act.eval_await_ok reply]
  generalize (perform u {} w (.review host id v)).1 = w₁ at left ⊢
  have settled : ∀ w₂ : ApprovalWorld Host, w₂.pending host id = some pd →
      (((do if true then ApprovalGate.gateCall (.settle host id v)
            ApprovalGate.gateCall (.emit (ApprovalGate.eventOf v.approved) id v.reason) :
        ApprovalGate.GateM Host Unit) ()).eval (perform u {}) w₂).2.pending host id = some (pd.settle v) := by
    intro w₂ there
    obtain ⟨done, set⟩ := @perform_settle Host u host _ {} w₂ id v pd there
    rw [if_pos rfl, Effects.Act.eval_await_ok done]
    show (perform u {} w₂ (.settle host id v)).1.pending host id = _
    rw [set, pending_setPending, if_pos ⟨rfl, rfl⟩]
  have here : w₁.pending host id = some pd := by rw [left, pending_setPending, if_pos ⟨rfl, rfl⟩]
  cases repo with
  | false => exact congrArg (Option.bind · PendingApproval.signal) (settled w₁ here)
  | true =>
      refine congrArg (Option.bind · PendingApproval.signal) (settled (w₁.updateRow id v.approved v.tenantId) ?_)
      exact (pending_updateRow w₁ id _ _ host id).trans here

/-- Some calls of the tenant's own after which one more call is noticed by a waiter. -/
theorem reached {holder : Host} {parties : Int} (asked : w.pending holder id = some { requiredRoles := roles, parties })
    (waiting : w.rowSignal id = none) (repo : Bool) (u : Unicode) {v : Vote}
    (reaches : ¬ Spared holder roles holder v) :
    ∃ natives : List ResolveCall, (∀ call ∈ natives, call.vote.foreign t = false) ∧ ∃ b,
      outcome repo u holder id 1 {} (after repo u holder (natives ++ [{ approvalId := id, vote := v }]) w) =
          .ok (some b) ∧
        outcome repo u holder id 1 {} (after repo u holder natives w) ≠ .ok (some b) := by
  have unset : ∀ b, outcome repo u holder id 1 {} w ≠ .ok (some b) := by
    intro b returned
    rcases waitFor_signal (by rw [asked]; rfl) returned with set | ⟨_, _, decided⟩
    · rw [asked] at set
      cases set
    · rw [waiting] at decided
      cases decided
  by_cases free : roles = []
  · subst free
    refine ⟨[], by simp, v.approved, ?_, unset _⟩
    exact signal_waitFor repo {} (resolve_direct asked rfl repo u v)
  · have holds : ∃ p, v.principal = some p ∧ p.holds roles = true := by
      by_contra none
      refine reaches (.inr ⟨free, fun p principal => ?_⟩)
      by_contra holds
      exact none ⟨p, principal, by simpa using holds⟩
    obtain ⟨p, principal, holds⟩ := holds
    have qualified : ∀ pd : PendingApproval, pd.requiredRoles = roles → pd.qualified v = true := by
      rintro pd rfl
      simpa [PendingApproval.qualified, PendingApproval.roles, principal, Principal.holds] using holds
    -- what the natives leave, and what the call makes of it
    have last : ∀ natives : List ResolveCall, ∃ pd,
        pd = (votesOn id natives).foldl (fun (pd : PendingApproval) v => pd.resolve u id v)
          { requiredRoles := roles, parties } ∧
        ((after repo u holder (natives ++ [{ approvalId := id, vote := v }]) w).pending holder id) =
          some (pd.resolve u id v) := by
      intro natives
      refine ⟨_, rfl, ?_⟩
      obtain ⟨_, rfl, held, _⟩ := @after_bound Host _ u holder w repo id roles parties asked free
        (natives ++ [{ approvalId := id, vote := v }])
      rw [held, votesOn_append, if_pos rfl, List.foldl_append]
      rfl
    cases verdict : v.approved with
    | false =>
        refine ⟨[], by simp, false, ?_, unset _⟩
        obtain ⟨pd, rfl, held⟩ := last []
        refine signal_waitFor repo {} ?_
        rw [held]
        rcases PendingApproval.resolve_cases u { requiredRoles := roles, parties } id v with
          ⟨none, _⟩ | ⟨_, unqualified, _⟩ | ⟨_, _, _, same⟩ | ⟨_, _, approved, _⟩
        · exact absurd none free
        · rw [qualified _ rfl] at unqualified
          cases unqualified
        · exact congrArg PendingApproval.signal same
        · rw [verdict] at approved
          cases approved
    | true =>
        obtain ⟨role, _, inside⟩ := List.any_eq_true.mp holds
        have inside : role ∈ roles := of_decide_eq_true inside
        -- all the other parties the approval needs, none of them this principal
        let ks := (List.range (parties - 1).toNat).map (· + (p.id.length + 1))
        have nodup : ks.Nodup := List.nodup_range.map fun k k' same => Nat.add_right_cancel same
        have count : ks.length = (parties - 1).toNat := by simp [ks]
        have card := card_alike inside id nodup
        have tallied := @PendingApproval.tallied_foldl u roles parties free id (votesOn id (ks.map (likeCall id role)))
        refine ⟨ks.map (likeCall id role), ?_, true, ?_, fun returned => ?_⟩
        · intro call member
          obtain ⟨k, _, rfl⟩ := List.mem_map.mp member
          rfl
        · obtain ⟨pd, rfl, held⟩ := last (ks.map (likeCall id role))
          refine signal_waitFor repo {} ?_
          rw [held]
          refine tallied.grants free (qualified _ tallied.bound) verdict ?_
          have one : approvers roles [v] = [p] := by
            simp [approvers, Option.filter, verdict, principal, holds]
          have new : p.id ∉ idsOf (approvers roles (votesOn id (ks.map (likeCall id role)))) := by
            rw [ids_alike inside, List.mem_toFinset]
            rintro member
            obtain ⟨k, among, same⟩ := List.mem_map.mp member
            obtain ⟨n, _, rfl⟩ := List.mem_map.mp among
            have := congrArg String.length same
            simp at this
            omega
          rw [approvers_append, idsOf_append, one, show idsOf [p] = {p.id} from rfl,
            Finset.card_union_of_disjoint (Finset.disjoint_singleton_right.mpr new), card, count, Finset.card_singleton]
          omega
        · have granted := (@granted_bound Host _ u holder w repo id roles parties _ asked free waiting).mp
            ⟨1, {}, returned⟩
          have enough := tallied.enough granted
          rw [card, count] at enough
          have few : (parties - 1).toNat = 0 := by omega
          simp [ks, few, votesOn, PendingApproval.signal] at granted

end ApprovalWorld

section claims

open ApprovalWorld

variable {Host : Type} [DecidableEq Host]

/-- Leaving out the calls of other tenants changes neither what a waiter returns nor the row. -/
def Isolated (repo : Bool) (u : Unicode) (t id : String) (w : ApprovalWorld Host)
    (calls : List (Host × ResolveCall)) : Prop :=
  let natives := calls.filter fun c => !c.2.vote.foreign t
  (∀ host turns c, outcome repo u host id turns c (afterAll repo u calls w) =
      outcome repo u host id turns c (afterAll repo u natives w)) ∧
    Dict.get (afterAll repo u calls w).rows id = Dict.get (afterAll repo u natives w).rows id

/-- An approval one process has asked for, for a tenant, with or without a repository, is
isolated from whatever calls of other tenants may be made on it exactly where none of them
reaches the gate of that process past its role check. -/
theorem approvals_isolated (repo : Bool) (u : Unicode) (holder : Host) (w : ApprovalWorld Host) (t id : String)
    (roles : List String) (parties : Int)
    (asked : w.pending holder id = some { requiredRoles := roles, parties })
    (alone : ∀ host, host ≠ holder → w.pending host id = none)
    (owned : ∀ row, Dict.get w.rows id = some row → row.tenantId = t ∧ row.status = .pending)
    (F : Host → Vote → Prop) :
    (∀ calls : List (Host × ResolveCall),
        (∀ c ∈ calls, c.2.approvalId = id → c.2.vote.foreign t = true → F c.1 c.2.vote) →
        Isolated repo u t id w calls) ↔
      ∀ host v, F host v → v.foreign t = true → Spared holder roles host v := by
  have waiting : w.rowSignal id = none := by
    unfold rowSignal
    cases found : Dict.get w.rows id with
    | none => rfl
    | some row => simp [(owned row found).2, ApprovalStatus.signal]
  have held : Held holder roles t id w := ⟨⟨_, asked, rfl⟩, alone, fun row found => (owned row found).1⟩
  constructor
  · intro isolated host v allowed foreign
    by_contra reaches
    obtain rfl : host = holder := by
      by_contra other
      exact reaches (.inl other)
    obtain ⟨natives, own, b, seen, unseen⟩ := ApprovalWorld.reached (t := t) asked waiting repo u reaches
    let calls := (natives ++ [({ approvalId := id, vote := v } : ResolveCall)]).map fun call => (host, call)
    have without : calls.filter (fun c => !c.2.vote.foreign t) = natives.map fun call => (host, call) := by
      have kept : ((natives.map fun call => (host, call)).filter fun c => !c.2.vote.foreign t) =
          natives.map fun call => (host, call) := by
        refine List.filter_eq_self.mpr fun c member => ?_
        obtain ⟨call, inside, rfl⟩ := List.mem_map.mp member
        simp [own call inside]
      show List.filter _ (List.map _ (natives ++ _)) = _
      rw [List.map_append, List.filter_append, kept]
      simp [foreign]
    have same := (isolated calls ?_).1 host 1 {}
    · rw [without, afterAll_one, afterAll_one] at same
      exact unseen (same.symm.trans seen)
    · intro c member _ other
      obtain ⟨call, inside, rfl⟩ := List.mem_map.mp member
      rcases List.mem_append.mp inside with native | last
      · rw [own call native] at other
        cases other
      · cases List.mem_singleton.mp last
        exact allowed
  · intro spared calls allowed
    have alike := alike_without repo u (fun c member mine foreign =>
      spared c.1 c.2.vote (allowed c member mine foreign) foreign) held ⟨fun _ => rfl, rfl⟩
    exact ⟨fun host turns c => outcome_alike alike turns c, alike.2⟩

/-- A finance approval asked for by one process, with its row. -/
def Sample.financeGate (roles : List String) : ApprovalWorld Bool where
  gates host := if host then [("a", { requiredRoles := roles, parties := 1 })] else []
  rows := [("a", { tenantId := "t", runId := "r", reason := "" })]

/-- What another process is told by another tenant does not count. -/
theorem approvals_isolated_elsewhere : Isolated true Sample.unicode "t" "a" (Sample.financeGate ["finance"])
    [(false, { approvalId := "a", vote := { approved := true, tenantId := some "s" } })] := by
  refine (approvals_isolated true Sample.unicode true (Sample.financeGate ["finance"]) "t" "a" ["finance"] 1 rfl
    ?_ ?_ fun host _ => host = false).mpr ?_ _ ?_
  · intro host other
    cases host with
    | true => exact absurd rfl other
    | false => rfl
  · intro row found
    cases found
    exact ⟨rfl, rfl⟩
  · rintro _ _ rfl _
    exact .inl (by simp)
  · intro c member _ _
    cases List.mem_singleton.mp member
    rfl

/-- A call of another tenant to the process that holds the approval grants it. -/
theorem foreign_tenant_grants : ¬ ∀ (repo : Bool) (u : Unicode) (holder : Bool) (w : ApprovalWorld Bool)
    (t id : String) (roles : List String) (parties : Int),
    w.pending holder id = some { requiredRoles := roles, parties } →
    (∀ host, host ≠ holder → w.pending host id = none) →
    (∀ row, Dict.get w.rows id = some row → row.tenantId = t ∧ row.status = .pending) →
    ∀ calls, Isolated repo u t id w calls := by
  intro isolated
  have gate := isolated true Sample.unicode true (Sample.financeGate []) "t" "a" [] 1 rfl (by decide)
    (by rintro row ⟨⟩; exact ⟨rfl, rfl⟩)
    [(true, { approvalId := "a", vote := { approved := true, tenantId := some "s" } })]
  exact absurd (gate.1 true 1 {}) (by decide +kernel)

end claims
end Maof
