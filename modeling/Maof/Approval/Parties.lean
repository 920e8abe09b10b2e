import Maof.Approval.Gate
import Mathlib.Data.Finset.Card
import Mathlib.Data.Finset.Dedup
import Mathlib.Data.List.Induction

/-!
# Who approved

What a gate without a repository grants, over every sequence of resolutions:
a role-bound approval only to enough distinct principals, each holding one of
the roles.
-/

namespace Maof

open Data (Dict)
open Effects (Prog)

/-- One `resolve`, and what its event sink does. -/
structure ResolveCall where
  approvalId : String
  vote : Vote
  choice : ApprovalChoice := {}

namespace PendingApproval

theorem count_roles (pd : PendingApproval) (v : Vote) : (pd.count v).requiredRoles = pd.requiredRoles := by
  unfold count
  split
  · rfl
  · split <;> rfl

theorem count_parties (pd : PendingApproval) (v : Vote) : (pd.count v).parties = pd.parties := by
  unfold count
  split
  · rfl
  · split <;> rfl

/-- What a `resolve` leaves of a pending approval when it meets no failure. -/
def resolve (u : Unicode) (pd : PendingApproval) (approvalId : String) (v : Vote) : PendingApproval :=
  match pd.review u approvalId v with
  | (_, .direct _) => pd.settle v
  | (pd', _) => pd'

theorem review_direct {u : Unicode} {pd pd' : PendingApproval} {approvalId : String} {v : Vote} {held : Bool}
    (h : pd.review u approvalId v = (pd', .direct held)) : pd' = pd ∧ held = true := by
  unfold review at h
  split at h
  · cases h
    exact ⟨rfl, rfl⟩
  · split at h
    · cases h
    · split at h
      · cases h
      · simp only at h
        split at h <;> cases h

theorem review_roles (u : Unicode) (pd : PendingApproval) (approvalId : String) (v : Vote) :
    (pd.review u approvalId v).1.requiredRoles = pd.requiredRoles := by
  unfold review
  split
  · rfl
  · split
    · rfl
    · split
      · rfl
      · simp only
        split
        · exact count_roles pd v
        · exact count_roles pd v

theorem event_of_signal {pd : PendingApproval} {b : Bool} (h : pd.signal = some b) : pd.event = true := by
  unfold signal at h
  split at h
  · assumption
  · cases h

theorem review_bound {u : Unicode} {pd pd' : PendingApproval} {approvalId : String} {v : Vote} {held : Bool}
    (h : pd.review u approvalId v = (pd', .direct held)) : pd.requiredRoles = [] := by
  unfold review at h
  split at h
  · next free => exact List.isEmpty_iff.mp free
  · split at h
    · cases h
    · split at h
      · cases h
      · simp only at h
        split at h <;> cases h

theorem review_decided {u : Unicode} {pd pd' : PendingApproval} {approvalId : String} {v : Vote} {b : Bool}
    (h : pd.review u approvalId v = (pd', .decided b)) : pd'.signal = some b := by
  unfold review at h
  split at h
  · cases h
  · split at h
    · cases h
    · split at h
      · cases h
        rfl
      · simp only at h
        split at h <;> cases h
        rfl

/-- Every way a `resolve` can change a pending approval. -/
theorem resolve_cases (u : Unicode) (pd : PendingApproval) (approvalId : String) (v : Vote) :
    (pd.requiredRoles = [] ∧ pd.resolve u approvalId v = pd.settle v) ∨
    (pd.requiredRoles ≠ [] ∧ pd.qualified v = false ∧ pd.resolve u approvalId v = pd) ∨
    (pd.requiredRoles ≠ [] ∧ pd.qualified v = true ∧ v.approved = false ∧
      pd.resolve u approvalId v = { pd with approved := false, reason := v.reason, event := true }) ∨
    (pd.requiredRoles ≠ [] ∧ pd.qualified v = true ∧ v.approved = true ∧
      pd.resolve u approvalId v = if (pd.count v).resolutions.length < pd.parties then pd.count v
        else { pd.count v with approved := true, event := true }) := by
  by_cases free : pd.requiredRoles = []
  · exact .inl ⟨free, by simp [resolve, review, free]⟩
  cases holds : pd.qualified v with
  | false => exact .inr (.inl ⟨free, rfl, by simp [resolve, review, free, holds]⟩)
  | true =>
      cases verdict : v.approved with
      | false => exact .inr (.inr (.inl ⟨free, rfl, rfl, by simp [resolve, review, free, holds, verdict]⟩))
      | true =>
          refine .inr (.inr (.inr ⟨free, rfl, rfl, ?_⟩))
          simp only [resolve, review, List.isEmpty_iff, free, holds, verdict, if_false,
            Bool.not_true, Bool.false_eq_true, count_parties]
          by_cases few : (pd.count v).resolutions.length < pd.parties
          · simp only [few, if_true]
          · simp only [few, if_false]

end PendingApproval

namespace ApprovalWorld

variable {Host : Type} {u : Unicode} {host : Host}

theorem pending_decideFirst (w : ApprovalWorld Host) (id : String) (b : Bool) (host' : Host)
    (id' : String) : Dict.get ((w.decideFirst id b).gates host') id' = Dict.get (w.gates host') id' := by
  unfold decideFirst
  split <;> rfl

theorem decideFirst_rows (w : ApprovalWorld Host) (id : String) (b : Bool) :
    (w.decideFirst id b).rows = w.rows := by
  unfold decideFirst
  split <;> rfl

variable [DecidableEq Host]

theorem pending_setPending (w : ApprovalWorld Host) (host host' : Host) (id id' : String)
    (pd : PendingApproval) : (w.setPending host id pd).pending host' id' =
      if host = host' ∧ id = id' then some pd else w.pending host' id' := by
  unfold pending setPending
  by_cases same : host' = host
  · subst same
    simp only [Function.update_self, Dict.get_set, true_and]
  · simp [Function.update_of_ne same, Ne.symm same]

/-- A call takes its effect or none. -/
theorem perform_world (c : ApprovalChoice) (w : ApprovalWorld Host) (op : ApprovalOp Host) :
    (perform u c w op).1 = w ∨ (perform u c w op).1 = (effect u c w op).1 := by
  unfold perform
  split
  · split
    · exact .inr rfl
    · exact .inl rfl
    · split
      · exact .inl rfl
      · exact .inr rfl
  · exact .inr rfl

theorem pending_emit (c : ApprovalChoice) (w : ApprovalWorld Host) (eventType id reason : String) :
    (perform u c w (.emit eventType id reason)).1 = w := by
  rcases perform_world (u := u) c w (.emit eventType id reason) with same | same
  · exact same
  · exact same

/-- What the review of a pending approval leaves, and what it answers. -/
theorem perform_review {c : ApprovalChoice} {w : ApprovalWorld Host} {approvalId : String} {v : Vote}
    {pd : PendingApproval} (held : w.pending host approvalId = some pd) :
    (perform u c w (.review host approvalId v)).2 = .ok (pd.review u approvalId v).2 ∧
      (perform u c w (.review host approvalId v)).1.pending host =
        (w.setPending host approvalId (pd.review u approvalId v).1).pending host := by
  rcases reviewed : pd.review u approvalId v with ⟨pd', out⟩
  have found : perform u c w (.review host approvalId v) =
      ((w.review u host approvalId v).1, .ok (w.review u host approvalId v).2) := rfl
  rw [found]
  simp only [review, held, reviewed]
  cases out with
  | decided b => exact ⟨rfl, funext fun id => pending_decideFirst _ _ _ host id⟩
  | _ => exact ⟨rfl, rfl⟩

theorem perform_settle {c : ApprovalChoice} {w : ApprovalWorld Host} {approvalId : String} {v : Vote}
    {pd : PendingApproval} (held : w.pending host approvalId = some pd) :
    (perform u c w (.settle host approvalId v)).2 = .ok () ∧
      (perform u c w (.settle host approvalId v)).1.pending host =
        (w.setPending host approvalId (pd.settle v)).pending host := by
  have found : perform u c w (.settle host approvalId v) =
      ((w.setPending host approvalId (pd.settle v)).decideFirst approvalId v.approved, .ok ()) := by
    simp only [perform, awaited, effect, held]
    rfl
  rw [found]
  exact ⟨rfl, funext fun id => pending_decideFirst _ _ _ host id⟩

/-- Running `resolve` by itself does to an approval what `PendingApproval.resolve` says. -/
theorem pending_resolve (c : ApprovalChoice) (w : ApprovalWorld Host) (approvalId id : String) (v : Vote) :
    ((ApprovalGate.resolve false host approvalId v ()).eval (perform u c) w).2.pending host id =
      if approvalId = id then (w.pending host id).map fun pd => pd.resolve u approvalId v
      else w.pending host id := by
  unfold ApprovalGate.resolve
  cases held : w.pending host approvalId with
  | none =>
      have found : perform u c w (.review host approvalId v) = (w, .ok (.direct false)) := by
        simp only [perform, awaited, effect, review, held]
        rfl
      rw [Effects.Act.eval_await_ok (congrArg Prod.snd found), found]
      refine (congrArg (fun w => pending w host id) (pending_emit c w _ _ _)).trans ?_
      split
      · next same => rw [← same, held]; rfl
      · rfl
  | some pd =>
      have set : ∀ pd' : PendingApproval, (w.setPending host approvalId pd').pending host id =
          if approvalId = id then some pd' else w.pending host id := by
        intro pd'
        simp [pending_setPending]
      have close : (if approvalId = id then some (pd.resolve u approvalId v) else w.pending host id) =
          if approvalId = id then (w.pending host id).map fun pd => pd.resolve u approvalId v
          else w.pending host id := by
        split
        · next same => rw [← same, held]; rfl
        · rfl
      obtain ⟨reply, left⟩ := @perform_review Host u host _ c w approvalId v pd held
      rcases reviewed : pd.review u approvalId v with ⟨pd', out⟩
      simp only [reviewed] at reply left
      rw [Effects.Act.eval_await_ok reply, ← close]
      have plain : ∀ eventType reason : String, (perform u c (perform u c w (.review host approvalId v)).1
          (.emit eventType approvalId reason)).1.pending host id =
            if approvalId = id then some pd' else w.pending host id := by
        intro eventType reason
        rw [pending_emit, left, set]
      cases out with
      | refused e =>
          simp only [PendingApproval.resolve, reviewed]
          exact (congrFun left id).trans (set pd')
      | counted =>
          simp only [PendingApproval.resolve, reviewed]
          exact (congrFun left id).trans (set pd')
      | decided approved =>
          simp only [PendingApproval.resolve, reviewed]
          exact plain _ _
      | direct inside =>
          simp only [PendingApproval.resolve, reviewed]
          obtain ⟨rfl, rfl⟩ : pd' = pd ∧ inside = true := PendingApproval.review_direct reviewed
          have there : (perform u c w (.review host approvalId v)).1.pending host approvalId = some pd' := by
            rw [left, pending_setPending, if_pos ⟨rfl, rfl⟩]
          obtain ⟨done, settled⟩ := @perform_settle Host u host _ c _ approvalId v pd' there
          refine (congrArg (fun w => pending w host id) ?_).trans ((congrFun settled id).trans ?_)
          · exact (congrArg Prod.snd (Effects.Act.eval_await_ok done)).trans (pending_emit c _ _ _ _)
          · rw [pending_setPending, left, set]
            simp only [true_and]
            split
            · rfl
            · rfl

/-- The gate of one process resolves, call after call. -/
def after (repo : Bool) (u : Unicode) (host : Host) (calls : List ResolveCall) (w : ApprovalWorld Host) :
    ApprovalWorld Host :=
  calls.foldl (fun w call =>
    ((ApprovalGate.resolve repo host call.approvalId call.vote ()).eval (perform u call.choice) w).2) w

/-- The votes cast on one approval, in order. -/
def votesOn (id : String) (calls : List ResolveCall) : List Vote :=
  (calls.filter fun call => call.approvalId = id).map ResolveCall.vote

theorem pending_after (id : String) (calls : List ResolveCall) (w : ApprovalWorld Host) :
    (after false u host calls w).pending host id =
      (w.pending host id).map fun pd => (votesOn id calls).foldl (fun pd v => pd.resolve u id v) pd := by
  induction calls generalizing w with
  | nil => simp [after, votesOn]
  | cons call calls ih =>
      have step := @pending_resolve Host u host _ call.choice w call.approvalId id call.vote
      refine (ih _).trans ?_
      rw [step]
      by_cases mine : call.approvalId = id
      · simp [votesOn, mine, Function.comp_def]
      · simp [votesOn, mine]

/-- The calls a resolution makes are about its approval. -/
def about (id : String) : ApprovalOp Host → Prop
  | .review _ id' _ | .updateRow id' _ _ | .settle _ id' _ | .emit _ id' _ => id' = id
  | _ => False

omit [DecidableEq Host] in
theorem resolve_uses (repo : Bool) (id : String) (v : Vote) :
    (ApprovalGate.resolve repo host id v).Uses (about id) := by
  have write : ∀ b, (ApprovalGate.writeRow repo id b v.tenantId : ApprovalGate.GateM Host Unit).Uses (about id) := by
    intro b
    unfold ApprovalGate.writeRow
    split
    · exact Effects.Act.uses_await rfl
    · exact Effects.Act.uses_pure _
  refine Effects.Act.uses_bind (Effects.Act.uses_await rfl) fun found => ?_
  cases found with
  | refused e => exact Effects.Act.uses_throw _
  | counted => exact Effects.Act.uses_pure _
  | decided b => exact Effects.Act.uses_bind (write b) fun _ => Effects.Act.uses_await rfl
  | direct held =>
      refine Effects.Act.uses_bind (write _) fun _ => ?_
      cases held with
      | true => exact Effects.Act.uses_bind (Effects.Act.uses_await rfl) fun _ => Effects.Act.uses_await rfl
      | false => exact Effects.Act.uses_await rfl

/-- The calls that leave every gate alone. -/
def spares : ApprovalOp Host → Prop
  | .updateRow _ _ _ | .emit _ _ _ => True
  | _ => False

omit [DecidableEq Host] in
theorem writeRow_uses (repo : Bool) (id : String) (approved : Bool) (v : Vote) :
    (do (ApprovalGate.writeRow repo id approved v.tenantId : ApprovalGate.GateM Host Unit)
        ApprovalGate.gateCall (.emit (ApprovalGate.eventOf approved) id v.reason)).Uses spares := by
  refine Effects.Act.uses_bind ?_ fun _ => Effects.Act.uses_await trivial
  unfold ApprovalGate.writeRow
  split
  · exact Effects.Act.uses_await trivial
  · exact Effects.Act.uses_pure _

theorem get_resolve_ne (rows : Dict String ApprovalRow) {id id' : String} (other : id' ≠ id) (b : Bool)
    (t : Option String) : Dict.get (PostgresApprovalRepo.resolve rows id' b t) id = Dict.get rows id := by
  induction rows with
  | nil => rfl
  | cons kv rows ih =>
      simp only [PostgresApprovalRepo.resolve, List.map_cons] at ih ⊢
      by_cases mine : kv.1 = id
      · have apart : ¬ (kv.1 = id' ∧ PostgresApprovalRepo.ownedBy t kv.2 = true) := by
          rintro ⟨same, _⟩
          exact other (same.symm.trans mine)
        rw [if_neg apart]
        simp [Dict.get, mine]
      · split
        · simpa [Dict.get, mine] using ih
        · simpa [Dict.get, mine] using ih

/-- A call about one approval leaves another one, and its row, alone. -/
theorem perform_apart {c : ApprovalChoice} {w : ApprovalWorld Host} {id id' : String} (other : id' ≠ id)
    {op : ApprovalOp Host} (mine : about id' op) :
    (perform u c w op).1.pending host id = w.pending host id ∧
      Dict.get (perform u c w op).1.rows id = Dict.get w.rows id := by
  have decided : ∀ (w : ApprovalWorld Host) b, (w.decideFirst id' b).pending host id = w.pending host id ∧
      (w.decideFirst id' b).rows = w.rows :=
    fun w b => ⟨pending_decideFirst _ _ _ _ _, decideFirst_rows _ _ _⟩
  have set : ∀ (h : Host) pd, (w.setPending h id' pd).pending host id = w.pending host id := by
    intro h pd
    rw [pending_setPending, if_neg fun both => other both.2]
  rcases perform_world (u := u) c w op with same | same
  · rw [same]
    exact ⟨rfl, rfl⟩
  rw [same]
  cases op with
  | review h id'' v =>
      obtain rfl : id'' = id' := mine
      simp only [effect, review]
      split
      · exact ⟨rfl, rfl⟩
      · split
        · exact ⟨((decided _ _).1).trans (set _ _), congrArg (Dict.get · id) (decided _ _).2⟩
        · exact ⟨set _ _, rfl⟩
  | updateRow id'' b t =>
      obtain rfl : id'' = id' := mine
      simp only [effect, updateRow]
      split
      · exact ⟨(decided _ _).1, (congrArg (Dict.get · id) (decided _ _).2).trans (get_resolve_ne _ other _ _)⟩
      · exact ⟨rfl, get_resolve_ne _ other _ _⟩
  | settle h id'' v =>
      obtain rfl : id'' = id' := mine
      simp only [effect]
      split
      · exact ⟨((decided _ _).1).trans (set _ _), congrArg (Dict.get · id) (decided _ _).2⟩
      · exact ⟨rfl, rfl⟩
  | emit _ _ _ => exact ⟨rfl, rfl⟩
  | _ => cases mine

/-- Resolving one approval leaves another one, and its row, alone. -/
theorem resolve_apart (repo : Bool) (c : ApprovalChoice) (w : ApprovalWorld Host) {id id' : String}
    (other : id' ≠ id) (v : Vote) :
    ((ApprovalGate.resolve repo host id' v ()).eval (perform u c) w).2.pending host id = w.pending host id ∧
      Dict.get ((ApprovalGate.resolve repo host id' v ()).eval (perform u c) w).2.rows id =
        Dict.get w.rows id :=
  Effects.Prog.Uses.eval (J := fun w' : ApprovalWorld Host => w'.pending host id = w.pending host id ∧
      Dict.get w'.rows id = Dict.get w.rows id) (resolve_uses repo id' v ())
    (fun op mine w' kept => by
      obtain ⟨same, row⟩ := @perform_apart Host u host _ c w' id id' other op mine
      exact ⟨same.trans kept.1, row.trans kept.2⟩)
    ⟨rfl, rfl⟩

/-- The row of an approval is written only once its event is set. -/
theorem resolve_bound (repo : Bool) (c : ApprovalChoice) {w : ApprovalWorld Host} {id : String} {v : Vote}
    {pd : PendingApproval} (held : w.pending host id = some pd) (bound : pd.requiredRoles ≠ []) :
    ((ApprovalGate.resolve repo host id v ()).eval (perform u c) w).2.pending host id =
        some (pd.resolve u id v) ∧
      (Dict.get ((ApprovalGate.resolve repo host id v ()).eval (perform u c) w).2.rows id = Dict.get w.rows id ∨
        (pd.resolve u id v).event = true) := by
  obtain ⟨reply, left⟩ := @perform_review Host u host _ c w id v pd held
  have rows : (perform u c w (.review host id v)).1.rows = w.rows := by
    show (w.review u host id v).1.rows = w.rows
    simp only [review, held]
    split
    · exact (decideFirst_rows _ _ _)
    · rfl
  rcases reviewed : pd.review u id v with ⟨pd', out⟩
  simp only [reviewed] at reply left
  have found : (perform u c w (.review host id v)).1.pending host id = some pd' := by
    rw [left, pending_setPending, if_pos ⟨rfl, rfl⟩]
  unfold ApprovalGate.resolve
  rw [Effects.Act.eval_await_ok reply]
  cases out with
  | refused e =>
      simp only [PendingApproval.resolve, reviewed]
      exact ⟨found, .inl (congrArg (Dict.get · id) rows)⟩
  | counted =>
      simp only [PendingApproval.resolve, reviewed]
      exact ⟨found, .inl (congrArg (Dict.get · id) rows)⟩
  | direct inside => exact absurd (PendingApproval.review_bound reviewed) bound
  | decided approved =>
      simp only [PendingApproval.resolve, reviewed]
      refine ⟨?_, .inr (PendingApproval.event_of_signal (PendingApproval.review_decided reviewed))⟩
      -- writing the row and emitting the event leave the gates alone
      refine Effects.Prog.Uses.eval (J := fun w' : ApprovalWorld Host => w'.pending host id = some pd')
        (writeRow_uses repo id approved v ()) (fun op mine w' kept => ?_) found
      rcases perform_world (u := u) c w' op with same | same
      · rw [same]
        exact kept
      · rw [same]
        cases op with
        | updateRow _ _ _ =>
            simp only [effect, updateRow]
            split
            · exact (pending_decideFirst _ _ _ _ _).trans kept
            · exact kept
        | emit _ _ _ => exact kept
        | _ => cases mine

def rowSignal (w : ApprovalWorld Host) (id : String) : Option Bool :=
  (Dict.get w.rows id).bind fun row => row.status.signal

/-- A look at an event that is set. -/
theorem look_set (repo : Bool) (c : ApprovalChoice) {w : ApprovalWorld Host} {id : String} {b : Bool}
    (seen : (w.pending host id).bind PendingApproval.signal = some b) :
    ((ApprovalGate.look repo host true id ()).eval (perform u c) w).1 = (.ok (some b), ()) := by
  unfold ApprovalGate.look
  rw [if_pos rfl, Effects.Act.eval_await_ok
    (show (perform u c w (.peek host id)).2 = .ok ((w.pending host id).bind PendingApproval.signal) from rfl), seen]
  rfl

/-- A look at an event that is not set falls to the row, if it answers at all. -/
theorem look_unset {repo : Bool} {c : ApprovalChoice} {w : ApprovalWorld Host} {id : String}
    (seen : (w.pending host id).bind PendingApproval.signal = none) {out : Option Bool} {w' : ApprovalWorld Host}
    (h : (ApprovalGate.look repo host true id ()).eval (perform u c) w = ((.ok out, ()), w')) :
    (∀ b, out = some b → repo = true ∧ w.rowSignal id = some b) ∧ (out = none → w' = w) := by
  unfold ApprovalGate.look at h
  rw [if_pos rfl, Effects.Act.eval_await_ok
    (show (perform u c w (.peek host id)).2 = .ok ((w.pending host id).bind PendingApproval.signal) from rfl),
    show (perform u c w (.peek host id)).1 = w.answer id ((w.pending host id).bind PendingApproval.signal) from rfl,
    seen] at h
  cases repo with
  | false => cases h; exact ⟨by rintro _ ⟨⟩, fun _ => rfl⟩
  | true =>
      cases fault : c.fault with
      | some f =>
          obtain ⟨e, failed⟩ : ∃ e, perform u c w (.fetchRow id) = (w, .error e) := by
            rcases f with ⟨_ | _, e⟩ <;> exact ⟨e, by simp only [perform, awaited, fault]; rfl⟩
          have raised : (ApprovalGate.gateCall (.fetchRow id) ()).eval (perform u c) w = ((.error _, ()), w) :=
            congrArg (fun out => ((out.2, ()), out.1)) failed
          cases raised.symm.trans h
      | none =>
          have read : perform u c w (.fetchRow id) = (w.answer id (w.rowSignal id), .ok (w.rowSignal id)) := by
            simp only [perform, awaited, fault]
            rfl
          have answered : (ApprovalGate.gateCall (.fetchRow id) ()).eval (perform u c) w =
              ((.ok (w.rowSignal id), ()), w.answer id (w.rowSignal id)) :=
            congrArg (fun out => ((out.2, ()), out.1)) read
          cases answered.symm.trans h
          exact ⟨fun b same => ⟨rfl, same⟩, fun none => by rw [none]; rfl⟩

theorem poll_signal {repo : Bool} {c : ApprovalChoice} {w : ApprovalWorld Host} {id : String} {turns : Nat}
    {b : Bool} (h : ((ApprovalGate.poll repo host u true id turns ()).eval (perform u c) w).1.1 = .ok (some b)) :
    (w.pending host id).bind PendingApproval.signal = some b ∨
      ((w.pending host id).bind PendingApproval.signal = none ∧ repo = true ∧ w.rowSignal id = some b) := by
  induction turns with
  | zero => cases h
  | succ turns ih =>
      unfold ApprovalGate.poll at h
      rw [Effects.Act.eval_bind] at h
      cases seen : (w.pending host id).bind PendingApproval.signal with
      | some b' =>
          have set := @look_set Host u host _ repo c _ _ _ seen
          rcases looked : (ApprovalGate.look repo host true id ()).eval (perform u c) w with ⟨out, w'⟩
          rw [looked] at h set
          cases set
          cases h
          exact .inl rfl
      | none =>
          rcases looked : (ApprovalGate.look repo host true id ()).eval (perform u c) w with ⟨⟨_ | out, s⟩, w'⟩
          · rw [looked] at h
            cases h
          · obtain ⟨fromRow, still⟩ := look_unset seen looked
            rw [looked] at h
            cases out with
            | some b' =>
                cases h
                exact .inr ⟨rfl, fromRow _ rfl⟩
            | none =>
                obtain rfl := still rfl
                simp only at h
                rw [Effects.Act.eval_await_ok (show (perform u c w' .expired).2 = .ok c.expired from rfl)] at h
                cases late : c.expired with
                | true => rw [late] at h; cases h
                | false =>
                    rw [late] at h
                    exact seen ▸ ih h

/-- A waiter of the gate's own process answers what the gate signals, or the row. -/
theorem waitFor_signal {repo : Bool} {c : ApprovalChoice} {w : ApprovalWorld Host} {id : String} {turns : Nat}
    {b : Bool} (known : (w.pending host id).isSome = true)
    (h : ((ApprovalGate.waitFor repo host u id turns ()).eval (perform u c) w).1.1 = .ok (some b)) :
    (w.pending host id).bind PendingApproval.signal = some b ∨
      ((w.pending host id).bind PendingApproval.signal = none ∧ repo = true ∧ w.rowSignal id = some b) := by
  unfold ApprovalGate.waitFor at h
  rw [Effects.Act.eval_await_ok
    (show (perform u c w (.held host id)).2 = .ok (w.pending host id).isSome from rfl), known] at h
  exact poll_signal h

theorem signal_waitFor (repo : Bool) (c : ApprovalChoice) {w : ApprovalWorld Host} {id : String} {b : Bool}
    (h : (w.pending host id).bind PendingApproval.signal = some b) :
    ((ApprovalGate.waitFor repo host u id 1 ()).eval (perform u c) w).1.1 = .ok (some b) := by
  have held : (w.pending host id).isSome = true := by
    obtain ⟨pd, there, _⟩ := Option.bind_eq_some_iff.mp h
    rw [there]
    rfl
  unfold ApprovalGate.waitFor
  rw [Effects.Act.eval_await_ok
    (show (perform u c w (.held host id)).2 = .ok (w.pending host id).isSome from rfl), held]
  rw [if_neg (by simp), show (perform u c w (.held host id)).1 = w from rfl]
  unfold ApprovalGate.poll
  rw [Effects.Act.eval_bind]
  have set := @look_set Host u host _ repo c _ _ _ h
  rcases looked : (ApprovalGate.look repo host true id ()).eval (perform u c) w with ⟨out, w'⟩
  rw [looked] at set ⊢
  cases set
  rfl

end ApprovalWorld
/-! ## Counting -/

def Principal.holds (roles : List String) (p : Principal) : Bool := p.roles.any fun role => role ∈ roles

/-- The principals who approved, each holding one of the roles where there are any. -/
def approvers (roles : List String) (votes : List Vote) : List Principal :=
  votes.filterMap fun v =>
    if v.approved then v.principal.filter fun p => roles.isEmpty || p.holds roles else none

def idsOf (ps : List Principal) : Finset String := (ps.map Principal.id).toFinset

theorem approvers_append (roles : List String) (votes more : List Vote) :
    approvers roles (votes ++ more) = approvers roles votes ++ approvers roles more := by
  simp [approvers]

theorem idsOf_append (ps qs : List Principal) : idsOf (ps ++ qs) = idsOf ps ∪ idsOf qs := by
  ext id
  simp [idsOf]

theorem mem_idsOf {ps : List Principal} {id : String} : id ∈ idsOf ps ↔ ∃ p ∈ ps, p.id = id := by
  simp [idsOf]

namespace PendingApproval

/-- A role-bound approval's recorded resolutions are its approvers, each once, and it
is granted only where they are enough. -/
structure Tallied (roles : List String) (parties : Int) (votes : List Vote) (pd : PendingApproval) :
    Prop where
  bound : pd.requiredRoles = roles
  needs : pd.parties = parties
  nodup : (pd.resolutions.map Resolution.principalId).Nodup
  ids : (pd.resolutions.map Resolution.principalId).toFinset = idsOf (approvers roles votes)
  enough : pd.signal = some true → parties ≤ (idsOf (approvers roles votes)).card

variable {u : Unicode} {roles : List String} {parties : Int} {votes : List Vote} {pd : PendingApproval}

theorem Tallied.length (h : Tallied roles parties votes pd) :
    pd.resolutions.length = (idsOf (approvers roles votes)).card := by
  rw [← h.ids, List.toFinset_card_of_nodup h.nodup, List.length_map]

theorem idsOf_mono (roles : List String) (votes more : List Vote) :
    (idsOf (approvers roles votes)).card ≤ (idsOf (approvers roles (votes ++ more))).card := by
  rw [approvers_append, idsOf_append]
  exact Finset.card_le_card Finset.subset_union_left

/-- A qualified approval counts its principal. -/
theorem Tallied.count (h : Tallied roles parties votes pd) {v : Vote}
    (qualified : pd.qualified v = true) (approved : v.approved = true) :
    ((pd.count v).resolutions.map Resolution.principalId).Nodup ∧
      ((pd.count v).resolutions.map Resolution.principalId).toFinset =
        idsOf (approvers roles (votes ++ [v])) := by
  simp only [PendingApproval.qualified, PendingApproval.roles, h.bound, Bool.and_eq_true] at qualified
  obtain ⟨asserted, holds⟩ := qualified
  obtain ⟨p, principal⟩ := Option.isSome_iff_exists.mp asserted
  rw [principal] at holds
  have one : approvers roles [v] = [p] := by
    have held : p.holds roles = true := holds
    simp [approvers, Option.filter, approved, principal, held]
  have ids : idsOf (approvers roles (votes ++ [v])) =
      insert p.id (pd.resolutions.map Resolution.principalId).toFinset := by
    rw [approvers_append, idsOf_append, one, h.ids, Finset.union_comm]
    rfl
  rw [ids]
  unfold PendingApproval.count
  simp only [principal]
  split
  · next seen =>
      obtain ⟨r, member, same⟩ := List.any_eq_true.mp seen
      refine ⟨h.nodup, ?_⟩
      rw [Finset.insert_eq_of_mem]
      exact List.mem_toFinset.mpr (List.mem_map.mpr ⟨r, member, by simpa using same⟩)
  · next unseen =>
      have new : p.id ∉ pd.resolutions.map Resolution.principalId := by
        intro member
        obtain ⟨r, inside, same⟩ := List.mem_map.mp member
        exact unseen (List.any_eq_true.mpr ⟨r, inside, by simpa using same⟩)
      constructor
      · rw [List.map_append, List.map_singleton]
        exact List.nodup_append.mpr ⟨h.nodup, List.nodup_singleton _, by
          intro a inside b last
          rw [List.mem_singleton.mp last]
          rintro rfl
          exact new inside⟩
      · ext id
        simp [eq_comm]

/-- A vote that is not a qualified approval counts nobody. -/
theorem approvers_unqualified (bound : pd.requiredRoles = roles) (free : roles ≠ []) {v : Vote}
    (h : pd.qualified v = false ∨ v.approved = false) :
    approvers roles (votes ++ [v]) = approvers roles votes := by
  rw [approvers_append]
  suffices none : approvers roles [v] = [] by rw [none, List.append_nil]
  rcases h with unqualified | denied
  · cases principal : v.principal with
    | none => simp [approvers, principal]
    | some p =>
        have misses : p.holds roles = false := by
          simpa [PendingApproval.qualified, PendingApproval.roles, principal, bound, Principal.holds]
            using unqualified
        simp [approvers, principal, misses, free]
  · simp [approvers, denied]

theorem Tallied.resolve (h : Tallied roles parties votes pd) (free : roles ≠ []) (id : String) (v : Vote) :
    Tallied roles parties (votes ++ [v]) (pd.resolve u id v) := by
  have more := idsOf_mono roles votes [v]
  have bound := h.bound
  rcases resolve_cases u pd id v with ⟨none, _⟩ | ⟨_, unqualified, same⟩ | ⟨_, _, denied, same⟩ |
    ⟨_, qualified, approved, same⟩
  · exact absurd (bound.symm.trans none) free
  · rw [same]
    refine ⟨h.bound, h.needs, h.nodup, ?_, fun granted => ?_⟩
    · rw [approvers_unqualified h.bound free (.inl unqualified), h.ids]
    · have := h.enough granted
      omega
  · rw [same]
    refine ⟨h.bound, h.needs, h.nodup, ?_, fun granted => ?_⟩
    · rw [approvers_unqualified h.bound free (.inr denied)]
      exact h.ids
    · cases granted
  · obtain ⟨nodup, ids⟩ := h.count qualified approved
    have length : (pd.count v).resolutions.length = (idsOf (approvers roles (votes ++ [v]))).card := by
      rw [← ids, List.toFinset_card_of_nodup nodup, List.length_map]
    have event : (pd.count v).signal = pd.signal := by
      unfold PendingApproval.count
      split
      · rfl
      · split <;> rfl
    rw [same]
    split
    · refine ⟨(count_roles pd v).trans h.bound, (count_parties pd v).trans h.needs, nodup, ids,
        fun granted => ?_⟩
      have := h.enough (event ▸ granted)
      omega
    · next full =>
        refine ⟨(count_roles pd v).trans h.bound, (count_parties pd v).trans h.needs, nodup, ids,
          fun _ => ?_⟩
        rw [length, h.needs] at full
        omega

/-- An event that is set stays set. -/
theorem event_resolve {id : String} {v : Vote} (h : pd.event = true) : (pd.resolve u id v).event = true := by
  rcases resolve_cases u pd id v with ⟨_, same⟩ | ⟨_, _, same⟩ | ⟨_, _, _, same⟩ | ⟨_, _, _, same⟩
  · rw [same]
    rfl
  · rwa [same]
  · rw [same]
  · rw [same]
    split
    · unfold PendingApproval.count
      split
      · exact h
      · split <;> exact h
    · rfl

theorem tallied_foldl (free : roles ≠ []) (id : String) (votes : List Vote) : Tallied roles parties votes
    (votes.foldl (fun pd v => pd.resolve u id v) { requiredRoles := roles, parties }) := by
  induction votes using List.reverseRecOn with
  | nil => exact ⟨rfl, rfl, List.nodup_nil, rfl, fun granted => by cases granted⟩
  | append_singleton votes v ih =>
      rw [List.foldl_append]
      exact ih.resolve free id v

/-- Enough approvers at a qualified approval grant. -/
theorem Tallied.grants (h : Tallied roles parties votes pd) (free : roles ≠ []) {id : String} {v : Vote}
    (qualified : pd.qualified v = true) (approved : v.approved = true)
    (enough : parties ≤ (idsOf (approvers roles (votes ++ [v]))).card) :
    (pd.resolve u id v).signal = some true := by
  rcases resolve_cases u pd id v with ⟨none, _⟩ | ⟨_, unqualified, _⟩ | ⟨_, _, denied, _⟩ | ⟨_, _, _, same⟩
  · exact absurd (h.bound.symm.trans none) free
  · rw [qualified] at unqualified
    cases unqualified
  · rw [approved] at denied
    cases denied
  · obtain ⟨nodup, ids⟩ := h.count qualified approved
    rw [same, if_neg]
    · rfl
    · rw [← List.length_map (f := Resolution.principalId), ← List.toFinset_card_of_nodup nodup, ids, h.needs]
      omega

theorem resolve_unbound (free : pd.requiredRoles = []) (id : String) (v : Vote) : pd.resolve u id v = pd.settle v := by
  rcases resolve_cases u pd id v with ⟨_, same⟩ | ⟨some, _⟩ | ⟨some, _⟩ | ⟨some, _⟩
  · exact same
  · exact absurd free some
  · exact absurd free some
  · exact absurd free some

theorem unbound_foldl (parties : Int) (id : String) (votes : List Vote) :
    (votes.foldl (fun (pd : PendingApproval) v => pd.resolve u id v) { parties := parties }).requiredRoles = [] := by
  induction votes using List.reverseRecOn with
  | nil => rfl
  | append_singleton votes v ih =>
      rw [List.foldl_append, List.foldl_cons, List.foldl_nil, resolve_unbound ih]
      exact ih

/-- Without roles the last vote is the answer. -/
theorem signal_unbound (parties : Int) (id : String) (votes : List Vote) (v : Vote) :
    ((votes ++ [v]).foldl (fun (pd : PendingApproval) v => pd.resolve u id v) { parties := parties }).signal =
      some v.approved := by
  rw [List.foldl_append, List.foldl_cons, List.foldl_nil, resolve_unbound (unbound_foldl parties id votes)]
  rfl

theorem signal_direct (parties : Int) (id : String) (votes : List Vote) {b : Bool}
    (h : (votes.foldl (fun (pd : PendingApproval) v => pd.resolve u id v)
      { parties := parties }).signal = some b) :
    ∃ before v, votes = before ++ [v] ∧ v.approved = b := by
  cases votes using List.reverseRecOn with
  | nil => cases h
  | append_singleton votes v =>
      rw [signal_unbound] at h
      exact ⟨votes, v, rfl, Option.some.inj h⟩

end PendingApproval
section claims

open ApprovalWorld (votesOn)

variable {Host : Type} [DecidableEq Host] {u : Unicode} {host : Host} {w : ApprovalWorld Host}
  {repo : Bool} {id : String} {roles : List String} {parties : Int} {calls : List ResolveCall}

/-- A waiter that looks after these calls returns `True`. -/
def Granted (repo : Bool) (u : Unicode) (host : Host) (w : ApprovalWorld Host) (id : String)
    (calls : List ResolveCall) : Prop :=
  ∃ turns c, ((ApprovalGate.waitFor repo host u id turns ()).eval (ApprovalWorld.perform u c)
    (ApprovalWorld.after repo u host calls w)).1.1 = .ok (some true)

/-- Without a repository the gate's event alone answers. -/
theorem granted_iff (asked : w.pending host id = some { requiredRoles := roles, parties }) :
    Granted false u host w id calls ↔
      ((votesOn id calls).foldl (fun (pd : PendingApproval) v => pd.resolve u id v)
        { requiredRoles := roles, parties }).signal = some true := by
  have held : (ApprovalWorld.after false u host calls w).pending host id =
      some ((votesOn id calls).foldl (fun (pd : PendingApproval) v => pd.resolve u id v)
        { requiredRoles := roles, parties }) := by
    rw [ApprovalWorld.pending_after, asked]
    rfl
  have read := congrArg (fun pd => pd.bind PendingApproval.signal) held
  constructor
  · rintro ⟨turns, c, returned⟩
    rcases ApprovalWorld.waitFor_signal (by rw [held]; rfl) returned with signal | ⟨_, none, _⟩
    · exact read.symm.trans signal
    · cases none
  · intro signal
    exact ⟨1, {}, ApprovalWorld.signal_waitFor false {} (read.trans signal)⟩

/-- A role-bound approval is granted only by enough distinct principals, each holding
one of the roles; an approval without roles by the last call made on it. -/
theorem granted_by_parties (u : Unicode) (host : Host) (w : ApprovalWorld Host) (id : String)
    (roles : List String) (parties : Int)
    (asked : w.pending host id = some { requiredRoles := roles, parties })
    (calls : List ResolveCall) (granted : Granted false u host w id calls) :
    (roles ≠ [] → parties ≤ (idsOf (approvers roles (votesOn id calls))).card) ∧
      (roles = [] → ∃ before v, votesOn id calls = before ++ [v] ∧ v.approved = true) := by
  have signal := (granted_iff asked).mp granted
  constructor
  · intro free
    exact (PendingApproval.tallied_foldl free id _).enough signal
  · rintro rfl
    exact PendingApproval.signal_direct parties id _ signal

/-- Two principals must approve, and two do. -/
theorem granted_by_two : ∃ calls : List ResolveCall,
    (2 : Int) ≤ (idsOf (approvers ["finance"] (votesOn "a" calls))).card := by
  let gate : ApprovalWorld Unit :=
    { gates := fun _ => [("a", { requiredRoles := ["finance"], parties := 2 })] }
  let approve (name : String) : ResolveCall :=
    { approvalId := "a", vote := { approved := true, principal := some { id := name, roles := ["finance"] } } }
  have asked : gate.pending () "a" = some { requiredRoles := ["finance"], parties := 2 } := rfl
  have granted : Granted false Sample.unicode () gate "a" [approve "f", approve "g"] :=
    (granted_iff asked).mpr (by decide)
  exact ⟨_, (granted_by_parties Sample.unicode () gate "a" _ _ asked _ granted).1 (by decide)⟩

/-- Two parties are asked for without roles, and one resolution grants. -/
theorem parties_without_roles : ¬ ∀ (u : Unicode) (w : ApprovalWorld Unit) (id : String)
    (roles : List String) (parties : Int), 1 ≤ parties →
    w.pending () id = some { requiredRoles := roles, parties } →
    ∀ calls, Granted false u () w id calls → parties ≤ (idsOf (approvers roles (votesOn id calls))).card := by
  intro sound
  let gate : ApprovalWorld Unit := { gates := fun _ => [("a", { parties := 2 })] }
  let call : ResolveCall :=
    { approvalId := "a", vote := { approved := true, principal := some { id := "p" } } }
  have asked : gate.pending () "a" = some { requiredRoles := [], parties := 2 } := rfl
  have granted : Granted false Sample.unicode () gate "a" [call] := (granted_iff asked).mpr (by decide)
  exact absurd (sound Sample.unicode gate "a" [] 2 (by decide) asked [call] granted) (by decide)

end claims
end Maof
