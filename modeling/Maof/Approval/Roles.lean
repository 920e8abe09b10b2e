import Maof.Approval.Parties
import Mathlib.Combinatorics.Hall.Basic

/-!
# One party for each role

Counting distinct principals against the number of roles is not matching them
to the roles: where it falls short is said by Hall's condition.
-/

namespace Maof

open Data (Dict)
open ApprovalWorld (votesOn)

section roles

variable {Host : Type} [DecidableEq Host] {u : Unicode} {host : Host} {w : ApprovalWorld Host}
  {repo : Bool} {id : String} {roles : List String} {parties : Int} {calls : List ResolveCall}

/-- The approving principals can be matched to the roles, each to one it holds. -/
def Matched (roles : List String) (votes : List Vote) : Prop :=
  ∃ party : String → Principal, (∀ role ∈ roles, party role ∈ approvers roles votes ∧ role ∈ (party role).roles) ∧
    ∀ role ∈ roles, ∀ role' ∈ roles, (party role).id = (party role').id → role = role'

theorem Matched.mono {votes : List Vote} (h : Matched roles votes) (more : List Vote) :
    Matched roles (votes ++ more) := by
  obtain ⟨party, holds, apart⟩ := h
  refine ⟨party, fun role inside => ⟨?_, (holds role inside).2⟩, apart⟩
  rw [approvers_append]
  exact List.mem_append_left _ (holds role inside).1

theorem votesOn_append (id : String) (calls : List ResolveCall) (call : ResolveCall) :
    votesOn id (calls ++ [call]) =
      votesOn id calls ++ if call.approvalId = id then [call.vote] else [] := by
  by_cases mine : call.approvalId = id
  · simp [votesOn, mine]
  · simp [votesOn, mine]

/-- What a sequence of calls leaves of a role-bound approval; its row is as it was until
the event is set. -/
theorem after_bound (asked : w.pending host id = some { requiredRoles := roles, parties }) (free : roles ≠ [])
    (calls : List ResolveCall) :
    ∃ pd, pd = (votesOn id calls).foldl (fun (pd : PendingApproval) v => pd.resolve u id v)
        { requiredRoles := roles, parties } ∧
      (ApprovalWorld.after repo u host calls w).pending host id = some pd ∧
      (Dict.get (ApprovalWorld.after repo u host calls w).rows id = Dict.get w.rows id ∨ pd.event = true) := by
  refine ⟨_, rfl, ?_⟩
  induction calls using List.reverseRecOn with
  | nil => exact ⟨asked, .inl rfl⟩
  | append_singleton calls call ih =>
      have last : ApprovalWorld.after repo u host (calls ++ [call]) w =
          ((ApprovalGate.resolve repo host call.approvalId call.vote ()).eval (ApprovalWorld.perform u call.choice)
            (ApprovalWorld.after repo u host calls w)).2 := by
        simp only [ApprovalWorld.after, List.foldl_append, List.foldl_cons, List.foldl_nil]
      obtain ⟨held, row⟩ := ih
      rw [last, votesOn_append]
      by_cases mine : call.approvalId = id
      · subst mine
        have tallied := @PendingApproval.tallied_foldl u roles parties free call.approvalId
          (votesOn call.approvalId calls)
        obtain ⟨left, write⟩ := ApprovalWorld.resolve_bound (u := u) (v := call.vote) repo call.choice held
          (by rw [tallied.bound]; exact free)
        rw [if_pos rfl, List.foldl_append]
        refine ⟨left, ?_⟩
        rcases write with same | set
        · rcases row with same' | set
          · exact .inl (same.trans same')
          · exact .inr (PendingApproval.event_resolve set)
        · exact .inr set
      · rw [if_neg mine, List.append_nil]
        obtain ⟨same, row'⟩ := @ApprovalWorld.resolve_apart Host u host _ repo call.choice
          (ApprovalWorld.after repo u host calls w) _ _ mine call.vote
        exact ⟨same.trans held, by rwa [row']⟩

/-- A role-bound approval whose row is still pending is granted where its gate signals. -/
theorem granted_bound (asked : w.pending host id = some { requiredRoles := roles, parties }) (free : roles ≠ [])
    (waiting : w.rowSignal id = none) : Granted repo u host w id calls ↔
      ((votesOn id calls).foldl (fun (pd : PendingApproval) v => pd.resolve u id v)
        { requiredRoles := roles, parties }).signal = some true := by
  obtain ⟨pd, is, held, row⟩ := @after_bound Host _ u host w repo id roles parties asked free calls
  rw [← is]
  have read : ((ApprovalWorld.after repo u host calls w).pending host id).bind PendingApproval.signal =
      pd.signal := by
    rw [held]
    rfl
  constructor
  · rintro ⟨turns, c, returned⟩
    rcases ApprovalWorld.waitFor_signal (by rw [held]; rfl) returned with signal | ⟨unset, _, granted⟩
    · exact read.symm.trans signal
    · -- the row is written only once the event is set
      rcases row with same | set
      · rw [ApprovalWorld.rowSignal, same] at granted
        exact absurd (waiting.symm.trans granted) (by simp)
      · rw [read, PendingApproval.signal, if_pos set] at unset
        cases unset
  · intro signal
    exact ⟨1, {}, ApprovalWorld.signal_waitFor repo {} (read.trans signal)⟩

/-- The approval of the `k`th of many principals that all hold one role. -/
def likeCall (id role : String) (k : Nat) : ResolveCall where
  approvalId := id
  vote := { approved := true, principal := some { id := String.ofList (List.replicate k 'p'), roles := [role] } }

theorem votesOn_alike (id role : String) (ks : List Nat) :
    votesOn id (ks.map (likeCall id role)) = ks.map fun k => (likeCall id role k).vote := by
  have mine : (ks.map (likeCall id role)).filter (fun call => call.approvalId = id) =
      ks.map (likeCall id role) := by
    refine List.filter_eq_self.mpr fun call member => ?_
    obtain ⟨k, _, rfl⟩ := List.mem_map.mp member
    simp [likeCall]
  rw [votesOn, mine, List.map_map]
  rfl

theorem ids_alike {role : String} (inside : role ∈ roles) (id : String) (ks : List Nat) :
    idsOf (approvers roles (votesOn id (ks.map (likeCall id role)))) =
      (ks.map fun k => String.ofList (List.replicate k 'p')).toFinset := by
  have all : approvers roles (votesOn id (ks.map (likeCall id role))) =
      ks.map fun k => { id := String.ofList (List.replicate k 'p'), roles := [role] } := by
    rw [votesOn_alike, approvers, List.filterMap_map, ← List.filterMap_eq_map]
    congr 1
    funext k
    simp [likeCall, Principal.holds, inside, Option.filter]
  rw [all, idsOf, List.map_map]
  rfl

theorem card_alike {role : String} (inside : role ∈ roles) (id : String) {ks : List Nat} (nodup : ks.Nodup) :
    (idsOf (approvers roles (votesOn id (ks.map (likeCall id role))))).card = ks.length := by
  rw [ids_alike inside, List.toFinset_card_of_nodup]
  · rw [List.length_map]
  · refine nodup.map fun k k' same => ?_
    have := congrArg List.length (String.ofList_injective same)
    simpa using this

end roles
end Maof
