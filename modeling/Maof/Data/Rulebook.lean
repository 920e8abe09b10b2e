import Mathlib.Data.List.Basic
import Mathlib.Data.List.Nodup

/-!
# Rules that leave a journal

A list of rules is gone through once. A rule is quiet, or fires and then stands by name at the
end of the journal; either may raise. When its place among the others matters.
-/

namespace Data

/-- What a rule makes of a state: nothing where it is quiet. -/
structure Rulebook (ρ σ κ ε : Type) where
  step : ρ → σ → Except ε (Option σ)
  name : ρ → κ
  log : σ → List κ
  logged : ∀ {r s s'}, step r s = .ok (some s') → log s' = log s ++ [name r]

namespace Rulebook

variable {ρ σ κ ε : Type} (j : Rulebook ρ σ κ ε)

def run : List ρ → σ → Except ε σ
  | [], s => .ok s
  | r :: rs, s =>
      match j.step r s with
      | .ok none => run rs s
      | .ok (some s') => run rs s'
      | .error e => .error e

def Quiet (r : ρ) (s : σ) : Prop := j.step r s = .ok none

variable {j} {r : ρ} {rs rs' : List ρ} {s s' t c c' : σ}

theorem run_quiet (quiet : j.Quiet r s) : j.run (r :: rs) s = j.run rs s := by
  rw [run, show j.step r s = .ok none from quiet]

theorem run_fired (fires : j.step r s = .ok (some s')) : j.run (r :: rs) s = j.run rs s' := by
  rw [run, fires]

theorem run_append_ok (first : j.run rs s = .ok t) : j.run (rs ++ rs') s = j.run rs' t := by
  induction rs generalizing s with
  | nil =>
      cases first
      rfl
  | cons r rs ih =>
      rw [run] at first
      rw [List.cons_append, run]
      cases took : j.step r s with
      | error e =>
          rw [took] at first
          cases first
      | ok next =>
          rw [took] at first
          cases next with
          | none => exact ih first
          | some s' => exact ih first

theorem run_append_error {e : ε} (first : j.run rs s = .error e) : j.run (rs ++ rs') s = .error e := by
  induction rs generalizing s with
  | nil => cases first
  | cons r rs ih =>
      rw [run] at first
      rw [List.cons_append, run]
      cases took : j.step r s with
      | error e' =>
          rw [took] at first
          exact first
      | ok next =>
          rw [took] at first
          cases next with
          | none => exact ih first
          | some s' => exact ih first

/-- Where all of a list goes through, the first part of it does. -/
theorem ok_of_append (whole : j.run (rs ++ rs') s = .ok c) : ∃ t, j.run rs s = .ok t ∧ j.run rs' t = .ok c := by
  cases first : j.run rs s with
  | ok t => exact ⟨t, rfl, by rw [← run_append_ok first, whole]⟩
  | error e =>
      rw [run_append_error first] at whole
      cases whole

/-- A rule goes through quietly, or fires. -/
theorem ok_of_cons (whole : j.run (r :: rs) s = .ok c) :
    j.Quiet r s ∧ j.run rs s = .ok c ∨ ∃ s', j.step r s = .ok (some s') ∧ j.run rs s' = .ok c := by
  rw [run] at whole
  cases took : j.step r s with
  | error e =>
      rw [took] at whole
      cases whole
  | ok next =>
      rw [took] at whole
      cases next with
      | none => exact .inl ⟨took, whole⟩
      | some s' => exact .inr ⟨s', rfl, whole⟩

/-- The journal goes on with names of the rules gone through. -/
theorem log_run (through : j.run rs s = .ok c) : ∃ fired, j.log c = j.log s ++ fired ∧ fired ⊆ rs.map j.name := by
  induction rs generalizing s with
  | nil =>
      cases through
      exact ⟨[], by simp, by simp⟩
  | cons r rs ih =>
      obtain ⟨-, rest⟩ | ⟨s', fires, rest⟩ := ok_of_cons through
      · obtain ⟨fired, same, within⟩ := ih rest
        exact ⟨fired, same, fun k inside => List.mem_cons_of_mem _ (within inside)⟩
      · obtain ⟨fired, same, within⟩ := ih rest
        refine ⟨j.name r :: fired, ?_, ?_⟩
        · rw [same, j.logged fires, List.append_assoc]
          rfl
        · rw [List.map_cons]
          exact List.cons_subset_cons _ within

/-- Rules that are all quiet leave the state as it was. -/
theorem run_all_quiet (quiet : ∀ r ∈ rs, j.Quiet r s) : j.run rs s = .ok s := by
  induction rs with
  | nil => rfl
  | cons r rs ih =>
      obtain ⟨first, rest⟩ := List.forall_mem_cons.mp quiet
      rw [run_quiet first, ih rest]

/-- Rules that leave the journal as it was are all quiet. -/
theorem all_quiet (through : j.run rs s = .ok c) (same : j.log c = j.log s) : c = s ∧ ∀ r ∈ rs, j.Quiet r s := by
  induction rs with
  | nil =>
      cases through
      exact ⟨rfl, by simp⟩
  | cons r rs ih =>
      obtain ⟨quiet, rest⟩ | ⟨s', fires, rest⟩ := ok_of_cons through
      · obtain ⟨stays, others⟩ := ih rest
        exact ⟨stays, List.forall_mem_cons.mpr ⟨quiet, others⟩⟩
      · obtain ⟨fired, grown, -⟩ := log_run rest
        rw [j.logged fires, same, List.append_assoc] at grown
        have none := List.self_eq_append_right.mp grown
        cases none

/-! ## A rule that is added, and one that is moved -/

variable (r) (between rest : List ρ)

/-- Where a rule is put between others makes no difference: it is quiet there. -/
def Unheard (j : Rulebook ρ σ κ ε) (r : ρ) (between : List ρ) (s : σ) : Prop :=
  ∀ t, j.run between s = .ok t → j.Quiet r t

/-- A rule may go first or after others: it is quiet at either place, or it fires and none of the
others does, neither before nor after it. -/
def Passes (j : Rulebook ρ σ κ ε) (r : ρ) (between : List ρ) (s : σ) : Prop :=
  j.Quiet r s ∧ j.Unheard r between s ∨
    ∃ s', j.step r s = .ok (some s') ∧ (∀ other ∈ between, j.Quiet other s) ∧ ∀ other ∈ between, j.Quiet other s'

theorem run_unheard (unheard : j.Unheard r between s) :
    j.run (between ++ r :: rest) s = j.run (between ++ rest) s := by
  cases first : j.run between s with
  | ok t => rw [run_append_ok first, run_append_ok first, run_quiet (unheard t first)]
  | error e => rw [run_append_error first, run_append_error first]

theorem run_passes (passes : j.Passes r between s) :
    j.run (r :: (between ++ rest)) s = j.run (between ++ r :: rest) s := by
  obtain ⟨here, there⟩ | ⟨s', fires, before, after⟩ := passes
  · rw [run_quiet here, run_unheard r between rest there]
  · rw [run_fired fires, run_append_ok (run_all_quiet after), run_append_ok (run_all_quiet before), run_fired fires]

variable {r between rest}

/-- With names of their own, rules tell from the journal whether one more of them was heard. -/
theorem unheard_of_run (apart : j.name r ∉ rest.map j.name) (added : j.run (between ++ r :: rest) s = .ok c)
    (bare : j.run (between ++ rest) s = .ok c') (alike : j.log c = j.log c') : j.Unheard r between s := by
  intro t first
  rw [run_append_ok first] at added bare
  obtain ⟨quiet, -⟩ | ⟨t', fires, later⟩ := ok_of_cons added
  · exact quiet
  · obtain ⟨fired, grown, -⟩ := log_run later
    obtain ⟨fired', grown', within⟩ := log_run bare
    rw [j.logged fires, List.append_assoc] at grown
    have same := List.append_cancel_left (grown.symm.trans (alike.trans grown'))
    exact absurd (within (by rw [← same]; exact List.mem_cons_self)) apart

/-- With names of their own, rules tell from the journal whether one of them was moved. -/
theorem passes_of_run (apart : ((r :: (between ++ rest)).map j.name).Nodup)
    (first : j.run (r :: (between ++ rest)) s = .ok c) (moved : j.run (between ++ r :: rest) s = .ok c')
    (alike : j.log c = j.log c') : j.Passes r between s := by
  rw [List.map_cons, List.nodup_cons, List.map_append, List.mem_append, not_or] at apart
  obtain ⟨⟨notBetween, notRest⟩, distinct⟩ := apart
  have disjoint := (List.nodup_append'.mp distinct).2.2
  obtain ⟨quiet, bare⟩ | ⟨s', fires, later⟩ := ok_of_cons first
  · exact .inl ⟨quiet, unheard_of_run notRest moved bare alike.symm⟩
  · obtain ⟨t, through, moved⟩ := ok_of_append moved
    obtain ⟨u, through', later⟩ := ok_of_append later
    obtain ⟨m, grown, within⟩ := log_run through
    obtain ⟨m', grown', within'⟩ := log_run through'
    obtain ⟨f', ends', inside'⟩ := log_run later
    rw [grown', j.logged fires] at ends'
    obtain ⟨-, moved⟩ | ⟨t', fires', moved⟩ := ok_of_cons moved
    · -- the rule stands in the first journal and not in the second
      obtain ⟨f, ends, inside⟩ := log_run moved
      rw [grown] at ends
      have same : j.name r :: (m' ++ f') = m ++ f := by
        have whole := ends'.symm.trans (alike.trans ends)
        simp only [List.append_assoc] at whole
        exact List.append_cancel_left whole
      have member : j.name r ∈ m ++ f := by
        rw [← same]
        exact List.mem_cons_self
      obtain inside₁ | inside₂ := List.mem_append.mp member
      · exact absurd (within inside₁) notBetween
      · exact absurd (inside inside₂) notRest
    · obtain ⟨f, ends, inside⟩ := log_run moved
      rw [j.logged fires', grown] at ends
      have same : j.name r :: (m' ++ f') = m ++ j.name r :: f := by
        have whole := ends'.symm.trans (alike.trans ends)
        simp only [List.append_assoc] at whole
        exact List.append_cancel_left whole
      -- it stands first there, so nothing stands before it here
      have none : m = [] := by
        cases m with
        | nil => rfl
        | cons k m =>
            have head := (List.cons.inj same).1
            exact absurd (within (by rw [head]; exact List.mem_cons_self)) notBetween
      subst none
      obtain ⟨rfl, before⟩ := all_quiet through (by rw [grown, List.append_nil])
      have tails : m' ++ f' = f := (List.cons.inj same).2
      have none' : m' = [] := by
        cases m' with
        | nil => rfl
        | cons k m' =>
            have mine : k ∈ between.map j.name := within' List.mem_cons_self
            have theirs : k ∈ rest.map j.name := inside (by rw [← tails]; exact List.mem_cons_self)
            exact absurd theirs (disjoint mine)
      subst none'
      exact .inr ⟨s', fires, before, (all_quiet through' (by rw [grown', List.append_nil])).2⟩

end Rulebook
end Data
