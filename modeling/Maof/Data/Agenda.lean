import Mathlib.Data.List.Basic

/-!
# Items that are claimed once

A list of items, each of which is claimed at most once, by a sweep for all that qualify or one
by one. Two lists are compared by what a view of their pending items shows, in any order.
-/

namespace Data

structure Slot (α : Type) where
  item : α
  fired : Bool := false

namespace Agenda

variable {α β γ : Type}

def pending (slots : List (Slot α)) : List α := (slots.filter fun s => !s.fired).map Slot.item

/-- Claim every pending item that qualifies. -/
def sweep (q : α → Bool) (slots : List (Slot α)) : List (Slot α) × List α :=
  (slots.map fun s => if !s.fired && q s.item then { s with fired := true } else s, (pending slots).filter q)

/-- Claim a pending item that qualifies, and has so many of them before it. -/
def claimNth (q : α → Bool) : Nat → List (Slot α) → List (Slot α) × Option α
  | _, [] => ([], none)
  | n, s :: slots =>
      if !s.fired && q s.item then
        match n with
        | 0 => ({ s with fired := true } :: slots, some s.item)
        | n + 1 => let (rest, out) := claimNth q n slots; (s :: rest, out)
      else let (rest, out) := claimNth q n slots; (s :: rest, out)

/-- Claim any of those that qualify, the choice being made by a number. -/
def claimAny (q : α → Bool) (choice : Nat) (slots : List (Slot α)) : List (Slot α) × Option α :=
  claimNth q (choice % ((pending slots).filter q).length) slots

theorem pending_append (slots : List (Slot α)) (a : α) : pending (slots ++ [{ item := a }]) = pending slots ++ [a] := by
  unfold pending
  rw [List.filter_append, List.map_append]
  rfl

theorem pending_fired {s : Slot α} (slots : List (Slot α)) (fired : s.fired = true) : pending (s :: slots) = pending slots := by
  unfold pending
  rw [List.filter_cons_of_neg]
  simp [fired]

theorem pending_open {s : Slot α} (slots : List (Slot α)) (fired : s.fired = false) :
    pending (s :: slots) = s.item :: pending slots := by
  unfold pending
  rw [List.filter_cons_of_pos, List.map_cons]
  simp [fired]

section sweep

variable {q : α → Bool} {s : Slot α} {slots : List (Slot α)}

theorem sweep_skip (passed : ¬(!s.fired && q s.item) = true) :
    sweep q (s :: slots) = (s :: (sweep q slots).1, (sweep q slots).2) := by
  unfold sweep
  rw [List.map_cons, if_neg passed]
  cases fired : s.fired with
  | true => rw [pending_fired slots fired]
  | false =>
      have unqualified : ¬q s.item = true := fun here => passed (by simp [fired, here])
      rw [pending_open slots fired, List.filter_cons_of_neg unqualified]

theorem sweep_claim (qualifies : (!s.fired && q s.item) = true) :
    sweep q (s :: slots) = ({ s with fired := true } :: (sweep q slots).1, s.item :: (sweep q slots).2) := by
  unfold sweep
  rw [List.map_cons, if_pos qualifies]
  obtain ⟨unfired, here⟩ := Bool.and_eq_true_iff.mp qualifies
  rw [pending_open slots ((Bool.not_eq_true' _).mp unfired), List.filter_cons_of_pos here]

theorem pending_sweep (q : α → Bool) (slots : List (Slot α)) :
    pending (sweep q slots).1 = (pending slots).filter fun a => !q a := by
  induction slots with
  | nil => rfl
  | cons s slots ih =>
      cases fired : s.fired with
      | true =>
          rw [sweep_skip (by simp [fired]), pending_fired _ fired, pending_fired _ fired]
          exact ih
      | false =>
          rw [pending_open slots fired]
          cases qualifies : q s.item with
          | true =>
              rw [sweep_claim (by simp [fired, qualifies]), pending_fired _ rfl, List.filter_cons_of_neg (by simp [qualifies])]
              exact ih
          | false =>
              rw [sweep_skip (by simp [qualifies]), pending_open _ fired, List.filter_cons_of_pos (by simp [qualifies]), ih]

end sweep

section claim

variable {q : α → Bool} {n : Nat} {s : Slot α} {slots : List (Slot α)}

theorem claimNth_skip (passed : ¬(!s.fired && q s.item) = true) :
    claimNth q n (s :: slots) = (s :: (claimNth q n slots).1, (claimNth q n slots).2) := by
  conv_lhs => unfold claimNth
  rw [if_neg passed]

theorem claimNth_zero (qualifies : (!s.fired && q s.item) = true) :
    claimNth q 0 (s :: slots) = ({ s with fired := true } :: slots, some s.item) := by
  unfold claimNth
  rw [if_pos qualifies]

theorem claimNth_succ (qualifies : (!s.fired && q s.item) = true) :
    claimNth q (n + 1) (s :: slots) = (s :: (claimNth q n slots).1, (claimNth q n slots).2) := by
  conv_lhs => unfold claimNth
  rw [if_pos qualifies]

/-- What is claimed one by one is there once less. -/
theorem claimNth_some (enough : n < ((pending slots).filter q).length) :
    ∃ a, (claimNth q n slots).2 = some a ∧ q a = true ∧ (pending slots).Perm (a :: pending (claimNth q n slots).1) := by
  induction slots generalizing n with
  | nil => cases enough
  | cons s slots ih =>
      cases fired : s.fired with
      | true =>
          rw [pending_fired slots fired] at enough ⊢
          obtain ⟨a, claimed, qualifies, rest⟩ := ih enough
          rw [claimNth_skip (by simp [fired]), pending_fired _ fired]
          exact ⟨a, claimed, qualifies, rest⟩
      | false =>
          rw [pending_open slots fired] at enough ⊢
          cases qualifies : q s.item with
          | true =>
              rw [List.filter_cons_of_pos qualifies, List.length_cons] at enough
              cases n with
              | zero =>
                  rw [claimNth_zero (by simp [fired, qualifies]), pending_fired _ rfl]
                  exact ⟨s.item, rfl, qualifies, .refl _⟩
              | succ n =>
                  obtain ⟨a, claimed, here, rest⟩ := ih (Nat.lt_of_succ_lt_succ enough)
                  rw [claimNth_succ (by simp [fired, qualifies]), pending_open _ fired]
                  exact ⟨a, claimed, here, (rest.cons s.item).trans (.swap a s.item _)⟩
          | false =>
              rw [List.filter_cons_of_neg (by simp [qualifies])] at enough
              obtain ⟨a, claimed, here, rest⟩ := ih enough
              rw [claimNth_skip (by simp [qualifies]), pending_open _ fired]
              exact ⟨a, claimed, here, (rest.cons s.item).trans (.swap a s.item _)⟩

theorem claimNth_none (nothing : (pending slots).filter q = []) : claimNth q n slots = (slots, none) := by
  induction slots generalizing n with
  | nil => rfl
  | cons s slots ih =>
      cases fired : s.fired with
      | true =>
          rw [pending_fired slots fired] at nothing
          rw [claimNth_skip (by simp [fired]), ih nothing]
      | false =>
          rw [pending_open slots fired, List.filter_eq_nil_iff] at nothing
          have here := nothing s.item List.mem_cons_self
          have later := List.filter_eq_nil_iff.mpr fun a member => nothing a (List.mem_cons_of_mem _ member)
          rw [claimNth_skip (by simp [here]), ih later]

theorem claimNth_length (q : α → Bool) (n : Nat) (slots : List (Slot α)) : (claimNth q n slots).1.length = slots.length := by
  induction slots generalizing n with
  | nil => rfl
  | cons s slots ih =>
      by_cases qualifies : (!s.fired && q s.item) = true
      · cases n with
        | zero => rw [claimNth_zero qualifies, List.length_cons, List.length_cons]
        | succ n => rw [claimNth_succ qualifies, List.length_cons, List.length_cons, ih]
      · rw [claimNth_skip qualifies, List.length_cons, List.length_cons, ih]

theorem claimAny_some {choice : Nat} (some : (pending slots).filter q ≠ []) :
    ∃ a, (claimAny q choice slots).2 = .some a ∧ q a = true ∧ (pending slots).Perm (a :: pending (claimAny q choice slots).1) :=
  claimNth_some (Nat.mod_lt choice (List.length_pos_of_ne_nil some))

theorem claimAny_none {choice : Nat} (nothing : (pending slots).filter q = []) : claimAny q choice slots = (slots, none) :=
  claimNth_none nothing

end claim

section views

variable {xs : List (Slot α)} {ys : List (Slot β)} {f : α → γ} {g : β → γ}

/-- Sweeps for what shows in the view claim alike, and leave alike. -/
theorem sweep_alike (same : ((pending xs).map f).Perm ((pending ys).map g)) {q : α → Bool} {r : β → Bool} (shows_ : γ → Bool)
    (left : ∀ a ∈ pending xs, q a = shows_ (f a)) (right : ∀ b ∈ pending ys, r b = shows_ (g b)) :
    ((sweep q xs).2.map f).Perm ((sweep r ys).2.map g) ∧
      ((pending (sweep q xs).1).map f).Perm ((pending (sweep r ys).1).map g) := by
  have filtered : ∀ keep : γ → Bool, (((pending xs).filter fun a => keep (f a)).map f).Perm
      (((pending ys).filter fun b => keep (g b)).map g) := by
    intro keep
    have kept := same.filter keep
    rwa [List.filter_map, List.filter_map] at kept
  constructor
  · have claimed := filtered shows_
    rwa [← List.filter_congr left, ← List.filter_congr right] at claimed
  · rw [pending_sweep, pending_sweep]
    have kept := filtered fun c => !shows_ c
    rwa [← List.filter_congr fun a member => congrArg (!·) (left a member),
      ← List.filter_congr fun b member => congrArg (!·) (right b member)] at kept

theorem claim_alike (same : ((pending xs).map f).Perm ((pending ys).map g)) {xs' : List α} {ys' : List β} {a : α} {b : β}
    (left : (pending xs).Perm (a :: xs')) (right : (pending ys).Perm (b :: ys')) (alike : f a = g b) :
    (xs'.map f).Perm (ys'.map g) := by
  have both := ((left.map f).symm.trans same).trans (right.map g)
  rw [List.map_cons, List.map_cons, alike] at both
  exact both.cons_inv

end views

end Agenda
end Data
