import Maof.Effects.Machine
import Mathlib.Algebra.GroupWithZero.Nat

/-!
# Custody

What must not get lost is backed. A call may give a part of the backing up only
against a credit, and a credit is earned by an earlier call of the same process
that added to the backing. A process that dies takes its credits with it, so
what is owed stays backed in every interleaving.
-/

namespace Effects

variable {S : Sig} {W Ch A E G : Type}

/-- The credit a process can still spend. -/
def Proc.credit (credit : G → Nat) (b : Proc S G) : Nat := if b.live then credit b.tag else 0

theorem Proc.credit_le {credit : G → Nat} (b : Proc S G) : b.credit credit ≤ credit b.tag := by
  unfold Proc.credit
  split
  · exact Nat.le_refl _
  · exact Nat.zero_le _

theorem Proc.credit_mono {credit credit' : G → Nat} (le : ∀ g, credit' g ≤ credit g) (b : Proc S G) :
    b.credit credit' ≤ b.credit credit := by
  unfold Proc.credit
  split
  · exact le b.tag
  · exact Nat.le_refl _

theorem Proc.credit_call {credit : G → Nat} {op : S.Op} {k : S.Reply op → Prog S (Except S.Err Unit)} {g : G} :
    Proc.credit credit ⟨.call op k, g⟩ = credit g := rfl

theorem Proc.credit_stopped {credit : G → Nat} {r : Except S.Err Unit} {g : G} :
    Proc.credit credit (⟨.ret r, g⟩ : Proc S G) = 0 := rfl

namespace Machine

variable {M : Machine S W Ch A E G} {cond : Pool S W G → Label Ch A E → Bool}

/-- All credits of a pool. -/
def credits (credit : G → Nat) (procs : List (Proc S G)) : Nat := (procs.map (Proc.credit credit)).sum

section credits

variable {credit credit' : G → Nat}

theorem credits_append (ps qs : List (Proc S G)) :
    credits credit (ps ++ qs) = credits credit ps + credits credit qs := by
  rw [credits, List.map_append, List.sum_append]
  rfl

theorem credits_mono (le : ∀ g, credit' g ≤ credit g) (ps : List (Proc S G)) :
    credits credit' ps ≤ credits credit ps := by
  induction ps with
  | nil => exact Nat.le_refl _
  | cons p ps ih => exact Nat.add_le_add (p.credit_mono le) ih

/-- A process that is replaced hands in its credit for the one of its successor. -/
theorem credits_set (le : ∀ g, credit' g ≤ credit g) {ps : List (Proc S G)} {i : Nat} {b b' : Proc S G}
    (found : ps[i]? = some b) :
    credits credit' (ps.set i b') + b.credit credit ≤ credits credit ps + b'.credit credit' := by
  induction ps generalizing i with
  | nil => cases found
  | cons p ps ih =>
      cases i with
      | zero =>
          cases found
          have rest := credits_mono le ps
          simp only [List.set_cons_zero, credits, List.map_cons, List.sum_cons] at rest ⊢
          omega
      | succ i =>
          have here := p.credit_mono le
          have rest := ih (i := i) found
          simp only [List.set_cons_succ, credits, List.map_cons, List.sum_cons] at rest ⊢
          omega

end credits

/-- No call takes more off the backing than the credit it spends, and none adds to the credit of
another process. -/
structure Custody (M : Machine S W Ch A E G) (P : Protocol S G) (credit : W → G → Nat) (owed backing : W → Nat) :
    Prop where
  marks : M.mark = P.mark
  fresh : ∀ w a, credit w (M.tag a) = 0
  call : ∀ c w op g, P.allowed g op →
    owed (M.perform c w op).1 + credit (M.perform c w op).1 (P.mark g op (M.perform c w op).2) + backing w ≤
      owed w + credit w g + backing (M.perform c w op).1
  others : ∀ c w op g, credit (M.perform c w op).1 g ≤ credit w g
  alone : ∀ e w, owed (M.env e w) + backing w ≤ owed w + backing (M.env e w) ∧ ∀ g, credit (M.env e w) g ≤ credit w g

section custody

variable {P : Protocol S G} {credit : W → G → Nat} {owed backing : W → Nat}

/-- One step keeps what is owed, and the credits still out, within the backing. -/
theorem Custody.step (custody : M.Custody P credit owed backing) {post : Except S.Err Unit → G → Prop} {p q : Pool S W G}
    {l : Label Ch A E} (follow : AllFollow P post p) (h : M.step p l = some q)
    (backed : owed p.world + credits (credit p.world) p.procs ≤ backing p.world) :
    owed q.world + credits (credit q.world) q.procs ≤ backing q.world := by
  rcases step_cases h with ⟨a, rfl, rfl⟩ | ⟨i, c, op, k, g, rfl, found, rfl⟩ |
    ⟨i, b, rfl, found, rfl⟩ | ⟨e, rfl, rfl⟩
  · have started : Proc.credit (credit p.world) (⟨M.program a, M.tag a⟩ : Proc S G) = 0 :=
      Nat.le_zero.mp (Nat.le_trans (Proc.credit_le _) (Nat.le_of_eq (custody.fresh p.world a)))
    have alone : credits (credit p.world) [(⟨M.program a, M.tag a⟩ : Proc S G)] = 0 := by
      simp only [credits, List.map_cons, List.map_nil, List.sum_cons, List.sum_nil, started, Nat.add_zero]
    simp only [credits_append, alone]
    exact backed
  · have spent := custody.call c p.world op g (follow.allowed found)
    have swapped := @credits_set _ _ _ _ (custody.others c p.world op) _ _ _
      ⟨k (M.perform c p.world op).2, M.mark g op (M.perform c p.world op).2⟩ found
    have held := @Proc.credit_le S _ (credit (M.perform c p.world op).1)
      ⟨k (M.perform c p.world op).2, M.mark g op (M.perform c p.world op).2⟩
    rw [Proc.credit_call] at swapped
    rw [← custody.marks] at spent
    simp only at held ⊢
    omega
  · have swapped := @credits_set _ _ _ _ (fun g => Nat.le_refl (credit p.world g)) _ _ _ { b with prog := .ret (.ok ()) } found
    rw [Proc.credit_stopped] at swapped
    simp only
    omega
  · have kept := custody.alone e p.world
    have rest := credits_mono kept.2 p.procs
    have moved := kept.1
    simp only
    omega

/-- What is owed is backed in every state of every run. -/
theorem Custody.backed (custody : M.Custody P credit owed backing) {post : Except S.Err Unit → G → Prop} {p q : Pool S W G}
    (run : Run M cond p q) (starts : ∀ a, (M.program a).Follows P post (M.tag a))
    (known : ∀ c w op, P.answers op (M.perform c w op).2) (follow : AllFollow P post p)
    (start : owed p.world + credits (credit p.world) p.procs ≤ backing p.world) : owed q.world ≤ backing q.world := by
  have kept := run.invariant
    (I := fun r => AllFollow P post r ∧ owed r.world + credits (credit r.world) r.procs ≤ backing r.world) ⟨follow, start⟩
    fun r l r' inv _ step => ⟨step_allFollow custody.marks starts inv.1 step fun _ c op _ _ _ _ => known c r.world op,
      custody.step inv.1 step inv.2⟩
  have total := kept.2
  omega

end custody

end Machine
end Effects
