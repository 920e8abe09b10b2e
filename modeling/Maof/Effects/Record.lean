import Maof.Effects.Machine

/-!
# Worlds that keep their history

The calls a machine makes, in order, each with its answer, beside the world they
act on. Keeping them changes no run.
-/

namespace Effects

/-- A call and what it answered. -/
structure Event (S : Sig) where
  op : S.Op
  reply : S.Reply op

structure Recorded (S : Sig) (W : Type) where
  world : W
  log : List (Event S) := []

variable {S : Sig} {W Ch A E G : Type}

/-- The pool without its history. -/
def Pool.forget (p : Pool S (Recorded S W) G) : Pool S W G := { world := p.world.world, procs := p.procs }

namespace Machine

/-- The machine that writes its calls down. -/
def recorded (M : Machine S W Ch A E G) : Machine S (Recorded S W) Ch A E G where
  perform c w op :=
    let out := M.perform c w.world op
    ({ world := out.1, log := w.log ++ [⟨op, out.2⟩] }, out.2)
  program := M.program
  env e w := { w with world := M.env e w.world }
  tag := M.tag
  mark := M.mark

variable {M : Machine S W Ch A E G} {cond : Pool S W G → Label Ch A E → Bool}

theorem recorded_step (p : Pool S (Recorded S W) G) (l : Label Ch A E) :
    (M.recorded.step p l).map Pool.forget = M.step p.forget l := by
  cases l with
  | spawn a => rfl
  | run i c =>
      simp only [step, call, Pool.forget]
      cases found : p.procs[i]? with
      | none => rfl
      | some b =>
          obtain ⟨prog, g⟩ := b
          cases prog <;> rfl
  | kill i =>
      simp only [step, Pool.forget]
      cases found : p.procs[i]? <;> rfl
  | env e => rfl

/-- A recorded run is a run. -/
theorem Run.forget {p q : Pool S (Recorded S W) G} (run : Run M.recorded (fun p => cond p.forget) p q) :
    Run M cond p.forget q.forget := by
  induction run with
  | refl => exact .refl _
  | @tail q r l _ met step ih =>
      refine .tail ih met ?_
      rw [← recorded_step, step, Option.map_some]

/-- Every run can be recorded. -/
theorem Run.record {p q : Pool S W G} (run : Run M cond p q) (start : Pool S (Recorded S W) G)
    (from_ : start.forget = p) :
    ∃ end_, Run M.recorded (fun p => cond p.forget) start end_ ∧ end_.forget = q := by
  induction run with
  | refl => exact ⟨start, .refl _, from_⟩
  | @tail q r l _ met step ih =>
      obtain ⟨mid, reached, same⟩ := ih
      have stepped := recorded_step (M := M) mid l
      rw [same, step, Option.map_eq_some_iff] at stepped
      obtain ⟨last, took, forgot⟩ := stepped
      exact ⟨last, .tail reached (by rwa [same]) took, forgot⟩

end Machine

end Effects
