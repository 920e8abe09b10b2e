import Maof.Effects.Mortal
import Maof.Workflows.Invocation
import Maof.Workflows.Traversal

/-!
# What the executor writes

The executor writes the workflow state and the list of its completed steps, and
its stage the entries of the workflow's own context. Nothing else of the run's
context changes, whatever its calls answer.
-/

namespace Effects.Act

variable {S : Sig} {σ α β : Type} {T : σ → σ → Prop}

/-- Whatever its calls answer, the program takes its record along `T`. -/
def Moves (T : σ → σ → Prop) (m : Act S σ α) : Prop := ∀ s, (m s).Yields fun out => T s out.2

theorem moves_pure (refl : ∀ s, T s s) (a : α) : (pure a : Act S σ α).Moves T := refl

theorem moves_throw (refl : ∀ s, T s s) (e : S.Err) : (throw e : Act S σ α).Moves T := refl

theorem moves_reads (refl : ∀ s, T s s) {m : Act S σ α} (reads : m.Reads) : m.Moves T := by
  intro s
  have same := reads s
  revert same
  generalize m s = p
  intro same
  induction p with
  | ret out =>
      have kept : out.2 = s := same
      rw [Prog.Yields, kept]
      exact refl s
  | call op k ih => exact fun r => ih r (same r)

theorem moves_await (refl : ∀ s, T s s) (op : S.Op) : (await op : Act S σ (S.Ans op)).Moves T :=
  moves_reads refl (reads_await op)

theorem moves_modify {f : σ → σ} (written : ∀ s, T s (f s)) : (modify f : Act S σ Unit).Moves T := written

theorem moves_bind (trans : ∀ a b c, T a b → T b c → T a c) {m : Act S σ α} {f : α → Act S σ β} (first : m.Moves T)
    (rest : ∀ a, (f a).Moves T) : (m >>= f).Moves T := by
  intro s
  apply Prog.Yields.bind (first s)
  intro out moved
  obtain ⟨r, s'⟩ := out
  cases r with
  | error e => exact moved
  | ok a =>
      exact (rest a s').weaken fun out later => trans s s' out.2 moved later

theorem moves_get_bind {f : σ → Act S σ β} (rest : ∀ s, (f s).Moves T) : (get >>= f : Act S σ β).Moves T :=
  fun s => rest s s

end Effects.Act

namespace Maof

open Data (Dict)
open Effects (Act Prog)

/-- A relation that the writes of the executor keep to. -/
structure Executes (T : Work → Work → Prop) : Prop where
  refl : ∀ work, T work work
  trans : ∀ a b c, T a b → T b c → T a c
  state : ∀ work f, T work (work.setWorkflow f)
  finished : ∀ work steps, T work { work with extras := { work.extras with workflowCompleted := steps } }

/-- The parts of the executor write the workflow state and the list of completed steps only. -/
theorem Executes.traversal {p : Platform} {ex : WorkflowExecutor} {d : WorkflowDefinition} {info : RunInfo}
    {T : Work → Work → Prop} (keeps : Executes T) :
    Traversal p ex d info (fun _ => True) fun m => m.Moves T where
  pure a := Act.moves_pure keeps.refl a
  bind first rest := Act.moves_bind keeps.trans first rest
  look rest := Act.moves_get_bind fun work => rest work trivial
  refuse _ := Act.moves_throw keeps.refl _
  call op _ := Act.moves_await (S := StageSig) keeps.refl op
  note f _ := Act.moves_modify fun work => keeps.state work f
  hand _ _ _ _ _ _ := by
    apply Act.moves_bind keeps.trans (Act.moves_reads keeps.refl (dispatch_reads _ _))
    intro sub
    exact Act.moves_bind keeps.trans (Act.moves_modify fun work => keeps.state work _) fun _ => Act.moves_pure keeps.refl false

/-- What the executor and the entries of its stage's context keep. -/
theorem workflowStage_moves {p : Platform} {ex : WorkflowExecutor} {d : WorkflowDefinition} {info : RunInfo}
    {extra : Dict String Json} {T : Work → Work → Prop} (keeps : Executes T)
    (context : ∀ work entries, T work { work with extras := { work.extras with workflowContext := entries } }) :
    ((workflowStage p ex d extra).execute info).Moves T := by
  have ran := @Traversal.run p ex d info _ _ keeps.traversal (fun e => Act.moves_throw keeps.refl e)
    fun steps => Act.moves_modify fun work => keeps.finished work (steps work)
  exact keeps.traversal.stage ran (Act.moves_modify fun work => context work _)

end Maof
