import Maof.Orchestrator.Status

/-!
# Cancellation

The operator sets a flag, reads the status and finalizes an idle run; a drive
reads the flag before each stage. A cancelled run ends cancelled as long as
whoever is answerable for it, its drive or the operator, gets to its write, and
no drive writes another outcome over the request.
-/

namespace Maof

open Effects (Prog Machine Pool Proc Label)

open World

/-- The run a cancellation under way is for. -/
def Track.tends (g : Track) : Option RunId := g.cancelling.map Prod.fst

/-- Process `i` has set the run's flag and not yet answered for it. -/
def Tends (p : Pool RunSig World Track) (i : Nat) (r : RunId) : Prop :=
  ∃ b, p.procs[i]? = some b ∧ b.live = true ∧ b.tag.tends = some r

/-- A cancellation that has yet to read the run's status. -/
def awaited (p : Pool RunSig World Track) (r : RunId) : Bool :=
  (List.range p.procs.length).any fun j => match p.next j with
    | some (.fetchStatus r') => decide (r' = r)
    | _ => false

/-- The runs whose cancellation may depend on process `i`. -/
def serves (p : Pool RunSig World Track) (i : Nat) : List RunId :=
  match p.procs[i]? with
  | some ⟨.call (.setState r _) _, g⟩ => r :: (g.driving.toList ++ g.tends.toList)
  | some ⟨.call _ _, g⟩ => g.driving.toList ++ g.tends.toList
  | _ => []

namespace Orchestrator

/-- The call process `i` makes is its last, and it ends by raising. -/
def raises (o : Orchestrator) (p : Pool RunSig World Track) (i : Nat) (c : Choice) : Bool :=
  match (o.tracked.step p (.run i c)).bind fun q => q.procs[i]? with
  | some ⟨.ret (.error _), _⟩ => true
  | _ => false

end Orchestrator

/-- Somebody is answerable for the run, or it is cancelled already. -/
def Watched (p : Pool RunSig World Track) (r : RunId) : Prop :=
  p.world.statusOf r = some .cancelled ∨ (∃ i, Drives p i r) ∨
    ((p.world.statusOf r = some .waiting ∨ p.world.statusOf r = some .pending) ∧ ∃ i, Tends p i r)

section step

variable {o : Orchestrator} {p : Pool RunSig World Track} {i : Nat} {c : Choice} {op : Op}
  {k : Except Exn op.Ans → Prog RunSig (Except Exn Unit)} {g : Track} {r : RunId}

theorem Drives.other {j : Nat} {b : Proc RunSig Track} {w : World} (h : Drives p j r)
    (other : j ≠ i) : Drives ⟨w, p.procs.set i b⟩ j r := by
  obtain ⟨b', found, live, mine⟩ := h
  exact ⟨b', by rwa [List.getElem?_set_ne other.symm], live, mine⟩

theorem Tends.other {j : Nat} {b : Proc RunSig Track} {w : World} (h : Tends p j r)
    (other : j ≠ i) : Tends ⟨w, p.procs.set i b⟩ j r := by
  obtain ⟨b', found, live, mine⟩ := h
  exact ⟨b', by rwa [List.getElem?_set_ne other.symm], live, mine⟩

/-- A move that leaves the run's status alone leaves it watched, if the process that
moved stays answerable for what it was answerable for. -/
theorem Watched.moved {w : World} {b : Proc RunSig Track} {b' : Proc RunSig Track}
    (watched : Watched p r) (found : p.procs[i]? = some b)
    (status : w.statusOf r = p.world.statusOf r)
    (driving : b.tag.driving = some r → b'.tag.driving = some r ∧ b'.live = true)
    (tends : b.tag.tends = some r →
      p.world.statusOf r = some .waiting ∨ p.world.statusOf r = some .pending →
      b'.tag.tends = some r ∧ b'.live = true) : Watched ⟨w, p.procs.set i b'⟩ r := by
  have inside : i < p.procs.length := (List.getElem?_eq_some_iff.mp found).1
  have here : (p.procs.set i b')[i]? = some b' := List.getElem?_set_self inside
  rcases watched with cancelled | ⟨j, drives⟩ | ⟨idle, j, tending⟩
  · exact .inl (status.trans cancelled)
  · refine .inr (.inl ?_)
    by_cases same : j = i
    · subst same
      obtain ⟨_, found', _, mine⟩ := drives
      cases found.symm.trans found'
      obtain ⟨mine', live⟩ := driving mine
      exact ⟨j, b', here, live, mine'⟩
    · exact ⟨j, drives.other same⟩
  · refine .inr (.inr ⟨by rwa [status], ?_⟩)
    by_cases same : j = i
    · subst same
      obtain ⟨_, found', _, mine⟩ := tending
      cases found.symm.trans found'
      obtain ⟨mine', live⟩ := tends mine idle
      exact ⟨j, b', here, live, mine'⟩
    · exact ⟨j, tending.other same⟩

end step

section steps

variable {o : Orchestrator} {p : Pool RunSig World Track} {i : Nat} {c : Choice} {g : Track}

end steps

end Maof
