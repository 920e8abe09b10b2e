import Maof.Orchestrator.Discipline

/-!
# The status of a run

Every status write is unconditional, so a run that has ended stays ended only
as long as its drives do not overlap and the operator's write meets the status
it was decided on.
-/

namespace Maof

open Effects (Act Prog Machine Pool Proc Label)

open World

/-- Process `i` is in a drive of run `r`. -/
def Drives (p : Pool RunSig World Track) (i : Nat) (r : RunId) : Prop :=
  ∃ b, p.procs[i]? = some b ∧ b.live = true ∧ b.tag.driving = some r

/-- Some process is in a drive of the run. -/
def driven (p : Pool RunSig World Track) (r : RunId) : Bool :=
  p.procs.any fun b => b.live && decide (b.tag.driving = some r)

theorem Drives.driven {p : Pool RunSig World Track} {i : Nat} {r : RunId} (h : Drives p i r) :
    driven p r = true := by
  obtain ⟨b, found, live, mine⟩ := h
  exact List.any_eq_true.mpr ⟨b, List.mem_of_getElem? found, by simp [live, mine]⟩

/-- A drive opens only a run that has not ended and that nothing else drives; an
operator's `CANCELLED` meets the status it was decided on. -/
def disciplined (p : Pool RunSig World Track) : Label Choice Actor EnvMove → Bool
  | .run i _ => match p.next i with
      | some (.setState r .running) => match p.world.statusOf r with
          | some s => !s.terminal && !driven p r
          | none => false
      | some (.finalizeCancel r) =>
          p.world.statusOf r = some .waiting || p.world.statusOf r = some .pending
      | _ => true
  | _ => true

/-- Whoever drives a run has written `RUNNING` last, and drives it alone. -/
structure Solo (p : Pool RunSig World Track) : Prop where
  running : ∀ i r, Drives p i r → p.world.statusOf r = some .running
  alone : ∀ i j r, Drives p i r → Drives p j r → i = j

/-- Statuses that have ended stay as they are. -/
def Stays (w w' : World) : Prop :=
  ∀ r s, w.statusOf r = some s → s.terminal = true → w'.statusOf r = some s

theorem Solo.fewer {p q : Pool RunSig World Track} (solo : Solo p)
    (old : ∀ i r, Drives q i r → Drives p i r)
    (keeps : ∀ i r, Drives q i r → p.world.statusOf r = some .running →
      q.world.statusOf r = some .running) : Solo q where
  running i r h := keeps i r h (solo.running i r (old i r h))
  alone i j r h h' := solo.alone i j r (old i r h) (old j r h')

/-- The drives of a pool after one process moved. -/
theorem drives_set {p : Pool RunSig World Track} {i j : Nat} {r : RunId} {b : Proc RunSig Track}
    {w : World} (h : Drives ⟨w, p.procs.set i b⟩ j r) :
    (j = i ∧ b.live = true ∧ b.tag.driving = some r) ∨ (j ≠ i ∧ Drives p j r) := by
  obtain ⟨b', found, live, mine⟩ := h
  by_cases same : j = i
  · subst same
    rw [List.getElem?_set_self'] at found
    obtain ⟨_, _, rfl⟩ := Option.map_eq_some_iff.mp found
    exact .inl ⟨rfl, live, mine⟩
  · rw [List.getElem?_set_ne (fun h => same h.symm)] at found
    exact .inr ⟨same, b', found, live, mine⟩

theorem drives_append {p : Pool RunSig World Track} {i : Nat} {r : RunId} {b : Proc RunSig Track}
    (idle : b.tag.driving = none) {w : World} (h : Drives ⟨w, p.procs ++ [b]⟩ i r) : Drives p i r := by
  obtain ⟨b', found, live, mine⟩ := h
  rcases Nat.lt_or_ge i p.procs.length with inside | past
  · rw [List.getElem?_append_left inside] at found
    exact ⟨b', found, live, mine⟩
  · rw [List.getElem?_append_right past] at found
    have last : b' = b := List.mem_singleton.mp (List.mem_of_getElem? found)
    rw [last, idle] at mine
    cases mine

theorem mark_driving {g : Track} {op : Op} (plain : ∀ r s, op ≠ .setState r s)
    (reply : Except Exn op.Ans) : (Track.mark g op reply).driving = g.driving := by
  cases op with
  | setState r s => exact absurd rfl (plain r s)
  | save r label blob => simp only [Track.mark]; split <;> cases reply <;> rfl
  | schedule r condition gate => cases reply <;> simp only [Track.mark]; split <;> rfl
  | satisfyResults r s => rcases reply with e | (_ | _) <;> rfl
  | _ => cases reply <;> rfl

variable {o : Orchestrator}

/-- A drive that opens alone. -/
theorem Solo.opened {p : Pool RunSig World Track} {i : Nat} {b : Proc RunSig Track} {w : World}
    {r : RunId} (solo : Solo p) (free : driven p r = false)
    (others : ∀ r', r' ≠ r → w.statusOf r' = p.world.statusOf r')
    (tag : b.tag.driving = none ∨ (b.tag.driving = some r ∧ w.statusOf r = some .running)) :
    Solo ⟨w, p.procs.set i b⟩ := by
  have elsewhere : ∀ {j r'}, Drives p j r' → r' ≠ r := by
    rintro j r' old rfl
    rw [old.driven] at free
    cases free
  have mine : ∀ {r'}, b.tag.driving = some r' → r' = r ∧ w.statusOf r = some .running := by
    intro r' here
    rcases tag with none | ⟨some, running⟩
    · rw [none] at here
      cases here
    · exact ⟨Option.some.inj (here.symm.trans some), running⟩
  constructor
  · intro j r' h
    rcases drives_set h with ⟨_, _, here⟩ | ⟨_, old⟩
    · obtain ⟨rfl, running⟩ := mine here
      exact running
    · exact (others r' (elsewhere old)).trans (solo.running j r' old)
  · intro j j' r' h h'
    rcases drives_set h with ⟨rfl, _, here⟩ | ⟨_, old⟩ <;>
      rcases drives_set h' with ⟨rfl, _, here'⟩ | ⟨_, old'⟩
    · rfl
    · exact absurd (mine here).1 (elsewhere old')
    · exact absurd (mine here').1 (elsewhere old)
    · exact solo.alone j j' r' old old'

/-- The moved process drives nothing more than before, and no driven run changed status. -/
theorem Solo.moved {p : Pool RunSig World Track} {i : Nat} {b b' : Proc RunSig Track} {w : World}
    (solo : Solo p) (found : p.procs[i]? = some b) (live : b.live = true)
    (tag : b'.tag.driving = none ∨ b'.tag.driving = b.tag.driving)
    (keeps : ∀ j r, Drives p j r → (j = i → b'.tag.driving = b.tag.driving) →
      w.statusOf r = some .running) : Solo ⟨w, p.procs.set i b'⟩ := by
  have old : ∀ {j r}, Drives ⟨w, p.procs.set i b'⟩ j r →
      Drives p j r ∧ (j = i → b'.tag.driving = b.tag.driving) := by
    intro j r h
    rcases drives_set h with ⟨rfl, _, here⟩ | ⟨other, before⟩
    · rcases tag with none | same
      · rw [none] at here
        cases here
      · exact ⟨⟨b, found, live, same ▸ here⟩, fun _ => same⟩
    · exact ⟨before, fun same => absurd same other⟩
  exact ⟨fun j r h => keeps j r (old h).1 (old h).2,
    fun j j' r h h' => solo.alone j j' r (old h).1 (old h').1⟩

/-- A status write of a drive. -/
theorem setState_solo {p : Pool RunSig World Track} {i : Nat} {c : Choice} {r : RunId} {s : RunStatus}
    {k : Except Exn Unit → Prog RunSig (Except Exn Unit)} {g : Track} (kept : o.Kept p)
    (solo : Solo p) (found : p.procs[i]? = some ⟨.call (.setState r s) k, g⟩)
    (met : disciplined p (.run i c) = true) :
    let out := perform o.deployment c p.world (.setState r s)
    Solo ⟨out.1, p.procs.set i ⟨k out.2, Track.mark g (.setState r s) out.2⟩⟩ ∧
      Stays p.world out.1 := by
  intro out
  have allowed := kept.2.allowed found
  have worlds := perform_setState o.deployment c p.world r s
  have others : ∀ r', r' ≠ r → out.1.statusOf r' = p.world.statusOf r' := by
    intro r' other
    rcases worlds with same | same <;> simp only [out, same]
    exact statusOf_setRun_ne _ _ other
  simp only [disciplined, Pool.next_eq found] at met
  by_cases opening : s = .running
  · -- the run has not ended and nobody drives it
    subst opening
    simp only at met
    split at met
    · next before status =>
        simp only [Bool.and_eq_true, Bool.not_eq_true'] at met
        obtain ⟨going, free⟩ := met
        refine ⟨solo.opened free others ?_, fun r' s' here ended => ?_⟩
        · have idle : g.driving = none := by simpa [Track.protocol, Track.allowed] using allowed
          cases reply : out.2 with
          | error e => exact .inl idle
          | ok u =>
              refine .inr ⟨rfl, ?_⟩
              have written : out.1 = p.world.setRun r fun st => { st with status := .running } := by
                have took := perform_ok reply
                simp only [out, took, effect]
                cases there : p.world.runs r with
                | none => simp [statusOf, there] at status
                | some st => cases o.deployment.backend <;> rfl
              rw [written, statusOf_setRun, if_pos rfl]
              cases there : p.world.runs r with
              | none => simp [statusOf, there] at status
              | some st => rfl
        · by_cases mine : r' = r
          · subst mine
            rw [status] at here
            cases here
            rw [going] at ended
            cases ended
          · exact (others r' mine).trans here
    · cases met
  · -- the process drives the run, so the status it leaves behind is `RUNNING`
    have mine : g.driving = some r := by
      simpa [Track.protocol, Track.allowed, opening] using allowed
    have me : Drives p i r := ⟨_, found, rfl, mine⟩
    refine ⟨solo.moved found rfl (.inl ?_) fun j r' old still => ?_, fun r' s' here ended => ?_⟩
    · cases out.2 <;> simp [Track.mark, opening]
    · have other : r' ≠ r := by
        rintro rfl
        have same := still (solo.alone j i r' old me)
        have left : (Track.mark g (.setState r' s) out.2).driving = none := by
          cases out.2 <;> simp [Track.mark, opening]
        simp only [left, mine] at same
        cases same
      exact (others r' other).trans (solo.running j r' old)
    · by_cases same : r' = r
      · subst same
        rw [solo.running i r' me] at here
        cases here
        cases ended
      · exact (others r' same).trans here

/-- The operator's write, which meets a status nobody drives under. -/
theorem finalize_solo {p : Pool RunSig World Track} {i : Nat} {c : Choice} {r : RunId}
    {k : Except Exn Unit → Prog RunSig (Except Exn Unit)} {g : Track} (solo : Solo p)
    (found : p.procs[i]? = some ⟨.call (.finalizeCancel r) k, g⟩)
    (met : disciplined p (.run i c) = true) :
    let out := perform o.deployment c p.world (.finalizeCancel r)
    Solo ⟨out.1, p.procs.set i ⟨k out.2, Track.mark g (.finalizeCancel r) out.2⟩⟩ ∧
      Stays p.world out.1 := by
  intro out
  have others : ∀ r', r' ≠ r → out.1.statusOf r' = p.world.statusOf r' := by
    intro r' other
    rcases perform_finalize o.deployment c p.world r with same | same <;> simp only [out, same]
    exact statusOf_setRun_ne _ _ other
  simp only [disciplined, Pool.next_eq found, Bool.or_eq_true, decide_eq_true_eq] at met
  refine ⟨solo.moved found rfl (.inr (mark_driving (fun _ _ h => by cases h) _)) fun j r' old _ => ?_,
    fun r' s' here ended => ?_⟩
  · have running := solo.running j r' old
    refine (others r' ?_).trans running
    rintro rfl
    rw [running] at met
    rcases met with h | h <;> cases h
  · refine (others r' ?_).trans here
    rintro rfl
    rw [here] at met
    rcases met with h | h <;> cases h <;> cases ended

theorem step_solo {p q : Pool RunSig World Track} {l : Label Choice Actor EnvMove} (kept : o.Kept p)
    (solo : Solo p) (met : disciplined p l = true) (h : o.tracked.step p l = some q) :
    Solo q ∧ Stays p.world q.world := by
  rcases Machine.step_cases h with ⟨a, rfl, rfl⟩ | ⟨i, c, op, k, g, rfl, found, rfl⟩ |
    ⟨i, b, rfl, found, rfl⟩ | ⟨e, rfl, rfl⟩
  · exact ⟨solo.fewer (fun i r h => drives_append rfl h) fun _ _ _ same => same, fun _ _ same _ => same⟩
  · by_cases state : ∃ r s, op = .setState r s
    · obtain ⟨r, s, rfl⟩ := state
      exact setState_solo kept solo found met
    · by_cases final : ∃ r, op = .finalizeCancel r
      · obtain ⟨r, rfl⟩ := final
        exact finalize_solo solo found met
      · have plain : ∀ r s, op ≠ .setState r s := fun r s same => state ⟨r, s, same⟩
        have keeps : ∀ {r s}, p.world.statusOf r = some s →
            (perform o.deployment c p.world op).1.statusOf r = some s :=
          statusOf_keeps plain fun r same => final ⟨r, same⟩
        exact ⟨solo.moved found rfl (.inr (mark_driving plain _))
          fun j r old _ => keeps (solo.running j r old), fun r s here _ => keeps here⟩
  · refine ⟨solo.fewer (fun j r h => ?_) fun _ _ _ same => same, fun _ _ same _ => same⟩
    rcases drives_set h with ⟨_, dead, _⟩ | ⟨_, old⟩
    · cases dead
    · exact old
  · cases e <;> exact ⟨solo.fewer (fun _ _ h => h) fun _ _ _ same => same, fun _ _ same _ => same⟩

theorem run_solo {p q : Pool RunSig World Track} (run : Machine.Run o.tracked disciplined p q)
    (kept : o.Kept p) (solo : Solo p) : (o.Kept q ∧ Solo q) ∧ Stays p.world q.world := by
  induction run with
  | refl => exact ⟨⟨kept, solo⟩, fun _ _ same _ => same⟩
  | tail _ met step ih =>
      obtain ⟨⟨kept', solo'⟩, stays⟩ := ih
      obtain ⟨next, further⟩ := step_solo kept' solo' met step
      exact ⟨⟨Orchestrator.step_kept kept' step, next⟩,
        fun r s here ended => further r s (stays r s here ended) ended⟩

theorem solo_start {w : World} : Solo (Orchestrator.start Track w) :=
  ⟨fun _ _ ⟨_, found, _⟩ => by simp [Orchestrator.start] at found,
    fun _ _ _ ⟨_, found, _⟩ => by simp [Orchestrator.start] at found⟩

/-- In every interleaving that keeps the discipline of drives and cancellation, a
run whose status has become terminal keeps it. -/
theorem terminal_stays (o : Orchestrator) (registry : List RegistryEntry)
    (rulesets : String → String → Option LoadedRuleset) (clock : Int) {p q : Pool RunSig World Track}
    (first : Machine.Run o.tracked disciplined
      (Orchestrator.start Track (World.fresh registry rulesets clock)) p)
    (rest : Machine.Run o.tracked disciplined p q) {r : RunId} {s : RunStatus}
    (ended : p.world.statusOf r = some s) (terminal : s.terminal = true) :
    q.world.statusOf r = some s := by
  obtain ⟨⟨kept, solo⟩, _⟩ := run_solo first Orchestrator.kept_fresh solo_start
  exact (run_solo rest kept solo).2 r s ended terminal

open Sample in
/-- A run that completes on its one result, and the poll that follows. -/
theorem terminal_stays_single : ∃ p q,
    Machine.Run (orchestrator single).tracked disciplined
      (Orchestrator.start Track (World.fresh [] (fun _ _ => none) 0)) p ∧
    Machine.Run (orchestrator single).tracked disciplined p q ∧
    p.world.statusOf "r" = some .completed ∧ q.world.statusOf "r" = some .completed := by
  obtain ⟨p, first, met⟩ := Machine.follow_any (orchestrator single).tracked disciplined
    (Orchestrator.start Track (World.fresh [] (fun _ _ => none) 0))
    ([.spawn (.run "g" tenant none)] ++ calls 0 12 ++ [.spawn (.handle (resultOf "a"))] ++ calls 1 12)
    (fun p => decide (p.world.statusOf "r" = some .completed) &&
      ((orchestrator single).tracked.follow disciplined p ([.spawn .tick] ++ calls 2 2)).isSome)
    (by decide +kernel)
  simp only [Bool.and_eq_true, decide_eq_true_eq] at met
  obtain ⟨q, reached⟩ := Option.isSome_iff_exists.mp met.2
  have rest := Machine.follow_run reached
  exact ⟨p, q, first, rest, met.1, terminal_stays _ _ _ _ first rest met.1 rfl⟩

open Sample in
/-- The wakeup can be claimed before the parking drive has written `WAITING`: the
claimant completes the run, and the write lands on the completed status. -/
theorem parking_overwrites_completed : ¬ ∀ (o : Orchestrator) (registry : List RegistryEntry)
    (rulesets : String → String → Option LoadedRuleset) (clock : Int) (p q : Pool RunSig World Track),
    Machine.Run o.tracked (fun _ _ => true)
      (Orchestrator.start Track (World.fresh registry rulesets clock)) p →
    Machine.Run o.tracked (fun _ _ => true) p q → ∀ r s, p.world.statusOf r = some s →
      s.terminal = true → q.world.statusOf r = some s := by
  intro absorbing
  obtain ⟨p, first, met⟩ := Machine.follow_any (orchestrator single).tracked (fun _ _ => true)
    (Orchestrator.start Track (World.fresh [] (fun _ _ => none) 0))
    ([.spawn (.run "g" tenant none)] ++ calls 0 10 ++ [.spawn (.handle (resultOf "a"))] ++ calls 1 12)
    (fun p => decide (p.world.statusOf "r" = some .completed) &&
      ((orchestrator single).tracked.follow (fun _ _ => true) p (calls 0 1)).any
        fun q : Pool RunSig World Track => decide (q.world.statusOf "r" = some .waiting))
    (by decide +kernel)
  simp only [Bool.and_eq_true, decide_eq_true_eq] at met
  obtain ⟨q, rest, waiting⟩ := Machine.follow_any _ _ _ _ _ met.2
  have kept := absorbing _ _ _ _ p q first rest "r" .completed met.1 rfl
  simp only [decide_eq_true_eq] at waiting
  rw [waiting] at kept
  cases kept

end Maof
