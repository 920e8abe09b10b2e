import Maof.Errors
import Mathlib.Logic.Function.Basic
import Mathlib.Data.List.Nodup

/-!
# The in-memory guard

Calls of `once` on one event loop, which changes from one to another only where a
call awaits its lock or its function. Every call has its key; how its function
ends is not up to the guard. A call looks at the result and the lock of its own
key alone.
-/

namespace Maof

/-- `asyncio.Lock`: who holds it, and who waits for it in the order they came. -/
structure AsyncLock where
  holder : Option Nat := none
  waiters : List Nat := []

/-- Where a call of `once` stands. -/
inductive OnceStage (V : Type) where
  | idle
  | waiting
  /-- `fn` was called and has not ended. -/
  | running
  | returned (value : V)
  | raised (e : Exn)

inductive OnceStep (V : Type) where
  | call (i : Nat)
  /-- The lock is free, and the first in the queue takes it. -/
  | wake (i : Nat)
  /-- `fn` returns or raises. -/
  | settle (i : Nat) (outcome : Except Exn V)
  /-- The caller's task is cancelled while it waits. -/
  | cancel (i : Nat)

def cancelledError : Exn := .external "CancelledError"

/-- What a call sees of the guard, and its own stage. -/
structure OnceCell (V : Type) where
  result : Option V
  lock : AsyncLock
  stage : OnceStage V

namespace OnceCell

variable {V : Type} (i : Nat) (cell : OnceCell V)

/-- Under the lock: the recorded result, or `fn`. -/
def enter : OnceCell V :=
  match cell.result with
  | some value => { cell with stage := .returned value }
  | none => { cell with lock.holder := some i, stage := .running }

def call : Option (OnceCell V) :=
  match cell.stage with
  | .idle =>
      if cell.lock.holder = none ∧ cell.lock.waiters = [] then some (cell.enter i)
      else some { cell with lock.waiters := cell.lock.waiters ++ [i], stage := .waiting }
  | _ => none

def wake : Option (OnceCell V) :=
  match cell.lock.holder, cell.lock.waiters with
  | none, first :: rest => if first = i then some (enter i { cell with lock.waiters := rest }) else none
  | _, _ => none

def settle (outcome : Except Exn V) : Option (OnceCell V) :=
  match cell.stage, outcome with
  | .running, .ok value => some { result := some value, lock.holder := none, lock.waiters := cell.lock.waiters, stage := .returned value }
  | .running, .error e => some { cell with lock.holder := none, stage := .raised e }
  | _, _ => none

def cancel : Option (OnceCell V) :=
  match cell.stage with
  | .waiting => some { cell with lock.waiters := cell.lock.waiters.erase i, stage := .raised cancelledError }
  | _ => none

end OnceCell

namespace OnceStep

variable {V : Type}

def caller : OnceStep V → Nat
  | .call i | .wake i | .settle i _ | .cancel i => i

def act : OnceStep V → OnceCell V → Option (OnceCell V)
  | .call i, cell => cell.call i
  | .wake i, cell => cell.wake i
  | .settle _ outcome, cell => cell.settle outcome
  | .cancel i, cell => cell.cancel i

end OnceStep

structure InMemoryIdempotencyGuard (V : Type) where
  results : String → Option V := fun _ => none
  locks : String → AsyncLock := fun _ => {}
  calls : Nat → OnceStage V := fun _ => .idle

namespace InMemoryIdempotencyGuard

variable {V : Type} (key : Nat → String) (g : InMemoryIdempotencyGuard V)

def cell (i : Nat) : OnceCell V := ⟨g.results (key i), g.locks (key i), g.calls i⟩

def put (i : Nat) (cell : OnceCell V) : InMemoryIdempotencyGuard V where
  results := Function.update g.results (key i) cell.result
  locks := Function.update g.locks (key i) cell.lock
  calls := Function.update g.calls i cell.stage

def step (s : OnceStep V) : Option (InMemoryIdempotencyGuard V) := (s.act (g.cell key s.caller)).map (g.put key s.caller)

end InMemoryIdempotencyGuard

/-- What the calls may do, in any order that the lock allows. -/
inductive OnceRun {V : Type} (key : Nat → String) : List (OnceStep V) → InMemoryIdempotencyGuard V → Prop
  | start : OnceRun key [] {}
  | tail {steps : List (OnceStep V)} {g g' : InMemoryIdempotencyGuard V} {s : OnceStep V} :
      OnceRun key steps g → g.step key s = some g' → OnceRun key (steps ++ [s]) g'

/-- What the functions of a key returned. -/
def OnceStep.value {V : Type} (key : Nat → String) (k : String) : OnceStep V → Option V
  | .settle i (.ok value) => if key i = k then some value else none
  | _ => none

def successes {V : Type} (key : Nat → String) (k : String) (steps : List (OnceStep V)) : List V :=
  steps.filterMap (OnceStep.value key k)

section laws

variable {V : Type} {key : Nat → String} {g g' : InMemoryIdempotencyGuard V} {steps : List (OnceStep V)}

/-! ## One step -/

/-- What a step may do to the cell of its call. -/
inductive Turned (i : Nat) (cell : OnceCell V) : OnceStep V → OnceCell V → Prop
  /-- It waits, or does not any more. -/
  | stands {s : OnceStep V} {waiters : List Nat} {stage : OnceStage V} : (∀ i outcome, s ≠ .settle i outcome) →
      (cell.lock.holder = none ∨ cell.stage = .idle ∨ cell.stage = .waiting) → stage ≠ .running →
      (∀ value, stage = .returned value → cell.result = some value) →
      (∀ e, stage = .raised e → s = .cancel i) →
      Turned i cell s { cell with lock.waiters := waiters, stage }
  | runs {s : OnceStep V} {waiters : List Nat} : (∀ i outcome, s ≠ .settle i outcome) → cell.result = none →
      cell.lock.holder = none → Turned i cell s ⟨none, ⟨some i, waiters⟩, .running⟩
  | returns (value : V) : cell.stage = .running →
      Turned i cell (.settle i (.ok value)) ⟨some value, ⟨none, cell.lock.waiters⟩, .returned value⟩
  | raises (e : Exn) : cell.stage = .running →
      Turned i cell (.settle i (.error e)) ⟨cell.result, ⟨none, cell.lock.waiters⟩, .raised e⟩

theorem enter_turned {i : Nat} {cell : OnceCell V} {s : OnceStep V} {waiters : List Nat}
    (other : ∀ i outcome, s ≠ .settle i outcome) (free : cell.lock.holder = none) :
    Turned i cell s (OnceCell.enter i { cell with lock.waiters := waiters }) := by
  unfold OnceCell.enter
  split
  · next value found =>
      apply Turned.stands other (.inl free)
      · intro same
        cases same
      · intro value' same
        cases same
        exact found
      · intro e same
        cases same
  · next none =>
      have turned : Turned i cell s ⟨.none, ⟨some i, waiters⟩, .running⟩ := .runs other none free
      rw [← (none : cell.result = .none)] at turned
      exact turned

theorem act_turned {s : OnceStep V} {cell cell' : OnceCell V} (acted : s.act cell = some cell') : Turned s.caller cell s cell' := by
  cases s with
  | call i =>
      simp only [OnceStep.act, OnceCell.call] at acted
      split at acted
      · next idle =>
          split at acted
          · next free =>
              obtain rfl := Option.some.inj acted
              exact @enter_turned _ _ _ _ cell.lock.waiters nofun free.1
          · obtain rfl := Option.some.inj acted
            exact .stands nofun (.inr (.inl idle)) nofun nofun nofun
      · cases acted
  | wake i =>
      simp only [OnceStep.act, OnceCell.wake] at acted
      split at acted
      · next first rest free _ =>
          split at acted
          · obtain rfl := Option.some.inj acted
            exact enter_turned nofun free
          · cases acted
      · cases acted
  | settle i outcome =>
      simp only [OnceStep.act, OnceCell.settle] at acted
      split at acted
      · next running =>
          obtain rfl := Option.some.inj acted
          exact .returns _ running
      · next running =>
          obtain rfl := Option.some.inj acted
          exact .raises _ running
      · cases acted
  | cancel i =>
      simp only [OnceStep.act, OnceCell.cancel] at acted
      split at acted
      · next waiting =>
          obtain rfl := Option.some.inj acted
          exact .stands nofun (.inr (.inr waiting)) nofun nofun fun _ _ => rfl
      · cases acted

theorem step_turned {s : OnceStep V} (stepped : g.step key s = some g') :
    ∃ cell, g' = g.put key s.caller cell ∧ Turned s.caller (g.cell key s.caller) s cell := by
  obtain ⟨cell, acted, rfl⟩ := Option.map_eq_some_iff.mp stepped
  exact ⟨cell, rfl, act_turned acted⟩

/-! ## Any run -/

/-- Whoever runs its function holds the lock of its key, and a key has a result once a function has returned one. -/
structure Guarded (key : Nat → String) (steps : List (OnceStep V)) (g : InMemoryIdempotencyGuard V) : Prop where
  holds : ∀ i, g.calls i = .running → (g.locks (key i)).holder = some i
  held : ∀ k i, (g.locks k).holder = some i → key i = k ∧ g.calls i = .running
  fresh : ∀ i, g.calls i = .running → g.results (key i) = none
  recorded : ∀ k, successes key k steps = (g.results k).toList
  returned : ∀ i value, g.calls i = .returned value → g.results (key i) = some value
  raised : ∀ i e, g.calls i = .raised e → .settle i (.error e) ∈ steps ∨ .cancel i ∈ steps

theorem put_calls {i j : Nat} {cell : OnceCell V} : (g.put key i cell).calls j = if j = i then cell.stage else g.calls j :=
  Function.update_apply _ _ _ _

theorem put_results {i : Nat} {k : String} {cell : OnceCell V} :
    (g.put key i cell).results k = if k = key i then cell.result else g.results k :=
  Function.update_apply _ _ _ _

theorem put_locks {i : Nat} {k : String} {cell : OnceCell V} :
    (g.put key i cell).locks k = if k = key i then cell.lock else g.locks k :=
  Function.update_apply _ _ _ _

theorem successes_append {k : String} {s : OnceStep V} :
    successes key k (steps ++ [s]) = successes key k steps ++ (s.value key k).toList := by
  simp only [successes, List.filterMap_append, List.filterMap_cons, List.filterMap_nil]
  cases s.value key k <;> rfl

theorem value_other {k : String} {s : OnceStep V} (other : ∀ i outcome, s ≠ .settle i outcome) : s.value key k = none := by
  cases s with
  | settle i outcome => exact absurd rfl (other i outcome)
  | _ => rfl

/-- A call that is not running goes on waiting, or has its answer. -/
theorem Guarded.stands (guarded : Guarded key steps g) {s : OnceStep V} {i : Nat} {waiters : List Nat} {stage : OnceStage V}
    (other : ∀ i outcome, s ≠ .settle i outcome) (idle : g.calls i ≠ .running) (still : stage ≠ .running)
    (found : ∀ value, stage = .returned value → g.results (key i) = some value)
    (cancelled : ∀ e, stage = .raised e → s = .cancel i) :
    Guarded key (steps ++ [s]) (g.put key i ⟨g.results (key i), { g.locks (key i) with waiters }, stage⟩) := by
  have results : ∀ k, (g.put key i ⟨g.results (key i), { g.locks (key i) with waiters }, stage⟩).results k = g.results k := by
    intro k
    rw [put_results]
    split
    · next same => rw [same]
    · rfl
  have holder : ∀ k, ((g.put key i ⟨g.results (key i), { g.locks (key i) with waiters }, stage⟩).locks k).holder =
      (g.locks k).holder := by
    intro k
    rw [put_locks]
    split
    · next same => rw [same]
    · rfl
  refine ⟨?_, ?_, ?_, ?_, ?_, ?_⟩
  · intro j running
    rw [put_calls] at running
    rw [holder]
    split at running
    · exact absurd running still
    · exact guarded.holds j running
  · intro k j there
    rw [holder] at there
    obtain ⟨mine, running⟩ := guarded.held k j there
    rw [put_calls, if_neg]
    · exact ⟨mine, running⟩
    · rintro rfl
      exact idle running
  · intro j running
    rw [put_calls] at running
    rw [results]
    split at running
    · exact absurd running still
    · exact guarded.fresh j running
  · intro k
    rw [successes_append, value_other other, Option.toList_none, List.append_nil, results]
    exact guarded.recorded k
  · intro j value returned
    rw [put_calls] at returned
    rw [results]
    split at returned
    · next same =>
        rw [same]
        exact found value returned
    · exact guarded.returned j value returned
  · intro j e raised
    rw [put_calls] at raised
    split at raised
    · next same =>
        right
        rw [same, cancelled e raised]
        exact List.mem_append_right _ (List.mem_singleton_self _)
    · exact (guarded.raised j e raised).imp (List.mem_append_left _) (List.mem_append_left _)

/-- A call takes the free lock and calls its function. -/
theorem Guarded.runs (guarded : Guarded key steps g) {s : OnceStep V} {i : Nat} {waiters : List Nat}
    (other : ∀ i outcome, s ≠ .settle i outcome) (missing : g.results (key i) = none) (free : (g.locks (key i)).holder = none) :
    Guarded key (steps ++ [s]) (g.put key i ⟨none, ⟨some i, waiters⟩, .running⟩) := by
  have results : ∀ k, (g.put key i ⟨none, ⟨some i, waiters⟩, .running⟩).results k = g.results k := by
    intro k
    rw [put_results]
    split
    · next same => rw [same, missing]
    · rfl
  refine ⟨?_, ?_, ?_, ?_, ?_, ?_⟩
  · intro j running
    rw [put_calls] at running
    rw [put_locks]
    split at running
    · next same => rw [same, if_pos rfl]
    · have lock := guarded.holds j running
      rw [if_neg]
      · exact lock
      · intro same
        rw [same, free] at lock
        cases lock
  · intro k j there
    rw [put_locks] at there
    split at there
    · next same =>
        cases there
        exact ⟨same.symm, by rw [put_calls, if_pos rfl]⟩
    · next apart =>
        obtain ⟨mine, running⟩ := guarded.held k j there
        rw [put_calls, if_neg]
        · exact ⟨mine, running⟩
        · rintro rfl
          exact apart mine.symm
  · intro j running
    rw [put_calls] at running
    rw [results]
    split at running
    · next same => rw [same, missing]
    · exact guarded.fresh j running
  · intro k
    rw [successes_append, value_other other, Option.toList_none, List.append_nil, results]
    exact guarded.recorded k
  · intro j value returned
    rw [put_calls] at returned
    rw [results]
    split at returned
    · cases returned
    · exact guarded.returned j value returned
  · intro j e raised
    rw [put_calls] at raised
    split at raised
    · cases raised
    · exact (guarded.raised j e raised).imp (List.mem_append_left _) (List.mem_append_left _)

/-- Two calls of one key do not both run their functions. -/
theorem Guarded.alone (guarded : Guarded key steps g) {i j : Nat} (mine : g.calls i = .running) (theirs : g.calls j = .running)
    (same : key i = key j) : i = j := by
  have lock := guarded.holds i mine
  rw [same, guarded.holds j theirs] at lock
  exact (Option.some.inj lock).symm

/-- The function of a call ends, with the lock released: what the key has as its result is what the functions returned. -/
theorem Guarded.settles (guarded : Guarded key steps g) {i : Nat} {outcome : Except Exn V} {result : Option V} {waiters : List Nat}
    {stage : OnceStage V} (running : g.calls i = .running) (ended : stage ≠ .running)
    (records : result = ((.settle i outcome : OnceStep V).value key (key i)).or (g.results (key i)))
    (found : ∀ value, stage = .returned value → outcome = .ok value) (raises : ∀ e, stage = .raised e → outcome = .error e) :
    Guarded key (steps ++ [.settle i outcome]) (g.put key i ⟨result, ⟨none, waiters⟩, stage⟩) := by
  have missing := guarded.fresh i running
  refine ⟨?_, ?_, ?_, ?_, ?_, ?_⟩
  · intro j running'
    rw [put_calls] at running'
    rw [put_locks]
    split at running'
    · exact absurd running' ended
    · next other =>
        rw [if_neg]
        · exact guarded.holds j running'
        · intro same
          exact other (guarded.alone running' running same)
  · intro k j there
    rw [put_locks] at there
    split at there
    · cases there
    · next apart =>
        obtain ⟨mine, running'⟩ := guarded.held k j there
        rw [put_calls, if_neg]
        · exact ⟨mine, running'⟩
        · rintro rfl
          exact apart mine.symm
  · intro j running'
    rw [put_calls] at running'
    rw [put_results]
    split at running'
    · exact absurd running' ended
    · next other =>
        rw [if_neg]
        · exact guarded.fresh j running'
        · intro same
          exact other (guarded.alone running' running same)
  · intro k
    rw [successes_append, put_results, guarded.recorded k]
    split
    · next same =>
        rw [same, records, missing]
        cases (OnceStep.settle i outcome).value key (key i) <;> rfl
    · next apart =>
        have none : (OnceStep.settle i outcome).value key k = none := by
          cases outcome with
          | ok value => exact if_neg (Ne.symm apart)
          | error e => rfl
        rw [none, Option.toList_none, List.append_nil]
  · intro j value returned
    rw [put_calls] at returned
    rw [put_results]
    split at returned
    · next same =>
        rw [same, if_pos rfl, records, found value returned]
        simp only [OnceStep.value, if_true, Option.some_or]
    · have there := guarded.returned j value returned
      rw [if_neg]
      · exact there
      · intro same
        rw [same, missing] at there
        cases there
  · intro j e raised
    rw [put_calls] at raised
    split at raised
    · next same =>
        left
        rw [same, raises e raised]
        exact List.mem_append_right _ (List.mem_singleton_self _)
    · exact (guarded.raised j e raised).imp (List.mem_append_left _) (List.mem_append_left _)

theorem Guarded.step {s : OnceStep V} (guarded : Guarded key steps g) (stepped : g.step key s = some g') :
    Guarded key (steps ++ [s]) g' := by
  obtain ⟨cell, rfl, turned⟩ := step_turned stepped
  generalize s.caller = i at turned
  cases turned with
  | stands other free still found cancelled =>
      apply guarded.stands other _ still found cancelled
      intro running
      rcases free with free | idle | waiting
      · have lock := guarded.holds i running
        rw [show (g.locks (key i)).holder = none from free] at lock
        cases lock
      · cases running.symm.trans idle
      · cases running.symm.trans waiting
  | runs other missing free => exact guarded.runs other missing free
  | returns value running =>
      apply @Guarded.settles _ _ _ _ guarded _ (.ok value) _ _ (.returned value) running nofun
      · simp only [OnceStep.value, if_true, Option.some_or]
      · intro value' same
        cases same
        rfl
      · exact nofun
  | raises e running =>
      apply @Guarded.settles _ _ _ _ guarded _ (.error e) _ _ (.raised e) running nofun
      · rfl
      · exact nofun
      · intro e' same
        cases same
        rfl

theorem OnceRun.guarded (run : OnceRun key steps g) : Guarded key steps g := by
  induction run with
  | start => exact ⟨nofun, nofun, nofun, fun _ => rfl, nofun, nofun⟩
  | tail _ stepped ih => exact ih.step stepped

/-! ## One key at a time -/

/-- The two agree on all that a key's calls see. -/
structure KeyAgree (key : Nat → String) (k : String) (g g' : InMemoryIdempotencyGuard V) : Prop where
  results : g.results k = g'.results k
  locks : g.locks k = g'.locks k
  calls : ∀ i, key i = k → g.calls i = g'.calls i

theorem KeyAgree.cell {k : String} {i : Nat} (agree : KeyAgree key k g g') (mine : key i = k) : g.cell key i = g'.cell key i := by
  subst mine
  simp only [InMemoryIdempotencyGuard.cell, agree.results, agree.locks, agree.calls i rfl]

theorem KeyAgree.put {k : String} {i : Nat} {cell : OnceCell V} (agree : KeyAgree key k g g') :
    KeyAgree key k (g.put key i cell) (g'.put key i cell) := by
  refine ⟨?_, ?_, ?_⟩
  · rw [put_results, put_results, agree.results]
  · rw [put_locks, put_locks, agree.locks]
  · intro j mine
    rw [put_calls, put_calls, agree.calls j mine]

theorem KeyAgree.put_other {k : String} {i : Nat} {cell : OnceCell V} (agree : KeyAgree key k g g') (other : key i ≠ k) :
    KeyAgree key k (g.put key i cell) g' := by
  refine ⟨?_, ?_, ?_⟩
  · rw [put_results, if_neg (Ne.symm other)]
    exact agree.results
  · rw [put_locks, if_neg (Ne.symm other)]
    exact agree.locks
  · intro j mine
    rw [put_calls, if_neg]
    · exact agree.calls j mine
    · rintro rfl
      exact other mine

/-- What the calls of a key do, they can do without the others, and it is the same to them. -/
theorem OnceRun.only (run : OnceRun key steps g) (k : String) :
    ∃ alone, OnceRun key (steps.filter fun s => key s.caller = k) alone ∧ KeyAgree key k g alone := by
  induction run with
  | start => exact ⟨{}, .start, rfl, rfl, fun _ _ => rfl⟩
  | @tail steps g g' s _ stepped ih =>
      obtain ⟨alone, run, agree⟩ := ih
      obtain ⟨cell, acted, rfl⟩ := Option.map_eq_some_iff.mp stepped
      rw [List.filter_append]
      by_cases mine : key s.caller = k
      · rw [List.filter_cons_of_pos (by simpa using mine), List.filter_nil]
        have same : alone.step key s = some (alone.put key s.caller cell) := by
          unfold InMemoryIdempotencyGuard.step
          rw [← agree.cell mine, acted]
          rfl
        exact ⟨_, run.tail same, agree.put⟩
      · rw [List.filter_cons_of_neg (by simpa using mine), List.filter_nil, List.append_nil]
        exact ⟨alone, run, agree.put_other mine⟩

/-- The lock of the key is free and nothing recorded: whoever comes next calls its own function. -/
structure Retryable (key : Nat → String) (k : String) (g : InMemoryIdempotencyGuard V) : Prop where
  missing : g.results k = none
  first : ∀ i rest, key i = k → (g.locks k).waiters = i :: rest → ∃ g', g.step key (.wake i) = some g' ∧ g'.calls i = .running
  newcomer : ∀ i, key i = k → (g.locks k).waiters = [] → g.calls i = .idle →
    ∃ g', g.step key (.call i) = some g' ∧ g'.calls i = .running

theorem retryable {k : String} (missing : g.results k = none) (free : (g.locks k).holder = none) : Retryable key k g := by
  refine ⟨missing, ?_, ?_⟩
  · rintro i rest rfl queue
    refine ⟨g.put key i ⟨none, ⟨some i, rest⟩, .running⟩, ?_, Function.update_self _ _ _⟩
    simp only [InMemoryIdempotencyGuard.step, OnceStep.act, OnceCell.wake, InMemoryIdempotencyGuard.cell, OnceStep.caller, free,
      queue, OnceCell.enter, missing, if_true, Option.map_some]
  · rintro i rfl queue idle
    refine ⟨g.put key i ⟨none, ⟨some i, []⟩, .running⟩, ?_, Function.update_self _ _ _⟩
    simp only [InMemoryIdempotencyGuard.step, OnceStep.act, OnceCell.call, InMemoryIdempotencyGuard.cell, OnceStep.caller, free,
      queue, idle, OnceCell.enter, missing, and_self, if_true, Option.map_some]

end laws

/-- What a key's calls may rely on. -/
structure ExactlyOnce {V : Type} (key : Nat → String) (steps : List (OnceStep V)) (g : InMemoryIdempotencyGuard V) (k : String) :
    Prop where
  once : (successes key k steps).length ≤ 1
  shared : ∀ i value, key i = k → g.calls i = .returned value → successes key k steps = [value]
  /-- Who raises did so itself. -/
  own : ∀ i e, g.calls i = .raised e → .settle i (.error e) ∈ steps ∨ .cancel i ∈ steps
  /-- A function that raises leaves the results, the other calls and the other keys as they are, and its key to the next. -/
  raises : ∀ i e g', key i = k → g.step key (.settle i (.error e)) = some g' → g'.results = g.results ∧
    g'.calls = Function.update g.calls i (.raised e) ∧ (∀ k', k' ≠ k → g'.locks k' = g.locks k') ∧ Retryable key k g'
  /-- Without the calls of the other keys it would have been the same. -/
  apart : ∃ alone, OnceRun key (steps.filter fun s => key s.caller = k) alone ∧ ∀ i, key i = k → alone.calls i = g.calls i

/-- However the calls interleave, and however their functions end. -/
theorem once_exactly {V : Type} (key : Nat → String) {steps : List (OnceStep V)} {g : InMemoryIdempotencyGuard V}
    (run : OnceRun key steps g) (k : String) : ExactlyOnce key steps g k := by
  have guarded := run.guarded
  constructor
  · rw [guarded.recorded k]
    cases g.results k <;> simp
  · rintro i value rfl returned
    rw [guarded.recorded, guarded.returned i value returned, Option.toList_some]
  · exact guarded.raised
  · rintro i e g' rfl stepped
    obtain ⟨cell, rfl, turned⟩ := step_turned stepped
    cases turned with
    | stands other => exact absurd rfl (other i (.error e))
    | runs other => exact absurd rfl (other i (.error e))
    | raises e running =>
        have missing := guarded.fresh i running
        refine ⟨Function.update_eq_self _ _, rfl, ?_, ?_⟩
        · intro k' apart
          exact Function.update_of_ne apart _ _
        · apply retryable
          · exact put_results.trans ((if_pos rfl).trans missing)
          · exact congrArg AsyncLock.holder (put_locks.trans (if_pos rfl))
  · obtain ⟨alone, only, agree⟩ := run.only k
    exact ⟨alone, only, fun i mine => (agree.calls i mine).symm⟩

namespace Sample

/-- The third call is for another key. -/
def onceKey (i : Nat) : String := if i = 2 then "b" else "a"

end Sample

/-- The first of two racers raises, the second returns, and a later call has its value. -/
theorem once_exactly_race : ∃ steps g, ExactlyOnce Sample.onceKey steps g "a" ∧ g.calls 0 = .raised (.valueError "down") ∧
    g.calls 1 = .returned 7 ∧ g.calls 2 = .returned 9 ∧ g.calls 3 = .returned 7 :=
  have raced := (OnceRun.start : OnceRun (V := Nat) Sample.onceKey _ _) |>.tail (s := .call 0) rfl
    |>.tail (s := .call 1) rfl |>.tail (s := .call 2) rfl |>.tail (s := .settle 0 (.error (.valueError "down"))) rfl
    |>.tail (s := .wake 1) rfl |>.tail (s := .settle 2 (.ok 9)) rfl |>.tail (s := .settle 1 (.ok 7)) rfl
    |>.tail (s := .call 3) rfl
  ⟨_, _, once_exactly Sample.onceKey raced "a", rfl, rfl, rfl, rfl⟩

end Maof
