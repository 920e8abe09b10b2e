import Maof.Orchestrator.Lifecycle

/-!
# Retention

What `prune` deletes goes by age alone, but for the wakeups that are pending.
Times are in microseconds.
-/

namespace Maof

open Data (Dict)

def second : Int := 1000000

def day : Int := 86400 * second

/-- A row of `idempotency_keys`. -/
structure KeyRow where
  result : Json
  createdAt : Int

/-- The tables rows are deleted from, each row by what `prune` reads of it. -/
structure RetainedTables where
  runTrace : List Int := []
  auditEvents : List Int := []
  idempotencyKeys : Dict String KeyRow := []
  runWakeups : List (WakeStatus × Int) := []

structure Retention where
  traceRetentionDays : Int := 30
  auditRetentionDays : Int := 90
  idempotencyTtlS : Int := 86400

/-- The rows that are kept, and how many were deleted. -/
def delete {α : Type} (rows : List α) (gone : α → Bool) : List α × Nat :=
  (rows.filter fun row => !gone row, rows.countP gone)

namespace RetainedTables

/-- `prune`, with its summary of rows deleted per table. -/
def prune (db : RetainedTables) (r : Retention) (now : Int) : RetainedTables × Dict String Nat :=
  let runTrace := delete db.runTrace fun ts => ts < now - r.traceRetentionDays * day
  let auditEvents := delete db.auditEvents fun ts => ts < now - r.auditRetentionDays * day
  let idempotencyKeys := delete db.idempotencyKeys fun kv => kv.2.createdAt < now - r.idempotencyTtlS * second
  let runWakeups := delete db.runWakeups fun row => row.1 ≠ .pending && row.2 < now - r.traceRetentionDays * day
  ({ runTrace := runTrace.1
     auditEvents := auditEvents.1
     idempotencyKeys := idempotencyKeys.1
     runWakeups := runWakeups.1 },
    [("run_trace", runTrace.2), ("audit_events", auditEvents.2), ("idempotency_keys", idempotencyKeys.2),
      ("run_wakeups", runWakeups.2)])

/-- The row of a key is not past its time. -/
def Current (db : RetainedTables) (r : Retention) (now : Int) (key : String) : Prop :=
  ∀ row, (key, row) ∈ db.idempotencyKeys → now - r.idempotencyTtlS * second ≤ row.createdAt

theorem mem_prune {db : RetainedTables} {r : Retention} {now : Int} {kv : String × KeyRow} :
    kv ∈ (db.prune r now).1.idempotencyKeys ↔
      kv ∈ db.idempotencyKeys ∧ now - r.idempotencyTtlS * second ≤ kv.2.createdAt := by
  simp [prune, delete]

end RetainedTables

/-! ## The guard -/

/-- Where a call of `once` stands in its transaction. -/
inductive OncePhase where
  | waiting
  | locked
  | missing
  | ran (result : Json)
  | returned

/-- The advisory lock is held until the transaction ends. -/
def OncePhase.holds : OncePhase → Bool
  | .waiting | .returned => false
  | .locked | .missing | .ran _ => true

structure OnceCall where
  key : String
  began : Int
  phase : OncePhase := .waiting

structure GuardWorld where
  now : Int := 0
  status : RunStatus := .running
  db : RetainedTables := {}
  calls : Nat → Option OnceCall := fun _ => none
  /-- The call that holds `pg_advisory_xact_lock` of a number. -/
  locks : Int → Option Nat := fun _ => none
  /-- The keys whose side effect ran to success, as often as it did. -/
  effects : List String := []

/-- What a call does next. -/
inductive OnceMove where
  | lock
  | select
  /-- `fn` returns. -/
  | effect (result : Json)
  | commit
  /-- `fn` or a statement raises, or the connection is lost. -/
  | cut

inductive GuardStep where
  /-- A delivery takes a connection and begins its transaction. -/
  | begin (i : Nat) (key : String)
  | move (i : Nat) (m : OnceMove)
  | prune (r : Retention)
  | pass (time : Nat)
  | status (s : RunStatus)

namespace GuardWorld

variable (hashtext : String → Int)

def enter (w : GuardWorld) (i : Nat) (c : OnceCall) (phase : OncePhase) : GuardWorld :=
  { w with calls := Function.update w.calls i (some { c with phase := phase }) }

/-- The transaction ends, and its lock is released. -/
def leave (w : GuardWorld) (i : Nat) (c : OnceCall) : GuardWorld :=
  { w.enter i c .returned with
    locks := if c.phase.holds then Function.update w.locks (hashtext c.key) none else w.locks }

/-- `INSERT … ON CONFLICT (key) DO NOTHING`; `created_at` is when the transaction began. -/
def insert (w : GuardWorld) (c : OnceCall) (result : Json) : GuardWorld :=
  { w with db.idempotencyKeys :=
      if (Dict.get w.db.idempotencyKeys c.key).isSome then w.db.idempotencyKeys
      else Dict.set w.db.idempotencyKeys c.key { result := result, createdAt := c.began } }

/-- `once`, statement by statement. -/
def advance (w : GuardWorld) (i : Nat) (c : OnceCall) : OnceMove → Option GuardWorld
  | .lock =>
      match c.phase, w.locks (hashtext c.key) with
      | .waiting, none => some { w.enter i c .locked with locks := Function.update w.locks (hashtext c.key) (some i) }
      | _, _ => none
  | .select =>
      match c.phase, Dict.get w.db.idempotencyKeys c.key with
      | .locked, some _ => some (w.leave hashtext i c)
      | .locked, none => some (w.enter i c .missing)
      | _, _ => none
  | .effect result =>
      match c.phase with
      | .missing => some { w.enter i c (.ran result) with effects := c.key :: w.effects }
      | _ => none
  | .commit =>
      match c.phase with
      | .ran result => some ((w.insert c result).leave hashtext i c)
      | _ => none
  | .cut =>
      match c.phase with
      | .returned => none
      | _ => some (w.leave hashtext i c)

def step (w : GuardWorld) : GuardStep → Option GuardWorld
  | .begin i key =>
      if (w.calls i).isNone ∧ ¬ w.status.terminal then
        some { w with calls := Function.update w.calls i (some { key := key, began := w.now }) }
      else none
  | .move i m => (w.calls i).bind fun c => w.advance hashtext i c m
  | .prune r => some { w with db := (w.db.prune r w.now).1 }
  | .pass time => some { w with now := w.now + time }
  | .status s => some { w with status := s }

/-- Take a list of steps. -/
def follow (w : GuardWorld) : List GuardStep → Option GuardWorld
  | [] => some w
  | s :: rest => (w.step hashtext s).bind fun w' => w'.follow rest

/-- Nothing has been delivered yet. -/
structure Start (w : GuardWorld) : Prop where
  calls : ∀ i, w.calls i = none
  locks : ∀ n, w.locks n = none
  effects : w.effects = []

/-- A prune finds no row of the key that is past its time, and no transaction of the key is lost
between the success of its side effect and its commit. -/
def Keeps (w : GuardWorld) (key : String) : GuardStep → Prop
  | .prune r => w.db.Current r w.now key
  | .move i .cut => ∀ c, w.calls i = some c → c.key = key → ∀ result, c.phase ≠ .ran result
  | _ => True

end GuardWorld

/-- Runs all of whose steps keep what was recorded of a key. -/
inductive GuardRun (hashtext : String → Int) (key : String) : GuardWorld → GuardWorld → Prop
  | refl (w : GuardWorld) : GuardRun hashtext key w w
  | tail {w w' w'' : GuardWorld} {s : GuardStep} : GuardRun hashtext key w w' → w'.Keeps key s →
      w'.step hashtext s = some w'' → GuardRun hashtext key w w''

/-! ## What keeps a side effect from running again -/

/-- Who holds a lock; who has found the key missing; where the success of the side effect is on record. -/
structure OnceInv (hashtext : String → Int) (key : String) (w : GuardWorld) : Prop where
  held : ∀ i c, w.calls i = some c → c.phase.holds = true → w.locks (hashtext c.key) = some i
  fresh : ∀ i c, w.calls i = some c → c.key = key → c.phase = .missing → key ∉ w.effects
  recorded : key ∈ w.effects → (Dict.get w.db.idempotencyKeys key).isSome = true ∨
    ∃ i c result, w.calls i = some c ∧ c.key = key ∧ c.phase = .ran result
  once : w.effects.count key ≤ 1

/-- One call changed: it is the one that is found, or the other is as it was. -/
theorem call_changed {α : Type} {calls : Nat → Option α} {i j : Nat} {x c : α}
    (found : Function.update calls i (some x) j = some c) : j = i ∧ c = x ∨ j ≠ i ∧ calls j = some c := by
  by_cases same : j = i
  · subst same
    rw [Function.update_self] at found
    exact .inl ⟨rfl, (Option.some.inj found).symm⟩
  · rw [Function.update_of_ne same] at found
    exact .inr ⟨same, found⟩

namespace OnceInv

variable {hashtext : String → Int} {key : String} {w w' : GuardWorld} {i : Nat} {c : OnceCall}

theorem start (h : w.Start) : OnceInv hashtext key w where
  held i c found := by rw [h.calls] at found; cases found
  fresh i c found := by rw [h.calls] at found; cases found
  recorded inside := by rw [h.effects] at inside; cases inside
  once := by rw [h.effects]; exact Nat.zero_le 1

/-- Two calls of one key do not both hold its lock. -/
theorem alone (h : OnceInv hashtext key w) {j : Nat} {c' : OnceCall} (found : w.calls i = some c)
    (found' : w.calls j = some c') (mine : c.phase.holds = true) (theirs : c'.phase.holds = true)
    (same : c.key = c'.key) : i = j := by
  have lock := h.held i c found mine
  rw [same, h.held j c' found' theirs] at lock
  exact (Option.some.inj lock).symm

/-- The success of the side effect stays on record while a call that did not run it moves on. -/
theorem still_recorded (h : OnceInv hashtext key w) (inside : key ∈ w.effects) {x : Option OnceCall}
    (ran : ∀ c, w.calls i = some c → c.key = key → ∀ result, c.phase = .ran result →
      (Dict.get w.db.idempotencyKeys key).isSome = true) :
    (Dict.get w.db.idempotencyKeys key).isSome = true ∨ ∃ j c result,
      Function.update w.calls i x j = some c ∧ c.key = key ∧ c.phase = .ran result := by
  obtain row | ⟨j, c, result, found, same, did⟩ := h.recorded inside
  · exact .inl row
  · by_cases mine : j = i
    · subst mine
      exact .inl (ran c found same result did)
    · exact .inr ⟨j, c, result, (Function.update_of_ne mine _ _).trans found, same, did⟩

/-- A transaction ends; if it ran the side effect, the row is there. -/
theorem leave (h : OnceInv hashtext key w) (found : w.calls i = some c)
    (ran : c.key = key → ∀ result, c.phase = .ran result → (Dict.get w.db.idempotencyKeys key).isSome = true) :
    OnceInv hashtext key (w.leave hashtext i c) where
  held j c' found' holds := by
    obtain ⟨_, rfl⟩ | ⟨other, there⟩ := call_changed found'
    · cases holds
    · have lock := h.held j c' there holds
      change (if c.phase.holds then _ else w.locks : Int → Option Nat) (hashtext c'.key) = some j
      split
      · next mine =>
          by_cases same : hashtext c'.key = hashtext c.key
          · rw [same, h.held i c found mine] at lock
            exact absurd (Option.some.inj lock).symm other
          · rw [Function.update_of_ne same]
            exact lock
      · exact lock
  fresh j c' found' same missing := by
    obtain ⟨_, rfl⟩ | ⟨_, there⟩ := call_changed found'
    · cases missing
    · exact h.fresh j c' there same missing
  recorded inside := h.still_recorded inside fun c' found' same result did => by
    cases found.symm.trans found'
    exact ran same result did
  once := h.once

theorem lock (h : OnceInv hashtext key w) (found : w.calls i = some c) (waiting : c.phase = .waiting)
    (free : w.locks (hashtext c.key) = none) : OnceInv hashtext key
      { w.enter i c .locked with locks := Function.update w.locks (hashtext c.key) (some i) } where
  held j c' found' holds := by
    obtain ⟨rfl, rfl⟩ | ⟨_, there⟩ := call_changed found'
    · exact Function.update_self _ _ _
    · have lock := h.held j c' there holds
      have apart : hashtext c'.key ≠ hashtext c.key := by
        intro same
        rw [same, free] at lock
        cases lock
      exact (Function.update_of_ne apart _ _).trans lock
  fresh j c' found' same missing := by
    obtain ⟨_, rfl⟩ | ⟨_, there⟩ := call_changed found'
    · cases missing
    · exact h.fresh j c' there same missing
  recorded inside := h.still_recorded inside fun c' found' same result did => by
    cases found.symm.trans found'
    cases waiting.symm.trans did
  once := h.once

/-- The row is missing: the side effect has not run to success, or its call would hold the lock. -/
theorem select (h : OnceInv hashtext key w) (found : w.calls i = some c) (locked : c.phase = .locked)
    (absent : Dict.get w.db.idempotencyKeys c.key = none) : OnceInv hashtext key (w.enter i c .missing) where
  held j c' found' holds := by
    obtain ⟨rfl, rfl⟩ | ⟨_, there⟩ := call_changed found'
    · exact h.held j c found (by rw [locked]; rfl)
    · exact h.held j c' there holds
  fresh j c' found' same missing := by
    obtain ⟨rfl, rfl⟩ | ⟨_, there⟩ := call_changed found'
    · intro inside
      obtain row | ⟨n, c'', result, found'', same'', did⟩ := h.recorded inside
      · rw [← same] at row
        simp [absent] at row
      · have mine : c.phase.holds = true := by rw [locked]; rfl
        have theirs : c''.phase.holds = true := by rw [did]; rfl
        cases h.alone found found'' mine theirs (same.trans same''.symm)
        cases found.symm.trans found''
        cases locked.symm.trans did
    · exact h.fresh j c' there same missing
  recorded inside := h.still_recorded inside fun c' found' same result did => by
    cases found.symm.trans found'
    cases locked.symm.trans did
  once := h.once

theorem effect (h : OnceInv hashtext key w) (found : w.calls i = some c) (missing : c.phase = .missing) (result : Json) :
    OnceInv hashtext key { w.enter i c (.ran result) with effects := c.key :: w.effects } where
  held j c' found' holds := by
    obtain ⟨rfl, rfl⟩ | ⟨_, there⟩ := call_changed found'
    · exact h.held j c found (by rw [missing]; rfl)
    · exact h.held j c' there holds
  fresh j c' found' same missing' := by
    obtain ⟨_, rfl⟩ | ⟨other, there⟩ := call_changed found'
    · cases missing'
    · intro inside
      rcases List.mem_cons.mp inside with mine | before
      · have one : c.phase.holds = true := by rw [missing]; rfl
        have two : c'.phase.holds = true := by rw [missing']; rfl
        exact other (h.alone found there one two (mine.symm.trans same.symm)).symm
      · exact h.fresh j c' there same missing' before
  recorded inside := by
    by_cases mine : c.key = key
    · exact .inr ⟨i, _, result, Function.update_self _ _ _, mine, rfl⟩
    · refine h.still_recorded (List.mem_of_ne_of_mem (Ne.symm mine) inside) fun c' found' same _ did => ?_
      cases found.symm.trans found'
      cases missing.symm.trans did
  once := by
    by_cases mine : c.key = key
    · have none := List.count_eq_zero.mpr (h.fresh i c found mine missing)
      simp [mine, none]
    · rw [List.count_cons_of_ne mine]
      exact h.once

theorem insert (h : OnceInv hashtext key w) (c : OnceCall) (result : Json) :
    OnceInv hashtext key (w.insert c result) where
  held := h.held
  fresh := h.fresh
  recorded inside := by
    refine (h.recorded inside).imp_left fun row => ?_
    change (Dict.get (if _ then _ else _) key).isSome = true
    split
    · exact row
    · rw [Dict.get_set]
      split
      · rfl
      · exact row
  once := h.once

theorem row_inserted (w : GuardWorld) (c : OnceCall) (result : Json) :
    (Dict.get (w.insert c result).db.idempotencyKeys c.key).isSome = true := by
  change (Dict.get (if _ then _ else _) c.key).isSome = true
  split
  · next there => exact there
  · simp

theorem advance (h : OnceInv hashtext key w) (found : w.calls i = some c) {m : OnceMove}
    (keeps : w.Keeps key (.move i m)) (moved : w.advance hashtext i c m = some w') : OnceInv hashtext key w' := by
  cases m with
  | lock =>
      simp only [GuardWorld.advance] at moved
      split at moved
      · next waiting free =>
          cases moved
          exact h.lock found waiting free
      · cases moved
  | select =>
      simp only [GuardWorld.advance] at moved
      split at moved
      · next locked _ =>
          cases moved
          exact h.leave found fun _ result did => by cases locked.symm.trans did
      · next locked absent =>
          cases moved
          exact h.select found locked absent
      · cases moved
  | effect result =>
      simp only [GuardWorld.advance] at moved
      split at moved
      · next missing =>
          cases moved
          exact h.effect found missing result
      · cases moved
  | commit =>
      simp only [GuardWorld.advance] at moved
      split at moved
      · next result ran =>
          cases moved
          exact (h.insert c result).leave found fun same _ _ => same ▸ row_inserted w c result
      · cases moved
  | cut =>
      simp only [GuardWorld.advance] at moved
      split at moved
      · cases moved
      · cases moved
        exact h.leave found fun same result did => absurd did (keeps c found same result)

theorem step (h : OnceInv hashtext key w) {s : GuardStep} (keeps : w.Keeps key s)
    (stepped : w.step hashtext s = some w') : OnceInv hashtext key w' := by
  cases s with
  | begin i k =>
      simp only [GuardWorld.step] at stepped
      split at stepped
      · next free =>
          cases stepped
          have new : w.calls i = none := Option.isNone_iff_eq_none.mp free.1
          refine ⟨fun j c found holds => ?_, fun j c found same missing => ?_, fun inside => ?_, h.once⟩
          · obtain ⟨_, rfl⟩ | ⟨_, there⟩ := call_changed found
            · cases holds
            · exact h.held j c there holds
          · obtain ⟨_, rfl⟩ | ⟨_, there⟩ := call_changed found
            · cases missing
            · exact h.fresh j c there same missing
          · refine h.still_recorded inside fun c found => ?_
            rw [new] at found
            cases found
      · cases stepped
  | move i m =>
      obtain ⟨c, found, moved⟩ := Option.bind_eq_some_iff.mp stepped
      exact h.advance found keeps moved
  | prune r =>
      cases stepped
      refine ⟨h.held, h.fresh, fun inside => (h.recorded inside).imp_left fun row => ?_, h.once⟩
      obtain ⟨found, there⟩ := Option.isSome_iff_exists.mp row
      have member := Dict.mem_of_get there
      have stays := RetainedTables.mem_prune.mpr ⟨member, keeps found member⟩
      exact (Dict.mem_keys_iff _ _).mp (List.mem_map.mpr ⟨_, stays, rfl⟩)
  | pass time =>
      cases stepped
      exact ⟨h.held, h.fresh, h.recorded, h.once⟩
  | status s =>
      cases stepped
      exact ⟨h.held, h.fresh, h.recorded, h.once⟩

end OnceInv

theorem GuardRun.inv {hashtext : String → Int} {key : String} {w w' : GuardWorld} (start : w.Start)
    (run : GuardRun hashtext key w w') : OnceInv hashtext key w' := by
  induction run with
  | refl => exact .start start
  | tail _ keeps stepped ih => exact ih.step keeps stepped

/-- While no prune deletes the row of a key, and no delivery is lost between its side effect and its
commit, the side effect runs to success at most once. -/
theorem effect_once {hashtext : String → Int} {key : String} {w w' : GuardWorld} (start : w.Start)
    (run : GuardRun hashtext key w w') : w'.effects.count key ≤ 1 :=
  (run.inv start).once

namespace Sample

/-- One delivery, start to end. -/
def commits (i : Nat) : List GuardStep :=
  [.begin i "k", .move i .lock, .move i .select, .move i (.effect .null), .move i .commit]

/-- A parked run's message is redelivered a day and a second later, after the nightly prune. -/
def redelivered : List GuardStep := commits 0 ++ [.pass 86401000000, .prune {}] ++ commits 1

def parked : GuardWorld := { status := .waiting }

theorem parked_start : parked.Start := ⟨fun _ => rfl, fun _ => rfl, rfl⟩

end Sample

/-- A duplicate delivery after a prune that comes in time finds the row. -/
theorem effect_once_twice : ∃ w, GuardRun (fun _ => 0) "k" Sample.parked w ∧ w.effects.count "k" ≤ 1 :=
  have delivered := (GuardRun.refl Sample.parked : GuardRun (fun _ => 0) "k" _ _)
    |>.tail (s := .begin 0 "k") trivial rfl |>.tail (s := .move 0 .lock) trivial rfl
    |>.tail (s := .move 0 .select) trivial rfl |>.tail (s := .move 0 (.effect .null)) trivial rfl
    |>.tail (s := .move 0 .commit) trivial rfl
  have pruned := delivered |>.tail (s := .prune {})
    (fun _ member => by cases List.mem_singleton.mp member; decide) rfl
  have again := pruned |>.tail (s := .begin 1 "k") trivial rfl |>.tail (s := .move 1 .lock) trivial rfl
    |>.tail (s := .move 1 .select) trivial rfl
  ⟨_, again, effect_once Sample.parked_start again⟩

/-- Deleting the key of a parked run lets its side effect run again. -/
theorem effect_twice : ¬ ∀ (hashtext : String → Int) (key : String) (w w' : GuardWorld) (steps : List GuardStep),
    w.Start → (∀ i k, .begin i k ∈ steps → k = key) → (∀ i, .move i .cut ∉ steps) →
    w.follow hashtext steps = some w' → w'.effects.count key ≤ 1 := by
  intro once
  have twice : ((Sample.parked.follow (fun _ => 0) Sample.redelivered).map fun w => w.effects.count "k") = some 2 := by
    decide +kernel
  obtain ⟨w', followed, count⟩ := Option.map_eq_some_iff.mp twice
  have own : ∀ i k, .begin i k ∈ Sample.redelivered → k = "k" := by
    intro i k begun
    simp [Sample.redelivered, Sample.commits] at begun
    exact begun.elim And.right And.right
  have whole : ∀ i, .move i .cut ∉ Sample.redelivered := by simp [Sample.redelivered, Sample.commits]
  have few := once (fun _ => 0) "k" Sample.parked w' Sample.redelivered Sample.parked_start own whole followed
  omega

end Maof
