import Maof.Runs.Retention
import Mathlib.Data.List.Sort

/-!
# The trace of a run

Appends to one run's trace are serialized by an advisory lock, and each takes the
number after the highest in the table. `prune` deletes rows by age, with whatever
number. A reader polls for the numbers above the highest it has seen.
-/

namespace Maof

/-- A row of `run_trace`. -/
structure TraceRow where
  runId : RunId
  seq : Nat
  entry : TraceEntry
  ts : Int

namespace RunTrace

/-- The highest number among these. -/
def highest (rows : List TraceRow) : Option Nat := (rows.map TraceRow.seq).max?

/-- `COALESCE((SELECT MAX(seq) …), 0) + 1`. -/
def nextSeq (rows : List TraceRow) (runId : RunId) : Nat := (highest (rows.filter fun row => row.runId = runId)).getD 0 + 1

/-- `read_trace`, in the order of the numbers. -/
def readTrace (rows : List TraceRow) (runId : RunId) (since : Option Nat) : List TraceRow :=
  (rows.filter fun row => row.runId = runId && since.all fun n => n < row.seq).insertionSort fun a b => a.seq ≤ b.seq

/-- Where an `append_trace` stands in its transaction. -/
inductive AppendPhase where
  | waiting
  | locked
  | inserted (row : TraceRow)
  | ended

def AppendPhase.holds : AppendPhase → Bool
  | .waiting | .ended => false
  | .locked | .inserted _ => true

structure AppendCall where
  runId : RunId
  entry : TraceEntry
  began : Int
  phase : AppendPhase := .waiting

structure TraceWorld where
  now : Int := 0
  /-- The committed rows. -/
  rows : List TraceRow := []
  calls : Nat → Option AppendCall := fun _ => none
  /-- The call that holds `pg_advisory_xact_lock` of a number. -/
  locks : Int → Option Nat := fun _ => none
  /-- Every row there ever was, in the order of their commits. -/
  log : List TraceRow := []
  /-- What a reader has seen of a run, in the order it was read. -/
  seen : Nat → RunId → List TraceRow := fun _ _ => []

inductive AppendMove where
  | lock
  | insert
  | commit
  /-- A statement raises, or the connection is lost. -/
  | cut

inductive TraceStep where
  | begin (i : Nat) (runId : RunId) (entry : TraceEntry)
  | move (i : Nat) (m : AppendMove)
  | prune (r : Retention)
  | pass (time : Nat)
  | poll (reader : Nat) (runId : RunId)

def lockName (runId : RunId) : String := "run_trace:" ++ runId

namespace TraceWorld

variable (hashtext : String → Int)

def enter (w : TraceWorld) (i : Nat) (c : AppendCall) (phase : AppendPhase) : TraceWorld :=
  { w with calls := Function.update w.calls i (some { c with phase }) }

/-- The transaction ends, and its lock is released. -/
def leave (w : TraceWorld) (i : Nat) (c : AppendCall) : TraceWorld :=
  { w.enter i c .ended with
    locks := if c.phase.holds then Function.update w.locks (hashtext (lockName c.runId)) none else w.locks }

/-- `append_trace`, statement by statement; `ts` is when the transaction began. -/
def advance (w : TraceWorld) (i : Nat) (c : AppendCall) : AppendMove → Option TraceWorld
  | .lock =>
      match c.phase, w.locks (hashtext (lockName c.runId)) with
      | .waiting, none =>
          some { w.enter i c .locked with locks := Function.update w.locks (hashtext (lockName c.runId)) (some i) }
      | _, _ => none
  | .insert =>
      match c.phase with
      | .locked => some (w.enter i c (.inserted { runId := c.runId, seq := nextSeq w.rows c.runId, entry := c.entry, ts := c.began }))
      | _ => none
  | .commit =>
      match c.phase with
      | .inserted row => some { w.leave hashtext i c with rows := w.rows ++ [row], log := w.log ++ [row] }
      | _ => none
  | .cut =>
      match c.phase with
      | .ended => none
      | _ => some (w.leave hashtext i c)

/-- A reader asks for what is above the highest number it has seen. -/
def poll (w : TraceWorld) (reader : Nat) (runId : RunId) : TraceWorld :=
  let seen := w.seen reader runId ++ readTrace w.rows runId (highest (w.seen reader runId))
  { w with seen := Function.update w.seen reader (Function.update (w.seen reader) runId seen) }

def step (w : TraceWorld) : TraceStep → Option TraceWorld
  | .begin i runId entry =>
      if (w.calls i).isNone then
        some { w with calls := Function.update w.calls i (some { runId, entry, began := w.now }) }
      else none
  | .move i m => (w.calls i).bind fun c => w.advance hashtext i c m
  | .prune r => some { w with rows := (delete w.rows fun row => row.ts < w.now - r.traceRetentionDays * day).1 }
  | .pass time => some { w with now := w.now + time }
  | .poll reader runId => some (w.poll reader runId)

/-- Take a list of steps. -/
def follow (w : TraceWorld) : List TraceStep → Option TraceWorld
  | [] => some w
  | s :: rest => (w.step hashtext s).bind fun w' => w'.follow rest

/-- The highest number the run was given is still in the table. -/
def Unpruned (w : TraceWorld) (runId : RunId) : Prop :=
  ∀ x ∈ w.log, x.runId = runId → ∃ row ∈ w.rows, row.runId = runId ∧ x.seq ≤ row.seq

/-- No append takes its number from a table without the highest one. -/
def Keeps (w : TraceWorld) : TraceStep → Prop
  | .move i .insert => ∀ c, w.calls i = some c → w.Unpruned c.runId
  | _ => True

end TraceWorld

inductive TraceRun (hashtext : String → Int) : TraceWorld → Prop
  | start (now : Int) : TraceRun hashtext { now }
  | tail {w w' : TraceWorld} {s : TraceStep} :
      TraceRun hashtext w → w.Keeps s → w.step hashtext s = some w' → TraceRun hashtext w'

/-! ## Reading -/

/-- No number comes before a lower one of its run. -/
def Ascending (rows : List TraceRow) : Prop := rows.Pairwise fun x y => x.runId = y.runId → x.seq < y.seq

section read

variable {rows : List TraceRow} {runId : RunId} {since : Option Nat} {row : TraceRow}

theorem highest_le {n : Nat} (top : highest rows = some n) (member : row ∈ rows) : row.seq ≤ n :=
  (List.max?_eq_some_iff.mp top).2 row.seq (List.mem_map_of_mem member)

theorem highest_mem {n : Nat} (top : highest rows = some n) : ∃ row ∈ rows, row.seq = n :=
  List.mem_map.mp (List.max?_eq_some_iff.mp top).1

/-- A number is below the next one exactly when the table has one that is no lower. -/
theorem lt_nextSeq {n : Nat} (positive : 0 < n) :
    n < nextSeq rows runId ↔ ∃ row ∈ rows, row.runId = runId ∧ n ≤ row.seq := by
  unfold nextSeq
  constructor
  · intro below
    cases top : highest (rows.filter fun row => row.runId = runId) with
    | none =>
        rw [top, Option.getD_none] at below
        omega
    | some m =>
        rw [top, Option.getD_some] at below
        obtain ⟨row, member, same⟩ := highest_mem top
        obtain ⟨inside, mine⟩ := List.mem_filter.mp member
        exact ⟨row, inside, of_decide_eq_true mine, by omega⟩
  · rintro ⟨row, inside, mine, reaches⟩
    have member : row ∈ rows.filter fun row => row.runId = runId :=
      List.mem_filter.mpr ⟨inside, by simpa using mine⟩
    have bounded : row.seq ≤ (highest (rows.filter fun row => row.runId = runId)).getD 0 :=
      List.le_max?_getD_of_mem (List.mem_map_of_mem member)
    omega

theorem mem_readTrace : row ∈ readTrace rows runId since ↔ row ∈ rows ∧ row.runId = runId ∧ ∀ n, since = some n → n < row.seq := by
  rw [readTrace, List.mem_insertionSort, List.mem_filter]
  cases since <;> simp

/-- What is read of ascending rows is in strictly increasing order. -/
theorem readTrace_ascending (ascending : Ascending rows) : (readTrace rows runId since).Pairwise fun x y => x.seq < y.seq := by
  have filtered : (rows.filter fun row => row.runId = runId && since.all fun n => n < row.seq).Pairwise fun x y => x.seq < y.seq := by
    apply (ascending.sublist List.filter_sublist).imp_of_mem
    intro x y here there below
    have mine := (List.mem_filter.mp here).2
    have theirs := (List.mem_filter.mp there).2
    simp only [Bool.and_eq_true, decide_eq_true_eq] at mine theirs
    exact below (mine.1.trans theirs.1.symm)
  have sorted : (rows.filter fun row => row.runId = runId && since.all fun n => n < row.seq).Pairwise fun a b => a.seq ≤ b.seq :=
    filtered.imp Nat.le_of_lt
  rw [readTrace, sorted.insertionSort_eq]
  exact filtered

end read

/-! ## What every run keeps -/

/-- Who holds a lock; that every number is above those its run was given before; and that a reader has seen every row it
has come past. -/
structure TraceInv (hashtext : String → Int) (w : TraceWorld) : Prop where
  held : ∀ i c, w.calls i = some c → c.phase.holds = true → w.locks (hashtext (lockName c.runId)) = some i
  kept : w.rows.Sublist w.log
  positive : ∀ x ∈ w.log, 0 < x.seq
  ascending : Ascending w.log
  ahead : ∀ i c row, w.calls i = some c → c.phase = .inserted row → row.runId = c.runId ∧ 0 < row.seq ∧
    ∀ x ∈ w.log, x.runId = c.runId → x.seq < row.seq
  inOrder : ∀ j r, (w.seen j r).Pairwise fun x y => x.seq < y.seq
  real : ∀ j r, ∀ x ∈ w.seen j r, x ∈ w.log ∧ x.runId = r
  caught : ∀ j r, ∀ row ∈ w.rows, row.runId = r → ∀ x ∈ w.seen j r, row.seq ≤ x.seq → row ∈ w.seen j r

namespace TraceInv

variable {hashtext : String → Int} {w w' : TraceWorld} {i : Nat} {c : AppendCall}

theorem start {now : Int} : TraceInv hashtext { now } where
  held := nofun
  kept := List.Sublist.refl _
  positive := nofun
  ascending := List.Pairwise.nil
  ahead := nofun
  inOrder _ _ := List.Pairwise.nil
  real := nofun
  caught := nofun

/-- Two appends to one run do not both hold its lock. -/
theorem alone (h : TraceInv hashtext w) {j : Nat} {c' : AppendCall} (found : w.calls i = some c) (found' : w.calls j = some c')
    (mine : c.phase.holds = true) (theirs : c'.phase.holds = true) (same : c.runId = c'.runId) : i = j := by
  have lock := h.held i c found mine
  rw [same, h.held j c' found' theirs] at lock
  exact (Option.some.inj lock).symm

/-- A call moves on while the tables stay: what is left to see to is who holds the locks and the number it took. -/
theorem move (h : TraceInv hashtext w) {x : AppendCall} {locks : Int → Option Nat}
    (held : ∀ j c', Function.update w.calls i (some x) j = some c' → c'.phase.holds = true →
      locks (hashtext (lockName c'.runId)) = some j)
    (took : ∀ row, x.phase = .inserted row → row.runId = x.runId ∧ 0 < row.seq ∧
      ∀ y ∈ w.log, y.runId = x.runId → y.seq < row.seq) :
    TraceInv hashtext { w with calls := Function.update w.calls i (some x), locks } where
  held := held
  kept := h.kept
  positive := h.positive
  ascending := h.ascending
  ahead j c' row found' inserted := by
    obtain ⟨_, rfl⟩ | ⟨_, there⟩ := call_changed found'
    · exact took row inserted
    · exact h.ahead j c' row there inserted
  inOrder := h.inOrder
  real := h.real
  caught := h.caught

theorem leave (h : TraceInv hashtext w) (found : w.calls i = some c) : TraceInv hashtext (w.leave hashtext i c) := by
  refine h.move (fun j c' found' holds => ?_) nofun
  obtain ⟨_, rfl⟩ | ⟨other, there⟩ := call_changed found'
  · cases holds
  · have lock := h.held j c' there holds
    split
    · next mine =>
        rw [Function.update_of_ne]
        · exact lock
        · intro same
          rw [same, h.held i c found mine] at lock
          exact other (Option.some.inj lock).symm
    · exact lock

theorem lock (h : TraceInv hashtext w)
    (free : w.locks (hashtext (lockName c.runId)) = none) : TraceInv hashtext
      { w.enter i c .locked with locks := Function.update w.locks (hashtext (lockName c.runId)) (some i) } := by
  refine h.move (fun j c' found' holds => ?_) nofun
  obtain ⟨rfl, rfl⟩ | ⟨_, there⟩ := call_changed found'
  · exact Function.update_self _ _ _
  · have lock := h.held j c' there holds
    have apart : hashtext (lockName c'.runId) ≠ hashtext (lockName c.runId) := by
      intro same
      rw [same, free] at lock
      cases lock
    exact (Function.update_of_ne apart _ _).trans lock

/-- Where the highest number is still in the table, the next one is above all of them. -/
theorem next_above (h : TraceInv hashtext w) {runId : RunId} :
    (∀ x ∈ w.log, x.runId = runId → x.seq < nextSeq w.rows runId) ↔ w.Unpruned runId := by
  constructor
  · intro above x member mine
    exact (lt_nextSeq (h.positive x member)).mp (above x member mine)
  · intro unpruned x member mine
    exact (lt_nextSeq (h.positive x member)).mpr (unpruned x member mine)

theorem insert (h : TraceInv hashtext w) (found : w.calls i = some c) (locked : c.phase = .locked)
    (unpruned : w.Unpruned c.runId) : TraceInv hashtext
      (w.enter i c (.inserted { runId := c.runId, seq := nextSeq w.rows c.runId, entry := c.entry, ts := c.began })) := by
  refine h.move (fun j c' found' holds => ?_) fun row inserted => ?_
  · obtain ⟨rfl, rfl⟩ | ⟨_, there⟩ := call_changed found'
    · exact h.held j c found (by rw [locked]; rfl)
    · exact h.held j c' there holds
  · cases inserted
    exact ⟨rfl, Nat.succ_pos _, h.next_above.mpr unpruned⟩

/-- The row is put at the end of the table. -/
theorem commit (h : TraceInv hashtext w) {row : TraceRow} (found : w.calls i = some c) (inserted : c.phase = .inserted row) :
    TraceInv hashtext { w.leave hashtext i c with rows := w.rows ++ [row], log := w.log ++ [row] } := by
  have left := h.leave found
  obtain ⟨mine, positive, above⟩ := h.ahead i c row found inserted
  refine ⟨left.held, h.kept.append (List.Sublist.refl _), ?_, ?_, ?_, h.inOrder, ?_, ?_⟩
  · intro x member
    rcases List.mem_append.mp member with old | new
    · exact h.positive x old
    · rw [List.mem_singleton.mp new]
      exact positive
  · apply List.pairwise_append.mpr
    refine ⟨h.ascending, List.pairwise_singleton _ _, ?_⟩
    intro x old y new same
    rw [List.mem_singleton.mp new] at same ⊢
    exact above x old (same.trans mine)
  · intro j c' row' found' inserted'
    obtain ⟨_, rfl⟩ | ⟨other, there⟩ := call_changed found'
    · cases inserted'
    · obtain ⟨theirs, positive', above'⟩ := h.ahead j c' row' there inserted'
      refine ⟨theirs, positive', ?_⟩
      intro x member run
      rcases List.mem_append.mp member with old | new
      · exact above' x old run
      · rw [List.mem_singleton.mp new, mine] at run
        have one : c.phase.holds = true := by rw [inserted]; rfl
        have two : c'.phase.holds = true := by rw [inserted']; rfl
        exact absurd (h.alone found there one two run).symm other
  · intro j r x member
    obtain ⟨inside, run⟩ := h.real j r x member
    exact ⟨List.mem_append_left _ inside, run⟩
  · intro j r row' member run x seen reaches
    rcases List.mem_append.mp member with old | new
    · exact h.caught j r row' old run x seen reaches
    · rw [List.mem_singleton.mp new] at run reaches
      obtain ⟨inside, same⟩ := h.real j r x seen
      have below := above x inside (same.trans (run.symm.trans mine))
      omega

theorem prune (h : TraceInv hashtext w) (gone : TraceRow → Bool) : TraceInv hashtext { w with rows := (delete w.rows gone).1 } where
  held := h.held
  kept := List.filter_sublist.trans h.kept
  positive := h.positive
  ascending := h.ascending
  ahead := h.ahead
  inOrder := h.inOrder
  real := h.real
  caught j r row member := h.caught j r row (List.mem_filter.mp member).1

/-- What a poll reads is above what was seen before. -/
theorem poll_seen (h : TraceInv hashtext w) (j : Nat) (r : RunId) :
    (w.seen j r ++ readTrace w.rows r (highest (w.seen j r))).Pairwise fun x y => x.seq < y.seq := by
  apply List.pairwise_append.mpr
  refine ⟨h.inOrder j r, readTrace_ascending (h.ascending.sublist h.kept), ?_⟩
  intro x seen y new
  obtain ⟨_, _, above⟩ := mem_readTrace.mp new
  cases top : highest (w.seen j r) with
  | none =>
      have empty := List.max?_eq_none_iff.mp top
      rw [List.map_eq_nil_iff] at empty
      rw [empty] at seen
      cases seen
  | some n => exact (highest_le top seen).trans_lt (above n top)

/-- After a poll the reader has seen every row there is. -/
theorem poll_all (h : TraceInv hashtext w) {j : Nat} {r : RunId} {row : TraceRow} (member : row ∈ w.rows) (mine : row.runId = r) :
    row ∈ w.seen j r ++ readTrace w.rows r (highest (w.seen j r)) := by
  rw [List.mem_append]
  cases top : highest (w.seen j r) with
  | none => exact .inr (mem_readTrace.mpr ⟨member, mine, nofun⟩)
  | some n =>
      by_cases old : row.seq ≤ n
      · obtain ⟨x, seen, rfl⟩ := highest_mem top
        exact .inl (h.caught j r row member mine x seen old)
      · right
        apply mem_readTrace.mpr
        refine ⟨member, mine, ?_⟩
        rintro m same
        cases same
        omega

/-- A reader changes only what it has seen of this run. -/
theorem seen_poll {j j' : Nat} {r r' : RunId} : (w.poll j r).seen j' r' =
    if j' = j ∧ r' = r then w.seen j r ++ readTrace w.rows r (highest (w.seen j r)) else w.seen j' r' := by
  simp only [TraceWorld.poll, Function.update_apply]
  by_cases reader : j' = j
  · subst reader
    by_cases run : r' = r
    · subst run
      simp
    · simp [run]
  · simp [reader]

theorem poll (h : TraceInv hashtext w) (j : Nat) (r : RunId) : TraceInv hashtext (w.poll j r) where
  held := h.held
  kept := h.kept
  positive := h.positive
  ascending := h.ascending
  ahead := h.ahead
  inOrder j' r' := by
    rw [seen_poll]
    split
    · exact h.poll_seen j r
    · exact h.inOrder j' r'
  real j' r' x member := by
    rw [seen_poll] at member
    split at member
    · next same =>
        obtain ⟨rfl, rfl⟩ := same
        rcases List.mem_append.mp member with old | new
        · exact h.real _ _ x old
        · obtain ⟨inside, mine, _⟩ := mem_readTrace.mp new
          exact ⟨h.kept.subset inside, mine⟩
    · exact h.real j' r' x member
  caught j' r' row member mine x seen reaches := by
    rw [seen_poll] at seen ⊢
    split at seen
    · next same =>
        obtain ⟨rfl, rfl⟩ := same
        rw [if_pos ⟨rfl, rfl⟩]
        exact h.poll_all member mine
    · next apart =>
        rw [if_neg apart]
        exact h.caught j' r' row member mine x seen reaches

theorem advance (h : TraceInv hashtext w) (found : w.calls i = some c) {m : AppendMove} (keeps : w.Keeps (.move i m))
    (moved : w.advance hashtext i c m = some w') : TraceInv hashtext w' := by
  cases m with
  | lock =>
      simp only [TraceWorld.advance] at moved
      split at moved
      · next free =>
          cases moved
          exact h.lock free
      · cases moved
  | insert =>
      simp only [TraceWorld.advance] at moved
      split at moved
      · next locked =>
          cases moved
          exact h.insert found locked (keeps c found)
      · cases moved
  | commit =>
      simp only [TraceWorld.advance] at moved
      split at moved
      · next row inserted =>
          cases moved
          exact h.commit found inserted
      · cases moved
  | cut =>
      simp only [TraceWorld.advance] at moved
      split at moved
      · cases moved
      · cases moved
        exact h.leave found

theorem step (h : TraceInv hashtext w) {s : TraceStep} (keeps : w.Keeps s) (stepped : w.step hashtext s = some w') :
    TraceInv hashtext w' := by
  cases s with
  | begin i runId entry =>
      simp only [TraceWorld.step] at stepped
      split at stepped
      · cases stepped
        refine h.move (fun j c found holds => ?_) nofun
        obtain ⟨_, rfl⟩ | ⟨_, there⟩ := call_changed found
        · cases holds
        · exact h.held j c there holds
      · cases stepped
  | move i m =>
      obtain ⟨c, found, moved⟩ := Option.bind_eq_some_iff.mp stepped
      exact h.advance found keeps moved
  | prune r =>
      cases stepped
      exact h.prune _
  | pass time =>
      cases stepped
      exact ⟨h.held, h.kept, h.positive, h.ascending, h.ahead, h.inOrder, h.real, h.caught⟩
  | poll reader runId =>
      cases stepped
      exact h.poll reader runId

end TraceInv

theorem TraceRun.inv {hashtext : String → Int} {w : TraceWorld} (run : TraceRun hashtext w) : TraceInv hashtext w := by
  induction run with
  | start => exact .start
  | tail _ keeps stepped ih => exact ih.step keeps stepped

/-- No number is given twice or after a higher one, and a reader sees each row once, in the order of their numbers, and
every one there is when it polls. -/
structure Lossless (hashtext : String → Int) (w : TraceWorld) : Prop where
  ascending : Ascending w.log
  inOrder : ∀ j r, (w.seen j r).Pairwise fun x y => x.seq < y.seq
  complete : ∀ j r w', w.step hashtext (.poll j r) = some w' → ∀ row ∈ w'.rows, row.runId = r → row ∈ w'.seen j r

/-- While every append finds the highest number of its run in the table, nothing is lost to a reader; and that is when
its own number is above all that were given. -/
theorem trace_lossless {hashtext : String → Int} {w : TraceWorld} (run : TraceRun hashtext w) : Lossless hashtext w ∧
    ∀ runId, (∀ x ∈ w.log, x.runId = runId → x.seq < nextSeq w.rows runId) ↔ w.Unpruned runId := by
  have inv := run.inv
  refine ⟨⟨inv.ascending, inv.inOrder, ?_⟩, fun _ => inv.next_above⟩
  rintro j r w' stepped row member mine
  cases stepped
  rw [TraceInv.seen_poll, if_pos ⟨rfl, rfl⟩]
  exact inv.poll_all member mine

namespace Sample

/-- One append, start to end. -/
def appends (i : Nat) (runId : RunId) : List TraceStep :=
  [.begin i runId { kind := "step" }, .move i .lock, .move i .insert, .move i .commit]

/-- Over a month later, and after a prune, a run that was parked goes on. -/
def resumed : List TraceStep :=
  appends 0 "r" ++ [.poll 0 "r", .pass 2678400000001, .prune {}] ++ appends 1 "r"

end Sample

/-- Two appends to a run, and between them a prune that has nothing to delete. -/
theorem trace_lossless_twice : ∃ w, Lossless (fun _ => 0) w ∧ (w.seen 0 "r").map TraceRow.seq = [1, 2] :=
  have first := (TraceRun.start 0 : TraceRun (fun _ => 0) _)
    |>.tail (s := .begin 0 "r" { kind := "step" }) trivial rfl |>.tail (s := .move 0 .lock) trivial rfl
    |>.tail (s := .move 0 .insert) (fun _ _ _ none => nomatch none) rfl |>.tail (s := .move 0 .commit) trivial rfl
    |>.tail (s := .poll 0 "r") trivial rfl
  have pruned := first |>.tail (s := .pass 60) trivial rfl |>.tail (s := .prune {}) trivial rfl
  have second := pruned |>.tail (s := .begin 1 "r" { kind := "step" }) trivial rfl |>.tail (s := .move 1 .lock) trivial rfl
    |>.tail (s := .move 1 .insert) (fun _ _ x member mine => ⟨x, member, mine, le_rfl⟩) rfl |>.tail (s := .move 1 .commit) trivial rfl
    |>.tail (s := .poll 0 "r") trivial rfl
  ⟨_, (trace_lossless second).1, rfl⟩

/-- Where a prune took the last row of a run, its next one has the number of the first, and a reader waits for the second. -/
theorem trace_lost : ¬ ∀ (hashtext : String → Int) (now : Int) (steps : List TraceStep) (w : TraceWorld),
    ({ now } : TraceWorld).follow hashtext steps = some w → Lossless hashtext w := by
  intro claimed
  have seen : ((({ now := 0 } : TraceWorld).follow (fun _ => 0) Sample.resumed).bind fun w => w.step (fun _ => 0) (.poll 0 "r")).map
      (fun w => (w.rows.map fun row => (row.runId, row.ts), (w.seen 0 "r").map TraceRow.ts)) =
        some ([("r", 2678400000001)], [0]) := by
    decide +kernel
  obtain ⟨w', polled, shown⟩ := Option.map_eq_some_iff.mp seen
  obtain ⟨w, followed, stepped⟩ := Option.bind_eq_some_iff.mp polled
  obtain ⟨rows, known⟩ := Prod.mk.inj shown
  obtain ⟨row, there, mine⟩ := List.map_eq_singleton_iff.mp rows
  obtain ⟨run, time⟩ := Prod.mk.inj mine
  have missed := (claimed _ _ _ w followed).complete 0 "r" w' stepped row (there ▸ List.mem_singleton_self row) run
  have read : row.ts ∈ (w'.seen 0 "r").map TraceRow.ts := List.mem_map_of_mem missed
  rw [known, List.mem_singleton, time] at read
  cases read

end RunTrace
end Maof
