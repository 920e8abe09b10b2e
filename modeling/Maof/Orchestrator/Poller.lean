import Maof.Orchestrator.Claims
import Maof.Orchestrator.System

/-!
# The poll loop

A tick claims every due wakeup before it resumes the first run. What raises on
the way, a stored time or a resume, takes the runs behind it with it.
-/

namespace Maof

/-- The wakeups, the results and the clock that a tick looks at. -/
structure Polled where
  rows : List Wakeup := []
  results : List ResultEnvelope := []
  now : Int := 0

/-- The runs a tick resumed, and what it returns. -/
structure Ticked where
  resumed : List RunId := []
  out : Except Exn (List RunId)

namespace WakerPoller

/-- `for run_id in due: await self._resume(run_id)`, up to the first that raises. -/
def resumeEach (resume : RunId → Except Exn Unit) : List RunId → List RunId × Except Exn Unit
  | [] => ([], .ok ())
  | r :: due =>
      match resume r with
      | .ok () => (r :: (resumeEach resume due).1, (resumeEach resume due).2)
      | .error e => ([], .error e)

section tick

variable (p : Platform) (b : Backend) (resume : RunId → Except Exn Unit)

/-- `tick`, with what the resume of each run comes to. -/
def tickOf (s : Polled) : Polled × Ticked :=
  let (rows, timers) := Waker.dueTimers p b s.now s.rows
  match timers with
  | .error e => ({ s with rows }, { out := .error e })
  | .ok timers =>
      let (rows, joins) := Waker.dueJoins s.results rows
      let due := extend timers joins
      let (resumed, out) := resumeEach resume due
      ({ s with rows }, { resumed, out := out.map fun _ => due })

/-- What the `n`th tick finds. The others, among them the runs that were resumed, do to the wakeups what they
want before each tick; a tick that raises ends `run_forever`, and the next one is then a scheduler's. -/
def before (s : Polled) (others : Nat → Polled → Polled) : Nat → Polled
  | 0 => others 0 s
  | n + 1 => others (n + 1) (tickOf p b resume (before s others n)).1

def ticked (s : Polled) (others : Nat → Polled → Polled) (n : Nat) : Ticked :=
  (tickOf p b resume (before p b resume s others n)).2

/-- A wakeup that a tick is to claim. -/
def due (s : Polled) (w : Wakeup) : Bool := Waker.timerDue p s.now w || (Waker.isJoin w && Waker.ready s.results w)

/-- Every tick returns, and whoever has a due wakeup and can be resumed is resumed by that tick or a later one. -/
def Serves (s : Polled) (others : Nat → Polled → Polled) : Prop :=
  (∀ n, ∃ runs, (ticked p b resume s others n).out = .ok runs) ∧
    ∀ n, ∀ w ∈ (before p b resume s others n).rows, due p (before p b resume s others n) w = true →
      resume w.runId = .ok () → ∃ m, n ≤ m ∧ w.runId ∈ (ticked p b resume s others m).resumed

/-- In memory every pending timer has a time the clock can be compared with. -/
def Readable (rows : List Wakeup) : Prop :=
  b = .memory → ∀ w ∈ rows, ∀ text, Waker.alarm w = some text → (p.parseRfc3339 text).isSome

/-- No due run's resume raises, and no time that is looked at. -/
def Calm (s : Polled) : Prop :=
  Readable p b s.rows ∧ ∀ w ∈ s.rows, due p s w = true → resume w.runId = .ok ()

end tick

/-! ## One tick -/

section laws

variable {p : Platform} {b : Backend} {resume : RunId → Except Exn Unit} {now : Int} {rows : List Wakeup}

theorem resumeEach_ok {runs : List RunId} : (∃ u, (resumeEach resume runs).2 = .ok u) ↔ ∀ r ∈ runs, resume r = .ok () := by
  induction runs with
  | nil => simp [resumeEach]
  | cons r runs ih =>
      rw [resumeEach, List.forall_mem_cons, ← ih]
      cases resume r with
      | ok u => simp
      | error e => simp

theorem resumeEach_all {runs : List RunId} (resumes : ∀ r ∈ runs, resume r = .ok ()) : (resumeEach resume runs).1 = runs := by
  induction runs with
  | nil => rfl
  | cons r runs ih =>
      rw [resumeEach, resumes r List.mem_cons_self, ih fun r inside => resumes r (List.mem_cons_of_mem _ inside)]

theorem claimAll_cons {q : Wakeup → Bool} {w : Wakeup} : Waker.claimAll q (w :: rows) =
    if q w then (Waker.fire w :: (Waker.claimAll q rows).1, w.runId :: (Waker.claimAll q rows).2)
    else (w :: (Waker.claimAll q rows).1, (Waker.claimAll q rows).2) := by
  unfold Waker.claimAll
  by_cases due : q w = true
  · simp [due]
  · simp [due]

/-- A sweep that can read every time claims the due timers. -/
theorem sweepTimers_readable (readable : ∀ w ∈ rows, ∀ text, Waker.alarm w = some text → (p.parseRfc3339 text).isSome) :
    Waker.sweepTimers p now rows = ((Waker.claimAll (Waker.timerDue p now) rows).1, .ok (Waker.claimAll (Waker.timerDue p now) rows).2) := by
  induction rows with
  | nil => rfl
  | cons w rows ih =>
      have here := readable w List.mem_cons_self
      rw [Waker.sweepTimers_cons, ih fun w inside => readable w (List.mem_cons_of_mem _ inside), claimAll_cons, Waker.timerDue]
      cases set : Waker.alarm w with
      | none => rfl
      | some text =>
          obtain ⟨time, parsed⟩ := Option.isSome_iff_exists.mp (here text set)
          simp only [parsed, Option.bind_some]
          by_cases due : time ≤ now
          · simp [due, Except.map]
          · simp [due]

/-- It raises where it comes to a time it cannot read. -/
theorem sweepTimers_unreadable {w : Wakeup} {text : String} (inside : w ∈ rows) (set : Waker.alarm w = some text)
    (unparsable : p.parseRfc3339 text = none) : ∃ e, (Waker.sweepTimers p now rows).2 = .error e := by
  induction rows with
  | nil => cases inside
  | cons w' rows ih =>
      rw [Waker.sweepTimers_cons]
      rcases List.mem_cons.mp inside with rfl | later
      · rw [set]
        simp only [unparsable]
        exact ⟨_, rfl⟩
      · obtain ⟨e, raised⟩ := ih later
        split
        · exact ⟨e, raised⟩
        · split
          · exact ⟨_, rfl⟩
          · split
            · rw [raised]
              exact ⟨e, rfl⟩
            · exact ⟨e, raised⟩

theorem dueTimers_readable (readable : Readable p b rows) : Waker.dueTimers p b now rows =
    ((Waker.claimAll (Waker.timerDue p now) rows).1, .ok (Waker.claimAll (Waker.timerDue p now) rows).2) := by
  cases b with
  | memory => exact sweepTimers_readable (readable rfl)
  | postgres => rfl

theorem dueTimers_unreadable (unreadable : ¬ Readable p b rows) : ∃ e, (Waker.dueTimers p b now rows).2 = .error e := by
  unfold Readable at unreadable
  push Not at unreadable
  obtain ⟨rfl, w, inside, text, set, unparsable⟩ := unreadable
  exact sweepTimers_unreadable inside set (Option.not_isSome_iff_eq_none.mp unparsable)

theorem join_kind {w : Wakeup} (join : Waker.isJoin w = true) : w.condition.kind = .resultsReady := by
  simp only [Waker.isJoin, Bool.and_eq_true, decide_eq_true_eq] at join
  exact join.2

theorem timer_kind {w : Wakeup} (timer : Waker.timerDue p now w = true) : w.condition.kind = .timer := by
  unfold Waker.timerDue Waker.alarm at timer
  split at timer
  · next set =>
      split at set
      · next met => exact met.2
      · cases set
  · cases timer

theorem mem_claimAll_iff {q : Wakeup → Bool} {r : RunId} : r ∈ (Waker.claimAll q rows).2 ↔ ∃ w ∈ rows, q w = true ∧ w.runId = r := by
  simp [Waker.claimAll, and_assoc]

/-- Firing the timers leaves the joins. -/
theorem mem_dueJoins_iff (results : List ResultEnvelope) {r : RunId} :
    r ∈ (Waker.dueJoins results (Waker.claimAll (Waker.timerDue p now) rows).1).2 ↔
      ∃ w ∈ rows, (Waker.isJoin w && Waker.ready results w) = true ∧ w.runId = r := by
  rw [Waker.dueJoins, mem_claimAll_iff]
  constructor
  · rintro ⟨w', inside, join, mine⟩
    obtain ⟨w, there, rfl⟩ := List.mem_map.mp inside
    by_cases timer : Waker.timerDue p now w = true
    · rw [if_pos timer] at join
      cases join
    · rw [if_neg timer] at join mine
      exact ⟨w, there, join, mine⟩
  · rintro ⟨w, inside, join, mine⟩
    have other : ¬ Waker.timerDue p now w = true := by
      intro timer
      cases (timer_kind timer).symm.trans (join_kind (Bool.and_eq_true_iff.mp join).1)
    exact ⟨w, List.mem_map.mpr ⟨w, inside, if_neg other⟩, join, mine⟩

/-- A tick that can read its times, and the runs it is to resume. -/
theorem tickOf_readable {s : Polled} (readable : Readable p b s.rows) : ∃ runs,
    (∀ r, r ∈ runs ↔ ∃ w ∈ s.rows, due p s w = true ∧ w.runId = r) ∧
    (tickOf p b resume s).2 = { resumed := (resumeEach resume runs).1, out := (resumeEach resume runs).2.map fun _ => runs } := by
  refine ⟨extend (Waker.claimAll (Waker.timerDue p s.now) s.rows).2
    (Waker.dueJoins s.results (Waker.claimAll (Waker.timerDue p s.now) s.rows).1).2, fun r => ?_, ?_⟩
  · rw [mem_extend, mem_claimAll_iff, mem_dueJoins_iff]
    constructor
    · rintro (⟨w, inside, timer, mine⟩ | ⟨w, inside, join, mine⟩)
      · exact ⟨w, inside, by rw [due, timer, Bool.true_or], mine⟩
      · exact ⟨w, inside, by rw [due, join, Bool.or_true], mine⟩
    · rintro ⟨w, inside, met, mine⟩
      rcases Bool.or_eq_true_iff.mp met with timer | join
      · exact .inl ⟨w, inside, timer, mine⟩
      · exact .inr ⟨w, inside, join, mine⟩
  · unfold tickOf
    rw [dueTimers_readable readable]

/-- A tick returns exactly where it is calm. -/
theorem tickOf_ok {s : Polled} : (∃ runs, (tickOf p b resume s).2.out = .ok runs) ↔ Calm p b resume s := by
  by_cases readable : Readable p b s.rows
  · obtain ⟨runs, mem, ticks⟩ := @tickOf_readable p b resume s readable
    have returns : (∃ due, (tickOf p b resume s).2.out = .ok due) ↔ ∃ u, (resumeEach resume runs).2 = .ok u := by
      rw [ticks]
      cases (resumeEach resume runs).2 with
      | ok u => simp [Except.map]
      | error e => simp [Except.map]
    rw [returns, resumeEach_ok]
    constructor
    · intro resumes
      exact ⟨readable, fun w inside met => resumes _ ((mem _).mpr ⟨w, inside, met, rfl⟩)⟩
    · rintro ⟨_, calm⟩ r listed
      obtain ⟨w, inside, met, rfl⟩ := (mem r).mp listed
      exact calm w inside met
  · obtain ⟨e, raised⟩ := @dueTimers_unreadable p b s.now s.rows readable
    have fails : (tickOf p b resume s).2.out = .error e := by
      unfold tickOf
      rw [← Prod.eta (Waker.dueTimers p b s.now s.rows), raised]
    rw [fails]
    constructor
    · rintro ⟨runs, returned⟩
      cases returned
    · intro calm
      exact absurd calm.1 readable

/-- A calm tick resumes every run with a due wakeup. -/
theorem tickOf_calm {s : Polled} (calm : Calm p b resume s) {w : Wakeup} (inside : w ∈ s.rows) (met : due p s w = true) :
    w.runId ∈ (tickOf p b resume s).2.resumed := by
  obtain ⟨runs, mem, ticks⟩ := @tickOf_readable p b resume s calm.1
  have resumes : ∀ r ∈ runs, resume r = .ok () := by
    intro r listed
    obtain ⟨w, inside, met, rfl⟩ := (mem r).mp listed
    exact calm.2 w inside met
  rw [ticks, resumeEach_all resumes]
  exact (mem _).mpr ⟨w, inside, met, rfl⟩

end laws

end WakerPoller

/-- The poller keeps ticking, and resumes every run it can, exactly where no tick meets a time it cannot read or a due
run whose resume raises. -/
theorem poller_serves_iff (p : Platform) (b : Backend) (resume : RunId → Except Exn Unit) (s : Polled)
    (others : Nat → Polled → Polled) : WakerPoller.Serves p b resume s others ↔
      ∀ n, WakerPoller.Calm p b resume (WakerPoller.before p b resume s others n) := by
  constructor
  · intro serves n
    exact WakerPoller.tickOf_ok.mp (serves.1 n)
  · intro calm
    refine ⟨fun n => WakerPoller.tickOf_ok.mpr (calm n), fun n w inside met _ => ⟨n, le_refl n, ?_⟩⟩
    exact WakerPoller.tickOf_calm (calm n) inside met

namespace Sample

def timer (runId : RunId) : Wakeup := { runId, condition := { kind := .timer, wakeAt := some "||" } }

/-- Two timers that are due. -/
def twoTimers : Polled := { rows := [timer "a", timer "b"], now := 3 }

/-- Only the first run cannot be resumed. -/
def locked (runId : RunId) : Except Exn Unit := if runId = "a" then .error (.runtime "run locked") else .ok ()

/-- Both are claimed by the first tick, for good. -/
theorem twoTimers_claimed (n : Nat) :
    WakerPoller.before platform .memory locked twoTimers (fun _ s => s) (n + 1) =
      { rows := [Waker.fire (timer "a"), Waker.fire (timer "b")], now := 3 } := by
  induction n with
  | zero => rfl
  | succ n ih =>
      rw [WakerPoller.before, ih]
      rfl

end Sample

/-- The run behind one that cannot be resumed is resumed by no tick. -/
theorem neighbour_starves : ¬ ∀ (p : Platform) (b : Backend) (resume : RunId → Except Exn Unit) (s : Polled)
    (others : Nat → Polled → Polled), WakerPoller.Serves p b resume s others := by
  intro serves
  have served := (serves Sample.platform .memory Sample.locked Sample.twoTimers fun _ s => s).2 0 (Sample.timer "b")
    (List.mem_cons_of_mem _ List.mem_cons_self) (by decide +kernel) rfl
  obtain ⟨m, _, resumed⟩ := served
  cases m with
  | zero =>
      have nobody : (WakerPoller.ticked Sample.platform .memory Sample.locked Sample.twoTimers (fun _ s => s) 0).resumed = [] := rfl
      rw [nobody] at resumed
      cases resumed
  | succ m =>
      rw [WakerPoller.ticked, Sample.twoTimers_claimed] at resumed
      cases resumed

end Maof
