import Maof.Orchestrator.Lifecycle

/-!
# Claims of the in-memory waker

Four operations claim entries of one list, and whoever claims an entry is the
last to. Nothing an operation awaits suspends it, so that each is one step. The
clock may be set to any time.
-/

namespace Maof

/-- The waker over its result store, and the clock. -/
structure InMemoryRunWaker where
  scheduled : List Wakeup := []
  results : List ResultEnvelope := []
  now : Int := 0

inductive WakerOp where
  | schedule (runId : RunId) (condition : WakeCondition)
  | save (envelope : ResultEnvelope)
  | satisfyResults (runId : RunId) (stepRef : StepId)
  | fireEvent (eventKey : String)
  | dueTimers
  | dueJoins
  | clock (now : Int)

namespace Waker

/-- Some pending rows that met a condition are fired, the others are as they were. -/
def Moves (met : Wakeup → Prop) : List Wakeup → List Wakeup → Prop :=
  List.Forall₂ fun w w' => w' = w ∨ w.status = .pending ∧ met w ∧ w' = fire w

/-- The runs whose rows were pending and are fired. -/
def claimed (rows rows' : List Wakeup) : List RunId :=
  ((rows.zip rows').filter fun pair => pair.1.status = .pending ∧ pair.2.status = .fired).map fun pair => pair.1.runId

section moves

variable {met : Wakeup → Prop} {rows rows' : List Wakeup} {w : Wakeup}

theorem moves_refl : Moves met rows rows := by
  induction rows with
  | nil => exact .nil
  | cons w rows ih => exact .cons (.inl rfl) ih

theorem moves_claimAll {q : Wakeup → Bool} (pending : ∀ w, q w = true → w.status = .pending) :
    Moves (fun w => q w = true) rows (claimAll q rows).1 := by
  induction rows with
  | nil => exact .nil
  | cons w rows ih =>
      refine .cons ?_ ih
      by_cases due : q w = true
      · exact .inr ⟨pending w due, due, if_pos due⟩
      · exact .inl (if_neg due)

theorem moves_claimFirst {q : Wakeup → Bool} (pending : ∀ w, q w = true → w.status = .pending) :
    Moves (fun w => rows.find? q = some w) rows (claimFirst q rows) := by
  induction rows with
  | nil => exact .nil
  | cons w rows ih =>
      unfold claimFirst
      split
      · next due => exact .cons (.inr ⟨pending w due, List.find?_cons_of_pos due, rfl⟩) moves_refl
      · next other =>
          refine .cons (.inl rfl) ?_
          rw [List.find?_cons_of_neg other]
          exact ih

/-- A pending timer whose time has come. -/
def TimerMet (p : Platform) (now : Int) (w : Wakeup) : Prop :=
  w.condition.kind = .timer ∧ ∃ text time, w.condition.wakeAt = some text ∧ p.parseRfc3339 text = some time ∧ time ≤ now

theorem sweepTimers_cons {p : Platform} {now : Int} : sweepTimers p now (w :: rows) =
    match alarm w with
    | none => (w :: (sweepTimers p now rows).1, (sweepTimers p now rows).2)
    | some text => match p.parseRfc3339 text with
        | none => (w :: rows, .error (unparsable text))
        | some time =>
            if time ≤ now then (fire w :: (sweepTimers p now rows).1, (sweepTimers p now rows).2.map (w.runId :: ·))
            else (w :: (sweepTimers p now rows).1, (sweepTimers p now rows).2) := rfl

theorem moves_sweepTimers {p : Platform} {now : Int} : Moves (TimerMet p now) rows (sweepTimers p now rows).1 := by
  induction rows with
  | nil => exact .nil
  | cons w rows ih =>
      rw [sweepTimers_cons]
      split
      · exact .cons (.inl rfl) ih
      · next text set =>
          split
          · exact moves_refl
          · next time parsed =>
              simp only [alarm] at set
              split at set
              · next timer =>
                  by_cases due : time ≤ now
                  · rw [if_pos due]
                    exact .cons (.inr ⟨timer.1, ⟨timer.2, text, time, set, parsed, due⟩, rfl⟩) ih
                  · rw [if_neg due]
                    exact .cons (.inl rfl) ih
              · cases set

theorem Moves.weaken {met' : Wakeup → Prop} (moves : Moves met rows rows')
    (implies : ∀ w, w ∈ rows → w.status = .pending → met w → met' w) : Moves met' rows rows' := by
  induction moves with
  | nil => exact .nil
  | cons first _ ih =>
      refine .cons ?_ (ih fun w inside => implies w (List.mem_cons_of_mem _ inside))
      apply first.imp_right
      rintro ⟨pending, met, rfl⟩
      exact ⟨pending, implies _ List.mem_cons_self pending met, rfl⟩

theorem Moves.get (moves : Moves met rows rows') {j : Nat} (found : rows[j]? = some w) :
    ∃ w', rows'[j]? = some w' ∧ (w' = w ∨ w.status = .pending ∧ met w ∧ w' = fire w) := by
  induction moves generalizing j with
  | nil => cases found
  | cons first _ ih =>
      cases j with
      | zero =>
          cases found
          exact ⟨_, rfl, first⟩
      | succ j => exact ih found

/-! ## The runs that are named -/

theorem claimed_cons {w' : Wakeup} : claimed (w :: rows) (w' :: rows') =
    if w.status = .pending ∧ w'.status = .fired then w.runId :: claimed rows rows' else claimed rows rows' := by
  unfold claimed
  rw [List.zip_cons_cons, List.filter_cons]
  split <;> split <;> simp_all

theorem claimed_self : claimed rows rows = [] := by
  induction rows with
  | nil => rfl
  | cons w rows ih =>
      rw [claimed_cons, if_neg, ih]
      rintro ⟨pending, fired⟩
      cases pending.symm.trans fired

theorem claimed_claimAll {q : Wakeup → Bool} (pending : ∀ w, q w = true → w.status = .pending) :
    claimed rows (claimAll q rows).1 = (claimAll q rows).2 := by
  induction rows with
  | nil => rfl
  | cons w rows ih =>
      change claimed (w :: rows) ((if q w then fire w else w) :: (claimAll q rows).1) = _
      rw [claimed_cons, ih]
      simp only [claimAll]
      by_cases due : q w = true
      · rw [if_pos ⟨pending w due, by rw [if_pos due]; rfl⟩, List.filter_cons_of_pos due, List.map_cons]
      · rw [if_neg, List.filter_cons_of_neg due]
        rw [if_neg due]
        rintro ⟨waits, fired⟩
        cases waits.symm.trans fired

theorem claimed_claimFirst {q : Wakeup → Bool} (pending : ∀ w, q w = true → w.status = .pending) :
    claimed rows (claimFirst q rows) = ((rows.find? q).map Wakeup.runId).toList := by
  induction rows with
  | nil => rfl
  | cons w rows ih =>
      unfold claimFirst
      split
      · next due =>
          rw [claimed_cons, if_pos ⟨pending w due, rfl⟩, claimed_self, List.find?_cons_of_pos due]
          rfl
      · next other =>
          rw [claimed_cons, if_neg, ih, List.find?_cons_of_neg other]
          rintro ⟨waits, fired⟩
          cases waits.symm.trans fired

theorem claimed_sweepTimers {p : Platform} {now : Int} {woken : List RunId} (answered : (sweepTimers p now rows).2 = .ok woken) :
    claimed rows (sweepTimers p now rows).1 = woken := by
  have unfired : ∀ w : Wakeup, ¬ (w.status = .pending ∧ w.status = .fired) := by
    rintro w ⟨waits, fired⟩
    cases waits.symm.trans fired
  induction rows generalizing woken with
  | nil =>
      cases answered
      rfl
  | cons w rows ih =>
      rw [sweepTimers_cons] at answered ⊢
      split at answered
      · rw [claimed_cons, if_neg (unfired w)]
        exact ih answered
      · next text set =>
          split at answered
          · cases answered
          · next time parsed =>
              have waits : w.status = .pending := by
                simp only [alarm] at set
                split at set
                · next timer => exact timer.1
                · cases set
              by_cases due : time ≤ now
              · rw [if_pos due] at answered ⊢
                cases rest : (sweepTimers p now rows).2 with
                | error e =>
                    rw [rest] at answered
                    cases answered
                | ok woken' =>
                    rw [rest] at answered
                    cases answered
                    rw [claimed_cons, if_pos ⟨waits, rfl⟩, ih rest]
              · rw [if_neg due] at answered ⊢
                rw [claimed_cons, if_neg (unfired w)]
                exact ih answered

end moves

end Waker

namespace WakerOp

variable (p : Platform)

/-- An operation, and the runs it names. -/
def perform (s : InMemoryRunWaker) : WakerOp → InMemoryRunWaker × Except Exn (List RunId)
  | .schedule runId condition => ({ s with scheduled := s.scheduled ++ [{ runId, condition }] }, .ok [])
  | .save envelope => ({ s with results := (ResultStore.save s.results envelope).1 }, .ok [])
  | .satisfyResults runId stepRef =>
      let (rows, found) := Waker.satisfyResults .memory s.results runId stepRef s.scheduled
      ({ s with scheduled := rows }, .ok (if found then [runId] else []))
  | .fireEvent eventKey =>
      let (rows, woken) := Waker.fireEvent eventKey s.scheduled
      ({ s with scheduled := rows }, .ok woken)
  | .dueTimers =>
      let (rows, woken) := Waker.dueTimers p .memory s.now s.scheduled
      ({ s with scheduled := rows }, woken)
  | .dueJoins =>
      let (rows, woken) := Waker.dueJoins s.results s.scheduled
      ({ s with scheduled := rows }, .ok woken)
  | .clock now => ({ s with now }, .ok [])

end WakerOp

namespace InMemoryRunWaker

variable (p : Platform)

/-- The waker after the operations, in their order. -/
def after (ops : List WakerOp) : InMemoryRunWaker := ops.foldl (fun s op => (op.perform p s).1) {}

/-- The operation claims the entry in this place. -/
def Claims (before : List WakerOp) (op : WakerOp) (j : Nat) : Prop :=
  ∃ row row', (after p before).scheduled[j]? = some row ∧ row.status = .pending ∧
    (after p (before ++ [op])).scheduled[j]? = some row' ∧ row'.status = .fired

/-- As many results of the row's run and step as it expects were saved, no two of one key. -/
def Landed (before : List WakerOp) (w : Wakeup) : Prop :=
  ∃ step, ∃ kept : List ResultEnvelope, w.condition.stepRef = some step ∧ (kept.map ResultEnvelope.idempotencyKey).Nodup ∧
    (∀ e ∈ kept, .save e ∈ before ∧ e.runId = w.runId ∧ e.stepRef = step) ∧ w.condition.expected ≤ kept.length

/-- What a row must meet for an operation to claim it. -/
def Met (before : List WakerOp) (w : Wakeup) : WakerOp → Prop
  | .satisfyResults runId stepRef => w.condition.kind = .resultsReady ∧ w.runId = runId ∧ w.condition.stepRef = some stepRef ∧
      Landed before w
  | .dueJoins => w.condition.kind = .resultsReady ∧ Landed before w
  | .fireEvent eventKey => w.condition.kind = .externalEvent ∧ w.condition.eventKey = some eventKey
  | .dueTimers => Waker.TimerMet p (after p before).now w
  | _ => False

section laws

variable {p : Platform} {before : List WakerOp} {op : WakerOp}

theorem after_snoc : after p (before ++ [op]) = (op.perform p (after p before)).1 := by
  simp only [after, List.foldl_append, List.foldl_cons, List.foldl_nil]

/-- The store has results that were saved, one a key. -/
structure Stored (ops : List WakerOp) (results : List ResultEnvelope) : Prop where
  unique : (results.map ResultEnvelope.idempotencyKey).Nodup
  saved : ∀ e ∈ results, .save e ∈ ops

theorem Stored.later {results : List ResultEnvelope} (stored : Stored before results) : Stored (before ++ [op]) results :=
  ⟨stored.unique, fun e member => List.mem_append_left _ (stored.saved e member)⟩

theorem stored_after (ops : List WakerOp) : Stored ops (after p ops).results := by
  induction ops using List.reverseRecOn with
  | nil => exact ⟨List.nodup_nil, nofun⟩
  | append_singleton ops op ih =>
      rw [after_snoc]
      cases op with
      | save envelope =>
          simp only [WakerOp.perform, ResultStore.save]
          split
          · exact ih.later
          · next new =>
              refine ⟨?_, ?_⟩
              · rw [List.map_append, List.nodup_append]
                refine ⟨ih.unique, List.nodup_singleton _, ?_⟩
                rintro _ old _ mine rfl
                obtain ⟨e, member, same⟩ := List.mem_map.mp old
                rw [List.map_cons, List.map_nil, List.mem_singleton] at mine
                apply new
                exact List.any_eq_true.mpr ⟨e, member, by simpa using same.trans mine⟩
              · intro e member
                rcases List.mem_append.mp member with old | mine
                · exact List.mem_append_left _ (ih.saved e old)
                · rw [List.mem_singleton.mp mine]
                  exact List.mem_append_right _ (List.mem_singleton_self _)
      | _ => exact ih.later

/-- Where the waker finds a join satisfied, its results have landed. -/
theorem landed_of_ready {w : Wakeup} (ready : Waker.ready (after p before).results w = true) : Landed before w := by
  unfold Waker.ready at ready
  split at ready
  · next step there =>
      have stored := stored_after (p := p) before
      refine ⟨step, ResultStore.list (after p before).results w.runId step, there, ?_, ?_, of_decide_eq_true ready⟩
      · exact stored.unique.sublist (List.filter_sublist.map _)
      · intro e member
        obtain ⟨inside, mine⟩ := List.mem_filter.mp member
        exact ⟨stored.saved e inside, of_decide_eq_true mine⟩
  · cases ready

theorem isJoin_pending {w : Wakeup} (join : Waker.isJoin w = true) : w.status = .pending ∧ w.condition.kind = .resultsReady := by
  simpa [Waker.isJoin] using join

theorem joins_iff {w : Wakeup} {runId : RunId} {stepRef : StepId} : Waker.joins runId stepRef w = true ↔
    Waker.isJoin w = true ∧ w.runId = runId ∧ w.condition.stepRef = some stepRef := by
  simp [Waker.joins, and_assoc]

/-- What `satisfy_results` claims in memory is the first join of the step. -/
theorem claimable_memory {results : List ResultEnvelope} {runId : RunId} {stepRef : StepId} {rows : List Wakeup} {w : Wakeup}
    (found : rows.find? (Waker.claimable .memory results runId stepRef rows) = some w) :
    Waker.joins runId stepRef w = true ∧ Waker.ready results w = true := by
  have here := List.find?_some found
  simp only [Waker.claimable, Bool.and_eq_true] at here
  refine ⟨here.1, ?_⟩
  have ready := here.2
  split at ready
  · next first there =>
      have same : (fun w => Waker.claimable .memory results runId stepRef rows w) = Waker.joins runId stepRef := by
        funext w
        simp only [Waker.claimable, there, ready, Bool.and_true]
      rw [show Waker.claimable .memory results runId stepRef rows = Waker.joins runId stepRef from same, there] at found
      exact Option.some.inj found ▸ ready
  · cases ready

theorem claimable_pending {results : List ResultEnvelope} {runId : RunId} {stepRef : StepId} {rows : List Wakeup} {w : Wakeup}
    (here : Waker.claimable .memory results runId stepRef rows w = true) : w.status = .pending := by
  simp only [Waker.claimable, Bool.and_eq_true] at here
  exact (isJoin_pending (joins_iff.mp here.1).1).1

theorem awaitsEvent_iff {eventKey : String} {w : Wakeup} : Waker.awaitsEvent eventKey w = true ↔
    w.status = .pending ∧ w.condition.kind = .externalEvent ∧ w.condition.eventKey = some eventKey := by
  simp [Waker.awaitsEvent, and_assoc]

theorem dueJoin_pending {results : List ResultEnvelope} {w : Wakeup}
    (due : (Waker.isJoin w && Waker.ready results w) = true) : w.status = .pending := by
  simp only [Bool.and_eq_true] at due
  exact (isJoin_pending due.1).1

/-- One operation: it fires rows that meet its condition, and what it schedules is pending. -/
theorem moves_perform (before : List WakerOp) (op : WakerOp) : ∃ rows added, (after p (before ++ [op])).scheduled = rows ++ added ∧
    Waker.Moves (fun w => Met p before w op) (after p before).scheduled rows ∧ ∀ w ∈ added, w.status = .pending := by
  rw [after_snoc]
  cases op with
  | schedule runId condition =>
      refine ⟨_, _, rfl, Waker.moves_refl, ?_⟩
      intro w member
      rw [List.mem_singleton.mp member]
  | save envelope => exact ⟨_, [], (List.append_nil _).symm, Waker.moves_refl, nofun⟩
  | satisfyResults runId stepRef =>
      refine ⟨_, [], (List.append_nil _).symm, (Waker.moves_claimFirst fun _ => claimable_pending).weaken ?_, nofun⟩
      intro w _ _ found
      obtain ⟨join, ready⟩ := claimable_memory found
      obtain ⟨isJoin, mine, step⟩ := joins_iff.mp join
      exact ⟨(isJoin_pending isJoin).2, mine, step, landed_of_ready ready⟩
  | fireEvent eventKey =>
      have pending : ∀ w, Waker.awaitsEvent eventKey w = true → w.status = .pending := fun w due => (awaitsEvent_iff.mp due).1
      refine ⟨_, [], (List.append_nil _).symm, (Waker.moves_claimAll pending).weaken ?_, nofun⟩
      exact fun w _ _ due => (awaitsEvent_iff.mp due).2
  | dueTimers => exact ⟨_, [], (List.append_nil _).symm, Waker.moves_sweepTimers, nofun⟩
  | dueJoins =>
      refine ⟨_, [], (List.append_nil _).symm, (Waker.moves_claimAll fun _ => dueJoin_pending).weaken ?_, nofun⟩
      intro w _ _ due
      simp only [Bool.and_eq_true] at due
      exact ⟨(isJoin_pending due.1).2, landed_of_ready due.2⟩
  | clock now => exact ⟨_, [], (List.append_nil _).symm, Waker.moves_refl, nofun⟩

/-- The row in a place stays in it, and an operation changes it only to claim it. -/
theorem row_moves {j : Nat} {w : Wakeup} (found : (after p before).scheduled[j]? = some w) (op : WakerOp) :
    ∃ w', (after p (before ++ [op])).scheduled[j]? = some w' ∧ (w' = w ∨ w.status = .pending ∧ Met p before w op ∧ w' = Waker.fire w) := by
  obtain ⟨rows, added, same, moves, _⟩ := moves_perform (p := p) before op
  obtain ⟨w', there, moved⟩ := moves.get found
  refine ⟨w', ?_, moved⟩
  rw [same, List.getElem?_append_left (List.getElem?_eq_some_iff.mp there).1]
  exact there

/-- A row that is fired stays so. -/
theorem fired_later {j : Nat} {w : Wakeup} (found : (after p before).scheduled[j]? = some w) (fired : w.status = .fired)
    (ops : List WakerOp) : ∃ w', (after p (before ++ ops)).scheduled[j]? = some w' ∧ w'.status = .fired := by
  induction ops using List.reverseRecOn with
  | nil =>
      rw [List.append_nil]
      exact ⟨w, found, fired⟩
  | append_singleton ops op ih =>
      obtain ⟨w₁, there, fired₁⟩ := ih
      obtain ⟨w₂, next, same | ⟨pending, _⟩⟩ := row_moves there op
      · rw [← List.append_assoc]
        exact ⟨w₂, next, same ▸ fired₁⟩
      · cases pending.symm.trans fired₁

/-- The runs an operation names are those of the rows it claims. -/
theorem named_claimed {woken : List RunId} (answered : (op.perform p (after p before)).2 = .ok woken) :
    Waker.claimed (after p before).scheduled (after p (before ++ [op])).scheduled = woken := by
  rw [after_snoc]
  cases op with
  | schedule runId condition =>
      cases answered
      change Waker.claimed _ (_ ++ _) = []
      rw [Waker.claimed, ← List.append_nil (after p before).scheduled, List.append_assoc, List.zip_append rfl, List.zip_nil_left,
        List.append_nil]
      exact Waker.claimed_self
  | save envelope =>
      cases answered
      exact Waker.claimed_self
  | satisfyResults runId stepRef =>
      cases answered
      refine (Waker.claimed_claimFirst fun _ => claimable_pending).trans ?_
      cases found : (after p before).scheduled.find? (Waker.claimable .memory (after p before).results runId stepRef (after p before).scheduled) with
      | none =>
          rw [if_neg]
          · rfl
          · rw [Bool.not_eq_true, List.any_eq_false]
            exact List.find?_eq_none.mp found
      | some w =>
          rw [if_pos (List.any_eq_true.mpr ⟨w, List.mem_of_find?_eq_some found, List.find?_some found⟩)]
          simp only [Option.map_some, Option.toList_some, (joins_iff.mp (claimable_memory found).1).2.1]
  | fireEvent eventKey =>
      cases answered
      exact Waker.claimed_claimAll fun w due => (awaitsEvent_iff.mp due).1
  | dueTimers => exact Waker.claimed_sweepTimers answered
  | dueJoins =>
      cases answered
      exact Waker.claimed_claimAll fun _ => dueJoin_pending
  | clock now =>
      cases answered
      exact Waker.claimed_self

/-- Whatever operations there are and in whatever order: no entry is claimed twice, one that is claimed meets the condition
of its claim, an operation names the runs it claims, and after `due_joins` no pending join is satisfied. -/
theorem claims_once (p : Platform) :
    (∀ before op mid op' j, Claims p before op j → ¬ Claims p (before ++ op :: mid) op' j) ∧
    (∀ before op j, Claims p before op j → ∃ row, (after p before).scheduled[j]? = some row ∧ Met p before row op) ∧
    (∀ before op woken, (op.perform p (after p before)).2 = .ok woken →
      Waker.claimed (after p before).scheduled (after p (before ++ [op])).scheduled = woken) ∧
    (∀ before, ∀ row ∈ (after p (before ++ [.dueJoins])).scheduled, row.status = .pending → row.condition.kind = .resultsReady →
      ∀ step, row.condition.stepRef = some step →
        ResultStore.count (after p (before ++ [.dueJoins])).results row.runId step < row.condition.expected) := by
  refine ⟨?_, ?_, fun _ _ _ => named_claimed, ?_⟩
  · rintro before op mid op' j ⟨_, row', _, _, there, fired⟩ ⟨row₂, _, found, pending, _⟩
    obtain ⟨w, later, still⟩ := fired_later there fired mid
    rw [List.append_assoc, List.singleton_append, found] at later
    cases later
    cases pending.symm.trans still
  · rintro before op j ⟨row, row', found, pending, there, fired⟩
    obtain ⟨w, next, same | ⟨_, met, _⟩⟩ := row_moves found op
    · rw [there] at next
      cases next
      cases pending.symm.trans (same ▸ fired)
    · exact ⟨row, found, met⟩
  · intro before row member pending joins step ref
    rw [after_snoc] at member ⊢
    obtain ⟨w, _, rfl⟩ := List.mem_map.mp member
    split at pending
    · cases pending
    · next unready =>
        rw [if_neg unready] at joins ref ⊢
        simp only [Bool.and_eq_true, not_and, Bool.not_eq_true] at unready
        have waits := unready (by simp [Waker.isJoin, pending, joins])
        simp only [Waker.ready, ref, decide_eq_false_iff_not, not_le] at waits
        exact waits

end laws

end InMemoryRunWaker

end Maof
