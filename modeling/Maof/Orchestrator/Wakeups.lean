import Maof.Orchestrator.Cancellation

/-!
# Wakeups

Claiming a join, resuming its run and scheduling the next join are separate
calls, and a redelivered result is dropped as a duplicate. A join survives as
long as whoever took the run over gets to the end of it.
-/

namespace Maof

open Effects (Prog Machine Pool Proc Label)

namespace World

/-- The run has a terminal status. -/
def ended (w : World) (r : RunId) : Bool := (w.statusOf r).any RunStatus.terminal

/-- The run is at a checkpoint taken to wait for results, and has not ended. -/
def awaitsJoin (w : World) (r : RunId) : Bool :=
  ((w.checkpoints r).any fun kept => kept.1 = joinLabel) && !w.ended r

/-- A pending join is scheduled for the run. -/
def Joins (w : World) (r : RunId) : Prop := ∃ row ∈ w.wakeups, row.runId = r ∧ Waker.isJoin row

end World

namespace Waker

variable {p : Platform} {b : Backend} {results : List ResultEnvelope} {r : RunId}

/-- Firing some rows leaves the others. -/
theorem mem_claimAll {q : Wakeup → Bool} {row : Wakeup} {rows : List Wakeup} (member : row ∈ rows)
    (spared : q row = false) : row ∈ (claimAll q rows).1 :=
  List.mem_map.mpr ⟨row, member, by simp [spared]⟩

theorem mem_claimAll_due {q : Wakeup → Bool} {row : Wakeup} {rows : List Wakeup}
    (member : row ∈ rows) (fired : q row = true) : row.runId ∈ (claimAll q rows).2 :=
  List.mem_map_of_mem (List.mem_filter.mpr ⟨member, fired⟩)

theorem mem_claimFirst {q : Wakeup → Bool} {row : Wakeup} {rows : List Wakeup} (member : row ∈ rows)
    (spared : q row = false) : row ∈ claimFirst q rows := by
  induction rows with
  | nil => cases member
  | cons w rows ih =>
      simp only [claimFirst]
      rcases List.mem_cons.mp member with rfl | later
      · simp [spared]
      · split
        · exact List.mem_cons_of_mem _ later
        · exact List.mem_cons_of_mem _ (ih later)

/-- Nothing is fired where nothing qualifies. -/
theorem claimFirst_none {q : Wakeup → Bool} {rows : List Wakeup} (h : rows.any q = false) :
    claimFirst q rows = rows := by
  induction rows with
  | nil => rfl
  | cons w rows ih =>
      simp only [List.any_cons, Bool.or_eq_false_iff] at h
      simp only [claimFirst, h.1, ih h.2, Bool.false_eq_true, if_false]

theorem claimable_joins {stepRef : StepId} {rows : List Wakeup} {row : Wakeup}
    (h : claimable b results r stepRef rows row = true) : row.runId = r := by
  have joined : joins r stepRef row = true := by
    cases b <;> simp only [claimable, Bool.and_eq_true] at h <;> exact h.1
  simp only [joins, Bool.and_eq_true, decide_eq_true_eq] at joined
  exact joined.1.2

theorem alarm_of_isJoin {row : Wakeup} (h : isJoin row = true) : alarm row = none := by
  simp only [isJoin, Bool.and_eq_true, decide_eq_true_eq] at h
  simp [alarm, h.2]

/-- The timer sweep leaves joins as they are. -/
theorem mem_sweepTimers {now : Int} {row : Wakeup} {rows : List Wakeup} (member : row ∈ rows)
    (join : isJoin row = true) : row ∈ (sweepTimers p now rows).1 := by
  induction rows with
  | nil => cases member
  | cons w rows ih =>
      simp only [sweepTimers]
      rcases List.mem_cons.mp member with rfl | later
      · rw [alarm_of_isJoin join]
        exact List.mem_cons_self
      · split
        · exact List.mem_cons_of_mem _ (ih later)
        · split
          · exact List.mem_cons_of_mem _ later
          · split
            · exact List.mem_cons_of_mem _ (ih later)
            · exact List.mem_cons_of_mem _ (ih later)

theorem mem_dueTimers {now : Int} {row : Wakeup} {rows : List Wakeup} (member : row ∈ rows)
    (join : isJoin row = true) : row ∈ (dueTimers p b now rows).1 := by
  cases b with
  | memory => exact mem_sweepTimers member join
  | postgres => exact mem_claimAll member (by simp [timerDue, alarm_of_isJoin join])

theorem mem_fireEvent {eventKey : String} {row : Wakeup} {rows : List Wakeup} (member : row ∈ rows)
    (join : isJoin row = true) : row ∈ (fireEvent eventKey rows).1 := by
  refine mem_claimAll member ?_
  simp only [isJoin, Bool.and_eq_true, decide_eq_true_eq] at join
  simp [awaitsEvent, join.2]

/-- Cancelling a run's wakeups leaves those of the others. -/
theorem mem_cancel {row : Wakeup} {rows : List Wakeup} (member : row ∈ rows)
    (other : b = .memory ∨ row.runId ≠ r) : row ∈ cancel b r rows := by
  cases b with
  | memory => exact member
  | postgres =>
      have spared := other.resolve_left (by rintro ⟨⟩)
      exact List.mem_map.mpr ⟨row, member, by simp [spared]⟩

end Waker

open World

/-- What one call does to the runs that wait for results: each one the caller does
not owe afterwards has its join, or waited before, unowed, and kept its join. -/
def Carries (w : World) (g : Track) (w' : World) (g' : Track) : Prop :=
  ∀ r, w'.awaitsJoin r = true → r ∉ g'.owes → w'.Joins r ∨
    (w.awaitsJoin r = true ∧ r ∉ g.owes ∧ (w.Joins r → w'.Joins r))

section carries

variable {d : Deployment} {c : Choice} {w : World} {g : Track}

theorem awaitsJoin_congr {w w' : World} {r : RunId} (saved : w'.checkpoints r = w.checkpoints r)
    (status : w'.statusOf r = w.statusOf r) : w'.awaitsJoin r = w.awaitsJoin r := by
  simp only [awaitsJoin, ended, saved, status]

theorem joins_congr {w w' : World} (rows : w'.wakeups = w.wakeups) (r : RunId) :
    w.Joins r → w'.Joins r := by
  simp only [Joins, rows, imp_self]

theorem not_ended {r : RunId} (h : w.awaitsJoin r = true) : w.ended r = false := by
  simp only [awaitsJoin, Bool.and_eq_true, Bool.not_eq_true'] at h
  exact h.2

theorem joined {r : RunId} (h : w.awaitsJoin r = true) : ∃ blob, w.checkpoints r = some (joinLabel, blob) := by
  simp only [awaitsJoin, Bool.and_eq_true, Option.any_eq_true, decide_eq_true_eq] at h
  obtain ⟨⟨label, blob⟩, found, rfl⟩ := h.1
  exact ⟨blob, found⟩

theorem mem_drop {r r' : RunId} {rs : List RunId} : r ∈ drop r' rs ↔ r ∈ rs ∧ r ≠ r' := by
  simp [drop]

/-- Calls that write neither checkpoints, statuses nor wakeups. -/
theorem still_carries {w' : World} {g' : Track} (saved : w'.checkpoints = w.checkpoints)
    (status : ∀ r, w'.ended r = false → w.ended r = false)
    (owes : ∀ r, r ∈ g.owes → r ∈ g'.owes) (rows : ∀ r, r ∉ g'.owes → w.Joins r → w'.Joins r) :
    Carries w g w' g' := by
  intro r awaits unowed
  refine .inr ⟨?_, fun owed => unowed (owes r owed), rows r unowed⟩
  have going := status r (not_ended awaits)
  simp only [awaitsJoin, saved, Bool.and_eq_true] at awaits
  simp only [awaitsJoin, awaits.1, going, Bool.not_false, Bool.and_self]

theorem statusOf_setState_ne {r r' : RunId} (s : RunStatus) (other : r' ≠ r) :
    (perform d c w (.setState r s)).1.statusOf r' = w.statusOf r' := by
  rcases perform_setState d c w r s with same | same <;> rw [same]
  exact statusOf_setRun_ne _ _ other

/-- A status write: `RUNNING` takes the run over, and a last status ends what is owed. -/
theorem setState_carries {r : RunId} {s : RunStatus}
    (met : s = .running ∨ ∃ t, w.statusOf r = some t ∧ (s.terminal = true ∨ t.terminal = false)) :
    Carries w g (perform d c w (.setState r s)).1
      (Track.mark g (.setState r s) (perform d c w (.setState r s)).2) := by
  have saved : (perform d c w (.setState r s)).1.checkpoints = w.checkpoints :=
    perform_checkpoints (by rintro _ _ _ ⟨⟩)
  have rows : (perform d c w (.setState r s)).1.wakeups = w.wakeups := perform_wakeups rfl
  intro x awaits unowed
  refine .inr ?_
  by_cases mine : x = r
  · subst mine
    by_cases opening : s = .running
    · subst opening
      refine absurd ?_ unowed
      cases (perform d c w (.setState x .running)).2 <;> simp [Track.mark]
    · obtain ⟨t, there, ends⟩ := met.resolve_left opening
      have going := not_ended awaits
      -- a terminal status was not written
      have before : w.ended x = false := by
        rcases ends with terminal | going'
        · rcases perform_setState d c w x s with same | written
          · rwa [same] at going
          · rw [written, ended, statusOf_setRun, if_pos rfl] at going
            cases row : w.runs x with
            | none => simp [statusOf, row] at there
            | some st => simp [row, terminal] at going
        · simpa only [ended, there, Option.any_some] using going'
      refine ⟨?_, fun owed => unowed ?_, joins_congr rows x⟩
      · obtain ⟨blob, found⟩ := joined awaits
        rw [saved] at found
        simp only [awaitsJoin, found, Option.any_some, decide_true, before, Bool.not_false, Bool.and_self]
      · cases reply : (perform d c w (.setState x s)).2 with
        | error e => simpa only [Track.mark, if_neg opening] using owed
        | ok u =>
            have landed := congrArg Prod.fst (perform_ok reply)
            cases last : s.terminal with
            | false => simpa [Track.mark, opening, last] using owed
            | true =>
                -- the write took effect, so the run has ended
                exfalso
                rw [landed, ended] at going
                cases row : w.runs x with
                | none => simp [statusOf, row] at there
                | some st =>
                    cases backend : d.backend <;>
                      simp [effect, row, backend, statusOf_setRun, last] at going
  · refine ⟨?_, fun owed => unowed ?_, joins_congr rows x⟩
    · rwa [awaitsJoin_congr (congrFun saved x) (statusOf_setState_ne s mine)] at awaits
    · cases (perform d c w (.setState r s)).2 <;> simp only [Track.mark] <;> split
      · exact List.mem_append_left _ owed
      · exact owed
      · exact List.mem_append_left _ owed
      · split
        · exact mem_drop.mpr ⟨owed, mine⟩
        · exact owed

/-- A checkpoint at a join is owed the join; any other no longer waits for one. -/
theorem save_carries {r : RunId} {label : String} {blob : Json} :
    Carries w g (perform d c w (.save r label blob)).1
      (Track.mark g (.save r label blob) (perform d c w (.save r label blob)).2) := by
  have status : ∀ x, (perform d c w (.save r label blob)).1.statusOf x = w.statusOf x := by
    intro x
    simp only [statusOf, perform_runs (show writesRun (.save r label blob) = false from rfl)]
  have rows : (perform d c w (.save r label blob)).1.wakeups = w.wakeups := perform_wakeups rfl
  intro x awaits unowed
  by_cases join : label = joinLabel
  · simp only [Track.mark, if_pos join, List.mem_append, List.mem_singleton, not_or] at unowed
    refine .inr ⟨?_, unowed.1, joins_congr rows x⟩
    rcases perform_save d c w r label blob with same | same
    · rwa [same] at awaits
    · rwa [awaitsJoin_congr (by rw [same]; exact Function.update_of_ne unowed.2 _ _) (status x)] at awaits
  · by_cases mine : x = r
    · subst mine
      rcases perform_save d c w x label blob with same | same
      · -- the write had no effect, so the call did not answer
        have failed : ∀ u, (perform d c w (.save x label blob)).2 ≠ .ok u := by
          intro u reply
          obtain ⟨blob', found⟩ := joined awaits
          rw [perform_ok reply] at found
          simp only [effect, Function.update_self, Option.some.injEq, Prod.mk.injEq] at found
          exact join found.1
        refine .inr ⟨by rwa [same] at awaits, fun owed => unowed ?_, joins_congr rows x⟩
        cases reply : (perform d c w (.save x label blob)).2 with
        | ok u => exact absurd reply (failed u)
        | error e => simpa only [Track.mark, if_neg join] using owed
      · obtain ⟨blob', found⟩ := joined awaits
        rw [same] at found
        simp only [Function.update_self, Option.some.injEq, Prod.mk.injEq] at found
        exact absurd found.1 join
    · refine .inr ⟨?_, fun owed => unowed ?_, joins_congr rows x⟩
      · rcases perform_save d c w r label blob with same | same
        · rwa [same] at awaits
        · rwa [awaitsJoin_congr (by rw [same]; exact Function.update_of_ne mine _ _) (status x)] at awaits
      · cases (perform d c w (.save r label blob)).2 with
        | ok u => simpa only [Track.mark, if_neg join] using mem_drop.mpr ⟨owed, mine⟩
        | error e => simpa only [Track.mark, if_neg join] using owed

/-- A scheduled join is what was owed. -/
theorem schedule_carries {r : RunId} {condition : WakeCondition} {gate : Option StepId} :
    Carries w g (perform d c w (.schedule r condition gate)).1
      (Track.mark g (.schedule r condition gate) (perform d c w (.schedule r condition gate)).2) := by
  have saved : (perform d c w (.schedule r condition gate)).1.checkpoints = w.checkpoints :=
    perform_checkpoints (by rintro _ _ _ ⟨⟩)
  have runs : (perform d c w (.schedule r condition gate)).1.runs = w.runs := perform_runs rfl
  have more : ∀ x, w.Joins x → (perform d c w (.schedule r condition gate)).1.Joins x := by
    rintro x ⟨row, member, mine⟩
    rcases perform_schedule d c w r condition gate with same | same <;> rw [same]
    · exact ⟨row, member, mine⟩
    · exact ⟨row, List.mem_append_left _ member, mine⟩
  have same : ∀ x, (perform d c w (.schedule r condition gate)).1.awaitsJoin x = w.awaitsJoin x :=
    fun x => awaitsJoin_congr (congrFun saved x) (by simp only [statusOf, runs])
  intro x awaits unowed
  rw [same] at awaits
  cases reply : (perform d c w (.schedule r condition gate)).2 with
  | error e =>
      rw [reply] at unowed
      exact .inr ⟨awaits, unowed, more x⟩
  | ok u =>
      rw [reply] at unowed
      by_cases join : condition.kind = .resultsReady
      · simp only [Track.mark, if_pos join, mem_drop, not_and, not_not] at unowed
        by_cases owed : x ∈ g.owes
        · obtain rfl := unowed owed
          have landed := congrArg Prod.fst (perform_ok reply)
          refine .inl ⟨{ runId := x, condition, gate }, ?_, rfl, by simp [Waker.isJoin, join]⟩
          rw [landed]
          have answered : (effect d c w true (.schedule x condition gate)).2 = .ok u :=
            (congrArg Prod.snd (perform_ok reply)).symm.trans reply
          simp only [effect] at answered ⊢
          split
          · next rows scheduled =>
              rw [Waker.mem_schedule scheduled]
              exact List.mem_append_right _ List.mem_cons_self
          · next e failed =>
              rw [failed] at answered
              cases answered
        · exact .inr ⟨awaits, owed, more x⟩
      · simp only [Track.mark, if_neg join] at unowed
        exact .inr ⟨awaits, unowed, more x⟩

theorem ended_of_runs {w' : World} (runs : w'.runs = w.runs) (r : RunId) (h : w'.ended r = false) :
    w.ended r = false := by
  simpa only [ended, statusOf, runs] using h

/-- A claimed join is owed to the claimant, as long as the claim is not lost. -/
theorem satisfyResults_carries {r : RunId} {stepRef : StepId}
    (heard : c.fault = none ∨ c.refused = true) :
    Carries w g (perform d c w (.satisfyResults r stepRef)).1
      (Track.mark g (.satisfyResults r stepRef) (perform d c w (.satisfyResults r stepRef)).2) := by
  rcases heard with landed | refused
  · simp only [perform, landed, effect, Waker.satisfyResults]
    cases claimed : w.wakeups.any (Waker.claimable d.backend w.results r stepRef w.wakeups) with
    | false =>
        rw [Waker.claimFirst_none claimed]
        exact still_carries rfl (fun _ => id) (fun _ => id) fun _ _ => id
    | true =>
        refine still_carries rfl (fun _ => id) (fun x owed => List.mem_append_left _ owed)
          fun x unowed joins => ?_
        obtain ⟨row, member, mine, join⟩ := joins
        simp only [Track.mark, List.mem_append, List.mem_singleton, not_or] at unowed
        refine ⟨row, Waker.mem_claimFirst member ?_, mine, join⟩
        by_contra fired
        exact unowed.2 (mine.symm.trans (Waker.claimable_joins (by simpa using fired)))
  · obtain ⟨e, same⟩ := perform_refused (d := d) (w := w) (.satisfyResults r stepRef) refused
    rw [same]
    exact still_carries rfl (fun _ => id) (fun _ => id) fun _ _ => id

theorem dueJoins_carries (heard : c.fault = none ∨ c.refused = true) :
    Carries w g (perform d c w .dueJoins).1 (Track.mark g .dueJoins (perform d c w .dueJoins).2) := by
  rcases heard with landed | refused
  · simp only [perform, landed, effect]
    refine still_carries rfl (fun _ => id) (fun x owed => List.mem_append_left _ owed)
      fun x unowed joins => ?_
    obtain ⟨row, member, mine, join⟩ := joins
    simp only [Track.mark, List.mem_append, not_or] at unowed
    refine ⟨row, Waker.mem_claimAll member ?_, mine, join⟩
    by_contra fired
    exact unowed.2 (mine ▸ Waker.mem_claimAll_due member (by simpa using fired))
  · obtain ⟨e, same⟩ := perform_refused (d := d) (w := w) .dueJoins refused
    rw [same]
    exact still_carries rfl (fun _ => id) (fun _ => id) fun _ _ => id

/-- The other sweeps leave the joins, and a cancellation leaves the joins of other runs. -/
theorem dueTimers_carries :
    Carries w g (perform d c w .dueTimers).1 (Track.mark g .dueTimers (perform d c w .dueTimers).2) := by
  refine still_carries (perform_checkpoints (by rintro _ _ _ ⟨⟩))
    (ended_of_runs (perform_runs rfl)) (fun _ => id) fun x _ joins => ?_
  obtain ⟨row, member, mine, join⟩ := joins
  rcases perform_world d c w .dueTimers with same | ⟨record, same⟩ <;> rw [same]
  · exact ⟨row, member, mine, join⟩
  · exact ⟨row, Waker.mem_dueTimers member join, mine, join⟩

theorem fireEvent_carries {eventKey : String} :
    Carries w g (perform d c w (.fireEvent eventKey)).1
      (Track.mark g (.fireEvent eventKey) (perform d c w (.fireEvent eventKey)).2) := by
  refine still_carries (perform_checkpoints (by rintro _ _ _ ⟨⟩))
    (ended_of_runs (perform_runs rfl)) (fun _ => id) fun x _ joins => ?_
  obtain ⟨row, member, mine, join⟩ := joins
  rcases perform_world d c w (.fireEvent eventKey) with same | ⟨record, same⟩ <;> rw [same]
  · exact ⟨row, member, mine, join⟩
  · exact ⟨row, Waker.mem_fireEvent member join, mine, join⟩

theorem cancelWakeups_carries {r : RunId} (met : d.backend = .memory ∨ w.ended r = true) :
    Carries w g (perform d c w (.cancelWakeups r)).1
      (Track.mark g (.cancelWakeups r) (perform d c w (.cancelWakeups r)).2) := by
  have saved : (perform d c w (.cancelWakeups r)).1.checkpoints = w.checkpoints :=
    perform_checkpoints (by rintro _ _ _ ⟨⟩)
  have runs : (perform d c w (.cancelWakeups r)).1.runs = w.runs := perform_runs rfl
  intro x awaits unowed
  rw [awaitsJoin_congr (congrFun saved x) (by simp only [statusOf, runs])] at awaits
  refine .inr ⟨awaits, unowed, fun joins => ?_⟩
  obtain ⟨row, member, mine, join⟩ := joins
  rcases perform_world d c w (.cancelWakeups r) with same | ⟨record, same⟩ <;> rw [same]
  · exact ⟨row, member, mine, join⟩
  · refine ⟨row, Waker.mem_cancel member (met.imp_right fun ended other => ?_), mine, join⟩
    rw [← mine, other] at awaits
    rw [not_ended awaits] at ended
    cases ended

theorem finalize_carries {r : RunId} :
    Carries w g (perform d c w (.finalizeCancel r)).1
      (Track.mark g (.finalizeCancel r) (perform d c w (.finalizeCancel r)).2) := by
  refine still_carries (perform_checkpoints (by rintro _ _ _ ⟨⟩)) (fun x going => ?_) (fun x owed => ?_)
    fun x _ => joins_congr (perform_wakeups rfl) x
  · rcases perform_finalize d c w r with same | same <;> rw [same] at going
    · exact going
    · rw [ended, statusOf_setRun] at going
      split at going
      · next mine =>
          subst mine
          cases row : w.runs x with
          | none => simp [ended, statusOf, row]
          | some st => simp [row, RunStatus.terminal] at going
      · exact going
  · cases (perform d c w (.finalizeCancel r)).2 <;> exact owed

/-- Calls that write neither checkpoints, statuses nor wakeups, and owe nothing new. -/
theorem plain_carries {op : Op} (save : ∀ r label blob, op ≠ .save r label blob)
    (state : ∀ r s, op ≠ .setState r s) (final : ∀ r, op ≠ .finalizeCancel r)
    (rows : writesWakeups op = false)
    (owes : ∀ reply, (Track.mark g op reply).owes = g.owes) :
    Carries w g (perform d c w op).1 (Track.mark g op (perform d c w op).2) := by
  refine still_carries (perform_checkpoints save) (fun x going => ?_)
    (fun x owed => by rwa [owes]) fun x _ => joins_congr (perform_wakeups rows) x
  cases there : w.statusOf x with
  | none => simp only [ended, there, Option.any_none]
  | some s => rwa [ended, statusOf_keeps state final there, ← there] at going

end carries

/-- Process `i` has taken the run over and has neither rearmed nor finished it. -/
def Owed (p : Pool RunSig World Track) (r : RunId) : Prop :=
  ∃ (i : Nat) (b : Proc RunSig Track), p.procs[i]? = some b ∧ b.live = true ∧ r ∈ b.tag.owes

def owing (p : Pool RunSig World Track) (r : RunId) : Bool :=
  p.procs.any fun b => b.live && decide (r ∈ b.tag.owes)

namespace Orchestrator

/-- Process `i` ends by raising while a run it owes waits for its join. -/
def strands (o : Orchestrator) (p : Pool RunSig World Track) (i : Nat) (c : Choice) : Bool :=
  match o.tracked.step p (.run i c) with
  | some q => match q.procs[i]? with
      | some ⟨.ret (.error _), g⟩ => g.owes.any q.world.awaitsJoin
      | _ => false
  | none => false

/-- Nobody who owes a join raises or is killed, the answer to a claim is not lost,
no status but `RUNNING` replaces a terminal one, and only an ended run's wakeups are cancelled. -/
def careful (o : Orchestrator) (p : Pool RunSig World Track) : Label Choice Actor EnvMove → Bool
  | .kill i => match p.procs[i]? with
      | some ⟨.call _ _, g⟩ => !g.owes.any p.world.awaitsJoin
      | _ => true
  | .run i c => !o.strands p i c && match p.next i with
      | some (.satisfyResults _ _) | some .dueJoins => c.fault.isNone || c.refused
      | some (.setState r s) => decide (s = .running) ||
          (p.world.statusOf r).any fun t => s.terminal || !t.terminal
      | some (.cancelWakeups r) => decide (o.deployment.backend = .memory) || p.world.ended r
      | _ => true
  | _ => true

end Orchestrator

/-- Every run that waits for results has a pending join, or somebody owes it one. -/
def Covered (p : Pool RunSig World Track) : Prop :=
  ∀ r, p.world.awaitsJoin r = true → p.world.Joins r ∨ Owed p r

section steps

variable {o : Orchestrator} {p : Pool RunSig World Track} {i : Nat} {c : Choice} {g : Track}

theorem mark_owes_plain {op : Op} (state : ∀ r s, op ≠ .setState r s)
    (save : ∀ r label blob, op ≠ .save r label blob)
    (rows : writesWakeups op = false) (reply : Except Exn op.Ans) :
    (Track.mark g op reply).owes = g.owes := by
  cases op with
  | setState r s => exact absurd rfl (state r s)
  | save r label blob => exact absurd rfl (save r label blob)
  | schedule _ _ _ => cases rows
  | satisfyResults _ _ => cases rows
  | dueTimers => cases rows
  | dueJoins => cases rows
  | fireEvent _ => cases rows
  | cancelWakeups _ => cases rows
  | _ => cases reply <;> rfl

/-- One call under the condition. -/
theorem call_carries {op : Op} {k : Except Exn op.Ans → Prog RunSig (Except Exn Unit)}
    (found : p.procs[i]? = some ⟨.call op k, g⟩) (met : o.careful p (.run i c) = true) :
    Carries p.world g (perform o.deployment c p.world op).1
      (Track.mark g op (perform o.deployment c p.world op).2) := by
  simp only [Orchestrator.careful, Pool.next_eq found, Bool.and_eq_true] at met
  replace met := met.2
  cases op with
  | save r label blob => exact save_carries
  | setState r s =>
      refine setState_carries ?_
      simpa [Option.any_eq_true] using met
  | schedule r condition gate => exact schedule_carries
  | satisfyResults r stepRef => exact satisfyResults_carries (by simpa using met)
  | dueJoins => exact dueJoins_carries (by simpa using met)
  | dueTimers => exact dueTimers_carries
  | fireEvent eventKey => exact fireEvent_carries
  | cancelWakeups r => exact cancelWakeups_carries (by simpa using met)
  | finalizeCancel r => exact finalize_carries
  | _ =>
      refine plain_carries ?_ ?_ ?_ rfl (mark_owes_plain ?_ ?_ rfl)
      all_goals intros; intro same; cases same

theorem Owed.set {b : Proc RunSig Track} {w : World} {r : RunId} (owed : Owed p r)
    (mine : ∀ b', p.procs[i]? = some b' → b'.live = true → r ∉ b'.tag.owes) :
    Owed ⟨w, p.procs.set i b⟩ r := by
  obtain ⟨j, b', found, live, owes⟩ := owed
  have other : j ≠ i := by
    rintro rfl
    exact mine b' found live owes
  exact ⟨j, b', by rwa [List.getElem?_set_ne other.symm], live, owes⟩

theorem step_covered (armed : Armed o.l1) {q : Pool RunSig World Track}
    {l : Label Choice Actor EnvMove} (kept : o.Kept p) (covered : Covered p)
    (met : o.careful p l = true) (h : o.tracked.step p l = some q) : Covered q := by
  have stepped := h
  rcases Machine.step_cases h with ⟨a, rfl, rfl⟩ | ⟨i, c, op, k, g, rfl, found, rfl⟩ |
    ⟨i, b, rfl, found, rfl⟩ | ⟨e, rfl, rfl⟩
  · intro r awaits
    refine (covered r awaits).imp_right fun ⟨j, b, found, live, owes⟩ => ⟨j, b, ?_, live, owes⟩
    rwa [List.getElem?_append_left (List.getElem?_eq_some_iff.mp found).1]
  · intro r awaits
    have inside : i < p.procs.length := (List.getElem?_eq_some_iff.mp found).1
    have carries := call_carries found met
    by_cases owes : r ∈ (Track.mark g op (perform o.deployment c p.world op).2).owes
    · -- the process that owes the run is still running
      refine .inr ⟨i, _, List.getElem?_set_self inside, ?_, owes⟩
      rcases kept.moved (c := c) found with live | ⟨e, ended⟩ | settled
      · exact live
      · exfalso
        simp only [Orchestrator.careful, Bool.and_eq_true, Bool.not_eq_true'] at met
        have last : (p.procs.set i ⟨k (perform o.deployment c p.world op).2,
            Track.mark g op (perform o.deployment c p.world op).2⟩)[i]? =
            some ⟨.ret (.error e), Track.mark g op (perform o.deployment c p.world op).2⟩ := by
          rw [List.getElem?_set_self inside, ended]
        have stranded : o.strands p i c = true := by
          simp only [Orchestrator.strands, stepped]
          split
          · next e' g' last' =>
              cases last.symm.trans last'
              exact List.any_eq_true.mpr ⟨r, owes, awaits⟩
          · next other => exact absurd last (other e _)
        rw [stranded] at met
        cases met.1
      · rw [(settled () rfl).2.2 armed] at owes
        cases owes
    · rcases carries r awaits owes with joins | ⟨before, unowed, joins⟩
      · exact .inl joins
      · refine (covered r before).imp joins fun owed => owed.set fun b' found' _ => ?_
        rw [found] at found'
        cases found'
        exact unowed
  · intro r awaits
    refine (covered r awaits).imp_right fun owed => owed.set ?_
    rintro ⟨prog, g⟩ found' live owes
    cases prog with
    | ret out => cases live
    | call op k =>
        simp only [Orchestrator.careful, found', Bool.not_eq_true'] at met
        have stranded := List.any_eq_true.mpr ⟨r, owes, awaits⟩
        exact absurd (stranded.symm.trans met) (by decide)
  · cases e <;> exact covered

theorem run_covered (armed : Armed o.l1) {q : Pool RunSig World Track}
    (run : Machine.Run o.tracked o.careful p q) (kept : o.Kept p) (covered : Covered p) :
    o.Kept q ∧ Covered q :=
  run.invariant (I := fun p => o.Kept p ∧ Covered p) ⟨kept, covered⟩ fun _ _ _ held met step =>
    ⟨Orchestrator.step_kept held.1 step, step_covered armed held.1 held.2 met step⟩

end steps

/-- Under the condition, a run at the checkpoint of a join that nobody is resuming
has a pending join, which the next sweep claims once its results are there. -/
theorem join_not_lost (o : Orchestrator) (armed : Armed o.l1) (registry : List RegistryEntry)
    (rulesets : String → String → Option LoadedRuleset) (clock : Int) {p : Pool RunSig World Track}
    (run : Machine.Run o.tracked o.careful
      (Orchestrator.start Track (World.fresh registry rulesets clock)) p) {r : RunId}
    (parked : p.world.awaitsJoin r = true) (idle : owing p r = false) :
    ∃ row ∈ p.world.wakeups, row.runId = r ∧ Waker.isJoin row = true ∧
      (Waker.ready p.world.results row = true →
        r ∈ (Waker.dueJoins p.world.results p.world.wakeups).2) := by
  have fresh : Covered (Orchestrator.start Track (World.fresh registry rulesets clock)) := by
    intro r awaits
    simp [Orchestrator.start, World.fresh, awaitsJoin] at awaits
  rcases (run_covered armed run Orchestrator.kept_fresh fresh).2 r parked with
    ⟨row, member, mine, join⟩ | ⟨j, b, found, live, owes⟩
  · refine ⟨row, member, mine, join, fun ready => ?_⟩
    rw [← mine]
    exact Waker.mem_claimAll_due member (by simp [join, ready])
  · have owed : owing p r = true :=
      List.any_eq_true.mpr ⟨b, List.mem_of_getElem? found, by simp [live, owes]⟩
    rw [owed] at idle
    cases idle

namespace Sample

/-- Process `i` makes a call that fails before it does anything. -/
def fails (i : Nat) : Effects.Label Choice Actor EnvMove :=
  .run i { fault := some (.before, .external "connection lost") }

end Sample

/-- Nobody is killed, and a call that fails did nothing. -/
def mild (_ : Pool RunSig World Track) : Label Choice Actor EnvMove → Bool
  | .kill _ => false
  | .run _ c => c.fault.isNone || c.refused
  | _ => true

open Sample in
/-- The claim of a delivery fails: its join is still there for the sweep. -/
theorem join_not_lost_unclaimed : ∃ p : Pool RunSig World Track,
    p.world.awaitsJoin "r" = true ∧ "r" ∈ (Waker.dueJoins p.world.results p.world.wakeups).2 := by
  obtain ⟨p, run, met⟩ := Machine.follow_any (orchestrator single).tracked
    (orchestrator single).careful
    (Orchestrator.start Track (World.fresh [] (fun _ _ => none) 0))
    ([.spawn (.run "g" tenant none)] ++ calls 0 12 ++
      [.spawn (.handle (resultOf "a"))] ++ calls 1 1 ++ [fails 1])
    (fun p => p.world.awaitsJoin "r" && !owing p "r" &&
      p.world.wakeups.all fun row => Waker.ready p.world.results row)
    (by decide +kernel)
  simp only [Bool.and_eq_true, Bool.not_eq_true', List.all_eq_true] at met
  obtain ⟨⟨parked, idle⟩, ready⟩ := met
  obtain ⟨row, member, _, _, due⟩ := join_not_lost _ ⟨rfl, rfl⟩ _ _ _ run parked idle
  exact ⟨p, parked, due (ready row member)⟩

open Sample in
/-- The resumption fails at its first call: the redelivered result is dropped as
a duplicate, and the sweep finds the join fired. -/
theorem claimed_join_lost : ¬ ∀ (o : Orchestrator), Armed o.l1 → ∀ (registry : List RegistryEntry)
    (rulesets : String → String → Option LoadedRuleset) (clock : Int) (p : Pool RunSig World Track),
    Machine.Run o.tracked mild (Orchestrator.start Track (World.fresh registry rulesets clock)) p →
    ∀ r, p.world.statusOf r = some .waiting → p.world.awaitsJoin r = true → owing p r = false →
      (∃ row ∈ p.world.wakeups, row.runId = r ∧ Waker.ready p.world.results row = true) →
      ∃ row ∈ p.world.wakeups, row.runId = r ∧ Waker.isJoin row = true := by
  intro found
  obtain ⟨p, run, met⟩ := Machine.follow_any (orchestrator single).tracked mild
    (Orchestrator.start Track (World.fresh [] (fun _ _ => none) 0))
    ([.spawn (.run "g" tenant none)] ++ calls 0 12 ++
      [.spawn (.handle (resultOf "a"))] ++ calls 1 2 ++ [fails 1] ++
      [.spawn (.handle (resultOf "a"))] ++ calls 2 1 ++ [.spawn .tick] ++ calls 3 2)
    (fun p => decide (p.world.statusOf "r" = some .waiting) && p.world.awaitsJoin "r" &&
      !owing p "r" && (p.world.wakeups.any fun row => decide (row.runId = "r") &&
        Waker.ready p.world.results row) && !p.world.wakeups.any Waker.isJoin)
    (by decide +kernel)
  simp only [Bool.and_eq_true, Bool.not_eq_true', decide_eq_true_eq, List.any_eq_true] at met
  obtain ⟨⟨⟨⟨waiting, parked⟩, idle⟩, landed⟩, fired⟩ := met
  obtain ⟨row, member, _, join⟩ := found _ ⟨rfl, rfl⟩ _ _ _ p run "r" waiting parked idle landed
  exact absurd (List.any_eq_true.mpr ⟨row, member, join⟩) (by simp [fired])

end Maof
