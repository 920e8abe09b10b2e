import Maof.Orchestrator.System

/-!
# What a call leaves alone

Each call writes its own part of the world, whatever fault it meets; the rest
stays as it was.
-/

namespace Maof

/-- The call failed before it did anything. -/
def Choice.refused (c : Choice) : Bool :=
  match c.fault with
  | some (.before, _) => true
  | _ => false

theorem Waker.mem_schedule {p : Platform} {b : Backend} {r : RunId} {condition : WakeCondition} {gate : Option StepId} {rows rows' : List Wakeup}
    (h : Waker.schedule p b r condition gate rows = .ok rows') :
    rows' = rows ++ [{ runId := r, condition, gate }] := by
  unfold Waker.schedule at h
  simp only at h
  split at h
  · split at h <;> cases h
    rfl
  · cases h
    rfl

namespace World

/-- Whatever was applied of a call, it was applied to the world before it. -/
theorem perform_world (d : Deployment) (c : Choice) (w : World) (op : Op) :
    (perform d c w op).1 = w ∨ ∃ record, (perform d c w op).1 = (effect d c w record op).1 := by
  unfold perform
  split
  · exact .inr ⟨true, rfl⟩
  · exact .inl rfl
  · exact .inr ⟨false, rfl⟩
  · exact .inr ⟨true, rfl⟩

/-- A call that answered took its effect. -/
theorem perform_ok {d : Deployment} {c : Choice} {w : World} {op : Op} {a : op.Ans}
    (h : (perform d c w op).2 = .ok a) : perform d c w op = effect d c w true op := by
  unfold perform at h ⊢
  split at h
  · simp only
  · cases h
  · cases h
  · cases h

/-- A call that answered met no fault. -/
theorem fault_none {d : Deployment} {c : Choice} {w : World} {op : Op} {a : op.Ans}
    (h : (perform d c w op).2 = .ok a) : c.fault = none := by
  unfold perform at h
  split at h
  · assumption
  · cases h
  · cases h
  · cases h

theorem perform_refused {d : Deployment} {c : Choice} {w : World} (op : Op) (h : c.refused = true) :
    ∃ e, perform d c w op = (w, .error e) := by
  unfold Choice.refused at h
  split at h
  · next fault => exact ⟨_, by simp only [perform, fault]; rfl⟩
  · cases h

theorem stageEffect_frame (d : Deployment) (c : Choice) (w : World) (info : RunInfo) (record : Bool)
    (so : StageOp) : (stageEffect d c w info record so).1.runs = w.runs ∧
      (stageEffect d c w info record so).1.checkpoints = w.checkpoints ∧
      (stageEffect d c w info record so).1.wakeups = w.wakeups ∧
      (stageEffect d c w info record so).1.results = w.results ∧
      (stageEffect d c w info record so).1.events = w.events := by
  cases so with
  | approvalWait _ _ _ => simp only [stageEffect]; split <;> exact ⟨rfl, rfl, rfl, rfl, rfl⟩
  | resolveQueue q _ => simp only [stageEffect]; split <;> exact ⟨rfl, rfl, rfl, rfl, rfl⟩
  | _ => exact ⟨rfl, rfl, rfl, rfl, rfl⟩

/-! ## Rows, statuses and flags -/

def statusOf (w : World) (r : RunId) : Option RunStatus := (w.runs r).map RunState.status

/-- The calls that write a run's row. -/
def writesRun : Op → Bool
  | .create _ _ | .setState _ _ | .requestCancel _ | .finalizeCancel _ => true
  | _ => false

theorem effect_runs {d : Deployment} {c : Choice} {w : World} {record : Bool} {op : Op}
    (h : writesRun op = false) : (effect d c w record op).1.runs = w.runs := by
  cases op with
  | create _ _ => cases h
  | setState _ _ => cases h
  | requestCancel _ => cases h
  | finalizeCancel _ => cases h
  | stage info so => exact (stageEffect_frame d c w info record so).1
  | getState _ => simp only [effect]; split <;> rfl
  | schedule _ _ _ => simp only [effect]; split <;> rfl
  | _ => rfl

theorem perform_runs {d : Deployment} {c : Choice} {w : World} {op : Op} (h : writesRun op = false) :
    (perform d c w op).1.runs = w.runs := by
  rcases perform_world d c w op with same | ⟨record, same⟩ <;> rw [same]
  exact effect_runs h

theorem statusOf_setRun (w : World) (r r' : RunId) (f : RunState → RunState) :
    (w.setRun r f).statusOf r' =
      if r' = r then (w.runs r).map fun s => (f s).status else w.statusOf r' := by
  simp only [statusOf, setRun, Function.update_apply]
  split <;> simp [Option.map_map, Function.comp_def]

/-- Another run's row is not touched. -/
theorem statusOf_setRun_ne (w : World) {r r' : RunId} (f : RunState → RunState) (other : r' ≠ r) :
    (w.setRun r f).statusOf r' = w.statusOf r' := by
  rw [statusOf_setRun, if_neg other]

theorem setState_world (d : Deployment) (c : Choice) (w : World) (record : Bool) (r : RunId)
    (s : RunStatus) : (effect d c w record (.setState r s)).1 = w ∨
      (effect d c w record (.setState r s)).1 = w.setRun r fun st => { st with status := s } := by
  simp only [effect]
  split
  · exact .inl rfl
  · exact .inr rfl

/-- What a status write does to the statuses, whether or not it faults. -/
theorem perform_setState (d : Deployment) (c : Choice) (w : World) (r : RunId) (s : RunStatus) :
    (perform d c w (.setState r s)).1 = w ∨
      (perform d c w (.setState r s)).1 = w.setRun r fun st => { st with status := s } := by
  rcases perform_world d c w (.setState r s) with same | ⟨record, same⟩
  · exact .inl same
  · rw [same]
    exact setState_world d c w record r s

theorem perform_finalize (d : Deployment) (c : Choice) (w : World) (r : RunId) :
    (perform d c w (.finalizeCancel r)).1 = w ∨
      (perform d c w (.finalizeCancel r)).1 = w.setRun r fun st => { st with status := .cancelled } := by
  rcases perform_world d c w (.finalizeCancel r) with same | ⟨record, same⟩
  · exact .inl same
  · exact .inr same

theorem perform_request (d : Deployment) (c : Choice) (w : World) (r : RunId) :
    (perform d c w (.requestCancel r)).1 = w ∨
      (perform d c w (.requestCancel r)).1 = w.setRun r fun st => { st with cancelRequested := true } := by
  rcases perform_world d c w (.requestCancel r) with same | ⟨record, same⟩
  · exact .inl same
  · exact .inr same

/-- What one call can make of a run's row. -/
inductive RowStep (r : RunId) : Op → Option RunState → Option RunState → Prop
  | kept {op : Op} {row : Option RunState} : RowStep r op row row
  | created {tenant : TenantContext} {goal : String} :
      RowStep r (.create tenant goal) none (some { tenantId := tenant.tenantId, goal })
  | written {s : RunStatus} {st : RunState} : RowStep r (.setState r s) (some st) (some { st with status := s })
  | finalized {st : RunState} :
      RowStep r (.finalizeCancel r) (some st) (some { st with status := .cancelled })
  | requested {st : RunState} :
      RowStep r (.requestCancel r) (some st) (some { st with cancelRequested := true })

theorem rowStep_setRun {op : Op} {r r' : RunId} {f : RunState → RunState} (w : World)
    (step : r = r' → ∀ st, RowStep r op (some st) (some (f st))) : RowStep r op (w.runs r) ((w.setRun r' f).runs r) := by
  simp only [setRun, Function.update_apply]
  split
  · next mine =>
      subst mine
      cases w.runs r with
      | none => exact .kept
      | some st => exact step rfl st
  · exact .kept

/-- Whatever fault it meets, a call makes no more of a row than that. -/
theorem rowStep_perform (d : Deployment) (c : Choice) (w : World) (op : Op) (r : RunId) :
    RowStep r op (w.runs r) ((perform d c w op).1.runs r) := by
  by_cases writes : writesRun op = true
  · cases op with
    | create tenant goal =>
        rcases perform_world d c w (.create tenant goal) with same | ⟨record, same⟩ <;> rw [same]
        · exact .kept
        · simp only [effect]
          split
          · exact .kept
          · next fresh =>
              by_cases mine : r = c.text
              · subst mine
                simp only [fresh, Function.update_self]
                exact .created
              · simp only [Function.update_of_ne mine]
                exact .kept
    | setState r' s =>
        rcases perform_setState d c w r' s with same | same <;> rw [same]
        · exact .kept
        · exact rowStep_setRun w fun mine st => mine ▸ .written
    | finalizeCancel r' =>
        rcases perform_finalize d c w r' with same | same <;> rw [same]
        · exact .kept
        · exact rowStep_setRun w fun mine st => mine ▸ .finalized
    | requestCancel r' =>
        rcases perform_request d c w r' with same | same <;> rw [same]
        · exact .kept
        · exact rowStep_setRun w fun mine st => mine ▸ .requested
    | _ => cases writes
  · rw [perform_runs (by simpa using writes)]
    exact .kept

/-- Only the two status writes change the status a run has. -/
theorem statusOf_keeps {d : Deployment} {c : Choice} {w : World} {op : Op}
    (plain : ∀ r s, op ≠ .setState r s) (plain' : ∀ r, op ≠ .finalizeCancel r) {r : RunId}
    {s : RunStatus} (h : w.statusOf r = some s) : (perform d c w op).1.statusOf r = some s := by
  have step := rowStep_perform d c w op r
  unfold statusOf at h ⊢
  generalize w.runs r = row, (perform d c w op).1.runs r = row' at step h ⊢
  cases step with
  | kept | requested => exact h
  | created => cases h
  | written => exact absurd rfl (plain _ _)
  | finalized => exact absurd rfl (plain' _)

/-- Nothing but the write itself makes a run completed. -/
theorem statusOf_completed {d : Deployment} {c : Choice} {w : World} {op : Op}
    (plain : ∀ r, op ≠ .setState r .completed) {r : RunId}
    (h : (perform d c w op).1.statusOf r = some .completed) : w.statusOf r = some .completed := by
  have step := rowStep_perform d c w op r
  unfold statusOf at h ⊢
  generalize w.runs r = row, (perform d c w op).1.runs r = row' at step h ⊢
  cases step with
  | kept | requested => exact h
  | created | finalized => cases h
  | written =>
      cases h
      exact absurd rfl (plain r)

/-- Cancellation of the run has been requested. -/
def flagged (w : World) (r : RunId) : Bool := (w.runs r).any RunState.cancelRequested

/-- A flag that is set stays set. -/
theorem flagged_stays {d : Deployment} {c : Choice} {w : World} {op : Op} {r : RunId} (flag : w.flagged r = true) :
    (perform d c w op).1.flagged r = true := by
  have step := rowStep_perform d c w op r
  unfold flagged at flag ⊢
  generalize w.runs r = row, (perform d c w op).1.runs r = row' at step flag ⊢
  cases step with
  | kept | written | finalized => exact flag
  | created => cases flag
  | requested => rfl

/-- Rows are never removed. -/
theorem runs_perform {d : Deployment} {c : Choice} {w : World} {op : Op} {r : RunId} (h : w.runs r ≠ none) :
    (perform d c w op).1.runs r ≠ none := by
  have step := rowStep_perform d c w op r
  generalize w.runs r = row, (perform d c w op).1.runs r = row' at step h ⊢
  cases step with
  | kept => exact h
  | created | written | finalized | requested => exact Option.some_ne_none _

/-- The calls that write wakeups. -/
def writesWakeups : Op → Bool
  | .schedule _ _ _ | .satisfyResults _ _ | .dueTimers | .dueJoins | .fireEvent _
  | .cancelWakeups _ => true
  | _ => false

theorem effect_checkpoints {d : Deployment} {c : Choice} {w : World} {record : Bool} {op : Op}
    (plain : ∀ r label blob, op ≠ .save r label blob) :
    (effect d c w record op).1.checkpoints = w.checkpoints := by
  cases op with
  | save r label blob => exact absurd rfl (plain r label blob)
  | stage info so => exact (stageEffect_frame d c w info record so).2.1
  | create _ _ => simp only [effect]; split <;> rfl
  | getState _ => simp only [effect]; split <;> rfl
  | setState _ _ => simp only [effect]; split <;> rfl
  | schedule _ _ _ => simp only [effect]; split <;> rfl
  | _ => rfl

theorem perform_checkpoints {d : Deployment} {c : Choice} {w : World} {op : Op}
    (plain : ∀ r label blob, op ≠ .save r label blob) :
    (perform d c w op).1.checkpoints = w.checkpoints := by
  rcases perform_world d c w op with same | ⟨record, same⟩ <;> rw [same]
  exact effect_checkpoints plain

theorem effect_wakeups {d : Deployment} {c : Choice} {w : World} {record : Bool} {op : Op}
    (plain : writesWakeups op = false) : (effect d c w record op).1.wakeups = w.wakeups := by
  cases op with
  | stage info so => exact (stageEffect_frame d c w info record so).2.2.1
  | create _ _ => simp only [effect]; split <;> rfl
  | getState _ => simp only [effect]; split <;> rfl
  | setState _ _ => simp only [effect]; split <;> rfl
  | schedule _ _ _ => cases plain
  | satisfyResults _ _ => cases plain
  | dueTimers => cases plain
  | dueJoins => cases plain
  | fireEvent _ => cases plain
  | cancelWakeups _ => cases plain
  | _ => rfl

theorem perform_wakeups {d : Deployment} {c : Choice} {w : World} {op : Op}
    (plain : writesWakeups op = false) : (perform d c w op).1.wakeups = w.wakeups := by
  rcases perform_world d c w op with same | ⟨record, same⟩ <;> rw [same]
  exact effect_wakeups plain

theorem perform_save (d : Deployment) (c : Choice) (w : World) (r : RunId) (label : String) (blob : Json) :
    (perform d c w (.save r label blob)).1 = w ∨ (perform d c w (.save r label blob)).1 =
      { w with checkpoints := Function.update w.checkpoints r (some (label, blob)) } := by
  rcases perform_world d c w (.save r label blob) with same | ⟨record, same⟩
  · exact .inl same
  · exact .inr same

/-- A checkpoint found after a call was there before it or is the one the call saves. -/
theorem checkpoints_from {d : Deployment} {c : Choice} {w : World} {op : Op} {r : RunId} {label : String} {blob : Json}
    (found : (perform d c w op).1.checkpoints r = some (label, blob)) :
    w.checkpoints r = some (label, blob) ∨ op = .save r label blob := by
  by_cases save : ∃ r' label' blob', op = .save r' label' blob'
  · obtain ⟨r', label', blob', rfl⟩ := save
    rcases perform_save d c w r' label' blob' with same | same <;> rw [same] at found
    · exact .inl found
    · simp only [Function.update_apply] at found
      split at found
      · next mine =>
          cases found
          exact .inr (mine ▸ rfl)
      · exact .inl found
  · rw [perform_checkpoints fun r' label' blob' same => save ⟨r', label', blob', same⟩] at found
    exact .inl found

theorem perform_schedule (d : Deployment) (c : Choice) (w : World) (r : RunId)
    (condition : WakeCondition) (gate : Option StepId) :
    (perform d c w (.schedule r condition gate)).1 = w ∨
      (perform d c w (.schedule r condition gate)).1 =
        { w with wakeups := w.wakeups ++ [{ runId := r, condition, gate }] } := by
  rcases perform_world d c w (.schedule r condition gate) with same | ⟨record, same⟩
  · exact .inl same
  · rw [same]
    simp only [effect]
    split
    · next rows scheduled =>
        rw [Waker.mem_schedule scheduled]
        exact .inr rfl
    · exact .inl rfl

theorem effect_results {d : Deployment} {c : Choice} {w : World} {record : Bool} {op : Op}
    (plain : ∀ e, op ≠ .saveResult e) :
    (effect d c w record op).1.results = w.results := by
  cases op with
  | saveResult e => exact absurd rfl (plain e)
  | stage info so => exact (stageEffect_frame d c w info record so).2.2.2.1
  | create _ _ => simp only [effect]; split <;> rfl
  | getState _ => simp only [effect]; split <;> rfl
  | setState _ _ => simp only [effect]; split <;> rfl
  | schedule _ _ _ => simp only [effect]; split <;> rfl
  | _ => rfl

theorem perform_results {d : Deployment} {c : Choice} {w : World} {op : Op}
    (plain : ∀ e, op ≠ .saveResult e) :
    (perform d c w op).1.results = w.results := by
  rcases perform_world d c w op with same | ⟨record, same⟩ <;> rw [same]
  exact effect_results plain

/-- A result in the store was there before the call or is the one the call delivers. -/
theorem results_from {d : Deployment} {c : Choice} {w : World} {op : Op} {x : ResultEnvelope}
    (member : x ∈ (perform d c w op).1.results) : x ∈ w.results ∨ op = .saveResult x := by
  by_cases delivery : ∃ e, op = .saveResult e
  · obtain ⟨e, rfl⟩ := delivery
    rcases perform_world d c w (.saveResult e) with same | ⟨record, same⟩ <;> rw [same] at member
    · exact .inl member
    · simp only [effect, ResultStore.save] at member
      split at member
      · exact .inl member
      · rcases List.mem_append.mp member with old | new
        · exact .inl old
        · exact .inr (by rw [List.mem_singleton.mp new])
  · rw [perform_results fun e same => delivery ⟨e, same⟩] at member
    exact .inl member

/-- Results are only added. -/
theorem results_perform (d : Deployment) (c : Choice) (w : World) (op : Op) :
    w.results <+: (perform d c w op).1.results := by
  by_cases delivery : ∃ e, op = .saveResult e
  · obtain ⟨e, rfl⟩ := delivery
    rcases perform_world d c w (.saveResult e) with same | ⟨record, same⟩
    · exact (congrArg World.results same).symm ▸ List.prefix_rfl
    · refine (congrArg World.results same).symm ▸ ?_
      simp only [effect, ResultStore.save]
      split
      · exact List.prefix_rfl
      · exact List.prefix_append _ _
  · have same : (perform d c w op).1.results = w.results := perform_results fun e same => delivery ⟨e, same⟩
    exact same ▸ List.prefix_rfl

/-! ## Events and publications -/

theorem effect_events {d : Deployment} {c : Choice} {w : World} {record : Bool} {op : Op}
    (plain : ∀ e, op ≠ .emit e) : (effect d c w record op).1.events = w.events := by
  cases op with
  | emit e => exact absurd rfl (plain e)
  | stage info so => exact (stageEffect_frame d c w info record so).2.2.2.2
  | create _ _ => simp only [effect]; split <;> rfl
  | getState _ => simp only [effect]; split <;> rfl
  | setState _ _ => simp only [effect]; split <;> rfl
  | schedule _ _ _ => simp only [effect]; split <;> rfl
  | _ => rfl

theorem perform_events {d : Deployment} {c : Choice} {w : World} {op : Op}
    (plain : ∀ e, op ≠ .emit e) : (perform d c w op).1.events = w.events := by
  rcases perform_world d c w op with same | ⟨record, same⟩ <;> rw [same]
  exact effect_events plain

theorem perform_emit (d : Deployment) (c : Choice) (w : World) (e : AuditEvent) :
    (perform d c w (.emit e)).1 = w ∨
      (perform d c w (.emit e)).1 = { w with events := w.events ++ [e] } := by
  rcases perform_world d c w (.emit e) with same | ⟨record, same⟩
  · exact .inl same
  · exact .inr same

/-- An event was told before the call or is the one it emits. -/
theorem events_from {d : Deployment} {c : Choice} {w : World} {op : Op} {e : AuditEvent}
    (member : e ∈ (perform d c w op).1.events) : e ∈ w.events ∨ op = .emit e := by
  by_cases emits : ∃ event, op = .emit event
  · obtain ⟨event, rfl⟩ := emits
    rcases perform_emit d c w event with same | same <;> rw [same] at member
    · exact .inl member
    · rcases List.mem_append.mp member with old | new
      · exact .inl old
      · exact .inr (by rw [List.mem_singleton.mp new])
  · rw [perform_events fun event same => emits ⟨event, same⟩] at member
    exact .inl member

/-- Only a publication adds a message or touches the guard. -/
theorem effect_unpublished {d : Deployment} {c : Choice} {w : World} {record : Bool} {op : Op}
    (plain : ∀ info q, op ≠ .stage info (.publishTask q)) :
    (effect d c w record op).1.published = w.published ∧ (effect d c w record op).1.onceKeys = w.onceKeys := by
  cases op with
  | stage info so =>
      cases so with
      | publishTask q => exact absurd rfl (plain info q)
      | approvalWait _ _ _ => simp only [effect, stageEffect]; split <;> exact ⟨rfl, rfl⟩
      | resolveQueue q _ => simp only [effect, stageEffect]; split <;> exact ⟨rfl, rfl⟩
      | _ => exact ⟨rfl, rfl⟩
  | create _ _ => simp only [effect]; split <;> exact ⟨rfl, rfl⟩
  | getState _ => simp only [effect]; split <;> exact ⟨rfl, rfl⟩
  | setState _ _ => simp only [effect]; split <;> exact ⟨rfl, rfl⟩
  | schedule _ _ _ => simp only [effect]; split <;> exact ⟨rfl, rfl⟩
  | _ => exact ⟨rfl, rfl⟩

theorem perform_published {d : Deployment} {c : Choice} {w : World} {op : Op}
    (plain : ∀ info q, op ≠ .stage info (.publishTask q)) :
    (perform d c w op).1.published = w.published := by
  rcases perform_world d c w op with same | ⟨record, same⟩ <;> rw [same]
  exact (effect_unpublished plain).1

theorem perform_onceKeys {d : Deployment} {c : Choice} {w : World} {op : Op}
    (plain : ∀ info q, op ≠ .stage info (.publishTask q)) :
    (perform d c w op).1.onceKeys = w.onceKeys := by
  rcases perform_world d c w op with same | ⟨record, same⟩ <;> rw [same]
  exact (effect_unpublished plain).2

/-- The message of a publication, as it stands among those published. -/
def messageOf (w : World) (info : RunInfo) (q : Publication) : Published where
  message := buildTaskMessage info q.work q.task q.rulesetRef none q.schemaId
  queue := q.queue
  idempotencyKey := q.task.idempotencyKey
  correlationId := q.correlationId
  schemaId := q.schemaId
  sent := !(q.guarded && decide ("publish:" ++ q.task.idempotencyKey ∈ w.onceKeys))
  after := w.results.length

theorem perform_publish (d : Deployment) (c : Choice) (w : World) (info : RunInfo) (q : Publication) :
    (perform d c w (.stage info (.publishTask q))).1.published = w.published ∨
      (perform d c w (.stage info (.publishTask q))).1.published =
        w.published ++ [w.messageOf info q] := by
  rcases perform_world d c w (.stage info (.publishTask q)) with same | ⟨record, same⟩ <;> rw [same]
  · exact .inl rfl
  · exact .inr rfl

/-- A message was published before the call or is the one it publishes. -/
theorem published_from {d : Deployment} {c : Choice} {w : World} {op : Op} {m : Published}
    (member : m ∈ (perform d c w op).1.published) :
    m ∈ w.published ∨ ∃ info q, op = .stage info (.publishTask q) ∧ m = w.messageOf info q := by
  by_cases publishes : ∃ info q, op = .stage info (.publishTask q)
  · obtain ⟨info, q, rfl⟩ := publishes
    rcases perform_publish d c w info q with same | same <;> rw [same] at member
    · exact .inl member
    · rcases List.mem_append.mp member with old | new
      · exact .inl old
      · exact .inr ⟨info, q, rfl, List.mem_singleton.mp new⟩
  · rw [perform_published fun info q same => publishes ⟨info, q, same⟩] at member
    exact .inl member

end World
end Maof
