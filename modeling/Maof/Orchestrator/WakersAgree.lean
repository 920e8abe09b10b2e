import Maof.Orchestrator.Wakers

/-!
# Where the two wakers agree

What is left to claim is, in both, the same up to which of the joins of a step whose results are
there are left. As long as every operation meets its condition it stays so, and each claims the
same; at the first that does not they part.
-/

namespace Maof.Wakers

open Data (Slot)
open Data.Agenda (pending sweep claimAny)

/-- What a claim shows: of joins with their results there the run and the step, of others the row. -/
inductive Claim where
  | join (runId : RunId) (stepRef : StepId)
  | row (r : Row)
deriving DecidableEq

def Row.claim (results : List ResultEnvelope) (r : Row) : Claim :=
  match r.stepRef with
  | some stepRef => if r.joined results then .join r.runId stepRef else .row r
  | none => .row r

namespace Driver

variable (d : Driver)

def stored (c : Condition) : Option Int :=
  match d.wakeAt c with
  | .ok wakeAt => wakeAt
  | .error _ => none

/-- The row the database has for an entry. -/
def rowOf (s : Scheduled) : Row := row s.id s.runId s.condition (d.stored s.condition)

/-- The time, if any is given, can be read and stored. -/
def Storable (c : Condition) : Prop :=
  ∀ text, c.wakeAt = some text → text ≠ "" → ∃ moment time, d.parseRfc3339 text = some moment ∧ d.sent moment = some time

def claimOf (results : List ResultEnvelope) (s : Scheduled) : Claim := (d.rowOf s).claim results

end Driver

/-- Both raise, or they claim the same up to the choice between joins that are equally eligible. -/
def Alike (d : Driver) (results : List ResultEnvelope) : Except Exn (List Scheduled) → Except Exn (List Row) → Prop
  | .ok claimed, .ok claimed' => (claimed.map (d.claimOf results)).Perm (claimed'.map (Row.claim results))
  | .error _, .error _ => True
  | _, _ => False

/-- The two agree at every operation of a run. -/
def Agree (d : Driver) : InMemory → Database → List (Op × Nat) → Prop
  | _, _, [] => True
  | m, db, (op, choice) :: run =>
      Alike d m.results (m.perform d op).2 (db.perform d choice op).2 ∧
        Agree d (m.perform d op).1 (db.perform d choice op).1 run

/-- The condition of one operation. -/
def Met (d : Driver) (m : InMemory) : Op → Prop
  | .schedule runId c => d.Storable c ∧ d.takes (row m.scheduled.length runId c (d.stored c)) = true
  | .save envelope => d.records envelope = true
  | .satisfyResults runId stepRef => d.text runId = true ∧ d.text stepRef = true ∧
      -- the first pending join of the step is ready, if any is
      ∀ first ∈ (pending m.scheduled).find? (·.joins runId stepRef), ∀ s ∈ pending m.scheduled, s.joins runId stepRef = true →
        ready m.results runId stepRef s.condition.expected = true →
        ready m.results runId stepRef first.condition.expected = true
  | .fireEvent eventKey => d.text eventKey = true
  | .dueTimers _ => ∀ s ∈ pending m.scheduled, ∀ text, s.alarm = some text → ∃ time, d.parseRfc3339 text = some (.aware time)
  | .dueJoins => ∀ s ∈ pending m.scheduled, s.condition.kind = .resultsReady → s.condition.stepRef = none → 0 < s.condition.expected

def MetAll (d : Driver) : InMemory → List Op → Prop
  | _, [] => True
  | m, op :: run => Met d m op ∧ MetAll d (m.perform d op).1 run

/-- The two have the same results, and the same left to claim. -/
structure Sim (d : Driver) (m : InMemory) (db : Database) : Prop where
  results : m.results = db.results
  length : m.scheduled.length = db.rows.length
  left : ((pending m.scheduled).map (d.claimOf m.results)).Perm ((pending db.rows).map (Row.claim m.results))
  storable : ∀ s ∈ pending m.scheduled, d.Storable s.condition

section claims

variable {d : Driver} {results : List ResultEnvelope} {s : Scheduled} {r : Row}

theorem claim_of_join (r : Row) {runId : RunId} {stepRef : StepId} :
    r.claim results = .join runId stepRef ↔ r.joins results runId stepRef = true := by
  unfold Row.claim Row.joins
  cases step : r.stepRef with
  | none => simp
  | some stepRef' =>
      cases joined : r.joined results with
      | false => simp
      | true => simp

theorem claim_of_row (r : Row) (r' : Row) (same : r.claim results = .row r') : r = r' := by
  unfold Row.claim at same
  split at same
  · split at same
    · cases same
    · exact Claim.row.inj same
  · exact Claim.row.inj same

/-- An entry is a join of the step and ready where its row is. -/
theorem rowOf_joins {runId : RunId} {stepRef : StepId} :
    (d.rowOf s).joins results runId stepRef = (s.joins runId stepRef && ready results runId stepRef s.condition.expected) := by
  unfold Row.joins Row.joined Scheduled.joins Row.count Driver.rowOf row ready
  cases step : s.condition.stepRef with
  | none => simp
  | some stepRef' =>
      by_cases sameStep : stepRef' = stepRef
      · by_cases sameRun : s.runId = runId
        · subst sameStep sameRun
          simp
        · simp [sameRun]
      · simp [sameStep]

/-- Whether a claim shows a row of a kind, and whether it shows a join. -/
def Claim.shows (p : Row → Bool) : Claim → Bool
  | .join _ _ => false
  | .row r => p r

def Claim.isJoin : Claim → Bool
  | .join _ _ => true
  | .row _ => false

theorem shows_claim {p : Row → Bool} (other : ∀ r, p r = true → r.kind ≠ .resultsReady) (r : Row) :
    p r = (r.claim results).shows p := by
  cases same : r.claim results with
  | row r' => rw [claim_of_row r r' same, Claim.shows]
  | join runId stepRef =>
      have joins := (claim_of_join r).mp same
      cases holds : p r with
      | false => rfl
      | true =>
          simp only [Row.joins, Row.joined, Bool.and_eq_true, decide_eq_true_eq] at joins
          exact absurd joins.1.1.1 (other r holds)

/-- A row without a step is no join of one, though it may count as joined. -/
theorem joined_claim (r : Row) (stepped : r.joined results = true → r.stepRef ≠ none) : r.joined results = (r.claim results).isJoin := by
  unfold Row.claim
  cases step : r.stepRef with
  | none =>
      cases joined : r.joined results with
      | false => rfl
      | true => exact absurd step (stepped joined)
  | some stepRef =>
      cases joined : r.joined results with
      | false => rfl
      | true => rfl

theorem scheduled_joined (s : Scheduled) : s.joined results = (d.claimOf results s).isJoin := by
  unfold Scheduled.joined Driver.claimOf Row.claim Row.joined Row.count Driver.rowOf row ready
  cases step : s.condition.stepRef with
  | none => simp [Claim.isJoin]
  | some stepRef =>
      dsimp only
      split
      · next joined => exact joined
      · next unjoined => exact Bool.eq_false_iff.mpr unjoined

end claims

section steps

variable {d : Driver} {m : InMemory} {db : Database}

theorem Sim.sweep (sim : Sim d m db) {q : Scheduled → Bool} {r : Row → Bool} (shows_ : Claim → Bool)
    (left : ∀ s ∈ pending m.scheduled, q s = shows_ (d.claimOf m.results s))
    (right : ∀ r' ∈ pending db.rows, r r' = shows_ (r'.claim m.results)) :
    Alike d m.results (.ok (sweep q m.scheduled).2) (.ok (sweep r db.rows).2) ∧
      Sim d { m with scheduled := (sweep q m.scheduled).1 } { db with rows := (sweep r db.rows).1 } := by
  obtain ⟨claimed, rest⟩ := Data.Agenda.sweep_alike sim.left shows_ left right
  refine ⟨claimed, sim.results, ?_, rest, fun s member => ?_⟩
  · have lengths := sim.length
    unfold Data.Agenda.sweep
    rwa [List.length_map, List.length_map]
  · change s ∈ pending (Data.Agenda.sweep q m.scheduled).1 at member
    rw [Data.Agenda.pending_sweep] at member
    exact sim.storable s (List.mem_filter.mp member).1

/-- The operation is answered alike exactly if its condition is met, and then what is left is the same. -/
def Step (d : Driver) (m : InMemory) (db : Database) (choice : Nat) (op : Op) : Prop :=
  (Alike d m.results (m.perform d op).2 (db.perform d choice op).2 ↔ Met d m op) ∧
    (Met d m op → Sim d (m.perform d op).1 (db.perform d choice op).1)

variable {choice : Nat} {op : Op}

theorem step_refused {e : Exn} {claimed : List Scheduled} (answers : (m.perform d op).2 = .ok claimed)
    (raises : (db.perform d choice op).2 = .error e) (unmet : ¬Met d m op) : Step d m db choice op := by
  refine ⟨⟨fun alike => ?_, fun met => absurd met unmet⟩, fun met => absurd met unmet⟩
  rw [answers, raises] at alike
  exact alike.elim

theorem step_agreed (met : Met d m op) (alike : Alike d m.results (m.perform d op).2 (db.perform d choice op).2)
    (next : Sim d (m.perform d op).1 (db.perform d choice op).1) : Step d m db choice op :=
  ⟨⟨fun _ => met, fun _ => alike⟩, fun _ => next⟩

theorem step_fireEvent (sim : Sim d m db) (choice : Nat) (eventKey : String) : Step d m db choice (.fireEvent eventKey) := by
  cases given : d.text eventKey with
  | false =>
      have refuses : db.perform d choice (.fireEvent eventKey) = (db, .error refused) := if_neg (by simp [given])
      exact step_refused rfl (congrArg Prod.snd refuses) fun met => absurd (given.symm.trans met) Bool.false_ne_true
  | true =>
      have performs : db.perform d choice (.fireEvent eventKey) =
          ({ db with rows := (sweep (Row.awaits · eventKey) db.rows).1 }, .ok (sweep (Row.awaits · eventKey) db.rows).2) :=
        if_pos given
      have other : ∀ r : Row, r.awaits eventKey = true → r.kind ≠ .resultsReady := by
        intro r awaits same
        simp [Row.awaits, same] at awaits
      have swept := sim.sweep (Claim.shows (Row.awaits · eventKey)) (fun s _ => shows_claim other (d.rowOf s))
        (fun r _ => shows_claim other r)
      refine step_agreed given ?_ ?_
      · rw [performs]
        exact swept.1
      · rw [performs]
        exact swept.2

/-- A pending row without a step has an entry that is the same row. -/
theorem Sim.unstepped (sim : Sim d m db) {r : Row} (member : r ∈ pending db.rows) (unstepped : r.stepRef = none) :
    ∃ s ∈ pending m.scheduled, d.rowOf s = r := by
  have shown : r.claim m.results = .row r := by
    unfold Row.claim
    rw [unstepped]
  have inside : Claim.row r ∈ (pending m.scheduled).map (d.claimOf m.results) := by
    refine sim.left.mem_iff.mpr (List.mem_map.mpr ⟨r, member, shown⟩)
  obtain ⟨s, here, same⟩ := List.mem_map.mp inside
  exact ⟨s, here, claim_of_row _ r same⟩

/-- The row of a join without a step counts as joined when nothing is expected. -/
theorem unstepped_joined {s : Scheduled} (kind : s.condition.kind = .resultsReady) (unstepped : s.condition.stepRef = none)
    (results : List ResultEnvelope) : (d.rowOf s).joined results = decide (s.condition.expected ≤ 0) := by
  have count : (d.rowOf s).count results = 0 := by
    unfold Row.count
    rw [show (d.rowOf s).stepRef = none from unstepped]
  unfold Row.joined
  rw [count, show (d.rowOf s).kind = .resultsReady from kind]
  rfl

theorem step_dueJoins (sim : Sim d m db) (choice : Nat) : Step d m db choice .dueJoins := by
  obtain ⟨rows, results⟩ := db
  obtain rfl : m.results = results := sim.results
  have agreed (met : Met d m .dueJoins) := by
    have stepped : ∀ r ∈ pending rows, r.joined m.results = true → r.stepRef ≠ none := by
      intro r member joined unstepped
      obtain ⟨s, here, rfl⟩ := sim.unstepped member unstepped
      have kind : s.condition.kind = .resultsReady := by
        simp only [Row.joined, Bool.and_eq_true, decide_eq_true_eq] at joined
        exact joined.1
      rw [unstepped_joined kind unstepped, decide_eq_true_eq] at joined
      exact absurd joined (not_le.mpr (met s here kind unstepped))
    exact sim.sweep Claim.isJoin (fun s _ => scheduled_joined s) fun r member => joined_claim r (stepped r member)
  refine ⟨⟨fun alike s member kind unstepped => ?_, fun met => (agreed met).1⟩, fun met => (agreed met).2⟩
  by_contra few
  -- the row of such an entry is claimed, the entry is not
  have shown : d.claimOf m.results s = .row (d.rowOf s) := by
    unfold Driver.claimOf Row.claim
    rw [show (d.rowOf s).stepRef = none from unstepped]
  obtain ⟨r, here, same⟩ := List.mem_map.mp (sim.left.mem_iff.mp (List.mem_map.mpr ⟨s, member, shown⟩))
  obtain rfl := claim_of_row r _ same
  have joined : (d.rowOf s).joined m.results = true := by
    rw [unstepped_joined kind unstepped, decide_eq_true_eq]
    exact not_lt.mp few
  have claimed : d.rowOf s ∈ (sweep (Row.joined · m.results) rows).2 := List.mem_filter.mpr ⟨here, joined⟩
  obtain ⟨s', inside, same'⟩ := List.mem_map.mp (alike.mem_iff.mpr (List.mem_map.mpr ⟨_, claimed, same⟩))
  have joined' : s'.joined m.results = true := (List.mem_filter.mp inside).2
  rw [@scheduled_joined d, same'] at joined'
  cases joined'

/-- A timer that is due, where its time can be compared. -/
def dueIn (d : Driver) (now : Int) (s : Scheduled) : Bool :=
  match s.alarm with
  | none => false
  | some text => match d.parseRfc3339 text with
    | some (.aware time) => time ≤ now
    | _ => false

def Comparable (d : Driver) (s : Scheduled) : Prop := ∀ text, s.alarm = some text → ∃ time, d.parseRfc3339 text = some (.aware time)

theorem dueTimers_sweep {now : Int} {slots : List (Slot Scheduled)} (comparable : ∀ s ∈ pending slots, Comparable d s) :
    InMemory.dueTimers d now slots = ((sweep (dueIn d now) slots).1, .ok (sweep (dueIn d now) slots).2) := by
  induction slots with
  | nil => rfl
  | cons s slots ih =>
      unfold InMemory.dueTimers
      cases fired : s.fired with
      | true =>
          rw [Data.Agenda.pending_fired slots fired] at comparable
          rw [ih comparable, Data.Agenda.sweep_skip (by simp [fired])]
          rfl
      | false =>
          rw [Data.Agenda.pending_open slots fired] at comparable
          rw [ih fun s' member => comparable s' (List.mem_cons_of_mem _ member)]
          have mine := comparable s.item List.mem_cons_self
          cases alarm : s.item.alarm with
          | none => rw [Data.Agenda.sweep_skip (by simp [dueIn, alarm])]; rfl
          | some text =>
              obtain ⟨time, parsed⟩ := mine text alarm
              simp only [parsed]
              by_cases due : time ≤ now
              · rw [Data.Agenda.sweep_claim (by simp [dueIn, alarm, parsed, due, fired])]
                simp [due, Except.map]
              · rw [Data.Agenda.sweep_skip (by simp [dueIn, alarm, parsed, due])]
                simp [due]

theorem dueTimers_raises {now : Int} {slots : List (Slot Scheduled)} {s : Scheduled} (member : s ∈ pending slots)
    (incomparable : ¬Comparable d s) : ∃ e, (InMemory.dueTimers d now slots).2 = .error e := by
  induction slots with
  | nil => exact absurd member List.not_mem_nil
  | cons slot slots ih =>
      unfold InMemory.dueTimers
      cases fired : slot.fired with
      | true =>
          rw [Data.Agenda.pending_fired slots fired] at member
          exact ih member
      | false =>
          rw [Data.Agenda.pending_open slots fired] at member
          cases alarm : slot.item.alarm with
          | none =>
              rcases List.mem_cons.mp member with rfl | later
              · refine absurd (fun text set => ?_) incomparable
                rw [alarm] at set
                cases set
              · exact ih later
          | some text =>
              cases parsed : d.parseRfc3339 text with
              | none => exact ⟨_, by simp [parsed]; rfl⟩
              | some moment =>
                  cases moment with
                  | naive wall => exact ⟨_, by simp [parsed]; rfl⟩
                  | aware time =>
                      rcases List.mem_cons.mp member with rfl | later
                      · refine absurd (fun text' set => ?_) incomparable
                        obtain rfl := Option.some.inj (alarm.symm.trans set)
                        exact ⟨time, parsed⟩
                      · obtain ⟨e, raised⟩ := ih later
                        refine ⟨e, ?_⟩
                        by_cases due : time ≤ now
                        · simp [parsed, due, raised, Except.map]
                        · simp [parsed, due, raised]

/-- A time that can be stored is stored, and no other. -/
theorem storable_iff {c : Condition} : d.Storable c ↔ d.wakeAt c = .ok (d.stored c) := by
  unfold Driver.Storable Driver.stored Driver.wakeAt
  cases given : c.wakeAt with
  | none => simp
  | some text =>
      by_cases empty : text = ""
      · simp [empty]
      · cases parsed : d.parseRfc3339 text with
        | none => simp [empty, parsed]
        | some moment =>
            cases sent : d.sent moment with
            | none => simp [empty, parsed, sent]
            | some time => simp [empty, parsed, sent]

theorem parse_empty (d : Driver) : d.parseRfc3339 "" = none := d.fromisoformat_empty

theorem dueIn_row {now : Int} {s : Scheduled} (storable : d.Storable s.condition) (comparable : Comparable d s) :
    dueIn d now s = (d.rowOf s).due now := by
  unfold dueIn Row.due Driver.rowOf row
  cases kind : s.condition.kind with
  | timer =>
      have alarm : s.alarm = s.condition.wakeAt := if_pos kind
      rw [alarm]
      cases given : s.condition.wakeAt with
      | none => simp [Driver.stored, Driver.wakeAt, given]
      | some text =>
          obtain ⟨time, parsed⟩ := comparable text (alarm.trans given)
          have filled : text ≠ "" := by
            rintro rfl
            rw [parse_empty] at parsed
            cases parsed
          obtain ⟨moment, stored, parsed', sent⟩ := storable text given filled
          obtain rfl := Option.some.inj (parsed.symm.trans parsed')
          obtain rfl := d.sent_aware time stored sent
          have sets : d.stored s.condition = some stored := by simp [Driver.stored, Driver.wakeAt, given, filled, parsed, sent]
          simp [parsed, sets]
  | _ =>
      have alarm : s.alarm = none := if_neg (by simp [kind])
      simp [alarm]

theorem step_dueTimers (sim : Sim d m db) (choice : Nat) (now : Int) : Step d m db choice (.dueTimers now) := by
  have other : ∀ r : Row, r.due now = true → r.kind ≠ .resultsReady := by
    intro r due same
    simp [Row.due, same] at due
  by_cases met : ∀ s ∈ pending m.scheduled, Comparable d s
  · have swept := sim.sweep (Claim.shows (Row.due · now))
      (fun s member => (dueIn_row (sim.storable s member) (met s member)).trans (shows_claim other (d.rowOf s)))
      (fun r _ => shows_claim other r)
    have sweeps := @dueTimers_sweep d now m.scheduled met
    refine step_agreed met ?_ ?_
    · change Alike d m.results (InMemory.dueTimers d now m.scheduled).2 _
      rw [sweeps]
      exact swept.1
    · change Sim d { m with scheduled := (InMemory.dueTimers d now m.scheduled).1 } _
      rw [sweeps]
      exact swept.2
  · refine ⟨⟨fun alike => ?_, fun met' => absurd met' met⟩, fun met' => absurd met' met⟩
    rw [not_forall] at met
    obtain ⟨s, some⟩ := met
    rw [Classical.not_imp] at some
    obtain ⟨e, raises⟩ := @dueTimers_raises d now m.scheduled s some.1 some.2
    change Alike d m.results (InMemory.dueTimers d now m.scheduled).2 _ at alike
    rw [raises] at alike
    exact alike.elim

theorem step_schedule (sim : Sim d m db) (choice : Nat) (runId : RunId) (c : Condition) :
    Step d m db choice (.schedule runId c) := by
  cases stored : d.wakeAt c with
  | error e =>
      have refuses : (db.perform d choice (.schedule runId c)).2 = .error e := by simp only [Database.perform, stored]
      refine step_refused rfl refuses fun met => ?_
      have stores := storable_iff.mp met.1
      rw [stored] at stores
      cases stores
  | ok wakeAt =>
      have storable : d.Storable c := storable_iff.mpr (by rw [stored]; simp only [Driver.stored, stored])
      have same : d.stored c = wakeAt := by simp only [Driver.stored, stored]
      have added : row db.rows.length runId c wakeAt = row m.scheduled.length runId c (d.stored c) := by rw [sim.length, same]
      cases takes : d.takes (row m.scheduled.length runId c (d.stored c)) with
      | false =>
          have refuses : (db.perform d choice (.schedule runId c)).2 = .error refused := by
            simp only [Database.perform, stored, added, takes]
            rfl
          exact step_refused rfl refuses fun met => absurd (takes.symm.trans met.2) Bool.false_ne_true
      | true =>
          have inserts : db.perform d choice (.schedule runId c) =
              ({ db with rows := db.rows ++ [{ item := row m.scheduled.length runId c (d.stored c) }] }, .ok []) := by
            simp only [Database.perform, stored, added, takes, if_true]
          refine step_agreed ⟨storable, takes⟩ ?_ ?_
          · rw [inserts]
            exact .nil
          · rw [inserts]
            refine ⟨sim.results, ?_, ?_, fun s member => ?_⟩
            · change (m.scheduled ++ _).length = (db.rows ++ _).length
              rw [List.length_append, List.length_append, sim.length]
              rfl
            · change ((pending (m.scheduled ++ _)).map _).Perm ((pending (db.rows ++ _)).map _)
              rw [Data.Agenda.pending_append, Data.Agenda.pending_append, List.map_append, List.map_append]
              exact sim.left.append_right _
            · change s ∈ pending (m.scheduled ++ _) at member
              rw [Data.Agenda.pending_append] at member
              rcases List.mem_append.mp member with old | new
              · exact sim.storable s old
              · rw [List.mem_singleton.mp new]
                exact storable

theorem count_save (results : List ResultEnvelope) (envelope : ResultEnvelope) (runId : RunId) (stepRef : StepId) :
    ResultStore.count results runId stepRef ≤ ResultStore.count (ResultStore.save results envelope).1 runId stepRef := by
  unfold ResultStore.save
  split
  · exact le_refl _
  · unfold ResultStore.count ResultStore.list
    rw [List.filter_append, List.length_append]
    exact Nat.le_add_right _ _

theorem row_count_save (results : List ResultEnvelope) (envelope : ResultEnvelope) (r : Row) :
    r.count results ≤ r.count (ResultStore.save results envelope).1 := by
  unfold Row.count
  cases r.stepRef with
  | none => exact le_refl 0
  | some stepRef => exact count_save results envelope r.runId stepRef

/-- A join whose results are there stays one. -/
def Claim.later (results : List ResultEnvelope) : Claim → Claim
  | .join runId stepRef => .join runId stepRef
  | .row r => r.claim results

theorem claim_later (results : List ResultEnvelope) (envelope : ResultEnvelope) (r : Row) :
    r.claim (ResultStore.save results envelope).1 = (r.claim results).later (ResultStore.save results envelope).1 := by
  cases same : r.claim results with
  | row r' => rw [claim_of_row r r' same, Claim.later]
  | join runId stepRef =>
      have joins := (claim_of_join r).mp same
      refine (claim_of_join r).mpr ?_
      simp only [Row.joins, Row.joined, Bool.and_eq_true, decide_eq_true_eq] at joins ⊢
      obtain ⟨⟨⟨kind, enough⟩, run⟩, step⟩ := joins
      have grows := row_count_save results envelope r
      exact ⟨⟨⟨kind, le_trans enough (Int.ofNat_le.mpr grows)⟩, run⟩, step⟩

theorem step_save (sim : Sim d m db) (choice : Nat) (envelope : ResultEnvelope) : Step d m db choice (.save envelope) := by
  cases records : d.records envelope with
  | false =>
      have refuses : db.perform d choice (.save envelope) = (db, .error refused) := if_neg (by simp [records])
      exact step_refused rfl (congrArg Prod.snd refuses) fun met => absurd (records.symm.trans met) Bool.false_ne_true
  | true =>
      have performs : db.perform d choice (.save envelope) =
          ({ db with results := (ResultStore.save db.results envelope).1 }, .ok []) := if_pos records
      refine step_agreed records ?_ ?_
      · rw [performs]
        exact .nil
      · rw [performs]
        refine ⟨?_, sim.length, ?_, sim.storable⟩
        · change (ResultStore.save m.results envelope).1 = (ResultStore.save db.results envelope).1
          rw [sim.results]
        · have grown := sim.left.map (Claim.later (ResultStore.save m.results envelope).1)
          rw [List.map_map, List.map_map] at grown
          have later (r : Row) := claim_later m.results envelope r
          change ((pending m.scheduled).map fun s => (d.rowOf s).claim (ResultStore.save m.results envelope).1).Perm
            ((pending db.rows).map (Row.claim (ResultStore.save m.results envelope).1))
          rwa [List.map_congr_left fun s _ => later (d.rowOf s), List.map_congr_left fun r _ => later r]

section satisfy

variable {results : List ResultEnvelope} {runId : RunId} {stepRef : StepId} {slots : List (Slot Scheduled)} {first : Scheduled}

theorem satisfy_skip {slot : Slot Scheduled} (passed : ¬(!slot.fired && slot.item.joins runId stepRef) = true) :
    InMemory.satisfyResults results runId stepRef (slot :: slots) =
      (slot :: (InMemory.satisfyResults results runId stepRef slots).1, (InMemory.satisfyResults results runId stepRef slots).2) := by
  conv_lhs => unfold InMemory.satisfyResults
  rw [if_neg passed]

/-- The first pending join of the step is claimed where it is ready. -/
theorem satisfy_ready (found : (pending slots).find? (·.joins runId stepRef) = some first)
    (enough : ready results runId stepRef first.condition.expected = true) :
    (InMemory.satisfyResults results runId stepRef slots).2 = some first ∧
      (pending slots).Perm (first :: pending (InMemory.satisfyResults results runId stepRef slots).1) := by
  induction slots with
  | nil => cases found
  | cons slot slots ih =>
      cases fired : slot.fired with
      | true =>
          rw [Data.Agenda.pending_fired slots fired] at found ⊢
          rw [satisfy_skip (by simp [fired]), Data.Agenda.pending_fired _ fired]
          exact ih found
      | false =>
          rw [Data.Agenda.pending_open slots fired] at found ⊢
          cases joins : slot.item.joins runId stepRef with
          | true =>
              rw [List.find?_cons_of_pos (p := (Scheduled.joins · runId stepRef)) joins] at found
              obtain rfl := Option.some.inj found
              unfold InMemory.satisfyResults
              rw [if_pos (by simp [fired, joins]), if_pos enough, Data.Agenda.pending_fired _ rfl]
              exact ⟨rfl, .refl _⟩
          | false =>
              rw [List.find?_cons_of_neg (p := (Scheduled.joins · runId stepRef)) (by simp [joins])] at found
              obtain ⟨claimed, rest⟩ := ih found
              rw [satisfy_skip (by simp [joins]), Data.Agenda.pending_open _ fired]
              exact ⟨claimed, (rest.cons slot.item).trans (.swap first slot.item _)⟩

/-- Where the first is not ready, or there is none, nothing is claimed. -/
theorem satisfy_waits (waits : ∀ first ∈ (pending slots).find? (·.joins runId stepRef),
      ready results runId stepRef first.condition.expected = false) :
    InMemory.satisfyResults results runId stepRef slots = (slots, none) := by
  induction slots with
  | nil => rfl
  | cons slot slots ih =>
      cases fired : slot.fired with
      | true =>
          rw [Data.Agenda.pending_fired slots fired] at waits
          rw [satisfy_skip (by simp [fired]), ih waits]
      | false =>
          rw [Data.Agenda.pending_open slots fired] at waits
          cases joins : slot.item.joins runId stepRef with
          | true =>
              rw [List.find?_cons_of_pos (p := (Scheduled.joins · runId stepRef)) joins] at waits
              have unready := waits slot.item rfl
              unfold InMemory.satisfyResults
              rw [if_pos (by simp [fired, joins]), if_neg (by simp [unready])]
          | false =>
              rw [List.find?_cons_of_neg (p := (Scheduled.joins · runId stepRef)) (by simp [joins])] at waits
              rw [satisfy_skip (by simp [joins]), ih waits]

theorem satisfy_length (results : List ResultEnvelope) (runId : RunId) (stepRef : StepId) (slots : List (Slot Scheduled)) :
    (InMemory.satisfyResults results runId stepRef slots).1.length = slots.length := by
  induction slots with
  | nil => rfl
  | cons slot slots ih =>
      by_cases joins : (!slot.fired && slot.item.joins runId stepRef) = true
      · unfold InMemory.satisfyResults
        rw [if_pos joins]
        split
        · rfl
        · rfl
      · rw [satisfy_skip joins, List.length_cons, List.length_cons, ih]

end satisfy

/-- A join of the step is ready in the one where it is in the other. -/
theorem Sim.eligible {rows : List (Slot Row)} {runId : RunId} {stepRef : StepId} (sim : Sim d m { rows, results := m.results }) :
    (∃ s ∈ pending m.scheduled, s.joins runId stepRef = true ∧ ready m.results runId stepRef s.condition.expected = true) ↔
      (pending rows).filter (Row.joins · m.results runId stepRef) ≠ [] := by
  have shown : (∃ s ∈ pending m.scheduled, d.claimOf m.results s = .join runId stepRef) ↔
      ∃ r ∈ pending rows, r.claim m.results = .join runId stepRef := by
    rw [← List.mem_map, ← List.mem_map]
    exact sim.left.mem_iff
  have entries (s : Scheduled) : d.claimOf m.results s = .join runId stepRef ↔
      s.joins runId stepRef = true ∧ ready m.results runId stepRef s.condition.expected = true := by
    unfold Driver.claimOf
    rw [claim_of_join, rowOf_joins, Bool.and_eq_true]
  simp only [entries, claim_of_join] at shown
  rw [shown, ne_eq, List.filter_eq_nil_iff]
  constructor
  · rintro ⟨r, member, joins⟩ none
    exact none r member joins
  · intro some
    by_contra none
    exact some fun r member joins => none ⟨r, member, joins⟩

section satisfied

variable {rows : List (Slot Row)} {runId : RunId} {stepRef : StepId} {first : Scheduled}

/-- The first join of the step is claimed, and in the database one that is as eligible. -/
theorem Sim.satisfied (sim : Sim d m { rows, results := m.results })
    (found : (pending m.scheduled).find? (Scheduled.joins · runId stepRef) = some first)
    (enough : ready m.results runId stepRef first.condition.expected = true) :
    Alike d m.results (.ok (InMemory.satisfyResults m.results runId stepRef m.scheduled).2.toList)
        (.ok (claimAny (Row.joins · m.results runId stepRef) choice rows).2.toList) ∧
      Sim d { m with scheduled := (InMemory.satisfyResults m.results runId stepRef m.scheduled).1 }
        { rows := (claimAny (Row.joins · m.results runId stepRef) choice rows).1, results := m.results } := by
  have member := List.mem_of_find?_eq_some found
  have joins : first.joins runId stepRef = true := List.find?_some (p := (Scheduled.joins · runId stepRef)) found
  obtain ⟨r, claimed, picked, rest⟩ := @Data.Agenda.claimAny_some _ (Row.joins · m.results runId stepRef) rows choice
    (sim.eligible.mp ⟨first, member, joins, enough⟩)
  obtain ⟨claims, left⟩ := satisfy_ready found enough
  have alike : d.claimOf m.results first = r.claim m.results := by
    rw [(claim_of_join r).mpr picked]
    refine (claim_of_join (d.rowOf first)).mpr ?_
    rw [rowOf_joins, enough, joins]
    rfl
  refine ⟨?_, rfl, ?_, ?_, fun s member => ?_⟩
  · rw [claims, claimed]
    change [d.claimOf m.results first].Perm [r.claim m.results]
    rw [alike]
  · change (InMemory.satisfyResults m.results runId stepRef m.scheduled).1.length = (claimAny _ choice rows).1.length
    unfold Data.Agenda.claimAny
    rw [satisfy_length, Data.Agenda.claimNth_length]
    exact sim.length
  · exact Data.Agenda.claim_alike sim.left left rest alike
  · exact sim.storable s (left.mem_iff.mpr (List.mem_cons_of_mem _ member))

/-- Behind a first join that is not ready another is claimed in the database alone. -/
theorem Sim.overlooked (sim : Sim d m { rows, results := m.results })
    (found : (pending m.scheduled).find? (Scheduled.joins · runId stepRef) = some first)
    (unready : ready m.results runId stepRef first.condition.expected = false)
    (eligible : ∃ s ∈ pending m.scheduled, s.joins runId stepRef = true ∧
      ready m.results runId stepRef s.condition.expected = true) :
    ¬Alike d m.results (.ok (InMemory.satisfyResults m.results runId stepRef m.scheduled).2.toList)
      (.ok (claimAny (Row.joins · m.results runId stepRef) choice rows).2.toList) := by
  have waits := @satisfy_waits m.results runId stepRef m.scheduled fun first' found' => by
    obtain rfl := Option.some.inj (found.symm.trans found')
    exact unready
  obtain ⟨r, claimed, -, -⟩ := @Data.Agenda.claimAny_some _ (Row.joins · m.results runId stepRef) rows choice (sim.eligible.mp eligible)
  intro alike
  rw [waits, claimed] at alike
  exact absurd alike.length_eq (by simp)

end satisfied

theorem step_satisfyResults (sim : Sim d m db) (choice : Nat) (runId : RunId) (stepRef : StepId) :
    Step d m db choice (.satisfyResults runId stepRef) := by
  obtain ⟨rows, results⟩ := db
  obtain rfl : m.results = results := sim.results
  cases given : d.text runId && d.text stepRef with
  | false =>
      have refuses : Database.perform d choice { rows, results := m.results } (.satisfyResults runId stepRef) =
          ({ rows, results := m.results }, .error refused) := if_neg (by simp [given])
      refine step_refused rfl (congrArg Prod.snd refuses) fun met => ?_
      rw [met.1, met.2.1] at given
      cases given
  | true =>
      obtain ⟨asks, names⟩ := Bool.and_eq_true_iff.mp given
      have performs : Database.perform d choice { rows, results := m.results } (.satisfyResults runId stepRef) =
          ({ rows := (claimAny (Row.joins · m.results runId stepRef) choice rows).1, results := m.results },
            .ok (claimAny (Row.joins · m.results runId stepRef) choice rows).2.toList) := if_pos given
      have scans : m.perform d (.satisfyResults runId stepRef) =
          ({ m with scheduled := (InMemory.satisfyResults m.results runId stepRef m.scheduled).1 },
            .ok (InMemory.satisfyResults m.results runId stepRef m.scheduled).2.toList) := rfl
      unfold Step
      rw [performs, scans]
      by_cases eligible : ∃ s ∈ pending m.scheduled, s.joins runId stepRef = true ∧
          ready m.results runId stepRef s.condition.expected = true
      · obtain ⟨s, member, joins, enough⟩ := eligible
        have found : ((pending m.scheduled).find? (Scheduled.joins · runId stepRef)).isSome = true :=
          List.find?_isSome.mpr ⟨s, member, joins⟩
        obtain ⟨first, found⟩ := Option.isSome_iff_exists.mp found
        cases firstReady : ready m.results runId stepRef first.condition.expected with
        | true =>
            have satisfied := @Sim.satisfied d m choice rows runId stepRef first sim found firstReady
            have met : Met d m (.satisfyResults runId stepRef) := by
              refine ⟨asks, names, fun first' found' s' _ _ _ => ?_⟩
              obtain rfl := Option.some.inj (found.symm.trans found')
              exact firstReady
            exact ⟨⟨fun _ => met, fun _ => satisfied.1⟩, fun _ => satisfied.2⟩
        | false =>
            have overlooked := @Sim.overlooked d m choice rows runId stepRef first sim found firstReady ⟨s, member, joins, enough⟩
            have unmet : ¬Met d m (.satisfyResults runId stepRef) := by
              intro met
              rw [met.2.2 first found s member joins enough] at firstReady
              cases firstReady
            exact ⟨⟨fun alike => absurd alike overlooked, fun met => absurd met unmet⟩, fun met => absurd met unmet⟩
      · have waits := @satisfy_waits m.results runId stepRef m.scheduled fun first found => by
          have joins : first.joins runId stepRef = true := List.find?_some (p := (Scheduled.joins · runId stepRef)) found
          exact Bool.eq_false_iff.mpr fun enough => eligible ⟨first, List.mem_of_find?_eq_some found, joins, enough⟩
        have nothing : (pending rows).filter (Row.joins · m.results runId stepRef) = [] := by
          by_contra some
          exact eligible (sim.eligible.mpr some)
        rw [waits, Data.Agenda.claimAny_none nothing]
        refine ⟨⟨fun _ => ⟨asks, names, fun first _ s member joins enough => ?_⟩, fun _ => .nil⟩, fun _ => sim⟩
        exact absurd ⟨s, member, joins, enough⟩ eligible

theorem step_all (sim : Sim d m db) (choice : Nat) (op : Op) : Step d m db choice op := by
  cases op with
  | schedule runId c => exact step_schedule sim choice runId c
  | save envelope => exact step_save sim choice envelope
  | satisfyResults runId stepRef => exact step_satisfyResults sim choice runId stepRef
  | fireEvent eventKey => exact step_fireEvent sim choice eventKey
  | dueTimers now => exact step_dueTimers sim choice now
  | dueJoins => exact step_dueJoins sim choice

/-- By induction on the run, from two wakers with the same left to claim. -/
theorem agree_iff (sim : Sim d m db) (run : List (Op × Nat)) : Agree d m db run ↔ MetAll d m (run.map Prod.fst) := by
  induction run generalizing m db with
  | nil => exact Iff.rfl
  | cons first run ih =>
      obtain ⟨op, choice⟩ := first
      obtain ⟨alike, next⟩ := step_all sim choice op
      constructor
      · rintro ⟨here, later⟩
        have met := alike.mp here
        exact ⟨met, (ih (next met)).mp later⟩
      · rintro ⟨met, later⟩
        exact ⟨alike.mpr met, (ih (next met)).mpr later⟩

end steps

/-- Two fresh wakers agree on a run, whatever rows `LIMIT 1` picks, exactly if every operation of it
meets its condition. -/
theorem wakers_agree_iff (d : Driver) (run : List (Op × Nat)) : Agree d {} {} run ↔ MetAll d {} (run.map Prod.fst) := by
  have start : Sim d {} {} := ⟨rfl, rfl, .nil, fun _ member => absurd member List.not_mem_nil⟩
  exact agree_iff start run

/-- UTF-8 without NUL, integers of 32 bits, and no timers. -/
def plain : Driver where
  fromisoformat _ := none
  sent
    | .naive wall => some wall
    | .aware time => some time
  text s := !s.toList.contains '\x00'
  takes r := -2147483648 ≤ r.expected && r.expected ≤ 2147483647
  records _ := true
  fromisoformat_empty := rfl
  sent_aware _ _ same := (Option.some.inj same).symm

def landed : ResultEnvelope :=
  { runId := "r1", stepRef := "research", taskId := "t1", idempotencyKey := "k1", tenantId := "t",
    result := { status := "ok", taskId := "t1" } }

/-- A join of two results, one of a single result behind it, and one result. -/
def twoJoins : List (Op × Nat) :=
  [(.schedule "r1" { kind := .resultsReady, stepRef := some "research", expected := 2 }, 0),
    (.schedule "r1" { kind := .resultsReady, stepRef := some "research" }, 0),
    (.save landed, 0), (.satisfyResults "r1" "research", 0)]

theorem second_join_overlooked : ¬Agree plain {} {} twoJoins := by
  intro agree
  have claimed : List.Perm ([] : List Claim) [.join "r1" "research"] := agree.2.2.2.1
  exact absurd claimed.length_eq (by decide)

end Maof.Wakers
