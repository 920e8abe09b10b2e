import Maof.Orchestrator.Loop

/-!
# What the loop calls

Whatever it is answered, the loop plans, dispatches and checks within its bounds, and its results
are those of its dispatches.
-/

namespace Maof

open Effects (Act Event Player Protocol)

namespace LoopOp

def isPlan : LoopOp → Bool
  | .plan _ _ => true
  | _ => false

def isDispatch : LoopOp → Bool
  | .dispatch _ _ => true
  | _ => false

def isSave : LoopOp → Bool
  | .save _ _ _ => true
  | _ => false

end LoopOp

namespace OrchestratorLoop

/-- How many calls of a kind there were. -/
def calls (kind : LoopOp → Bool) (log : List (Event LoopSig)) : Nat := log.countP fun e => kind e.op

def result (e : Event LoopSig) : List SubResult :=
  match e with
  | ⟨.dispatch _ _, .ok (r, _)⟩ => [r]
  | _ => []

/-- What was dispatched has come back with. -/
def results (log : List (Event LoopSig)) : List SubResult := log.flatMap result

@[simp] theorem calls_append (kind : LoopOp → Bool) (log : List (Event LoopSig)) (e : Event LoopSig) :
    calls kind (log ++ [e]) = calls kind log + if kind e.op then 1 else 0 := by
  unfold calls
  rw [List.countP_append, List.countP_singleton]

@[simp] theorem results_append (log : List (Event LoopSig)) (e : Event LoopSig) : results (log ++ [e]) = results log ++ result e := by
  unfold results
  rw [List.flatMap_append, List.flatMap_singleton]

variable (loop : OrchestratorLoop)

/-- The last call was a check for this run of one dispatch more than there were, and it passed. -/
def Checked (info : RunInfo) (count : Nat) (log : List (Event LoopSig)) : WorthItGate → Prop
  | .custom => ∃ before work fanOut decision work',
      log = before ++ [⟨.check { info, work } (loop.projection count fanOut), .ok (decision, work')⟩] ∧ decision.passes = true
  | .default g => ∃ before costUsd fanOut, log = before ++ [⟨.total info.runId, .ok costUsd⟩] ∧
      (g.decide costUsd (loop.projection count fanOut)).passes = true

/-- What may be called after a history, with so many iterations and these subresults behind it. -/
def bounded (info : RunInfo) (begun : Nat) (behind : List SubResult) (log : List (Event LoopSig)) : LoopOp → Prop
  | .plan _ subresults => begun + calls LoopOp.isPlan log < loop.maxIterations.toNat ∧ subresults = behind ++ results log
  | .dispatch delegation _ => behind.length + calls LoopOp.isDispatch log < loop.budget.maxSubagents.toNat ∧
      (∃ iteration index d, begun ≤ iteration ∧ delegation = stepped iteration index d) ∧
      ∀ gate, loop.worthItGate = some gate → loop.Checked info (behind.length + calls LoopOp.isDispatch log) log gate
  | .save _ _ _ => loop.checkpointer = true
  | _ => True

/-- `post`, or some call answered with an error. -/
def Ends {α : Type} (post : α → Work → List (Event LoopSig) → Prop) : Except Exn α → Work → List (Event LoopSig) → Prop
  | .ok a, work, log => post a work log
  | .error _, _, log => ∃ e ∈ log, ∃ error, e.reply = .error error

/-- A part of the loop makes only such calls, and ends so. -/
def Plays (info : RunInfo) (begun : Nat) (behind : List SubResult) {α : Type} (post : α → Work → List (Event LoopSig) → Prop)
    (m : LoopM α) : Work → List (Event LoopSig) → Prop :=
  m.Follows (.logged (loop.bounded info begun behind)) (Ends post)

section plays

variable {loop} {info : RunInfo} {begun : Nat} {behind : List SubResult} {α β : Type}
  {post : β → Work → List (Event LoopSig) → Prop} {work : Work} {log : List (Event LoopSig)}

theorem plays_bind {Q : α → Work → List (Event LoopSig) → Prop} {m : LoopM α} {f : α → LoopM β}
    (first : loop.Plays info begun behind Q m work log)
    (rest : ∀ a work' log', Q a work' log' → loop.Plays info begun behind post (f a) work' log') :
    loop.Plays info begun behind post (m >>= f) work log :=
  Act.follows_bind first rest fun _ _ _ raised => raised

theorem plays_pure {b : β} (holds : post b work log) : loop.Plays info begun behind post (pure b) work log := holds

theorem plays_look {f : Work → LoopM β} (rest : loop.Plays info begun behind post (f work) work log) :
    loop.Plays info begun behind post (Act.get >>= f) work log := Act.follows_get_bind rest

theorem plays_say {line : String} {f : Unit → LoopM β}
    (rest : ∀ work', loop.Plays info begun behind post (f ()) work' log) :
    loop.Plays info begun behind post (say line >>= f) work log := Act.follows_modify_bind (rest _)

theorem plays_call {op : LoopOp} {post : op.Ans → Work → List (Event LoopSig) → Prop}
    (allowed : loop.bounded info begun behind log op) (after : ∀ a, post a work (log ++ [⟨op, .ok a⟩])) :
    loop.Plays info begun behind post (loopCall op) work log := by
  refine Act.follows_await (S := LoopSig) allowed fun r _ => ?_
  cases r with
  | ok a => exact after a
  | error e => exact ⟨⟨op, .error e⟩, List.mem_append_right _ (List.mem_singleton_self _), e, rfl⟩

theorem plays_call_bind {op : LoopOp} {f : op.Ans → LoopM β} (allowed : loop.bounded info begun behind log op)
    (rest : ∀ a, loop.Plays info begun behind post (f a) work (log ++ [⟨op, .ok a⟩])) :
    loop.Plays info begun behind post (loopCall op >>= f) work log :=
  Act.follows_await_bind (S := LoopSig) allowed (fun a _ => rest a) fun e _ =>
    ⟨⟨op, .error e⟩, List.mem_append_right _ (List.mem_singleton_self _), e, rfl⟩

theorem plays_handing {op : LoopOp} {answer : op.Ans → β × Work} (allowed : loop.bounded info begun behind log op)
    (after : ∀ a, post (answer a).1 (answer a).2 (log ++ [⟨op, .ok a⟩])) :
    loop.Plays info begun behind post (handing op answer) work log :=
  plays_call_bind allowed fun a => Act.follows_modify_bind (Act.follows_pure (after a))

theorem plays_handing_bind {op : LoopOp} {answer : op.Ans → α × Work} {f : α → LoopM β}
    (allowed : loop.bounded info begun behind log op)
    (rest : ∀ a, loop.Plays info begun behind post (f (answer a).1) (answer a).2 (log ++ [⟨op, .ok a⟩])) :
    loop.Plays info begun behind post (handing op answer >>= f) work log :=
  plays_bind (Q := fun b work' log' => ∃ a, b = (answer a).1 ∧ work' = (answer a).2 ∧ log' = log ++ [⟨op, .ok a⟩])
    (plays_handing allowed fun a => ⟨a, rfl, rfl, rfl⟩) fun _ _ _ ⟨a, answered, left, here⟩ => by
      subst answered left here
      exact rest a

/-- So many iterations have been begun and so many completed, and this has come back. -/
structure Stands (loop : OrchestratorLoop) (begun : Nat) (behind : List SubResult) (log : List (Event LoopSig)) (started completed : Nat)
    (subresults : List SubResult) : Prop where
  planned : begun + calls LoopOp.isPlan log ≤ started
  saved : loop.checkpointer = true → begun + calls LoopOp.isSave log = completed
  dispatched : behind.length + calls LoopOp.isDispatch log = subresults.length
  collected : behind ++ results log = subresults

variable {started completed : Nat} {subresults : List SubResult}

/-- A call of another kind moves nothing. -/
theorem Stands.quiet (stands : loop.Stands begun behind log started completed subresults) {e : Event LoopSig}
    (plan : e.op.isPlan = false) (save : e.op.isSave = false) (dispatch : e.op.isDispatch = false) (nothing : result e = []) :
    loop.Stands begun behind (log ++ [e]) started completed subresults := by
  obtain ⟨planned, saved, dispatched, collected⟩ := stands
  refine ⟨?_, ?_, ?_, ?_⟩
  · rwa [calls_append, plan]
  · rwa [calls_append, save]
  · rwa [calls_append, dispatch]
  · rwa [results_append, nothing, List.append_nil]

theorem plays_cancelled (stands : loop.Stands begun behind log started completed subresults) :
    loop.Plays info begun behind (fun _ _ log' => loop.Stands begun behind log' started completed subresults)
      (loop.cancelled info) work log := by
  unfold cancelled
  split
  · refine plays_call_bind trivial fun state => ?_
    have asked : loop.Stands begun behind (log ++ [⟨.getState info.runId, .ok state⟩]) started completed subresults :=
      stands.quiet rfl rfl rfl rfl
    cases state with
    | none => exact plays_pure asked
    | some state => exact plays_pure asked
  · exact plays_pure stands

/-- A planner that is not injected plans nothing. -/
theorem plays_plan (stands : loop.Stands begun behind log started completed subresults) (left : started < loop.maxIterations.toNat) :
    loop.Plays info begun behind
      (fun ds _ log' => ds = [] ∧ loop.Stands begun behind log' started completed subresults ∨
        loop.Stands begun behind log' (started + 1) completed subresults)
      (loop.plan info subresults) work log := by
  unfold plan
  split
  · refine plays_look (plays_handing ⟨?_, stands.collected.symm⟩ fun a => .inr ?_)
    · exact lt_of_le_of_lt stands.planned left
    · obtain ⟨planned, saved, dispatched, collected⟩ := stands
      refine ⟨?_, ?_, ?_, ?_⟩
      · rw [calls_append]
        exact Nat.succ_le_succ planned
      · rwa [calls_append]
      · rwa [calls_append]
      · rwa [results_append, show result _ = [] from rfl, List.append_nil]
  · exact plays_pure (.inl ⟨rfl, stands⟩)

theorem plays_check {fanOut : Nat} {gate : WorthItGate} (stands : loop.Stands begun behind log started completed subresults) :
    loop.Plays info begun behind
      (fun decision _ log' => loop.Stands begun behind log' started completed subresults ∧
        (decision.passes = true → loop.Checked info subresults.length log' gate))
      (check info (loop.projection subresults.length fanOut) gate) work log := by
  cases gate with
  | custom =>
      refine plays_look (plays_handing trivial fun a => ⟨stands.quiet rfl rfl rfl rfl, fun passes => ?_⟩)
      exact ⟨log, work, fanOut, a.1, a.2, rfl, passes⟩
  | default g =>
      refine plays_call_bind trivial fun costUsd => plays_pure ⟨stands.quiet rfl rfl rfl rfl, fun passes => ?_⟩
      exact ⟨log, costUsd, fanOut, rfl, passes⟩

theorem plays_worthIt {fanOut : Nat} (stands : loop.Stands begun behind log started completed subresults) :
    loop.Plays info begun behind
      (fun worth _ log' => loop.Stands begun behind log' started completed subresults ∧
        (worth = true → ∀ gate, loop.worthItGate = some gate → loop.Checked info subresults.length log' gate))
      (loop.worthIt info subresults fanOut) work log := by
  unfold worthIt
  split
  · next none =>
      refine plays_pure ⟨stands, fun _ gate wired => ?_⟩
      rw [none] at wired
      cases wired
  · next gate wired =>
      refine plays_bind (plays_check stands) fun decision work' log' ⟨stands, checked⟩ => ?_
      split
      · next passes =>
          refine plays_pure ⟨stands, fun _ other same => ?_⟩
          rw [wired] at same
          cases same
          exact checked passes
      · exact plays_say fun work' => plays_pure ⟨stands, nofun⟩

theorem plays_spawn {iteration fanOut index : Nat} {ds : List DelegationContract}
    (stands : loop.Stands begun behind log started completed subresults) (late : begun ≤ iteration)
    (fits : ds.length + subresults.length ≤ loop.budget.maxSubagents.toNat) :
    loop.Plays info begun behind (fun subresults' _ log' => loop.Stands begun behind log' started completed subresults')
      (loop.spawn info iteration fanOut index ds subresults) work log := by
  induction ds generalizing index subresults work log with
  | nil => exact plays_pure stands
  | cons d ds ih =>
      rw [List.length_cons] at fits
      refine plays_bind (plays_worthIt stands) fun worth work' log' ⟨stands, checked⟩ => ?_
      cases worth with
      | false => exact plays_pure stands
      | true =>
          refine plays_look (plays_handing_bind ⟨?_, ?_, ?_⟩ fun a => plays_say fun work'' => ih ?_ ?_)
          · rw [stands.dispatched]
            omega
          · exact ⟨iteration, index, d, late, rfl⟩
          · rw [stands.dispatched]
            exact checked rfl
          · obtain ⟨planned, saved, dispatched, collected⟩ := stands
            refine ⟨?_, ?_, ?_, ?_⟩
            · rwa [calls_append]
            · rwa [calls_append]
            · rw [calls_append, List.length_append, ← dispatched]
              rfl
            · rw [results_append, ← List.append_assoc, collected]
              rfl
          · rw [List.length_append, List.length_singleton]
            omega

theorem plays_checkpoint {iteration : Nat} (stands : loop.Stands begun behind log started completed subresults) :
    loop.Plays info begun behind (fun _ _ log' => loop.Stands begun behind log' started (completed + 1) subresults)
      (loop.checkpoint info iteration) work log := by
  obtain ⟨planned, saved, dispatched, collected⟩ := stands
  unfold checkpoint
  split
  · next wired =>
      refine plays_look (@plays_call _ _ _ _ _ _ (.save info.runId _ _) _ wired fun a => ⟨?_, fun wired => ?_, ?_, ?_⟩)
      · rwa [calls_append]
      · rw [calls_append, ← saved wired]
        rfl
      · rwa [calls_append]
      · rwa [results_append, show result _ = [] from rfl, List.append_nil]
  · next unwired => exact plays_pure ⟨planned, fun wired => absurd wired unwired, dispatched, collected⟩

/-- By induction on the iterations left, which are those up to the bound. -/
theorem plays_iterate {left iteration : Nat} (stands : loop.Stands begun behind log iteration iteration subresults)
    (late : begun ≤ iteration) (bound : left ≤ loop.maxIterations.toNat - iteration) :
    loop.Plays info begun behind (fun out _ log' => ∃ started, loop.Stands begun behind log' started out.1 out.2)
      (loop.iterate info left iteration subresults) work log := by
  induction left generalizing iteration subresults work log with
  | zero => exact plays_pure ⟨iteration, stands⟩
  | succ left ih =>
      refine plays_bind (plays_cancelled stands) fun cancelled work' log' stands => ?_
      cases cancelled with
      | true => exact plays_say fun work'' => plays_pure ⟨iteration, stands⟩
      | false =>
          refine plays_bind (plays_plan stands (by omega)) fun ds work' log' planned => ?_
          split
          · rcases planned with ⟨-, stands⟩ | stands
            · exact plays_pure ⟨_, stands⟩
            · exact plays_pure ⟨_, stands⟩
          · next some =>
              rcases planned with ⟨rfl, -⟩ | stands
              · exact absurd rfl some
              dsimp only
              split
              · exact plays_say fun work'' => plays_pure ⟨_, stands⟩
              · next room =>
                  refine plays_bind (plays_spawn stands late ?_) fun subresults' work'' log'' stands => ?_
                  · rw [List.length_take]
                    omega
                  · refine plays_bind (plays_checkpoint stands) fun _ work' log' stands => ?_
                    exact ih stands (by omega) (by omega)

theorem plays_continued :
    loop.Plays info begun behind
      (fun _ work' log' => ∃ started completed subresults work'', loop.Stands begun behind log' started completed subresults ∧
        work' = recorded completed subresults work'')
      (loop.continued info begun behind) work [] := by
  have start : loop.Stands begun behind [] begun begun behind := ⟨le_refl begun, fun _ => rfl, rfl, List.append_nil _⟩
  have bound : loop.remaining begun ≤ loop.maxIterations.toNat - begun := by
    unfold remaining
    omega
  refine plays_bind (plays_iterate start (le_refl begun) bound) ?_
  rintro ⟨completed, subresults⟩ work' log' ⟨started, stands⟩
  exact Act.follows_modify ⟨started, completed, subresults, work', stands, rfl⟩

end plays

variable {loop}

/-- A run's outcome, what it leaves of the context, and its calls. -/
def played (m : LoopM Unit) (work : Work) (player : Player LoopSig) : (Except Exn Unit × Work) × List (Event LoopSig) :=
  (m work).play player []

/-- Nothing raises where nothing that is called does. -/
theorem Plays.returned {info : RunInfo} {begun : Nat} {behind : List SubResult} {post : Unit → Work → List (Event LoopSig) → Prop}
    {m : LoopM Unit} {work : Work} {player : Player LoopSig} (plays : loop.Plays info begun behind post m work [])
    (returns : player.Returns) :
    ∃ work', (played m work player).1 = (.ok (), work') ∧ post () work' (played m work player).2 := by
  have ends : Ends post (played m work player).1.1 (played m work player).1.2 (played m work player).2 :=
    (Effects.Prog.Follows.play plays player).2
  have answered : ∀ e ∈ (played m work player).2, ∃ a, e.reply = .ok a :=
    Effects.Prog.play_answered returns (m work) fun e member => absurd member List.not_mem_nil
  generalize played m work player = out at ends answered ⊢
  obtain ⟨⟨outcome, work'⟩, log⟩ := out
  cases outcome with
  | ok u => exact ⟨work', rfl, ends⟩
  | error error =>
      obtain ⟨e, member, error, raised⟩ := ends
      obtain ⟨a, fine⟩ := answered e member
      exact nomatch raised.symm.trans fine

section run

variable {info : RunInfo} {begun : Nat} {behind : List SubResult} {work : Work} {player : Player LoopSig}
  {before after : List (Event LoopSig)} {e : Event LoopSig}

theorem call_bounded (whole : (played (loop.continued info begun behind) work player).2 = before ++ e :: after) :
    loop.bounded info begun behind before e.op :=
  (Effects.Prog.Follows.play plays_continued player).1 before e after whole List.nil_prefix

theorem continued_returns (returns : player.Returns) :
    ∃ started completed subresults work', loop.Stands begun behind (played (loop.continued info begun behind) work player).2
        started completed subresults ∧
      (played (loop.continued info begun behind) work player).1 = (.ok (), recorded completed subresults work') := by
  obtain ⟨work', same, started, completed, subresults, work'', stands, rfl⟩ :=
    @Plays.returned loop info begun behind _ _ work player plays_continued returns
  exact ⟨started, completed, subresults, work'', stands, same⟩

theorem plans_bounded : begun + calls LoopOp.isPlan (played (loop.continued info begun behind) work player).2 ≤
    max begun loop.maxIterations.toNat := by
  have each : calls LoopOp.isPlan (played (loop.continued info begun behind) work player).2 ≤ loop.maxIterations.toNat - begun := by
    refine Effects.countP_le_of_each fun before e after whole counted => ?_
    have bounded := call_bounded whole
    obtain ⟨op, reply⟩ := e
    cases op with
    | plan sc subresults =>
        obtain ⟨few, -⟩ := bounded
        unfold calls at few
        omega
    | _ => cases counted
  omega

theorem dispatches_bounded : behind.length + calls LoopOp.isDispatch (played (loop.continued info begun behind) work player).2 ≤
    max behind.length loop.budget.maxSubagents.toNat := by
  have each : calls LoopOp.isDispatch (played (loop.continued info begun behind) work player).2 ≤
      loop.budget.maxSubagents.toNat - behind.length := by
    refine Effects.countP_le_of_each fun before e after whole counted => ?_
    have bounded := call_bounded whole
    obtain ⟨op, reply⟩ := e
    cases op with
    | dispatch d sc =>
        obtain ⟨few, -⟩ := bounded
        unfold calls at few
        omega
    | _ => cases counted
  omega

theorem dispatch_checked (whole : (played (loop.continued info begun behind) work player).2 = before ++ e :: after)
    (dispatch : e.op.isDispatch = true) {gate : WorthItGate} (wired : loop.worthItGate = some gate) :
    loop.Checked info (behind.length + calls LoopOp.isDispatch before) before gate := by
  have bounded := call_bounded whole
  obtain ⟨op, reply⟩ := e
  cases op with
  | dispatch d sc => exact bounded.2.2 gate wired
  | _ => cases dispatch

end run

/-- Planner calls, dispatches and checks of a run, whatever it is answered; where it is answered at
all it comes to its end. -/
theorem loop_bounded (info : RunInfo) (work : Work) (player : Player LoopSig) :
    let log := (played (loop.run info) work player).2
    calls LoopOp.isPlan log ≤ max 0 loop.maxIterations ∧
    calls LoopOp.isDispatch log ≤ max 0 loop.budget.maxSubagents ∧
    (∀ before e after, log = before ++ e :: after → e.op.isDispatch = true → ∀ gate, loop.worthItGate = some gate →
      loop.Checked info (calls LoopOp.isDispatch before) before gate) ∧
    (∀ g, loop.worthItGate = some (.default g) →
      calls LoopOp.isDispatch log ≤ max 0 g.fanoutCap ∧
      ∀ before e after, log = before ++ e :: after → e.op.isDispatch = true → ∃ earlier costUsd fanOut,
        before = earlier ++ [⟨.total info.runId, .ok costUsd⟩] ∧
        costUsd + g.priced (loop.projection (calls LoopOp.isDispatch before) fanOut) ≤ g.costCapUsd) ∧
    (player.Returns → ∃ work', (played (loop.run info) work player).1 = (.ok (), work')) := by
  intro log
  have checked : ∀ before e after, log = before ++ e :: after → e.op.isDispatch = true → ∀ gate, loop.worthItGate = some gate →
      loop.Checked info (calls LoopOp.isDispatch before) before gate := by
    intro before e after whole dispatch gate wired
    have here := dispatch_checked whole dispatch wired
    rwa [List.length_nil, Nat.zero_add] at here
  refine ⟨?_, ?_, checked, fun g wired => ⟨?_, ?_⟩, fun returns => ?_⟩
  · have few : 0 + calls LoopOp.isPlan log ≤ max 0 loop.maxIterations.toNat := plans_bounded
    omega
  · have few : List.length [] + calls LoopOp.isDispatch log ≤ max (List.length []) loop.budget.maxSubagents.toNat :=
      dispatches_bounded
    rw [List.length_nil] at few
    omega
  · have few : calls LoopOp.isDispatch log ≤ g.fanoutCap.toNat := by
      refine Effects.countP_le_of_each fun before e after whole dispatch => ?_
      obtain ⟨earlier, costUsd, fanOut, -, passes⟩ := checked before e after whole dispatch _ wired
      obtain ⟨within, -⟩ := g.decide_passes.mp passes
      have counted : (calls LoopOp.isDispatch before : Int) + 1 ≤ g.fanoutCap := within
      unfold calls at counted
      omega
    omega
  · intro before e after whole dispatch
    obtain ⟨earlier, costUsd, fanOut, last, passes⟩ := checked before e after whole dispatch _ wired
    exact ⟨earlier, costUsd, fanOut, last, (g.decide_passes.mp passes).2⟩
  · obtain ⟨started, completed, subresults, work', stands, returned⟩ :=
      @continued_returns loop info 0 [] work player returns
    exact ⟨_, returned⟩

/-- Plans one delegation as long as there are no results, and answers everything. -/
def research : Player LoopSig := fun _ op =>
  match op with
  | .getState _ => .ok none
  | .plan sc subresults =>
      .ok (if subresults.isEmpty then [{ objective := "research region mix", outputFormat := "text" }] else [], sc.work)
  | .total _ => .ok (0 : ℚ)
  | .check sc _ => .ok ({}, sc.work)
  | .dispatch d sc => .ok ({ delegationObjective := d.objective, summary := "in-process answer" }, sc.work)
  | .save _ _ _ => .ok ()

def researchRun : RunInfo := { runId := "r1", tenant := { tenantId := "t" }, goal := "open-ended research" }

/-- Below zero the bound is not one: no planner call is still more than that. -/
theorem negative_bound :
    let loop : OrchestratorLoop := { maxIterations := -1 }
    ¬(calls LoopOp.isPlan (played (loop.run researchRun) { extras := .none } research).2 : Int) ≤ loop.maxIterations := by
  decide

end OrchestratorLoop
end Maof
