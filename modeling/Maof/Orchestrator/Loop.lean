import Mathlib.Algebra.Order.Field.Rat
import Maof.Effects.Play
import Maof.Orchestrator.Delegation

/-!
# The autonomous loop

The lead agent plans, delegations are dispatched one by one, and the loop goes on until the
planner has no more, a bound is reached or the run is cancelled. Planner, gate, ledger, dispatch
and stores are calls; code that is given the context may leave it changed.
-/

namespace Maof

open Data (Dict)
open Effects (Sig Act Event Player Protocol)

structure EffortBudget where
  maxSubagents : Int := 3
  maxTokens : Int := 100000

structure CostProjection where
  projectedSubagents : Int := 0
  projectedTokens : Int := 0
  projectedUsd : ℚ := 0
  fanOut : Int := 0

def SubResult.dump (r : SubResult) : Json :=
  .obj [("delegation_objective", .str r.delegationObjective), ("summary", .str r.summary),
    ("artifacts", .strs r.artifacts), ("status", .str r.status), ("tokens", .int r.tokens)]

/-- Neither denied nor waiting for an approval. -/
def RuleDecision.passes (d : RuleDecision) : Bool := !(d.denied || d.requireApproval)

/-! ## The gate -/

structure DefaultWorthItGate where
  fanoutCap : Int := 10
  costCapUsd : ℚ := 10
  action : String := "require_approval"
  pricePer1k : ℚ := 0
  /-- How an amount is written, with two decimals and in full. -/
  fixed2 : ℚ → String := fun _ => ""
  shown : ℚ → String := fun _ => ""

namespace DefaultWorthItGate

variable (g : DefaultWorthItGate)

/-- The projected cost, that of the projected tokens where none is given. -/
def priced (projected : CostProjection) : ℚ :=
  if projected.projectedUsd = 0 ∧ projected.projectedTokens ≠ 0 ∧ g.pricePer1k ≠ 0 then
    projected.projectedTokens / 1000 * g.pricePer1k
  else projected.projectedUsd

def decide (costUsd : ℚ) (projected : CostProjection) : RuleDecision :=
  let projectedCost := costUsd + g.priced projected
  let overFanout := g.fanoutCap < projected.projectedSubagents
  let overCost := g.costCapUsd < projectedCost
  if ¬(overFanout ∨ overCost) then {}
  else
    let reason := "worth-it gate: subagents " ++ String.ofList (JsonText.intText projected.projectedSubagents) ++ " (cap " ++
      String.ofList (JsonText.intText g.fanoutCap) ++ "), projected $" ++ g.fixed2 projectedCost ++ " (cap $" ++
      g.shown g.costCapUsd ++ ")"
    if g.action = "deny" ∨ g.action = "cap" then { denied := true, denialReason := reason }
    else { requireApproval := true, approvalReason := reason }

theorem decide_passes {costUsd : ℚ} {projected : CostProjection} :
    (g.decide costUsd projected).passes = true ↔
      projected.projectedSubagents ≤ g.fanoutCap ∧ costUsd + g.priced projected ≤ g.costCapUsd := by
  simp only [decide]
  split
  · next within =>
      obtain ⟨fanout, cost⟩ := not_or.mp within
      exact ⟨fun _ => ⟨not_lt.mp fanout, not_lt.mp cost⟩, fun _ => rfl⟩
  · next past =>
      refine ⟨fun passes => ?_, fun within => ?_⟩
      · split at passes
        · cases passes
        · cases passes
      · exact absurd (not_or.mpr ⟨not_lt.mpr within.1, not_lt.mpr within.2⟩) past

end DefaultWorthItGate

/-- A gate of the adopter's, or the one that comes with the ledger. -/
inductive WorthItGate where
  | custom
  | default (gate : DefaultWorthItGate)

/-! ## Calls -/

inductive LoopOp where
  | getState (runId : RunId)
  | plan (sc : StageContext) (subresults : List SubResult)
  | total (runId : RunId)
  | check (sc : StageContext) (projected : CostProjection)
  | dispatch (delegation : DelegationContract) (sc : StageContext)
  | save (runId : RunId) (step : String) (sc : StageContext)

/-- `none` of a state is a `KeyError`; a total is the ledgered cost in dollars. -/
def LoopOp.Ans : LoopOp → Type
  | .getState _ => Option RunState
  | .plan _ _ => List DelegationContract × Work
  | .total _ => ℚ
  | .check _ _ => RuleDecision × Work
  | .dispatch _ _ => SubResult × Work
  | .save _ _ _ => Unit

def LoopSig : Sig := ⟨LoopOp, LoopOp.Ans, Exn⟩

abbrev LoopM (α : Type) : Type := Act LoopSig Work α

def loopCall (op : LoopOp) : LoopM op.Ans := Act.await (S := LoopSig) op

structure OrchestratorLoop where
  budget : EffortBudget := {}
  /-- A planner is injected. -/
  planner : Bool := true
  /-- A checkpointer is wired. -/
  checkpointer : Bool := true
  worthItGate : Option WorthItGate := none
  maxIterations : Int := 10
  /-- The context has a run store. -/
  runStore : Bool := true

namespace OrchestratorLoop

/-- A call of code that is given the context. -/
def handing {α : Type} (op : LoopOp) (answer : op.Ans → α × Work) : LoopM α := do
  let (a, work) := answer (← loopCall op)
  Act.modify fun _ => work
  return a

variable (loop : OrchestratorLoop)

def say (line : String) : LoopM Unit := Act.modify fun work => { work with dialogue := work.dialogue ++ [line] }

def plan (info : RunInfo) (subresults : List SubResult) : LoopM (List DelegationContract) := do
  if loop.planner then
    let work ← Act.get
    handing (.plan { info, work } subresults) id
  else return []

def cancelled (info : RunInfo) : LoopM Bool := do
  if loop.runStore then
    match ← loopCall (.getState info.runId) with
    | some state => return state.cancelRequested || state.status = .cancelled
    | none => return false
  else return false

def check (info : RunInfo) (projected : CostProjection) : WorthItGate → LoopM RuleDecision
  | .custom => do
      let work ← Act.get
      handing (.check { info, work } projected) id
  | .default g => do
      let costUsd ← loopCall (.total info.runId)
      return g.decide costUsd projected

def projection (subresults fanOut : Nat) : CostProjection :=
  { projectedSubagents := subresults + 1, projectedTokens := loop.budget.maxTokens, fanOut }

def worthIt (info : RunInfo) (subresults : List SubResult) (fanOut : Nat) : LoopM Bool :=
  match loop.worthItGate with
  | none => return true
  | some gate => do
      let decision ← check info (loop.projection subresults.length fanOut) gate
      if decision.passes then return true
      else
        say ("worth-it gate halted further fan-out: " ++
          if decision.denialReason ≠ "" then decision.denialReason else decision.approvalReason)
        return false

def first (n : Nat) (text : String) : String := String.ofList (text.toList.take n)

/-- A delegation without a step of its own has one by its iteration and place. -/
def stepped (iteration index : Nat) (d : DelegationContract) : DelegationContract :=
  match d.stepRef with
  | some _ => d
  | none => { d with stepRef := some (String.ofList (JsonText.intText iteration) ++ ":" ++ String.ofList (JsonText.intText index)) }

/-- The delegations of one iteration, until the gate halts. -/
def spawn (info : RunInfo) (iteration fanOut : Nat) :
    Nat → List DelegationContract → List SubResult → LoopM (List SubResult)
  | _, [], subresults => return subresults
  | index, d :: ds, subresults => do
      if ← loop.worthIt info subresults fanOut then
        let work ← Act.get
        let result ← handing (.dispatch (stepped iteration index d) { info, work }) id
        say ("subresult[" ++ first 40 d.objective ++ "]: " ++ first 200 result.summary)
        spawn info iteration fanOut (index + 1) ds (subresults ++ [result])
      else return subresults

def checkpoint (info : RunInfo) (iteration : Nat) : LoopM Unit := do
  if loop.checkpointer then
    let work ← Act.get
    loopCall (.save info.runId ("loop-" ++ String.ofList (JsonText.intText iteration)) { info, work })

/-- The loop's body, and `next` where it goes round again. -/
def around (info : RunInfo) (iteration : Nat) (subresults : List SubResult)
    (next : List SubResult → LoopM (Nat × List SubResult)) : LoopM (Nat × List SubResult) := do
  if ← loop.cancelled info then
    say "run cancelled by operator; loop halted"
    return (iteration, subresults)
  let delegations ← loop.plan info subresults
  if delegations.isEmpty then return (iteration, subresults)
  let budgetLeft := loop.budget.maxSubagents - subresults.length
  if budgetLeft ≤ 0 then
    say "effort budget exhausted: max_subagents reached"
    return (iteration, subresults)
  let subresults ← loop.spawn info iteration delegations.length 0 (delegations.take budgetLeft.toNat) subresults
  loop.checkpoint info (iteration + 1)
  next subresults

/-- The loop, with so many iterations left to its bound. -/
def iterate (info : RunInfo) : Nat → Nat → List SubResult → LoopM (Nat × List SubResult)
  | 0, iteration, subresults => return (iteration, subresults)
  | left + 1, iteration, subresults => loop.around info iteration subresults (iterate info left (iteration + 1))

def remaining (iteration : Nat) : Nat := (loop.maxIterations - iteration).toNat

/-- `while iteration < max_iterations`: none is left where the test fails. -/
theorem iterate_while (info : RunInfo) (iteration : Nat) (subresults : List SubResult) :
    loop.iterate info (loop.remaining iteration) iteration subresults =
      if iteration < loop.maxIterations then
        loop.around info iteration subresults (loop.iterate info (loop.remaining (iteration + 1)) (iteration + 1))
      else return (iteration, subresults) := by
  split
  · next within =>
      have one_more : loop.remaining iteration = loop.remaining (iteration + 1) + 1 := by
        unfold remaining
        omega
      rw [one_more]
      rfl
  · next past =>
      have none_left : loop.remaining iteration = 0 := by
        unfold remaining
        omega
      rw [none_left]
      rfl

end OrchestratorLoop

/-- An entry of an adopter's own. -/
def Extras.keep (x : Extras) (key : String) (value : Json) (own : key ∉ reservedExtras) : Extras :=
  { x with
    other := Dict.set x.other key value
    free := by
      intro k member
      rcases (Dict.mem_keys_set x.other key k value).mp member with rfl | old
      · exact own
      · exact x.free k old }

namespace OrchestratorLoop

variable (loop : OrchestratorLoop)

def recorded (iteration : Nat) (subresults : List SubResult) (work : Work) : Work :=
  let extras := work.extras.keep "subresults" (.arr (subresults.map SubResult.dump)) (by decide)
  { work with extras := extras.keep "iterations" (.int iteration) (by decide) }

/-- The loop with so many iterations and these subresults behind it. -/
def continued (info : RunInfo) (iteration : Nat) (subresults : List SubResult) : LoopM Unit := do
  let (iteration, subresults) ← loop.iterate info (loop.remaining iteration) iteration subresults
  Act.modify (recorded iteration subresults)

def run (info : RunInfo) : LoopM Unit := loop.continued info 0 []

end OrchestratorLoop

end Maof
