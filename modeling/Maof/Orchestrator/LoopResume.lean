import Maof.Orchestrator.LoopBounds
import Maof.Runs.Checkpoint

/-!
# The loop after a crash

A loop that stops is run again on the context of its last checkpoint. What it has behind it, its
counter and its results, is in no checkpoint, and every run starts without.
-/

namespace Effects

/-- A player that has these calls behind it. -/
def Player.after {S : Sig} (player : Player S) (history : List (Event S)) : Player S := fun log op => player (history ++ log) op

end Effects

namespace Maof

open Effects (Event Player)

namespace OrchestratorLoop

def saved (e : Event LoopSig) : Option StageContext :=
  match e with
  | ⟨.save _ _ sc, .ok _⟩ => some sc
  | _ => none

/-- The contexts saved, in order. -/
def checkpoints (log : List (Event LoopSig)) : List StageContext := log.filterMap saved

/-- The context a crash after these calls leaves: its last checkpoint, or the one it started with. -/
def restored (sc : StageContext) (log : List (Event LoopSig)) : Except Exn StageContext :=
  match (checkpoints log).getLast? with
  | some saved => checkpointDeserialize (checkpointSerialize saved)
  | none => .ok sc

/-- What has been dispatched has been saved since. -/
def Settled (log : List (Event LoopSig)) : Prop :=
  ∀ before e after, log = before ++ e :: after → e.op.isDispatch = true → ∃ later ∈ after, (saved later).isSome = true

/-- A start of the loop: its context, the iterations completed and their results, and the calls made so far. -/
structure Attempt where
  sc : StageContext
  iteration : Nat := 0
  subresults : List SubResult := []
  history : List (Event LoopSig) := []

variable (loop : OrchestratorLoop) (player : Player LoopSig)

/-- What it calls when nothing stops it. -/
def Attempt.calls (s : Attempt) : List (Event LoopSig) :=
  (played (loop.run s.sc.info) s.sc.work (player.after s.history)).2

/-- The process dies after a checkpoint, and the loop is started again. -/
inductive Crash (s : Attempt) : Attempt → Prop
  | mk {log : List (Event LoopSig)} {sc : StageContext} (made : log <+: s.calls loop player) (settled : Settled log)
      (resumed : restored s.sc log = .ok sc) :
      Crash s { sc, iteration := s.iteration + (checkpoints log).length, subresults := s.subresults ++ results log,
                history := s.history ++ log }

/-- An attempt goes on from what is behind it, dispatches nothing of a completed iteration, and all
that has been dispatched by its end is within the budget. -/
structure Resumes (s : Attempt) : Prop where
  continues : loop.run s.sc.info s.sc.work = loop.continued s.sc.info s.iteration s.subresults s.sc.work
  budgeted : (calls LoopOp.isDispatch (s.history ++ s.calls loop player) : Int) ≤ loop.budget.maxSubagents
  onward : ∀ before after delegation sc reply, s.calls loop player = before ++ ⟨.dispatch delegation sc, reply⟩ :: after →
    ∃ iteration index d, s.iteration ≤ iteration ∧ delegation = stepped iteration index d

section

variable {loop} {player} {s : Attempt} {attempts : List Attempt}

/-- Nothing dispatched has come back, and nothing has been dispatched. -/
theorem results_nil {log : List (Event LoopSig)} (quiet : calls LoopOp.isDispatch log = 0) : results log = [] := by
  refine List.flatMap_eq_nil_iff.mpr fun e member => ?_
  have other := List.countP_eq_zero.mp quiet e member
  obtain ⟨op, reply⟩ := e
  cases op with
  | dispatch d sc => exact absurd rfl other
  | _ => rfl

theorem settled_quiet {log : List (Event LoopSig)} (settled : Settled log) (none_saved : checkpoints log = []) :
    calls LoopOp.isDispatch log = 0 := by
  refine List.countP_eq_zero.mpr fun e member dispatch => ?_
  obtain ⟨before, after, whole⟩ := List.append_of_mem member
  obtain ⟨later, inside, some⟩ := settled before e after whole dispatch
  have unsaved := List.filterMap_eq_nil_iff.mp none_saved later (by
    rw [whole]
    exact List.mem_append_right _ (List.mem_cons_of_mem _ inside))
  rw [unsaved] at some
  cases some

theorem research_returns : research.Returns := by
  intro log op
  cases op with
  | _ => exact ⟨_, rfl⟩

theorem recorded_iterations (completed : Nat) (subresults : List SubResult) (work : Work) :
    Data.Dict.get (recorded completed subresults work).extras.other "iterations" = some (.int completed) :=
  Data.Dict.get_set_self _ _ _

/-- What a loop leaves in the context tells the iterations it had behind it, beside those it saved. -/
theorem continued_iteration {info : RunInfo} {work : Work} {k k' : Nat} {rs rs' : List SubResult} (wired : loop.checkpointer = true)
    (same : loop.continued info k rs work = loop.continued info k' rs' work) : k = k' := by
  obtain ⟨_, completed, subresults, left, stands, returned⟩ := @continued_returns loop info k rs work research research_returns
  obtain ⟨_, completed', subresults', left', stands', returned'⟩ :=
    @continued_returns loop info k' rs' work research research_returns
  have plays : played (loop.continued info k rs) work research = played (loop.continued info k' rs') work research := by
    unfold played
    rw [same]
  rw [plays] at stands returned
  have records : recorded completed subresults left = recorded completed' subresults' left' :=
    congrArg Prod.snd (returned.symm.trans returned')
  have counted := recorded_iterations completed subresults left
  rw [records, recorded_iterations] at counted
  have completes : (completed' : Int) = completed := Json.int.inj (Option.some.inj counted)
  have saves := stands.saved wired
  have saves' := stands'.saved wired
  omega

/-- Without a checkpointer nothing is ever saved. -/
theorem unsaved {log : List (Event LoopSig)} (unwired : loop.checkpointer = false) (made : log <+: s.calls loop player) :
    checkpoints log = [] := by
  obtain ⟨rest, whole⟩ := made
  refine List.filterMap_eq_nil_iff.mpr fun e member => ?_
  obtain ⟨before, after, here⟩ := List.append_of_mem member
  have called : (played (loop.continued s.sc.info 0 []) s.sc.work (player.after s.history)).2 = before ++ e :: (after ++ rest) := by
    change s.calls loop player = _
    rw [← whole, here, List.append_assoc, List.cons_append]
  have allowed := call_bounded called
  obtain ⟨op, reply⟩ := e
  cases op with
  | save runId step sc =>
      have wired : loop.checkpointer = true := allowed
      rw [unwired] at wired
      cases wired
  | _ => rfl

/-- An attempt with nothing behind it. -/
structure Fresh (s : Attempt) : Prop where
  uncounted : s.iteration = 0
  empty : s.subresults = []
  quiet : calls LoopOp.isDispatch s.history = 0

theorem Fresh.crash {s' : Attempt} (fresh : Fresh s) (crash : Crash loop player s s') (uncounted : s'.iteration = 0) : Fresh s' := by
  obtain ⟨made, settled, resumed⟩ := crash
  have none_saved := List.eq_nil_of_length_eq_zero (Nat.eq_zero_of_add_eq_zero_left uncounted)
  have quiet := settled_quiet settled none_saved
  refine ⟨uncounted, ?_, ?_⟩
  · change s.subresults ++ _ = []
    rw [fresh.empty, results_nil quiet, List.append_nil]
  · have before := fresh.quiet
    unfold calls at before quiet ⊢
    rw [List.countP_append, before, quiet]

theorem Fresh.resumes (fresh : Fresh s) (budget : 0 ≤ loop.budget.maxSubagents) : Resumes loop player s := by
  obtain ⟨uncounted, empty, quiet⟩ := fresh
  refine ⟨?_, ?_, ?_⟩
  · rw [uncounted, empty]
    rfl
  · have few : List.length [] + calls LoopOp.isDispatch (s.calls loop player) ≤
        max (List.length []) loop.budget.maxSubagents.toNat := dispatches_bounded
    rw [List.length_nil] at few
    unfold calls at few quiet ⊢
    rw [List.countP_append, quiet]
    omega
  · intro before after delegation sc reply whole
    obtain ⟨-, placed, -⟩ := call_bounded whole
    rwa [uncounted]

theorem fresh_chain (fresh : Fresh s) (chain : List.IsChain (Crash loop player) (s :: attempts))
    (uncounted : ∀ s' ∈ attempts, s'.iteration = 0) : ∀ s' ∈ s :: attempts, Fresh s' := by
  induction attempts generalizing s with
  | nil =>
      intro s' member
      rwa [List.mem_singleton.mp member]
  | cons next attempts ih =>
      obtain ⟨crash, chain⟩ := List.isChain_cons_cons.mp chain
      intro s' member
      rcases List.mem_cons.mp member with rfl | later
      · exact fresh
      · have next_fresh := fresh.crash crash (uncounted next List.mem_cons_self)
        exact ih next_fresh chain (fun s'' inside => uncounted s'' (List.mem_cons_of_mem _ inside)) s' later

/-- No iteration is completed where none is saved. -/
theorem uncounted_chain (unwired : loop.checkpointer = false) (start : s.iteration = 0)
    (chain : List.IsChain (Crash loop player) (s :: attempts)) : ∀ s' ∈ attempts, s'.iteration = 0 := by
  induction attempts generalizing s with
  | nil => exact fun s' member => absurd member List.not_mem_nil
  | cons next attempts ih =>
      obtain ⟨crash, chain⟩ := List.isChain_cons_cons.mp chain
      have first : next.iteration = 0 := by
        obtain ⟨made, settled, resumed⟩ := crash
        change s.iteration + (checkpoints _).length = 0
        rw [start, unsaved unwired made]
        rfl
      intro s' member
      rcases List.mem_cons.mp member with rfl | later
      · exact first
      · exact ih first chain s' later

/-- A run goes on where it stopped exactly if it never stopped with an iteration completed. -/
theorem resumes_iff {sc : StageContext} (chain : List.IsChain (Crash loop player) ({ sc : Attempt } :: attempts)) :
    (∀ s ∈ ({ sc : Attempt } :: attempts), Resumes loop player s) ↔
      0 ≤ loop.budget.maxSubagents ∧ ∀ s ∈ attempts, s.iteration = 0 := by
  constructor
  · intro resumes
    have budgeted := (resumes _ List.mem_cons_self).budgeted
    refine ⟨by omega, fun s member => ?_⟩
    cases wired : loop.checkpointer with
    | false => exact uncounted_chain wired rfl chain s member
    | true =>
        have continues := (resumes s (List.mem_cons_of_mem _ member)).continues
        exact (continued_iteration wired continues).symm
  · rintro ⟨budget, uncounted⟩ s member
    have fresh : Fresh { sc } := ⟨rfl, rfl, rfl⟩
    exact (fresh_chain fresh chain uncounted s member).resumes budget

theorem settled_saved {log : List (Event LoopSig)} {e : Event LoopSig} (last : (saved e).isSome = true) : Settled (log ++ [e]) := by
  intro before e' after whole dispatch
  rcases List.eq_nil_or_concat after with rfl | ⟨middle, last', rfl⟩
  · -- the last call is a save, and no dispatch
    obtain ⟨-, same⟩ := List.append_inj' whole rfl
    obtain ⟨rfl, -⟩ := List.cons.inj same
    obtain ⟨op, reply⟩ := e
    cases op with
    | dispatch d sc => cases last
    | _ => cases dispatch
  · have whole' : log ++ [e] = (before ++ e' :: middle) ++ [last'] := by
      rw [whole, List.append_assoc, List.cons_append, List.concat_eq_append]
    obtain ⟨-, same⟩ := List.append_inj' whole' rfl
    obtain ⟨rfl, -⟩ := List.cons.inj same
    exact ⟨e, by rw [List.concat_eq_append]; exact List.mem_append_right _ (List.mem_singleton_self _), last⟩

end

def single : OrchestratorLoop := { budget := { maxSubagents := 1 }, maxIterations := 2 }

def firstTry : Attempt := { sc := { info := researchRun, work := { extras := .none } } }

/-- The first iteration, up to its checkpoint. -/
def firstIteration : List (Event LoopSig) := (firstTry.calls single research).take 4

def secondTry : Attempt where
  sc := (checkpoints firstIteration).getLast?.getD firstTry.sc
  iteration := 1
  subresults := results firstIteration
  history := firstIteration

theorem first_crash : Crash single research firstTry secondTry := by
  have settled : Settled firstIteration := @settled_saved ((firstTry.calls single research).take 3) _ rfl
  have resumed : restored firstTry.sc firstIteration = .ok secondTry.sc := deserialize_serialize secondTry.sc
  exact .mk (List.take_prefix 4 _) settled resumed

theorem crashed_once : List.IsChain (Crash single research) [firstTry, secondTry] :=
  .cons_cons first_crash (.singleton secondTry)

theorem resumes_research :
    (∀ s ∈ [firstTry, secondTry], Resumes single research s) ↔
      0 ≤ single.budget.maxSubagents ∧ ∀ s ∈ [secondTry], s.iteration = 0 :=
  resumes_iff crashed_once

/-- One iteration behind it, a loop with a budget of one dispatches a second time. -/
theorem dispatched_twice :
    ¬∀ attempts, List.IsChain (Crash single research) (firstTry :: attempts) →
      ∀ s ∈ firstTry :: attempts, Resumes single research s := by
  intro claim
  have again := (claim [secondTry] crashed_once secondTry (List.mem_cons_of_mem _ List.mem_cons_self)).budgeted
  have two : calls LoopOp.isDispatch (secondTry.history ++ secondTry.calls single research) = 2 := by decide
  rw [two] at again
  exact absurd again (by decide)

end OrchestratorLoop
end Maof
