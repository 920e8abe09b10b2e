import Mathlib.Logic.Relation

/-!
# Dataflow

Pieces of work that wait for one another. One is handed out once all it waits for
has been answered, and answered once it has been handed out; both may happen again.
-/

namespace Data

structure Dataflow (K : Type*) where
  waits : K → K → Prop

namespace Dataflow

variable {K : Type*}

/-- What has been handed out and what has been answered, in order. -/
structure State (K : Type*) where
  sent : List K := []
  answered : List K := []

variable (flow : Dataflow K)

inductive Step : State K → State K → Prop
  | send {s : State K} (k : K) : (∀ k', flow.waits k k' → k' ∈ s.answered) → Step s { s with sent := s.sent ++ [k] }
  | answer {s : State K} (k : K) : k ∈ s.sent → Step s { s with answered := s.answered ++ [k] }

/-- What holds of a state where the work is done in order. -/
structure InOrder (s : State K) : Prop where
  sent : ∀ k ∈ s.sent, ∀ k', flow.waits k k' → k' ∈ s.answered
  asked : ∀ k ∈ s.answered, k ∈ s.sent
  after : ∀ before k rest, s.answered = before ++ k :: rest → ∀ k', flow.waits k k' → k' ∈ before

variable {flow} {s s' : State K}

theorem InOrder.start : flow.InOrder {} :=
  ⟨fun _ none => (nomatch none), fun _ none => (nomatch none), fun before k rest split => absurd split (by simp)⟩

theorem InOrder.step (inOrder : flow.InOrder s) (step : flow.Step s s') : flow.InOrder s' := by
  cases step with
  | send k ready =>
      refine ⟨fun x member k' waits => ?_, fun x member => List.mem_append_left _ (inOrder.asked x member), inOrder.after⟩
      rcases List.mem_append.mp member with old | new
      · exact inOrder.sent x old k' waits
      · rw [List.mem_singleton.mp new] at waits
        exact ready k' waits
  | answer k asked =>
      refine ⟨fun x member k' waits => List.mem_append_left _ (inOrder.sent x member k' waits), fun x member => ?_,
        fun before x rest split k' waits => ?_⟩
      · rcases List.mem_append.mp member with old | new
        · exact inOrder.asked x old
        · exact List.mem_singleton.mp new ▸ asked
      · -- the answer is the last one, or an old one
        rcases List.append_eq_append_iff.mp split with ⟨mid, rfl, last⟩ | ⟨mid, old, last⟩
        · cases mid with
          | nil =>
              obtain ⟨rfl, _⟩ := List.cons.inj last
              rw [List.append_nil]
              exact inOrder.sent k asked k' waits
          | cons first mid => simp at last
        · cases mid with
          | nil =>
              rw [List.append_nil] at old
              obtain ⟨rfl, _⟩ := List.cons.inj last
              exact old ▸ inOrder.sent x asked k' waits
          | cons first mid =>
              obtain ⟨rfl, _⟩ := List.cons.inj last
              exact inOrder.after before x mid old k' waits

theorem InOrder.of_reached (reached : Relation.ReflTransGen flow.Step {} s) : flow.InOrder s := by
  induction reached with
  | refl => exact .start
  | tail _ step ih => exact ih.step step

/-- What is waited for at second hand is answered before as well. -/
theorem InOrder.after_all (inOrder : flow.InOrder s) {before rest : List K} {k k' : K} (split : s.answered = before ++ k :: rest)
    (behind : Relation.TransGen flow.waits k k') : k' ∈ before := by
  induction behind using Relation.TransGen.head_induction_on generalizing before rest with
  | single waits => exact inOrder.after before _ rest split _ waits
  | head waits _ ih =>
      obtain ⟨early, late, parts⟩ := List.append_of_mem (inOrder.after before _ rest split _ waits)
      rw [parts, List.append_assoc, List.cons_append] at split
      exact parts ▸ List.mem_append_left _ (ih split)

/-- Answers to what has been handed out may all be given. -/
theorem reaches_answers (ks : List K) (asked : ∀ k ∈ ks, k ∈ s.sent) :
    Relation.ReflTransGen flow.Step s { s with answered := s.answered ++ ks } := by
  induction ks generalizing s with
  | nil => simpa using Relation.ReflTransGen.refl
  | cons k ks ih =>
      have first : flow.Step s { s with answered := s.answered ++ [k] } := .answer k (asked k List.mem_cons_self)
      have rest := ih (s := { s with answered := s.answered ++ [k] }) fun x member => asked x (List.mem_cons_of_mem _ member)
      simp only [List.append_assoc, List.singleton_append] at rest
      exact .head first rest

end Dataflow
end Data
