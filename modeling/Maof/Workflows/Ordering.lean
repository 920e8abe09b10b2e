import Maof.Workflows.Definition
import Mathlib.Data.List.Sort

/-!
# Definitions that can be ordered

A definition is accepted exactly when its steps can be put into an order in
which every step comes after those it depends on.
-/

namespace Maof
namespace WorkflowDefinition

variable {d : WorkflowDefinition}

/-- Every `depends_on` entry names a step. -/
def Resolved (d : WorkflowDefinition) : Prop := ∀ s ∈ d.steps, ∀ dep ∈ s.dependsOn, dep ∈ d.ids

/-- The steps, of distinct names, each after all it depends on. -/
structure Topological (d : WorkflowDefinition) (order : List WorkflowStep) : Prop where
  perm : order.Perm d.steps
  unique : (order.map WorkflowStep.id).Nodup
  after : ∀ before s rest, order = before ++ s :: rest → ∀ dep ∈ s.dependsOn, dep ∈ before.map WorkflowStep.id

theorem Accepted.acyclic (h : d.Accepted) (id : StepId) : ¬ d.Upstream id id := by
  obtain ⟨rank, below⟩ := h.rank
  exact Graph.acyclic_of_rank rank below id

theorem accepted_of_acyclic (unique : d.ids.Nodup) (resolved : d.Resolved) (acyclic : ∀ id, ¬ d.Upstream id id) :
    d.Accepted := by
  have known : ∀ id dep, d.DependsOn id dep → dep ∈ d.ids := by
    rintro id dep ⟨s, member, rfl, needed⟩
    exact resolved s member dep needed
  obtain ⟨rank, below⟩ := Graph.rank_of_acyclic known acyclic
  apply accepted_of_rank unique rank
  intro s member dep needed
  exact ⟨resolved s member dep needed, below s.id dep ⟨s, member, rfl, needed⟩⟩

/-- By rank, the steps are in order. -/
theorem Accepted.exists_topological (h : d.Accepted) : ∃ order, d.Topological order := by
  obtain ⟨rank, below⟩ := h.rank
  let order := d.steps.insertionSort fun s t => rank s.id ≤ rank t.id
  have perm : order.Perm d.steps := List.perm_insertionSort _ _
  have unique : (order.map WorkflowStep.id).Nodup := (perm.map WorkflowStep.id).nodup_iff.mpr h.nodup
  refine ⟨order, perm, unique, ?_⟩
  intro before s rest split dep needed
  have sorted : (before ++ s :: rest).Pairwise fun s t => rank s.id ≤ rank t.id := by
    rw [← split]
    exact List.pairwise_insertionSort _ _
  have member : s ∈ d.steps := perm.mem_iff.mp (split ▸ List.mem_append_right _ List.mem_cons_self)
  obtain ⟨t, there, rfl⟩ := List.mem_map.mp (h.known member needed)
  have lower := below s.id t.id ⟨s, member, rfl, needed⟩
  have inside : t ∈ before ++ s :: rest := split ▸ perm.mem_iff.mpr there
  rcases List.mem_append.mp inside with earlier | later
  · exact List.mem_map_of_mem earlier
  · rcases List.mem_cons.mp later with rfl | last
    · exact absurd lower (lt_irrefl _)
    · have above := (List.pairwise_cons.mp (List.pairwise_append.mp sorted).2.1).1 t last
      omega

/-- The place of a step in an order ranks it. -/
theorem Topological.accepted {order : List WorkflowStep} (h : d.Topological order) : d.Accepted := by
  have names : (order.map WorkflowStep.id).Perm d.ids := h.perm.map WorkflowStep.id
  apply accepted_of_rank (names.nodup_iff.mp h.unique) fun id => (order.map WorkflowStep.id).idxOf id
  intro s member dep needed
  obtain ⟨before, rest, split⟩ := List.append_of_mem (h.perm.mem_iff.mpr member)
  have earlier := h.after before s rest split dep needed
  have mapped : order.map WorkflowStep.id = before.map WorkflowStep.id ++ s.id :: rest.map WorkflowStep.id := by
    rw [split, List.map_append, List.map_cons]
  constructor
  · apply names.mem_iff.mp
    rw [mapped]
    exact List.mem_append_left _ earlier
  · have new : s.id ∉ before.map WorkflowStep.id := by
      intro again
      have apart := List.nodup_append.mp (mapped ▸ h.unique)
      exact apart.2.2 s.id again s.id List.mem_cons_self rfl
    rw [mapped, List.idxOf_append_of_mem earlier, List.idxOf_append_of_notMem new, List.idxOf_cons_self]
    have inside := List.idxOf_lt_length_of_mem earlier
    omega

/-- The loop ends, and the definition is accepted exactly when its steps have distinct names, depend on steps alone and on
none of themselves; which is when they have a topological order. -/
theorem validateDag_exact (d : WorkflowDefinition) :
    Graph.Rounds d.edges (Graph.stuck d.steps.length d.edges) ∧
    (d.validateDag = .ok () ↔ d.ids.Nodup ∧ d.Resolved ∧ ∀ id, ¬ d.Upstream id id) ∧
    (d.validateDag = .ok () ↔ ∃ order, d.Topological order) := by
  refine ⟨Graph.rounds_stuck (by simp [edges]), ⟨fun h => ?_, fun h => ?_⟩, fun h => ?_, fun h => ?_⟩
  · have accepted : d.Accepted := h
    exact ⟨accepted.nodup, fun _ member _ => accepted.known member, accepted.acyclic⟩
  · exact accepted_of_acyclic h.1 h.2.1 h.2.2
  · exact Accepted.exists_topological h
  · obtain ⟨order, topological⟩ := h
    exact topological.accepted

end WorkflowDefinition
end Maof
