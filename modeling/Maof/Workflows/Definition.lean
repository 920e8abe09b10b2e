import Maof.Workflows.Template
import Maof.Graph.Kahn
import Mathlib.Data.List.Dedup
import Mathlib.Logic.Relation

/-!
# Workflow definitions

A definition is validated once, when it is parsed: unique ids, resolvable
dependencies, no cycle.
-/

namespace Maof

open Data (Dict)

structure ApprovalSpec where
  required : Bool := false
  roles : List String := []
  parties : Int := 1
deriving DecidableEq, Repr

inductive StepKind where
  | task
  | gate
deriving DecidableEq, Repr

structure WorkflowStep where
  id : StepId
  kind : StepKind := .task
  taskType : Option String := none
  agent : Option String := none
  dependsOn : List StepId := []
  input : Dict String Json := []
  coordinationMode : Option String := none
  approval : Option ApprovalSpec := none
  pins : Dict String String := []

structure WorkflowDefinition where
  name : String
  version : Int
  description : String := ""
  steps : List WorkflowStep := []

inductive DagError where
  | duplicateIds
  | unknownDeps (id : StepId) (unknown : List StepId)
  | cycle (remaining : List StepId)
deriving DecidableEq, Repr

def DagError.message (u : Unicode) : DagError → String
  | .duplicateIds => "duplicate step ids in workflow"
  | .unknownDeps id unknown =>
      "step " ++ Template.reprText u (.str id) ++ " depends on unknown steps: " ++
        Template.reprText u (.strs unknown)
  | .cycle remaining => "cycle detected among steps: " ++ Template.reprText u (.strs remaining)

namespace WorkflowDefinition

def ids (d : WorkflowDefinition) : List StepId := d.steps.map WorkflowStep.id

def unknownDeps (d : WorkflowDefinition) (s : WorkflowStep) : List StepId :=
  s.dependsOn.filter fun dep => dep ∉ d.ids

/-- `{s.id: set(s.depends_on) for s in self.steps}`. -/
def edges (d : WorkflowDefinition) : List (StepId × List StepId) :=
  d.steps.map fun s => (s.id, s.dependsOn.dedup)

/-- `_validate_dag`. -/
def validateDag (d : WorkflowDefinition) : Except DagError Unit :=
  if ¬ d.ids.Nodup then .error .duplicateIds
  else match d.steps.find? fun s => !(d.unknownDeps s).isEmpty with
    | some s => .error (.unknownDeps s.id (d.unknownDeps s))
    | none =>
        match Graph.stuck d.steps.length d.edges with
        | [] => .ok ()
        | remaining => .error (.cycle (remaining.insertionSort (· ≤ ·)))

/-- Accepted at parse time. -/
def Accepted (d : WorkflowDefinition) : Prop := d.validateDag = .ok ()

instance (d : WorkflowDefinition) : Decidable d.Accepted :=
  match h : d.validateDag with
  | .ok () => .isTrue h
  | .error e => .isFalse fun accepted => by simp [Accepted, h] at accepted

/-- `dep` is named in the `depends_on` of the step called `id`. -/
def DependsOn (d : WorkflowDefinition) (id dep : StepId) : Prop :=
  ∃ s ∈ d.steps, s.id = id ∧ dep ∈ s.dependsOn

/-- `dep` is reached from the step called `id` along one or more `depends_on` edges. -/
def Upstream (d : WorkflowDefinition) (id dep : StepId) : Prop := Relation.TransGen d.DependsOn id dep

variable {d : WorkflowDefinition}

theorem Accepted.nodup (h : d.Accepted) : d.ids.Nodup := by
  unfold Accepted validateDag at h
  split at h
  · cases h
  · next unique => simpa using unique

theorem Accepted.known (h : d.Accepted) {s : WorkflowStep} (hs : s ∈ d.steps) {dep : StepId}
    (hd : dep ∈ s.dependsOn) : dep ∈ d.ids := by
  unfold Accepted validateDag at h
  split at h
  · cases h
  · split at h
    · cases h
    · next none =>
        have known := List.find?_eq_none.mp none s hs
        simp only [unknownDeps, Bool.not_eq_true, Bool.not_eq_false', List.isEmpty_iff,
          List.filter_eq_nil_iff, decide_eq_true_eq, not_not] at known
        exact known dep hd

theorem Accepted.stuck_nil (h : d.Accepted) : Graph.stuck d.steps.length d.edges = [] := by
  unfold Accepted validateDag at h
  split at h
  · cases h
  · split at h
    · cases h
    · split at h
      · assumption
      · cases h

theorem edges_keys : d.edges.map Prod.fst = d.ids := by
  simp [edges, ids, Function.comp_def]

/-- An accepted definition ranks every step above those it depends on. -/
theorem Accepted.rank (h : d.Accepted) :
    ∃ rank : StepId → Nat, ∀ id dep, d.DependsOn id dep → rank dep < rank id := by
  obtain ⟨rank, below⟩ := Graph.rank_of_stuck_nil (edges_keys ▸ h.nodup) h.stuck_nil
  refine ⟨rank, ?_⟩
  rintro id dep ⟨s, hs, rfl, hd⟩
  exact below s.id s.dependsOn.dedup (List.mem_map.mpr ⟨s, hs, rfl⟩) dep (List.mem_dedup.mpr hd)

/-- A definition of distinct, ranked steps whose dependencies are steps is accepted. -/
theorem accepted_of_rank (unique : d.ids.Nodup) (rank : StepId → Nat)
    (below : ∀ s ∈ d.steps, ∀ dep ∈ s.dependsOn, dep ∈ d.ids ∧ rank dep < rank s.id) : d.Accepted := by
  have known : d.steps.find? (fun s => !(d.unknownDeps s).isEmpty) = none := by
    apply List.find?_eq_none.mpr
    intro s member
    have none : d.unknownDeps s = [] := by
      apply List.filter_eq_nil_iff.mpr
      intro dep needed
      simpa using (below s member dep needed).1
    simp [none]
  have emptied : Graph.stuck d.steps.length d.edges = [] := by
    apply Graph.stuck_nil_of_rank rank
    · intro m member dep needed
      obtain ⟨s, inside, rfl⟩ := List.mem_map.mp member
      rw [edges_keys]
      exact below s inside dep (List.mem_dedup.mp needed)
    · simp [edges]
  simp [Accepted, validateDag, unique, known, emptied]

theorem Accepted.eq_of_id (h : d.Accepted) {s t : WorkflowStep} (hs : s ∈ d.steps)
    (ht : t ∈ d.steps) (same : s.id = t.id) : s = t :=
  List.inj_on_of_nodup_map h.nodup hs ht same

theorem Accepted.dependsOn_iff (h : d.Accepted) {s : WorkflowStep} (hs : s ∈ d.steps)
    {dep : StepId} : d.DependsOn s.id dep ↔ dep ∈ s.dependsOn := by
  constructor
  · rintro ⟨t, ht, same, hd⟩
    rwa [h.eq_of_id ht hs same] at hd
  · exact fun hd => ⟨s, hs, rfl, hd⟩

/-- Among the steps outside `done` some step has all its dependencies inside. -/
theorem Accepted.exists_ready (h : d.Accepted) {done : StepId → Prop} {s : WorkflowStep}
    (hs : s ∈ d.steps) (pending : ¬ done s.id) :
    ∃ t ∈ d.steps, ¬ done t.id ∧ ∀ dep ∈ t.dependsOn, done dep := by
  obtain ⟨rank, below⟩ := h.rank
  obtain ⟨id, ⟨left, t, ht, rfl⟩, least⟩ := Graph.exists_minimal rank
    (P := fun id => ¬ done id ∧ ∃ t ∈ d.steps, t.id = id) ⟨pending, s, hs, rfl⟩
  refine ⟨t, ht, left, fun dep hd => ?_⟩
  by_contra missing
  obtain ⟨u, hu, rfl⟩ := List.mem_map.mp (h.known ht hd)
  exact least u.id (below t.id u.id ⟨t, ht, rfl, hd⟩) ⟨missing, u, hu, rfl⟩

end WorkflowDefinition
end Maof
