import Mathlib.Data.Finset.Card
import Mathlib.Data.List.Nodup
import Mathlib.Logic.Relation

/-!
# Kahn's algorithm

A graph is a list of nodes, each with the nodes it depends on. Every round
removes the nodes without dependencies; the graph can be ordered when nothing
is left.
-/

namespace Graph

variable {κ : Type} [DecidableEq κ]

def sources (g : List (κ × List κ)) : List κ :=
  (g.filter fun n => n.2.isEmpty).map Prod.fst

def peel (g : List (κ × List κ)) (ready : List κ) : List (κ × List κ) :=
  (g.filter fun n => n.1 ∉ ready).map fun n => (n.1, n.2.filter fun d => d ∉ ready)

/-- The nodes left when a round finds no source. -/
def stuck : Nat → List (κ × List κ) → List κ
  | 0, g => g.map Prod.fst
  | _ + 1, [] => []
  | n + 1, g =>
      if (sources g).isEmpty then g.map Prod.fst else stuck n (peel g (sources g))

theorem peel_length_lt {g : List (κ × List κ)} (h : sources g ≠ []) :
    (peel g (sources g)).length < g.length := by
  obtain ⟨k, hk⟩ := List.exists_mem_of_ne_nil _ h
  obtain ⟨n, member, rfl⟩ := List.mem_map.mp hk
  have dropped : (g.filter fun m => m.1 ∉ sources g).length < g.length :=
    List.length_filter_lt_length_iff_exists.mpr
      ⟨n, (List.mem_filter.mp member).1, by simpa using hk⟩
  simpa [peel] using dropped

/-- More rounds than nodes make no difference. -/
theorem stuck_fuel {m n : Nat} {g : List (κ × List κ)} (hm : g.length ≤ m) (hn : g.length ≤ n) :
    stuck m g = stuck n g := by
  induction m generalizing n g with
  | zero =>
      have empty : g = [] := List.length_eq_zero_iff.mp (Nat.le_zero.mp hm)
      subst empty
      cases n <;> rfl
  | succ m ih =>
      cases n with
      | zero =>
          have empty : g = [] := List.length_eq_zero_iff.mp (Nat.le_zero.mp hn)
          subst empty
          rfl
      | succ n =>
          cases g with
          | nil => rfl
          | cons a g =>
              simp only [stuck]
              split
              · rfl
              · next some =>
                  have shorter := peel_length_lt (g := a :: g) (by simpa using some)
                  exact ih (by omega) (by omega)

omit [DecidableEq κ] in
theorem mem_sources {g : List (κ × List κ)} {k : κ} (unique : (g.map Prod.fst).Nodup)
    {deps : List κ} (member : (k, deps) ∈ g) (ready : k ∈ sources g) : deps = [] := by
  obtain ⟨n, found, rfl⟩ := List.mem_map.mp ready
  obtain ⟨inside, empty⟩ := List.mem_filter.mp found
  have same : n = (n.1, deps) := List.inj_on_of_nodup_map unique inside member rfl
  have none : n.2 = [] := List.isEmpty_iff.mp empty
  exact (congrArg Prod.snd same).symm.trans none

theorem nodup_peel {g : List (κ × List κ)} (unique : (g.map Prod.fst).Nodup) (ready : List κ) :
    ((peel g ready).map Prod.fst).Nodup := by
  have same : (peel g ready).map Prod.fst = (g.filter fun n => n.1 ∉ ready).map Prod.fst := by
    simp [peel, Function.comp_def]
  rw [same]
  exact unique.sublist (List.Sublist.map _ List.filter_sublist)

/-- When Kahn's rounds remove every node, the round of its removal ranks each
node strictly above all it depends on. -/
theorem rank_of_stuck_nil {n : Nat} {g : List (κ × List κ)} (unique : (g.map Prod.fst).Nodup)
    (done : stuck n g = []) :
    ∃ rank : κ → Nat, ∀ k deps, (k, deps) ∈ g → ∀ d ∈ deps, rank d < rank k := by
  induction n generalizing g with
  | zero =>
      have empty : g = [] := by simpa [stuck] using done
      exact ⟨fun _ => 0, by simp [empty]⟩
  | succ n ih =>
      cases g with
      | nil => exact ⟨fun _ => 0, by simp⟩
      | cons a g =>
          simp only [stuck] at done
          split at done
          · simp at done
          · obtain ⟨rank, below⟩ := ih (nodup_peel unique _) done
            let ready := sources (a :: g)
            refine ⟨fun k => if k ∈ ready then 0 else rank k + 1, ?_⟩
            intro k deps member d hd
            have late : k ∉ ready := by
              intro early
              have none := mem_sources unique member early
              simp [none] at hd
            by_cases early : d ∈ ready
            · simp only [early, late, if_true, if_false]
              omega
            · have kept : (k, deps.filter fun d => d ∉ ready) ∈ peel (a :: g) ready :=
                List.mem_map.mpr ⟨(k, deps), List.mem_filter.mpr ⟨member, by simpa using late⟩, rfl⟩
              have lower := below k _ kept d (List.mem_filter.mpr ⟨hd, by simpa using early⟩)
              simp only [early, late, if_false]
              omega

omit [DecidableEq κ] in
/-- In a ranked graph any nonempty set of nodes has one all of whose
dependencies lie outside it. -/
theorem exists_minimal (rank : κ → Nat) {P : κ → Prop} {k : κ} (h : P k) :
    ∃ m, P m ∧ ∀ d, rank d < rank m → ¬P d := by
  induction hr : rank k using Nat.strongRecOn generalizing k with
  | ind r ih =>
      by_cases lower : ∃ d, rank d < rank k ∧ P d
      · obtain ⟨d, less, hd⟩ := lower
        exact ih (rank d) (hr ▸ less) hd rfl
      · exact ⟨k, h, fun d less hd => lower ⟨d, less, hd⟩⟩

/-- A ranked graph whose dependencies are nodes is emptied, a minimal node being a source of
every round. -/
theorem stuck_nil_of_rank {n : Nat} {g : List (κ × List κ)} (rank : κ → Nat)
    (below : ∀ m ∈ g, ∀ d ∈ m.2, d ∈ g.map Prod.fst ∧ rank d < rank m.1) (enough : g.length ≤ n) :
    stuck n g = [] := by
  induction n generalizing g with
  | zero =>
      have empty : g = [] := List.length_eq_zero_iff.mp (Nat.le_zero.mp enough)
      rw [empty]
      rfl
  | succ n ih =>
      cases g with
      | nil => rfl
      | cons a g =>
          have first : sources (a :: g) ≠ [] := by
            obtain ⟨k, ⟨deps, member⟩, least⟩ := exists_minimal rank (P := fun k => ∃ deps, (k, deps) ∈ a :: g)
              ⟨a.2, List.mem_cons_self⟩
            have none : deps = [] := by
              apply List.eq_nil_iff_forall_not_mem.mpr
              intro d inside
              obtain ⟨node, less⟩ := below _ member d inside
              obtain ⟨m, there, rfl⟩ := List.mem_map.mp node
              exact least m.1 less ⟨m.2, there⟩
            apply List.ne_nil_of_mem (a := k)
            exact List.mem_map.mpr ⟨(k, deps), List.mem_filter.mpr ⟨member, by simp [none]⟩, rfl⟩
          have shorter := peel_length_lt first
          simp only [stuck, List.isEmpty_iff, first, if_false]
          refine ih ?_ (by simp only [List.length_cons] at shorter enough; omega)
          intro m inside d needed
          obtain ⟨m, kept, rfl⟩ := List.mem_map.mp inside
          obtain ⟨needed, late⟩ := List.mem_filter.mp needed
          obtain ⟨node, less⟩ := below m (List.mem_filter.mp kept).1 d needed
          obtain ⟨m', there, rfl⟩ := List.mem_map.mp node
          refine ⟨List.mem_map.mpr ⟨_, List.mem_map.mpr ⟨m', List.mem_filter.mpr ⟨there, late⟩, rfl⟩, rfl⟩, less⟩

/-! ## The loop -/

/-- The rounds end, with these nodes left. -/
inductive Rounds : List (κ × List κ) → List κ → Prop
  | done : Rounds [] []
  | stop {g : List (κ × List κ)} : g ≠ [] → sources g = [] → Rounds g (g.map Prod.fst)
  | round {g : List (κ × List κ)} {left : List κ} :
      sources g ≠ [] → Rounds (peel g (sources g)) left → Rounds g left

/-- The rounds always end, after as many as there are nodes at the latest. -/
theorem rounds_stuck {n : Nat} {g : List (κ × List κ)} (enough : g.length ≤ n) : Rounds g (stuck n g) := by
  induction n generalizing g with
  | zero =>
      have empty : g = [] := List.length_eq_zero_iff.mp (Nat.le_zero.mp enough)
      rw [empty]
      exact .done
  | succ n ih =>
      cases g with
      | nil => exact .done
      | cons a g =>
          simp only [stuck, List.isEmpty_iff]
          split
          · next none => exact .stop (List.cons_ne_nil a g) none
          · next some =>
              have shorter := peel_length_lt some
              apply Rounds.round some
              apply ih
              simp only [List.length_cons] at shorter enough
              omega

/-- Where there is no way from a node back to itself, the number of nodes that are reached ranks a
node above all it depends on. -/
theorem rank_of_acyclic {needs : κ → κ → Prop} {nodes : List κ} (known : ∀ k d, needs k d → d ∈ nodes)
    (acyclic : ∀ k, ¬ Relation.TransGen needs k k) : ∃ rank : κ → Nat, ∀ k d, needs k d → rank d < rank k := by
  classical
  let reached (k : κ) : Finset κ := nodes.toFinset.filter fun x => Relation.TransGen needs k x
  refine ⟨fun k => (reached k).card, ?_⟩
  intro k d edge
  apply Finset.card_lt_card
  apply Finset.ssubset_iff_of_subset _ |>.mpr
  · refine ⟨d, Finset.mem_filter.mpr ⟨List.mem_toFinset.mpr (known k d edge), .single edge⟩, ?_⟩
    intro inside
    exact acyclic d (Finset.mem_filter.mp inside).2
  · intro x inside
    obtain ⟨node, way⟩ := Finset.mem_filter.mp inside
    exact Finset.mem_filter.mpr ⟨node, .head edge way⟩

omit [DecidableEq κ] in
/-- There is no way back to a node where all that it depends on is below it. -/
theorem acyclic_of_rank {needs : κ → κ → Prop} (rank : κ → Nat) (below : ∀ k d, needs k d → rank d < rank k) (k : κ) :
    ¬ Relation.TransGen needs k k := by
  have descends : ∀ x, Relation.TransGen needs k x → rank x < rank k := by
    intro x way
    induction way with
    | single edge => exact below _ _ edge
    | tail _ edge ih => exact (below _ _ edge).trans ih
  exact fun way => lt_irrefl _ (descends k way)

end Graph
