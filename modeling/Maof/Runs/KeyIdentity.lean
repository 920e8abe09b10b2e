import Maof.Data.JsonOrder
import Maof.Runs.Idempotency

/-!
# What a key identifies

The three names and the body are joined by a separator the body never has. A name may
have it, and then it can be split elsewhere.
-/

namespace Maof

open Data (Dict)
open JsonText

/-- What is hashed to a key. A dictionary has each key once. -/
structure KeyInput where
  runId : String
  stepId : String
  taskType : String
  body : Dict String Json
  keyed : (Json.obj body).Keyed

namespace KeyInput

open Json (Reorders)

variable {sha256 : String → String} {x y : KeyInput}

def key (sha256 : String → String) (x : KeyInput) : String :=
  makeIdempotencyKey sha256 x.runId x.stepId x.taskType (.obj x.body)

/-- The same inputs, up to the order of keys in the body. -/
def Alike (x y : KeyInput) : Prop :=
  x.runId = y.runId ∧ x.stepId = y.stepId ∧ x.taskType = y.taskType ∧ Reorders (.obj x.body) (.obj y.body)

/-- The separator is in neither of the three names. -/
def Separated (x : KeyInput) : Prop := nul ∉ x.runId.toList ∧ nul ∉ x.stepId.toList ∧ nul ∉ x.taskType.toList

instance (x : KeyInput) : Decidable x.Separated := inferInstanceAs (Decidable (_ ∧ _ ∧ _))

/-- The names as they are joined. -/
def names (x : KeyInput) : List Char := x.runId.toList ++ nul :: (x.stepId.toList ++ nul :: x.taskType.toList)

theorem keyMaterial_eq (x : KeyInput) : keyMaterial x.runId x.stepId x.taskType (.obj x.body) =
    x.names ++ nul :: canonical (.obj x.body) := by
  simp only [keyMaterial, names, List.append_assoc, List.cons_append]

theorem key_of_names (names : x.names = y.names) (bodies : Reorders (.obj x.body) (.obj y.body)) :
    x.key sha256 = y.key sha256 := by
  rw [key, key, makeIdempotencyKey, makeIdempotencyKey, keyMaterial_eq, keyMaterial_eq, names,
    (canonical_eq_iff x.keyed).mpr bodies]

theorem names_of_key (injective : Function.Injective sha256) (same : x.key sha256 = y.key sha256) :
    x.names = y.names ∧ Reorders (.obj x.body) (.obj y.body) := by
  have material := String.ofList_injective (injective same)
  have bodies := canonical_of_material material
  rw [keyMaterial_eq, keyMaterial_eq, bodies] at material
  exact ⟨List.append_cancel_right material, (canonical_eq_iff x.keyed).mp bodies⟩

/-- Names without the separator are told apart where they are joined, whatever the other names are. -/
theorem names_inj (separated : x.Separated) (same : x.names = y.names) :
    x.runId = y.runId ∧ x.stepId = y.stepId ∧ x.taskType = y.taskType := by
  obtain ⟨run, step, type⟩ := separated
  have counts := congrArg (List.count nul) same
  simp only [names, List.count_append, List.count_cons_self, List.count_eq_zero.mpr run, List.count_eq_zero.mpr step,
    List.count_eq_zero.mpr type] at counts
  have step' : nul ∉ y.stepId.toList := List.count_eq_zero.mp (by omega)
  have type' : nul ∉ y.taskType.toList := List.count_eq_zero.mp (by omega)
  have flat : ∀ x : KeyInput, x.names = (x.runId.toList ++ nul :: x.stepId.toList) ++ nul :: x.taskType.toList := by
    intro x
    simp only [names, List.append_assoc, List.cons_append]
  rw [flat, flat] at same
  have types := split_last_inj same type type'
  rw [types] at same
  have front := List.append_cancel_right same
  have steps := split_last_inj front step step'
  rw [steps] at front
  exact ⟨String.toList_injective (List.append_cancel_right front), String.toList_injective steps,
    String.toList_injective types⟩

/-- A name with the separator in it shares its key: what stands behind the separator goes to the next name. -/
theorem names_shared (mixed : ¬ x.Separated) : ∃ runId stepId taskType,
    ¬ (runId = x.runId ∧ stepId = x.stepId ∧ taskType = x.taskType) ∧
      ({ x with runId, stepId, taskType } : KeyInput).names = x.names := by
  have shorter : ∀ {name : String} {a b : List Char}, name.toList = a ++ nul :: b →
      String.ofList a ≠ name ∧ String.ofList b ≠ name := by
    intro name a b split
    constructor <;>
    · rintro rfl
      rw [String.toList_ofList] at split
      have lengths := congrArg List.length split
      simp only [List.length_append, List.length_cons] at lengths
      omega
  by_cases run : nul ∈ x.runId.toList
  · obtain ⟨a, b, split⟩ := List.append_of_mem run
    refine ⟨String.ofList a, String.ofList (b ++ nul :: x.stepId.toList), x.taskType,
      fun same => (shorter split).1 same.1, ?_⟩
    simp only [names, split, String.toList_ofList, List.append_assoc, List.cons_append]
  by_cases step : nul ∈ x.stepId.toList
  · obtain ⟨a, b, split⟩ := List.append_of_mem step
    refine ⟨String.ofList (x.runId.toList ++ nul :: a), String.ofList b, x.taskType,
      fun same => (shorter split).2 same.2.1, ?_⟩
    simp only [names, split, String.toList_ofList, List.append_assoc, List.cons_append]
  by_cases type : nul ∈ x.taskType.toList
  · obtain ⟨a, b, split⟩ := List.append_of_mem type
    refine ⟨x.runId, String.ofList (x.stepId.toList ++ nul :: a), String.ofList b,
      fun same => (shorter split).2 same.2.2, ?_⟩
    simp only [names, split, String.toList_ofList, List.append_assoc, List.cons_append]
  · exact absurd ⟨run, step, type⟩ mixed

end KeyInput

/-- A key does not tell the order of keys in the body; it tells everything else exactly where the separator is in no name. -/
theorem keys_identify_iff (sha256 : String → String) (x : KeyInput) :
    (∀ y : KeyInput, x.Alike y → y.key sha256 = x.key sha256) ∧ (Function.Injective sha256 →
      ((∀ y : KeyInput, y.key sha256 = x.key sha256 → x.Alike y) ↔ x.Separated)) := by
  constructor
  · rintro y ⟨run, step, type, bodies⟩
    refine (KeyInput.key_of_names ?_ bodies).symm
    rw [KeyInput.names, KeyInput.names, run, step, type]
  · intro injective
    constructor
    · intro identifies
      by_contra mixed
      obtain ⟨runId, stepId, taskType, other, names⟩ := KeyInput.names_shared mixed
      obtain ⟨run, step, type, -⟩ := identifies { x with runId, stepId, taskType } (KeyInput.key_of_names names (.refl _))
      exact other ⟨run.symm, step.symm, type.symm⟩
    · intro separated y same
      obtain ⟨names, bodies⟩ := KeyInput.names_of_key injective same.symm
      obtain ⟨run, step, type⟩ := KeyInput.names_inj separated names
      exact ⟨run, step, type, bodies⟩

namespace Sample

def charging (stepId taskType : String) : KeyInput where
  runId := "r1"
  stepId := stepId
  taskType := taskType
  body := [("amount", .int 5), ("currency", .str "EUR")]
  keyed := .obj (by decide) (List.forall_mem_cons.mpr ⟨.int 5, List.forall_mem_cons.mpr ⟨.str "EUR", by simp⟩⟩)

end Sample

theorem keys_identify_charge : ∀ y : KeyInput, y.key id = (Sample.charging "charge" "payment").key id →
    (Sample.charging "charge" "payment").Alike y :=
  ((keys_identify_iff id (Sample.charging "charge" "payment")).2 Function.injective_id).mpr (by decide)

/-- A separator at the end of one name is as good as one at the start of the next. -/
theorem charges_collide : ¬ ∀ (sha256 : String → String) (_ : Function.Injective sha256) (x y : KeyInput),
    y.key sha256 = x.key sha256 → x.Alike y := by
  intro identifies
  have same : (Sample.charging "a" (String.ofList ['b', nul, 'c'])).key id =
      (Sample.charging (String.ofList ['a', nul, 'b']) "c").key id :=
    KeyInput.key_of_names (by decide) (.refl _)
  have alike := identifies id Function.injective_id _ _ same
  exact absurd alike.2.1 (by decide)

end Maof
