import Maof.Data.JsonText

/-!
# Idempotency keys and the guard

A key hashes the run, the step, the task type and the canonical body. The hash
itself is a parameter.
-/

namespace Maof

open JsonText

/-- What the run id, step id, task type and canonical body are joined by. -/
def nul : Char := Char.ofNat 0

def keyMaterial (runId stepId taskType : String) (body : Json) : List Char :=
  runId.toList ++ nul :: (stepId.toList ++ nul :: (taskType.toList ++ nul :: canonical body))

def makeIdempotencyKey (sha256 : String → String) (runId stepId taskType : String) (body : Json) :
    String :=
  sha256 (String.ofList (keyMaterial runId stepId taskType body))

/-- The body `QueueDispatcher.dispatch` hashes. -/
def taskBody (taskType description : String) (payload : Data.Dict String Json) : Json :=
  .obj [("task_type", .str taskType), ("description", .str description), ("priority", .int 5),
    ("payload", .obj payload)]

theorem nul_not_printable : ¬ Printable nul := by decide

theorem nul_not_mem_canonical (j : Json) : nul ∉ canonical j :=
  fun member => nul_not_printable (canonical_printable j nul member)

/-- The part after the last separator is determined by the whole. -/
theorem split_last_inj {c : Char} {a a' b b' : List Char} (same : a ++ c :: b = a' ++ c :: b')
    (free : c ∉ b) (free' : c ∉ b') : b = b' := by
  rcases List.append_eq_append_iff.mp same with ⟨m, rfl, tail⟩ | ⟨m, rfl, tail⟩
  · cases m with
    | nil => exact (List.cons.inj tail).2
    | cons x m =>
        obtain ⟨rfl, rest⟩ := List.cons.inj tail
        exact absurd (by simp [rest]) free
  · cases m with
    | nil => exact (List.cons.inj tail).2.symm
    | cons x m =>
        obtain ⟨rfl, rest⟩ := List.cons.inj tail
        exact absurd (by simp [rest]) free'

theorem canonical_of_material {r s t r' s' t' : String} {body body' : Json}
    (same : keyMaterial r s t body = keyMaterial r' s' t' body') :
    canonical body = canonical body' := by
  simp only [keyMaterial] at same
  have flat : ∀ (r s t b : List Char), r ++ nul :: (s ++ nul :: (t ++ nul :: b)) =
      (r ++ nul :: (s ++ nul :: t)) ++ nul :: b := by
    intro r s t b
    simp only [List.append_assoc, List.cons_append]
  rw [flat, flat] at same
  exact split_last_inj same (nul_not_mem_canonical _) (nul_not_mem_canonical _)

/-- The description comes first in the canonical body and ends at its closing quote. -/
theorem canonical_taskBody (taskType description : String) (payload : Data.Dict String Json) :
    ∃ rest, canonical (taskBody taskType description payload) =
      "\x7b\"description\":\"".toList ++ (escaped description.toList ++ '"' :: rest) := by
  refine ⟨',' :: commas [member ("payload", canonical (.obj payload)),
    member ("priority", canonical (.int 5)), member ("task_type", canonical (.str taskType))] ++
    ['}'], ?_⟩
  have sorted : ∀ a b c d : List Char, sortFields [("task_type", a), ("description", b),
      ("priority", c), ("payload", d)] =
      [("description", b), ("payload", d), ("priority", c), ("task_type", a)] := by
    intro a b c d
    simp [sortFields, List.insertionSort, List.orderedInsert]
  have opening : ∀ tail : List Char, '{' :: '"' :: (escaped "description".toList ++
      '"' :: ':' :: '"' :: tail) = "\x7b\"description\":\"".toList ++ tail := fun _ => rfl
  simp only [taskBody, canonical, canonicalFields, sorted, List.map_cons, List.map_nil, commas,
    member, quoted, List.append_assoc, List.cons_append, List.nil_append]
  exact opening _

theorem taskBody_description_inj {t t' d d' : String} {p p' : Data.Dict String Json}
    (same : canonical (taskBody t d p) = canonical (taskBody t' d' p')) : d = d' := by
  obtain ⟨rest, left⟩ := canonical_taskBody t d p
  obtain ⟨rest', right⟩ := canonical_taskBody t' d' p'
  rw [left, right] at same
  exact String.toList_injective (escaped_quote_inj (List.append_cancel_left same)).1

/-- Bodies with different descriptions never share a key. -/
theorem makeIdempotencyKey_ne {sha256 : String → String} (injective : Function.Injective sha256)
    {r s t r' s' t' d d' : String} {p p' : Data.Dict String Json} (differ : d ≠ d') :
    makeIdempotencyKey sha256 r s t (taskBody t d p) ≠
      makeIdempotencyKey sha256 r' s' t' (taskBody t' d' p') := by
  intro same
  have material := String.ofList_injective (injective same)
  exact differ (taskBody_description_inj (canonical_of_material material))

end Maof
