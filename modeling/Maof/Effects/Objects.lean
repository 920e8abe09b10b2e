import Mathlib.Logic.Function.Basic

/-!
# Mutable objects

Objects of one type, each under an address of its own. What is allocated later is
apart from what was there, so that writing to it leaves the old objects alone.
-/

namespace Effects

structure Objects (α : Type) where
  next : Nat
  get : Nat → α

namespace Objects

variable {α : Type}

/-- A new object with this content, and its address. -/
def alloc (o : Objects α) (a : α) : Objects α × Nat :=
  ({ next := o.next + 1, get := Function.update o.get o.next a }, o.next)

def set (o : Objects α) (i : Nat) (a : α) : Objects α := { o with get := Function.update o.get i a }

@[simp] theorem get_set_self (o : Objects α) (i : Nat) (a : α) : (o.set i a).get i = a := by
  simp [set]

theorem get_set_other (o : Objects α) {i j : Nat} (a : α) (other : j ≠ i) : (o.set i a).get j = o.get j := by
  simp [set, other]

@[simp] theorem get_alloc (o : Objects α) (a : α) : (o.alloc a).1.get o.next = a := by
  simp [alloc]

/-- The objects that were there are what they were. -/
structure Keeps (o o' : Objects α) : Prop where
  next : o.next ≤ o'.next
  get : ∀ i < o.next, o'.get i = o.get i

namespace Keeps

variable {o o' o'' : Objects α}

theorem refl (o : Objects α) : o.Keeps o := ⟨Nat.le_refl _, fun _ _ => rfl⟩

theorem trans (h : o.Keeps o') (h' : o'.Keeps o'') : o.Keeps o'' where
  next := Nat.le_trans h.next h'.next
  get i old := (h'.get i (Nat.lt_of_lt_of_le old h.next)).trans (h.get i old)

theorem alloc (h : o.Keeps o') (a : α) : o.Keeps (o'.alloc a).1 where
  next := Nat.le_trans h.next (Nat.le_succ _)
  get i old := by
    have apart : i ≠ o'.next := Nat.ne_of_lt (Nat.lt_of_lt_of_le old h.next)
    have same : (o'.alloc a).1.get i = o'.get i := by
      simp [Objects.alloc, apart]
    exact same.trans (h.get i old)

/-- A later object may be written to. -/
theorem set (h : o.Keeps o') {i : Nat} (later : o.next ≤ i) (a : α) : o.Keeps (o'.set i a) where
  next := h.next
  get j old := by
    have apart : j ≠ i := Nat.ne_of_lt (Nat.lt_of_lt_of_le old later)
    exact (o'.get_set_other a apart).trans (h.get j old)

end Keeps

end Objects
end Effects
