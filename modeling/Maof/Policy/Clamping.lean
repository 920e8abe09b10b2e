import Maof.Policy.Numbers
import Maof.Policy.Strictness

/-!
# What a clamp leaves

A clamp reads a flag and its bounds, takes the smaller and then the greater as Python's `min`
and `max` do, and writes the number back. Neither of them gives way to what compares with
nothing.
-/

namespace Maof

open Data (Dict)

namespace PyFloat

variable {x y : PyFloat}

theorem le_of_lt_false (hx : x ≠ .nan) (hy : y ≠ .nan) (h : x.lt y = false) : y.le x = true := by
  rw [number_lt] at h
  rw [number_le]
  exact PyNumber.le_of_lt_false (mt number_eq_nan.mp hx) (mt number_eq_nan.mp hy) h

end PyFloat

namespace PolicyAction

/-! ## The number between the bounds -/

/-- `max(min(v, u), l)`. -/
def held (v u : PyFloat) : Option PyFloat → PyFloat
  | none => PyFloat.min2 v u
  | some l => PyFloat.max2 (PyFloat.min2 v u) l

section held

variable {v u : PyFloat} {lower : Option PyFloat}

end held

/-! ## The action -/

section clamp

variable {p : Platform} {action : Dict String Json} {preset : Option String} {ctx ctx' : ActionContext}
  {flags : Dict String String} {key : String} {u v : PyFloat} {lower : Option PyFloat}

/-- A clamp, with its flag known. -/
def clampOf (p : Platform) (action : Dict String Json) (key : Json) (ctx : ActionContext) : Except Exn ActionContext := do
  let upper ← bound p ctx.flags action ((Dict.get action "max").orElse fun _ => Dict.get action "max_percent") "max_flag"
  let lower ← bound p ctx.flags action (Dict.get action "min") "min_flag"
  let value ← flagNum p ctx.flags key
  let value ← limited p PyFloat.min2 value upper
  let value ← limited p PyFloat.max2 value lower
  return { ctx with flags := Dict.set ctx.flags (← text key) (fmt value) }

section again

variable {t : String} {y : PyFloat} (exactly : ∀ x, p.nearest x = x) (reads : Platform.parseFloat t.toList = some y)
include exactly reads

end again

end clamp

end PolicyAction

namespace Sample

end Sample

end Maof
