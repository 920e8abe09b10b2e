import Maof.Data.Dict
import Mathlib.Algebra.Group.Int.Defs
import Mathlib.Algebra.Group.Nat.Defs

/-!
# The values Python exchanges as JSON

`Json` is what `json.loads` returns: every dictionary has string keys. A finite
float is held as a decimal of the value `repr` prints; `PyFloat` never rounds.
-/

namespace Maof

open Data (Dict)

inductive PyFloat where
  | nan
  | inf (neg : Bool)
  | dec (neg : Bool) (coeff : Nat) (exp : Int)
deriving DecidableEq, Repr

namespace PyFloat

def zero : PyFloat := .dec false 0 0

/-- `± coeff · 10 ^ exp` over a common power of ten, for comparisons. -/
def scaled (neg : Bool) (coeff : Nat) (exp low : Int) : Int :=
  let n : Int := coeff * 10 ^ (exp - low).toNat
  if neg then -n else n

def lt : PyFloat → PyFloat → Bool
  | .nan, _ => false
  | _, .nan => false
  | .inf true, .inf true => false
  | .inf true, _ => true
  | _, .inf true => false
  | .inf false, _ => false
  | _, .inf false => true
  | .dec s c e, .dec s' c' e' => scaled s c e (min e e') < scaled s' c' e' (min e e')

def eq : PyFloat → PyFloat → Bool
  | .dec s c e, .dec s' c' e' => scaled s c e (min e e') = scaled s' c' e' (min e e')
  | .inf s, .inf s' => s = s'
  | _, _ => false

def le (a b : PyFloat) : Bool := a.lt b || a.eq b

/-- Python's `min(a, b)`: the second only when it is smaller. -/
def min2 (a b : PyFloat) : PyFloat := if b.lt a then b else a

/-- Python's `max(a, b)`: the second only when it is greater. -/
def max2 (a b : PyFloat) : PyFloat := if a.lt b then b else a

/-- The integer a float equals, if it equals one. -/
def toInt? : PyFloat → Option Int
  | .dec neg coeff exp =>
      if 0 ≤ exp then some (scaled neg coeff exp 0)
      else if coeff % 10 ^ (-exp).toNat = 0 then
        let n : Int := coeff / 10 ^ (-exp).toNat
        some (if neg then -n else n)
      else none
  | _ => none

def ofInt (n : Int) : PyFloat := .dec (n < 0) n.natAbs 0

def isZero : PyFloat → Bool
  | .dec _ coeff _ => coeff = 0
  | _ => false

end PyFloat

inductive Json where
  | null
  | bool (b : Bool)
  | int (n : Int)
  | float (x : PyFloat)
  | str (s : String)
  | arr (xs : List Json)
  | obj (fields : List (String × Json))

namespace Json

instance : Inhabited Json := ⟨.null⟩

/-- `bool(value)`. -/
def truthy : Json → Bool
  | .null => false
  | .bool b => b
  | .int n => n ≠ 0
  | .float x => !x.isZero
  | .str s => s ≠ ""
  | .arr xs => !xs.isEmpty
  | .obj fields => !fields.isEmpty

/-- `value.get(key)` on a dictionary; anything else has no members. -/
def get? : Json → String → Option Json
  | .obj fields, key => Dict.get fields key
  | _, _ => none

def strs (xs : List String) : Json := .arr (xs.map .str)

/-- `None` or the string. -/
def ofStr? : Option String → Json
  | none => .null
  | some s => .str s

/-- The number a value compares as: Python orders booleans among the integers. -/
def numeral : Json → Option PyFloat
  | .bool b => some (.ofInt (if b then 1 else 0))
  | .int n => some (.ofInt n)
  | .float x => some x
  | _ => none

mutual
/-- Python's `==`: numbers by value across their types, dictionaries in any key order. -/
def pyEq : Json → Json → Bool
  | .null, .null => true
  | .str s, .str s' => s = s'
  | .arr xs, .arr ys => pyEqList xs ys
  | .obj fs, .obj gs => fs.length = gs.length && pyEqFields fs gs
  | .bool b, y => numEq (.bool b) y
  | .int n, y => numEq (.int n) y
  | .float x, y => numEq (.float x) y
  | _, _ => false

def pyEqList : List Json → List Json → Bool
  | [], [] => true
  | x :: xs, y :: ys => pyEq x y && pyEqList xs ys
  | _, _ => false

def pyEqFields : List (String × Json) → List (String × Json) → Bool
  | [], _ => true
  | (k, x) :: fs, gs =>
      (match Dict.get gs k with
        | some y => pyEq x y
        | none => false) && pyEqFields fs gs

def numEq (x y : Json) : Bool :=
  match x.numeral, y.numeral with
  | some a, some b => a.eq b
  | _, _ => false
end

end Json
end Maof
