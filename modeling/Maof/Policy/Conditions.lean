import Maof.Platform

/-!
# The condition DSL

Operators over literals and over paths into the flags, the intent, the semantic
model, the plan and the toolset. The clauses of a condition are evaluated where
they stand; which of them is looked at is decided by the operator above them.
-/

namespace Maof

open Data (Dict)

structure EvalContext where
  flags : Dict String String
  intent : Option Intent := none
  plan : Option Plan := none
  semantic : Dict String Json := []
  toolset : List ToolRef := []

/-- `d[key]`. -/
def subscript (fields : Dict String Json) (key : String) : Except Exn Json :=
  match Dict.get fields key with
  | some value => .ok value
  | none => .error (.keyError ("'" ++ key ++ "'"))

namespace Condition

def pathRoots : List String := ["flags", "intent", "semantic", "plan", "toolset"]

/-- What an operand is: a JSON value, or the intent or the plan of the context itself. -/
inductive Operand where
  | json (value : Json)
  | intent
  | plan

/-- `path.partition(".")`. -/
def headOf (path : String) : String := String.ofList (path.toList.takeWhile (· ≠ '.'))

def restOf (path : String) : String := String.ofList ((path.toList.dropWhile (· ≠ '.')).drop 1)

def dig (data : Dict String Json) (dotted : String) : Json :=
  Template.follow (Template.pathParts dotted.toList) (.obj data)

def resolvePath (path : String) (ctx : EvalContext) : Operand :=
  let rest := restOf path
  match headOf path with
  | "flags" => .json (.ofStr? (Dict.get ctx.flags rest))
  | "semantic" => .json (if rest = "" then .obj ctx.semantic else dig ctx.semantic rest)
  | "intent" => match ctx.intent with
      | none => .json .null
      | some intent => if rest = "" then .intent else .json (dig intent.dump rest)
  | "plan" => match ctx.plan with
      | none => .json .null
      | some plan =>
          if rest = "task_types" then .json (.strs plan.taskTypes)
          else if rest = "" then .plan
          else .json (dig plan.dump rest)
  | "toolset" => .json (.bool (decide (rest ∈ ctx.toolset.map ToolRef.name)))
  | _ => .json .null

def operand (ctx : EvalContext) : Json → Operand
  | .str s => if headOf s ∈ pathRoots then resolvePath s ctx else .json (.str s)
  | value => .json value

/-- `==`: a model equals itself, and no JSON value. -/
def Operand.eq : Operand → Operand → Bool
  | .json a, .json b => Json.pyEq a b
  | .intent, .intent => true
  | .plan, .plan => true
  | _, _ => false

/-- `value not in (None, False, [], "", {})`. -/
def Operand.present : Operand → Bool
  | .json value => !([Json.null, .bool false, .arr [], .str "", .obj []].any value.pyEq)
  | _ => true

/-- A hashable key that is no string is in no dictionary of flags. -/
def flag (flags : Dict String String) : Json → Except Exn (Option String)
  | .str key => .ok (Dict.get flags key)
  | .arr _ | .obj _ => .error (.typeError "unhashable type")
  | _ => .ok none

def num (p : Platform) : Operand → Except Exn PyFloat
  | .json .null => .ok .zero
  | .json value => p.float value
  | _ => .error (.typeError "float() argument must be a string or a real number")

/-- What the clauses at a key of a condition come to: one condition's answer, or a list's. -/
inductive Clauses where
  | one (answer : Except Exn Bool)
  | many (answers : List (Except Exn Bool))

def noMethod (name : String) : Exn := .external ("object has no attribute '" ++ name ++ "'")

/-- `condition.get("clauses", [])`, one answer for each of its items. -/
def clausesOf (fields : Dict String Json) (clauses : Dict String Clauses) : Except Exn (List (Except Exn Bool)) :=
  match Dict.get fields "clauses", Dict.get clauses "clauses" with
  | some (.arr _), some (.many answers) => .ok answers
  | some (.str s), _ => .ok (s.toList.map fun _ => .error (noMethod "get"))
  | some (.obj items), _ => .ok (items.map fun _ => .error (noMethod "get"))
  | none, _ => .ok []
  | _, _ => .error (.typeError "object is not iterable")

def all : List (Except Exn Bool) → Except Exn Bool
  | [] => return true
  | answer :: answers => do if ← answer then all answers else return false

def any : List (Except Exn Bool) → Except Exn Bool
  | [] => return false
  | answer :: answers => do if ← answer then return true else any answers

/-- One operator, over the answers of the clauses below it. -/
def holds (p : Platform) (ctx : EvalContext) (fields : Dict String Json) (clauses : Dict String Clauses) :
    Except Exn Bool :=
  let compare (less : PyFloat → PyFloat → Bool) : Except Exn Bool := do
    let lhs ← num p (operand ctx (← subscript fields "lhs"))
    let rhs ← num p (operand ctx (← subscript fields "rhs"))
    return less lhs rhs
  match (Dict.get fields "op").getD (.str "always") with
  | .str "always" => .ok true
  | .str "flag_eq" => do
      let found ← flag ctx.flags (← subscript fields "key")
      let value ← subscript fields "value"
      return found = some (String.ofList (Template.pyStr p.unicode value))
  | .str "eq" => do
      let lhs ← subscript fields "lhs"
      let rhs ← subscript fields "rhs"
      return (operand ctx lhs).eq (operand ctx rhs)
  | .str "gt" => compare fun lhs rhs => rhs.lt lhs
  | .str "lt" => compare PyFloat.lt
  | .str "exists" => do
      match ← subscript fields "lhs" with
      | .str path => return (resolvePath path ctx).present
      | _ => .error (noMethod "partition")
  | .str "and" => do all (← clausesOf fields clauses)
  | .str "or" => do any (← clausesOf fields clauses)
  | .str "not" => do
      let _ ← subscript fields "clause"
      match Dict.get clauses "clause" with
      | some (.one answer) => return !(← answer)
      | _ => .error (noMethod "get")
  | op => .error (.valueError ("unknown condition op: " ++ Template.reprText p.unicode op))

mutual
def evaluate (p : Platform) (ctx : EvalContext) : Json → Except Exn Bool
  | .obj fields => holds p ctx fields (evaluateFields p ctx fields)
  | _ => .error (noMethod "get")

def evaluateItems (p : Platform) (ctx : EvalContext) : List Json → List (Except Exn Bool)
  | [] => []
  | x :: xs => evaluate p ctx x :: evaluateItems p ctx xs

def evaluateFields (p : Platform) (ctx : EvalContext) : List (String × Json) → List (String × Clauses)
  | [] => []
  | (k, .arr xs) :: fields => (k, .many (evaluateItems p ctx xs)) :: evaluateFields p ctx fields
  | (k, x) :: fields => (k, .one (evaluate p ctx x)) :: evaluateFields p ctx fields
end

end Condition
end Maof
