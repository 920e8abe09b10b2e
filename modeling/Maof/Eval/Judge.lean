import Maof.Data.WeightedMean
import Maof.Policy.Numbers

/-!
# The judge

A reply is searched for a JSON object; what it has under a criterion is made a score between
zero and one, and the scores are weighed. Scores and weights are exact.
-/

namespace Maof

open Data (Dict)

structure Rubric where
  name : String
  criteria : List String := ["factual_accuracy", "completeness", "citation_quality", "tool_efficiency"]
  weights : Dict String ℚ := []
  passThreshold : ℚ := 7 / 10
  endState : Bool := true

structure JudgeResult where
  scores : Dict String ℚ := []
  overall : ℚ := 0
  passed : Bool := false
  rationale : String := ""

/-! ## Weighing -/

def scoreOf (scores : Dict String ℚ) (c : String) : ℚ := (Dict.get scores c).getD 0

def Rubric.weight (rubric : Rubric) (c : String) : ℚ := (Dict.get rubric.weights c).getD 0

def Rubric.total (rubric : Rubric) : ℚ := (rubric.criteria.map rubric.weight).sum

/-- The weighted or, absent weights, mean score over the criteria. -/
def weightedOverall (scores : Dict String ℚ) (rubric : Rubric) : ℚ :=
  if rubric.weights ≠ [] ∧ 0 < rubric.total then
    (rubric.criteria.map fun c => scoreOf scores c * rubric.weight c).sum / rubric.total
  else
    let values := rubric.criteria.map (scoreOf scores)
    if values ≠ [] then values.sum / values.length else 0

/-! ## Reading the reply -/

namespace LLMJudge

/-- `max(0.0, min(1.0, value))`; `min` keeps its first argument unless the second is smaller. -/
def clamp : PyNumber → ℚ
  | .nan => 1
  | .inf neg => if neg then 0 else 1
  | .rat q => max 0 (min 1 q)

/-- What `json.loads` raises: a `JSONDecodeError` or anything else. -/
inductive LoadsError where
  | decode
  | other (error : Exn)

def rfind (c : Char) (s : List Char) : Option Nat := (s.reverse.findIdx? (· = c)).map fun i => s.length - 1 - i

/-- From the first opening brace to the last closing one. -/
def braced (raw : List Char) : Option (List Char) :=
  match raw.findIdx? (· = '\x7b'), rfind '\x7d' raw with
  | some start, some stop => if stop < start then none else some ((raw.take (stop + 1)).drop start)
  | _, _ => none

def extractJson (loads : String → Except LoadsError Json) (raw : String) : Except Exn Json :=
  match braced raw.toList with
  | none => .ok (.obj [])
  | some text => match loads (String.ofList text) with
      | .ok parsed => .ok parsed
      | .error .decode => .ok (.obj [])
      | .error (.other error) => .error error

/-- What `data.get` looks into. -/
def members : Json → Except Exn (Dict String Json)
  | .obj fields => .ok fields
  | _ => .error (.external "object has no attribute 'get'")

/-- `data.get(c, 0.0) or 0.0`. -/
def given (data : Dict String Json) (c : String) : Json :=
  match Dict.get data c with
  | some value => if value.truthy then value else .float .zero
  | none => .float .zero

def scored (p : Platform) (data : Dict String Json) (c : String) : Except Exn ℚ := do
  return clamp (← p.float (given data c)).number

def scores (p : Platform) (data : Dict String Json) (criteria : List String) : Except Exn (Dict String ℚ) :=
  criteria.foldlM (fun scores c => do return Dict.set scores c (← scored p data c)) []

def judgeSystem : String :=
  "You are a strict, fair evaluator. Score each named criterion from 0.0 to 1.0 and " ++
    "respond with a single JSON object mapping each criterion to its score, plus a " ++
    "\"rationale\" string. Output JSON only."

def buildPrompt (output : String) (reference : Option String) (rubric : Rubric) : String :=
  "\n".intercalate (["Criteria to score: " ++ ", ".intercalate rubric.criteria, "", "OUTPUT TO EVALUATE:", output] ++
    (match reference with
      | some reference => ["", "REFERENCE (ground truth):", reference]
      | none => []) ++
    if rubric.endState then ["", "Grade the final state, not the steps taken."] else [])

end LLMJudge

/-- The judge with the model it asks, and how replies are decoded. -/
structure LLMJudge where
  platform : Platform
  loads : String → Except LLMJudge.LoadsError Json
  generate : (prompt system : String) → String

namespace LLMJudge

variable (judge : LLMJudge)

def reply (output : String) (reference : Option String) (rubric : Rubric) : String :=
  judge.generate (buildPrompt output reference rubric) judgeSystem

def result (data : Dict String Json) (scores : Dict String ℚ) (rubric : Rubric) : JudgeResult :=
  let overall := weightedOverall scores rubric
  { scores
    overall
    passed := rubric.passThreshold ≤ overall
    rationale := String.ofList (Template.pyStr judge.platform.unicode ((Dict.get data "rationale").getD (.str ""))) }

def score (output : String) (reference : Option String) (rubric : Rubric) : Except Exn JudgeResult := do
  let data ← members (← extractJson judge.loads (judge.reply output reference rubric))
  let scores ← scores judge.platform data rubric.criteria
  return judge.result data scores rubric

end LLMJudge

/-! ## What weights do -/

namespace LLMJudge

/-- A value whose score is that of a number, or that of a value that is none. -/
def Scorable (p : Platform) : Json → Prop
  | .int n => ∃ neg coeff exp, p.nearest (.ofInt n) = .dec neg coeff exp
  | .float x => x ≠ .nan
  | .str s => ∃ x, Platform.parseFloat s.toList = some x ∧ (p.nearest x).number.le (.rat 0) = true
  | _ => False

theorem clamp_within (n : PyNumber) : 0 ≤ clamp n ∧ clamp n ≤ 1 := by
  cases n with
  | nan => exact ⟨zero_le_one, le_rfl⟩
  | inf neg =>
      cases neg with
      | true => exact ⟨le_rfl, zero_le_one⟩
      | false => exact ⟨zero_le_one, le_rfl⟩
  | rat q => exact ⟨le_max_left _ _, max_le zero_le_one (min_le_left _ _)⟩

variable (p : Platform) (data : Dict String Json)

/-- What the reply gives for the criteria can be scored as it should. -/
def Readable (judge : LLMJudge) (output : String) (reference : Option String) (rubric : Rubric) : Prop :=
  ∃ data, extractJson judge.loads (judge.reply output reference rubric) = .ok (.obj data) ∧
    ∀ c ∈ rubric.criteria, ∀ v, Dict.get data c = some v → v.truthy = true → Scorable judge.platform v

end LLMJudge

namespace Sample

end Sample

end Maof
