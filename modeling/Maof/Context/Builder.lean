import Maof.Context.Budget
import Maof.Context.Redactor

/-!
# The context builder

Sources fill an envelope, the redactor scrubs it, and where it is over the budget a
language model digests the dialogue before the budgeter trims what is left. What the
prompt and the envelope show of the text the redactor saw, and of the text it did not.
-/

namespace Maof

open Data (Dict)

structure RegexRedactor where
  flag : String := "pii"
  value : String := "redact"

def RegexRedactor.redact (r : RegexRedactor) (u : Characters) (env : ContextEnvelope) : ContextEnvelope :=
  if Dict.get env.policyFlags r.flag ≠ some r.value then env
  else
    { env with
      goal := scrub u env.goal
      dialogue := env.dialogue.map (scrub u)
      memories := env.memories.map fun m => { m with content := scrub u m.content }
      dataPointers := env.dataPointers.map fun dp => { dp with note := scrub u dp.note } }

/-! ## The compactor -/

structure CompactedContext where
  digest : String
  preserved : List String
  tokenCount : Int
  droppedTokens : Int

/-- What the language model is asked, in order, and what comes of it. -/
abbrev Asked (α : Type) := List String × Except Exn α

structure LLMCompactor where
  generate : (prompt system : String) → Except Exn String

namespace LLMCompactor

def salientMarkers : List String :=
  ["decision", "plan", "open issue", "todo", "must", "commit", "blocker", "constraint"]

def compactionSystem : String :=
  "You compact an agent's working context. Preserve decisions, plans, and open " ++
    "issues faithfully; discard redundant or repeated tool output. Be concise."

def isSalient (u : Characters) (line : String) : Bool :=
  salientMarkers.any fun marker => decide (marker.toList <:+: (u.lower line).toList)

/-- `_build_prompt`. -/
def buildPrompt (sc : StageContext) : String :=
  "Goal: " ++ sc.info.goal ++ "\n\nWorking context to compact:\n" ++ joinLines sc.work.dialogue

/-- `_fit`. -/
def fit (preserved : List String) (summary : String) (targetTokens : Int) : String :=
  let full := joinLines (preserved ++ [summary])
  if estimateTokens full ≤ targetTokens then full
  else
    let kept := joinLines preserved
    if estimateTokens kept ≤ targetTokens then kept else sliceTo kept (targetTokens * 4)

def makeDigest (c : LLMCompactor) (u : Characters) (sc : StageContext) (targetTokens : Int) : Asked CompactedContext :=
  let originalTokens := estimateTokens (joinLines sc.work.dialogue)
  let preserved := sc.work.dialogue.filter (isSalient u)
  ([buildPrompt sc], do
    let summary ← c.generate (buildPrompt sc) compactionSystem
    let digest := fit preserved summary targetTokens
    let tokenCount := estimateTokens digest
    return { digest, preserved, tokenCount, droppedTokens := max 0 (originalTokens - tokenCount) })

def compact (c : LLMCompactor) (u : Characters) (sc : StageContext) (targetTokens : Int) : Asked StageContext :=
  let (prompts, digest) := makeDigest c u sc targetTokens
  (prompts, digest.map fun digest =>
    let last := sc.work.dialogue.drop (sc.work.dialogue.length - 2)
    { sc with work := { sc.work with dialogue := digest.digest :: last } })

end LLMCompactor

/-! ## The pipeline -/

/-- A contributor to the envelope. It sees the stage context, and may change it in place. -/
abbrev ContextSource := StageContext → ContextEnvelope → Except Exn (StageContext × ContextEnvelope)

structure ContextBuilder where
  sources : List ContextSource
  redactor : Option RegexRedactor := none
  budgeter : Option TokenBudgeter := none
  maxTokens : Option Int := none
  compactor : Option LLMCompactor := none

namespace ContextBuilder

/-- The envelope the sources assemble, and the stage context they leave. -/
def assemble (b : ContextBuilder) (sc : StageContext) : Except Exn (StageContext × ContextEnvelope) :=
  let env : ContextEnvelope :=
    { runId := sc.info.runId
      tenantId := sc.info.tenant.tenantId
      intentId := sc.work.intentId
      stage := sc.work.stage
      goal := sc.info.goal
      dialogue := sc.work.dialogue }
  b.sources.foldlM (fun s source => source s.1 s.2) (sc, env)

/-- The envelope once the redactor has seen it. -/
def redacted (b : ContextBuilder) (u : Characters) (env : ContextEnvelope) : ContextEnvelope :=
  match b.redactor with
  | some redactor => redactor.redact u env
  | none => env

def build (b : ContextBuilder) (u : Characters) (sc : StageContext) : Asked ContextEnvelope :=
  match b.assemble sc with
  | .error e => ([], .error e)
  | .ok (sc, env) =>
      let env := b.redacted u env
      match b.budgeter, b.maxTokens with
      | some budgeter, some maxTokens =>
          match b.compactor with
          | some compactor =>
              if maxTokens < budgeter.count env then
                let compacted := compactor.compact u { sc with work := { sc.work with dialogue := env.dialogue } } maxTokens
                (compacted.1, compacted.2.map fun sc =>
                  budgeter.fitEnvelope { env with dialogue := sc.work.dialogue } maxTokens)
              else ([], .ok (budgeter.fitEnvelope env maxTokens))
          | none => ([], .ok (budgeter.fitEnvelope env maxTokens))
      | _, _ => ([], .ok env)

end ContextBuilder

/-! ## The boundary -/

open RegexRedactor (clean)

section prompt

open RegexRedactor
open Text (Regex)

variable {u : Characters}

end prompt

/-- The envelope whose dialogue is the digest of a reply, and the last two lines. -/
def LLMCompactor.digested (u : Characters) (env : ContextEnvelope) (reply : String) (maxTokens : Int) : ContextEnvelope :=
  { env with dialogue := fit (env.dialogue.filter (isSalient u)) reply maxTokens :: env.dialogue.drop (env.dialogue.length - 2) }

namespace ContextBuilder

variable {b : ContextBuilder} {u : Characters} {sc : StageContext} {info : StageContext} {env : ContextEnvelope}
  {budgeter : TokenBudgeter} {maxTokens : Int} {compactor : LLMCompactor}

/-- What the compactor is asked about an envelope. -/
def question (sc : StageContext) (env : ContextEnvelope) : String :=
  LLMCompactor.buildPrompt { sc with work := { sc.work with dialogue := env.dialogue } }

/-- A build whose envelope is over the budget. -/
theorem build_over (assembled : b.assemble sc = .ok (info, env)) (budgets : b.budgeter = some budgeter)
    (limits : b.maxTokens = some maxTokens) (compacts : b.compactor = some compactor)
    (exceeds : maxTokens < budgeter.count (b.redacted u env)) :
    b.build u sc = ([question info (b.redacted u env)],
      (compactor.generate (question info (b.redacted u env)) LLMCompactor.compactionSystem).map fun reply =>
        budgeter.fitEnvelope (LLMCompactor.digested u (b.redacted u env) reply maxTokens) maxTokens) := by
  rw [build, assembled]
  simp only [budgets, limits, compacts]
  rw [if_pos exceeds]
  simp only [LLMCompactor.compact, LLMCompactor.makeDigest, question]
  cases compactor.generate _ _ <;> rfl

/-- A build whose envelope is within it. -/
theorem build_within (assembled : b.assemble sc = .ok (info, env)) (budgets : b.budgeter = some budgeter)
    (limits : b.maxTokens = some maxTokens) (fits : budgeter.count (b.redacted u env) ≤ maxTokens) :
    b.build u sc = ([], .ok (b.redacted u env)) := by
  have same := TokenBudgeter.fitEnvelope_of_fits fits
  rw [build, assembled]
  simp only [budgets, limits]
  cases b.compactor with
  | none => exact congrArg (fun env => (([], .ok env) : Asked ContextEnvelope)) same
  | some compactor =>
      simp only
      rw [if_neg]
      · exact congrArg (fun env => (([], .ok env) : Asked ContextEnvelope)) same
      · exact Int.not_lt.mpr fits

end ContextBuilder

/-! ### What crosses the boundary -/

section boundary

open LLMCompactor RegexRedactor

variable (u : Characters) (budgeter : TokenBudgeter) (compactor : LLMCompactor) (maxTokens : Int) (sc : StageContext)
  (red : ContextEnvelope)

variable {u budgeter compactor maxTokens sc red}

end boundary

namespace Sample

/-- A database in which nothing beyond ASCII is a letter. -/
def ascii : Characters where
  alnum := fun _ => false
  printable := fun _ => false
  decimal := fun _ => false
  lower := String.map Char.toLower
  decimal_alnum := nofun

end Sample

open Sample

end Maof
