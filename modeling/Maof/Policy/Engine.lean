import Maof.Policy.Rulesets
import Maof.Persistence.PolicyRepo

/-!
# The rules a hook evaluates

Every hook loads the ruleset anew and goes through its enabled rules for the
stage by priority.
-/

namespace Maof

/-- A call of `pre_prompt` or `post_plan` with the stage of its envelope, or of `post_result`. -/
inductive PolicyHook where
  | prePrompt (stage : Stage)
  | postPlan (stage : Stage)
  | postResult

def PolicyHook.stage : PolicyHook → String
  | .prePrompt stage => stage.value
  | .postPlan stage => stage.value
  | .postResult => "post_result"

def stageMatch (ruleStage envStage : String) : Bool := ruleStage = "*" || ruleStage = envStage

/-- The rules of a ruleset that a hook goes through, in order. -/
def LoadedRuleset.hookRules (ruleset : LoadedRuleset) (hook : PolicyHook) : List Rule :=
  (ruleset.rules.filter fun rule => rule.enabled && stageMatch rule.stage hook.stage).insertionSort
    fun a b => a.priority ≤ b.priority

structure NativePolicyEngine where
  rulesetRef : String := "default"
  repo : Option PolicyTables := none

namespace NativePolicyEngine

def load (engine : NativePolicyEngine) (tenantId rulesetRef : String) : LoadedRuleset :=
  match engine.repo.bind fun db => db.loadRuleset tenantId rulesetRef with
  | some loaded => loaded
  | none => { rulesetRef := rulesetRef, version := 0, rules := [] }

/-- The rules a hook for a tenant evaluates. -/
def evaluated (engine : NativePolicyEngine) (tenantId : String) (hook : PolicyHook) : List Rule :=
  (engine.load tenantId engine.rulesetRef).hookRules hook

end NativePolicyEngine

/-- A stored head of a reference that a tenant may be served. -/
def PolicyTables.Offered (db : PolicyTables) (tenantId rulesetRef : String) (head : HeadKey × PyFloat) : Prop :=
  head ∈ db.policyRulesets ∧ head.1.1 = rulesetRef ∧ (head.1.2.2 = tenantId ∨ head.1.2.2 = "")

/-- The highest version a tenant has of its own, or of the global ones. -/
def PolicyTables.Highest (db : PolicyTables) (tenantId rulesetRef : String) (head : HeadKey × PyFloat) : Prop :=
  db.Offered tenantId rulesetRef head ∧ ∀ other, db.Offered tenantId rulesetRef other →
    (head.1.2.2 = tenantId ∨ other.1.2.2 ≠ tenantId) ∧ (other.1.2.2 = head.1.2.2 → other.1.2.1 ≤ head.1.2.1)

/-- No hook goes through a rule of the ruleset. -/
def LoadedRuleset.Silent (ruleset : LoadedRuleset) : Prop := ∀ hook, ruleset.hookRules hook = []

namespace LoadedRuleset

theorem mem_hookRules {ruleset : LoadedRuleset} {hook : PolicyHook} {rule : Rule} :
    rule ∈ ruleset.hookRules hook ↔
      rule ∈ ruleset.rules ∧ rule.enabled = true ∧ stageMatch rule.stage hook.stage = true := by
  rw [hookRules, List.mem_insertionSort, List.mem_filter, Bool.and_eq_true]

end LoadedRuleset

namespace PolicyTables

variable {db : PolicyTables} {tenantId rulesetRef : String}

theorem mem_headsOf_iff {owned : String} {head : HeadKey × PyFloat} : head ∈ db.headsOf rulesetRef owned ↔
    head ∈ db.policyRulesets ∧ head.1.1 = rulesetRef ∧ head.1.2.2 = owned := by
  rw [headsOf, List.mem_filter, decide_eq_true_eq]

theorem Highest.unique {head head' : HeadKey × PyFloat} (h : db.Highest tenantId rulesetRef head)
    (h' : db.Highest tenantId rulesetRef head') : head.1 = head'.1 := by
  obtain ⟨offered, most⟩ := h
  obtain ⟨offered', most'⟩ := h'
  have owners : head.1.2.2 = head'.1.2.2 := by
    have here := (most head' offered').1
    have there := (most' head offered).1
    have owner := offered.2.2
    have owner' := offered'.2.2
    grind
  have versions : head.1.2.1 = head'.1.2.1 :=
    le_antisymm ((most' head offered).2 owners) ((most head' offered').2 owners.symm)
  exact Prod.ext (offered.2.1.trans offered'.2.1.symm) (Prod.ext versions owners)

/-- What is served to a tenant is the highest version it is offered. -/
theorem headOf_highest {head : HeadKey × PyFloat} (h : db.headOf tenantId rulesetRef = some head) :
    db.Highest tenantId rulesetRef head := by
  unfold headOf at h
  split at h
  · next own greatest =>
      cases h
      obtain ⟨member, most⟩ := maxBy_some greatest
      obtain ⟨stored, named, owned⟩ := mem_headsOf_iff.mp member
      refine ⟨⟨stored, named, .inl owned⟩, fun other offer => ⟨.inl owned, fun same => ?_⟩⟩
      exact most other (mem_headsOf_iff.mpr ⟨offer.1, offer.2.1, same.trans owned⟩)
  · next none =>
      have own := maxBy_none.mp none
      obtain ⟨member, most⟩ := maxBy_some h
      obtain ⟨stored, named, owned⟩ := mem_headsOf_iff.mp member
      refine ⟨⟨stored, named, .inr owned⟩, fun other offer => ⟨.inr fun mine => ?_, fun same => ?_⟩⟩
      · have listed : other ∈ db.headsOf rulesetRef tenantId := mem_headsOf_iff.mpr ⟨offer.1, offer.2.1, mine⟩
        rw [own] at listed
        cases listed
      · exact most other (mem_headsOf_iff.mpr ⟨offer.1, offer.2.1, same.trans owned⟩)

theorem headOf_of_highest {head : HeadKey × PyFloat} (h : db.Highest tenantId rulesetRef head) :
    ∃ served, db.headOf tenantId rulesetRef = some served ∧ served.1 = head.1 := by
  cases found : db.headOf tenantId rulesetRef with
  | some served => exact ⟨served, rfl, (headOf_highest found).unique h⟩
  | none =>
      unfold headOf at found
      split at found
      · cases found
      · next none =>
          have own := maxBy_none.mp none
          have global := maxBy_none.mp found
          obtain ⟨⟨stored, named, owner⟩, _⟩ := h
          have listed : ∀ {owned}, head.1.2.2 = owned → db.headsOf rulesetRef owned ≠ [] :=
            fun same => List.ne_nil_of_mem (mem_headsOf_iff.mpr ⟨stored, named, same⟩)
          rcases owner with mine | everybodys
          · exact absurd own (listed mine)
          · exact absurd global (listed everybodys)

/-- A rule of a version carries it. -/
theorem version_of_mem {version : Int} {rule : Rule} (h : rule ∈ db.rulesAt rulesetRef version) :
    rule.version = version := by
  unfold rulesAt at h
  obtain ⟨kv, member, rfl⟩ := List.mem_map.mp h
  rw [List.mem_insertionSort, List.mem_filter, decide_eq_true_eq] at member
  exact member.2.2

/-- Two stored rulesets give every hook the same rules where they are one version, or give none. -/
theorem hookRules_eq_iff {a b : HeadKey × PyFloat} (named : a.1.1 = b.1.1) :
    (∀ hook, (db.rulesetAt a).hookRules hook = (db.rulesetAt b).hookRules hook) ↔
      a.1.2.1 = b.1.2.1 ∨ (db.rulesetAt a).Silent ∧ (db.rulesetAt b).Silent := by
  constructor
  · intro same
    by_cases version : a.1.2.1 = b.1.2.1
    · exact .inl version
    · have silent : (db.rulesetAt a).Silent := by
        intro hook
        apply List.eq_nil_iff_forall_not_mem.mpr
        intro rule inside
        have here := version_of_mem (LoadedRuleset.mem_hookRules.mp inside).1
        have there := version_of_mem (LoadedRuleset.mem_hookRules.mp (same hook ▸ inside)).1
        exact version (here.symm.trans there)
      exact .inr ⟨silent, fun hook => (same hook).symm.trans (silent hook)⟩
  · rintro (version | ⟨silent, silent'⟩) hook
    · unfold rulesetAt LoadedRuleset.hookRules
      rw [named, version]
    · rw [silent, silent']

end PolicyTables

section laws

variable {p : Platform} {engine : NativePolicyEngine} {db : PolicyTables} {tenantId : String}
  {stable newer head : HeadKey × PyFloat}

/-- A run's hooks follow its cohort exactly where the version of the cohort is the highest one
stored, or neither has a rule for any hook. -/
theorem canary_followed_iff (runId : RunId) (stored : engine.repo = some db)
    (older : db.Offered tenantId engine.rulesetRef stable) (offered : db.Offered tenantId engine.rulesetRef newer)
    (highest : db.Highest tenantId engine.rulesetRef head) :
    (∀ hook, engine.evaluated tenantId hook =
      (chooseRuleset p (db.rulesetAt stable) (some (db.rulesetAt newer)) runId).hookRules hook) ↔
    if inCanary p runId newer.2 then
      head.1.2.1 = newer.1.2.1 ∨ (db.rulesetAt head).Silent ∧ (db.rulesetAt newer).Silent
    else head.1.2.1 = stable.1.2.1 ∨ (db.rulesetAt head).Silent ∧ (db.rulesetAt stable).Silent := by
  obtain ⟨served, found, same⟩ := db.headOf_of_highest highest
  have loads : engine.load tenantId engine.rulesetRef = db.rulesetAt served := by
    simp [NativePolicyEngine.load, stored, PolicyTables.loadRuleset, found]
  have evaluates : ∀ hook, engine.evaluated tenantId hook = (db.rulesetAt head).hookRules hook := by
    intro hook
    unfold NativePolicyEngine.evaluated PolicyTables.rulesetAt LoadedRuleset.hookRules at *
    rw [loads, same]
  have chosen : ∀ pick : HeadKey × PyFloat, pick.1.1 = engine.rulesetRef →
      ((∀ hook, engine.evaluated tenantId hook = (db.rulesetAt pick).hookRules hook) ↔
        head.1.2.1 = pick.1.2.1 ∨ (db.rulesetAt head).Silent ∧ (db.rulesetAt pick).Silent) := by
    intro pick named
    rw [← PolicyTables.hookRules_eq_iff (highest.1.2.1.trans named.symm)]
    simp only [evaluates]
  unfold chooseRuleset
  change (∀ hook, _ = (if inCanary p runId newer.2 then _ else _ : LoadedRuleset).hookRules hook) ↔ _
  split
  · exact chosen newer offered.2.1
  · exact chosen stable older.2.1

end laws

namespace Sample

/-- Version 1 has a rule; version 2, for half of the runs, has none. -/
def rollout : PolicyTables := PolicyTables.saved [
  { ruleset := { rulesetRef := "default", version := 1, rules := [screen "a" true] } },
  { ruleset := { rulesetRef := "default", version := 2, canaryPct := .ofInt 50 } }]

def stableHead : HeadKey × PyFloat := (("default", 1, ""), .zero)

def canaryHead : HeadKey × PyFloat := (("default", 2, ""), .ofInt 50)

def rolloutEngine : NativePolicyEngine := { repo := some rollout }

/-- The digest of `"run-1"`, whose bucket is 51. -/
def digesting : Platform where
  unicode := { alnum := fun _ => false, printable := fun _ => true }
  sha256 _ := "4e65d3fbe8ad6535681b021b30785b12b6c0e3f8878859a4148b3f58b8835db0"
  hmacSha256 secret body := secret ++ body
  nearest x := x
  exact := PyFloat.spelled
  parseRfc3339 text := some text.length
  later _ _ := .error (.valueError "date value out of range")

theorem stable_offered : rollout.Offered "acme" rolloutEngine.rulesetRef stableHead :=
  ⟨List.mem_cons_self, rfl, .inr rfl⟩

theorem canary_offered : rollout.Offered "acme" rolloutEngine.rulesetRef canaryHead :=
  ⟨List.mem_cons_of_mem _ List.mem_cons_self, rfl, .inr rfl⟩

theorem canary_highest : rollout.Highest "acme" rolloutEngine.rulesetRef canaryHead := PolicyTables.headOf_highest rfl

end Sample

/-- The run is outside the cohort, and version 1 has a rule. -/
theorem canary_followed_rollout :
    (∀ hook, Sample.rolloutEngine.evaluated "acme" hook =
      (chooseRuleset Sample.digesting (Sample.rollout.rulesetAt Sample.stableHead)
        (some (Sample.rollout.rulesetAt Sample.canaryHead)) "run-1").hookRules hook) ↔
    if inCanary Sample.digesting "run-1" Sample.canaryHead.2 then
      Sample.canaryHead.1.2.1 = Sample.canaryHead.1.2.1 ∨
        (Sample.rollout.rulesetAt Sample.canaryHead).Silent ∧ (Sample.rollout.rulesetAt Sample.canaryHead).Silent
    else Sample.canaryHead.1.2.1 = Sample.stableHead.1.2.1 ∨
      (Sample.rollout.rulesetAt Sample.canaryHead).Silent ∧ (Sample.rollout.rulesetAt Sample.stableHead).Silent :=
  canary_followed_iff "run-1" rfl Sample.stable_offered Sample.canary_offered Sample.canary_highest

/-- A run outside the cohort is held to the newer version. -/
theorem canary_served : ¬ ∀ (p : Platform) (engine : NativePolicyEngine) (db : PolicyTables) (tenantId : String)
    (stable newer : HeadKey × PyFloat) (runId : RunId), engine.repo = some db →
    db.Offered tenantId engine.rulesetRef stable → db.Highest tenantId engine.rulesetRef newer →
    stable.1.2.1 < newer.1.2.1 → ∀ hook, engine.evaluated tenantId hook =
      (chooseRuleset p (db.rulesetAt stable) (some (db.rulesetAt newer)) runId).hookRules hook := by
  intro followed
  have same := followed Sample.digesting Sample.rolloutEngine Sample.rollout "acme" Sample.stableHead Sample.canaryHead
    "run-1" rfl Sample.stable_offered Sample.canary_highest (by decide) .postResult
  have lengths := congrArg List.length same
  exact absurd lengths (by decide +kernel)

end Maof
