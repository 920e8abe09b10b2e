import Maof.Context.Builder

/-!
# What a compaction preserves

The compactor puts the salient lines at the front of the dialogue, and the budgeter pops
the dialogue from the front. A salient line survives in the digest where the digest does,
and otherwise only as a part of the last lines the budget leaves.
-/

namespace Maof

open LLMCompactor

/-- A line stands verbatim in one of these. -/
def ShownIn (line : String) (shown : List String) : Prop := ∃ text ∈ shown, line.toList <:+: text.toList

theorem infix_joinLines {line : String} {lines : List String} (inside : line ∈ lines) :
    line.toList <:+: (joinLines lines).toList := by
  induction lines with
  | nil => cases inside
  | cons first lines ih =>
      cases lines with
      | nil =>
          obtain rfl := List.mem_singleton.mp inside
          exact List.infix_rfl
      | cons next lines =>
          rw [joinLines, String.toList_append, String.toList_append]
          obtain rfl | inside := List.mem_cons.mp inside
          · rw [List.append_assoc]
            exact List.infix_append' [] line.toList _
          · exact (ih inside).trans (List.suffix_append _ _).isInfix

theorem joinLines_length_le (lines more : List String) : (joinLines lines).length ≤ (joinLines (lines ++ more)).length := by
  induction lines with
  | nil => exact Nat.zero_le _
  | cons first lines ih =>
      cases lines with
      | nil =>
          cases more with
          | nil => exact Nat.le_refl _
          | cons next more =>
              rw [List.singleton_append, joinLines, joinLines, String.length_append, String.length_append]
              omega
      | cons next lines =>
          rw [joinLines, List.cons_append, List.cons_append, joinLines]
          simp only [String.length_append]
          rw [List.cons_append] at ih
          omega

section salience

variable (u : Characters) (budgeter : TokenBudgeter) (maxTokens : Int) (red : ContextEnvelope) (reply : String)

def salientLines : List String := red.dialogue.filter (isSalient u)

def lastLines : List String := red.dialogue.drop (red.dialogue.length - 2)

variable {u budgeter maxTokens red reply}

/-- A digest whose salient lines are within the budget has them all. -/
theorem fit_preserves (small : estimateTokens (joinLines (salientLines u red)) ≤ maxTokens) {line : String}
    (salient : line ∈ salientLines u red) : line.toList <:+: (fit (salientLines u red) reply maxTokens).toList := by
  rw [fit]
  split
  · exact infix_joinLines (List.mem_append_left _ salient)
  · rw [if_pos small]
    exact infix_joinLines salient

/-- One whose salient lines are over it is cut. -/
theorem fit_cuts (large : ¬ estimateTokens (joinLines (salientLines u red)) ≤ maxTokens) :
    fit (salientLines u red) reply maxTokens = sliceTo (joinLines (salientLines u red)) (maxTokens * 4) := by
  have full : ¬ estimateTokens (joinLines (salientLines u red ++ [reply])) ≤ maxTokens := by
    have longer := Nat.div_le_div_right (c := 4) (joinLines_length_le (salientLines u red) [reply])
    unfold estimateTokens at large ⊢
    omega
  rw [fit, if_neg full, if_neg large]

variable (u budgeter maxTokens red reply)

/-- Where the digest is left it has the salient lines unless they are over the budget themselves; where it is popped they
stand in the most of the last lines that is within the budget, or in what is cut of the last. -/
def SalienceKept : Prop :=
  (budgeter.KeepsAll maxTokens (digested u red reply maxTokens) ∧ (estimateTokens (joinLines (salientLines u red)) ≤ maxTokens ∨
    ∀ line ∈ salientLines u red, ShownIn line (sliceTo (joinLines (salientLines u red)) (maxTokens * 4) :: lastLines red))) ∨
  (¬ budgeter.KeepsAll maxTokens (digested u red reply maxTokens) ∧
    ∃ rest, rest <:+ lastLines red ∧ rest ≠ [] ∧ budgeter.count { red with memories := [], dialogue := rest } ≤ maxTokens ∧
      (∀ longer, longer <:+ lastLines red → rest.length < longer.length →
        maxTokens < budgeter.count { red with memories := [], dialogue := longer }) ∧
      ∀ line ∈ salientLines u red, ShownIn line rest) ∨
  (budgeter.KeepsNone maxTokens (digested u red reply maxTokens) ∧ ∀ line ∈ salientLines u red,
    TokenBudgeter.lineRoom maxTokens red.goal ≠ 0 ∧ ∃ last, (digested u red reply maxTokens).dialogue.getLast? = some last ∧
      line.toList <:+: (sliceTo last (TokenBudgeter.lineRoom maxTokens red.goal)).toList)

variable {u budgeter maxTokens red reply}

theorem fit_retains_iff : (∀ line ∈ salientLines u red,
    ShownIn line (budgeter.fitEnvelope (digested u red reply maxTokens) maxTokens).dialogue) ↔
      SalienceKept u budgeter maxTokens red reply := by
  obtain ⟨k, same, fits⟩ | ⟨exceeds, ⟨rest, part, some_, same, fits, most⟩ | ⟨none_, same⟩⟩ :=
    @TokenBudgeter.fitEnvelope_cases budgeter maxTokens (digested u red reply maxTokens)
  · have keeps : budgeter.KeepsAll maxTokens (digested u red reply maxTokens) := ⟨k, fits⟩
    have shown : (budgeter.fitEnvelope (digested u red reply maxTokens) maxTokens).dialogue =
        fit (salientLines u red) reply maxTokens :: lastLines red := by
      rw [same]
      rfl
    rw [shown]
    by_cases small : estimateTokens (joinLines (salientLines u red)) ≤ maxTokens
    · apply iff_of_true
      · intro line salient
        exact ⟨_, List.mem_cons_self, fit_preserves small salient⟩
      · exact .inl ⟨keeps, .inl small⟩
    · rw [fit_cuts small]
      constructor
      · intro retains
        exact .inl ⟨keeps, .inr retains⟩
      · intro kept
        obtain ⟨-, either⟩ | ⟨lost, -⟩ | ⟨none_, -⟩ := kept
        · exact either.resolve_left small
        · exact absurd keeps lost
        · exact absurd keeps none_.1
  · have lost : ¬ budgeter.KeepsAll maxTokens (digested u red reply maxTokens) := fun ⟨k, fits⟩ => Int.not_le.mpr (exceeds k) fits
    have shown : (budgeter.fitEnvelope (digested u red reply maxTokens) maxTokens).dialogue = rest := by
      rw [same]
    have within : rest <:+ lastLines red := by
      obtain rfl | part := List.suffix_cons_iff.mp part
      · exact absurd fits (Int.not_le.mpr (exceeds 0))
      · exact part
    rw [shown]
    constructor
    · intro retains
      exact .inr (.inl ⟨lost, rest, within, some_ (List.cons_ne_nil _ _), fits,
        fun longer part more => most longer (part.trans (List.suffix_cons _ _)) more, retains⟩)
    · intro kept
      obtain ⟨keeps, -⟩ | ⟨-, rest', part', -, fits', most', retains⟩ | ⟨none_, -⟩ := kept
      · exact absurd keeps lost
      · have size : rest'.length = rest.length := by
          apply Nat.le_antisymm
          · by_contra more
            exact absurd fits' (Int.not_le.mpr (most rest' (part'.trans (List.suffix_cons _ _)) (Nat.not_le.mp more)))
          · by_contra more
            exact absurd fits (Int.not_le.mpr (most' rest within (Nat.not_le.mp more)))
        rw [← (List.suffix_of_suffix_length_le part' within (Nat.le_of_eq size)).eq_of_length size]
        exact retains
      · exact absurd fits (Int.not_le.mpr (none_.2 rest part some_))
  · have lost : ¬ budgeter.KeepsAll maxTokens (digested u red reply maxTokens) := fun ⟨k, fits⟩ => Int.not_le.mpr (exceeds k) fits
    have keeps_none : budgeter.KeepsNone maxTokens (digested u red reply maxTokens) := ⟨lost, none_⟩
    rw [same]
    constructor
    · intro retains
      refine .inr (.inr ⟨keeps_none, fun line salient => ?_⟩)
      obtain ⟨text, inside, part⟩ := retains line salient
      obtain ⟨last, found, room, rfl⟩ := TokenBudgeter.mem_trim.mp inside
      exact ⟨room, last, found, part⟩
    · intro kept line salient
      obtain ⟨keeps, -⟩ | ⟨-, rest, part, some_, fits, -⟩ | ⟨-, retains⟩ := kept
      · exact absurd keeps lost
      · exact absurd fits (Int.not_le.mpr (none_ rest (part.trans (List.suffix_cons _ _)) fun _ => some_))
      · obtain ⟨room, last, found, part⟩ := retains line salient
        exact ⟨_, TokenBudgeter.mem_trim.mpr ⟨last, found, room, rfl⟩, part⟩

end salience

/-- What is built of an envelope over the budget has every salient line of its dialogue exactly where the digest is left, or
they stand in what is left of the last lines. -/
theorem salience_kept_iff {b : ContextBuilder} {u : Characters} {sc info : StageContext} {env : ContextEnvelope}
    {budgeter : TokenBudgeter} {maxTokens : Int} {compactor : LLMCompactor} {reply : String}
    (budgets : b.budgeter = some budgeter) (limits : b.maxTokens = some maxTokens) (compacts : b.compactor = some compactor)
    (assembled : b.assemble sc = .ok (info, env)) (exceeds : maxTokens < budgeter.count (b.redacted u env))
    (answered : compactor.generate (ContextBuilder.question info (b.redacted u env)) compactionSystem = .ok reply) :
    (∃ out, (b.build u sc).2 = .ok out ∧ ∀ line ∈ salientLines u (b.redacted u env), ShownIn line out.dialogue) ↔
      SalienceKept u budgeter maxTokens (b.redacted u env) reply := by
  rw [ContextBuilder.build_over assembled budgets limits compacts exceeds, ← fit_retains_iff]
  simp only [answered]
  constructor
  · intro returns
    obtain ⟨out, same, retains⟩ := returns
    cases same
    exact retains
  · intro retains
    exact ⟨_, rfl, retains⟩

namespace Sample

def compacting (maxTokens : Int) : ContextBuilder where
  sources := []
  budgeter := some {}
  maxTokens := some maxTokens
  compactor := some { generate := fun _ _ => .ok "Blue was chosen." }

def shipping (dialogue : List String) : StageContext :=
  { info := { runId := "r", tenant := { tenantId := "t" }, goal := "Ship" }, work := { dialogue, extras := .none } }

/-- The decision before two short lines. -/
def settled : StageContext :=
  shipping ["Telemetry: 200 200 200 200 200 200 200 200 200 200 200 200.", "decision: blue", "ok", "go"]

/-- The decision before a long line. -/
def talkative : StageContext :=
  shipping ["decision: blue", "ok", "Then we talked about the rain."]

end Sample

open Sample

theorem salience_kept_settled : ∃ out, ((compacting 10).build ascii settled).2 = .ok out ∧
    ∀ line ∈ ["decision: blue"], ShownIn line out.dialogue := by
  have salient : salientLines ascii ((compacting 10).redacted ascii
      { runId := "r", tenantId := "t", stage := .chat, goal := "Ship", dialogue := settled.work.dialogue }) =
        ["decision: blue"] := by
    decide +kernel
  rw [← salient]
  apply (@salience_kept_iff _ _ _ settled _ {} 10 _ "Blue was chosen." rfl rfl rfl rfl (by decide +kernel) rfl).mpr
  exact .inl ⟨⟨0, by decide +kernel⟩, .inl (by decide +kernel)⟩

/-- The decision is in the digest, and the digest is the first line to go. -/
theorem decision_popped : ¬ ∀ (b : ContextBuilder) (u : Characters) (sc info : StageContext) (env : ContextEnvelope)
    (budgeter : TokenBudgeter) (maxTokens : Int) (compactor : LLMCompactor) (reply : String), b.budgeter = some budgeter →
      b.maxTokens = some maxTokens → b.compactor = some compactor → b.assemble sc = .ok (info, env) →
      maxTokens < budgeter.count (b.redacted u env) →
      budgeter.countText (joinLines (env.goal :: salientLines u (b.redacted u env))) ≤ maxTokens →
      compactor.generate (ContextBuilder.question info (b.redacted u env)) compactionSystem = .ok reply →
      ∃ out, (b.build u sc).2 = .ok out ∧ ∀ line ∈ salientLines u (b.redacted u env), ShownIn line out.dialogue := by
  intro kept
  obtain ⟨out, same, retains⟩ := kept (compacting 10) ascii talkative _ _ {} 10 _ _ rfl rfl rfl rfl (by decide +kernel)
    (by decide +kernel) rfl
  have left : (((compacting 10).build ascii talkative).2.toOption.map ContextEnvelope.dialogue) =
      some ["ok", "Then we talked about the rain."] := by
    decide +kernel
  have dialogue : out.dialogue = ["ok", "Then we talked about the rain."] := by
    rw [same] at left
    exact Option.some.inj left
  have shown := retains "decision: blue" (by decide +kernel)
  rw [dialogue, ShownIn] at shown
  revert shown
  decide +kernel

end Maof
