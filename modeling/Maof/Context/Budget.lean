import Maof.Errors
import Maof.Types
import Mathlib.Algebra.Order.BigOperators.Group.List

/-!
# The token budgeter

Tokens are estimated by characters. What `fit_envelope` leaves of an envelope: some of its
memories with the whole dialogue, the last lines without memories, or the goal and the last
line cut. Nothing takes a note from a data pointer.
-/

namespace Maof

open Data (Dict)

/-- Python's `s[:n]`. -/
def sliceTo (s : String) (n : Int) : String :=
  String.ofList (s.toList.take (if 0 ≤ n then n.toNat else s.length - (-n).toNat))

/-- `"\n".join(lines)`. -/
def joinLines : List String → String
  | [] => ""
  | [line] => line
  | line :: next :: lines => line ++ "\n" ++ joinLines (next :: lines)

/-- `estimate_tokens`. -/
def estimateTokens (text : String) : Int := (text.length / 4 : Nat)

structure TokenBudgeter where
  countText : String → Int := estimateTokens

namespace TokenBudgeter

def envelopeText (env : ContextEnvelope) : String :=
  joinLines ((env.goal :: env.dialogue ++ env.memories.map MemorySnippet.content ++
    env.dataPointers.map DataPointer.note).filter (· ≠ ""))

def count (b : TokenBudgeter) (env : ContextEnvelope) : Int := b.countText (envelopeText env)

/-- The loop that pops memories, with so many of them left. -/
def popMemories (b : TokenBudgeter) (maxTokens : Int) (env : ContextEnvelope) : Nat → ContextEnvelope
  | 0 => { env with memories := [] }
  | n + 1 =>
      if maxTokens < b.count { env with memories := env.memories.take (n + 1) } then popMemories b maxTokens env n
      else { env with memories := env.memories.take (n + 1) }

/-- The loop that pops the oldest line, with these left. -/
def popDialogue (b : TokenBudgeter) (maxTokens : Int) (env : ContextEnvelope) : List String → ContextEnvelope
  | first :: line :: rest =>
      if maxTokens < b.count { env with dialogue := first :: line :: rest } then popDialogue b maxTokens env (line :: rest)
      else { env with dialogue := first :: line :: rest }
  | lines => { env with dialogue := lines }

/-- The last resort: the goal cut to the budget, and the last line to what the goal leaves of it. -/
def trim (maxTokens : Int) (env : ContextEnvelope) : ContextEnvelope :=
  let allowed := maxTokens * 4
  let goal := sliceTo env.goal allowed
  let remaining := max 0 (allowed - goal.length - 1)
  { env with
    goal
    dialogue :=
      match env.dialogue.getLast? with
      | some line => if remaining ≠ 0 then [sliceTo line remaining] else []
      | none => [] }

def fitEnvelope (b : TokenBudgeter) (env : ContextEnvelope) (maxTokens : Int) : ContextEnvelope :=
  let env := popMemories b maxTokens env env.memories.length
  let env := popDialogue b maxTokens env env.dialogue
  if maxTokens < b.count env then trim maxTokens env else env

/-! ## What is left of an envelope -/

variable {b : TokenBudgeter} {maxTokens : Int} {env : ContextEnvelope}

/-- Some of the memories with the whole dialogue, or none where no number of them is within the budget. -/
theorem popMemories_cases (n : Nat) :
    (∃ k ≤ n, popMemories b maxTokens env n = { env with memories := env.memories.take k } ∧
      b.count { env with memories := env.memories.take k } ≤ maxTokens) ∨
    popMemories b maxTokens env n = { env with memories := [] } ∧
      ∀ k ≤ n, maxTokens < b.count { env with memories := env.memories.take k } := by
  induction n with
  | zero =>
      by_cases fits : b.count { env with memories := [] } ≤ maxTokens
      · exact .inl ⟨0, Nat.le_refl 0, rfl, fits⟩
      · refine .inr ⟨rfl, fun k none_ => ?_⟩
        obtain rfl := Nat.le_zero.mp none_
        exact Int.not_le.mp fits
  | succ n ih =>
      rw [popMemories]
      split
      · next exceeds =>
          obtain ⟨k, few, same, fits⟩ | ⟨same, all⟩ := ih
          · exact .inl ⟨k, Nat.le_succ_of_le few, same, fits⟩
          · refine .inr ⟨same, fun k few => ?_⟩
            obtain rfl | few := Nat.le_or_eq_of_le_succ few |>.symm
            · exact exceeds
            · exact all k few
      · next fits => exact .inl ⟨n + 1, Nat.le_refl _, rfl, Int.not_lt.mp fits⟩

/-- The most of the last lines, or the last one where no such lines are within the budget. -/
theorem popDialogue_cases (lines : List String) :
    (∃ rest, rest <:+ lines ∧ (lines ≠ [] → rest ≠ []) ∧ popDialogue b maxTokens env lines = { env with dialogue := rest } ∧
      b.count { env with dialogue := rest } ≤ maxTokens ∧
      ∀ longer, longer <:+ lines → rest.length < longer.length → maxTokens < b.count { env with dialogue := longer }) ∨
    popDialogue b maxTokens env lines = { env with dialogue := lines.getLast?.toList } ∧
      ∀ rest, rest <:+ lines → (lines ≠ [] → rest ≠ []) → maxTokens < b.count { env with dialogue := rest } := by
  induction lines with
  | nil =>
      by_cases fits : b.count { env with dialogue := [] } ≤ maxTokens
      · refine .inl ⟨[], List.suffix_rfl, id, rfl, fits, fun longer part more => ?_⟩
        exact absurd part.length_le (Nat.not_le.mpr more)
      · refine .inr ⟨rfl, fun rest part _ => ?_⟩
        obtain rfl := List.suffix_nil.mp part
        exact Int.not_le.mp fits
  | cons first lines ih =>
      cases lines with
      | nil =>
          by_cases fits : b.count { env with dialogue := [first] } ≤ maxTokens
          · refine .inl ⟨[first], List.suffix_rfl, id, rfl, fits, fun longer part more => ?_⟩
            exact absurd part.length_le (Nat.not_le.mpr more)
          · refine .inr ⟨rfl, fun rest part some_ => ?_⟩
            obtain rfl | part := List.suffix_cons_iff.mp part
            · exact Int.not_le.mp fits
            · exact absurd (List.suffix_nil.mp part) (some_ (List.cons_ne_nil _ _))
      | cons line lines =>
          rw [popDialogue]
          split
          · next exceeds =>
              obtain ⟨rest, part, some_, same, fits, most⟩ | ⟨same, all⟩ := ih
              · refine .inl ⟨rest, part.trans (List.suffix_cons _ _), fun _ => some_ (List.cons_ne_nil _ _), same, fits, ?_⟩
                intro longer within more
                obtain rfl | within := List.suffix_cons_iff.mp within
                · exact exceeds
                · exact most longer within more
              · refine .inr ⟨by rw [same, List.getLast?_cons_cons], fun rest part some_ => ?_⟩
                obtain rfl | part := List.suffix_cons_iff.mp part
                · exact exceeds
                · exact all rest part fun _ => some_ (List.cons_ne_nil _ _)
          · next fits =>
              refine .inl ⟨first :: line :: lines, List.suffix_rfl, id, rfl, Int.not_lt.mp fits, fun longer part more => ?_⟩
              exact absurd part.length_le (Nat.not_le.mpr more)

theorem popMemories_of_fits (fits : b.count env ≤ maxTokens) : popMemories b maxTokens env env.memories.length = env := by
  cases size : env.memories.length with
  | zero =>
      have none_ := List.length_eq_zero_iff.mp size
      rw [popMemories, ← none_]
  | succ n => rw [popMemories, ← size, List.take_length, if_neg (Int.not_lt.mpr fits)]

theorem popDialogue_of_fits (fits : b.count env ≤ maxTokens) : popDialogue b maxTokens env env.dialogue = env := by
  have lines : ∀ lines, env.dialogue = lines → popDialogue b maxTokens env lines = env := by
    intro lines same
    have whole : { env with dialogue := lines } = env := by
      rw [← same]
    cases lines with
    | nil => exact whole
    | cons first lines =>
        cases lines with
        | nil => exact whole
        | cons line lines => rw [popDialogue, whole, if_neg (Int.not_lt.mpr fits)]
  exact lines env.dialogue rfl

/-- An envelope within the budget stays as it is. -/
theorem fitEnvelope_of_fits (fits : b.count env ≤ maxTokens) : b.fitEnvelope env maxTokens = env := by
  rw [fitEnvelope, popMemories_of_fits fits]
  simp only [popDialogue_of_fits fits, if_neg (Int.not_lt.mpr fits)]

/-- What comes of an envelope: some memories with the whole dialogue, the most of the last lines without memories, or what
is left of the goal and the last line. -/
theorem fitEnvelope_cases :
    (∃ k, b.fitEnvelope env maxTokens = { env with memories := env.memories.take k } ∧
      b.count { env with memories := env.memories.take k } ≤ maxTokens) ∨
    (∀ k, maxTokens < b.count { env with memories := env.memories.take k }) ∧
      ((∃ rest, rest <:+ env.dialogue ∧ (env.dialogue ≠ [] → rest ≠ []) ∧
          b.fitEnvelope env maxTokens = { env with memories := [], dialogue := rest } ∧
          b.count { env with memories := [], dialogue := rest } ≤ maxTokens ∧
          ∀ longer, longer <:+ env.dialogue → rest.length < longer.length →
            maxTokens < b.count { env with memories := [], dialogue := longer }) ∨
        (∀ rest, rest <:+ env.dialogue → (env.dialogue ≠ [] → rest ≠ []) →
          maxTokens < b.count { env with memories := [], dialogue := rest }) ∧
        b.fitEnvelope env maxTokens = trim maxTokens { env with memories := [], dialogue := env.dialogue.getLast?.toList }) := by
  obtain ⟨k, -, same, fits⟩ | ⟨same, exceeds⟩ := @popMemories_cases b maxTokens env env.memories.length
  · refine .inl ⟨k, ?_, fits⟩
    rw [fitEnvelope, same]
    simp only [popDialogue_of_fits fits, if_neg (Int.not_lt.mpr fits)]
  · have never : ∀ k, maxTokens < b.count { env with memories := env.memories.take k } := by
      intro k
      cases Nat.le_total k env.memories.length with
      | inl few => exact exceeds k few
      | inr many =>
          rw [List.take_of_length_le many, ← @List.take_length _ env.memories]
          exact exceeds _ (Nat.le_refl _)
    refine .inr ⟨never, ?_⟩
    rw [fitEnvelope, same]
    obtain ⟨rest, part, some_, left, fits, most⟩ | ⟨left, none_⟩ :=
      @popDialogue_cases b maxTokens { env with memories := [] } env.dialogue
    · refine .inl ⟨rest, part, some_, ?_, fits, most⟩
      simp only [left, if_neg (Int.not_lt.mpr fits)]
    · refine .inr ⟨none_, ?_⟩
      have last := none_ env.dialogue.getLast?.toList ?_ ?_
      · simp only [left, if_pos last]
      · cases env.dialogue using List.reverseRecOn with
        | nil => exact List.suffix_rfl
        | append_singleton lines line => simp
      · cases env.dialogue using List.reverseRecOn with
        | nil => exact id
        | append_singleton lines line => simp

end TokenBudgeter

/-! ## What a trim keeps -/

namespace TokenBudgeter

variable (b : TokenBudgeter) (maxTokens : Int) (env : ContextEnvelope)

/-- Some number of the memories is within the budget with the whole dialogue. -/
def KeepsAll : Prop := ∃ k, b.count { env with memories := env.memories.take k } ≤ maxTokens

/-- Not even the last line is, without the memories. -/
def KeepsNone : Prop :=
  ¬ b.KeepsAll maxTokens env ∧ ∀ rest, rest <:+ env.dialogue → (env.dialogue ≠ [] → rest ≠ []) →
    maxTokens < b.count { env with memories := [], dialogue := rest }

/-- What the goal, cut to the budget, leaves of it for the last line. -/
def lineRoom (goal : String) : Int := max 0 (maxTokens * 4 - (sliceTo goal (maxTokens * 4)).length - 1)

variable {b maxTokens env}

/-- What is cut of the dialogue is the last line, where the goal leaves room for it. -/
theorem mem_trim {text : String} :
    text ∈ (trim maxTokens { env with memories := [], dialogue := env.dialogue.getLast?.toList }).dialogue ↔
      ∃ line, env.dialogue.getLast? = some line ∧ lineRoom maxTokens env.goal ≠ 0 ∧ text = sliceTo line (lineRoom maxTokens env.goal) := by
  simp only [trim]
  rw [← lineRoom]
  cases env.dialogue.getLast? with
  | none => simp
  | some line =>
      simp only [Option.toList_some, List.getLast?_singleton, Option.some.injEq, exists_eq_left']
      split
      · next some_ => simp [some_]
      · next none_ => simp [not_not.mp none_]

end TokenBudgeter

/-! ## The cap -/

/-- What a part takes of the joined text with the newline after it; an empty one is left out. -/
def partSize (n : Nat) : Nat := if n = 0 then 0 else n + 1

theorem partSize_mono {n m : Nat} (below : n ≤ m) : partSize n ≤ partSize m := by
  unfold partSize
  split
  · exact Nat.zero_le _
  · rw [if_neg (by omega)]
    omega

def partSizes : List String → Nat
  | [] => 0
  | line :: lines => partSize line.length + partSizes lines

theorem partSizes_append (lines lines' : List String) : partSizes (lines ++ lines') = partSizes lines + partSizes lines' := by
  induction lines with
  | nil => exact (Nat.zero_add _).symm
  | cons line lines ih => rw [List.cons_append, partSizes, ih, partSizes, Nat.add_assoc]

theorem partSizes_empty {lines : List String} (empty : ∀ line ∈ lines, line = "") : partSizes lines = 0 := by
  induction lines with
  | nil => rfl
  | cons line lines ih =>
      obtain ⟨first, rest⟩ := List.forall_mem_cons.mp empty
      rw [partSizes, first, ih rest]
      rfl

theorem partSize_some {line : String} (some_ : line ≠ "") : partSize line.length = line.length + 1 :=
  if_neg fun none_ => some_ (String.length_eq_zero_iff.mp none_)

theorem joinLines_length (lines : List String) : (joinLines (lines.filter (· ≠ ""))).length = partSizes lines - 1 := by
  have full : ∀ lines : List String, (∀ line ∈ lines, line ≠ "") → (joinLines lines).length = partSizes lines - 1 := by
    intro lines some_
    induction lines with
    | nil => rfl
    | cons line lines ih =>
        have size := partSize_some (some_ line List.mem_cons_self)
        have next := ih fun line inside => some_ line (List.mem_cons_of_mem _ inside)
        rw [partSizes, size]
        cases lines with
        | nil => rfl
        | cons line' lines =>
            have size' := partSize_some (some_ line' (by simp))
            have positive : 0 < partSizes (line' :: lines) := by
              rw [partSizes, size']
              omega
            have newline : "\n".length = 1 := rfl
            rw [joinLines, String.length_append, String.length_append, next, newline]
            omega
  have left_out : ∀ lines : List String, partSizes (lines.filter (· ≠ "")) = partSizes lines := by
    intro lines
    induction lines with
    | nil => rfl
    | cons line lines ih =>
        by_cases none_ : line = ""
        · rw [List.filter_cons_of_neg (by simp [none_]), ih, partSizes, none_]
          simp [partSize]
        · rw [List.filter_cons_of_pos (by simpa using none_), partSizes, partSizes, ih]
  rw [full _ fun line inside => by simpa using (List.mem_filter.mp inside).2, left_out]

namespace TokenBudgeter

variable {env : ContextEnvelope}

/-- The texts of an envelope, in the order the budgeter joins them. -/
theorem envelopeText_length : (envelopeText env).length =
    partSize env.goal.length + partSizes env.dialogue + partSizes (env.memories.map MemorySnippet.content) +
      partSizes (env.dataPointers.map DataPointer.note) - 1 := by
  rw [envelopeText, joinLines_length, List.cons_append, List.cons_append, partSizes, partSizes_append, partSizes_append]
  congr 1
  omega

/-- The default counter's count is within the budget where the parts take four characters for each token, and four more. -/
theorem counts_iff {maxTokens : Nat} : ({} : TokenBudgeter).count env ≤ maxTokens ↔
    partSize env.goal.length + partSizes env.dialogue + partSizes (env.memories.map MemorySnippet.content) +
      partSizes (env.dataPointers.map DataPointer.note) ≤ 4 * maxTokens + 4 := by
  have counted : ({} : TokenBudgeter).count env = ((envelopeText env).length / 4 : Nat) := rfl
  rw [counted, Int.ofNat_le, envelopeText_length]
  omega

/-- Where the goal cut to the budget, the last line cut to what the goal leaves of it, and the notes of the data pointers
are within the budget. -/
def Room (env : ContextEnvelope) (maxTokens : Nat) : Prop :=
  let goal := min env.goal.length (4 * maxTokens)
  let line := min (env.dialogue.getLast?.getD "").length (4 * maxTokens - goal - 1)
  partSize goal + partSize line + partSizes (env.dataPointers.map DataPointer.note) ≤ 4 * maxTokens + 4

/-- There is room where no data pointer has a note. -/
theorem room_of_unnoted {maxTokens : Nat} (unnoted : ∀ dp ∈ env.dataPointers, dp.note = "") : Room env maxTokens := by
  have none_ : partSizes (env.dataPointers.map DataPointer.note) = 0 := by
    apply partSizes_empty
    intro note noted
    obtain ⟨dp, known, rfl⟩ := List.mem_map.mp noted
    exact unnoted dp known
  simp only [Room, none_, partSize]
  split <;> split <;> omega

theorem sliceTo_length (s : String) (n : Nat) : (sliceTo s n).length = min s.length n := by
  rw [sliceTo, String.length_ofList, if_pos (Int.natCast_nonneg n), Int.toNat_natCast, List.length_take, Nat.min_comm]
  rfl

theorem partSize_last (lines : List String) : partSize (lines.getLast?.getD "").length ≤ partSizes lines := by
  cases lines using List.reverseRecOn with
  | nil => exact Nat.le_refl _
  | append_singleton lines line =>
      rw [partSizes_append, List.getLast?_append, partSizes]
      exact Nat.le_trans (Nat.le_add_right _ _) (Nat.le_add_left _ _)

/-- There is room where the goal, the last line and the notes are within the budget as they are. -/
theorem room_of_fits {maxTokens : Nat} {memories : List MemorySnippet} {rest : List String} (last : rest.getLast? = env.dialogue.getLast?)
    (fits : ({} : TokenBudgeter).count { env with memories, dialogue := rest } ≤ maxTokens) : Room env maxTokens := by
  have sizes := counts_iff.mp fits
  have line := partSize_last rest
  rw [last] at line
  have goal_cut := partSize_mono (Nat.min_le_left env.goal.length (4 * maxTokens))
  have line_cut := partSize_mono (Nat.min_le_left (env.dialogue.getLast?.getD "").length
    (4 * maxTokens - min env.goal.length (4 * maxTokens) - 1))
  simp only [Room]
  simp only at sizes
  omega

/-- What is cut is within the budget exactly where there is room for the notes. -/
theorem trim_counts {maxTokens : Nat} : ({} : TokenBudgeter).count
    (trim maxTokens { env with memories := [], dialogue := env.dialogue.getLast?.toList }) ≤ maxTokens ↔ Room env maxTokens := by
  have goal : (sliceTo env.goal (maxTokens * 4)).length = min env.goal.length (4 * maxTokens) := by
    rw [← sliceTo_length, Nat.mul_comm]
    rfl
  have left : max 0 ((maxTokens : Int) * 4 - (min env.goal.length (4 * maxTokens) : Nat) - 1) =
      ((4 * maxTokens - min env.goal.length (4 * maxTokens) - 1 : Nat) : Int) := by
    omega
  rw [counts_iff]
  simp only [trim, goal, left, Room]
  cases env.dialogue.getLast? with
  | none => simp [partSizes, partSize]
  | some line =>
      simp only [Option.toList_some, List.getLast?_singleton, Option.getD_some]
      split
      · next some_ => simp [partSizes, sliceTo_length]
      · next none_ =>
          have cut : 4 * maxTokens - min env.goal.length (4 * maxTokens) - 1 = 0 := by
            omega
          simp [partSizes, cut, partSize]

end TokenBudgeter

open TokenBudgeter

/-- What the budgeter leaves of an envelope is within the budget exactly where there is room for the notes of its data
pointers, and an envelope within the budget stays as it is. -/
theorem budget_caps_iff (env : ContextEnvelope) (maxTokens : Nat) :
    (({} : TokenBudgeter).count (TokenBudgeter.fitEnvelope {} env maxTokens) ≤ maxTokens ∧
      (({} : TokenBudgeter).count env ≤ maxTokens → TokenBudgeter.fitEnvelope {} env maxTokens = env)) ↔ Room env maxTokens := by
  rw [and_iff_left fitEnvelope_of_fits]
  obtain ⟨k, same, fits⟩ | ⟨-, ⟨rest, part, some_, same, fits, -⟩ | ⟨-, same⟩⟩ :=
    @fitEnvelope_cases {} maxTokens env
  · rw [same]
    exact iff_of_true fits (room_of_fits rfl fits)
  · rw [same]
    refine iff_of_true fits (room_of_fits ?_ fits)
    obtain ⟨before, parts⟩ := part
    cases rest using List.reverseRecOn with
    | nil =>
        have none_ : env.dialogue = [] := by
          by_contra full
          exact some_ full rfl
        rw [none_]
    | append_singleton rest line => rw [← parts, List.getLast?_append, List.getLast?_append]; simp
  · rw [same]
    exact trim_counts

namespace Sample

/-- A pointer to a data set, with a note on it. -/
def notedEnvelope : ContextEnvelope :=
  { runId := "r", tenantId := "t", stage := .chat, goal := "Restock", dialogue := ["Which stores?"]
    dataPointers := [{ aliasName := "sales", uri := "s3://sales", note := "All sales since 2020, by store and day." }] }

end Sample

/-- The note alone is over the budget. -/
theorem note_over_budget : ¬ ∀ (env : ContextEnvelope) (maxTokens : Nat),
    ({} : TokenBudgeter).count (TokenBudgeter.fitEnvelope {} env maxTokens) ≤ maxTokens ∧
      (({} : TokenBudgeter).count env ≤ maxTokens → TokenBudgeter.fitEnvelope {} env maxTokens = env) := by
  intro caps
  have capped := (caps Sample.notedEnvelope 5).1
  revert capped
  decide +kernel

end Maof
