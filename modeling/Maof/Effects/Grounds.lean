import Maof.Effects.Record

/-!
# Calls on the grounds of others

A process makes a call on the grounds of the calls it made before and of what they answered. The
record of a machine has the calls of its processes among each other, each in the order they were
made, so what a process had as its grounds the record has before the call.
-/

namespace Effects

variable {S : Sig} {W Ch A E G α β σ : Type}

/-- Every call is remembered, and is made on its grounds. -/
def Protocol.grounded (grounds : List (Event S) → S.Op → Prop) (answers : (op : S.Op) → S.Reply op → Prop) :
    Protocol S (List (Event S)) where
  allowed := grounds
  answers
  mark g op r := g ++ [⟨op, r⟩]

/-- Everything in the list stands on what comes before it. -/
def Founded {ε : Type} (stands : List ε → ε → Prop) (log : List ε) : Prop :=
  ∀ before e after, log = before ++ e :: after → stands before e

/-- Every call of the log has its grounds in the calls before it. -/
abbrev Supported (grounds : List (Event S) → S.Op → Prop) : List (Event S) → Prop :=
  Founded fun before e => grounds before e.op

section founded

variable {ε : Type} {stands : List ε → ε → Prop} {log : List ε} {e : ε}

theorem founded_nil : Founded stands [] := by
  intro before e after whole
  cases before <;> cases whole

theorem Founded.snoc (founded : Founded stands log) (last : stands log e) : Founded stands (log ++ [e]) := by
  intro before e' after whole
  rcases List.append_eq_append_iff.mp whole with ⟨more, rfl, rest⟩ | ⟨more, rfl, rest⟩
  · cases more with
    | nil =>
        cases rest
        rwa [List.append_nil]
    | cons x more =>
        obtain ⟨rfl, empty⟩ := List.cons.inj rest
        cases more <;> cases empty
  · cases more with
    | nil =>
        cases rest
        rwa [List.append_nil] at last
    | cons x more =>
        obtain ⟨rfl, -⟩ := List.cons.inj rest
        exact founded _ _ _ rfl

/-- What stands on what comes before it does so in any part of the list up to it. -/
theorem Founded.of_mem {part : List ε} (founded : Founded stands log) (inside : part <+: log) (member : e ∈ part) :
    ∃ before after, part = before ++ e :: after ∧ stands before e := by
  obtain ⟨before, after, rfl⟩ := List.append_of_mem member
  obtain ⟨rest, rfl⟩ := inside
  exact ⟨before, after, rfl, founded before e (after ++ rest) (List.append_assoc _ _ _)⟩

end founded

variable {grounds : List (Event S) → S.Op → Prop} {answers : (op : S.Op) → S.Reply op → Prop}

/-- What a program remembers at the end begins with what it remembered. -/
theorem Prog.Follows.grows {post : α → List (Event S) → Prop} {p : Prog S α} {g : List (Event S)}
    (h : p.Follows (.grounded grounds answers) post g) :
    p.Follows (.grounded grounds answers) (fun a g' => post a g' ∧ g <+: g') g := by
  induction p generalizing g with
  | ret a => exact ⟨h, List.prefix_refl g⟩
  | call op k ih =>
      refine ⟨h.1, fun r known => Prog.Follows.weaken (ih r (h.2 r known)) ?_⟩
      rintro a g' ⟨holds, later⟩
      exact ⟨holds, (List.prefix_append g _).trans later⟩

/-- Calls that need no grounds may be made on any. -/
theorem Prog.Follows.ofFree {free : S.Op → Prop} {p : Prog S α} (uses : p.Uses free)
    (always : ∀ g op, free op → grounds g op) (g : List (Event S)) :
    p.Follows (.grounded grounds answers) (fun _ g' => g <+: g') g := by
  induction p generalizing g with
  | ret a => exact List.prefix_refl g
  | call op k ih =>
      refine ⟨always g op uses.1, fun r _ => Prog.Follows.weaken (ih r (uses.2 r) (g ++ [⟨op, r⟩])) ?_⟩
      exact fun _ _ later => (List.prefix_append g _).trans later

namespace Machine

/-- The machine that writes its calls down, beside every process the calls it made. -/
def remembering (M : Machine S W Ch A E G) : Machine S (Recorded S W) Ch A E (List (Event S)) :=
  M.recorded.retagged (fun _ => []) fun g op r => g ++ [⟨op, r⟩]

variable {M : Machine S W Ch A E G} {I : W → Prop}

/-- What a run keeps of its record: the processes' memories are in it, and it is grounded. -/
structure Remembered (grounds : List (Event S) → S.Op → Prop) (answers : (op : S.Op) → S.Reply op → Prop)
    (I : W → Prop) (p : Pool S (Recorded S W) (List (Event S))) : Prop where
  holds : I p.world.world
  inside : ∀ b ∈ p.procs, b.tag.Sublist p.world.log
  grounded : Supported grounds p.world.log
  follow : AllFollow (.grounded grounds answers) (fun _ _ => True) p

/-- What the processes, and the environment, do to a world. -/
structure Grounding (M : Machine S W Ch A E G) (grounds : List (Event S) → S.Op → Prop)
    (answers : (op : S.Op) → S.Reply op → Prop) (I : W → Prop) : Prop where
  mono : ∀ {g g' op}, g.Sublist g' → grounds g op → grounds g' op
  starts : ∀ a, (M.program a).Follows (.grounded grounds answers) (fun _ _ => True) []
  answered : ∀ {w} c op, I w → answers op (M.perform c w op).2
  called : ∀ {g w} c op, I w → grounds g op → I (M.perform c w op).1
  alone : ∀ {w} e, I w → I (M.env e w)

theorem step_remembered (grounding : Grounding M grounds answers I) {p q : Pool S (Recorded S W) (List (Event S))}
    {l : Label Ch A E} (kept : Remembered grounds answers I p) (h : M.remembering.step p l = some q) :
    Remembered grounds answers I q := by
  have follow : AllFollow (.grounded grounds answers) (fun _ _ => True) q :=
    step_allFollow rfl grounding.starts kept.follow h fun i c op k g _ _ => grounding.answered c op kept.holds
  rcases step_cases h with ⟨a, rfl, rfl⟩ | ⟨i, c, op, k, g, rfl, found, rfl⟩ | ⟨i, b, rfl, found, rfl⟩ | ⟨e, rfl, rfl⟩
  · refine ⟨kept.holds, fun b member => ?_, kept.grounded, follow⟩
    rcases List.mem_append.mp member with old | new
    · exact kept.inside b old
    · rw [List.mem_singleton.mp new]
      exact List.nil_sublist _
  · have mine : g.Sublist p.world.log := kept.inside _ (List.mem_of_getElem? found)
    have reasons : grounds g op := kept.follow.allowed found
    refine ⟨grounding.called c op kept.holds reasons, fun b member => ?_, ?_, follow⟩
    · rcases mem_set member with rfl | old
      · exact mine.append (List.Sublist.refl _)
      · exact (kept.inside b old).trans (List.sublist_append_left _ _)
    · exact kept.grounded.snoc (grounding.mono mine reasons)
  · refine ⟨kept.holds, fun b' member => ?_, kept.grounded, follow⟩
    rcases mem_set member with rfl | old
    · exact kept.inside b (List.mem_of_getElem? found)
    · exact kept.inside b' old
  · exact ⟨grounding.alone e kept.holds, kept.inside, kept.grounded, follow⟩

/-- Where every program keeps to its grounds, every record of the machine is grounded. -/
theorem Run.grounded (grounding : Grounding M grounds answers I) {w : W} (holds : I w)
    {q : Pool S (Recorded S W) G} (run : Run M.recorded (fun _ _ => true) ⟨⟨w, []⟩, []⟩ q) :
    Supported grounds q.world.log := by
  obtain ⟨q', run', same⟩ : ∃ q' : Pool S (Recorded S W) (List (Event S)),
      Run M.remembering (fun _ _ => true) ⟨⟨w, []⟩, []⟩ q' ∧ SamePool q q' := run.retag ⟨rfl, rfl⟩
  have fresh : Remembered grounds answers I ⟨⟨w, []⟩, []⟩ :=
    ⟨holds, fun _ member => (List.not_mem_nil member).elim, founded_nil, fun _ member => (List.not_mem_nil member).elim⟩
  have kept : Remembered grounds answers I q' :=
    Run.invariant run' fresh fun _ _ _ kept _ step => step_remembered grounding kept step
  rw [← same.1]
  exact kept.grounded

end Machine

end Effects
