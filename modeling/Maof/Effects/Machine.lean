import Maof.Effects.Logic
import Maof.Effects.Protocol

/-!
# Processes sharing one world

A machine interleaves programs at the granularity of their calls. A process may
be started at any time, may be stopped between any two calls, and never learns
of either happening to another. `tag` is history kept beside a process; no
program reads it.
-/

namespace Effects

/-- `Ch` is what the environment decides about one call, `A` names the programs
that may be started, `E` the moves the environment makes by itself. -/
structure Machine (S : Sig) (W Ch A E G : Type) where
  perform : Ch → W → (op : S.Op) → W × S.Reply op
  program : A → Prog S (Except S.Err Unit)
  env : E → W → W
  tag : A → G
  mark : G → (op : S.Op) → S.Reply op → G

structure Proc (S : Sig) (G : Type) where
  prog : Prog S (Except S.Err Unit)
  tag : G

structure Pool (S : Sig) (W G : Type) where
  world : W
  procs : List (Proc S G)

/-- A process with a call left to make. -/
def Proc.live {S : Sig} {G : Type} (b : Proc S G) : Bool :=
  match b.prog with
  | .call _ _ => true
  | .ret _ => false

/-- The call process `i` is about to make. -/
def Pool.next {S : Sig} {W G : Type} (p : Pool S W G) (i : Nat) : Option S.Op :=
  match p.procs[i]? with
  | some ⟨.call op _, _⟩ => some op
  | _ => none

theorem Pool.next_eq {S : Sig} {W G : Type} {p : Pool S W G} {i : Nat} {op : S.Op}
    {k : S.Reply op → Prog S (Except S.Err Unit)} {g : G}
    (found : p.procs[i]? = some ⟨.call op k, g⟩) : p.next i = some op := by
  simp only [Pool.next, found]

theorem Pool.of_next {S : Sig} {W G : Type} {p : Pool S W G} {i : Nat} {op : S.Op} (next : p.next i = some op) :
    ∃ k g, p.procs[i]? = some ⟨.call op k, g⟩ := by
  unfold Pool.next at next
  split at next
  · next found =>
      obtain rfl := Option.some.inj next
      exact ⟨_, _, found⟩
  · cases next

inductive Label (Ch A E : Type) where
  | spawn (a : A)
  | run (i : Nat) (c : Ch)
  | kill (i : Nat)
  | env (e : E)

namespace Machine

variable {S : Sig} {W Ch A E G : Type}

/-- What one call of a process does to the pool. -/
def call (M : Machine S W Ch A E G) (p : Pool S W G) (i : Nat) (c : Ch) : Option (Pool S W G) :=
  match p.procs[i]? with
  | some ⟨.call op k, g⟩ =>
      let out := M.perform c p.world op
      some ⟨out.1, p.procs.set i ⟨k out.2, M.mark g op out.2⟩⟩
  | _ => none

def step (M : Machine S W Ch A E G) (p : Pool S W G) : Label Ch A E → Option (Pool S W G)
  | .spawn a => some { p with procs := p.procs ++ [⟨M.program a, M.tag a⟩] }
  | .run i c => M.call p i c
  | .kill i => (p.procs[i]?).map fun q =>
      { p with procs := p.procs.set i { q with prog := .ret (.ok ()) } }
  | .env e => some { p with world := M.env e p.world }

/-- Follow a list of labels that all meet `cond`; `none` as soon as one of them cannot be taken. -/
def follow (M : Machine S W Ch A E G) (cond : Pool S W G → Label Ch A E → Bool) :
    Pool S W G → List (Label Ch A E) → Option (Pool S W G)
  | p, [] => some p
  | p, l :: ls => if cond p l then (M.step p l).bind fun q => M.follow cond q ls else none

/-- Runs all of whose steps meet `cond`, a condition on the pool before the step and the label. -/
inductive Run (M : Machine S W Ch A E G) (cond : Pool S W G → Label Ch A E → Bool) :
    Pool S W G → Pool S W G → Prop
  | refl (p : Pool S W G) : Run M cond p p
  | tail {p q r : Pool S W G} {l : Label Ch A E} :
      Run M cond p q → cond q l → M.step q l = some r → Run M cond p r

variable {M : Machine S W Ch A E G} {cond : Pool S W G → Label Ch A E → Bool}

theorem Run.trans {p q r : Pool S W G} (first : Run M cond p q) (rest : Run M cond q r) :
    Run M cond p r := by
  induction rest with
  | refl => exact first
  | tail _ met step ih => exact .tail ih met step

/-- What every permitted step preserves holds along every permitted run. -/
theorem Run.invariant {I : Pool S W G → Prop} {p q : Pool S W G} (run : Run M cond p q)
    (start : I p) (keep : ∀ p l q, I p → cond p l → M.step p l = some q → I q) : I q := by
  induction run with
  | refl => exact start
  | tail _ met step ih => exact keep _ _ _ ih met step

theorem follow_run {p q : Pool S W G} {ls : List (Label Ch A E)}
    (h : M.follow cond p ls = some q) : Run M cond p q := by
  induction ls generalizing p with
  | nil => cases h; exact .refl _
  | cons l ls ih =>
      simp only [follow] at h
      split at h
      · next met =>
          obtain ⟨mid, first, rest⟩ := Option.bind_eq_some_iff.mp h
          exact (Run.tail (.refl p) met first).trans (ih rest)
      · cases h

/-- What holds where a list of labels leads is reached by a run. -/
theorem follow_any (M : Machine S W Ch A E G) (cond : Pool S W G → Label Ch A E → Bool)
    (p : Pool S W G) (ls : List (Label Ch A E)) (P : Pool S W G → Bool)
    (h : (M.follow cond p ls).any P = true) : ∃ q, Run M cond p q ∧ P q = true := by
  cases reached : M.follow cond p ls with
  | none => rw [reached] at h; cases h
  | some q => exact ⟨q, follow_run reached, by rwa [reached] at h⟩

/-- A run under one condition is a run under any weaker one. -/
theorem Run.weaken {cond' : Pool S W G → Label Ch A E → Bool} {p q : Pool S W G}
    (run : Run M cond p q) (implies : ∀ p l, cond p l = true → cond' p l = true) :
    Run M cond' p q := by
  induction run with
  | refl => exact .refl _
  | tail _ met step ih => exact .tail ih (implies _ _ met) step

theorem call_eq_some {p q : Pool S W G} {i : Nat} {c : Ch} (h : M.call p i c = some q) :
    ∃ op k g, p.procs[i]? = some ⟨.call op k, g⟩ ∧
      q = ⟨(M.perform c p.world op).1,
        p.procs.set i ⟨k (M.perform c p.world op).2, M.mark g op (M.perform c p.world op).2⟩⟩ := by
  unfold call at h
  split at h
  · exact ⟨_, _, _, ‹_›, (Option.some.inj h).symm⟩
  · cases h

/-- The inversion of a step: every way a pool can change. -/
theorem step_cases {p q : Pool S W G} {l : Label Ch A E} (h : M.step p l = some q) :
    (∃ a, l = .spawn a ∧ q = { p with procs := p.procs ++ [⟨M.program a, M.tag a⟩] }) ∨
    (∃ i c op k g, l = .run i c ∧ p.procs[i]? = some ⟨.call op k, g⟩ ∧
      q = ⟨(M.perform c p.world op).1,
        p.procs.set i ⟨k (M.perform c p.world op).2, M.mark g op (M.perform c p.world op).2⟩⟩) ∨
    (∃ i b, l = .kill i ∧ p.procs[i]? = some b ∧
      q = { p with procs := p.procs.set i { b with prog := .ret (.ok ()) } }) ∨
    (∃ e, l = .env e ∧ q = { p with world := M.env e p.world }) := by
  cases l with
  | spawn a => exact .inl ⟨a, rfl, (Option.some.inj h).symm⟩
  | run i c =>
      obtain ⟨op, k, g, found, same⟩ := call_eq_some h
      exact .inr (.inl ⟨i, c, op, k, g, rfl, found, same⟩)
  | kill i =>
      simp only [step, Option.map_eq_some_iff] at h
      obtain ⟨b, found, same⟩ := h
      exact .inr (.inr (.inl ⟨i, b, rfl, found, same.symm⟩))
  | env e => exact .inr (.inr (.inr ⟨e, rfl, (Option.some.inj h).symm⟩))

/-- A process of a pool after one of them was replaced is the new one or an old one. -/
theorem mem_set {ps : List (Proc S G)} {i : Nat} {b q : Proc S G} (h : q ∈ ps.set i b) :
    q = b ∨ q ∈ ps :=
  (List.mem_or_eq_of_mem_set h).symm

/-- Under `cond`, calls are ones the contract allows, and processes may rely on
what the others guarantee. -/
structure Obeys (M : Machine S W Ch A E G) (C : Contract S W)
    (cond : Pool S W G → Label Ch A E → Bool) : Prop where
  calls : ∀ p i c op k g, cond p (.run i c) = true → p.procs[i]? = some ⟨.call op k, g⟩ →
    C.valid p.world → C.sem p.world op (M.perform c p.world op).1 (M.perform c p.world op).2
  shared : ∀ w w', C.guar w w' → C.rely w w'
  alone : ∀ p e, cond p (.env e) = true → C.valid p.world →
    C.valid (M.env e p.world) ∧ C.rely p.world (M.env e p.world)

def AllSafe (C : Contract S W) (p : Pool S W G) : Prop :=
  C.valid p.world ∧ ∀ q ∈ p.procs, q.prog.Safe C (fun _ _ => True) p.world

theorem step_allSafe {C : Contract S W} (obeys : M.Obeys C cond) {p q : Pool S W G}
    {l : Label Ch A E} (met : cond p l = true)
    (fresh : ∀ a, l = .spawn a → (M.program a).Safe C (fun _ _ => True) p.world)
    (safe : AllSafe C p) (h : M.step p l = some q) : AllSafe C q ∧ C.rely p.world q.world := by
  rcases step_cases h with ⟨a, rfl, rfl⟩ | ⟨i, c, op, k, g, rfl, found, rfl⟩ |
    ⟨i, b, rfl, found, rfl⟩ | ⟨e, rfl, rfl⟩
  · refine ⟨⟨safe.1, ?_⟩, C.refl _⟩
    intro b member
    rcases List.mem_append.mp member with old | new
    · exact safe.2 b old
    · rw [List.mem_singleton.mp new]
      exact fresh a rfl
  · have mine := safe.2 _ (List.mem_of_getElem? found)
    obtain ⟨valid, guar, rest⟩ := mine _ (C.refl _) safe.1 _ _
      (obeys.calls p i c op k g met found safe.1)
    have moved := obeys.shared _ _ guar
    refine ⟨⟨valid, ?_⟩, moved⟩
    intro b member
    rcases mem_set member with rfl | old
    · exact rest
    · exact (safe.2 b old).later moved
  · refine ⟨⟨safe.1, ?_⟩, C.refl _⟩
    intro q member
    rcases mem_set member with rfl | old
    · exact fun _ _ _ => trivial
    · exact safe.2 q old
  · obtain ⟨valid, moved⟩ := obeys.alone p e met safe.1
    exact ⟨⟨valid, fun b member => (safe.2 b member).later moved⟩, moved⟩

/-- Programs that are safe from every valid world stay safe together. -/
theorem Run.allSafe {C : Contract S W} (obeys : M.Obeys C cond) {p q : Pool S W G}
    (run : Run M cond p q)
    (fresh : ∀ p a, cond p (.spawn a) = true → C.valid p.world →
      (M.program a).Safe C (fun _ _ => True) p.world)
    (safe : AllSafe C p) : AllSafe C q ∧ C.rely p.world q.world := by
  induction run with
  | refl => exact ⟨safe, C.refl _⟩
  | @tail q r l _ met step ih =>
      obtain ⟨kept, moved⟩ := ih
      obtain ⟨next, further⟩ := step_allSafe obeys met (fun a ha => fresh q a (ha ▸ met) kept.1) kept step
      exact ⟨next, C.trans moved further⟩

/-- A process is never forgotten, where its tag stays as it was. -/
theorem step_started (kept : ∀ g op r, M.mark g op r = g) {p q : Pool S W G} {l : Label Ch A E} (h : M.step p l = some q)
    {b : Proc S G} (member : b ∈ p.procs) : ∃ b' ∈ q.procs, b'.tag = b.tag := by
  have replaced : ∀ {i : Nat} {x y : Proc S G}, p.procs[i]? = some x → y.tag = x.tag → ∃ b' ∈ p.procs.set i y, b'.tag = b.tag := by
    intro i x y found same
    obtain ⟨j, there⟩ := List.getElem?_of_mem member
    by_cases here : i = j
    · subst here
      obtain rfl : x = b := Option.some.inj (found.symm.trans there)
      obtain ⟨inside, _⟩ := List.getElem?_eq_some_iff.mp found
      exact ⟨y, List.mem_set inside y, same⟩
    · refine ⟨b, List.mem_of_getElem? (i := j) ?_, rfl⟩
      rw [List.getElem?_set_ne here]
      exact there
  rcases step_cases h with ⟨a, rfl, rfl⟩ | ⟨i, c, op, k, g, rfl, found, rfl⟩ | ⟨i, x, rfl, found, rfl⟩ | ⟨e, rfl, rfl⟩
  · exact ⟨b, List.mem_append_left _ member, rfl⟩
  · exact replaced found (kept g op _)
  · exact replaced found rfl
  · exact ⟨b, member, rfl⟩

/-- Every process still running follows the protocol from its tag. -/
def AllFollow (P : Protocol S G) (post : Except S.Err Unit → G → Prop) (p : Pool S W G) : Prop :=
  ∀ b ∈ p.procs, b.live = true → b.prog.Follows P post b.tag

/-- One step keeps every process on the protocol; the process that moved made an allowed call. -/
theorem step_allFollow {P : Protocol S G} {post : Except S.Err Unit → G → Prop}
    (marks : M.mark = P.mark) (starts : ∀ a, (M.program a).Follows P post (M.tag a))
    {p q : Pool S W G} {l : Label Ch A E} (follow : AllFollow P post p) (h : M.step p l = some q)
    (known : ∀ i c op k g, l = .run i c → p.procs[i]? = some ⟨.call op k, g⟩ →
      P.answers op (M.perform c p.world op).2) : AllFollow P post q := by
  rcases step_cases h with ⟨a, rfl, rfl⟩ | ⟨i, c, op, k, g, rfl, found, rfl⟩ |
    ⟨i, b, rfl, found, rfl⟩ | ⟨e, rfl, rfl⟩
  · intro b member live
    rcases List.mem_append.mp member with old | new
    · exact follow b old live
    · rw [List.mem_singleton.mp new]
      exact starts a
  · have mine := follow _ (List.mem_of_getElem? found) rfl
    intro b member live
    rcases mem_set member with rfl | old
    · rw [marks]
      exact mine.2 _ (known i c op k g rfl found)
    · exact follow b old live
  · intro q member live
    rcases mem_set member with rfl | old
    · cases live
    · exact follow q old live
  · exact follow

/-- The call a process is about to make is one its protocol allows. -/
theorem AllFollow.allowed {P : Protocol S G} {post : Except S.Err Unit → G → Prop} {p : Pool S W G}
    (follow : AllFollow P post p) {i : Nat} {op : S.Op}
    {k : S.Reply op → Prog S (Except S.Err Unit)} {g : G}
    (found : p.procs[i]? = some ⟨.call op k, g⟩) : P.allowed g op :=
  (follow _ (List.mem_of_getElem? found) rfl).1

/-! ## Other tags -/

/-- The machine with another history beside its processes. -/
def retagged {G' : Type} (M : Machine S W Ch A E G) (tag : A → G') (mark : G' → (op : S.Op) → S.Reply op → G') :
    Machine S W Ch A E G' where
  perform := M.perform
  program := M.program
  env := M.env
  tag
  mark

/-- The same world and the same programs, whatever is kept beside them. -/
def SamePool {G' : Type} (p : Pool S W G) (p' : Pool S W G') : Prop :=
  p'.world = p.world ∧ p'.procs.map Proc.prog = p.procs.map Proc.prog

section retag

variable {G' : Type} {tag : A → G'} {mark : G' → (op : S.Op) → S.Reply op → G'}

theorem SamePool.get {p : Pool S W G} {p' : Pool S W G'} (same : SamePool p p') {i : Nat} {b : Proc S G}
    (found : p.procs[i]? = some b) : ∃ g', p'.procs[i]? = some ⟨b.prog, g'⟩ := by
  have read := congrArg (·[i]?) same.2
  simp only [List.getElem?_map, found, Option.map_some] at read
  obtain ⟨b', there, alike⟩ := Option.map_eq_some_iff.mp read
  exact ⟨b'.tag, by rw [there, ← alike]⟩

/-- What a pool can do, it can do with other tags. -/
theorem step_retag {p q : Pool S W G} {p' : Pool S W G'} {l : Label Ch A E} (h : M.step p l = some q)
    (same : SamePool p p') : ∃ q', (M.retagged tag mark).step p' l = some q' ∧ SamePool q q' := by
  rcases step_cases h with ⟨a, rfl, rfl⟩ | ⟨i, c, op, k, g, rfl, found, rfl⟩ |
    ⟨i, b, rfl, found, rfl⟩ | ⟨e, rfl, rfl⟩
  · refine ⟨_, rfl, same.1, ?_⟩
    rw [List.map_append, List.map_append, same.2]
    rfl
  · obtain ⟨g', there⟩ := same.get found
    refine ⟨⟨(M.perform c p.world op).1, p'.procs.set i ⟨k (M.perform c p.world op).2, mark g' op (M.perform c p.world op).2⟩⟩,
      ?_, rfl, ?_⟩
    · simp only [step, call, there, retagged, same.1]
    · rw [List.map_set, List.map_set, same.2]
  · obtain ⟨g', there⟩ := same.get found
    refine ⟨⟨p'.world, p'.procs.set i ⟨.ret (.ok ()), g'⟩⟩, ?_, same.1, ?_⟩
    · simp only [step, there, Option.map_some]
    · rw [List.map_set, List.map_set, same.2]
  · refine ⟨_, rfl, ?_, same.2⟩
    simp only [retagged, same.1]

/-- A run is a run whatever is kept beside the processes. -/
theorem Run.retag {met : Label Ch A E → Bool} {p q : Pool S W G} (run : Run M (fun _ l => met l) p q) {p' : Pool S W G'}
    (same : SamePool p p') : ∃ q', Run (M.retagged tag mark) (fun _ l => met l) p' q' ∧ SamePool q q' := by
  induction run with
  | refl => exact ⟨p', .refl p', same⟩
  | tail _ holds step ih =>
      obtain ⟨mid, before, alike⟩ := ih
      obtain ⟨q', after, alike'⟩ := step_retag step alike
      exact ⟨q', .tail before holds after, alike'⟩

end retag

end Machine
end Effects
