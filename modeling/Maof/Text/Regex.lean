import Mathlib.Data.List.Basic
import Mathlib.Data.List.Infix

/-!
# Regular expressions with word boundaries

Greedy patterns over any alphabet, matched by backtracking: the ends of a match in the
order they are tried, the texts that match, and what substitution leaves of a text. A
replacement that no match runs into leaves no match of the pattern.
-/

namespace Maof
namespace Text

variable {α : Type}

/-- What stands before the rest of a text once some of it is passed. -/
def passed : Option α → List α → Option α
  | b, [] => b
  | _, c :: u => passed (some c) u

@[simp] theorem passed_nil (b : Option α) : passed b [] = b := rfl

@[simp] theorem passed_cons (b : Option α) (c : α) (u : List α) : passed b (c :: u) = passed (some c) u := rfl

theorem passed_append (b : Option α) (u v : List α) : passed b (u ++ v) = passed (passed b u) v := by
  induction u generalizing b with
  | nil => rfl
  | cons c u ih => exact ih (some c)

theorem passed_snoc (b : Option α) (u : List α) (c : α) : passed b (u ++ [c]) = some c := by
  rw [passed_append]
  rfl

/-- A pattern: one element of a class, one pattern after the other, `r?`, `[p]+` and `\b`. -/
inductive Regex (α : Type) where
  | cls (p : α → Bool)
  | seq (r s : Regex α)
  | opt (r : Regex α)
  | plus (p : α → Bool)
  | edge

variable (word : α → Bool)

/-- Whether a word begins or ends between two neighbours. -/
def isEdge (before after : Option α) : Bool := before.any word != after.any word

namespace Regex

/-- The ends of `[p]+`, the longest first. -/
def runs (p : α → Bool) : List α → List (Option α × List α)
  | [] => []
  | c :: rest => if p c then runs p rest ++ [(some c, rest)] else []

/-- Where a match can end, in the order of the search: what it passed last and what is left. -/
def ends : Regex α → Option α → List α → List (Option α × List α)
  | cls _, _, [] => []
  | cls p, _, c :: rest => if p c then [(some c, rest)] else []
  | seq r s, b, t => (ends r b t).flatMap fun e => ends s e.1 e.2
  | opt r, b, t => ends r b t ++ [(b, t)]
  | plus p, _, t => runs p t
  | edge, b, t => if isEdge word b t.head? then [(b, t)] else []

/-- `pattern.search(text) is not None`, of what is left of a text. -/
def search (r : Regex α) : Option α → List α → Bool
  | b, [] => !(r.ends word b []).isEmpty
  | b, c :: rest => !(r.ends word b (c :: rest)).isEmpty || search r (some c) rest

/-- `pattern.sub(new, text)` for a pattern that matches no empty text. The number counts the
elements a match has yet to pass. -/
def sub (r : Regex α) (new : List α) : Option α → Nat → List α → List α
  | _, _, [] => []
  | _, skip + 1, c :: rest => sub r new (some c) skip rest
  | b, 0, c :: rest =>
      match r.ends word b (c :: rest) with
      | [] => c :: sub r new (some c) 0 rest
      | e :: _ => new ++ sub r new (some c) (rest.length - e.2.length) rest

/-! ## The texts that match -/

/-- A text that matches between what stands before it and the rest. -/
def Matches : Regex α → Option α → List α → List α → Prop
  | cls p, _, u, _ => ∃ c, u = [c] ∧ p c
  | seq r s, b, u, rest => ∃ v w, u = v ++ w ∧ r.Matches b v (w ++ rest) ∧ s.Matches (passed b v) w rest
  | opt r, b, u, rest => r.Matches b u rest ∨ u = []
  | plus p, _, u, _ => u ≠ [] ∧ ∀ c ∈ u, p c
  | edge, b, u, rest => u = [] ∧ isEdge word b rest.head?

/-- A text some part of which matches. -/
def Found (r : Regex α) (b : Option α) (t : List α) : Prop :=
  ∃ x u rest, t = x ++ (u ++ rest) ∧ r.Matches word (passed b x) u rest

variable {word} {r q : Regex α} {b b' : Option α} {t u v w rest : List α}

theorem mem_runs {p : α → Bool} {e : Option α × List α} :
    e ∈ runs p t ↔ ∃ u, t = u ++ e.2 ∧ e.1 = passed b u ∧ u ≠ [] ∧ ∀ c ∈ u, p c := by
  induction t generalizing b with
  | nil =>
      simp only [runs, List.not_mem_nil, false_iff]
      intro found
      obtain ⟨u, same, -, some_, -⟩ := found
      exact some_ (List.append_eq_nil_iff.mp same.symm).1
  | cons c t ih =>
      rw [runs]
      split
      · next holds =>
          rw [List.mem_append, List.mem_singleton, ih (b := some c)]
          constructor
          · intro either
            obtain ⟨u, rfl, last, _, all⟩ | rfl := either
            · exact ⟨c :: u, rfl, last, List.cons_ne_nil _ _, List.forall_mem_cons.mpr ⟨holds, all⟩⟩
            · exact ⟨[c], rfl, rfl, List.cons_ne_nil _ _, by simpa using holds⟩
          · intro found
            obtain ⟨u, same, last, some_, all⟩ := found
            cases u with
            | nil => exact absurd rfl some_
            | cons d u =>
                obtain ⟨rfl, rest⟩ := List.cons.inj same
                cases u with
                | nil => exact .inr (Prod.ext last rest.symm)
                | cons d' u =>
                    exact .inl ⟨d' :: u, rest, last, List.cons_ne_nil _ _, (List.forall_mem_cons.mp all).2⟩
      · next fails =>
          simp only [List.not_mem_nil, false_iff]
          intro found
          obtain ⟨u, same, -, some_, all⟩ := found
          cases u with
          | nil => exact some_ rfl
          | cons d u =>
              obtain ⟨rfl, -⟩ := List.cons.inj same
              exact fails (all c List.mem_cons_self)

/-- The search ends where a match ends, and ends at each. -/
theorem mem_ends {e : Option α × List α} :
    e ∈ r.ends word b t ↔ ∃ u, t = u ++ e.2 ∧ e.1 = passed b u ∧ r.Matches word b u e.2 := by
  induction r generalizing b t e with
  | cls p =>
      cases t with
      | nil => simp [ends, Matches]
      | cons c rest =>
          rw [ends]
          constructor
          · intro found
            split at found
            · next holds =>
                cases List.mem_singleton.mp found
                exact ⟨[c], rfl, rfl, c, rfl, holds⟩
            · cases found
          · intro found
            obtain ⟨u, same, last, d, rfl, holds⟩ := found
            obtain ⟨rfl, rest⟩ := List.cons.inj same
            rw [if_pos holds, List.mem_singleton]
            exact Prod.ext last rest.symm
  | seq r s ihr ihs =>
      simp only [ends, List.mem_flatMap, ihr, ihs]
      constructor
      · intro found
        obtain ⟨⟨b', t'⟩, ⟨v, same, last, first⟩, w, same', last', second⟩ := found
        obtain rfl : b' = passed b v := last
        obtain rfl : t' = w ++ e.2 := same'
        exact ⟨v ++ w, by rw [same, List.append_assoc], by rw [last', passed_append], v, w, rfl, first, second⟩
      · intro found
        obtain ⟨u, same, last, v, w, rfl, first, second⟩ := found
        exact ⟨(passed b v, w ++ e.2), ⟨v, by rw [same, List.append_assoc], rfl, first⟩, w, rfl,
          by rw [last, passed_append], second⟩
  | opt r ih =>
      simp only [ends, List.mem_append, ih, List.mem_singleton]
      constructor
      · intro either
        obtain ⟨u, same, last, found⟩ | rfl := either
        · exact ⟨u, same, last, .inl found⟩
        · exact ⟨[], rfl, rfl, .inr rfl⟩
      · intro found
        obtain ⟨u, same, last, found | rfl⟩ := found
        · exact .inl ⟨u, same, last, found⟩
        · exact .inr (Prod.ext last same.symm)
  | plus p => exact mem_runs
  | edge =>
      rw [ends]
      constructor
      · intro found
        split at found
        · next holds =>
            cases List.mem_singleton.mp found
            exact ⟨[], rfl, rfl, rfl, holds⟩
        · cases found
      · intro found
        obtain ⟨u, same, last, rfl, holds⟩ := found
        obtain rfl : t = e.2 := same
        rw [if_pos holds, List.mem_singleton]
        exact Prod.ext last rfl

theorem ends_isEmpty : (r.ends word b t).isEmpty = true ↔ ∀ u rest, t = u ++ rest → ¬ r.Matches word b u rest := by
  rw [List.isEmpty_iff, List.eq_nil_iff_forall_not_mem]
  constructor
  · intro none_ u rest same found
    exact none_ (passed b u, rest) (mem_ends.mpr ⟨u, same, rfl, found⟩)
  · intro none_ e inside
    obtain ⟨u, same, -, found⟩ := mem_ends.mp inside
    exact none_ u e.2 same found

theorem found_nil : r.Found word b [] ↔ r.Matches word b [] [] := by
  constructor
  · intro found
    obtain ⟨x, u, rest, same, found⟩ := found
    obtain ⟨rfl, none_⟩ := List.append_eq_nil_iff.mp same.symm
    obtain ⟨rfl, rfl⟩ := List.append_eq_nil_iff.mp none_
    exact found
  · intro found
    exact ⟨[], [], [], rfl, found⟩

/-- A match begins at the first element or is one of the rest. -/
theorem found_cons {c : α} : r.Found word b (c :: t) ↔
    (∃ u rest, c :: t = u ++ rest ∧ r.Matches word b u rest) ∨ r.Found word (some c) t := by
  constructor
  · intro found
    obtain ⟨x, u, rest, same, found⟩ := found
    cases x with
    | nil => exact .inl ⟨u, rest, same, found⟩
    | cons d x =>
        obtain ⟨rfl, tail⟩ := List.cons.inj same
        exact .inr ⟨x, u, rest, tail, found⟩
  · intro either
    obtain ⟨u, rest, same, found⟩ | ⟨x, u, rest, same, found⟩ := either
    · exact ⟨[], u, rest, same, found⟩
    · exact ⟨c :: x, u, rest, by rw [same, List.cons_append], found⟩

/-- The search finds what there is to find. -/
theorem search_iff : r.search word b t = true ↔ r.Found word b t := by
  have empty : ∀ {b t}, (!(r.ends word b t).isEmpty) = true ↔ ∃ u rest, t = u ++ rest ∧ r.Matches word b u rest := by
    intro b t
    rw [Bool.not_eq_true', ← Bool.not_eq_true, ends_isEmpty]
    push Not
    rfl
  induction t generalizing b with
  | nil =>
      rw [search, empty, found_nil]
      constructor
      · intro found
        obtain ⟨u, rest, same, found⟩ := found
        obtain ⟨rfl, rfl⟩ := List.append_eq_nil_iff.mp same.symm
        exact found
      · intro found
        exact ⟨[], [], rfl, found⟩
  | cons c t ih =>
      rw [search, Bool.or_eq_true, empty, found_cons]
      exact or_congr_right ih

/-- A match of a longer text begins in its first part, or is one of the second. -/
theorem found_append {x y : List α} : r.Found word b (x ++ y) ↔
    (∃ x₁ x₂ u rest, x = x₁ ++ x₂ ∧ x₂ ≠ [] ∧ x₂ ++ y = u ++ rest ∧ r.Matches word (passed b x₁) u rest) ∨
      r.Found word (passed b x) y := by
  induction x generalizing b with
  | nil =>
      simp only [List.nil_append, passed_nil, iff_or_self]
      intro found
      obtain ⟨x₁, x₂, u, rest, same, some_, -⟩ := found
      exact absurd (List.append_eq_nil_iff.mp same.symm).2 some_
  | cons c x ih =>
      rw [List.cons_append, found_cons, ih, ← or_assoc, passed_cons]
      apply or_congr_left
      constructor
      · intro either
        obtain ⟨u, rest, same, found⟩ | ⟨x₁, x₂, u, rest, rfl, some_, same, found⟩ := either
        · exact ⟨[], c :: x, u, rest, rfl, List.cons_ne_nil _ _, same, found⟩
        · exact ⟨c :: x₁, x₂, u, rest, rfl, some_, same, found⟩
      · intro found
        obtain ⟨x₁, x₂, u, rest, same, some_, same', found⟩ := found
        cases x₁ with
        | nil =>
            obtain rfl : c :: x = x₂ := same
            exact .inl ⟨u, rest, same', found⟩
        | cons d x₁ =>
            obtain ⟨rfl, rfl⟩ := List.cons.inj same
            exact .inr ⟨x₁, x₂, u, rest, rfl, some_, same', found⟩


/-! ## What a match is made of -/

/-- Every element of a match is in one of the classes. -/
def letters : Regex α → α → Bool
  | cls p, c => p c
  | seq r s, c => r.letters c || s.letters c
  | opt r, c => r.letters c
  | plus p, c => p c
  | edge, _ => false

/-- Whether a match has an element at all. -/
def consumes : Regex α → Bool
  | cls _ => true
  | seq r s => r.consumes || s.consumes
  | opt _ => false
  | plus _ => true
  | edge => false

/-- What a match may begin with. -/
def firsts : Regex α → α → Bool
  | cls p, c => p c
  | seq r s, c => r.firsts c || !r.consumes && s.firsts c
  | opt r, c => r.firsts c
  | plus p, c => p c
  | edge, _ => false

/-- What a match may end with. -/
def lasts : Regex α → α → Bool
  | cls p, c => p c
  | seq r s, c => s.lasts c || !s.consumes && r.lasts c
  | opt r, c => r.lasts c
  | plus p, c => p c
  | edge, _ => false

/-- A pattern without `\b`. -/
def plain : Regex α → Bool
  | cls _ => true
  | seq r s => r.plain && s.plain
  | opt r => r.plain
  | plus _ => true
  | edge => false

theorem Matches.letters (found : r.Matches word b u rest) : ∀ c ∈ u, r.letters c = true := by
  induction r generalizing b u rest with
  | cls p =>
      obtain ⟨c, rfl, holds⟩ := found
      intro d inside
      cases List.mem_singleton.mp inside
      exact holds
  | seq r s ihr ihs =>
      obtain ⟨v, w, rfl, first, second⟩ := found
      intro c inside
      rw [Regex.letters, Bool.or_eq_true]
      exact (List.mem_append.mp inside).imp (ihr first c) (ihs second c)
  | opt r ih =>
      cases found with
      | inl found => exact ih found
      | inr none_ => simp [none_]
  | plus p => exact found.2
  | edge => simp [found.1]

theorem Matches.ne_nil (found : r.Matches word b u rest) (consumes : r.consumes = true) : u ≠ [] := by
  induction r generalizing b u rest with
  | cls p =>
      obtain ⟨c, rfl, -⟩ := found
      exact List.cons_ne_nil _ _
  | seq r s ihr ihs =>
      obtain ⟨v, w, rfl, first, second⟩ := found
      intro none_
      obtain ⟨rfl, rfl⟩ := List.append_eq_nil_iff.mp none_
      cases (Bool.or_eq_true _ _).mp consumes with
      | inl consumes => exact ihr first consumes rfl
      | inr consumes => exact ihs second consumes rfl
  | opt r => cases consumes
  | plus p => exact found.1
  | edge => cases consumes

theorem Matches.firsts {c : α} (found : r.Matches word b (c :: u) rest) : r.firsts c = true := by
  induction r generalizing b u rest with
  | cls p =>
      obtain ⟨d, same, holds⟩ := found
      cases same
      exact holds
  | seq r s ihr ihs =>
      obtain ⟨v, w, same, first, second⟩ := found
      rw [Regex.firsts, Bool.or_eq_true]
      cases v with
      | nil =>
          obtain rfl : c :: u = w := same
          have empty : r.consumes = false := by
            rw [← Bool.not_eq_true]
            exact fun consumes => first.ne_nil consumes rfl
          exact .inr (by rw [empty, ihs second]; rfl)
      | cons d v =>
          obtain ⟨rfl, -⟩ := List.cons.inj same
          exact .inl (ihr first)
  | opt r ih =>
      cases found with
      | inl found => exact ih found
      | inr none_ => cases none_
  | plus p => exact found.2 c List.mem_cons_self
  | edge => cases found.1

theorem Matches.lasts {c : α} (found : r.Matches word b (u ++ [c]) rest) : r.lasts c = true := by
  induction r generalizing b u rest with
  | cls p =>
      obtain ⟨d, same, holds⟩ := found
      obtain ⟨-, rfl⟩ := List.append_singleton_inj.mp (same.trans (List.nil_append [d]).symm)
      exact holds
  | seq r s ihr ihs =>
      obtain ⟨v, w, same, first, second⟩ := found
      rw [Regex.lasts, Bool.or_eq_true]
      cases w using List.reverseRecOn with
      | nil =>
          rw [List.append_nil] at same
          subst same
          have empty : s.consumes = false := by
            rw [← Bool.not_eq_true]
            exact fun consumes => second.ne_nil consumes rfl
          exact .inr (by rw [empty, ihr first]; rfl)
      | append_singleton w d =>
          rw [← List.append_assoc] at same
          obtain ⟨-, rfl⟩ := List.append_singleton_inj.mp same
          exact .inl (ihs second)
  | opt r ih =>
      cases found with
      | inl found => exact ih found
      | inr none_ => simp at none_
  | plus p => exact found.2 c (by simp)
  | edge => simp [Matches] at found

/-- The match of a consuming pattern leaves behind what it ended with. -/
theorem Matches.passed (found : r.Matches word b u rest) (consumes : r.consumes = true) :
    ∃ c, passed b u = some c ∧ r.lasts c = true := by
  cases u using List.reverseRecOn with
  | nil => exact absurd rfl (found.ne_nil consumes)
  | append_singleton u c => exact ⟨c, passed_snoc b u c, found.lasts⟩

/-- Without edges a match is one anywhere. -/
theorem Matches.moved (found : r.Matches word b u rest) (free : r.plain = true) {t : List α} : r.Matches word b' u t := by
  induction r generalizing b b' u rest t with
  | cls p => exact found
  | seq r s ihr ihs =>
      obtain ⟨v, w, rfl, first, second⟩ := found
      have free := (Bool.and_eq_true _ _).mp free
      exact ⟨v, w, rfl, ihr first free.1, ihs second free.2⟩
  | opt r ih => exact found.imp_left fun found => ih found free
  | plus p => exact found
  | edge => cases free

/-- Only whether its neighbours are parts of a word tells a match. -/
theorem Matches.beside (found : r.Matches word b u rest) {t : List α} (before : b'.any word = b.any word)
    (after : t.head?.any word = rest.head?.any word) : r.Matches word b' u t := by
  induction r generalizing b b' u rest t with
  | cls p => exact found
  | seq r s ihr ihs =>
      obtain ⟨v, w, rfl, first, second⟩ := found
      refine ⟨v, w, rfl, ihr first before ?_, ihs second ?_ after⟩
      · cases w with
        | nil => exact after
        | cons c w => rfl
      · cases v with
        | nil => exact before
        | cons c v => rfl
  | opt r ih => exact found.imp_left fun found => ih found before after
  | plus p => exact found
  | edge => exact ⟨found.1, by rw [isEdge, before, after]; exact found.2⟩

/-- `\br\b`. -/
def bounded (r : Regex α) : Regex α := seq edge (seq r edge)

theorem matches_bounded : r.bounded.Matches word b u rest ↔
    isEdge word b (u ++ rest).head? = true ∧ r.Matches word b u rest ∧ isEdge word (Text.passed b u) rest.head? = true := by
  constructor
  · intro found
    obtain ⟨v, w, rfl, ⟨rfl, opens⟩, v', w', rfl, found, rfl, closes⟩ := found
    rw [List.append_nil]
    exact ⟨by rw [List.append_nil] at opens; exact opens, found, closes⟩
  · intro found
    exact ⟨[], u, rfl, ⟨rfl, found.1⟩, u, [], (List.append_nil u).symm, found.2.1, rfl, found.2.2⟩

/-- A text and what its matches are replaced by: kept where no match begins. -/
inductive Scan (word : α → Bool) (r : Regex α) (new : List α) : Option α → List α → List α → Prop
  | done {b : Option α} : Scan word r new b [] []
  | keep {b : Option α} {c : α} {rest out : List α}
      (fails : ∀ u t, c :: rest = u ++ t → ¬ r.Matches word b u t)
      (next : Scan word r new (some c) rest out) : Scan word r new b (c :: rest) (c :: out)
  | cut {b : Option α} {u rest out : List α} (some_ : u ≠ []) (found : r.Matches word b u rest)
      (next : Scan word r new (passed b u) rest out) : Scan word r new b (u ++ rest) (new ++ out)

variable {new out : List α}

theorem sub_skip : r.sub word new b w.length (w ++ t) = r.sub word new (Text.passed b w) 0 t := by
  induction w generalizing b with
  | nil => rfl
  | cons c w ih => exact ih

theorem scan_sub (consumes : r.consumes = true) : Scan word r new b t (r.sub word new b 0 t) := by
  induction size : t.length using Nat.strongRecOn generalizing b t with
  | ind n ih =>
      cases t with
      | nil => exact .done
      | cons c rest =>
          rw [sub]
          cases tried : r.ends word b (c :: rest) with
          | nil =>
              apply Scan.keep (ends_isEmpty.mp (by rw [tried]; rfl))
              exact ih rest.length (by simp [← size]) rfl
          | cons e more =>
              obtain ⟨u, same, -, found⟩ := mem_ends.mp (by rw [tried]; exact List.mem_cons_self)
              cases u with
              | nil => exact absurd rfl (found.ne_nil consumes)
              | cons d w =>
                  obtain rfl : c = d := (List.cons.inj same).1
                  obtain rfl : rest = w ++ e.2 := (List.cons.inj same).2
                  have skipped : r.sub word new (some c) ((w ++ e.2).length - e.2.length) (w ++ e.2) =
                      r.sub word new (Text.passed b (c :: w)) 0 e.2 := by
                    rw [List.length_append, Nat.add_sub_cancel]
                    exact sub_skip
                  have shorter : e.2.length < n := by
                    rw [← size, List.length_cons, List.length_append]
                    omega
                  have cut := Scan.cut (List.cons_ne_nil c w) found (ih e.2.length shorter rfl)
                  rw [← skipped] at cut
                  exact cut

/-- The replacement `o :: mid ++ [k]` of a pattern is none of another's matches, and none runs into it. -/
structure Spares (word : α → Bool) (q r : Regex α) (o : α) (mid : List α) (k : α) : Prop where
  consumes : q.consumes = true
  opens : q.letters o = false
  closes : q.letters k = false
  inside : ∀ u b rest, u <:+: mid → ¬ q.Matches word b u rest
  /-- What matches after the replacement matched after the text it replaces. -/
  before : ∀ {b v u rest rest'}, r.Matches word b v (u ++ rest') → v ≠ [] → u ≠ [] → q.Matches word (some k) u rest →
    q.Matches word (Text.passed b v) u rest
  /-- What matches before the replacement matched before the text it replaces. -/
  after : ∀ {b u v rest rest'}, r.Matches word (Text.passed b u) v rest → q.Matches word b u (o :: rest') →
    q.Matches word b u (v ++ rest)

variable {o k : α} {mid : List α}

/-- What does not begin a replacement was kept. -/
theorem Scan.head {all : List α} {c : α} (scan : Scan word r (o :: mid ++ [k]) b t all) (same : all = c :: out) (other : c ≠ o) :
    ∃ rest, t = c :: rest ∧ Scan word r (o :: mid ++ [k]) (some c) rest out := by
  cases scan with
  | done => cases same
  | keep _ next =>
      obtain ⟨rfl, rfl⟩ := List.cons.inj same
      exact ⟨_, rfl, next⟩
  | cut => exact absurd (List.cons.inj same).1.symm other

/-- A text in which the replacement does not begin was there before the substitution. -/
theorem Scan.kept (scan : Scan word r (o :: mid ++ [k]) b t (u ++ rest)) (apart : ∀ c ∈ u, c ≠ o) :
    ∃ y, t = u ++ y ∧ (rest.head? = y.head? ∨
      ∃ z v w, rest = o :: z ∧ y = v ++ w ∧ r.Matches word (Text.passed b u) v w) := by
  induction u generalizing b t with
  | nil =>
      refine ⟨t, rfl, ?_⟩
      rw [List.nil_append] at scan
      cases scan with
      | done => exact .inl rfl
      | keep => exact .inl rfl
      | cut some_ found => exact .inr ⟨_, _, _, rfl, rfl, found⟩
  | cons c u ih =>
      obtain ⟨rest', rfl, next⟩ := scan.head rfl (apart c List.mem_cons_self)
      obtain ⟨y, rfl, either⟩ := ih next fun d inside => apart d (List.mem_cons_of_mem _ inside)
      exact ⟨y, rfl, either⟩

theorem Matches.fresh (found : q.Matches word b u rest) {c : α} (strange : q.letters c = false) : ∀ d ∈ u, d ≠ c := by
  intro d inside same
  have known := found.letters d inside
  rw [same, strange] at known
  cases known

/-- A text without an element of what follows it is a part of what comes before. -/
theorem before_of_fresh {x y : List α} {c : α} (same : x ++ c :: y = u ++ rest) (fresh : ∀ d ∈ u, d ≠ c) :
    ∃ z, x = u ++ z ∧ rest = z ++ c :: y := by
  obtain ⟨z, rfl, tail⟩ | ⟨z, rfl, rfl⟩ := List.append_eq_append_iff.mp same
  · cases z with
    | nil => exact ⟨[], by simp, tail.symm⟩
    | cons d z =>
        cases tail
        exact absurd rfl (fresh c (by simp))
  · exact ⟨z, rfl, rfl⟩

/-- No match of the other pattern begins within the replacement. -/
theorem Spares.found_new (spares : Spares word q r o mid k) (found : q.Found word b (o :: mid ++ [k] ++ out)) :
    q.Found word (some k) out := by
  obtain ⟨x₁, x₂, u, rest, parts, some_, same, matched⟩ | later := found_append.mp found
  · exfalso
    have some_u := matched.ne_nil spares.consumes
    cases x₁ with
    | nil =>
        obtain rfl : o :: mid ++ [k] = x₂ := parts
        cases u with
        | nil => exact some_u rfl
        | cons c u =>
            obtain ⟨rfl, -⟩ := List.cons.inj same
            exact matched.fresh spares.opens o List.mem_cons_self rfl
    | cons d x₁ =>
        cases x₂ using List.reverseRecOn with
        | nil => exact some_ rfl
        | append_singleton x₂ e =>
            have tail : mid ++ [k] = x₁ ++ (x₂ ++ [e]) := (List.cons.inj parts).2
            rw [← List.append_assoc] at tail
            obtain ⟨rfl, rfl⟩ := List.append_singleton_inj.mp tail
            rw [List.append_assoc, List.singleton_append] at same
            obtain ⟨z, rfl, -⟩ := before_of_fresh same (matched.fresh spares.closes)
            exact spares.inside u _ _ ⟨x₁, z, by simp⟩ matched
  · rw [passed_snoc] at later
    exact later

/-- Where a pattern is substituted, another that was not found is not found afterwards, nor is the pattern itself. -/
theorem Scan.clean {turned : Option α} (scan : Scan word r (o :: mid ++ [k]) b t out) (spares : Spares word q r o mid k)
    (apart : q = r ∨ ¬ q.Found word b t)
    (turn : turned = b ∨ turned = some k ∧ ∃ b₀ v, v ≠ [] ∧ r.Matches word b₀ v t ∧ b = Text.passed b₀ v) :
    ¬ q.Found word turned out := by
  induction scan generalizing turned with
  | done =>
      intro found
      exact (found_nil.mp found).ne_nil spares.consumes rfl
  | @keep b c rest out fails next ih =>
      have later : q = r ∨ ¬ q.Found word (some c) rest := apart.imp_right fun none_ found => none_ (found_cons.mpr (.inr found))
      intro found
      cases found_cons.mp found with
      | inr found => exact ih later (.inl rfl) found
      | inl found =>
          obtain ⟨u, rest', same, found⟩ := found
          have scan : Scan word r (o :: mid ++ [k]) b (c :: rest) (u ++ rest') := by
            rw [← same]
            exact .keep fails next
          obtain ⟨y, split_, either⟩ := scan.kept (found.fresh spares.opens)
          have here : q.Matches word b u rest' := by
            obtain rfl | ⟨rfl, b₀, v, some_, matched, rfl⟩ := turn
            · exact found
            · rw [split_] at matched
              exact spares.before matched some_ (found.ne_nil spares.consumes) found
          have there : q.Matches word b u y := by
            obtain heads | ⟨z, v, w, rfl, rfl, matched⟩ := either
            · exact here.beside rfl (by rw [heads])
            · exact spares.after matched here
          obtain rfl | none_ := apart
          · exact fails u y split_ there
          · exact none_ ⟨[], u, y, split_, there⟩
  | @cut b u rest out some_ found next ih =>
      intro found'
      have later : q = r ∨ ¬ q.Found word (Text.passed b u) rest :=
        apart.imp_right fun none_ found => none_ (found_append.mpr (.inr found))
      exact ih later (.inr ⟨rfl, b, u, some_, found, rfl⟩) (spares.found_new found')

/-- Substitution leaves no match of the pattern, and of no other that the text had none of. -/
theorem sub_clean (consumes : r.consumes = true) (spares : Spares word q r o mid k) (apart : q = r ∨ ¬ q.Found word b t) :
    ¬ q.Found word b (r.sub word (o :: mid ++ [k]) b 0 t) :=
  (scan_sub consumes).clean spares apart (.inl rfl)

/-- Nor do substitutions one after the other, once the pattern itself has been substituted. -/
theorem subs_clean {rs : List (Regex α)} (consumes : ∀ r ∈ rs, r.consumes = true) (spares : ∀ r ∈ rs, Spares word q r o mid k)
    (apart : q ∈ rs ∨ ¬ q.Found word b t) :
    ¬ q.Found word b (rs.foldl (fun t r => r.sub word (o :: mid ++ [k]) b 0 t) t) := by
  induction rs generalizing t with
  | nil => exact apart.resolve_left List.not_mem_nil
  | cons r rs ih =>
      apply ih (fun r inside => consumes r (List.mem_cons_of_mem _ inside)) fun r inside => spares r (List.mem_cons_of_mem _ inside)
      have clean := @sub_clean _ _ r q b t o k mid (consumes r List.mem_cons_self) (spares r List.mem_cons_self)
      cases apart with
      | inl inside =>
          obtain same | inside := List.mem_cons.mp inside
          · exact .inr (clean (.inl same))
          · exact .inl inside
      | inr none_ => exact .inr (clean (.inr none_))

/-- Where nothing is found nothing is replaced. -/
theorem sub_unfound (none_ : ¬ r.Found word b t) : r.sub word new b 0 t = t := by
  induction t generalizing b with
  | nil => rfl
  | cons c t ih =>
      rw [found_cons, not_or] at none_
      have fails : r.ends word b (c :: t) = [] := by
        rw [← List.isEmpty_iff, ends_isEmpty]
        intro u rest same found
        exact none_.1 ⟨u, rest, same, found⟩
      rw [sub, fails]
      exact congrArg (c :: ·) (ih none_.2)

theorem subs_unfound {rs : List (Regex α)} (none_ : ∀ r ∈ rs, ¬ r.Found word b t) :
    rs.foldl (fun t r => r.sub word new b 0 t) t = t := by
  induction rs with
  | nil => rfl
  | cons r rs ih =>
      rw [List.foldl_cons, sub_unfound (none_ r List.mem_cons_self)]
      exact ih fun r inside => none_ r (List.mem_cons_of_mem _ inside)

/-- A pattern without edges is spared by every replacement with brackets that it does not have. -/
theorem Spares.of_plain (free : q.plain = true) (consumes : q.consumes = true) (opens : q.letters o = false)
    (closes : q.letters k = false) (inside : ∀ u b rest, u <:+: mid → ¬ q.Matches word b u rest) : Spares word q r o mid k where
  consumes := consumes
  opens := opens
  closes := closes
  inside := inside
  before := fun _ _ _ found => found.moved free
  after := fun _ found => found.moved free

/-- And one between edges, where what is replaced ends with a part of a word and the brackets are none. -/
theorem Spares.of_bounded {q r : Regex α} (free : q.plain = true) (consumes : q.consumes = true) (ends_ : r.consumes = true)
    (lasts : ∀ c, r.lasts c = true → word c = true) (opens : q.letters o = false) (closes : q.letters k = false)
    (closing : word k = false)
    (inside : ∀ u b rest, u <:+: mid → ¬ q.bounded.Matches word b u rest) : Spares word q.bounded r.bounded o mid k where
  consumes := by simpa [Regex.bounded, Regex.consumes] using consumes
  opens := by simpa [Regex.bounded, Regex.letters] using opens
  closes := by simpa [Regex.bounded, Regex.letters] using closes
  inside := inside
  before := by
    intro b v u rest rest' matched _ some_ found
    exfalso
    obtain ⟨-, core, closed⟩ := matches_bounded.mp matched
    obtain ⟨c, last, holds⟩ := core.passed ends_
    obtain ⟨opened, -, -⟩ := matches_bounded.mp found
    cases u with
    | nil => exact some_ rfl
    | cons d u =>
        simp [isEdge, last, lasts c holds] at closed
        simp [isEdge, closing, closed] at opened
  after := by
    intro b u v rest rest' matched found
    obtain ⟨opened, core, -⟩ := matches_bounded.mp found
    obtain ⟨reopened, -, -⟩ := matches_bounded.mp matched
    refine matches_bounded.mpr ⟨?_, core.moved free, reopened⟩
    cases u with
    | nil => exact absurd rfl (core.ne_nil consumes)
    | cons c u => exact opened

/-! ## Texts side by side -/

/-- Where no match ends within the first part of a label and none passes the element after it, no match runs into the label. -/
theorem Matches.stops {g s y : List α} {c : α} (found : q.Matches word b u rest) (same : g ++ (s ++ c :: y) = u ++ rest)
    (strange : q.letters c = false) (unending : ∀ d ∈ s, q.lasts d = false) :
    ∃ z, g = u ++ z ∧ rest = z ++ (s ++ c :: y) := by
  rw [← List.append_assoc] at same
  obtain ⟨z, parts, rfl⟩ := before_of_fresh same (found.fresh strange)
  obtain ⟨w, rfl, tail⟩ | ⟨w, rfl, rfl⟩ := List.append_eq_append_iff.mp parts
  · cases w using List.reverseRecOn with
    | nil => exact ⟨[], by simp, by simp [tail]⟩
    | append_singleton w d =>
        rw [← List.append_assoc] at found
        have last := found.lasts
        rw [unending d (by simp [tail])] at last
        cases last
  · exact ⟨w, rfl, by simp⟩

end Regex
end Text
end Maof
