import Mathlib.Data.List.Nodup
import Mathlib.Logic.Function.Basic

/-!
# Reading, changing and writing back

Calls over a repository of keyed entries: one writes an entry, the other reads one,
changes it and writes it back, each access a step of its own. What the change makes
depends on the core of the entry alone, so a call that finds the core it read
may as well have run at its write.
-/

namespace Effects

variable {R K E C Q ε : Type}

structure Cells (R K E C ε : Type) where
  get : R → K → Except ε (Option E)
  put : R → E → Except ε R
  core : E → C
  /-- Equal but for what is not compared. -/
  Alike : E → E → Prop

/-- A call: what is checked before any work, what is written, what follows the write. -/
inductive Update (K E ε : Type) where
  | write (allowed : Except ε Unit) (entry : E) (report : E → Except ε Unit)
  | rewrite (allowed : Except ε Unit) (key : K) (missing : ε) (change : E → Except ε E) (report : E → Except ε Unit)

/-- Where a call stands at its next access. -/
inductive Phase (E : Type) where
  | begun
  | read (found : E)
  | ready (found next : E)
  | written (next : E)
  | returned
  | raised

namespace Update

def report : Update K E ε → E → Except ε Unit
  | .write _ _ report => report
  | .rewrite _ _ _ _ report => report

/-- What a change makes, and whether its report fails, is decided by the core. -/
def Uniform (S : Cells R K E C ε) : Update K E ε → Prop
  | .write _ _ _ => True
  | .rewrite _ _ _ change report =>
      (∀ e e' x, S.core e = S.core e' → change e = .ok x → ∃ x', change e' = .ok x' ∧ S.Alike x x') ∧
        ∀ x x', S.Alike x x' → report x = .ok () → report x' = .ok ()

end Update

namespace Phase

/-- The call has written. -/
def put : Phase E → Bool
  | .written _ | .returned => true
  | .begun | .read _ | .ready _ _ | .raised => false

/-- The call has come to its end. -/
def ended : Phase E → Bool
  | .returned | .raised => true
  | .begun | .read _ | .ready _ _ | .written _ => false

/-- What a phase says of the call that is in it. -/
def Honest (u : Update K E ε) : Phase E → Prop
  | .begun | .returned | .raised => True
  | .read _ => ∃ key missing change report, u = .rewrite (.ok ()) key missing change report
  | .ready found next => ∃ key missing change report, u = .rewrite (.ok ()) key missing change report ∧
      change found = .ok next
  | .written next => u.report next = .ok ()

end Phase

namespace Cells

variable (S : Cells R K E C ε)

/-- Write the entry, then report it. -/
def keep (report : E → Except ε Unit) (entry : E) (r : R) : R × Except ε E :=
  match S.put r entry with
  | .error x => (r, .error x)
  | .ok r' => (r', (report entry).map fun _ => entry)

def fetch (key : K) (missing : ε) (r : R) : Except ε E := do
  match ← S.get r key with
  | some entry => return entry
  | none => throw missing

/-- A call that runs alone. -/
def apply : Update K E ε → R → R × Except ε E
  | .write allowed entry report, r =>
      match allowed with
      | .error x => (r, .error x)
      | .ok () => S.keep report entry r
  | .rewrite allowed key missing change report, r =>
      match (do allowed
                let entry ← S.fetch key missing r
                change entry) with
      | .error x => (r, .error x)
      | .ok next => S.keep report next r

/-- The write of a call among others. -/
def write (r : R) (entry : E) : R × Phase E :=
  match S.put r entry with
  | .error _ => (r, .raised)
  | .ok r' => (r', .written entry)

/-- The next access of a call, and what it computes up to the one after. -/
def advance (u : Update K E ε) (r : R) : Phase E → Option (R × Phase E)
  | .begun =>
      match u with
      | .write allowed entry _ =>
          match allowed with
          | .error _ => some (r, .raised)
          | .ok () => some (S.write r entry)
      | .rewrite allowed key missing _ _ =>
          match (do allowed
                    S.fetch key missing r) with
          | .error _ => some (r, .raised)
          | .ok entry => some (r, .read entry)
  | .read found =>
      match u with
      | .write _ _ _ => none
      | .rewrite _ _ _ change _ =>
          match change found with
          | .error _ => some (r, .raised)
          | .ok next => some (r, .ready found next)
  | .ready _ next => some (S.write r next)
  | .written next =>
      match u.report next with
      | .error _ => some (r, .raised)
      | .ok () => some (r, .returned)
  | .returned | .raised => none

/-- Two answers of a read agree. -/
def SameAnswer : Except ε (Option E) → Except ε (Option E) → Prop
  | .ok none, .ok none => True
  | .ok (some e), .ok (some e') => S.Alike e e'
  | .error x, .error x' => x = x'
  | _, _ => False

/-- Two repositories answer alike under every key. -/
def Same (r r' : R) : Prop := ∀ k, S.SameAnswer (S.get r k) (S.get r' k)

structure Lawful : Prop where
  refl : ∀ e, S.Alike e e
  core : ∀ e e', S.Alike e e' → S.core e = S.core e'
  put : ∀ r r' e e' r₁, S.Same r r' → S.Alike e e' → S.put r e = .ok r₁ → ∃ r₁', S.put r' e' = .ok r₁' ∧ S.Same r₁ r₁'

end Cells

/-- A repository and the calls that have begun on it. -/
structure Calls (R Q E : Type) where
  repo : R
  calls : Nat → Option (Q × Phase E) := fun _ => none

namespace Calls

def step (S : Cells R K E C ε) (upd : Q → Update K E ε) (c : Calls R Q E) (i : Nat) : Option (Calls R Q E) :=
  (c.calls i).bind fun call => (S.advance (upd call.1) c.repo call.2).map fun next =>
    { repo := next.1, calls := Function.update c.calls i (some (call.1, next.2)) }

/-- Every call has come to its end. -/
def Over (c : Calls R Q E) : Prop := ∀ i q phase, c.calls i = some (q, phase) → phase.ended = true

/-- The call that writes back finds the core it read, and no call fails after its write. -/
def Timely (S : Cells R K E C ε) (upd : Q → Update K E ε) (c : Calls R Q E) (i : Nat) : Prop :=
  ∀ q phase, c.calls i = some (q, phase) →
    match upd q, phase with
    | .write _ entry report, .begun => report entry = .ok ()
    | .rewrite _ key _ _ report, .ready found next =>
        report next = .ok () ∧ ∃ now, S.get c.repo key = .ok (some now) ∧ S.core now = S.core found
    | _, _ => True

end Calls

/-- Calls begin at any time, and one of them takes its next step where `cond` holds of it. -/
inductive Interleaving (S : Cells R K E C ε) (upd : Q → Update K E ε) (cond : Calls R Q E → Nat → Prop) (start : R) :
    Calls R Q E → Prop
  | start : Interleaving S upd cond start { repo := start }
  | begin {c : Calls R Q E} (i : Nat) (q : Q) : Interleaving S upd cond start c → c.calls i = none →
      Interleaving S upd cond start { c with calls := Function.update c.calls i (some (q, .begun)) }
  | step {c c' : Calls R Q E} (i : Nat) : Interleaving S upd cond start c → cond c i → c.step S upd i = some c' →
      Interleaving S upd cond start c'

/-- Calls one after the other, all of which return. -/
inductive Succeeds (run : Q → R → R × Except ε E) : R → List Q → R → Prop
  | nil (r : R) : Succeeds run r [] r
  | snoc {r r' r'' : R} {qs : List Q} {q : Q} {e : E} : Succeeds run r qs r' → run q r' = (r'', .ok e) →
      Succeeds run r (qs ++ [q]) r''

theorem Succeeds.left {run : Q → R → R × Except ε E} {r r' : R} {qs : List Q} (h : Succeeds run r qs r') :
    r' = qs.foldl (fun r q => (run q r).1) r := by
  induction h with
  | nil => rfl
  | snoc _ ran ih =>
      rw [List.foldl_append, ← ih, List.foldl_cons, ran]
      rfl

/-- What calls leave when all have ended is what those that returned leave, run one after the
other in some order. -/
def Linearizable (S : Cells R K E C ε) (upd : Q → Update K E ε) (run : Q → R → R × Except ε E)
    (cond : Calls R Q E → Nat → Prop) : Prop :=
  ∀ start c, Interleaving S upd cond start c → c.Over → ∃ (order : List (Nat × Q)) (r : R),
    (order.map Prod.fst).Nodup ∧ (∀ i q, (i, q) ∈ order ↔ c.calls i = some (q, .returned)) ∧
      Succeeds run start (order.map Prod.snd) r ∧ S.Same c.repo r

/-! ## The order of the writes -/

/-- The calls in the order of their writes, and what they leave one after the other. -/
structure Ordered (S : Cells R K E C ε) (upd : Q → Update K E ε) (start : R) (c : Calls R Q E)
    (order : List (Nat × Q)) (r : R) : Prop where
  runs : Succeeds (fun q => S.apply (upd q)) start (order.map Prod.snd) r
  same : S.Same c.repo r
  nodup : (order.map Prod.fst).Nodup
  logged : ∀ i q, (i, q) ∈ order ↔ ∃ phase, c.calls i = some (q, phase) ∧ phase.put = true
  honest : ∀ i q phase, c.calls i = some (q, phase) → phase.Honest (upd q)

namespace Ordered

variable {S : Cells R K E C ε} {upd : Q → Update K E ε} {start r : R} {c : Calls R Q E} {order : List (Nat × Q)}
  {i : Nat} {q : Q} {phase next : Phase E}

theorem initial (lawful : S.Lawful) : Ordered S upd start { repo := start } [] start where
  runs := .nil start
  same k := by
    unfold Cells.SameAnswer
    split
    · trivial
    · next found found' => cases found.symm.trans found'; exact lawful.refl _
    · next found found' => cases found.symm.trans found'; rfl
    · next one two three =>
        cases found : S.get start k with
        | error x => exact three x x found found
        | ok answer =>
            cases answer with
            | none => exact one found found
            | some e => exact two e e found found
  nodup := List.nodup_nil
  logged i q := by simp
  honest i q phase found := by cases found

/-- A call comes to a phase on the same side of its write. -/
theorem move (h : Ordered S upd start c order r) (before : ∀ q' phase', c.calls i = some (q', phase') →
      q' = q ∧ phase'.put = next.put) (absent : c.calls i = none → next.put = false) (honest : next.Honest (upd q)) :
    Ordered S upd start { c with calls := Function.update c.calls i (some (q, next)) } order r where
  runs := h.runs
  same := h.same
  nodup := h.nodup
  logged j q' := by
    rw [h.logged]
    by_cases other : j = i
    · subst other
      simp only [Function.update_self, Option.some.injEq, Prod.mk.injEq]
      constructor
      · rintro ⟨phase', found, put⟩
        obtain ⟨rfl, same⟩ := before q' phase' found
        exact ⟨next, ⟨rfl, rfl⟩, same ▸ put⟩
      · rintro ⟨_, ⟨rfl, rfl⟩, put⟩
        cases found : c.calls j with
        | none => rw [absent found] at put; cases put
        | some call =>
            obtain ⟨rfl, same⟩ := before call.1 call.2 found
            exact ⟨call.2, rfl, same.trans put⟩
    · simp only [Function.update_of_ne other]
  honest j q' phase' found := by
    by_cases other : j = i
    · subst other
      simp only [Function.update_self, Option.some.injEq, Prod.mk.injEq] at found
      obtain ⟨rfl, rfl⟩ := found
      exact honest
    · exact h.honest j q' phase' ((Function.update_of_ne other _ _).symm.trans found)

/-- A call that has begun comes to its next phase, on the same side of its write. -/
theorem go (h : Ordered S upd start c order r) (found : c.calls i = some (q, phase)) (side : phase.put = next.put)
    (honest : next.Honest (upd q)) :
    Ordered S upd start { c with calls := Function.update c.calls i (some (q, next)) } order r := by
  refine h.move (fun q' phase' found' => ?_) (fun absent => ?_) honest
  · cases found.symm.trans found'
    exact ⟨rfl, side⟩
  · cases found.symm.trans absent

/-- A call writes: it comes last in the order, where it has the same effect. -/
theorem wrote (h : Ordered S upd start c order r) (found : c.calls i = some (q, phase)) (before : phase.put = false)
    {repo r' : R} {e : E} (runs : S.apply (upd q) r = (r', .ok e)) (same : S.Same repo r') (put : next.put = true)
    (honest : next.Honest (upd q)) :
    Ordered S upd start { repo := repo, calls := Function.update c.calls i (some (q, next)) } (order ++ [(i, q)]) r' where
  runs := by
    rw [List.map_append]
    exact .snoc h.runs runs
  same := same
  nodup := by
    have new : i ∉ order.map Prod.fst := by
      intro inside
      obtain ⟨⟨j, q'⟩, member, rfl⟩ := List.mem_map.mp inside
      obtain ⟨phase', found', put'⟩ := (h.logged j q').mp member
      cases found.symm.trans found'
      rw [before] at put'
      cases put'
    rw [List.map_append]
    refine List.nodup_append.mpr ⟨h.nodup, List.nodup_singleton i, fun j inside j' last same => ?_⟩
    have mine : j' = i := List.mem_singleton.mp last
    exact new (mine ▸ same ▸ inside)
  logged j q' := by
    rw [List.mem_append, h.logged, List.mem_singleton, Prod.mk.injEq]
    by_cases other : j = i
    · subst other
      simp only [Function.update_self, Option.some.injEq, Prod.mk.injEq, true_and]
      constructor
      · rintro (⟨phase', found', put'⟩ | rfl)
        · cases found.symm.trans found'
          rw [before] at put'
          cases put'
        · exact ⟨next, ⟨rfl, rfl⟩, put⟩
      · rintro ⟨_, ⟨rfl, rfl⟩, _⟩
        exact .inr rfl
    · simp only [Function.update_of_ne other, other, false_and, or_false]
  honest j q' phase' found' := by
    by_cases other : j = i
    · subst other
      simp only [Function.update_self, Option.some.injEq, Prod.mk.injEq] at found'
      obtain ⟨rfl, rfl⟩ := found'
      exact honest
    · exact h.honest j q' phase' ((Function.update_of_ne other _ _).symm.trans found')

/-- The repository of the order answers a read alike. -/
theorem answers (h : Ordered S upd start c order r) {key : K} {now : E} (found : S.get c.repo key = .ok (some now)) :
    ∃ e, S.get r key = .ok (some e) ∧ S.Alike now e := by
  have same := h.same key
  rw [found] at same
  cases there : S.get r key with
  | error x => rw [there] at same; exact same.elim
  | ok answer =>
      rw [there] at same
      cases answer with
      | none => exact same.elim
      | some e => exact ⟨e, rfl, same⟩

/-- What a write does where it is not refused. -/
theorem keep_ok (lawful : S.Lawful) (h : Ordered S upd start c order r) {report : E → Except ε Unit} {e e' : E} {repo : R}
    (alike : S.Alike e e') (put : S.put c.repo e = .ok repo) (reported : report e' = .ok ()) :
    ∃ r', S.keep report e' r = (r', .ok e') ∧ S.Same repo r' := by
  obtain ⟨r', put', same⟩ := lawful.put c.repo r e e' repo h.same alike put
  refine ⟨r', ?_, same⟩
  simp [Cells.keep, put', reported, Except.map]

theorem write_begun (lawful : S.Lawful) (h : Ordered S upd start c order r) {allowed : Except ε Unit} {entry : E}
    {report : E → Except ε Unit} (found : c.calls i = some (q, .begun)) (writes : upd q = .write allowed entry report)
    (reports : report entry = .ok ()) (allows : allowed = .ok ()) : ∃ order' r', Ordered S upd start
      { repo := (S.write c.repo entry).1, calls := Function.update c.calls i (some (q, (S.write c.repo entry).2)) }
      order' r' := by
  subst allows
  unfold Cells.write
  split
  · exact ⟨order, r, h.go found rfl trivial⟩
  · next repo put =>
      obtain ⟨r', kept, same⟩ := h.keep_ok lawful (lawful.refl entry) put reports
      have runs : S.apply (upd q) r = (r', .ok entry) := by rw [writes]; exact kept
      refine ⟨_, r', h.wrote found rfl runs same rfl ?_⟩
      rw [writes]
      exact reports

theorem write_ready (lawful : S.Lawful) (uniform : (upd q).Uniform S) (h : Ordered S upd start c order r)
    {key : K} {missing : ε} {change : E → Except ε E} {report : E → Except ε Unit} {old new now : E}
    (found : c.calls i = some (q, .ready old new)) (rewrites : upd q = .rewrite (.ok ()) key missing change report)
    (changed : change old = .ok new) (reports : report new = .ok ()) (current : S.get c.repo key = .ok (some now))
    (core : S.core now = S.core old) : ∃ order' r', Ordered S upd start
      { repo := (S.write c.repo new).1, calls := Function.update c.calls i (some (q, (S.write c.repo new).2)) }
      order' r' := by
  unfold Cells.write
  split
  · exact ⟨order, r, h.go found rfl trivial⟩
  · next repo put =>
      rw [rewrites] at uniform
      obtain ⟨e, there, alike⟩ := h.answers current
      obtain ⟨new', changed', alike'⟩ := uniform.1 old e new (core.symm.trans (lawful.core now e alike)) changed
      obtain ⟨r', kept, same⟩ := h.keep_ok lawful alike' put (uniform.2 new new' alike' reports)
      have runs : S.apply (upd q) r = (r', .ok new') := by
        rw [rewrites, ← kept]
        simp [Cells.apply, Cells.fetch, there, changed', bind, Except.bind, pure, Except.pure]
      refine ⟨_, r', h.wrote found rfl runs same rfl ?_⟩
      rw [rewrites]
      exact reports

theorem step (lawful : S.Lawful) (uniform : ∀ q, (upd q).Uniform S) {c' : Calls R Q E}
    (h : Ordered S upd start c order r) (timely : c.Timely S upd i) (stepped : c.step S upd i = some c') :
    ∃ order' r', Ordered S upd start c' order' r' := by
  obtain ⟨⟨q, phase⟩, found, moved⟩ := Option.bind_eq_some_iff.mp stepped
  obtain ⟨next, advanced, rfl⟩ := Option.map_eq_some_iff.mp moved
  have met := timely q phase found
  have honest := h.honest i q phase found
  cases phase with
  | begun =>
      cases update : upd q with
      | write allowed entry report =>
          rw [update] at advanced met
          cases allows : allowed with
          | error x =>
              simp only [Cells.advance, allows] at advanced
              cases advanced
              exact ⟨order, r, h.go found rfl trivial⟩
          | ok _ =>
              simp only [Cells.advance, allows] at advanced
              cases advanced
              exact h.write_begun lawful found update met allows
      | rewrite allowed key missing change report =>
          rw [update] at advanced
          simp only [Cells.advance] at advanced
          split at advanced
          · cases advanced
            exact ⟨order, r, h.go found rfl trivial⟩
          · next entry fetched =>
              cases advanced
              cases allowed with
              | error x => cases fetched
              | ok _ => exact ⟨order, r, h.go found rfl ⟨key, missing, change, report, update⟩⟩
  | read old =>
      obtain ⟨key, missing, change, report, rewrites⟩ := honest
      rw [rewrites] at advanced
      simp only [Cells.advance] at advanced
      split at advanced
      · cases advanced
        exact ⟨order, r, h.go found rfl trivial⟩
      · next new changed =>
          cases advanced
          exact ⟨order, r, h.go found rfl ⟨key, missing, change, report, rewrites, changed⟩⟩
  | ready old new =>
      obtain ⟨key, missing, change, report, rewrites, changed⟩ := honest
      rw [rewrites] at met
      obtain ⟨reports, now, current, core⟩ := met
      cases advanced
      exact h.write_ready lawful (uniform q) found rewrites changed reports current core
  | written new =>
      have reported : (upd q).report new = .ok () := honest
      simp only [Cells.advance, reported] at advanced
      cases advanced
      exact ⟨order, r, h.go found rfl trivial⟩
  | returned => cases advanced
  | raised => cases advanced

end Ordered

variable {S : Cells R K E C ε} {upd : Q → Update K E ε}

theorem Interleaving.ordered (lawful : S.Lawful) (uniform : ∀ q, (upd q).Uniform S) {start : R} {c : Calls R Q E}
    (h : Interleaving S upd (Calls.Timely S upd) start c) : ∃ order r, Ordered S upd start c order r := by
  induction h with
  | start => exact ⟨[], start, .initial lawful⟩
  | begin i q _ free ih =>
      obtain ⟨order, r, ordered⟩ := ih
      refine ⟨order, r, ordered.move (fun q' phase' found => ?_) (fun _ => rfl) trivial⟩
      cases free.symm.trans found
  | step i _ timely stepped ih =>
      obtain ⟨order, r, ordered⟩ := ih
      exact ordered.step lawful uniform timely stepped

/-- Where every call that writes back finds the core it read, the order of the writes explains
what is left. -/
theorem linearizable (lawful : S.Lawful) (uniform : ∀ q, (upd q).Uniform S) :
    Linearizable S upd (fun q => S.apply (upd q)) (Calls.Timely S upd) := by
  intro start c ran ended
  obtain ⟨order, r, ordered⟩ := ran.ordered lawful uniform
  refine ⟨order, r, ordered.nodup, fun i q => ?_, ordered.runs, ordered.same⟩
  rw [ordered.logged]
  constructor
  · rintro ⟨phase, found, put⟩
    have closed := ended i q phase found
    cases phase with
    | returned => exact found
    | raised => cases put
    | begun => cases put
    | read _ => cases put
    | ready _ _ => cases put
    | written _ => cases closed
  · intro found
    exact ⟨.returned, found, rfl⟩

end Effects
