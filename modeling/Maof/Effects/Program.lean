import Mathlib.Logic.Function.Basic

/-!
# Programs over awaited calls

A program is a tree of calls into an environment that answers or raises. The
tree says nothing about what a call does; that is the business of the contract
or the machine a program is read against.
-/

namespace Effects

/-- The awaited calls, what each answers with, and the errors any of them may raise. -/
structure Sig where
  Op : Type
  Ans : Op → Type
  Err : Type

/-- What a call hands back to the program that awaited it. -/
abbrev Sig.Reply (S : Sig) (op : S.Op) : Type := Except S.Err (S.Ans op)

inductive Prog (S : Sig) (α : Type) : Type
  | ret (a : α)
  | call (op : S.Op) (k : S.Reply op → Prog S α)

namespace Prog

variable {S : Sig} {α β γ : Type}

def bind : Prog S α → (α → Prog S β) → Prog S β
  | .ret a, f => f a
  | .call op k, f => .call op fun r => (k r).bind f

instance : Monad (Prog S) where
  pure := .ret
  bind := .bind

@[simp] theorem pure_eq (a : α) : (pure a : Prog S α) = .ret a := rfl

@[simp] theorem bind_eq (p : Prog S α) (f : α → Prog S β) : p >>= f = p.bind f := rfl

@[simp] theorem ret_bind (a : α) (f : α → Prog S β) : (Prog.ret a).bind f = f a := rfl

@[simp] theorem call_bind (op : S.Op) (k : S.Reply op → Prog S α) (f : α → Prog S β) :
    (Prog.call op k).bind f = .call op fun r => (k r).bind f := rfl

@[simp] theorem bind_ret (p : Prog S α) : p.bind .ret = p := by
  induction p with
  | ret a => rfl
  | call op k ih => simp only [call_bind, ih]

/-- Every call the program can make is permitted. -/
def Uses (allowed : S.Op → Prop) : Prog S α → Prop
  | .ret _ => True
  | .call op k => allowed op ∧ ∀ r, (k r).Uses allowed

theorem Uses.bind {allowed : S.Op → Prop} {p : Prog S α} {f : α → Prog S β}
    (first : p.Uses allowed) (rest : ∀ a, (f a).Uses allowed) : (p.bind f).Uses allowed := by
  induction p with
  | ret a => exact rest a
  | call op k ih => exact ⟨first.1, fun r => ih r (first.2 r)⟩

theorem Uses.mono {some more : S.Op → Prop} {p : Prog S α} (uses : p.Uses some)
    (implies : ∀ op, some op → more op) : p.Uses more := by
  induction p with
  | ret a => trivial
  | call op k ih => exact ⟨implies op uses.1, fun r => ih r (uses.2 r)⟩

theorem Uses.all {allowed : S.Op → Prop} (every : ∀ op, allowed op) (p : Prog S α) :
    p.Uses allowed := by
  induction p with
  | ret a => trivial
  | call op k ih => exact ⟨every op, ih⟩

/-- Carry a program into a larger signature, call by call. -/
def lift {T : Sig} (op' : S.Op → T.Op) (back : ∀ op, T.Reply (op' op) → S.Reply op) :
    Prog S α → Prog T α
  | .ret a => .ret a
  | .call op k => .call (op' op) fun r => (k (back op r)).lift op' back

theorem Uses.lift {T : Sig} {op' : S.Op → T.Op} {back : ∀ op, T.Reply (op' op) → S.Reply op}
    {allowed : T.Op → Prop} {p : Prog S α} (within : p.Uses fun op => allowed (op' op)) :
    (p.lift op' back).Uses allowed := by
  induction p with
  | ret a => trivial
  | call op k ih => exact ⟨within.1, fun r => ih (back op r) (within.2 (back op r))⟩

/-- Run the program by itself, each call answered by `perform`. -/
def eval {W : Type} (perform : W → (op : S.Op) → W × S.Reply op) : Prog S α → W → α × W
  | .ret a, w => (a, w)
  | .call op k, w => (k (perform w op).2).eval perform (perform w op).1

theorem eval_bind {W : Type} (perform : W → (op : S.Op) → W × S.Reply op) (p : Prog S α)
    (f : α → Prog S β) (w : W) :
    (p.bind f).eval perform w = (f (p.eval perform w).1).eval perform (p.eval perform w).2 := by
  induction p generalizing w with
  | ret a => rfl
  | call op k ih => exact ih _ _

/-- What every call a program makes keeps, the program keeps. -/
theorem Uses.eval {W : Type} {perform : W → (op : S.Op) → W × S.Reply op} {allowed : S.Op → Prop}
    {J : W → Prop} {p : Prog S α} (uses : p.Uses allowed)
    (keeps : ∀ op, allowed op → ∀ w, J w → J (perform w op).1) {w : W} (start : J w) :
    J (p.eval perform w).2 := by
  induction p generalizing w with
  | ret a => exact start
  | call op k ih => exact ih _ (uses.2 _) (keeps op uses.1 w start)

/-- What is so of the world a program leaves, if no call makes it so, was so at the start. -/
theorem eval_back {W : Type} {perform : W → (op : S.Op) → W × S.Reply op} {G : W → Prop} {p : Prog S α}
    (back : ∀ op w, G (perform w op).1 → G w) {w : W} (good : G (p.eval perform w).2) : G w := by
  induction p generalizing w with
  | ret a => exact good
  | call op k ih => exact back op w (ih _ good)

/-- What every call keeps on the way to a world that is `G`, the program keeps. -/
theorem Uses.eval_while {W : Type} {perform : W → (op : S.Op) → W × S.Reply op} {allowed : S.Op → Prop}
    {G J : W → Prop} {p : Prog S α} (uses : p.Uses allowed) (back : ∀ op w, G (perform w op).1 → G w)
    (keeps : ∀ op, allowed op → ∀ w, G (perform w op).1 → J w → J (perform w op).1) {w : W}
    (good : G (p.eval perform w).2) (start : J w) : J (p.eval perform w).2 := by
  induction p generalizing w with
  | ret a => exact start
  | call op k ih => exact ih _ (uses.2 _) good (keeps op uses.1 w (eval_back back good) start)

/-- A program cannot tell apart two worlds that none of its calls tells apart on the way to a
world that is `G`. -/
theorem Uses.eval_alike_while {W : Type} {perform : W → (op : S.Op) → W × S.Reply op} {allowed : S.Op → Prop}
    {G : W → Prop} {R : W → W → Prop} {p : Prog S α} (uses : p.Uses allowed)
    (back : ∀ op w, G (perform w op).1 → G w)
    (alike : ∀ op, allowed op → ∀ w w', G (perform w op).1 → R w w' →
      (perform w op).2 = (perform w' op).2 ∧ R (perform w op).1 (perform w' op).1)
    {w w' : W} (good : G (p.eval perform w).2) (start : R w w') :
    (p.eval perform w).1 = (p.eval perform w').1 ∧ R (p.eval perform w).2 (p.eval perform w').2 := by
  induction p generalizing w w' with
  | ret a => exact ⟨rfl, start⟩
  | call op k ih =>
      obtain ⟨reply, related⟩ := alike op uses.1 w w' (eval_back back good) start
      simp only [Prog.eval, ← reply]
      exact ih _ (uses.2 _) good related

/-- A program cannot tell apart two worlds that none of its calls tells apart. -/
theorem Uses.eval_alike {W : Type} {perform : W → (op : S.Op) → W × S.Reply op} {allowed : S.Op → Prop}
    {R : W → W → Prop} {p : Prog S α} (uses : p.Uses allowed)
    (alike : ∀ op, allowed op → ∀ w w', R w w' →
      (perform w op).2 = (perform w' op).2 ∧ R (perform w op).1 (perform w' op).1)
    {w w' : W} (start : R w w') :
    (p.eval perform w).1 = (p.eval perform w').1 ∧ R (p.eval perform w).2 (p.eval perform w').2 :=
  uses.eval_alike_while (G := fun _ => True) (fun _ _ _ => trivial)
    (fun op permitted w w' _ => alike op permitted w w') trivial start

end Prog

/-- Programs with exceptions over a mutable record: what was written before an
exception is still there when the exception is caught. -/
def Act (S : Sig) (σ α : Type) : Type := σ → Prog S (Except S.Err α × σ)

namespace Act

variable {S : Sig} {σ α β : Type}

def bind (m : Act S σ α) (f : α → Act S σ β) : Act S σ β := fun s =>
  (m s).bind fun
    | (.ok a, s') => f a s'
    | (.error e, s') => .ret (.error e, s')

instance : Monad (Act S σ) where
  pure a := fun s => .ret (.ok a, s)
  bind := .bind

def throw (e : S.Err) : Act S σ α := fun s => .ret (.error e, s)

/-- Run `m`; hand any exception to `handler`, which may raise it again. -/
def tryCatch (m : Act S σ α) (handler : S.Err → Act S σ α) : Act S σ α := fun s =>
  (m s).bind fun
    | (.ok a, s') => .ret (.ok a, s')
    | (.error e, s') => handler e s'

def get : Act S σ σ := fun s => .ret (.ok s, s)

def modify (f : σ → σ) : Act S σ Unit := fun s => .ret (.ok (), f s)

/-- Await one call; an error it raises is raised here. -/
def await (op : S.Op) : Act S σ (S.Ans op) := fun s => .call op fun r => .ret (r, s)

def ofExcept : Except S.Err α → Act S σ α
  | .ok a => pure a
  | .error e => throw e

theorem pure_run (a : α) (s : σ) : (pure a : Act S σ α) s = .ret (.ok a, s) := rfl

theorem bind_run (m : Act S σ α) (f : α → Act S σ β) (s : σ) :
    (m >>= f) s = (m s).bind fun
      | (.ok a, s') => f a s'
      | (.error e, s') => .ret (.error e, s') := rfl

section eval

variable {W : Type} {perform : W → (op : S.Op) → W × S.Reply op} {s : σ} {w : W}

theorem eval_bind (m : Act S σ α) (f : α → Act S σ β) :
    ((m >>= f) s).eval perform w = match (m s).eval perform w with
      | ((.ok a, s'), w') => (f a s').eval perform w'
      | ((.error e, s'), w') => ((.error e, s'), w') := by
  rw [bind_run, Prog.eval_bind]
  rcases (m s).eval perform w with ⟨⟨_ | a, s'⟩, w'⟩
  · rfl
  · rfl

theorem eval_await_ok {op : S.Op} {k : S.Ans op → Act S σ β} {a : S.Ans op}
    (reply : (perform w op).2 = .ok a) :
    ((await op >>= k : Act S σ β) s).eval perform w = (k a s).eval perform (perform w op).1 := by
  rw [eval_bind]
  simp only [await, Prog.eval, reply]

theorem eval_await_error {op : S.Op} {k : S.Ans op → Act S σ β} {e : S.Err}
    (reply : (perform w op).2 = .error e) :
    ((await op >>= k : Act S σ β) s).eval perform w = ((.error e, s), (perform w op).1) := by
  rw [eval_bind]
  simp only [await, Prog.eval, reply]

theorem eval_tryCatch (m : Act S σ α) (handler : S.Err → Act S σ α) :
    (m.tryCatch handler s).eval perform w = match (m s).eval perform w with
      | ((.ok a, s'), w') => ((.ok a, s'), w')
      | ((.error e, s'), w') => (handler e s').eval perform w' := by
  rw [tryCatch, Prog.eval_bind]
  rcases (m s).eval perform w with ⟨⟨_ | a, s'⟩, w'⟩
  · rfl
  · rfl

theorem eval_ofExcept_bind (r : Except S.Err α) (k : α → Act S σ β) :
    ((ofExcept r >>= k : Act S σ β) s).eval perform w = match r with
      | .ok a => (k a s).eval perform w
      | .error e => ((.error e, s), w) := by
  rw [eval_bind]
  cases r with
  | ok a => rfl
  | error e => rfl

end eval

/-- Every call the program can make, from any record, is permitted. -/
def Uses (allowed : S.Op → Prop) (m : Act S σ α) : Prop := ∀ s, (m s).Uses allowed

section uses

variable {A : S.Op → Prop}

theorem uses_pure (a : α) : (pure a : Act S σ α).Uses A := fun _ => trivial

theorem uses_throw (e : S.Err) : (throw e : Act S σ α).Uses A := fun _ => trivial

theorem uses_ofExcept (r : Except S.Err α) : (ofExcept r : Act S σ α).Uses A := by
  cases r with
  | ok a => exact uses_pure a
  | error e => exact uses_throw e

theorem uses_ofExcept_bind {r : Except S.Err α} {f : α → Act S σ β} (rest : ∀ a, r = .ok a → (f a).Uses A) :
    (ofExcept r >>= f : Act S σ β).Uses A := by
  cases r with
  | ok a => exact rest a rfl
  | error e => exact uses_throw e

theorem uses_bind {m : Act S σ α} {f : α → Act S σ β} (first : m.Uses A)
    (rest : ∀ a, (f a).Uses A) : (m >>= f).Uses A := by
  refine fun s => Prog.Uses.bind (first s) ?_
  rintro ⟨_ | a, s'⟩
  · exact trivial
  · exact rest a s'

theorem uses_tryCatch {m : Act S σ α} {handler : S.Err → Act S σ α} (body : m.Uses A)
    (handled : ∀ e, (handler e).Uses A) : (m.tryCatch handler).Uses A := by
  refine fun s => Prog.Uses.bind (body s) ?_
  rintro ⟨e | _, s'⟩
  · exact handled e s'
  · exact trivial

theorem uses_get_bind {f : σ → Act S σ β} (rest : ∀ s, (f s).Uses A) :
    (get >>= f : Act S σ β).Uses A :=
  fun s => rest s s

theorem uses_modify (f : σ → σ) : (modify f : Act S σ Unit).Uses A := fun _ => trivial

theorem uses_await {op : S.Op} (allowed : A op) : (await op : Act S σ (S.Ans op)).Uses A :=
  fun _ => ⟨allowed, fun _ => trivial⟩

end uses

end Act
end Effects
