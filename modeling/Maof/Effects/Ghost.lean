import Maof.Effects.Mortal

/-!
# Programs that take notes

A note says where in a program something happens, and is no call: forgetting
the notes gives the program back.
-/

namespace Effects

/-- The calls of `S`, and notes. -/
abbrev Sig.noted (S : Sig) (N : Type) : Sig := ⟨S.Op ⊕ N, Sum.elim S.Ans fun _ => Unit, S.Err⟩

variable {S : Sig} {N W σ α β : Type}

namespace Prog

/-- The program without its notes. -/
def forget : Prog (S.noted N) α → Prog S α
  | .ret a => .ret a
  | .call (.inl op) k => .call op fun r => (k r).forget
  | .call (.inr _) k => (k (.ok ())).forget

/-- A program that takes no notes. -/
def silent (N : Type) (p : Prog S α) : Prog (S.noted N) α := p.lift (T := S.noted N) Sum.inl fun _ r => r

theorem lift_bind {T : Sig} {op' : S.Op → T.Op} {back : ∀ op, T.Reply (op' op) → S.Reply op} (p : Prog S α)
    (f : α → Prog S β) : (p.bind f).lift op' back = (p.lift op' back).bind fun a => (f a).lift op' back := by
  induction p with
  | ret a => rfl
  | call op k ih =>
      apply congrArg (Prog.call (op' op))
      funext r
      exact ih (back op r)

theorem forget_bind (p : Prog (S.noted N) α) (f : α → Prog (S.noted N) β) :
    (p.bind f).forget = p.forget.bind fun a => (f a).forget := by
  induction p with
  | ret a => rfl
  | call op k ih =>
      cases op with
      | inl op =>
          apply congrArg (Prog.call op)
          funext r
          exact ih r
      | inr n => exact ih _

theorem forget_silent (p : Prog S α) : (p.silent N).forget = p := by
  induction p with
  | ret a => rfl
  | call op k ih =>
      apply congrArg (Prog.call op)
      funext r
      exact ih r

end Prog

namespace Act

def forget (m : Act (S.noted N) σ α) : Act S σ α := fun s => (m s).forget

def silent (N : Type) (m : Act S σ α) : Act (S.noted N) σ α := fun s => (m s).silent N

/-- Write a note down. -/
def note (n : N) : Act (S.noted N) σ Unit := await (S := S.noted N) (.inr n)

theorem forget_silent (m : Act S σ α) : (m.silent N).forget = m := by
  funext s
  exact Prog.forget_silent (m s)

theorem silent_bind (m : Act S σ α) (f : α → Act S σ β) :
    (m >>= f).silent N = (m.silent N >>= fun a => (f a).silent N) := by
  funext s
  refine (Prog.lift_bind (m s) _).trans (congrArg _ ?_)
  funext out
  obtain ⟨r, s'⟩ := out
  cases r with
  | ok a => rfl
  | error e => rfl

theorem forget_pure (a : α) : (pure a : Act (S.noted N) σ α).forget = pure a := rfl

theorem forget_bind (m : Act (S.noted N) σ α) (f : α → Act (S.noted N) σ β) :
    (m >>= f).forget = (m.forget >>= fun a => (f a).forget) := by
  funext s
  refine (Prog.forget_bind (m s) _).trans (congrArg _ ?_)
  funext out
  obtain ⟨r, s'⟩ := out
  cases r with
  | ok a => rfl
  | error e => rfl

theorem forget_note (n : N) : (note n : Act (S.noted N) σ Unit).forget = pure () := rfl

theorem forget_get : (get : Act (S.noted N) σ σ).forget = get := rfl

theorem forget_modify (f : σ → σ) : (modify f : Act (S.noted N) σ Unit).forget = modify f := rfl

theorem pure_bind (a : α) (f : α → Act S σ β) : (pure a >>= f) = f a := rfl

theorem forget_tryCatch (m : Act (S.noted N) σ α) (handler : S.Err → Act (S.noted N) σ α) :
    (m.tryCatch handler).forget = m.forget.tryCatch fun e => (handler e).forget := by
  funext s
  refine (Prog.forget_bind (m s) _).trans (congrArg _ ?_)
  funext out
  obtain ⟨r, s'⟩ := out
  cases r with
  | ok a => rfl
  | error e => rfl

end Act

/-- A world, and what was noted of it. -/
structure Noted (N W : Type) where
  world : W
  notes : List N := []

/-- Calls act on the world, and leave notes of their own; a note is only written down. -/
def Noted.perform (perform : W → (op : S.Op) → W × Option (S.Reply op)) (marks : W → S.Op → List N)
    (w : Noted N W) : (op : (S.noted N).Op) → Noted N W × Option ((S.noted N).Reply op)
  | .inl op => ({ world := (perform w.world op).1, notes := w.notes ++ marks w.world op }, (perform w.world op).2)
  | .inr n => ({ w with notes := w.notes ++ [n] }, some (.ok ()))

/-- Taking notes changes neither what a program answers nor the world. -/
theorem evalTill_forget {perform : W → (op : S.Op) → W × Option (S.Reply op)} {marks : W → S.Op → List N}
    (p : Prog (S.noted N) α) (w : Noted N W) :
    p.forget.evalTill perform w.world =
      ((p.evalTill (Noted.perform perform marks) w).1, (p.evalTill (Noted.perform perform marks) w).2.world) := by
  induction p generalizing w with
  | ret a => rfl
  | call op k ih =>
      cases op with
      | inl op =>
          simp only [Prog.forget, Prog.evalTill, Noted.perform]
          cases (perform w.world op).2 with
          | none => rfl
          | some r => exact ih r { world := (perform w.world op).1, notes := w.notes ++ marks w.world op }
      | inr n => exact ih _ { w with notes := w.notes ++ [n] }

theorem Act.leads_note {perform : W → (op : S.Op) → W × Option (S.Reply op)} {marks : W → S.Op → List N}
    {dead : Noted N W → Prop} {n : N} {s : σ} {w : Noted N W} {post : Except S.Err Unit → σ → Noted N W → Prop}
    (written : post (.ok ()) s { w with notes := w.notes ++ [n] }) :
    (Act.note n : Act (S.noted N) σ Unit).Leads (Noted.perform perform marks) dead post s w := written

theorem Act.leads_silent_bind {perform : Noted N W → (op : (S.noted N).Op) → Noted N W × Option ((S.noted N).Reply op)}
    {dead : Noted N W → Prop} {Q : Except S.Err α → σ → Noted N W → Prop} {post : Except S.Err β → σ → Noted N W → Prop}
    {m : Act S σ α} {f : α → Act S σ β} {s : σ} {w : Noted N W} (first : (m.silent N).Leads perform dead Q s w)
    (rest : ∀ a s w, Q (.ok a) s w → ((f a).silent N).Leads perform dead post s w)
    (raised : ∀ e s w, Q (.error e) s w → post (.error e) s w) : ((m >>= f).silent N).Leads perform dead post s w := by
  rw [Act.silent_bind]
  exact Act.leads_bind first rest raised

section silent

variable {A : S.Op → Prop}

/-- A program that takes no notes makes its own calls only. -/
theorem Prog.Uses.silent {p : Prog S α} (uses : p.Uses A) :
    (p.silent N).Uses (Sum.elim A fun _ => False) :=
  @Prog.Uses.lift _ _ (S.noted N) _ _ (Sum.elim A fun _ => False) _ uses

theorem Prog.Yields.lift {T : Sig} {op' : S.Op → T.Op} {back : ∀ op, T.Reply (op' op) → S.Reply op} {post : α → Prop}
    {p : Prog S α} (yields : p.Yields post) : (p.lift op' back).Yields post := by
  induction p with
  | ret a => exact yields
  | call op k ih => exact fun r => ih (back op r) (yields (back op r))

theorem Prog.Yields.silent {post : α → Prop} {p : Prog S α} (yields : p.Yields post) : (p.silent N).Yields post :=
  Prog.Yields.lift yields

theorem Act.Uses.silent {m : Act S σ α} (uses : m.Uses A) : (m.silent N).Uses (Sum.elim A fun _ => False) :=
  fun s => Prog.Uses.silent (uses s)

theorem Act.Reads.silent {m : Act S σ α} (reads : m.Reads) : (m.silent N).Reads :=
  fun s => Prog.Yields.silent (reads s)

end silent

end Effects
