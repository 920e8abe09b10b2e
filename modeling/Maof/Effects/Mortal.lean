import Maof.Effects.Logic

/-!
# Programs whose process may die

A program run by itself: each call acts on the world, and is answered or is the
last of its process. What a program leads to holds where it answers, and
something weaker where its process dies.
-/

namespace Effects

variable {S : Sig} {W σ α β : Type}

namespace Prog

/-- Run the program until it answers, or until its process dies at a call. -/
def evalTill (perform : W → (op : S.Op) → W × Option (S.Reply op)) : Prog S α → W → Option α × W
  | .ret a, w => (some a, w)
  | .call op k, w => match (perform w op).2 with
      | some r => (k r).evalTill perform (perform w op).1
      | none => (none, (perform w op).1)

/-- `post` holds where the program answers, and `dead` where its process dies. -/
def Leads (perform : W → (op : S.Op) → W × Option (S.Reply op)) (dead : W → Prop) (post : α → W → Prop) :
    Prog S α → W → Prop
  | .ret a, w => post a w
  | .call op k, w => match (perform w op).2 with
      | some r => (k r).Leads perform dead post (perform w op).1
      | none => dead (perform w op).1

variable {perform : W → (op : S.Op) → W × Option (S.Reply op)} {dead : W → Prop} {w : W}

theorem Leads.till {post : α → W → Prop} {p : Prog S α} (leads : p.Leads perform dead post w) :
    match p.evalTill perform w with
      | (some a, w') => post a w'
      | (none, w') => dead w' := by
  induction p generalizing w with
  | ret a => exact leads
  | call op k ih =>
      simp only [Leads, evalTill] at leads ⊢
      cases answered : (perform w op).2 with
      | none =>
          rw [answered] at leads
          exact leads
      | some r =>
          rw [answered] at leads
          exact ih r leads

theorem Leads.weaken {first second : α → W → Prop} {p : Prog S α} (leads : p.Leads perform dead first w)
    (implies : ∀ a w, first a w → second a w) : p.Leads perform dead second w := by
  induction p generalizing w with
  | ret a => exact implies a w leads
  | call op k ih =>
      simp only [Leads] at leads ⊢
      cases answered : (perform w op).2 with
      | none =>
          rw [answered] at leads
          exact leads
      | some r =>
          rw [answered] at leads
          exact ih r leads

theorem Leads.bind {Q : α → W → Prop} {post : β → W → Prop} {p : Prog S α} {f : α → Prog S β}
    (first : p.Leads perform dead Q w) (rest : ∀ a w, Q a w → (f a).Leads perform dead post w) :
    (p.bind f).Leads perform dead post w := by
  induction p generalizing w with
  | ret a => exact rest a w first
  | call op k ih =>
      simp only [call_bind, Leads] at first ⊢
      cases answered : (perform w op).2 with
      | none =>
          rw [answered] at first
          exact first
      | some r =>
          rw [answered] at first
          exact ih r first

theorem Yields.weaken {first second : α → Prop} {p : Prog S α} (yields : p.Yields first)
    (implies : ∀ a, first a → second a) : p.Yields second := by
  induction p with
  | ret a => exact implies a yields
  | call op k ih => exact fun r => ih r (yields r)

theorem Yields.any (p : Prog S α) : p.Yields fun _ => True := by
  induction p with
  | ret a => trivial
  | call op k ih => exact ih

theorem Yields.and {first second : α → Prop} {p : Prog S α} (one : p.Yields first) (two : p.Yields second) :
    p.Yields fun a => first a ∧ second a := by
  induction p with
  | ret a => exact ⟨one, two⟩
  | call op k ih => exact fun r => ih r (one r) (two r)

/-- What every call keeps, a program made of such calls keeps, and its answer is one it can give. -/
theorem Leads.ofUses {A : S.Op → Prop} {J : W → Prop} {post : α → Prop} {p : Prog S α} (uses : p.Uses A)
    (yields : p.Yields post) (dies : ∀ w, J w → dead w) (keeps : ∀ op, A op → ∀ w, J w → J (perform w op).1)
    (start : J w) : p.Leads perform dead (fun a w' => post a ∧ J w') w := by
  induction p generalizing w with
  | ret a => exact ⟨yields, start⟩
  | call op k ih =>
      have kept := keeps op uses.1 w start
      simp only [Leads]
      cases answered : (perform w op).2 with
      | none => exact dies _ kept
      | some r => exact ih r (uses.2 r) (yields r) kept

end Prog

namespace Act

/-- `post` holds of the outcome, the record and the world where the program ends. -/
def Leads (perform : W → (op : S.Op) → W × Option (S.Reply op)) (dead : W → Prop)
    (post : Except S.Err α → σ → W → Prop) (m : Act S σ α) (s : σ) (w : W) : Prop :=
  (m s).Leads perform dead (fun out w' => post out.1 out.2 w') w

variable {perform : W → (op : S.Op) → W × Option (S.Reply op)} {dead : W → Prop} {s : σ} {w : W}

theorem Leads.weaken {first second : Except S.Err α → σ → W → Prop} {m : Act S σ α}
    (leads : m.Leads perform dead first s w) (implies : ∀ r s w, first r s w → second r s w) :
    m.Leads perform dead second s w :=
  Prog.Leads.weaken leads fun out w' h => implies out.1 out.2 w' h

theorem leads_bind {Q : Except S.Err α → σ → W → Prop} {post : Except S.Err β → σ → W → Prop} {m : Act S σ α}
    {f : α → Act S σ β} (first : m.Leads perform dead Q s w)
    (rest : ∀ a s w, Q (.ok a) s w → (f a).Leads perform dead post s w)
    (raised : ∀ e s w, Q (.error e) s w → post (.error e) s w) : (m >>= f).Leads perform dead post s w := by
  apply Prog.Leads.bind first
  intro out w' h
  obtain ⟨r, s'⟩ := out
  cases r with
  | ok a => exact rest a s' w' h
  | error e => exact raised e s' w' h

theorem leads_tryCatch {Q post : Except S.Err α → σ → W → Prop} {m : Act S σ α} {handler : S.Err → Act S σ α}
    (body : m.Leads perform dead Q s w) (answered : ∀ a s w, Q (.ok a) s w → post (.ok a) s w)
    (handled : ∀ e s w, Q (.error e) s w → (handler e).Leads perform dead post s w) :
    (m.tryCatch handler).Leads perform dead post s w := by
  apply Prog.Leads.bind body
  intro out w' h
  obtain ⟨r, s'⟩ := out
  cases r with
  | ok a => exact answered a s' w' h
  | error e => exact handled e s' w' h

theorem leads_await {op : S.Op} {post : S.Reply op → σ → W → Prop}
    (law : match (perform w op).2 with
      | some r => post r s (perform w op).1
      | none => dead (perform w op).1) : (await op : Act S σ (S.Ans op)).Leads perform dead post s w := by
  simp only [Leads, await, Prog.Leads]
  cases answered : (perform w op).2 with
  | none =>
      rw [answered] at law
      exact law
  | some r =>
      rw [answered] at law
      exact law

theorem leads_get_bind {post : Except S.Err β → σ → W → Prop} {f : σ → Act S σ β}
    (rest : (f s).Leads perform dead post s w) : (get >>= f : Act S σ β).Leads perform dead post s w := rest

theorem leads_modify_bind {post : Except S.Err β → σ → W → Prop} {g : σ → σ} {f : Unit → Act S σ β}
    (rest : (f ()).Leads perform dead post (g s) w) : (modify g >>= f : Act S σ β).Leads perform dead post s w := rest

/-- Every answer of the program is a `P`. -/
def Gives (P : α → Prop) (m : Act S σ α) : Prop := ∀ s, (m s).Yields fun out => ∀ a, out.1 = .ok a → P a

theorem gives_pure {P : α → Prop} {a : α} (h : P a) : (pure a : Act S σ α).Gives P := by
  intro s b same
  cases same
  exact h

theorem gives_get_bind {P : β → Prop} {f : σ → Act S σ β} (rest : ∀ s, (f s).Gives P) : (get >>= f : Act S σ β).Gives P :=
  fun s => rest s s

theorem gives_bind {P : β → Prop} {m : Act S σ α} {f : α → Act S σ β} (rest : ∀ a, (f a).Gives P) : (m >>= f).Gives P := by
  intro s
  apply Prog.Yields.bind (Prog.Yields.any (m s))
  intro out _
  obtain ⟨r, s'⟩ := out
  cases r with
  | ok a => exact rest a s'
  | error e => exact nofun

/-- A program that only reads its record, and whose calls all keep `J`. -/
theorem Leads.ofReads {A : S.Op → Prop} {J : W → Prop} {m : Act S σ α} (uses : m.Uses A) (reads : m.Reads)
    (dies : ∀ w, J w → dead w) (keeps : ∀ op, A op → ∀ w, J w → J (perform w op).1) (start : J w) :
    m.Leads perform dead (fun _ s' w' => s' = s ∧ J w') s w :=
  Prog.Leads.ofUses (uses s) (reads s) dies keeps start

end Act
end Effects
