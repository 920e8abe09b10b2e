import Maof.Effects.Program

/-!
# Rely and guarantee for programs over awaited calls

Between two calls of a program the environment may move the world along
`rely`; each call must move it along `guar` and keep `valid`. A program that is
`Safe` from a world keeps its promise under every such interference, and under
a crash at any call, since the promise is made call by call.
-/

namespace Effects

structure Contract (S : Sig) (W : Type) where
  sem : W → (op : S.Op) → W → S.Reply op → Prop
  valid : W → Prop
  rely : W → W → Prop
  guar : W → W → Prop
  refl : ∀ w, rely w w
  trans : ∀ {a b c}, rely a b → rely b c → rely a c

variable {S : Sig} {W σ α β : Type}

/-- An assertion that interference cannot falsify. -/
def Contract.Stable (C : Contract S W) (P : W → Prop) : Prop :=
  ∀ w w', P w → C.rely w w' → C.valid w' → P w'

theorem Contract.Stable.and {C : Contract S W} {P Q : W → Prop} (hP : C.Stable P)
    (hQ : C.Stable Q) : C.Stable fun w => P w ∧ Q w :=
  fun w w' h moved kept => ⟨hP w w' h.1 moved kept, hQ w w' h.2 moved kept⟩

theorem Contract.Stable.const {C : Contract S W} (p : Prop) : C.Stable fun _ => p :=
  fun _ _ h _ _ => h

/-- `C` for programs whose calls are carried into `C`'s signature. -/
def Contract.pull {T : Sig} (C : Contract T W) (op' : S.Op → T.Op)
    (back : ∀ op, T.Reply (op' op) → S.Reply op) : Contract S W where
  sem w op w' r := ∃ r', C.sem w (op' op) w' r' ∧ r = back op r'
  valid := C.valid
  rely := C.rely
  guar := C.guar
  refl := C.refl
  trans := C.trans

/-- `C` for the programs that make no other calls. -/
def Contract.only (C : Contract S W) (A : S.Op → Prop) : Contract S W where
  sem w op w' r := A op ∧ C.sem w op w' r
  valid := C.valid
  rely := C.rely
  guar := C.guar
  refl := C.refl
  trans := C.trans

/-- What is carried into calls that may be made is as it was. -/
theorem Contract.pull_only {T : Sig} {C : Contract T W} {A : T.Op → Prop} {op' : S.Op → T.Op}
    {back : ∀ op, T.Reply (op' op) → S.Reply op} (made : ∀ op, A (op' op)) :
    (C.only A).pull op' back = C.pull op' back := by
  unfold Contract.pull
  congr 1
  funext w op w' r
  exact propext ⟨fun ⟨r', law, same⟩ => ⟨r', law.2, same⟩, fun ⟨r', law, same⟩ => ⟨r', ⟨made op, law⟩, same⟩⟩

/-- `post` holds of every outcome, whatever the calls answer. -/
def Prog.Yields (post : α → Prop) : Prog S α → Prop
  | .ret a => post a
  | .call _ k => ∀ r, (k r).Yields post

theorem Prog.Yields.bind {Q : α → Prop} {post : β → Prop} {p : Prog S α} {f : α → Prog S β}
    (first : p.Yields Q) (rest : ∀ a, Q a → (f a).Yields post) : (p.bind f).Yields post := by
  induction p with
  | ret a => exact rest a first
  | call op k ih => exact fun r => ih r (first r)

/-- The program leaves its record as it was. -/
def Act.Reads (m : Act S σ α) : Prop := ∀ s, (m s).Yields fun out => out.2 = s

namespace Act

theorem reads_pure (a : α) : (pure a : Act S σ α).Reads := fun _ => rfl

theorem reads_throw (e : S.Err) : (throw e : Act S σ α).Reads := fun _ => rfl

theorem reads_await (op : S.Op) : (await op : Act S σ (S.Ans op)).Reads := fun _ _ => rfl

theorem reads_bind {m : Act S σ α} {f : α → Act S σ β} (first : m.Reads) (rest : ∀ a, (f a).Reads) :
    (m >>= f).Reads := by
  refine fun s => Prog.Yields.bind (first s) ?_
  rintro ⟨_ | a, s'⟩ same
  · exact same
  · cases same
    exact rest a s'

theorem reads_get_bind {f : σ → Act S σ β} (rest : ∀ s, (f s).Reads) : (get >>= f : Act S σ β).Reads :=
  fun s => rest s s

end Act

def Prog.Safe (C : Contract S W) (post : α → W → Prop) : Prog S α → W → Prop
  | .ret a, w => ∀ w', C.rely w w' → C.valid w' → post a w'
  | .call op k, w => ∀ w₁, C.rely w w₁ → C.valid w₁ → ∀ w₂ r, C.sem w₁ op w₂ r →
      C.valid w₂ ∧ C.guar w₁ w₂ ∧ (k r).Safe C post w₂

namespace Prog

variable {C : Contract S W}

theorem Safe.later {post : α → W → Prop} {p : Prog S α} {w w' : W} (safe : p.Safe C post w)
    (moved : C.rely w w') : p.Safe C post w' := by
  cases p with
  | ret a => exact fun w₁ later kept => safe w₁ (C.trans moved later) kept
  | call op k => exact fun w₁ later kept => safe w₁ (C.trans moved later) kept

theorem Safe.weaken {first second : α → W → Prop} {p : Prog S α} {w : W}
    (safe : p.Safe C first w) (implies : ∀ a w', C.valid w' → first a w' → second a w') :
    p.Safe C second w := by
  induction p generalizing w with
  | ret a => exact fun w' moved kept => implies a w' kept (safe w' moved kept)
  | call op k ih =>
      intro w₁ moved kept w₂ r law
      obtain ⟨valid, guar, rest⟩ := safe w₁ moved kept w₂ r law
      exact ⟨valid, guar, ih r rest⟩

theorem Safe.bind {Q : α → W → Prop} {post : β → W → Prop} {p : Prog S α}
    {f : α → Prog S β} {w : W} (safe : p.Safe C Q w) (kept : C.valid w)
    (resume : ∀ a w', C.valid w' → (∀ w'', C.rely w' w'' → C.valid w'' → Q a w'') →
      (f a).Safe C post w') : (p.bind f).Safe C post w := by
  induction p generalizing w with
  | ret a => exact resume a w kept safe
  | call op k ih =>
      intro w₁ moved kept₁ w₂ r law
      obtain ⟨valid, guar, rest⟩ := safe w₁ moved kept₁ w₂ r law
      exact ⟨valid, guar, ih r rest valid⟩

/-- A program whose calls all keep `valid`, `guar` and an assertion `I` is safe,
and its answer is one of those it can give. -/
theorem Safe.ofUses {A : S.Op → Prop} {I : W → Prop} {post : α → Prop} {p : Prog S α}
    (uses : p.Uses A) (yields : p.Yields post) (stable : C.Stable I)
    (calls : ∀ op, A op → ∀ w₁ w₂ r, C.valid w₁ → I w₁ → C.sem w₁ op w₂ r →
      C.valid w₂ ∧ C.guar w₁ w₂ ∧ I w₂) {w : W} (holds : I w) :
    p.Safe C (fun a w' => post a ∧ I w') w := by
  induction p generalizing w with
  | ret a => exact fun w' moved kept => ⟨yields, stable w w' holds moved kept⟩
  | call op k ih =>
      intro w₁ moved kept w₂ r law
      obtain ⟨valid, guar, still⟩ :=
        calls op uses.1 w₁ w₂ r kept (stable w w₁ holds moved kept) law
      exact ⟨valid, guar, ih r (uses.2 r) (yields r) still⟩

/-- A carried program is safe where the program itself is. -/
theorem Safe.lift {T : Sig} {C : Contract T W} {op' : S.Op → T.Op}
    {back : ∀ op, T.Reply (op' op) → S.Reply op} {post : α → W → Prop} {p : Prog S α} {w : W}
    (safe : p.Safe (C.pull op' back) post w) : (p.lift op' back).Safe C post w := by
  induction p generalizing w with
  | ret a => exact safe
  | call op k ih =>
      intro w₁ moved kept w₂ r law
      obtain ⟨valid, guar, rest⟩ := safe w₁ moved kept w₂ _ ⟨r, law, rfl⟩
      exact ⟨valid, guar, ih _ rest⟩

/-- The environment's answers and interference carry a program to what is left of
it: all of it at the start, its outcome at the end, anything between where it stops. -/
inductive Steps (C : Contract S W) : Prog S α → W → Prog S α → W → Prop
  | refl (p : Prog S α) (w : W) : Steps C p w p w
  | call {op : S.Op} {k : S.Reply op → Prog S α} {q : Prog S α} {w w₁ w₂ : W} {r : S.Reply op} :
      C.sem w op w₁ r → Steps C (k r) w₁ q w₂ → Steps C (.call op k) w q w₂
  | env {p q : Prog S α} {w w₁ w₂ : W} :
      C.rely w w₁ → C.valid w₁ → Steps C p w₁ q w₂ → Steps C p w q w₂

/-- A safe program is safe wherever it is stopped. -/
theorem Safe.steps {post : α → W → Prop} {p q : Prog S α} {w w' : W} (safe : p.Safe C post w)
    (kept : C.valid w) (run : Steps C p w q w') : C.valid w' ∧ q.Safe C post w' := by
  induction run with
  | refl p w => exact ⟨kept, safe⟩
  | call law rest ih =>
      obtain ⟨valid, _, next⟩ := safe _ (C.refl _) kept _ _ law
      exact ih next valid
  | env moved valid rest ih => exact ih (safe.later moved) valid

/-- What a safe program answers meets the postcondition. -/
theorem Safe.answers {post : α → W → Prop} {p : Prog S α} {a : α} {w w' : W}
    (safe : p.Safe C post w) (kept : C.valid w) (run : Steps C p w (.ret a) w') :
    C.valid w' ∧ post a w' := by
  obtain ⟨valid, last⟩ := safe.steps kept run
  exact ⟨valid, last _ (C.refl _) valid⟩

/-- Where nobody interferes, a call is yet to be made or was answered. -/
theorem Steps.call_cases (quiet : ∀ w w', C.rely w w' → w' = w) (op : S.Op)
    {k : S.Reply op → Prog S α} {q : Prog S α} {w w' : W} (run : Steps C (.call op k) w q w') :
    (q = .call op k ∧ w' = w) ∨ ∃ w₁ r, C.sem w op w₁ r ∧ Steps C (k r) w₁ q w' := by
  generalize start : Prog.call op k = p at run
  induction run with
  | refl p w => exact .inl ⟨rfl, rfl⟩
  | call law rest _ => cases start; exact .inr ⟨_, _, law, rest⟩
  | env moved _ _ ih => obtain rfl := quiet _ _ moved; exact ih start

theorem Steps.ret_cases (quiet : ∀ w w', C.rely w w' → w' = w) {a : α} {q : Prog S α} {w w' : W}
    (run : Steps C (.ret a) w q w') : q = .ret a ∧ w' = w := by
  generalize start : Prog.ret a = p at run
  induction run with
  | refl p w => exact ⟨rfl, rfl⟩
  | call _ _ _ => cases start
  | env moved _ _ ih => obtain rfl := quiet _ _ moved; exact ih start

end Prog

namespace Act

/-- `m` started on the record `s` in world `w`; the postcondition speaks of the
outcome, the record left behind and the world. -/
def Safe (C : Contract S W) (post : Except S.Err α → σ → W → Prop) (m : Act S σ α)
    (s : σ) (w : W) : Prop :=
  (m s).Safe C (fun out w' => post out.1 out.2 w') w

variable {C : Contract S W}

theorem Safe.weaken {first second : Except S.Err α → σ → W → Prop} {m : Act S σ α} {s : σ} {w : W}
    (safe : m.Safe C first s w)
    (implies : ∀ r s' w', C.valid w' → first r s' w' → second r s' w') : m.Safe C second s w :=
  Prog.Safe.weaken safe fun out w' kept h => implies out.1 out.2 w' kept h

theorem safe_pure {post : Except S.Err α → σ → W → Prop} {a : α} {s : σ} {w : W}
    (h : post (.ok a) s w) (stable : C.Stable fun w => post (.ok a) s w) :
    (pure a : Act S σ α).Safe C post s w :=
  fun w' moved kept => stable w w' h moved kept

theorem safe_throw {post : Except S.Err α → σ → W → Prop} {e : S.Err} {s : σ} {w : W}
    (h : post (.error e) s w) (stable : C.Stable fun w => post (.error e) s w) :
    (throw e : Act S σ α).Safe C post s w :=
  fun w' moved kept => stable w w' h moved kept

theorem safe_bind {Q : Except S.Err α → σ → W → Prop} {post : Except S.Err β → σ → W → Prop}
    {m : Act S σ α} {f : α → Act S σ β} {s : σ} {w : W} (safe : m.Safe C Q s w)
    (kept : C.valid w)
    (ok : ∀ a s' w', C.valid w' → Q (.ok a) s' w' → (f a).Safe C post s' w')
    (error : ∀ e s' w', C.valid w' → Q (.error e) s' w' → post (.error e) s' w') :
    (m >>= f).Safe C post s w := by
  refine Prog.Safe.bind safe kept ?_
  rintro ⟨_ | a, s'⟩ w' valid h
  · exact fun w'' moved valid' => error _ _ _ valid' (h w'' moved valid')
  · exact ok a s' w' valid (h w' (C.refl w') valid)

theorem safe_tryCatch {Q post : Except S.Err α → σ → W → Prop} {m : Act S σ α}
    {handler : S.Err → Act S σ α} {s : σ} {w : W} (safe : m.Safe C Q s w) (kept : C.valid w)
    (ok : ∀ a s' w', C.valid w' → Q (.ok a) s' w' → post (.ok a) s' w')
    (error : ∀ e s' w', C.valid w' → Q (.error e) s' w' → (handler e).Safe C post s' w') :
    (m.tryCatch handler).Safe C post s w := by
  refine Prog.Safe.bind safe kept ?_
  rintro ⟨_ | a, s'⟩ w' valid h
  · exact error _ s' w' valid (h w' (C.refl w') valid)
  · exact fun w'' moved valid' => ok _ _ _ valid' (h w'' moved valid')

theorem safe_modify {post : Except S.Err Unit → σ → W → Prop} {f : σ → σ} {s : σ} {w : W}
    (h : post (.ok ()) (f s) w) (stable : C.Stable fun w => post (.ok ()) (f s) w) :
    (modify f : Act S σ Unit).Safe C post s w :=
  fun w' moved kept => stable w w' h moved kept

theorem safe_get_bind {post : Except S.Err β → σ → W → Prop} {f : σ → Act S σ β} {s : σ} {w : W}
    (h : (f s).Safe C post s w) : (get >>= f : Act S σ β).Safe C post s w := h

theorem safe_modify_bind {post : Except S.Err β → σ → W → Prop} {f : σ → σ} {k : Unit → Act S σ β}
    {s : σ} {w : W} (h : (k ()).Safe C post (f s) w) :
    (modify f >>= k : Act S σ β).Safe C post s w := h

/-- The rule of one call: what held stably before it gives a stable postcondition after it. -/
theorem safe_await {op : S.Op} {P : W → Prop} {post : S.Reply op → σ → W → Prop} {s : σ} {w : W}
    (h : P w) (before : C.Stable P) (after : ∀ r, C.Stable fun w => post r s w)
    (step : ∀ w₁ w₂ r, C.valid w₁ → P w₁ → C.sem w₁ op w₂ r →
      C.valid w₂ ∧ C.guar w₁ w₂ ∧ post r s w₂) :
    (await op : Act S σ (S.Ans op)).Safe C post s w := by
  intro w₁ moved kept w₂ r law
  obtain ⟨valid, guar, done⟩ := step w₁ w₂ r kept (before w w₁ h moved kept) law
  exact ⟨valid, guar, fun w₃ later kept₃ => after r w₂ w₃ done later kept₃⟩

/-- `P` of the answer, the record and the world, or `Q` where an exception was raised. -/
def Outcome {ε : Type} (P : α → σ → W → Prop) (Q : σ → W → Prop) : Except ε α → σ → W → Prop
  | .ok a => P a
  | .error _ => Q

/-- `P` of the record and the world is kept by an answer; an exception leaves `Q`. -/
def Keeps (C : Contract S W) (P Q : σ → W → Prop) (m : Act S σ α) : Prop :=
  ∀ s w, C.valid w → P s w → m.Safe C (Outcome (fun _ => P) Q) s w

section keeps

variable {P Q : σ → W → Prop} {m : Act S σ α}

theorem outcome_stable {ε : Type} {P : α → σ → W → Prop} {s : σ} (stable : ∀ a, C.Stable (P a s))
    (stable' : C.Stable (Q s)) (r : Except ε α) : C.Stable fun w => Outcome P Q r s w := by
  cases r with
  | ok a => exact stable a
  | error e => exact stable'

theorem keeps_pure {a : α} (stable : ∀ s, C.Stable (P s)) : (pure a : Act S σ α).Keeps C P Q :=
  fun s _ _ h => safe_pure h (stable s)

theorem keeps_throw {e : S.Err} (stable : ∀ s, C.Stable (Q s)) (leave : ∀ s w, P s w → Q s w) :
    (throw e : Act S σ α).Keeps C P Q :=
  fun s w _ h => safe_throw (leave s w h) (stable s)

theorem keeps_ofExcept {r : Except S.Err α} (stable : ∀ s, C.Stable (P s))
    (stable' : ∀ s, C.Stable (Q s)) (leave : ∀ s w, P s w → Q s w) :
    (ofExcept r : Act S σ α).Keeps C P Q := by
  cases r with
  | ok a => exact keeps_pure stable
  | error e => exact keeps_throw stable' leave

theorem keeps_bind {f : α → Act S σ β} (first : m.Keeps C P Q) (rest : ∀ a, (f a).Keeps C P Q) :
    (m >>= f).Keeps C P Q :=
  fun s w kept h => safe_bind (first s w kept h) kept (fun a s' w' => rest a s' w') fun _ _ _ _ => id

theorem keeps_modify {f : σ → σ} (stable : ∀ s, C.Stable (P s))
    (keep : ∀ s w, C.valid w → P s w → P (f s) w) : (modify f : Act S σ Unit).Keeps C P Q :=
  fun s w kept h => safe_modify (keep s w kept h) (stable _)

/-- Read the record, then the rest from the record that was read. -/
theorem keeps_get_bind {f : σ → Act S σ β}
    (rest : ∀ s w, C.valid w → P s w → (f s).Safe C (Outcome (fun _ => P) Q) s w) :
    (get >>= f : Act S σ β).Keeps C P Q :=
  rest

theorem keeps_await {op : S.Op} (stable : ∀ s, C.Stable (P s)) (stable' : ∀ s, C.Stable (Q s))
    (call : ∀ s w₁ w₂ r, C.valid w₁ → P s w₁ → C.sem w₁ op w₂ r →
      C.valid w₂ ∧ C.guar w₁ w₂ ∧ Outcome (fun _ => P) Q r s w₂) :
    (await op : Act S σ (S.Ans op)).Keeps C P Q :=
  fun s _ _ h => safe_await h (stable s) (outcome_stable (fun _ => stable s) (stable' s)) (call s)

end keeps

end Act
end Effects
