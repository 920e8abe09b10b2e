import Maof.Effects.Logic

/-!
# Call protocols

Which calls a program may make next, as a function of the calls it has made so
far. The history is kept as a tag; `answers` is what may be relied on of a
reply.
-/

namespace Effects

structure Protocol (S : Sig) (G : Type) where
  allowed : G → S.Op → Prop
  answers : (op : S.Op) → S.Reply op → Prop
  mark : G → (op : S.Op) → S.Reply op → G

variable {S : Sig} {G σ α β : Type}

/-- Every call is allowed where it is made, and `post` holds of the answer and the final tag. -/
def Prog.Follows (P : Protocol S G) (post : α → G → Prop) : Prog S α → G → Prop
  | .ret a, g => post a g
  | .call op k, g => P.allowed g op ∧ ∀ r, P.answers op r → (k r).Follows P post (P.mark g op r)

namespace Prog

variable {P : Protocol S G}

theorem Follows.weaken {first second : α → G → Prop} {p : Prog S α} {g : G}
    (h : p.Follows P first g) (implies : ∀ a g', first a g' → second a g') :
    p.Follows P second g := by
  induction p generalizing g with
  | ret a => exact implies a g h
  | call op k ih => exact ⟨h.1, fun r known => ih r (h.2 r known)⟩

theorem Follows.bind {Q : α → G → Prop} {post : β → G → Prop} {p : Prog S α}
    {f : α → Prog S β} {g : G} (h : p.Follows P Q g)
    (rest : ∀ a g', Q a g' → (f a).Follows P post g') : (p.bind f).Follows P post g := by
  induction p generalizing g with
  | ret a => exact rest a g h
  | call op k ih => exact ⟨h.1, fun r known => ih r (h.2 r known)⟩

/-- What no reply changes of the tag is the same at the end. -/
theorem Follows.keeps {γ : Type} (f : G → γ) (same : ∀ g op r, f (P.mark g op r) = f g) {post : α → G → Prop} {p : Prog S α}
    {g : G} (h : p.Follows P post g) : p.Follows P (fun a g' => post a g' ∧ f g' = f g) g := by
  induction p generalizing g with
  | ret a => exact ⟨h, rfl⟩
  | call op k ih =>
      refine ⟨h.1, fun r known => ?_⟩
      have rest := ih r (h.2 r known)
      rwa [same] at rest

/-- What is so of every outcome is so where the program follows the protocol. -/
theorem Follows.yields {Y : α → Prop} {post : α → G → Prop} {p : Prog S α} {g : G} (h : p.Follows P post g)
    (outcome : p.Yields Y) : p.Follows P (fun a g' => Y a ∧ post a g') g := by
  induction p generalizing g with
  | ret a => exact ⟨outcome, h⟩
  | call op k ih => exact ⟨h.1, fun r known => ih r (h.2 r known) (outcome r)⟩

/-- A program all of whose calls leave the tag as it is. -/
theorem Follows.ofUses {A : S.Op → Prop} {p : Prog S α} {g : G} (uses : p.Uses A)
    (allowed : ∀ op, A op → P.allowed g op) (keeps : ∀ op r, A op → P.mark g op r = g) :
    p.Follows P (fun _ g' => g' = g) g := by
  induction p with
  | ret a => rfl
  | call op k ih =>
      refine ⟨allowed op uses.1, fun r _ => ?_⟩
      rw [keeps op r uses.1]
      exact ih r (uses.2 r)

end Prog

/-- A protocol as the calls of a smaller signature see it. -/
def Protocol.pulled {T : Sig} (P : Protocol T G) (op' : S.Op → T.Op) (back : ∀ op, T.Reply (op' op) → S.Reply op)
    (forth : ∀ op, S.Reply op → T.Reply (op' op)) : Protocol S G where
  allowed g op := P.allowed g (op' op)
  answers op r := ∃ r', back op r' = r ∧ P.answers (op' op) r'
  mark g op r := P.mark g (op' op) (forth op r)

/-- A program carried into a larger signature follows the protocol there that its calls follow here. -/
theorem Prog.Follows.lift {T : Sig} {P : Protocol T G} {op' : S.Op → T.Op} {back : ∀ op, T.Reply (op' op) → S.Reply op}
    {forth : ∀ op, S.Reply op → T.Reply (op' op)} (inverse : ∀ op r, forth op (back op r) = r) {post : α → G → Prop}
    {p : Prog S α} {g : G} (h : p.Follows (P.pulled op' back forth) post g) : (p.lift op' back).Follows P post g := by
  induction p generalizing g with
  | ret a => exact h
  | call op k ih =>
      refine ⟨h.1, fun r known => ?_⟩
      have rest := h.2 (back op r) ⟨r, rfl, known⟩
      have same : (P.pulled op' back forth).mark g op (back op r) = P.mark g (op' op) r :=
        congrArg (P.mark g (op' op)) (inverse op r)
      rw [same] at rest
      exact ih (back op r) rest

namespace Act

def Follows (P : Protocol S G) (post : Except S.Err α → σ → G → Prop) (m : Act S σ α) (s : σ)
    (g : G) : Prop :=
  (m s).Follows P (fun out g' => post out.1 out.2 g') g

variable {P : Protocol S G}

theorem Follows.weaken {first second : Except S.Err α → σ → G → Prop} {m : Act S σ α} {s : σ}
    {g : G} (h : m.Follows P first s g) (implies : ∀ r s' g', first r s' g' → second r s' g') :
    m.Follows P second s g :=
  Prog.Follows.weaken h fun out g' => implies out.1 out.2 g'

theorem follows_pure {post : Except S.Err α → σ → G → Prop} {a : α} {s : σ} {g : G}
    (h : post (.ok a) s g) : (pure a : Act S σ α).Follows P post s g := h

theorem follows_throw {post : Except S.Err α → σ → G → Prop} {e : S.Err} {s : σ} {g : G}
    (h : post (.error e) s g) : (throw e : Act S σ α).Follows P post s g := h

theorem follows_bind {Q : Except S.Err α → σ → G → Prop} {post : Except S.Err β → σ → G → Prop}
    {m : Act S σ α} {f : α → Act S σ β} {s : σ} {g : G} (h : m.Follows P Q s g)
    (ok : ∀ a s' g', Q (.ok a) s' g' → (f a).Follows P post s' g')
    (error : ∀ e s' g', Q (.error e) s' g' → post (.error e) s' g') :
    (m >>= f).Follows P post s g := by
  refine Prog.Follows.bind h ?_
  rintro ⟨_ | a, s'⟩ g' reached
  · exact error _ s' g' reached
  · exact ok a s' g' reached

theorem follows_tryCatch {Q post : Except S.Err α → σ → G → Prop} {m : Act S σ α}
    {handler : S.Err → Act S σ α} {s : σ} {g : G} (h : m.Follows P Q s g)
    (ok : ∀ a s' g', Q (.ok a) s' g' → post (.ok a) s' g')
    (error : ∀ e s' g', Q (.error e) s' g' → (handler e).Follows P post s' g') :
    (m.tryCatch handler).Follows P post s g := by
  refine Prog.Follows.bind h ?_
  rintro ⟨_ | a, s'⟩ g' reached
  · exact error _ s' g' reached
  · exact ok a s' g' reached

theorem follows_get_bind {post : Except S.Err β → σ → G → Prop} {f : σ → Act S σ β} {s : σ} {g : G}
    (h : (f s).Follows P post s g) : (get >>= f : Act S σ β).Follows P post s g := h

theorem follows_modify {post : Except S.Err Unit → σ → G → Prop} {f : σ → σ} {s : σ} {g : G}
    (h : post (.ok ()) (f s) g) : (modify f : Act S σ Unit).Follows P post s g := h

theorem follows_modify_bind {post : Except S.Err β → σ → G → Prop} {f : σ → σ}
    {k : Unit → Act S σ β} {s : σ} {g : G} (h : (k ()).Follows P post (f s) g) :
    (modify f >>= k : Act S σ β).Follows P post s g := h

theorem follows_pure_bind {post : Except S.Err β → σ → G → Prop} {a : α} {k : α → Act S σ β} {s : σ}
    {g : G} (h : (k a).Follows P post s g) : (pure a >>= k : Act S σ β).Follows P post s g := h

theorem follows_await {op : S.Op} {post : S.Reply op → σ → G → Prop} {s : σ} {g : G}
    (allowed : P.allowed g op) (after : ∀ r, P.answers op r → post r s (P.mark g op r)) :
    (await op : Act S σ (S.Ans op)).Follows P post s g := ⟨allowed, after⟩

/-- One call, then the rest: the error case goes straight to the postcondition. -/
theorem follows_await_bind {op : S.Op} {post : Except S.Err β → σ → G → Prop}
    {k : S.Ans op → Act S σ β} {s : σ} {g : G} (allowed : P.allowed g op)
    (ok : ∀ a, P.answers op (.ok a) → (k a).Follows P post s (P.mark g op (.ok a)))
    (error : ∀ e, P.answers op (.error e) → post (.error e) s (P.mark g op (.error e))) :
    (await op >>= k : Act S σ β).Follows P post s g := by
  refine ⟨allowed, fun r known => ?_⟩
  cases r with
  | ok a => exact ok a known
  | error e => exact error e known

theorem follows_ofExcept {post : Except S.Err α → σ → G → Prop} {r : Except S.Err α} {s : σ} {g : G}
    (h : post r s g) : (ofExcept r : Act S σ α).Follows P post s g := by
  cases r <;> exact h

end Act
/-! ## Calls, and nothing remembered of them -/

/-- What may be called, with no history. -/
def Protocol.plain (A : S.Op → Prop) : Protocol S Unit := ⟨fun _ op => A op, fun _ _ => True, fun _ _ _ => ()⟩

/-- A program that makes only some calls follows any protocol that allows them and learns nothing of them. -/
theorem Prog.Follows.ofPlain {A : S.Op → Prop} {P : Protocol S G} {post : α → Unit → Prop} {p : Prog S α} {g : G}
    (h : p.Follows (.plain A) post ()) (allowed : ∀ op, A op → P.allowed g op) (keeps : ∀ op r, A op → P.mark g op r = g) :
    p.Follows P (fun a g' => post a () ∧ g' = g) g := by
  induction p with
  | ret a => exact ⟨h, rfl⟩
  | call op k ih =>
      refine ⟨allowed op h.1, fun r _ => ?_⟩
      rw [keeps op r h.1]
      exact ih r (h.2 r trivial)

/-- A program that makes only some calls takes the tag where these calls take it. -/
theorem Prog.Follows.ofPlain_along {A : S.Op → Prop} {P : Protocol S G} {R : G → G → Prop} (refl : ∀ g, R g g)
    (trans : ∀ a b c, R a b → R b c → R a c) {post : α → Unit → Prop} {p : Prog S α} {g : G}
    (h : p.Follows (.plain A) post ()) (allowed : ∀ g op, A op → P.allowed g op)
    (moves : ∀ g op r, A op → R g (P.mark g op r)) : p.Follows P (fun a g' => post a () ∧ R g g') g := by
  induction p generalizing g with
  | ret a => exact ⟨h, refl g⟩
  | call op k ih =>
      refine ⟨allowed g op h.1, fun r _ => ?_⟩
      apply Prog.Follows.weaken (ih r (h.2 r trivial) (g := P.mark g op r))
      rintro a g' ⟨holds, later⟩
      exact ⟨holds, trans _ _ _ (moves g op r h.1) later⟩

namespace Act

/-- From a record that is `I`, the program makes only calls that are `A` and leaves the record `I`. -/
def Within (I : σ → Prop) (A : S.Op → Prop) (m : Act S σ α) : Prop :=
  ∀ s, I s → m.Follows (.plain A) (fun _ s' _ => I s') s ()

variable {I : σ → Prop} {A : S.Op → Prop}

theorem within_pure (a : α) : (pure a : Act S σ α).Within I A := fun _ holds => follows_pure holds

theorem within_throw (e : S.Err) : (throw e : Act S σ α).Within I A := fun _ holds => follows_throw holds

theorem within_bind {m : Act S σ α} {f : α → Act S σ β} (first : m.Within I A) (rest : ∀ a, (f a).Within I A) :
    (m >>= f).Within I A :=
  fun s holds => follows_bind (first s holds) (fun a s' _ holds => rest a s' holds) fun _ _ _ => id

theorem within_look {f : σ → Act S σ β} (rest : ∀ s, I s → (f s).Within I A) : (get >>= f : Act S σ β).Within I A :=
  fun s holds => follows_get_bind (rest s holds s holds)

theorem within_modify {f : σ → σ} (keeps : ∀ s, I s → I (f s)) : (modify f : Act S σ Unit).Within I A :=
  fun s holds => follows_modify (keeps s holds)

theorem within_await {op : S.Op} (allowed : A op) : (await op : Act S σ (S.Ans op)).Within I A :=
  fun _ holds => follows_await allowed fun _ _ => holds

end Act

end Effects
