/-!
# Conversations

Something that answers calls, one after the other, and the conversations a client can have with it.
What a second, simpler thing would have answered is shown by a relation between the states of both.
-/

namespace Data

/-- What answers calls; the turn is what the environment goes by. -/
structure Service (C A σ : Type) where
  answer : (turn : Nat) → σ → C → σ × A

namespace Service

variable {C A B σ τ : Type}

/-- The answers to a list of calls. -/
def converse (s : Service C A σ) : (turn : Nat) → σ → List C → List A
  | _, _, [] => []
  | turn, x, c :: cs => (s.answer turn x c).2 :: s.converse (turn + 1) (s.answer turn x c).1 cs

/-- Wherever the states are related they stay so, and what is seen of the answers is what the other answers. -/
structure Refines (s : Service C A σ) (spec : Service C B τ) (R : (turn : Nat) → τ → σ → Prop) (see : A → B) : Prop where
  keeps : ∀ {turn b x} c, R turn b x → R (turn + 1) (spec.answer turn b c).1 (s.answer turn x c).1
  answers : ∀ {turn b x} c, R turn b x → see (s.answer turn x c).2 = (spec.answer turn b c).2

variable {s : Service C A σ} {spec : Service C B τ} {R : (turn : Nat) → τ → σ → Prop} {see : A → B}

theorem Refines.converse (refines : s.Refines spec R see) {turn : Nat} {b : τ} {x : σ} (related : R turn b x) (cs : List C) :
    (s.converse turn x cs).map see = spec.converse turn b cs := by
  induction cs generalizing turn b x with
  | nil => rfl
  | cons c cs ih =>
      simp only [Service.converse, List.map_cons]
      rw [refines.answers c related, ih (refines.keeps c related)]

end Service
end Data
