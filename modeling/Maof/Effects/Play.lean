import Maof.Effects.Record
import Mathlib.Data.List.Induction

/-!
# Programs played against an environment

The environment answers each call as it likes, by all the calls made before and what they were
answered. A program that follows a protocol over the history makes, whatever it is answered, only
calls that are allowed after the ones before.
-/

namespace Effects

variable {S : Sig} {σ α β : Type}

/-- Who answers the calls. -/
abbrev Player (S : Sig) : Type := List (Event S) → (op : S.Op) → S.Reply op

/-- Nothing it answers is an error. -/
def Player.Returns (player : Player S) : Prop := ∀ log op, ∃ a, player log op = .ok a

namespace Prog

/-- What the program gives, and the calls made by then, after those of `log`. -/
def play (player : Player S) : Prog S α → List (Event S) → α × List (Event S)
  | .ret a, log => (a, log)
  | .call op k, log => (k (player log op)).play player (log ++ [⟨op, player log op⟩])

theorem play_extends (player : Player S) (p : Prog S α) (log : List (Event S)) :
    log <+: (p.play player log).2 := by
  induction p generalizing log with
  | ret a => exact List.prefix_refl log
  | call op k ih => exact (List.prefix_append log [_]).trans (ih _ _)

/-- A call with an error for an answer was made of a player that raises, or before. -/
theorem play_answered {player : Player S} (returns : player.Returns) (p : Prog S α) {log : List (Event S)}
    (answered : ∀ e ∈ log, ∃ a, e.reply = .ok a) : ∀ e ∈ (p.play player log).2, ∃ a, e.reply = .ok a := by
  induction p generalizing log with
  | ret a => exact answered
  | call op k ih =>
      refine ih _ fun e member => ?_
      rcases List.mem_append.mp member with old | new
      · exact answered e old
      · rw [List.mem_singleton.mp new]
        exact returns log op

end Prog

/-- The protocol that remembers everything, and relies on nothing. -/
def Protocol.logged (allowed : List (Event S) → S.Op → Prop) : Protocol S (List (Event S)) where
  allowed := allowed
  answers _ _ := True
  mark log op r := log ++ [⟨op, r⟩]

variable {allowed : List (Event S) → S.Op → Prop}

/-- Every call of a play is allowed after the calls before it. -/
theorem Prog.Follows.play {post : α → List (Event S) → Prop} {p : Prog S α} {log : List (Event S)}
    (follows : p.Follows (.logged allowed) post log) (player : Player S) :
    (∀ before e after, (p.play player log).2 = before ++ e :: after → log <+: before → allowed before e.op) ∧
      post (p.play player log).1 (p.play player log).2 := by
  induction p generalizing log with
  | ret a =>
      refine ⟨fun before e after whole inside => ?_, follows⟩
      have lengths := congrArg List.length whole
      have shorter := inside.length_le
      simp only [Prog.play, List.length_append, List.length_cons] at lengths
      omega
  | call op k ih =>
      obtain ⟨permitted, rest⟩ := follows
      obtain ⟨later, ends⟩ := ih (player log op) (rest (player log op) trivial)
      refine ⟨fun before e after whole inside => ?_, ends⟩
      obtain ⟨more, rfl⟩ := inside
      cases more with
      | nil =>
          -- the first call after `log` is this one
          obtain ⟨others, extends_⟩ := Prog.play_extends player (k (player log op)) (log ++ [⟨op, player log op⟩])
          have same : log ++ [⟨op, player log op⟩] ++ others = log ++ [] ++ e :: after := extends_.trans whole
          rw [List.append_nil, List.append_assoc] at same
          obtain ⟨rfl, -⟩ := List.cons.inj (List.append_cancel_left same)
          rw [List.append_nil]
          exact permitted
      | cons first more =>
          have next := Prog.play_extends player (k (player log op)) (log ++ [⟨op, player log op⟩])
          have inside : log ++ [⟨op, player log op⟩] <+: log ++ first :: more := by
            refine @List.prefix_of_prefix_length_le _ _ _ (log ++ first :: more ++ e :: after) ?_ (List.prefix_append _ _) ?_
            · rw [← whole]
              exact next
            · simp
          exact later _ e after whole inside

/-- Events of a kind that each come after fewer than `n` of them are at most `n`. -/
theorem countP_le_of_each {ε : Type} {kind : ε → Bool} {n : Nat} {log : List ε}
    (each : ∀ before e after, log = before ++ e :: after → kind e = true → before.countP kind < n) :
    log.countP kind ≤ n := by
  induction log using List.reverseRecOn with
  | nil => exact Nat.zero_le n
  | append_singleton log e ih =>
      rw [List.countP_append]
      by_cases counted : kind e = true
      · have fewer := each log e [] rfl counted
        rw [List.countP_singleton, if_pos counted]
        exact fewer
      · rw [List.countP_singleton, if_neg counted]
        exact ih fun before e' after whole => each before e' (after ++ [e]) (by rw [whole, List.append_assoc]; rfl)

end Effects
