import Mathlib.Logic.Basic

/- Loops whose number of rounds is not known before they start. A round gives the next state, or
   none where the test of the loop fails; a loop that has not ended after so many rounds has no
   result. -/
namespace WhileLoop
variable {σ : Type} {m : Type → Type} [Monad m]

def loop (round : σ → m (Option σ)) : Nat → σ → m (Option σ)
  | 0, _ => pure none
  | fuel + 1, s => do
    match ← round s with
    | none => pure (some s)
    | some s' => loop round fuel s'

section Rules
variable [LawfulMonad m] {round : σ → m (Option σ)} {fuel : Nat} {s s' : σ}

theorem loop_done (done : round s = pure none) : loop round (fuel + 1) s = pure (some s) := by
  unfold loop
  rw [done, pure_bind]

theorem loop_next (next : round s = pure (some s')) :
    loop round (fuel + 1) s = loop round fuel s' := by
  conv => lhs; unfold loop
  rw [next, pure_bind]

end Rules

section Pure
variable {round : σ → Option σ} {fuel : Nat} {s t : σ}

/-- Total correctness: with a measure that every round lowers, that many rounds are enough. -/
theorem loop_total (I : σ → Prop) (measure : σ → Nat) (start : I s)
    (keeps : ∀ a b, I a → round a = some b → I b ∧ measure b < measure a)
    (enough : measure s < fuel) :
    ∃ t, loop (m := Id) round fuel s = some t ∧ I t ∧ round t = none := by
  induction fuel generalizing s with
  | zero => cases enough
  | succ fuel ih =>
    cases here : round s with
    | none =>
      rw [loop_done (m := Id) here]
      exact ⟨s, rfl, start, here⟩
    | some s' =>
      obtain ⟨next, lower⟩ := keeps s s' start here
      rw [loop_next (m := Id) here]
      exact ih next (by omega)

end Pure

section Fallible
variable {ε : Type} {round : σ → Except ε (Option σ)} {fuel : Nat} {s t : σ}

theorem loop_ok (I : σ → Prop) (start : I s) (keeps : ∀ a b, I a → round a = .ok (some b) → I b)
    (run : loop round fuel s = .ok (some t)) : I t ∧ round t = .ok none := by
  induction fuel generalizing s with
  | zero => cases run
  | succ fuel ih =>
    cases here : round s with
    | error e =>
      have failed : loop round (fuel + 1) s = .error e := by
        unfold loop
        rw [here]
        rfl
      rw [failed] at run
      cases run
    | ok next =>
      cases next with
      | none =>
        rw [loop_done here] at run
        cases run
        exact ⟨start, here⟩
      | some s' =>
        rw [loop_next here] at run
        exact ih (keeps s s' start here) run

end Fallible

end WhileLoop
