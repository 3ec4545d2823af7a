import Mathlib.Order.Basic
import Mathlib.Tactic.Cases

/- Looking for the latest index in a range that has a property, from the upper end down. -/
namespace BackScan
variable {m : Type → Type} [Monad m]

/-- The place where a scan down from i ends: at the first index that stops it, or one below the
    last of the n indices it may look at. -/
def back (stop : Int → m Bool) : Nat → Int → m Int
  | 0, i => pure i
  | n + 1, i => do
    if ← stop i then pure i else back stop n (i - 1)

structure Latest (P : Int → Prop) (lo hi i : Int) : Prop where
  low : lo ≤ i
  high : i ≤ hi
  here : P i
  none_after : ∀ j, i < j → j ≤ hi → ¬ P j

section Latest
variable {P : Int → Prop} {lo hi i j : Int}

theorem Latest.le (latest : Latest P lo hi i) (bound : j ≤ hi) (here : P j) : j ≤ i := by
  by_contra after
  exact latest.none_after j (by omega) bound here

theorem Latest.unique (a : Latest P lo hi i) (b : Latest P lo hi j) : i = j :=
  Int.le_antisymm (b.le a.high a.here) (a.le b.high b.here)

theorem latest_exists (some_index : ∃ j, lo ≤ j ∧ j ≤ hi ∧ P j) : ∃ i, Latest P lo hi i := by
  obtain ⟨j, low, high, here⟩ := some_index
  obtain ⟨n, rfl⟩ : ∃ n : Nat, hi = j + n := ⟨(hi - j).toNat, by omega⟩
  clear high
  induction n with
  | zero => exact ⟨j, low, by simp, here, fun k after bound => by simp at bound; omega⟩
  | succ n ih =>
    by_cases top : P (j + (n + 1 : Nat))
    · exact ⟨_, by omega, Int.le_refl _, top, fun k after bound => by omega⟩
    · obtain ⟨i, latest⟩ := ih
      refine ⟨i, latest.low, ?_, latest.here, ?_⟩
      · have := latest.high
        omega
      · intro k after bound held
        by_cases last : k = j + (n + 1 : Nat)
        · exact top (last ▸ held)
        · exact latest.none_after k after (by omega) held

end Latest

section Pure
variable {stop : Int → Bool} {P : Int → Prop} {n : Nat} {lo hi i : Int}

theorem back_here (n : Nat) (here : stop hi = true) : back (m := Id) stop (n + 1) hi = hi := by
  unfold back
  exact congrArg (fun b : Bool => if b then hi else back (m := Id) stop n (hi - 1)) here

theorem back_next (n : Nat) (next : stop hi = false) :
    back (m := Id) stop (n + 1) hi = back (m := Id) stop n (hi - 1) := by
  conv => lhs; unfold back
  exact congrArg (fun b : Bool => if b then hi else back (m := Id) stop n (hi - 1)) next

/-- The scan ends at the latest index with the property, or below the range if there is none. -/
theorem back_spec (stops : ∀ i, stop i = true ↔ P i) (ends : back (m := Id) stop n hi = i) :
    Latest P (hi - n + 1) hi i ∨ i = hi - n ∧ ∀ j, i < j → j ≤ hi → ¬ P j := by
  induction n generalizing hi with
  | zero =>
    have same : hi = i := ends
    exact Or.inr ⟨by omega, fun j after bound => by omega⟩
  | succ n ih =>
    by_cases top : P hi
    · rw [back_here n ((stops hi).mpr top)] at ends
      subst ends
      exact Or.inl ⟨by omega, Int.le_refl _, top, fun j after bound => by omega⟩
    · rw [back_next n (Bool.eq_false_iff.mpr fun h => top ((stops hi).mp h))] at ends
      have others : ∀ j, j ≤ hi → P j → j ≤ hi - 1 := by
        intro j bound held
        by_contra last
        obtain rfl : j = hi := by omega
        exact top held
      rcases ih ends with latest | ⟨below, none_here⟩
      · refine Or.inl ⟨?_, ?_, latest.here, ?_⟩
        · have := latest.low
          omega
        · have := latest.high
          omega
        · exact fun j after bound held => latest.none_after j after (others j bound held) held
      · refine Or.inr ⟨by omega, ?_⟩
        exact fun j after bound held => none_here j after (others j bound held) held

end Pure

end BackScan
