import Mathlib.Data.Nat.Digits.Defs
import Mathlib.Data.Nat.Digits.Lemmas

/- Positional numerals, most significant digit first and without leading zeros. -/
namespace Numerals
variable {base : Nat}

def numeral (base n : Nat) : List Nat := if n = 0 then [0] else (Nat.digits base n).reverse

def readFrom (base v : Nat) (ds : List Nat) : Nat := ds.foldl (fun v d => v * base + d) v

theorem numeral_small {n : Nat} (small : n < base) : numeral base n = [n] := by
  unfold numeral
  by_cases zero : n = 0
  · rw [if_pos zero, zero]
  · rw [if_neg zero, Nat.digits_of_lt base n zero small]
    rfl

theorem numeral_step {n : Nat} (two : 1 < base) (large : base ≤ n) :
    numeral base n = numeral base (n / base) ++ [n % base] := by
  have some_left : 0 < n / base := Nat.div_pos large (by omega)
  unfold numeral
  rw [if_neg (by omega), if_neg (by omega), Nat.digits_def' two (by omega), List.reverse_cons]

/-- Induction along the digits, from the most significant one. -/
@[elab_as_elim]
theorem numeral_induct {motive : Nat → Prop} (two : 1 < base) (small : ∀ n, n < base → motive n)
    (large : ∀ n, base ≤ n → motive (n / base) → motive n) (n : Nat) : motive n := by
  induction n using Nat.strongRecOn with
  | ind n ih =>
    by_cases below : n < base
    · exact small n below
    · have least : base ≤ n := by omega
      exact large n least (ih (n / base) (Nat.div_lt_self (by omega) two))

theorem numeral_lt (two : 1 < base) (n : Nat) : ∀ d ∈ numeral base n, d < base := by
  induction n using numeral_induct two with
  | small n small =>
    intro d listed
    rw [numeral_small small, List.mem_singleton] at listed
    rw [listed]
    exact small
  | large n large ih =>
    intro d listed
    rw [numeral_step two large, List.mem_append, List.mem_singleton] at listed
    rcases listed with before | last
    · exact ih d before
    · rw [last]
      exact Nat.mod_lt n (by omega)

theorem numeral_length_pos (two : 1 < base) (n : Nat) : 0 < (numeral base n).length := by
  induction n using numeral_induct two with
  | small n small =>
    rw [numeral_small small]
    exact Nat.one_pos
  | large n large _ =>
    rw [numeral_step two large, List.length_append]
    exact Nat.succ_pos _

theorem numeral_length_le (two : 1 < base) (n : Nat) :
    ∀ k, n < base ^ (k + 1) → (numeral base n).length ≤ k + 1 := by
  induction n using numeral_induct two with
  | small n small =>
    intro k _
    rw [numeral_small small]
    exact Nat.succ_le_succ (Nat.zero_le k)
  | large n large ih =>
    intro k bound
    cases k with
    | zero =>
      rw [Nat.zero_add, Nat.pow_one] at bound
      omega
    | succ k =>
      have shorter : n / base < base ^ (k + 1) := by
        rw [Nat.div_lt_iff_lt_mul (by omega), ← Nat.pow_succ]
        exact bound
      rw [numeral_step two large, List.length_append]
      exact Nat.succ_le_succ (ih k shorter)

/-- Reading the numeral of n gives n back. -/
theorem readFrom_numeral (two : 1 < base) (n : Nat) : readFrom base 0 (numeral base n) = n := by
  induction n using numeral_induct two with
  | small n small =>
    rw [numeral_small small]
    change 0 * base + n = n
    rw [Nat.zero_mul, Nat.zero_add]
  | large n large ih =>
    unfold readFrom at ih ⊢
    rw [numeral_step two large, List.foldl_append, ih]
    exact Nat.div_add_mod' n base

theorem readFrom_zeros (n : Nat) (ds : List Nat) :
    readFrom base 0 (List.replicate n 0 ++ ds) = readFrom base 0 ds := by
  induction n with
  | zero => rfl
  | succ n ih =>
    rw [List.replicate_succ, List.cons_append]
    change readFrom base (0 * base + 0) _ = _
    rw [Nat.zero_mul]
    exact ih

theorem readFrom_ge (positive : 0 < base) (v : Nat) (ds : List Nat) : v ≤ readFrom base v ds := by
  induction ds generalizing v with
  | nil => exact Nat.le_refl v
  | cons d ds ih =>
    have first : v ≤ v * base + d := Nat.le_add_right_of_le (Nat.le_mul_of_pos_right v positive)
    exact Nat.le_trans first (ih (v * base + d))

theorem numeral_head (two : 1 < base) (n : Nat) : 0 < n → ∃ d ds, numeral base n = d :: ds ∧ 0 < d := by
  induction n using numeral_induct two with
  | small n small => exact fun positive => ⟨n, [], numeral_small small, positive⟩
  | large n large ih =>
    intro _
    obtain ⟨d, ds, split, positive⟩ := ih (Nat.div_pos large (by omega))
    exact ⟨d, ds ++ [n % base], by rw [numeral_step two large, split, List.cons_append], positive⟩

end Numerals
