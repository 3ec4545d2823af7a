import Mathlib.Data.List.Lex
import Mathlib.Algebra.Order.Group.Int

/- Comparing two lists by the first place where they differ. The end of a list counts as 0, below
   every value in it; then the sign of the difference is the lexicographic order. -/
namespace FirstDifference
variable {α : Type} (value : α → Int)

def difference : List α → List α → Int
  | [], [] => 0
  | [], b :: _ => 0 - value b
  | a :: _, [] => value a - 0
  | a :: s, b :: t => if value a = value b then difference s t else value a - value b

section Laws
variable {value} {s t u : List α} {a b : α}

theorem difference_same (same : value a = value b) (s t : List α) :
    difference value (a :: s) (b :: t) = difference value s t := if_pos same

theorem difference_apart (apart : value a ≠ value b) (s t : List α) :
    difference value (a :: s) (b :: t) = value a - value b := if_neg apart

theorem difference_swap (s t : List α) : difference value t s = - difference value s t := by
  induction s generalizing t with
  | nil =>
    cases t with
    | nil => rfl
    | cons b t =>
      unfold difference
      omega
  | cons a s ih =>
    cases t with
    | nil =>
      unfold difference
      omega
    | cons b t =>
      by_cases same : value a = value b
      · rw [difference_same same, difference_same same.symm]
        exact ih t
      · rw [difference_apart same, difference_apart (Ne.symm same)]
        omega

theorem difference_neg_iff (s_positive : ∀ a ∈ s, 0 < value a) (t_positive : ∀ b ∈ t, 0 < value b) :
    difference value s t < 0 ↔ s.map value < t.map value := by
  induction s generalizing t with
  | nil =>
    cases t with
    | nil => exact iff_of_false (Int.lt_irrefl 0) (List.not_lt_nil _)
    | cons b t =>
      have positive := t_positive b List.mem_cons_self
      unfold difference
      exact iff_of_true (by omega) (List.nil_lt_cons _ _)
  | cons a s ih =>
    have positive := s_positive a List.mem_cons_self
    cases t with
    | nil =>
      unfold difference
      exact iff_of_false (by omega) (List.not_lt_nil _)
    | cons b t =>
      rw [List.map_cons, List.map_cons, List.cons_lt_cons_iff]
      by_cases same : value a = value b
      · rw [difference_same same, ih (fun x listed => s_positive x (List.mem_cons_of_mem a listed))
          (fun x listed => t_positive x (List.mem_cons_of_mem b listed))]
        exact ⟨fun less => Or.inr ⟨same, less⟩,
          fun either => either.elim (fun less => absurd same less.ne) And.right⟩
      · rw [difference_apart same]
        exact ⟨fun less => Or.inl (by omega), fun either => either.elim (fun less => by omega)
          fun both => absurd both.1 same⟩

theorem difference_pos_iff (s_positive : ∀ a ∈ s, 0 < value a) (t_positive : ∀ b ∈ t, 0 < value b) :
    0 < difference value s t ↔ t.map value < s.map value := by
  rw [← difference_neg_iff t_positive s_positive, difference_swap s t]
  omega

theorem difference_zero_iff (s_positive : ∀ a ∈ s, 0 < value a) (t_positive : ∀ b ∈ t, 0 < value b) :
    difference value s t = 0 ↔ s.map value = t.map value := by
  have below := difference_neg_iff s_positive t_positive
  have above := difference_pos_iff s_positive t_positive
  rcases lt_trichotomy (s.map value) (t.map value) with less | same | greater
  · exact iff_of_false (by have := below.mpr less; omega) less.ne
  · have not_below : ¬ difference value s t < 0 := fun h => absurd same (below.mp h).ne
    have not_above : ¬ 0 < difference value s t := fun h => absurd same.symm (above.mp h).ne
    exact iff_of_true (by omega) same
  · exact iff_of_false (by have := above.mpr greater; omega) greater.ne'

theorem difference_nonpos_iff (s_positive : ∀ a ∈ s, 0 < value a) (t_positive : ∀ b ∈ t, 0 < value b) :
    difference value s t ≤ 0 ↔ s.map value ≤ t.map value := by
  rw [← not_lt, ← not_lt, difference_pos_iff s_positive t_positive]

end Laws

end FirstDifference
