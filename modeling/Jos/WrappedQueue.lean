import Mathlib.Logic.Function.Basic
import Mathlib.Data.List.Basic
import Mathlib.Data.Nat.ModEq
import Mathlib.Tactic.Ring

/- A queue in an array of size cells, with a read index and a write index that both return to 0 at the
   end of the array and no count of what is stored. Equal indices mean an empty queue, so size - 1
   elements fit. A write into a full queue is not refused. -/
namespace WrappedQueue
variable {α : Type} {size : Nat}

structure Buffer (α : Type) where
  cell : Nat → α
  rpos : Nat
  wpos : Nat

def advance (size i : Nat) : Nat := if i + 1 = size then 0 else i + 1

def push (size : Nat) (r : Buffer α) (a : α) : Buffer α :=
  { r with cell := Function.update r.cell r.wpos a, wpos := advance size r.wpos }

def pop (size : Nat) (r : Buffer α) : Option (α × Buffer α) :=
  if r.rpos ≠ r.wpos then some (r.cell r.rpos, { r with rpos := advance size r.rpos }) else none

/-- xs was pushed since the queue was empty and nothing was popped since: the write index is
    xs.length cells on and the cells hold the last size elements of xs. -/
structure Trail (size : Nat) (r : Buffer α) (xs : List α) : Prop where
  start : r.rpos < size
  write : r.wpos = (r.rpos + xs.length) % size
  cells : ∀ i (h : i < xs.length), xs.length ≤ i + size → r.cell ((r.rpos + i) % size) = xs[i]

/-- The queue holds exactly xs, oldest first. -/
structure Holds (size : Nat) (r : Buffer α) (xs : List α) : Prop where
  trail : Trail size r xs
  fits : xs.length < size

theorem advance_eq {i : Nat} (small : i < size) : advance size i = (i + 1) % size := by
  unfold advance
  split
  · rename_i last
    rw [last, Nat.mod_self]
  · exact (Nat.mod_eq_of_lt (by omega)).symm

theorem advance_lt {i : Nat} (small : i < size) : advance size i < size := by
  rw [advance_eq small]
  exact Nat.mod_lt _ (by omega)

theorem Trail.write_lt {r : Buffer α} {xs : List α} (h : Trail size r xs) : r.wpos < size := by
  rw [h.write]
  exact Nat.mod_lt _ (by have := h.start; omega)

theorem cell_ne {base i j : Nat} (less : i < j) (turn : j < i + size) :
    (base + i) % size ≠ (base + j) % size := by
  intro same
  have gap : (base + j) % size = (base + i + (j - i)) % size := by congr 1; omega
  have zero : (j - i) % size = 0 := by
    have shifted : (base + i + 0) % size = (base + i + (j - i)) % size := by
      rw [Nat.add_zero, same, gap]
    exact (Nat.ModEq.add_left_cancel' (base + i) shifted).symm
  rw [Nat.mod_eq_of_lt (by omega)] at zero
  omega

theorem push_trail {r : Buffer α} {xs : List α} (h : Trail size r xs) (a : α) :
    Trail size (push size r a) (xs ++ [a]) := by
  constructor
  · exact h.start
  · change advance size r.wpos = _
    rw [advance_eq h.write_lt, h.write, List.length_append, List.length_singleton, Nat.mod_add_mod]
    rfl
  · intro i bound recent
    change Function.update r.cell r.wpos a ((r.rpos + i) % size) = _
    simp only [List.length_append, List.length_singleton] at bound recent
    rw [h.write]
    by_cases last : i = xs.length
    · subst last
      simp
    · have before : i < xs.length := by omega
      rw [Function.update_of_ne (cell_ne before (by omega)), h.cells i before (by omega)]
      exact (List.getElem_append_left before).symm

theorem pushes_trail {r : Buffer α} {xs : List α} (h : Trail size r xs) (ys : List α) :
    Trail size (ys.foldl (push size) r) (xs ++ ys) := by
  induction ys generalizing r xs with
  | nil => simpa using h
  | cons y rest ih =>
    have grown := ih (push_trail h y)
    simpa using grown

/-- What is left of an overfull queue: whole turns of the writer are forgotten. -/
theorem trail_holds {r : Buffer α} {xs : List α} (h : Trail size r xs) :
    Holds size r (xs.drop (xs.length - xs.length % size)) := by
  have positive : 0 < size := by have := h.start; omega
  have turns : xs.length - xs.length % size = size * (xs.length / size) := by
    have := Nat.div_add_mod xs.length size
    omega
  have rest := Nat.mod_lt xs.length positive
  have within := Nat.mod_le xs.length size
  have kept : (xs.drop (xs.length - xs.length % size)).length = xs.length % size := by
    rw [List.length_drop]
    omega
  refine ⟨⟨h.start, ?_, ?_⟩, by omega⟩
  · rw [kept, h.write, Nat.add_mod_mod]
  · intro i bound _
    rw [List.getElem_drop, ← h.cells (xs.length - xs.length % size + i) (by omega) (by omega), turns]
    have turned : r.rpos + (size * (xs.length / size) + i) =
        r.rpos + i + size * (xs.length / size) := by ring
    rw [turned, Nat.add_mul_mod_self_left]

theorem pushes_hold {r : Buffer α} {xs ys : List α} (h : Holds size r xs)
    (fits : (xs ++ ys).length < size) : Holds size (ys.foldl (push size) r) (xs ++ ys) :=
  ⟨pushes_trail h.trail ys, fits⟩

theorem pop_nil {r : Buffer α} (h : Holds size r []) : pop size r = none := by
  have write := h.trail.write
  rw [List.length_nil, Nat.add_zero, Nat.mod_eq_of_lt h.trail.start] at write
  exact if_neg (by simp [write])

theorem pop_cons {r : Buffer α} {x : α} {xs : List α} (h : Holds size r (x :: xs)) :
    ∃ r', pop size r = some (x, r') ∧ Holds size r' xs := by
  have start := h.trail.start
  have fits := h.fits
  have write := h.trail.write
  simp only [List.length_cons] at fits write
  have differ : r.rpos ≠ r.wpos := by
    have apart : (r.rpos + 0) % size ≠ (r.rpos + (xs.length + 1)) % size := cell_ne (by omega) (by omega)
    rw [Nat.add_zero, Nat.mod_eq_of_lt start] at apart
    rw [write]
    exact apart
  have first : r.cell r.rpos = x := by
    have cell := h.trail.cells 0 (by simp) (by simp; omega)
    rwa [Nat.add_zero, Nat.mod_eq_of_lt start] at cell
  refine ⟨{ r with rpos := advance size r.rpos }, ?_, ⟨⟨advance_lt start, ?_, ?_⟩, by omega⟩⟩
  · rw [pop, if_pos differ, first]
  · change r.wpos = (advance size r.rpos + xs.length) % size
    rw [advance_eq start, Nat.mod_add_mod, write]
    congr 1
    omega
  · intro i bound _
    change r.cell ((advance size r.rpos + i) % size) = xs[i]
    have cell := h.trail.cells (i + 1) (by simp; omega) (by simp; omega)
    rw [advance_eq start, Nat.mod_add_mod, show r.rpos + 1 + i = r.rpos + (i + 1) by omega, cell]
    rfl

end WrappedQueue
