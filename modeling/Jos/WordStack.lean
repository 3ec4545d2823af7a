import Jos.FrameWords
import Mathlib.Data.List.Basic

/- Runs of words in memory: written upwards as the fields of a struct, or downwards as a stack
   that grows towards lower addresses. Here a Frame is memory by address. -/
namespace WordStack
open FrameWords

def half (m : Frame) (o : Nat) : Nat := (m o).toNat + 256 * (m (o + 1)).toNat

def long (m : Frame) (o : Nat) : Nat := half m o + 65536 * half m (o + 2)

theorem long_word (m : Frame) (i : Nat) : long m (4 * i) = word m i := by
  have third : 4 * i + 2 + 1 = 4 * i + 3 := rfl
  simp only [long, half, word, third]
  omega

theorem half_low (m : Frame) (i : Nat) : half m (4 * i) = word m i % 65536 := by
  have h0 := (m (4 * i)).toNat_lt
  have h1 := (m (4 * i + 1)).toNat_lt
  simp only [half, word]
  omega

theorem half_high (m : Frame) (i : Nat) : half m (4 * i + 2) = word m i / 65536 := by
  have h0 := (m (4 * i)).toNat_lt
  have h1 := (m (4 * i + 1)).toNat_lt
  have third : 4 * i + 2 + 1 = 4 * i + 3 := rfl
  simp only [half, word, third]
  omega

def setWords (m : Frame) (i : Nat) : List Nat → Frame
  | [] => m
  | v :: vs => setWords (setWord m i v) (i + 1) vs

/-- The words vs pushed one after the other on a stack whose top is index t. -/
def pushWords (m : Frame) (t : Nat) : List Nat → Frame
  | [] => m
  | v :: vs => pushWords (setWord m (t - 1) v) (t - 1) vs

section Read
variable {m : Frame} {i j t : Nat} {vs : List Nat}

theorem word_setWords_below (below : j < i) : word (setWords m i vs) j = word m j := by
  induction vs generalizing m i with
  | nil => rfl
  | cons v vs ih =>
    have differ : j ≠ i := Nat.ne_of_lt below
    rw [setWords, ih (by omega), word_setWord_of_ne m v differ]

theorem word_setWords (small : ∀ v ∈ vs, v < 4294967296) {k : Nat} (inside : k < vs.length) :
    word (setWords m i vs) (i + k) = vs.getD k 0 := by
  induction vs generalizing m i k with
  | nil => cases inside
  | cons v vs ih =>
    cases k with
    | zero =>
      rw [setWords, word_setWords_below (by omega), Nat.add_zero,
        word_setWord_same m i (small v (by simp))]
      rfl
    | succ k =>
      have later := ih (m := setWord m i v) (i := i + 1) (fun w hw => small w (by simp [hw]))
        (Nat.lt_of_succ_lt_succ inside)
      have index : i + (k + 1) = i + 1 + k := by omega
      rw [setWords, index, later]
      rfl

theorem word_pushWords_above (room : vs.length ≤ t) (above : t ≤ j) :
    word (pushWords m t vs) j = word m j := by
  induction vs generalizing m t with
  | nil => rfl
  | cons v vs ih =>
    simp only [List.length_cons] at room
    have differ : j ≠ t - 1 := by omega
    rw [pushWords, ih (by omega) (by omega), word_setWord_of_ne m v differ]

theorem word_pushWords (small : ∀ v ∈ vs, v < 4294967296) (room : vs.length ≤ t) {k : Nat}
    (inside : k < vs.length) : word (pushWords m t vs) (t - 1 - k) = vs.getD k 0 := by
  induction vs generalizing m t k with
  | nil => cases inside
  | cons v vs ih =>
    simp only [List.length_cons] at room
    cases k with
    | zero =>
      rw [pushWords, word_pushWords_above (by omega) (by omega), Nat.sub_zero,
        word_setWord_same m (t - 1) (small v (by simp))]
      rfl
    | succ k =>
      have later := ih (m := setWord m (t - 1) v) (t := t - 1) (fun w hw => small w (by simp [hw]))
        (by omega) (Nat.lt_of_succ_lt_succ inside)
      have index : t - 1 - (k + 1) = t - 1 - 1 - k := by omega
      rw [pushWords, index, later]
      rfl

end Read

end WordStack
