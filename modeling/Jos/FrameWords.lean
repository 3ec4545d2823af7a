import Mathlib.Logic.Function.Basic
import Mathlib.Algebra.Order.Ring.Nat

/- A frame is the bytes of one physical page by offset. Words are four bytes, least
   significant first; word i starts at offset 4 * i. -/
namespace FrameWords

abbrev Frame : Type := Nat → UInt8

def zeroFrame : Frame := fun _ => 0

def word (f : Frame) (i : Nat) : Nat :=
  (f (4 * i)).toNat + 256 * (f (4 * i + 1)).toNat + 65536 * (f (4 * i + 2)).toNat +
    16777216 * (f (4 * i + 3)).toNat

/-- Byte k of the four bytes of v. -/
def byteOf (v k : Nat) : UInt8 := UInt8.ofNat (v / 256 ^ k)

def setWord (f : Frame) (i v : Nat) : Frame :=
  fun o => if o / 4 = i then byteOf v (o % 4) else f o

theorem word_lt (f : Frame) (i : Nat) : word f i < 4294967296 := by
  have h0 := (f (4 * i)).toNat_lt
  have h1 := (f (4 * i + 1)).toNat_lt
  have h2 := (f (4 * i + 2)).toNat_lt
  have h3 := (f (4 * i + 3)).toNat_lt
  simp only [word]
  omega

@[simp] theorem word_zeroFrame (i : Nat) : word zeroFrame i = 0 := by simp [word, zeroFrame]

theorem byteOf_toNat (v k : Nat) : (byteOf v k).toNat = v / 256 ^ k % 256 := by simp [byteOf]

@[simp] theorem word_setWord_same (f : Frame) (i : Nat) {v : Nat} (small : v < 4294967296) :
    word (setWord f i v) i = v := by
  have q0 : 4 * i / 4 = i := by omega
  have q1 : (4 * i + 1) / 4 = i := by omega
  have q2 : (4 * i + 2) / 4 = i := by omega
  have q3 : (4 * i + 3) / 4 = i := by omega
  have r0 : 4 * i % 4 = 0 := by omega
  have r1 : (4 * i + 1) % 4 = 1 := by omega
  have r2 : (4 * i + 2) % 4 = 2 := by omega
  have r3 : (4 * i + 3) % 4 = 3 := by omega
  simp only [word, setWord, q0, q1, q2, q3, r0, r1, r2, r3, if_true, byteOf_toNat]
  omega

theorem word_setWord_of_ne (f : Frame) {i j : Nat} (v : Nat) (differ : j ≠ i) :
    word (setWord f i v) j = word f j := by
  have q0 : 4 * j / 4 = j := by omega
  have q1 : (4 * j + 1) / 4 = j := by omega
  have q2 : (4 * j + 2) / 4 = j := by omega
  have q3 : (4 * j + 3) / 4 = j := by omega
  simp only [word, setWord, q0, q1, q2, q3, differ, if_false]

end FrameWords
