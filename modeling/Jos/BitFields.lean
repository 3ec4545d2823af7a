import Mathlib.Data.Nat.Bitwise

/- A word made of bit-fields, the first one lowest. A field is its width and its value, and a value
   that is too wide for it loses its high bits. -/
namespace BitFields

def width : List (Nat × Nat) → Nat
  | [] => 0
  | (w, _) :: fs => w + width fs

def pack : List (Nat × Nat) → Nat
  | [] => 0
  | (w, v) :: fs => v % 2 ^ w + 2 ^ w * pack fs

def field (x lo w : Nat) : Nat := x / 2 ^ lo % 2 ^ w

theorem pack_lt (fs : List (Nat × Nat)) : pack fs < 2 ^ width fs := by
  induction fs with
  | nil => simp [pack, width]
  | cons f fs ih =>
    obtain ⟨w, v⟩ := f
    have low := Nat.mod_lt v (Nat.two_pow_pos w)
    have room := Nat.mul_le_mul_left (2 ^ w) (Nat.succ_le_of_lt ih)
    simp only [pack, width, Nat.pow_add, Nat.mul_succ] at *
    omega

theorem pack_append (fs gs : List (Nat × Nat)) :
    pack (fs ++ gs) = pack fs + 2 ^ width fs * pack gs := by
  induction fs with
  | nil => simp [pack, width]
  | cons f fs ih =>
    obtain ⟨w, v⟩ := f
    simp only [List.cons_append, pack, width, ih, Nat.pow_add, Nat.mul_add, Nat.mul_assoc, Nat.add_assoc]

/-- Every field is read back, as far as it has room. -/
theorem field_pack (fs gs : List (Nat × Nat)) (w v : Nat) :
    field (pack (fs ++ (w, v) :: gs)) (width fs) w = v % 2 ^ w := by
  unfold field
  rw [pack_append, Nat.add_mul_div_left _ _ (Nat.two_pow_pos _), Nat.div_eq_of_lt (pack_lt fs),
    Nat.zero_add, pack, Nat.add_mul_mod_self_left, Nat.mod_mod]

theorem field_add (x lo w w' : Nat) :
    field x lo (w + w') = field x lo w + 2 ^ w * field x (lo + w) w' := by
  unfold field
  rw [Nat.pow_add, Nat.mod_mul, Nat.div_div_eq_div_mul, ← Nat.pow_add]

end BitFields
