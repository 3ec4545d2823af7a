import Jos.Env
import Mathlib.Logic.Function.Iterate

/- The ids env_alloc gives to a slot: a generation of 19 bits above the index of the slot. -/
namespace JosEnvIds
open JosLayout JosMachine JosEnv

/-- How many generations a slot has before they start again. -/
abbrev GENERATIONS : Nat := 524287

/-- The id of slot e in generation g. -/
def IdOf (e g : Nat) (id : EnvId) : Prop := 1 ≤ g ∧ g ≤ GENERATIONS ∧ id.toNat = g * 4096 + e

def nextGeneration (g : Nat) : Nat := if g = GENERATIONS then 1 else g + 1

section Arithmetic

theorem and_clear_low {n : Nat} (word : n < 2 ^ 32) : n &&& 4294966272 = n / 1024 * 1024 := by
  have high : (n &&& 4294966272) / 1024 = n / 1024 := by
    have shifted : (n &&& 4294966272) >>> 10 = (n >>> 10) &&& (2 ^ 22 - 1) := by
      rw [Nat.shiftRight_and_distrib]
      rfl
    rw [Nat.and_two_pow_sub_one_eq_mod, Nat.shiftRight_eq_div_pow, Nat.shiftRight_eq_div_pow] at shifted
    omega
  have low : (n &&& 4294966272) % 1024 = 0 := by
    have masked : (n &&& 4294966272) &&& (2 ^ 10 - 1) = 0 := by
      rw [Nat.and_assoc]
      simp
    rwa [Nat.and_two_pow_sub_one_eq_mod] at masked
  omega

theorem idOf_envx {e g : Nat} {id : EnvId} (slot : e < NENV) (named : IdOf e g id) : envx id = e := by
  obtain ⟨_, _, value⟩ := named
  have mask : (BitVec.ofNat 32 NENV - 1 : BitVec 32) = 1023#32 := by decide
  unfold envx
  rw [mask, BitVec.toNat_and, value]
  have low : (g * 4096 + e) &&& (2 ^ 10 - 1) = (g * 4096 + e) % 2 ^ 10 :=
    Nat.and_two_pow_sub_one_eq_mod _ _
  simp only [NENV, LOG2NENV] at slot
  change (g * 4096 + e) &&& (2 ^ 10 - 1) = e
  rw [low]
  omega

theorem idOf_positive {e g : Nat} {id : EnvId} (slot : e < NENV) (named : IdOf e g id) :
    0 < id.toInt := by
  obtain ⟨first, last, value⟩ := named
  simp only [NENV, LOG2NENV, GENERATIONS] at slot last
  rw [BitVec.toInt_eq_toNat_cond, value]
  split <;> omega

theorem idOf_ne {e g g' : Nat} {id id' : EnvId} (named : IdOf e g id) (named' : IdOf e g' id')
    (differ : g ≠ g') : id ≠ id' := by
  intro same
  have value := named.2.2
  rw [same, named'.2.2] at value
  omega

theorem generation_toNat {old : EnvId} {h e : Nat} (value : old.toNat + 4096 = h * 4096 + e)
    (slot : e < 1024) (word : h ≤ 524288) :
    ((old + BitVec.ofNat 32 (1 <<< ENVGENSHIFT)) &&& ~~~(BitVec.ofNat 32 NENV - 1)).toNat =
      h * 4096 := by
  have mask : ~~~(BitVec.ofNat 32 NENV - 1) = 4294966272#32 := by decide
  have shift : BitVec.ofNat 32 (1 <<< ENVGENSHIFT) = 4096#32 := by decide
  have sum : (old + 4096#32).toNat = h * 4096 + e := by
    rw [BitVec.toNat_add]
    change (old.toNat + 4096) % 2 ^ 32 = h * 4096 + e
    omega
  rw [mask, shift, BitVec.toNat_and, sum]
  change (h * 4096 + e) &&& 4294966272 = h * 4096
  rw [and_clear_low (by omega)]
  omega

theorem with_index {x : BitVec 32} {h e : Nat} (value : x.toNat = h * 4096) (slot : e < 1024) :
    (x ||| BitVec.ofNat 32 e).toNat = h * 4096 + e := by
  have small : e % 2 ^ 32 = e := Nat.mod_eq_of_lt (by omega)
  rw [BitVec.toNat_or, BitVec.toNat_ofNat, small, value]
  exact or_low_eq_add h (by omega)

theorem nextEnvId_toNat {old : EnvId} {h e : Nat} (value : old.toNat + 4096 = h * 4096 + e)
    (slot : e < 1024) (some_bits : 1 ≤ h) (word : h ≤ 524288) (e' : Nat) (slot' : e' < 1024) :
    (nextEnvId old e').toNat = (if h = 524288 then 1 else h) * 4096 + e' := by
  have generation := generation_toNat value slot word
  unfold nextEnvId
  dsimp only
  apply with_index _ slot'
  by_cases wrapped : h = 524288
  · subst wrapped
    have negative : ((old + BitVec.ofNat 32 (1 <<< ENVGENSHIFT)) &&&
        ~~~(BitVec.ofNat 32 NENV - 1)).toInt ≤ 0 := by
      rw [BitVec.toInt_eq_toNat_cond, generation]
      decide
    rw [if_pos negative, if_pos rfl]
    rfl
  · have positive : ¬ ((old + BitVec.ofNat 32 (1 <<< ENVGENSHIFT)) &&&
        ~~~(BitVec.ofNat 32 NENV - 1)).toInt ≤ 0 := by
      rw [BitVec.toInt_eq_toNat_cond, generation]
      split <;> omega
    rw [if_neg positive, if_neg wrapped, generation]

theorem nextEnvId_first {e : Nat} (slot : e < NENV) : IdOf e 1 (nextEnvId 0 e) := by
  refine ⟨Nat.le_refl 1, by decide, ?_⟩
  exact nextEnvId_toNat (h := 1) (e := 0) rfl (by decide) (by decide) (by decide) e slot

theorem nextEnvId_next {e g : Nat} {old : EnvId} (slot : e < NENV) (named : IdOf e g old) :
    IdOf e (nextGeneration g) (nextEnvId old e) := by
  obtain ⟨first, last, value⟩ := named
  simp only [GENERATIONS] at last
  have shifted : old.toNat + 4096 = (g + 1) * 4096 + e := by omega
  have next := nextEnvId_toNat shifted slot (by omega) (by omega) e slot
  unfold IdOf nextGeneration
  simp only [GENERATIONS]
  by_cases full : g = 524287
  · subst full
    rw [if_pos rfl] at next
    rw [if_pos rfl]
    exact ⟨by decide, by decide, next⟩
  · have short : g + 1 ≠ 524288 := by omega
    rw [if_neg short] at next
    rw [if_neg full]
    exact ⟨by omega, by omega, next⟩

end Arithmetic

section Orbit

theorem nextGeneration_iterate {g : Nat} (first : 1 ≤ g) (last : g ≤ GENERATIONS) (k : Nat) :
    nextGeneration^[k] g = (g - 1 + k) % GENERATIONS + 1 := by
  induction k with
  | zero =>
    simp only [Function.iterate_zero_apply, GENERATIONS] at *
    omega
  | succ k ih =>
    rw [Function.iterate_succ_apply', ih]
    unfold nextGeneration
    simp only [GENERATIONS]
    split <;> omega

/-- A generation does not come back before all the others have been. -/
theorem nextGeneration_fresh {g k : Nat} (first : 1 ≤ g) (last : g ≤ GENERATIONS) (some_more : 0 < k)
    (few : k < GENERATIONS) : nextGeneration^[k] g ≠ g := by
  rw [nextGeneration_iterate first last]
  simp only [GENERATIONS] at *
  omega

end Orbit

end JosEnvIds
