import Mathlib.Data.Nat.Bitwise

/- inc/mmu.h, inc/memlayout.h and inc/types.h. Addresses and entries are the numeric values of
   32-bit words; where a sum can leave the 32 bits the reduction is written out. -/
namespace JosLayout

abbrev PGSIZE : Nat := 4096
abbrev PTXSHIFT : Nat := 12
abbrev PDXSHIFT : Nat := 22
abbrev NPDENTRIES : Nat := 1024
abbrev NPTENTRIES : Nat := 1024
abbrev PTSIZE : Nat := PGSIZE * NPTENTRIES

abbrev PTE_P : Nat := 0x001
abbrev PTE_W : Nat := 0x002
abbrev PTE_U : Nat := 0x004

abbrev KERNBASE : Nat := 0xF0000000
abbrev IOPHYSMEM : Nat := 0x0A0000
abbrev EXTPHYSMEM : Nat := 0x100000
abbrev KSTACKTOP : Nat := KERNBASE
abbrev KSTKSIZE : Nat := 8 * PGSIZE
abbrev MMIOLIM : Nat := KSTACKTOP - PTSIZE
abbrev MMIOBASE : Nat := MMIOLIM - PTSIZE
abbrev ULIM : Nat := MMIOBASE
abbrev UVPT : Nat := ULIM - PTSIZE
abbrev UPAGES : Nat := UVPT - PTSIZE
abbrev UENVS : Nat := UPAGES - PTSIZE
abbrev UTOP : Nat := UENVS
abbrev USTACKTOP : Nat := UTOP - 2 * PGSIZE

abbrev LOG2NENV : Nat := 10
abbrev NENV : Nat := 1 <<< LOG2NENV

abbrev GD_KT : UInt16 := 0x08
abbrev GD_UT : UInt16 := 0x18
abbrev GD_UD : UInt16 := 0x20

abbrev WORD : Nat := 4294967296

def pgnum (la : Nat) : Nat := la >>> PTXSHIFT
def pdx (la : Nat) : Nat := (la >>> PDXSHIFT) &&& 0x3FF
def ptx (la : Nat) : Nat := (la >>> PTXSHIFT) &&& 0x3FF
def pgoff (la : Nat) : Nat := la &&& 0xFFF
def pgaddr (d t o : Nat) : Nat := (d <<< PDXSHIFT) ||| (t <<< PTXSHIFT) ||| o
def pteAddr (pte : Nat) : Nat := pte &&& 0xFFFFF000

def roundDown (a n : Nat) : Nat := a - a % n
def roundUp (a n : Nat) : Nat := roundDown ((a + n - 1) % WORD) n

def ppn (pte : Nat) : Nat := pgnum (pteAddr pte)

abbrev Present (pte : Nat) : Prop := pte &&& PTE_P ≠ 0
abbrev Writable (pte : Nat) : Prop := pte &&& PTE_W ≠ 0
abbrev UserBit (pte : Nat) : Prop := pte &&& PTE_U ≠ 0

abbrev userPdes : Nat := 955

/-- The directory slot through which a directory serves as its own page table. -/
abbrev uvptPde : Nat := 957

theorem userPdes_eq : userPdes = pdx UTOP := by decide
theorem uvptPde_eq : uvptPde = pdx UVPT := by decide

theorem and_low_mask (x k : Nat) : x &&& (2 ^ k - 1) = x % 2 ^ k := Nat.and_two_pow_sub_one_eq_mod x k

theorem pgnum_eq (la : Nat) : pgnum la = la / 4096 := by
  simp [pgnum, PTXSHIFT, Nat.shiftRight_eq_div_pow]

theorem pdx_eq (la : Nat) : pdx la = la / 4194304 % 1024 := by
  have mask := and_low_mask (la >>> 22) 10
  simpa [pdx, PDXSHIFT, Nat.shiftRight_eq_div_pow] using mask

theorem ptx_eq (la : Nat) : ptx la = la / 4096 % 1024 := by
  have mask := and_low_mask (la >>> 12) 10
  simpa [ptx, PTXSHIFT, Nat.shiftRight_eq_div_pow] using mask

theorem pgoff_eq (la : Nat) : pgoff la = la % 4096 := by
  have mask := and_low_mask la 12
  simpa [pgoff] using mask

theorem pdx_lt (la : Nat) : pdx la < 1024 := by
  rw [pdx_eq]
  exact Nat.mod_lt _ (by decide)

theorem ptx_lt (la : Nat) : ptx la < 1024 := by
  rw [ptx_eq]
  exact Nat.mod_lt _ (by decide)

theorem pgaddr_eq {d t : Nat} (table : t < 1024) : pgaddr d t 0 = d * 4194304 + t * 4096 := by
  have low : t <<< 12 < 2 ^ 22 := by
    rw [Nat.shiftLeft_eq]
    omega
  simp only [pgaddr, PDXSHIFT, PTXSHIFT, Nat.or_zero]
  rw [← Nat.shiftLeft_add_eq_or_of_lt low, Nat.shiftLeft_eq, Nat.shiftLeft_eq]

theorem pdx_pgaddr {d t : Nat} (dir : d < 1024) (table : t < 1024) : pdx (pgaddr d t 0) = d := by
  rw [pgaddr_eq table, pdx_eq]
  omega

theorem ptx_pgaddr {d t : Nat} (table : t < 1024) : ptx (pgaddr d t 0) = t := by
  rw [pgaddr_eq table, ptx_eq]
  omega

theorem pdx_user {va : Nat} (word : va < WORD) : pdx va < userPdes ↔ va < UTOP := by
  rw [pdx_eq]
  simp only [userPdes, UTOP, UENVS, UPAGES, UVPT, ULIM, MMIOBASE, MMIOLIM, KSTACKTOP, KERNBASE,
    PTSIZE, PGSIZE, NPTENTRIES, WORD] at *
  omega

theorem or_low_eq_add (a : Nat) {low : Nat} (small : low < 4096) :
    a * 4096 ||| low = a * 4096 + low := by
  have shifted := Nat.two_pow_add_eq_or_of_lt (i := 12) (b := low) (by simpa using small) a
  rw [Nat.mul_comm]
  exact shifted.symm

theorem or_lt_page {a b : Nat} (ha : a < 4096) (hb : b < 4096) : a ||| b < 4096 :=
  Nat.or_lt_two_pow (n := 12) ha hb

theorem ppn_eq (x : Nat) : ppn x = x / 4096 % 1048576 := by
  have mask := and_low_mask (x >>> 12) 20
  have high : (0xFFFFF000 : Nat) >>> 12 = 2 ^ 20 - 1 := by decide
  simp only [ppn, pgnum, pteAddr, PTXSHIFT, Nat.shiftRight_and_distrib, high, mask]
  simp [Nat.shiftRight_eq_div_pow]

theorem and_flag (x : Nat) {f : Nat} (small : f < 4096) : x &&& f = (x % 4096) &&& f := by
  have keep : f &&& (2 ^ 12 - 1) = f := by
    rw [and_low_mask]
    exact Nat.mod_eq_of_lt small
  calc x &&& f = x &&& (f &&& (2 ^ 12 - 1)) := by rw [keep]
    _ = (x &&& (2 ^ 12 - 1)) &&& f := by rw [Nat.and_comm f, Nat.and_assoc]
    _ = (x % 2 ^ 12) &&& f := by rw [and_low_mask]

theorem present_iff (x : Nat) : Present x ↔ x % 2 = 1 := by
  simp only [Present, PTE_P, Nat.and_one_is_mod]
  omega

section Entry
variable {pp low : Nat}

/-- An entry is the page's address or-ed with flags below the page size. -/
theorem ppn_entry (room : pp < 1048576) (small : low < 4096) : ppn (pp * 4096 ||| low) = pp := by
  rw [ppn_eq, or_low_eq_add pp small]
  omega

theorem entry_lt (room : pp < 1048576) (small : low < 4096) : pp * 4096 ||| low < WORD := by
  rw [or_low_eq_add pp small]
  simp only [WORD]
  omega

theorem and_entry (small : low < 4096) {f : Nat} (flag : f < 4096) :
    (pp * 4096 ||| low) &&& f = low &&& f := by
  rw [and_flag _ flag, or_low_eq_add pp small, and_flag low flag]
  congr 1
  omega

theorem present_entry (small : low < 4096) (odd : low % 2 = 1) : Present (pp * 4096 ||| low) := by
  rw [present_iff, or_low_eq_add pp small]
  omega

end Entry

theorem or_one_odd (a : Nat) : (a ||| PTE_P) % 2 = 1 := by
  simp [PTE_P]

theorem ppn_or_flags {x perm : Nat} (word : x < WORD) (small : perm < 4096) :
    ppn (x ||| perm) = ppn x ∧ (Present x → Present (x ||| perm)) ∧ x ||| perm < WORD := by
  have low : x % 4096 ||| perm < 4096 := or_lt_page (Nat.mod_lt x (by decide)) small
  have split : x = (x / 4096) * 4096 ||| (x % 4096) := by
    rw [or_low_eq_add _ (Nat.mod_lt x (by decide))]
    omega
  have room : x / 4096 < 1048576 := by
    simp only [WORD] at word
    omega
  have joined : x ||| perm = (x / 4096) * 4096 ||| (x % 4096 ||| perm) := by
    conv_lhs => rw [split]
    rw [Nat.or_assoc]
  refine ⟨?_, ?_, ?_⟩
  · rw [joined, ppn_entry room low, ppn_eq]
    omega
  · intro present bare
    apply present
    have both : (x ||| perm) &&& PTE_P = (x &&& PTE_P) ||| (perm &&& PTE_P) :=
      Nat.and_or_distrib_right x perm PTE_P
    rw [both, Nat.or_eq_zero_iff] at bare
    exact bare.1
  · rw [joined]
    exact entry_lt room low

theorem roundDown_eq (a n : Nat) : roundDown a n = a / n * n := by
  have := Nat.div_add_mod' a n
  simp only [roundDown]
  omega

end JosLayout
