import Jos.StaticMap

/- What kern_pgdir maps above UTOP once mem_init is done: the two windows users may read, the
   kernel stack, and physical memory at KERNBASE. -/
namespace JosKernelView
open JosLayout JosMachine JosPmap JosBoot JosPageOps JosBootPages JosStaticMap

section Regions
variable {pte : Nat → Nat} {va pa perm n va' : Nat}

theorem aligned_entry {a : Nat} (aligned : a % PGSIZE = 0) (perm : Nat) :
    a ||| perm ||| PTE_P = mapEntry (a / PGSIZE) perm := by
  have back : page2pa (a / PGSIZE) = a := by
    simp only [page2pa, PGSIZE] at aligned ⊢
    omega
  unfold mapEntry
  rw [back]

/-- The entries of a region of whole pages, by page number. -/
theorem regionPte_entry (aligned : pa % PGSIZE = 0) (room : pa + n * PGSIZE ≤ WORD) :
    regionPte pte va pa perm n va' =
      if va / PGSIZE ≤ va' % WORD / PGSIZE ∧ va' % WORD / PGSIZE < va / PGSIZE + n
      then mapEntry (pa / PGSIZE + (va' % WORD / PGSIZE - va / PGSIZE)) perm
      else pte va' := by
  unfold regionPte
  by_cases inside : va / PGSIZE ≤ va' % WORD / PGSIZE ∧ va' % WORD / PGSIZE < va / PGSIZE + n
  · rw [if_pos inside, if_pos inside]
    obtain ⟨k, small, same⟩ : ∃ k, k < n ∧ va' % WORD / PGSIZE - va / PGSIZE = k :=
      ⟨_, by omega, rfl⟩
    have value : (pa + k * PGSIZE) % WORD = pa + k * PGSIZE := by
      simp only [PGSIZE, WORD] at room ⊢
      omega
    have whole : (pa + k * PGSIZE) % PGSIZE = 0 := by
      simp only [PGSIZE] at aligned ⊢
      omega
    have page : (pa + k * PGSIZE) / PGSIZE = pa / PGSIZE + k := by
      simp only [PGSIZE]
      omega
    rw [same, value, aligned_entry whole, page]
  · rw [if_neg inside, if_neg inside]

end Regions

section Boot
variable (m : Machine) {va : Nat}

theorem mapped_rooms :
    (pagesBase m - KERNBASE) % PGSIZE = 0 ∧ pagesBase m - KERNBASE + NPTENTRIES * PGSIZE ≤ WORD ∧
    (envsBase m - KERNBASE) % PGSIZE = 0 ∧ envsBase m - KERNBASE + NPTENTRIES * PGSIZE ≤ WORD ∧
    (m.bootstack - KERNBASE) % PGSIZE = 0 ∧ m.bootstack - KERNBASE + 8 * PGSIZE ≤ WORD := by
  obtain ⟨aligned1, aligned2, _, high, order, bound, _⟩ := layout_bounds m
  obtain ⟨stack_low, stack_high⟩ := m.bootstack_linked
  have top := m.linked.2
  have aligned3 := m.bootstack_aligned
  have machine := m.npages_le
  simp only [KERNBASE, EXTPHYSMEM, KSTKSIZE, PTSIZE, PGSIZE, NPTENTRIES, WORD] at *
  omega

def vpn (va : Nat) : Nat := va % WORD / PGSIZE

theorem bootPte_entry (va : Nat) : bootPte m va =
    if KERNBASE / PGSIZE ≤ vpn va then mapEntry (vpn va - KERNBASE / PGSIZE) PTE_W
    else if KERNBASE / PGSIZE ≤ vpn va + 8 then
      mapEntry ((m.bootstack - KERNBASE) / PGSIZE + (vpn va + 8 - KERNBASE / PGSIZE)) PTE_W
    else if UENVS / PGSIZE ≤ vpn va ∧ vpn va < UENVS / PGSIZE + NPTENTRIES then
      mapEntry ((envsBase m - KERNBASE) / PGSIZE + (vpn va - UENVS / PGSIZE)) PTE_U
    else if UPAGES / PGSIZE ≤ vpn va ∧ vpn va < UPAGES / PGSIZE + NPTENTRIES then
      mapEntry ((pagesBase m - KERNBASE) / PGSIZE + (vpn va - UPAGES / PGSIZE)) PTE_U
    else 0 := by
  obtain ⟨whole1, room1, whole2, room2, whole3, room3⟩ := mapped_rooms m
  unfold bootPte
  rw [regionPte_entry (by decide) (by decide), regionPte_entry whole3 room3,
    regionPte_entry whole2 room2, regionPte_entry whole1 room1]
  have word : vpn va < 1048576 := by
    simp only [vpn, WORD, PGSIZE]
    omega
  change (if KERNBASE / PGSIZE ≤ vpn va ∧ vpn va < KERNBASE / PGSIZE + 65536
    then mapEntry (0 / PGSIZE + (vpn va - KERNBASE / PGSIZE)) PTE_W
    else if (KSTACKTOP - KSTKSIZE) / PGSIZE ≤ vpn va ∧
        vpn va < (KSTACKTOP - KSTKSIZE) / PGSIZE + 8
    then mapEntry ((m.bootstack - KERNBASE) / PGSIZE + (vpn va - (KSTACKTOP - KSTKSIZE) / PGSIZE))
      PTE_W
    else if UENVS / PGSIZE ≤ vpn va ∧ vpn va < UENVS / PGSIZE + NPTENTRIES
    then mapEntry ((envsBase m - KERNBASE) / PGSIZE + (vpn va - UENVS / PGSIZE)) PTE_U
    else if UPAGES / PGSIZE ≤ vpn va ∧ vpn va < UPAGES / PGSIZE + NPTENTRIES
    then mapEntry ((pagesBase m - KERNBASE) / PGSIZE + (vpn va - UPAGES / PGSIZE)) PTE_U
    else 0) = _
  have top : KERNBASE / PGSIZE + 65536 = 1048576 := by decide
  have stack : (KSTACKTOP - KSTKSIZE) / PGSIZE + 8 = KERNBASE / PGSIZE := by decide
  have zero : 0 / PGSIZE = 0 := by decide
  by_cases high : KERNBASE / PGSIZE ≤ vpn va
  · have inside : KERNBASE / PGSIZE ≤ vpn va ∧ vpn va < KERNBASE / PGSIZE + 65536 := by omega
    rw [if_pos inside, if_pos high, zero, Nat.zero_add]
  · have outside : ¬ (KERNBASE / PGSIZE ≤ vpn va ∧ vpn va < KERNBASE / PGSIZE + 65536) :=
      fun both => high both.1
    rw [if_neg outside, if_neg high]
    by_cases on_stack : KERNBASE / PGSIZE ≤ vpn va + 8
    · have inside : (KSTACKTOP - KSTKSIZE) / PGSIZE ≤ vpn va ∧
          vpn va < (KSTACKTOP - KSTKSIZE) / PGSIZE + 8 := by omega
      have offset : vpn va - (KSTACKTOP - KSTKSIZE) / PGSIZE = vpn va + 8 - KERNBASE / PGSIZE := by
        omega
      rw [if_pos inside, if_pos on_stack, offset]
    · have outside : ¬ ((KSTACKTOP - KSTKSIZE) / PGSIZE ≤ vpn va ∧
          vpn va < (KSTACKTOP - KSTKSIZE) / PGSIZE + 8) := by omega
      rw [if_neg outside, if_neg on_stack]

theorem bootPte_readonly (low : vpn va < ULIM / PGSIZE) : ¬ Writable (bootPte m va) := by
  have order : ULIM / PGSIZE + 8 ≤ KERNBASE / PGSIZE := by decide
  have user : ∀ p, ¬ Writable (mapEntry p PTE_U) := by
    intro p
    unfold Writable
    rw [mapEntry_and (by decide) (by decide)]
    decide
  rw [bootPte_entry, if_neg (by omega), if_neg (by omega)]
  split
  · exact user _
  · split
    · exact user _
    · decide

theorem bootPte_kernel_only (high : ULIM / PGSIZE ≤ vpn va) : ¬ UserBit (bootPte m va) := by
  have order : UENVS / PGSIZE + NPTENTRIES ≤ ULIM / PGSIZE ∧
      UPAGES / PGSIZE + NPTENTRIES ≤ ULIM / PGSIZE := by decide
  have kernel : ∀ p, ¬ UserBit (mapEntry p PTE_W) := by
    intro p
    unfold UserBit
    rw [mapEntry_and (by decide) (by decide)]
    decide
  rw [bootPte_entry]
  split
  · exact kernel _
  · split
    · exact kernel _
    · rw [if_neg (by omega), if_neg (by omega)]
      decide

end Boot

end JosKernelView
