import Jos.MemInit

/- kern/entrypgdir.c, the page tables the kernel starts on, and the change to kern_pgdir. -/
namespace JosEntryPgdir
open JosLayout FrameWords JosMachine JosPmap JosMmu JosBoot JosAccounting JosPageOps JosMapping
open JosBootPages JosStaticMap JosKernelView JosKernelChecks JosSelfChecks JosMemInit

/-- entry_pgdir, with entry_pgtable in page table. -/
def entryPgdir (table i : Nat) : Nat :=
  if i = 0 then page2pa table + PTE_P
  else if i = KERNBASE >>> PDXSHIFT then page2pa table + PTE_P + PTE_W
  else 0

def entryPgtable (i : Nat) : Nat := i * PGSIZE ||| (PTE_P ||| PTE_W)

/-- The two arrays are in pages dir and table. -/
structure EntryPaging (s : State) (dir table : Nat) : Prop where
  room : table < 1048576
  pgdir : ∀ i, i < NPDENTRIES → s.entry dir i = entryPgdir table i
  pgtable : ∀ i, i < NPTENTRIES → s.entry table i = entryPgtable i

section Entry
variable {s : State} {dir table va : Nat}

theorem entryPgdir_parts (room : table < 1048576) :
    (Present (entryPgdir table 0) ∧ ppn (entryPgdir table 0) = table ∧
      ¬ Writable (entryPgdir table 0)) ∧
    (Present (entryPgdir table 960) ∧ ppn (entryPgdir table 960) = table ∧
      Writable (entryPgdir table 960)) := by
  have low : entryPgdir table 0 = mapEntry table 0 := by
    change table * 4096 + 1 = _
    rw [mapEntry_eq]
    exact (or_low_eq_add table (by decide)).symm
  have high : entryPgdir table 960 = mapEntry table PTE_W := by
    have flags := or_low_eq_add table (show 3 < 4096 by decide)
    change table * 4096 + 1 + 2 = _
    rw [mapEntry_eq, Nat.add_assoc]
    exact flags.symm
  rw [low, high]
  refine ⟨⟨present_mapEntry (by decide), ppn_mapEntry room (by decide), ?_⟩,
    present_mapEntry (by decide), ppn_mapEntry room (by decide), ?_⟩
  · rw [Writable, mapEntry_and (by decide) (by decide)]
    decide
  · rw [Writable, mapEntry_and (by decide) (by decide)]
    decide

theorem entryPgtable_parts {i : Nat} (inside : i < NPTENTRIES) :
    Present (entryPgtable i) ∧ ppn (entryPgtable i) = i ∧ Writable (entryPgtable i) := by
  have entry : entryPgtable i = mapEntry i PTE_W := (mapEntry_eq i PTE_W).symm
  rw [entry]
  refine ⟨present_mapEntry (by decide), ppn_mapEntry ?_ (by decide), ?_⟩
  · simp only [NPTENTRIES] at inside
    omega
  · rw [Writable, mapEntry_and (by decide) (by decide)]
    decide

theorem entry_walk (paging : EntryPaging s dir table) (word : va < WORD) :
    (va < PTSIZE → ∃ t, walk s dir va = some t ∧ Translation.page t = va / PGSIZE ∧
      ¬ Translation.writable t) ∧
    (KERNBASE ≤ va → va < KERNBASE + PTSIZE → ∃ t, walk s dir va = some t ∧
      Translation.page t = (va - KERNBASE) / PGSIZE ∧ Translation.writable t) ∧
    (PTSIZE ≤ va → va < KERNBASE ∨ KERNBASE + PTSIZE ≤ va → walk s dir va = none) := by
  obtain ⟨⟨present0, table0, barred⟩, present1, table1, granted⟩ := entryPgdir_parts paging.room
  have inside : ptx va < NPTENTRIES := ptx_lt va
  obtain ⟨leaf, page, writes⟩ := entryPgtable_parts inside
  have pde := paging.pgdir (pdx va) (pdx_lt va)
  have pte := paging.pgtable (ptx va) inside
  refine ⟨fun low => ?_, fun base top => ?_, fun above outside => ?_⟩
  · have slot : pdx va = 0 := by
      rw [pdx_eq]
      simp only [PTSIZE, PGSIZE, NPTENTRIES] at low
      omega
    rw [slot] at pde
    refine ⟨_, walk_some.mpr ⟨?_, ?_, rfl⟩, ?_, ?_⟩
    · rw [slot, pde]
      exact present0
    · rw [slot, pde, table0, pte]
      exact leaf
    · change ppn (s.entry (ppn (s.entry dir (pdx va))) (ptx va)) = _
      rw [slot, pde, table0, pte, page, ptx_eq]
      simp only [PTSIZE, PGSIZE, NPTENTRIES] at low ⊢
      omega
    · rintro ⟨dir_writes, _⟩
      change Writable (s.entry dir (pdx va)) at dir_writes
      rw [slot, pde] at dir_writes
      exact barred dir_writes
  · have slot : pdx va = 960 := by
      rw [pdx_eq]
      simp only [KERNBASE, PTSIZE, PGSIZE, NPTENTRIES] at base top
      omega
    rw [slot] at pde
    refine ⟨_, walk_some.mpr ⟨?_, ?_, rfl⟩, ?_, ?_, ?_⟩
    · rw [slot, pde]
      exact present1
    · rw [slot, pde, table1, pte]
      exact leaf
    · change ppn (s.entry (ppn (s.entry dir (pdx va))) (ptx va)) = _
      rw [slot, pde, table1, pte, page, ptx_eq]
      simp only [KERNBASE, PTSIZE, PGSIZE, NPTENTRIES] at base top ⊢
      omega
    · change Writable (s.entry dir (pdx va))
      rw [slot, pde]
      exact granted
    · change Writable (s.entry (ppn (s.entry dir (pdx va))) (ptx va))
      rw [slot, pde, table1, pte]
      exact writes
  · have slot : pdx va ≠ 0 ∧ pdx va ≠ 960 := by
      rw [pdx_eq]
      simp only [KERNBASE, PTSIZE, PGSIZE, NPTENTRIES, WORD] at above outside word
      omega
    have empty : entryPgdir table (pdx va) = 0 := by
      unfold entryPgdir
      rw [if_neg slot.1]
      exact if_neg slot.2
    unfold walk
    rw [pde, empty]
    exact if_neg (by decide)

end Entry

section Handover
variable {m : Machine} {a b c : State} {fl : List Nat} {va : Nat}

theorem handover_kernel (mapped : Mapped m a fl b c) (base : KERNBASE ≤ va)
    (word : va < WORD) : ∃ t, walk c c.kernPgdir va = some t ∧
      Translation.page t = (va - KERNBASE) / PGSIZE ∧ Translation.writable t := by
  have static : StaticPde (pdx va) := by
    refine static_of word ?_ (Or.inr ?_)
    · simp only [UTOP, UENVS, UPAGES, UVPT, ULIM, MMIOBASE, MMIOLIM, KSTACKTOP, KERNBASE, PTSIZE,
        PGSIZE, NPTENTRIES] at base ⊢
      omega
    · simp only [UVPT, ULIM, MMIOBASE, MMIOLIM, KSTACKTOP, KERNBASE, PTSIZE, PGSIZE, NPTENTRIES] at base ⊢
      omega
  have number : vpn va = va / PGSIZE := by
    unfold vpn
    rw [Nat.mod_eq_of_lt word]
  have place : KERNBASE / PGSIZE ≤ vpn va := number ▸ Nat.div_le_div_right base
  have page : vpn va - KERNBASE / PGSIZE = (va - KERNBASE) / PGSIZE := by
    rw [number]
    simp only [KERNBASE, PGSIZE] at base ⊢
    omega
  have room : (va - KERNBASE) / PGSIZE < 1048576 := by
    simp only [KERNBASE, PGSIZE, WORD] at base word ⊢
    omega
  have entry := mapped.view va static
  rw [bootPte_entry, if_pos place, page] at entry
  have leaf : Present (mapEntry ((va - KERNBASE) / PGSIZE) PTE_W) := present_mapEntry (by decide)
  unfold kernPte at entry
  by_cases present : Present (c.entry c.kernPgdir (pdx va))
  · rw [if_pos present] at entry
    refine ⟨_, walk_some.mpr ⟨present, entry ▸ leaf, rfl⟩, ?_, (mapped.grants _ static present).2, ?_⟩
    · change ppn (c.entry (ppn (c.entry c.kernPgdir (pdx va))) (ptx va)) = _
      rw [entry, ppn_mapEntry room (by decide)]
    · change Writable (c.entry (ppn (c.entry c.kernPgdir (pdx va))) (ptx va))
      rw [entry, Writable, mapEntry_and (by decide) (by decide)]
      decide
  · rw [if_neg present] at entry
    rw [← entry] at leaf
    exact absurd leaf (by decide)

theorem handover_user (mapped : Mapped m a fl b c) (user : va < UTOP) :
    walk c c.kernPgdir va = none := by
  have slot : pdx va < pdx UTOP := by
    have top : pdx UTOP = 955 := by decide
    rw [top, pdx_eq]
    simp only [UTOP, UENVS, UPAGES, UVPT, ULIM, MMIOBASE, MMIOLIM, KSTACKTOP, KERNBASE, PTSIZE,
      PGSIZE, NPTENTRIES] at user
    omega
  unfold walk
  exact if_neg (mapped.low _ slot)

end Handover

/-- When mem_init loads kern_pgdir, the 4MB at KERNBASE that the kernel runs in stay where they are,
    as writable as before. The same 4MB at 0, which entry_pgdir maps for the first instructions of
    entry.S and does not let the kernel write to, go away. -/
theorem entry_pgdir_handover {m : Machine} (ample : Ample m) (room : firstExtended m ≤ NPTENTRIES)
    {fuel : Nat} (enough : m.npages ≤ fuel) (pp12 : Bool → Option Nat) :
    ∃ c, memInitEarly fuel pp12 (powerOn m) = .ok c ∧ Early m c ∧
      ∀ s dir table, EntryPaging s dir table → ∀ va, va < WORD →
        (walk s dir va ≠ none ↔ va < PTSIZE ∨ KERNBASE ≤ va ∧ va < KERNBASE + PTSIZE) ∧
        (KERNBASE ≤ va → va < KERNBASE + PTSIZE → ∃ t t', walk s dir va = some t ∧
          walk c c.kernPgdir va = some t' ∧ Translation.page t' = Translation.page t ∧
          Translation.writable t ∧ Translation.writable t') ∧
        (va < PTSIZE → ∃ t, walk s dir va = some t ∧ Translation.page t = va / PGSIZE ∧
          ¬ Translation.writable t ∧ walk c c.kernPgdir va = none) := by
  obtain ⟨a, fl, alloc, opened⟩ := memInitAlloc_opened ample.1
  obtain ⟨b, c, run, mapped⟩ := memInitEarly_ok alloc opened ample.1 enough pp12 ample.2.1
  refine ⟨c, run, mapped.early room, fun s dir table paging va word => ?_⟩
  obtain ⟨low, high, nothing⟩ := entry_walk paging word
  refine ⟨⟨fun walked => ?_, fun inside => ?_⟩, fun base top => ?_, fun below => ?_⟩
  · by_contra outside
    simp only [not_or, not_and, Nat.not_lt] at outside
    refine walked (nothing outside.1 ?_)
    by_cases base : KERNBASE ≤ va
    · exact Or.inr (outside.2 base)
    · exact Or.inl (Nat.lt_of_not_le base)
  · rcases inside with below | ⟨base, top⟩
    · obtain ⟨t, walked, _⟩ := low below
      simp [walked]
    · obtain ⟨t, walked, _⟩ := high base top
      simp [walked]
  · obtain ⟨t, walked, page, writes⟩ := high base top
    obtain ⟨t', walked', page', writes'⟩ := handover_kernel mapped base word
    exact ⟨t, t', walked, walked', page'.trans page.symm, writes, writes'⟩
  · obtain ⟨t, walked, page, barred⟩ := low below
    refine ⟨t, walked, page, barred, handover_user mapped ?_⟩
    simp only [UTOP, UENVS, UPAGES, UVPT, ULIM, MMIOBASE, MMIOLIM, KSTACKTOP, KERNBASE, PTSIZE,
      PGSIZE, NPTENTRIES] at below ⊢
    omega

section Example

def arrayFrame (w : Nat → Nat) : Frame := fun o => UInt8.ofNat (w (o / 4) / 256 ^ (o % 4))

theorem word_arrayFrame {w : Nat → Nat} {i : Nat} (small : w i < WORD) : word (arrayFrame w) i = w i := by
  have bytes : ∀ k, k < 4 → (arrayFrame w (4 * i + k)).toNat = w i / 256 ^ k % 256 := by
    intro k inside
    have place : (4 * i + k) / 4 = i ∧ (4 * i + k) % 4 = k := by omega
    unfold arrayFrame
    rw [place.1, place.2, UInt8.toNat_ofNat']
  have b0 := bytes 0 (by decide)
  have b1 := bytes 1 (by decide)
  have b2 := bytes 2 (by decide)
  have b3 := bytes 3 (by decide)
  simp only [Nat.add_zero] at b0
  simp only [word, b0, b1, b2, b3]
  simp only [WORD] at small
  omega

def entryState : State := { powerOn smallMachine with
  mem := fun p => if p = 0x117 then arrayFrame (entryPgdir 0x118) else arrayFrame entryPgtable }

theorem entryState_paging : EntryPaging entryState 0x117 0x118 where
  room := by decide
  pgdir := by
    intro i _
    refine word_arrayFrame ?_
    unfold entryPgdir
    split
    · decide
    · split <;> decide
  pgtable := by
    intro i inside
    refine word_arrayFrame ?_
    have entry : entryPgtable i = mapEntry i PTE_W := (mapEntry_eq i PTE_W).symm
    rw [entry]
    refine mapEntry_lt ?_ (by decide)
    simp only [NPTENTRIES] at inside
    omega

end Example

theorem entry_pgdir_handover_smallMachine :
    ∃ c t t', memInitEarly 1024 (fun _ => none) (powerOn smallMachine) = .ok c ∧
      walk entryState 0x117 KERNBASE = some t ∧ walk c c.kernPgdir KERNBASE = some t' ∧
      Translation.page t' = Translation.page t := by
  obtain ⟨c, run, _, handover⟩ := @entry_pgdir_handover smallMachine (by decide) (by decide) 1024
    (Nat.le_refl 1024) fun _ => none
  obtain ⟨t, t', walked, walked', same, _⟩ :=
    (handover _ _ _ entryState_paging KERNBASE (by decide)).2.1 (by decide) (by decide)
  exact ⟨c, t, t', run, walked, walked', same⟩

end JosEntryPgdir
