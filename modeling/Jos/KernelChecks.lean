import Jos.KernelView
import Jos.SelfChecks

/- check_kern_pgdir gets through on what the four calls of boot_map_region have made of
   kern_pgdir. -/
namespace JosKernelChecks
open JosLayout JosMachine JosPmap JosBoot JosAccounting JosPageOps JosMapping JosBootPages
open JosStaticMap JosKernelView JosSelfChecks IntrusiveList TableForest CountedLoop

section Slots
variable {dirs : Dirs} {s0 s s' : State} {fl0 fl : List Nat} {pte : Nat → Nat}
  {va size pa perm n i d : Nat} {slots slots' : Nat → Prop}

def Taken (fl0 fl : List Nat) (p : Nat) : Prop := p ∈ fl0 ∧ p ∉ fl

/-- Where kern_pgdir is not what it was in s0 there are slots that have got a page table, from the
    front of the free list, and no other page was written. -/
structure Linked (s0 : State) (fl0 : List Nat) (slots : Nat → Prop) (s : State) (fl : List Nat) :
    Prop where
  dir : ∀ d, s.entry s.kernPgdir d = s0.entry s0.kernPgdir d ∨
    (Present (s.entry s.kernPgdir d) ∧ slots d ∧ Taken fl0 fl (ppn (s.entry s.kernPgdir d)))
  used : fl <:+ fl0
  elsewhere : ∀ p, p ≠ s0.kernPgdir → ¬ Taken fl0 fl p → s.mem p = s0.mem p

theorem Linked.set (linked : Linked s0 fl0 slots s fl) {q v : Nat} (taken : Taken fl0 fl q)
    (apart : q ≠ s.kernPgdir) : Linked s0 fl0 slots (s.setEntry q i v) fl := by
  have same : ∀ d, (s.setEntry q i v).entry s.kernPgdir d = s.entry s.kernPgdir d :=
    fun d => State.entry_setEntry_of_ne s q i v (Or.inl apart.symm)
  refine ⟨?_, linked.used, ?_⟩
  · intro d
    change (s.setEntry q i v).entry s.kernPgdir d = _ ∨
      (Present ((s.setEntry q i v).entry s.kernPgdir d) ∧ slots d ∧
        Taken fl0 fl (ppn ((s.setEntry q i v).entry s.kernPgdir d)))
    rw [same]
    exact linked.dir d
  · intro p other left
    have differ : p ≠ q := fun same => left (same ▸ taken)
    simp [State.setEntry, differ, linked.elsewhere p other left]

theorem Linked.hang {t : Nat} {rest : List Nat} (linked : Linked s0 fl0 slots s (t :: rest))
    (kern : s.kernPgdir = s0.kernPgdir) (fresh : t ∉ rest) (apart : t ≠ s.kernPgdir)
    (room : t < 1048576) (mine : slots d) :
    Taken fl0 rest t ∧ Linked s0 fl0 slots (hangTable s s.kernPgdir d t) rest := by
  have grows : ∀ p, Taken fl0 (t :: rest) p → Taken fl0 rest p := by
    intro p taken
    exact ⟨taken.1, fun listed => taken.2 (List.mem_cons_of_mem t listed)⟩
  have now : Taken fl0 rest t := ⟨linked.used.subset List.mem_cons_self, fresh⟩
  refine ⟨now, ?_, List.IsSuffix.trans (List.suffix_cons t rest) linked.used, ?_⟩
  · intro j
    change (hangTable s s.kernPgdir d t).entry s.kernPgdir j = _ ∨
      (Present ((hangTable s s.kernPgdir d t).entry s.kernPgdir j) ∧ slots j ∧
        Taken fl0 rest (ppn ((hangTable s s.kernPgdir d t).entry s.kernPgdir j)))
    by_cases here : j = d
    · subst here
      rw [hangTable_dir room, tableEntry_eq]
      refine Or.inr ⟨present_mapEntry (by decide), mine, ?_⟩
      rw [ppn_mapEntry room (by decide)]
      exact now
    · rw [hangTable_kern_dir apart here]
      rcases linked.dir j with before | grown
      · exact Or.inl before
      · exact Or.inr ⟨grown.1, grown.2.1, grows _ grown.2.2⟩
  · intro p other left
    have differ : p ≠ t := fun same => left (same ▸ now)
    rw [hangTable_mem_of_ne differ (kern ▸ other)]
    exact linked.elsewhere p other fun taken => left (grows p taken)

theorem bootMapStep_linked (km : KernMapped dirs s0 fl0 s fl pte) (linked : Linked s0 fl0 slots s fl)
    (bare : ∀ d, slots d → s0.entry s0.kernPgdir d = 0)
    (static : StaticPde (pdx ((va + i) % WORD))) (mine : slots (pdx ((va + i) % WORD)))
    (run : bootMapStep s.kernPgdir va pa perm s i = .ok s') :
    ∃ fl', FreeList s' fl' ∧ Linked s0 fl0 slots s' fl' := by
  have kern : s.kernPgdir = s0.kernPgdir := km.quiet.kernPgdir
  unfold bootMapStep at run
  by_cases present : Present (s.entry s.kernPgdir (pdx ((va + i) % WORD)))
  · have ht : target dirs none s (.fixed ⟨pdx ((va + i) % WORD), static.2.1⟩) =
        some (ppn (s.entry s.kernPgdir (pdx ((va + i) % WORD)))) := by
      rw [fixed_entry static]
      exact entryPage_some.mpr ⟨present, rfl⟩
    have managed := km.books.targets _ _ ht
    rw [pgdirWalk_present present managed.1, ok_bind] at run
    cases run
    have mine_table : Taken fl0 fl (ppn (s.entry s.kernPgdir (pdx ((va + i) % WORD)))) := by
      rcases linked.dir (pdx ((va + i) % WORD)) with before | grown
      · rw [before, bare _ mine] at present
        exact absurd present (by decide)
      · exact grown.2.2
    exact ⟨fl, km.books.list, linked.set mine_table (managed_ne_kern km.books managed)⟩
  · cases fl with
    | nil =>
      rw [pgdirWalk_full km.books present] at run
      cases run
    | cons t rest =>
      have managed := km.books.managed t (by simp)
      have apart : t ≠ s.kernPgdir := managed_ne_kern km.books managed
      rw [pgdirWalk_hang km.books present, ok_bind] at run
      cases run
      obtain ⟨now, hung⟩ := linked.hang kern (List.nodup_cons.mp km.books.nodup).1 apart
        (managed_room km.books managed) mine
      exact ⟨rest, (km.hang static present).books.list, hung.set now apart⟩

theorem bootMapRegion_linked (region : StaticRegion va ((size + PGSIZE - 1) / PGSIZE))
    (small : perm < 4096) (km : KernMapped dirs s0 fl0 s fl pte) (linked : Linked s0 fl0 slots s fl)
    (bare : ∀ d, slots d → s0.entry s0.kernPgdir d = 0)
    (mine : ∀ k, k < (size + PGSIZE - 1) / PGSIZE → slots (pdx ((va + k * PGSIZE) % WORD)))
    (run : bootMapRegion s s0.kernPgdir va size pa perm = .ok s') :
    ∃ fl', KernMapped dirs s0 fl0 s' fl'
      (regionPte pte va pa perm ((size + PGSIZE - 1) / PGSIZE)) ∧ Linked s0 fl0 slots s' fl' := by
  unfold bootMapRegion at run
  refine times_keeps (fun k s => ∃ fl', KernMapped dirs s0 fl0 s fl'
    (regionPte pte va pa perm k) ∧ Linked s0 fl0 slots s fl') ⟨fl, ?_, linked⟩ ?_ run
  · rw [regionPte_zero]
    exact km
  · intro k a b within before step
    obtain ⟨fl', now, linked_a⟩ := before
    have kern : a.kernPgdir = s0.kernPgdir := now.quiet.kernPgdir
    have step' := step
    rw [← kern] at step'
    obtain ⟨fl1, list, linked_b⟩ :=
      bootMapStep_linked now linked_a bare (region.2.2 k within) (mine k within) step'
    rcases bootMapRegion_step region small within now with ⟨_, failed⟩ | ⟨b', fl2, done, next⟩
    · rw [failed] at step
      cases step
    · rw [done] at step
      cases step
      rw [chain_unique list next.books.list] at linked_b
      exact ⟨fl2, next, linked_b⟩

def BootSlot (d : Nat) : Prop :=
  d = pdx UPAGES ∨ d = pdx UENVS ∨ d = pdx (KSTACKTOP - 1) ∨ d ≥ pdx KERNBASE

theorem bootSlots :
    (∀ k, k < (PTSIZE + PGSIZE - 1) / PGSIZE → BootSlot (pdx ((UPAGES + k * PGSIZE) % WORD))) ∧
    (∀ k, k < (PTSIZE + PGSIZE - 1) / PGSIZE → BootSlot (pdx ((UENVS + k * PGSIZE) % WORD))) ∧
    (∀ k, k < (KSTKSIZE + PGSIZE - 1) / PGSIZE →
      BootSlot (pdx ((KSTACKTOP - KSTKSIZE + k * PGSIZE) % WORD))) ∧
    ∀ k, k < (WORD - KERNBASE + PGSIZE - 1) / PGSIZE →
      BootSlot (pdx ((KERNBASE + k * PGSIZE) % WORD)) := by
  unfold BootSlot
  simp only [pdx_eq, UENVS, UPAGES, UVPT, ULIM, MMIOBASE, MMIOLIM, KSTACKTOP, KSTKSIZE, KERNBASE,
    PTSIZE, PGSIZE, NPTENTRIES, WORD]
  refine ⟨?_, ?_, ?_, ?_⟩
  · intro k within
    left
    omega
  · intro k within
    right
    left
    omega
  · intro k within
    right
    right
    left
    omega
  · intro k within
    right
    right
    right
    omega

end Slots

section Check
variable {m : Machine} {dirs : Dirs} {s0 s s' : State} {fl0 fl : List Nat} {pte : Nat → Nat}
  {va n : Nat}

/-- The static mappings, when they succeed. -/
theorem memInitMap_linked (pages : s0.pagesKva = pagesBase m) (envs : s0.envsKva = envsBase m)
    (stack : s0.bootstack = m.bootstack) (km : KernMapped dirs s0 fl0 s0 fl0 fun _ => 0)
    (bare : ∀ d, BootSlot d → s0.entry s0.kernPgdir d = 0) (run : memInitMap s0 = .ok s') :
    ∃ fl, KernMapped dirs s0 fl0 s' fl (bootPte m) ∧ Linked s0 fl0 BootSlot s' fl := by
  obtain ⟨high1, high2, high3⟩ := mapped_high (m := m)
  obtain ⟨slots1, slots2, slots3, slots4⟩ := bootSlots
  have start : Linked s0 fl0 BootSlot s0 fl0 := ⟨fun _ => Or.inl rfl, List.suffix_refl fl0, fun _ _ _ => rfl⟩
  unfold memInitMap at run
  rw [pages, paddr_ok high1, ok_bind] at run
  obtain ⟨s1, run1, run⟩ := bind_ok.mp run
  obtain ⟨fl1, km1, linked1⟩ := bootMapRegion_linked region_pages (by decide) km start bare slots1 run1
  rw [km1.quiet.envsKva, envs, paddr_ok high2, ok_bind, km1.quiet.kernPgdir] at run
  obtain ⟨s2, run2, run⟩ := bind_ok.mp run
  obtain ⟨fl2, km2, linked2⟩ := bootMapRegion_linked region_envs (by decide) km1 linked1 bare slots2 run2
  rw [km2.quiet.bootstack, stack, paddr_ok high3, ok_bind, km2.quiet.kernPgdir] at run
  obtain ⟨s3, run3, run⟩ := bind_ok.mp run
  obtain ⟨fl3, km3, linked3⟩ := bootMapRegion_linked region_stack (by decide) km2 linked2 bare slots3 run3
  rw [km3.quiet.kernPgdir] at run
  exact bootMapRegion_linked region_kernel (by decide) km3 linked3 bare slots4 run

theorem checkVa2pa_kern (km : KernMapped dirs s0 fl0 s fl pte) (static : StaticPde (pdx va)) :
    checkVa2pa s s.kernPgdir va = .ok (if Present (pte va) then pteAddr (pte va) else WORD - 1) := by
  rw [← km.pte_eq va static]
  unfold checkVa2pa kernPte
  dsimp only
  by_cases present : Present (s.entry s.kernPgdir (pdx va))
  · have ht : target dirs none s (.fixed ⟨pdx va, static.2.1⟩) =
        some (ppn (s.entry s.kernPgdir (pdx va))) := by
      rw [fixed_entry static]
      exact entryPage_some.mpr ⟨present, rfl⟩
    rw [if_neg (not_not.mpr present), if_pos present, kaddr_entry (km.books.targets _ _ ht).1,
      ok_bind]
    by_cases leaf : Present (s.entry (ppn (s.entry s.kernPgdir (pdx va))) (ptx va))
    · rw [if_neg (not_not.mpr leaf), if_pos leaf]
    · rw [if_pos leaf, if_neg leaf]
  · rw [if_pos present, if_neg present, if_neg (show ¬ Present 0 by decide)]

theorem assertRegion_ok (km : KernMapped dirs s0 fl0 s fl pte) {pa perm : Nat}
    (aligned : pa % PGSIZE = 0) (room : pa + n ≤ WORD) (small : perm < 4096)
    (static : ∀ k, k < (n + PGSIZE - 1) / PGSIZE → StaticPde (pdx ((va + k * PGSIZE) % WORD)))
    (mapped : ∀ k, k < (n + PGSIZE - 1) / PGSIZE →
      pte ((va + k * PGSIZE) % WORD) = mapEntry (pa / PGSIZE + k) perm) :
    assertRegion s va (.ok pa) n = .ok () := by
  unfold assertRegion
  refine times_idle fun k within => ?_
  have page : pa / PGSIZE + k < 1048576 := by
    simp only [PGSIZE, WORD] at *
    omega
  have address : (pa + k * PGSIZE) % WORD = page2pa (pa / PGSIZE + k) := by
    simp only [page2pa, PGSIZE, WORD] at *
    omega
  have found : pteAddr (mapEntry (pa / PGSIZE + k) perm) = page2pa (pa / PGSIZE + k) := by
    rw [pteAddr_eq, ppn_mapEntry page small]
  rw [ok_bind]
  unfold assertVa2pa
  rw [checkVa2pa_kern km (static k within), ok_bind, mapped k within,
    if_pos (present_mapEntry small), found, address]
  exact assert_pos rfl

theorem static_of (word : va < WORD) (user : UTOP ≤ va) (away : va < UVPT ∨ UVPT + PTSIZE ≤ va) :
    StaticPde (pdx va) := by
  unfold StaticPde
  rw [pdx_eq]
  simp only [userPdes, uvptPde, NPDENTRIES, UTOP, UENVS, UPAGES, UVPT, ULIM, MMIOBASE, MMIOLIM,
    KSTACKTOP, KERNBASE, PTSIZE, PGSIZE, NPTENTRIES, WORD] at *
  omega

theorem pages_ok (km : KernMapped dirs s0 fl0 s fl (bootPte m)) (pages : s.pagesKva = pagesBase m)
    (size : s.npages = m.npages) :
    assertRegion s UPAGES (paddr s.pagesKva) (roundUp (s.npages * sizeofPageInfo % WORD) PGSIZE) =
      .ok () := by
  obtain ⟨whole, room, _⟩ := mapped_rooms m
  have machine := m.npages_le
  have bytes : roundUp (s.npages * sizeofPageInfo % WORD) PGSIZE ≤ 528384 := by
    rw [size]
    simp only [roundUp, roundDown_eq, sizeofPageInfo, PGSIZE, WORD]
    omega
  rw [pages, paddr_ok (mapped_high m).1]
  refine assertRegion_ok km whole ?_ (show PTE_U < 4096 by decide) ?_ ?_
  · simp only [PGSIZE, NPTENTRIES, WORD] at room bytes ⊢
    omega
  · intro k within
    apply static_of
    all_goals
      simp only [UTOP, UENVS, UPAGES, UVPT, ULIM, MMIOBASE, MMIOLIM, KSTACKTOP, KERNBASE, PTSIZE,
        PGSIZE, NPTENTRIES, WORD] at *
      omega
  · intro k within
    have place : vpn ((UPAGES + k * PGSIZE) % WORD) = UPAGES / PGSIZE + k := by
      unfold vpn
      simp only [UPAGES, UVPT, ULIM, MMIOBASE, MMIOLIM, KSTACKTOP, KERNBASE, PTSIZE, PGSIZE,
        NPTENTRIES, WORD] at *
      omega
    have few : k < NPTENTRIES := by
      simp only [PGSIZE, NPTENTRIES] at *
      omega
    have order : UPAGES / PGSIZE + NPTENTRIES + 8 ≤ KERNBASE / PGSIZE ∧
        UENVS / PGSIZE + NPTENTRIES ≤ UPAGES / PGSIZE := by decide
    rw [bootPte_entry, place, if_neg (by omega), if_neg (by omega), if_neg (by omega),
      if_pos (by omega), Nat.add_sub_cancel_left]

theorem envs_ok (km : KernMapped dirs s0 fl0 s fl (bootPte m)) (envs : s.envsKva = envsBase m) :
    assertRegion s UENVS (paddr s.envsKva) (roundUp (NENV * sizeofEnv) PGSIZE) = .ok () := by
  obtain ⟨_, _, whole, room, _⟩ := mapped_rooms m
  rw [envs, paddr_ok (mapped_high m).2.1, show roundUp (NENV * sizeofEnv) PGSIZE = 98304 by decide]
  have span : 98304 ≤ NPTENTRIES * PGSIZE := by decide
  refine assertRegion_ok km whole (Nat.le_trans (Nat.add_le_add_left span _) room)
    (show PTE_U < 4096 by decide) ?_ ?_
  · intro k within
    apply static_of
    all_goals
      simp only [UTOP, UENVS, UPAGES, UVPT, ULIM, MMIOBASE, MMIOLIM, KSTACKTOP, KERNBASE, PTSIZE,
        PGSIZE, NPTENTRIES, WORD] at *
      omega
  · intro k within
    have place : vpn ((UENVS + k * PGSIZE) % WORD) = UENVS / PGSIZE + k := by
      unfold vpn
      simp only [UENVS, UPAGES, UVPT, ULIM, MMIOBASE, MMIOLIM, KSTACKTOP, KERNBASE, PTSIZE, PGSIZE,
        NPTENTRIES, WORD] at *
      omega
    have few : k < NPTENTRIES := by
      simp only [PGSIZE, NPTENTRIES] at *
      omega
    have order : UENVS / PGSIZE + NPTENTRIES + 8 ≤ KERNBASE / PGSIZE := by decide
    rw [bootPte_entry, place, if_neg (by omega), if_neg (by omega), if_pos (by omega),
      Nat.add_sub_cancel_left]

theorem memory_ok (km : KernMapped dirs s0 fl0 s fl (bootPte m)) (size : s.npages = m.npages) :
    assertRegion s KERNBASE (.ok 0) (s.npages * PGSIZE % WORD) = .ok () := by
  have machine := m.npages_le
  have bytes : s.npages * PGSIZE % WORD ≤ 268435456 := by
    rw [size]
    simp only [PGSIZE, WORD]
    omega
  refine assertRegion_ok km (by decide) (by simp only [WORD]; omega)
    (show PTE_W < 4096 by decide) ?_ ?_
  · intro k within
    apply static_of
    all_goals
      simp only [UTOP, UENVS, UPAGES, UVPT, ULIM, MMIOBASE, MMIOLIM, KSTACKTOP, KERNBASE, PTSIZE,
        PGSIZE, NPTENTRIES, WORD] at *
      omega
  · intro k within
    have place : vpn ((KERNBASE + k * PGSIZE) % WORD) = KERNBASE / PGSIZE + k := by
      unfold vpn
      simp only [KERNBASE, PGSIZE, WORD] at *
      omega
    have zero : 0 / PGSIZE = 0 := by decide
    rw [bootPte_entry, place, if_pos (by omega), Nat.add_sub_cancel_left, zero, Nat.zero_add]

theorem stack_ok (km : KernMapped dirs s0 fl0 s fl (bootPte m)) (stack : s.bootstack = m.bootstack) :
    assertRegion s (KSTACKTOP - KSTKSIZE) (paddr s.bootstack) KSTKSIZE = .ok () := by
  obtain ⟨_, _, _, _, whole, room⟩ := mapped_rooms m
  rw [stack, paddr_ok (mapped_high m).2.2]
  refine assertRegion_ok km whole ?_ (show PTE_W < 4096 by decide) ?_ ?_
  · simp only [KSTKSIZE, PGSIZE, WORD] at room ⊢
    omega
  · intro k within
    apply static_of
    all_goals
      simp only [UTOP, UENVS, UPAGES, UVPT, ULIM, MMIOBASE, MMIOLIM, KSTACKTOP, KSTKSIZE, KERNBASE,
        PTSIZE, PGSIZE, NPTENTRIES, WORD] at *
      omega
  · intro k within
    have few : k < 8 := by
      simp only [KSTKSIZE, PGSIZE] at within
      omega
    have place : vpn ((KSTACKTOP - KSTKSIZE + k * PGSIZE) % WORD) + 8 = KERNBASE / PGSIZE + k := by
      unfold vpn
      simp only [KSTACKTOP, KSTKSIZE, KERNBASE, PGSIZE, WORD]
      omega
    rw [bootPte_entry, if_neg (by omega), if_pos (by omega), place, Nat.add_sub_cancel_left]

theorem guard_ok (km : KernMapped dirs s0 fl0 s fl (bootPte m)) :
    assertVa2pa s s.kernPgdir (KSTACKTOP - PTSIZE) (WORD - 1) = .ok () := by
  have nothing : bootPte m (KSTACKTOP - PTSIZE) = 0 := by
    have place : vpn (KSTACKTOP - PTSIZE) = 982016 := by decide
    rw [bootPte_entry, place, if_neg (by decide), if_neg (by decide), if_neg (by decide),
      if_neg (by decide)]
  unfold assertVa2pa
  rw [checkVa2pa_kern km (static_of (by decide) (by decide) (by decide)), ok_bind, nothing,
    if_neg (show ¬ Present 0 by decide)]
  exact assert_pos rfl

theorem slot_present (km : KernMapped dirs s0 fl0 s fl pte) (static : StaticPde (pdx va))
    (mapped : Present (pte va)) : Present (s.entry s.kernPgdir (pdx va)) := by
  rw [← km.pte_eq va static] at mapped
  unfold kernPte at mapped
  by_cases present : Present (s.entry s.kernPgdir (pdx va))
  · exact present
  · rw [if_neg present] at mapped
    exact absurd mapped (by decide)

theorem bootSlot_present (km : KernMapped dirs s0 fl0 s fl (bootPte m)) {d : Nat}
    (slot : d < NPDENTRIES) (boot : BootSlot d) :
    StaticPde d ∧ Present (s.entry s.kernPgdir d) := by
  have named : ∀ p perm, perm < 4096 → Present (mapEntry p perm) := fun _ _ small => present_mapEntry small
  have mapped : ∀ va, UTOP ≤ va → va < WORD → (va < UVPT ∨ UVPT + PTSIZE ≤ va) →
      Present (bootPte m va) → StaticPde (pdx va) ∧ Present (s.entry s.kernPgdir (pdx va)) := by
    intro va user word away present
    have static := static_of word user away
    exact ⟨static, slot_present km static present⟩
  rcases boot with rfl | rfl | rfl | high
  · refine mapped UPAGES (by decide) (by decide) (by decide) ?_
    rw [bootPte_entry, if_neg (by decide), if_neg (by decide), if_neg (by decide), if_pos (by decide)]
    exact named _ _ (by decide)
  · refine mapped UENVS (by decide) (by decide) (by decide) ?_
    rw [bootPte_entry, if_neg (by decide), if_neg (by decide), if_pos (by decide)]
    exact named _ _ (by decide)
  · refine mapped (KSTACKTOP - 1) (by decide) (by decide) (by decide) ?_
    rw [bootPte_entry, if_neg (by decide), if_pos (by decide)]
    exact named _ _ (by decide)
  · have here : pdx (d * PTSIZE) = d := by
      rw [pdx_eq]
      simp only [PTSIZE, PGSIZE, NPTENTRIES, NPDENTRIES] at slot ⊢
      omega
    have base : pdx KERNBASE = 960 := by decide
    have bounds : KERNBASE ≤ d * PTSIZE ∧ d * PTSIZE < WORD := by
      simp only [KERNBASE, PTSIZE, PGSIZE, NPTENTRIES, NPDENTRIES, WORD] at *
      omega
    have above : KERNBASE / PGSIZE ≤ vpn (d * PTSIZE) := by
      unfold vpn
      rw [Nat.mod_eq_of_lt bounds.2]
      exact Nat.div_le_div_right bounds.1
    have order : UTOP ≤ KERNBASE ∧ UVPT + PTSIZE ≤ KERNBASE := by decide
    rw [← here]
    refine mapped (d * PTSIZE) (Nat.le_trans order.1 bounds.1) bounds.2
      (Or.inr (Nat.le_trans order.2 bounds.1)) ?_
    rw [bootPte_entry, if_pos above]
    exact named _ _ (by decide)

theorem assertPde_ok (km : KernMapped dirs s0 fl0 s fl (bootPte m)) (linked : Linked s0 fl0 BootSlot s fl)
    (self : Present (s.entry s.kernPgdir uvptPde))
    (empty : ∀ d, d ≠ uvptPde → s0.entry s0.kernPgdir d = 0) {i : Nat} (slot : i < NPDENTRIES) :
    assertPde s i = .ok () := by
  unfold assertPde
  dsimp only
  split
  · rename_i special
    apply assert_pos
    rcases special with rfl | stack | pages | envs
    · rw [← uvptPde_eq]
      exact self
    · exact (bootSlot_present km slot (Or.inr (Or.inr (Or.inl stack)))).2
    · exact (bootSlot_present km slot (Or.inl pages)).2
    · exact (bootSlot_present km slot (Or.inr (Or.inl envs))).2
  · rename_i plain
    simp only [not_or] at plain
    obtain ⟨not_uvpt, not_stack, not_pages, not_envs⟩ := plain
    split
    · rename_i kernel
      obtain ⟨static, present⟩ := bootSlot_present km slot (Or.inr (Or.inr (Or.inr kernel)))
      rw [assert_pos present, ok_bind]
      exact assert_pos (km.grants i static present).2
    · rename_i low
      apply assert_pos
      rcases linked.dir i with same | ⟨_, hung⟩
      · rw [same]
        exact empty i fun own => not_uvpt (own.trans uvptPde_eq)
      · rcases hung.1 with rfl | rfl | rfl | high
        · exact absurd rfl not_pages
        · exact absurd rfl not_envs
        · exact absurd rfl not_stack
        · exact absurd high low

/-- The four regions take 67 page tables. -/
theorem bootTables (km : KernMapped dirs s0 fl0 s fl (bootPte m)) (linked : Linked s0 fl0 BootSlot s fl)
    (empty : ∀ d, d ≠ uvptPde → s0.entry s0.kernPgdir d = 0) :
    tablesUsed s = 67 ∧ tablesUsed s0 = 0 := by
  have absent : ∀ d, d ≠ uvptPde → entryPage (s0.entry s0.kernPgdir d) = none := by
    intro d other
    rw [empty d other]
    exact entryPage_zero
  unfold tablesUsed TableForest.Forest.fixedUsed
  constructor
  · have which : (Finset.univ.filter fun k : Fin NPDENTRIES =>
        (forest (fun _ => none) none s).fixed k ≠ none) =
        Finset.univ.filter fun k : Fin NPDENTRIES =>
          k.val = pdx UPAGES ∨ k.val = pdx UENVS ∨ k.val = pdx (KSTACKTOP - 1) ∨
            k.val ≥ pdx KERNBASE := by
      refine Finset.filter_congr fun k _ => ?_
      constructor
      · intro used
        by_contra other
        rcases linked.dir k with same | ⟨_, boot⟩
        · refine used ?_
          change (if userPdes ≤ k.val ∧ k.val ≠ uvptPde then
            entryPage (s.entry s.kernPgdir k) else none) = none
          split
          · rename_i static
            rw [same, absent k static.2]
          · rfl
        · exact other boot.1
      · intro boot
        obtain ⟨static, present⟩ := bootSlot_present km k.isLt boot
        change (if userPdes ≤ k.val ∧ k.val ≠ uvptPde then
          entryPage (s.entry s.kernPgdir k) else none) ≠ none
        rw [if_pos ⟨static.1, static.2.2⟩]
        exact fun none => entryPage_none.mp none present
    rw [which]
    decide +kernel
  · rw [Finset.card_eq_zero]
    refine Finset.filter_false_of_mem fun k _ used => used ?_
    change (if userPdes ≤ k.val ∧ k.val ≠ uvptPde then
      entryPage (s0.entry s0.kernPgdir k) else none) = none
    split
    · rename_i static
      exact absent k static.2
    · rfl

theorem checkKernPgdir_ok (km : KernMapped dirs s0 fl0 s fl (bootPte m)) (linked : Linked s0 fl0 BootSlot s fl)
    (pages : s.pagesKva = pagesBase m) (envs : s.envsKva = envsBase m)
    (stack : s.bootstack = m.bootstack) (size : s.npages = m.npages)
    (self : Present (s.entry s.kernPgdir uvptPde))
    (empty : ∀ d, d ≠ uvptPde → s0.entry s0.kernPgdir d = 0) : checkKernPgdir s = .ok () := by
  have pdes : times (fun i _ => assertPde s i) NPDENTRIES () = .ok () :=
    times_idle fun i slot => assertPde_ok km linked self empty slot
  unfold checkKernPgdir
  dsimp only
  rw [pages_ok km pages size, ok_bind, envs_ok km envs, ok_bind, memory_ok km size, ok_bind,
    stack_ok km stack, ok_bind, guard_ok km, ok_bind, pdes]

end Check

end JosKernelChecks
