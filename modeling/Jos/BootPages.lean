import Jos.PageOps

/- mem_init up to page_init: what boot_alloc hands out, and the books page_init opens. -/
namespace JosBootPages
open JosLayout FrameWords JosMachine JosPmap JosBoot JosAccounting JosPageOps IntrusiveList Ledger
open TableForest CountedLoop

section BootAlloc
variable {s s' : State} {n r : Nat}

def bootNext (s : State) : Nat := if s.nextfree = 0 then roundUp s.kernEnd PGSIZE else s.nextfree

theorem bootAlloc_zero (started : s.nextfree ≠ 0) : bootAlloc s 0 = .ok (s.nextfree, s) := by
  unfold bootAlloc
  simp [started]

theorem bootAlloc_eq (some_bytes : n ≠ 0) :
    bootAlloc s n =
      if roundUp ((bootNext s + n) % WORD) PGSIZE > (KERNBASE + s.npages * PGSIZE) % WORD
      then .error .outOfMemory
      else .ok (bootNext s, { s with nextfree := roundUp ((bootNext s + n) % WORD) PGSIZE }) := by
  unfold bootAlloc bootNext
  by_cases start : s.nextfree = 0
  · simp [start, some_bytes]
  · simp [start, some_bytes]

def wholePages (n : Nat) : Nat := (n + 4095) / 4096 * 4096

/-- boot_alloc hands out the bytes from bootNext on, in whole pages, if they lie below the end
    of memory, and panics otherwise. -/
theorem bootAlloc_fits (some_bytes : n ≠ 0) (machine : s.npages ≤ 65536)
    (aligned : bootNext s % PGSIZE = 0) (low : bootNext s + n < WORD - PGSIZE)
    (high : KERNBASE ≤ bootNext s) :
    bootAlloc s n =
      if bootNext s + wholePages n ≤ KERNBASE + s.npages * PGSIZE ∧ s.npages < 65536
      then .ok (bootNext s, { s with nextfree := bootNext s + wholePages n })
      else .error .outOfMemory := by
  have rounded : roundUp ((bootNext s + n) % WORD) PGSIZE = bootNext s + wholePages n := by
    simp only [roundUp, roundDown_eq, WORD, PGSIZE, wholePages] at *
    omega
  rw [bootAlloc_eq some_bytes, rounded]
  by_cases fits : bootNext s + wholePages n ≤ KERNBASE + s.npages * PGSIZE ∧ s.npages < 65536
  · have below : ¬ bootNext s + wholePages n > (KERNBASE + s.npages * PGSIZE) % WORD := by
      simp only [KERNBASE, WORD, PGSIZE, gt_iff_lt, Nat.not_lt] at *
      omega
    rw [if_neg below, if_pos fits]
  · have beyond : bootNext s + wholePages n > (KERNBASE + s.npages * PGSIZE) % WORD := by
      simp only [KERNBASE, WORD, PGSIZE, wholePages] at *
      omega
    rw [if_pos beyond, if_neg fits]

end BootAlloc

section PageInit
variable {s s0 : State} {fl : List Nat}

def initOne (s : State) (i : Nat) : State :=
  if bootPage s.nextfree i then markUsed s i else markFree s i

theorem pageInitStep_eq (started : s.nextfree ≠ 0) {i : Nat} (page : i ≠ 0) :
    pageInitStep s i = .ok (initOne s i) := by
  unfold pageInitStep initOne
  by_cases hole : i ≥ IOPHYSMEM / PGSIZE ∧ i < EXTPHYSMEM / PGSIZE
  · have boot : bootPage s.nextfree i := Or.inr (Or.inl hole)
    rw [if_pos hole, if_pos boot]
  · rw [if_neg hole]
    by_cases extended : i ≥ EXTPHYSMEM / PGSIZE
    · rw [if_pos extended, bootAlloc_zero started, ok_bind]
      by_cases kernel : i < kernelPages s.nextfree
      · have boot : bootPage s.nextfree i := Or.inr (Or.inr ⟨extended, kernel⟩)
        rw [if_pos boot]
        exact if_pos kernel
      · have free : ¬ bootPage s.nextfree i := by
          intro boot
          rcases boot with zero | io | low
          · exact page zero
          · exact hole io
          · exact kernel low.2
        rw [if_neg free]
        exact if_neg kernel
    · have free : ¬ bootPage s.nextfree i := by
        intro boot
        rcases boot with zero | io | low
        · exact page zero
        · exact hole io
        · exact extended low.1
      rw [if_neg extended, if_neg free]

/-- After the rounds for pages 0 to k: the pages met so far that are not in use are free. -/
structure Initialised (s0 : State) (k : Nat) (s : State) (fl : List Nat) : Prop where
  list : FreeList s fl
  nodup : fl.Nodup
  free : ∀ p, p ∈ fl ↔ p ≤ k ∧ ¬ bootPage s0.nextfree p
  zero : ∀ p ∈ fl, (s.pages p).ppRef = 0
  quiet : Quiet s0 s
  mem : s.mem = s0.mem

theorem initOne_keeps {k : Nat} (before : Initialised s0 k s fl) :
    ∃ fl', Initialised s0 (k + 1) (initOne s (k + 1)) fl' := by
  have fresh : k + 1 ∉ fl := by
    intro listed
    have := ((before.free _).mp listed).1
    omega
  have same_next : s.nextfree = s0.nextfree := before.quiet.nextfree
  by_cases boot : bootPage s.nextfree (k + 1)
  · refine ⟨fl, ?_⟩
    unfold initOne markUsed
    rw [if_pos boot]
    refine ⟨?_, before.nodup, ?_, ?_, quiet_trans before.quiet rfl, before.mem⟩
    · refine chain_congr before.list ?_
      intro q listed
      have differ : q ≠ k + 1 := fun same => fresh (same ▸ listed)
      simp [differ]
    · intro p
      rw [before.free]
      constructor
      · intro both
        exact ⟨by omega, both.2⟩
      · intro both
        refine ⟨?_, both.2⟩
        by_contra far
        have last : p = k + 1 := by omega
        rw [last, ← same_next] at both
        exact both.2 boot
    · intro p listed
      have differ : p ≠ k + 1 := fun same => fresh (same ▸ listed)
      simpa [differ] using before.zero p listed
  · refine ⟨(k + 1) :: fl, ?_⟩
    unfold initOne markFree
    rw [if_neg boot]
    refine ⟨?_, List.nodup_cons.mpr ⟨fresh, before.nodup⟩, ?_, ?_, quiet_trans before.quiet rfl,
      before.mem⟩
    · refine .cons _ fl ?_
      simp only [State.setInfo_pages, Function.update_self]
      refine chain_congr before.list ?_
      intro q listed
      have differ : q ≠ k + 1 := fun same => fresh (same ▸ listed)
      simp [differ]
    · intro p
      rw [List.mem_cons, before.free]
      constructor
      · intro h
        rcases h with same | old
        · subst same
          exact ⟨Nat.le_refl _, same_next ▸ boot⟩
        · exact ⟨by omega, old.2⟩
      · intro both
        by_cases last : p = k + 1
        · exact Or.inl last
        · exact Or.inr ⟨by omega, both.2⟩
    · intro p listed
      by_cases last : p = k + 1
      · subst last
        simp
      · rcases List.mem_cons.mp listed with same | old
        · exact absurd same last
        · simpa [last] using before.zero p old

theorem pageInit_spec (started : s0.nextfree ≠ 0) (empty : s0.pageFreeList = none) :
    ∃ s fl, pageInit s0 = .ok s ∧ Initialised s0 (s0.npages - 1) s fl := by
  unfold pageInit
  have start : ∃ fl, Initialised s0 0 (markUsed s0 0) fl := by
    refine ⟨[], ?_, List.nodup_nil, ?_, by simp, rfl, rfl⟩
    · unfold FreeList
      rw [markUsed, State.setInfo_pageFreeList, empty]
      exact .nil
    · intro p
      simp only [List.not_mem_nil, Nat.le_zero_eq, false_iff, not_and, not_not]
      intro zero
      exact Or.inl zero
  obtain ⟨s, run, fl, done⟩ := times_total (fun k s => ∃ fl, Initialised s0 k s fl) start
    (fun k a _ before => by
      obtain ⟨fl, now⟩ := before
      have going : a.nextfree ≠ 0 := by
        rw [now.quiet.nextfree]
        exact started
      exact ⟨_, pageInitStep_eq going (Nat.succ_ne_zero k), initOne_keeps now⟩)
  exact ⟨s, fl, run, done⟩

end PageInit

section MemInitAlloc
variable (m : Machine)

def kernTop : Nat := roundUp m.kernEnd PGSIZE

def pagesBase : Nat := kernTop m + PGSIZE

def envsBase : Nat := pagesBase m + wholePages (sizeofPageInfo * m.npages)

def bootEnd : Nat := envsBase m + sizeofEnv * NENV

/-- What boot_alloc hands out ends inside physical memory. -/
def Fits : Prop := bootEnd m ≤ KERNBASE + m.npages * PGSIZE ∧ m.npages < 65536

instance : Decidable (Fits m) := inferInstanceAs (Decidable (_ ∧ _))

def kernPage : Nat := pgnum (kernTop m - KERNBASE)

theorem kernTop_bounds : kernTop m % PGSIZE = 0 ∧ KERNBASE + EXTPHYSMEM ≤ kernTop m ∧
    m.kernEnd ≤ kernTop m ∧ kernTop m ≤ KERNBASE + PTSIZE := by
  have linked := m.linked
  simp only [kernTop, roundUp, roundDown_eq, KERNBASE, EXTPHYSMEM, PTSIZE, PGSIZE, NPTENTRIES,
    WORD] at *
  omega

theorem kernPage_eq : kernPage m = (kernTop m - KERNBASE) / 4096 := pgnum_eq _

theorem layout_bounds : pagesBase m % PGSIZE = 0 ∧ envsBase m % PGSIZE = 0 ∧ bootEnd m % PGSIZE = 0 ∧
    KERNBASE < pagesBase m ∧ pagesBase m ≤ envsBase m ∧
    envsBase m ≤ KERNBASE + PTSIZE + 2 * PGSIZE + 8 * m.npages ∧
    bootEnd m = envsBase m + 98304 := by
  obtain ⟨aligned, low, _, high⟩ := kernTop_bounds m
  have machine := m.npages_le
  simp only [pagesBase, envsBase, bootEnd, wholePages, sizeofPageInfo, sizeofEnv, NENV, LOG2NENV,
    KERNBASE, EXTPHYSMEM, PTSIZE, PGSIZE, NPTENTRIES] at *
  omega

def kernDirMade : State :=
  let s := { powerOn m with nextfree := pagesBase m, kernPgdir := kernPage m }
  let s := s.setFrame s.kernPgdir zeroFrame
  s.setEntry s.kernPgdir (pdx UVPT) (kernTop m - KERNBASE ||| PTE_U ||| PTE_P)

def allocated : State :=
  { kernDirMade m with pagesKva := pagesBase m, envsKva := envsBase m, nextfree := bootEnd m }

theorem bootAlloc_dir :
    bootAlloc (powerOn m) PGSIZE =
      if pagesBase m ≤ KERNBASE + m.npages * PGSIZE ∧ m.npages < 65536
      then .ok (kernTop m, { powerOn m with nextfree := pagesBase m })
      else .error .outOfMemory := by
  obtain ⟨aligned, low, _, high⟩ := kernTop_bounds m
  have small : kernTop m + PGSIZE < WORD - PGSIZE := by
    simp only [KERNBASE, PTSIZE, PGSIZE, NPTENTRIES, WORD] at high ⊢
    omega
  have above : KERNBASE ≤ kernTop m := Nat.le_trans (Nat.le_add_right _ _) low
  exact bootAlloc_fits (s := powerOn m) (by decide) m.npages_le aligned small above

theorem bootAlloc_pages (memory : m.npages ≠ 0) :
    bootAlloc (kernDirMade m) (sizeofPageInfo * (kernDirMade m).npages % WORD) =
      if envsBase m ≤ KERNBASE + m.npages * PGSIZE ∧ m.npages < 65536
      then .ok (pagesBase m, { kernDirMade m with nextfree := envsBase m })
      else .error .outOfMemory := by
  obtain ⟨aligned, _, _, high, order, bound, _⟩ := layout_bounds m
  have machine := m.npages_le
  have bytes : sizeofPageInfo * (kernDirMade m).npages % WORD = sizeofPageInfo * m.npages := by
    change 8 * m.npages % WORD = 8 * m.npages
    simp only [WORD]
    omega
  have next : bootNext (kernDirMade m) = pagesBase m := by
    have started : (kernDirMade m).nextfree ≠ 0 := by
      change pagesBase m ≠ 0
      omega
    rw [bootNext, if_neg started]
    rfl
  have small : bootNext (kernDirMade m) + sizeofPageInfo * m.npages < WORD - PGSIZE := by
    rw [next]
    simp only [sizeofPageInfo, KERNBASE, PTSIZE, PGSIZE, NPTENTRIES, WORD] at *
    omega
  have alloc := bootAlloc_fits (s := kernDirMade m) (n := sizeofPageInfo * m.npages)
    (by simp only [sizeofPageInfo]; omega) machine (by rw [next]; exact aligned) small
    (by rw [next]; exact Nat.le_of_lt high)
  rw [bytes, alloc, next]
  rfl

theorem bootAlloc_envs :
    bootAlloc { kernDirMade m with nextfree := envsBase m, pagesKva := pagesBase m }
        (sizeofEnv * NENV) =
      if Fits m then .ok (envsBase m,
        { kernDirMade m with nextfree := bootEnd m, pagesKva := pagesBase m })
      else .error .outOfMemory := by
  obtain ⟨_, aligned, _, high, order, bound, last⟩ := layout_bounds m
  have machine := m.npages_le
  have next : bootNext { kernDirMade m with nextfree := envsBase m, pagesKva := pagesBase m } =
      envsBase m := by
    have started : envsBase m ≠ 0 := by omega
    rw [bootNext, if_neg (by exact started)]
  have whole : wholePages (sizeofEnv * NENV) = 98304 := by decide
  have small : envsBase m + sizeofEnv * NENV < WORD - PGSIZE := by
    simp only [sizeofEnv, NENV, LOG2NENV, KERNBASE, PTSIZE, PGSIZE, NPTENTRIES, WORD] at *
    omega
  rw [bootAlloc_fits (by decide) machine (by rw [next]; exact aligned) (by rw [next]; exact small)
    (by rw [next]; omega), next, whole, ← last]
  rfl

/-- mem_init panics before page_init when memory is too small, and reaches it otherwise. -/
theorem memInitAlloc_eq :
    memInitAlloc (powerOn m) = if Fits m then pageInit (allocated m) else .error .outOfMemory := by
  obtain ⟨_, _, _, high, order, _, last⟩ := layout_bounds m
  obtain ⟨_, low, _, _⟩ := kernTop_bounds m
  have mapped : paddr (kernTop m) = .ok (kernTop m - KERNBASE) := by
    apply if_neg
    simp only [KERNBASE, EXTPHYSMEM] at low ⊢
    omega
  unfold memInitAlloc
  rw [bootAlloc_dir]
  by_cases first : pagesBase m ≤ KERNBASE + m.npages * PGSIZE ∧ m.npages < 65536
  · rw [if_pos first, ok_bind]
    have memory : m.npages ≠ 0 := by
      intro zero
      simp only [zero, KERNBASE] at first high
      omega
    dsimp only
    rw [mapped, ok_bind]
    change (bootAlloc (kernDirMade m) (sizeofPageInfo * (kernDirMade m).npages % WORD) >>= _) = _
    rw [bootAlloc_pages m memory]
    by_cases second : envsBase m ≤ KERNBASE + m.npages * PGSIZE ∧ m.npages < 65536
    · rw [if_pos second, ok_bind]
      change (bootAlloc { kernDirMade m with nextfree := envsBase m, pagesKva := pagesBase m }
        (sizeofEnv * NENV) >>= _) = _
      rw [bootAlloc_envs m]
      by_cases third : Fits m
      · rw [if_pos third, if_pos third]
        rfl
      · rw [if_neg third, if_neg third]
        rfl
    · have unfit : ¬ Fits m := by
        intro fits
        exact second ⟨by have := fits.1; omega, fits.2⟩
      rw [if_neg second, if_neg unfit]
      rfl
  · have unfit : ¬ Fits m := by
      intro fits
      exact first ⟨by have := fits.1; omega, fits.2⟩
    rw [if_neg first, if_neg unfit]
    rfl

structure Booted (s : State) : Prop where
  npages : s.npages = m.npages
  nextfree : s.nextfree = bootEnd m
  kernPgdir : s.kernPgdir = kernPage m
  pagesKva : s.pagesKva = pagesBase m
  envsKva : s.envsKva = envsBase m
  bootstack : s.bootstack = m.bootstack
  envs : s.envs = m.envs
  curenv : s.curenv = none
  envFreeList : s.envFreeList = none
  dir : ∀ i, s.entry (kernPage m) i = if i = uvptPde then mapEntry (kernPage m) PTE_U else 0

theorem kernPage_room : kernPage m < 1048576 ∧ page2pa (kernPage m) = kernTop m - KERNBASE := by
  obtain ⟨aligned, low, _, high⟩ := kernTop_bounds m
  rw [kernPage_eq]
  simp only [page2pa, KERNBASE, EXTPHYSMEM, PTSIZE, PGSIZE, NPTENTRIES] at *
  omega

theorem allocated_dir (i : Nat) : (allocated m).entry (kernPage m) i =
    if i = uvptPde then mapEntry (kernPage m) PTE_U else 0 := by
  obtain ⟨room, address⟩ := kernPage_room m
  have value : kernTop m - KERNBASE ||| PTE_U ||| PTE_P = mapEntry (kernPage m) PTE_U := by
    rw [mapEntry, address]
  have small : mapEntry (kernPage m) PTE_U < WORD := mapEntry_lt room (by decide)
  have same : (allocated m).entry (kernPage m) i = (kernDirMade m).entry (kernPage m) i := by
    simp only [State.entry, allocated]
  rw [same]
  unfold kernDirMade
  simp only [State.setFrame_kernPgdir]
  rw [value, ← uvptPde_eq]
  split
  · rename_i here
    subst here
    exact State.entry_setEntry_same _ _ _ _ small
  · rename_i other
    rw [State.entry_setEntry_of_ne _ _ _ _ (Or.inr other)]
    simp [State.entry]

theorem kernPage_boot : bootPage (bootEnd m) (kernPage m) := by
  obtain ⟨aligned, low, _, high⟩ := kernTop_bounds m
  obtain ⟨_, _, _, order1, order2, bound, last⟩ := layout_bounds m
  have machine := m.npages_le
  right
  right
  rw [kernPage_eq]
  simp only [kernelPages, pagesBase, KERNBASE, EXTPHYSMEM, PTSIZE, PGSIZE, NPTENTRIES, WORD] at *
  omega

theorem Booted.entries {s : State} (booted : Booted m s) (i : Nat) :
    entryPage (s.entry s.kernPgdir i) = if i = uvptPde then some (kernPage m) else none := by
  rw [booted.kernPgdir, booted.dir]
  split
  · exact entryPage_mapEntry (kernPage_room m).1 (by decide)
  · exact entryPage_zero

theorem Booted.nobody {s : State} (booted : Booted m s) (x : PageSlot) :
    target (fun _ => none) none s x = none := by
  cases x with
  | hand => rfl
  | root e => rfl
  | table e d => rfl
  | leaf e d i => rfl
  | fixed k =>
    change (if userPdes ≤ k.val ∧ k.val ≠ uvptPde then entryPage (s.entry s.kernPgdir k)
      else none) = none
    split
    · rename_i upper
      rw [booted.entries, if_neg upper.2]
    · rfl

/-- The state page_init leaves has its books in order: every page that is not in use is free. -/
theorem memInitAlloc_fits (fits : Fits m) :
    ∃ s fl, memInitAlloc (powerOn m) = .ok s ∧ Booted m s ∧
      Accounted (fun _ => none) none s fl ∧ ∀ p, p ∈ fl ↔ Managed s p := by
  obtain ⟨_, _, _, high, order, bound, last⟩ := layout_bounds m
  have started : (allocated m).nextfree ≠ 0 := by
    change bootEnd m ≠ 0
    omega
  obtain ⟨s, fl, run, done⟩ := pageInit_spec started rfl
  have booted : Booted m s := by
    refine ⟨done.quiet.npages, done.quiet.nextfree, done.quiet.kernPgdir, done.quiet.pagesKva,
      done.quiet.envsKva, done.quiet.bootstack, done.quiet.envs, done.quiet.curenv,
      done.quiet.envFreeList, ?_⟩
    intro i
    rw [← allocated_dir]
    simp only [State.entry, done.mem]
  have managed : ∀ p, p ∈ fl ↔ Managed s p := by
    intro p
    rw [done.free]
    unfold Managed
    rw [done.quiet.npages, done.quiet.nextfree]
    constructor
    · intro both
      refine ⟨?_, both.2⟩
      have page : p ≠ 0 := fun zero => both.2 (Or.inl zero)
      omega
    · intro both
      exact ⟨by omega, both.2⟩
  have unused : ∀ p, refs (target (fun _ => none) none s) p = 0 := by
    intro p
    rw [refs_zero]
    intro x held
    rw [booted.nobody] at held
    cases held
  refine ⟨s, fl, ?_, booted, ⟨done.list, done.nodup, fun p listed => (managed p).mp listed, ?_, ?_,
    ?_, ?_, ?_, ?_, ?_⟩, managed⟩
  · rw [memInitAlloc_eq, if_pos fits]
    exact run
  · intro p _
    exact refs_zero.mp (unused p)
  · intro p within
    rw [unused p]
    exact done.zero p ((managed p).mpr within)
  · intro x p held
    rw [booted.nobody] at held
    cases held
  · intro x y p _ _ held _
    change target (fun _ => none) none s x = some p at held
    rw [booted.nobody] at held
    cases held
  · intro d low
    have other : d ≠ uvptPde := by
      simp only [userPdes, uvptPde] at low ⊢
      omega
    rw [booted.entries, if_neg other]
  · intro within
    apply within.2
    rw [booted.kernPgdir, booted.nextfree]
    exact kernPage_boot m
  · have machine := m.npages_le
    rw [booted.npages]
    omega

theorem memInitAlloc_ok {s : State} (run : memInitAlloc (powerOn m) = .ok s) :
    Fits m ∧ Booted m s ∧ ∃ fl, Accounted (fun _ => none) none s fl ∧ ∀ p, p ∈ fl ↔ Managed s p := by
  have fits : Fits m := by
    by_contra unfit
    rw [memInitAlloc_eq, if_neg unfit] at run
    cases run
  obtain ⟨s', fl, run', booted, acc, all⟩ := memInitAlloc_fits m fits
  rw [run'] at run
  cases run
  exact ⟨fits, booted, fl, acc, all⟩

end MemInitAlloc

theorem smallMachine_fits : Fits smallMachine := by decide

end JosBootPages
