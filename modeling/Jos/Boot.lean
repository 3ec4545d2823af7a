import Jos.Env
import Jos.IntrusiveList

/- mem_init, from the power-on state to the kernel's own page directory. -/
namespace JosBoot
open JosLayout FrameWords JosMachine JosPmap JosMmu JosEnv CountedLoop IntrusiveList

/-- What mem_init finds: the size of memory, the symbols the linker script defines, and the
    contents of memory, which nobody has cleared where boot_alloc will put envs[] and pages[]. -/
structure Machine where
  npages : Nat
  kernEnd : Nat
  bootstack : Nat
  mem : Nat → Frame
  pages : Nat → PageInfo
  envs : Nat → Env
  /-- the kernel maps at most 256MB at KERNBASE -/
  npages_le : npages ≤ 65536
  /-- kern/kernel.ld links the kernel at KERNBASE + 1MB, and kern/entrypgdir.c maps 4MB of it -/
  linked : KERNBASE + EXTPHYSMEM ≤ kernEnd ∧ kernEnd ≤ KERNBASE + PTSIZE
  bootstack_linked : KERNBASE + EXTPHYSMEM ≤ bootstack ∧ bootstack + KSTKSIZE ≤ kernEnd
  bootstack_aligned : bootstack % PGSIZE = 0

def powerOn (m : Machine) : State where
  npages := m.npages
  mem := m.mem
  pages := m.pages
  pageFreeList := none
  nextfree := 0
  kernEnd := m.kernEnd
  bootstack := m.bootstack
  kernPgdir := 0
  pagesKva := 0
  envsKva := 0
  envs := m.envs
  envFreeList := none
  curenv := none
  cr3 := 0
  tlb := fun _ => none
  userMemCheckAddr := 0

def idleEnv : Env where
  envTf := zeroTrapframe
  envLink := none
  envId := 0
  envParentId := 0
  envType := .user
  envStatus := ENV_FREE
  envRuns := 0
  envPgdir := none

def smallMachine : Machine where
  npages := 1024
  kernEnd := 0xF0182000
  bootstack := 0xF0116000
  mem := fun _ => zeroFrame
  pages := fun _ => ⟨none, 0⟩
  envs := fun _ => idleEnv
  npages_le := by decide
  linked := by decide
  bootstack_linked := by decide
  bootstack_aligned := by decide

abbrev sizeofPageInfo : Nat := 8
abbrev sizeofEnv : Nat := 96

def memInitAlloc (s : State) : Except Panic State := do
  let (kva, s) ← bootAlloc s PGSIZE
  let pa ← paddr kva
  let s := { s with kernPgdir := pgnum pa }
  let s := s.setFrame s.kernPgdir zeroFrame
  let s := s.setEntry s.kernPgdir (pdx UVPT) (pa ||| PTE_U ||| PTE_P)
  let (kva, s) ← bootAlloc s (sizeofPageInfo * s.npages % WORD)
  let s := { s with pagesKva := kva }
  let (kva, s) ← bootAlloc s (sizeofEnv * NENV)
  let s := { s with envsKva := kva }
  pageInit s

def memInitMap (s : State) : Except Panic State := do
  let pa ← paddr s.pagesKva
  let s ← bootMapRegion s s.kernPgdir UPAGES PTSIZE pa PTE_U
  let pa ← paddr s.envsKva
  let s ← bootMapRegion s s.kernPgdir UENVS PTSIZE pa PTE_U
  let pa ← paddr s.bootstack
  let s ← bootMapRegion s s.kernPgdir (KSTACKTOP - KSTKSIZE) KSTKSIZE pa PTE_W
  bootMapRegion s s.kernPgdir KERNBASE (WORD - KERNBASE) 0 PTE_W

/-- What the assertions between and after these stages leave behind: they reorder the free
    list, scribble on free pages, take and give back pages and table slots of kern_pgdir, and
    touch the TLB. -/
structure SelfChecked (s s' : State) : Prop where
  reordered : ∀ fl, FreeList s fl → ∃ fl', FreeList s' fl' ∧ fl.Perm fl'
  contents : ∀ p fl, FreeList s fl → p ∉ fl → s'.mem p = s.mem p
  links : ∀ p fl, FreeList s fl → p ∉ fl → s'.pages p = s.pages p
  counts : ∀ p, (s'.pages p).ppRef = (s.pages p).ppRef
  rest : s' = { s with
    mem := s'.mem, pages := s'.pages, pageFreeList := s'.pageFreeList, tlb := s'.tlb }

def MemInit (s s' : State) : Prop :=
  ∃ a b c, memInitAlloc s = .ok a ∧ SelfChecked a b ∧ memInitMap b = .ok c ∧
    SelfChecked (lcr3 c c.kernPgdir) s'

end JosBoot
