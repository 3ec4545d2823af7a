import Jos.PageListCheck

/- check_page_alloc, check_kern_pgdir, check_va2pa, check_page and check_page_installed_pgdir of
   kern/pmap.c, and mem_init with all its self-checks. An assertion that fails is a panic. -/
namespace JosSelfChecks
open JosLayout FrameWords JosMachine JosPmap JosMmu JosBoot JosPageListCheck CountedLoop WhileLoop

def assert (holds : Prop) [Decidable holds] : Except Panic Unit :=
  if holds then .ok () else .error .assertion

section Assert
variable {holds : Prop} [Decidable holds]

@[simp] theorem assert_pos (h : holds) : assert holds = .ok () := if_pos h

end Assert

def takePage (s : State) (zero : Bool) : Except Panic (Nat × State) := do
  let (pp, s) ← pageAlloc s zero
  match pp with
  | none => .error .assertion
  | some pp => .ok (pp, s)

def noPage (s : State) : Except Panic State := do
  let (pp, s) ← pageAlloc s false
  assert (pp = none)
  .ok s

def fillPage (s : State) (pp : Nat) (c : UInt8) : Except Panic State := do
  let frame ← page2kva s pp
  .ok (s.setFrame frame fun _ => c)

/-- pp0 to pp2, as check_page_alloc, check_page and check_page_installed_pgdir take them. -/
def takeThree (s : State) : Except Panic (Nat × Nat × Nat × State) := do
  let (pp0, s) ← takePage s false
  let (pp1, s) ← takePage s false
  let (pp2, s) ← takePage s false
  .ok (pp0, pp1, pp2, s)

def assertApart (pp0 pp1 pp2 : Nat) : Except Panic Unit := do
  assert (pp1 ≠ pp0)
  assert (pp2 ≠ pp1 ∧ pp2 ≠ pp0)

def countRound (s : State) : Option Nat × Nat → Except CheckStop (Option (Option Nat × Nat))
  | (none, _) => .ok none
  | (some pp, nfree) => .ok (some ((s.pages pp).ppLink, nfree + 1))

def countFree (fuel : Nat) (s : State) : Except CheckStop Nat := do
  let (_, nfree) ← orUnfinished (← loop (countRound s) fuel (s.pageFreeList, 0))
  .ok nfree

def checkPageAllocPages (s : State) : Except Panic State := do
  let (pp0, pp1, pp2, s) ← takeThree s
  assertApart pp0 pp1 pp2
  assert (page2pa pp0 < s.npages * PGSIZE % WORD)
  assert (page2pa pp1 < s.npages * PGSIZE % WORD)
  assert (page2pa pp2 < s.npages * PGSIZE % WORD)
  let fl := s.pageFreeList
  let s ← noPage { s with pageFreeList := none }
  let s := pageFree (pageFree (pageFree s pp0) pp1) pp2
  let (pp0, pp1, pp2, s) ← takeThree s
  assertApart pp0 pp1 pp2
  let s ← noPage s
  let s ← fillPage s pp0 1
  let s := pageFree s pp0
  let (pp, s) ← takePage s true
  assert (pp0 = pp)
  let c ← page2kva s pp
  assert (∀ i < PGSIZE, s.mem c i = 0)
  let s := { s with pageFreeList := fl }
  .ok (pageFree (pageFree (pageFree s pp0) pp1) pp2)

/-- Why mem_init does not return. -/
inductive InitStop where
  | nullPages            -- "'pages' is a null pointer!"
  | check (stop : CheckStop)
  deriving DecidableEq

def orCheck {α : Type} (x : Except CheckStop α) : Except InitStop α := x.mapError .check

def checkPageAlloc (fuel : Nat) (s : State) : Except InitStop State :=
  if s.pagesKva = 0 then .error .nullPages
  else orCheck do
    let nfree ← countFree fuel s
    let s ← orPanic (checkPageAllocPages s)
    let left ← countFree fuel s
    orPanic (assert (nfree = left))
    .ok s

theorem pteAddr_eq (x : Nat) : pteAddr x = page2pa (ppn x) := by
  have low : pteAddr x % 2 ^ 12 = 0 := by
    have mask : 0xFFFFF000 % 2 ^ 12 = 0 := by decide
    unfold pteAddr
    rw [Nat.and_mod_two_pow, mask, Nat.and_zero]
  unfold ppn page2pa
  rw [pgnum_eq, PGSIZE]
  omega

def checkVa2pa (s : State) (pgdir va : Nat) : Except Panic Nat :=
  let pde := s.entry pgdir (pdx va)
  if ¬ Present pde then .ok (WORD - 1)
  else do
    let p ← kaddr s (pteAddr pde)
    if ¬ Present (s.entry p (ptx va)) then .ok (WORD - 1)
    else .ok (pteAddr (s.entry p (ptx va)))

def assertVa2pa (s : State) (pgdir va pa : Nat) : Except Panic Unit := do
  let found ← checkVa2pa s pgdir va
  assert (found = pa)

def assertRegion (s : State) (va : Nat) (pa : Except Panic Nat) (n : Nat) : Except Panic Unit :=
  times (fun k _ => do
    let pa ← pa
    assertVa2pa s s.kernPgdir ((va + k * PGSIZE) % WORD) ((pa + k * PGSIZE) % WORD))
    ((n + PGSIZE - 1) / PGSIZE) ()

def assertPde (s : State) (i : Nat) : Except Panic Unit :=
  let pde := s.entry s.kernPgdir i
  if i = pdx UVPT ∨ i = pdx (KSTACKTOP - 1) ∨ i = pdx UPAGES ∨ i = pdx UENVS then
    assert (Present pde)
  else if i ≥ pdx KERNBASE then do
    assert (Present pde)
    assert (Writable pde)
  else assert (pde = 0)

def checkKernPgdir (s : State) : Except Panic Unit := do
  let n := roundUp (s.npages * sizeofPageInfo % WORD) PGSIZE
  assertRegion s UPAGES (paddr s.pagesKva) n
  let n := roundUp (NENV * sizeofEnv) PGSIZE
  assertRegion s UENVS (paddr s.envsKva) n
  assertRegion s KERNBASE (.ok 0) (s.npages * PGSIZE % WORD)
  assertRegion s (KSTACKTOP - KSTKSIZE) (paddr s.bootstack) KSTKSIZE
  assertVa2pa s s.kernPgdir (KSTACKTOP - PTSIZE) (WORD - 1)
  times (fun i _ => assertPde s i) NPDENTRIES ()

/-- *pgdir_walk(kern_pgdir, va, 0); entry_pgdir maps the first page too, so a null pointer is read
    as the first word of memory. -/
def walkedEntry (s : State) (va : Nat) : Except Panic Nat := do
  let (p, s) ← pgdirWalk s s.kernPgdir va false
  match p with
  | none => .ok (s.entry 0 0)
  | some p => .ok (s.entry p.table p.idx)

def assertInsert (s : State) (pp va perm : Nat) : Except Panic State := do
  let (r, s) ← pageInsert s s.kernPgdir pp va perm
  assert (r = 0)
  .ok s

def assertNoInsert (s : State) (pp va perm : Nat) : Except Panic State := do
  let (r, s) ← pageInsert s s.kernPgdir pp va perm
  assert (r < 0)
  .ok s

def assertTake (s : State) (pp' : Nat) : Except Panic State := do
  let (pp, s) ← takePage s false
  assert (pp = pp')
  .ok s

def assertRef (s : State) (pp : Nat) (n : UInt16) : Except Panic Unit :=
  assert ((s.pages pp).ppRef = n)

/- check_page, after it has taken three pages and hidden the free list, in six parts. -/

def checkFirstInsert (s : State) (pp0 pp1 : Nat) : Except Panic State := do
  let found ← pageLookup s s.kernPgdir 0
  assert (found = none)
  let s ← assertNoInsert s pp1 0 PTE_W
  let s ← assertInsert (pageFree s pp0) pp1 0 PTE_W
  assert (pteAddr (s.entry s.kernPgdir 0) = page2pa pp0)
  assertVa2pa s s.kernPgdir 0 (page2pa pp1)
  assertRef s pp1 1
  assertRef s pp0 1
  .ok s

def checkSecondInsert (s : State) (pp2 : Nat) : Except Panic State := do
  let s ← assertInsert s pp2 PGSIZE PTE_W
  assertVa2pa s s.kernPgdir PGSIZE (page2pa pp2)
  assertRef s pp2 1
  let s ← noPage s
  let s ← assertInsert s pp2 PGSIZE PTE_W
  assertVa2pa s s.kernPgdir PGSIZE (page2pa pp2)
  assertRef s pp2 1
  noPage s

def checkPerms (s : State) (pp2 : Nat) : Except Panic State := do
  let ptep ← kaddr s (pteAddr (s.entry s.kernPgdir (pdx PGSIZE)))
  let (p, s) ← pgdirWalk s s.kernPgdir PGSIZE false
  assert (p = some ⟨ptep, ptx PGSIZE⟩)
  let s ← assertInsert s pp2 PGSIZE (PTE_W ||| PTE_U)
  assertVa2pa s s.kernPgdir PGSIZE (page2pa pp2)
  assertRef s pp2 1
  let pte ← walkedEntry s PGSIZE
  assert (UserBit pte)
  assert (UserBit (s.entry s.kernPgdir 0))
  let s ← assertInsert s pp2 PGSIZE PTE_W
  let pte ← walkedEntry s PGSIZE
  assert (Writable pte)
  assert (¬ UserBit pte)
  .ok s

def checkReplace (s : State) (pp0 pp1 pp2 : Nat) : Except Panic State := do
  let s ← assertNoInsert s pp0 PTSIZE PTE_W
  let s ← assertInsert s pp1 PGSIZE PTE_W
  let pte ← walkedEntry s PGSIZE
  assert (¬ UserBit pte)
  assertVa2pa s s.kernPgdir 0 (page2pa pp1)
  assertVa2pa s s.kernPgdir PGSIZE (page2pa pp1)
  assertRef s pp1 2
  assertRef s pp2 0
  assertTake s pp2

def checkUnmap (s : State) (pp1 pp2 : Nat) : Except Panic State := do
  let s ← pageRemove s s.kernPgdir 0
  assertVa2pa s s.kernPgdir 0 (WORD - 1)
  assertVa2pa s s.kernPgdir PGSIZE (page2pa pp1)
  assertRef s pp1 1
  assertRef s pp2 0
  let s ← assertInsert s pp1 PGSIZE 0
  assert ((s.pages pp1).ppRef ≠ 0)
  assert ((s.pages pp1).ppLink = none)
  let s ← pageRemove s s.kernPgdir PGSIZE
  assertVa2pa s s.kernPgdir 0 (WORD - 1)
  assertVa2pa s s.kernPgdir PGSIZE (WORD - 1)
  assertRef s pp1 0
  assertRef s pp2 0
  let s ← assertTake s pp1
  noPage s

def takeBack (s : State) (pp0 i : Nat) : State := (s.setEntry s.kernPgdir i 0).setRef pp0 0

def checkWalks (s : State) (pp0 : Nat) : Except Panic State := do
  assert (pteAddr (s.entry s.kernPgdir 0) = page2pa pp0)
  assertRef (s.setEntry s.kernPgdir 0 0) pp0 1
  let s := pageFree (takeBack s pp0 0) pp0
  let va := PGSIZE * NPDENTRIES + PGSIZE
  let (ptep, s) ← pgdirWalk s s.kernPgdir va true
  let ptep1 ← kaddr s (pteAddr (s.entry s.kernPgdir (pdx va)))
  assert (ptep = some ⟨ptep1, ptx va⟩)
  let s := takeBack s pp0 (pdx va)
  let s ← fillPage s pp0 0xFF
  let (_, s) ← pgdirWalk (pageFree s pp0) s.kernPgdir 0 true
  let ptep ← page2kva s pp0
  assert (∀ i < NPTENTRIES, ¬ Present (s.entry ptep i))
  .ok (takeBack s pp0 0)

def checkPage (s : State) : Except Panic State := do
  let (pp0, pp1, pp2, s) ← takeThree s
  assertApart pp0 pp1 pp2
  let fl := s.pageFreeList
  let s ← noPage { s with pageFreeList := none }
  let s ← checkFirstInsert s pp0 pp1
  let s ← checkSecondInsert s pp2
  let s ← checkPerms s pp2
  let s ← checkReplace s pp0 pp1 pp2
  let s ← checkUnmap s pp1 pp2
  let s ← checkWalks s pp0
  let s := { s with pageFreeList := fl }
  .ok (pageFree (pageFree (pageFree s pp0) pp1) pp2)

/-- The translation an access of the kernel to va uses, which the processor keeps. -/
def translation (s : State) (va : Nat) : Except Panic (Translation × State) :=
  match s.tlb (pgnum va) with
  | some t => .ok (t, s)
  | none =>
    match walk s s.cr3 va with
    | none => .error (.kernelPageFault va)
    | some t => .ok (t, { s with tlb := Function.update s.tlb (pgnum va) (some t) })

def loadWord (s : State) (va : Nat) : Except Panic (Nat × State) := do
  let (t, s) ← translation s va
  .ok (s.entry (Translation.page t) (pgoff va / 4), s)

def storeWord (s : State) (va v : Nat) : Except Panic State := do
  let (t, s) ← translation s va
  if Translation.writable t then .ok (s.setEntry (Translation.page t) (pgoff va / 4) v)
  else .error (.kernelPageFault va)

def assertWord (s : State) (va v : Nat) : Except Panic State := do
  let (found, s) ← loadWord s va
  assert (found = v)
  .ok s

def checkPageInstalledPgdir (s : State) : Except Panic State := do
  let (pp0, pp1, pp2, s) ← takeThree s
  let s ← fillPage (pageFree s pp0) pp1 1
  let s ← fillPage s pp2 2
  let (_, s) ← pageInsert s s.kernPgdir pp1 PGSIZE PTE_W
  assertRef s pp1 1
  let s ← assertWord s PGSIZE 0x01010101
  let (_, s) ← pageInsert s s.kernPgdir pp2 PGSIZE PTE_W
  let s ← assertWord s PGSIZE 0x02020202
  assertRef s pp2 1
  assertRef s pp1 0
  let s ← storeWord s PGSIZE 0x03030303
  let frame ← page2kva s pp2
  assert (s.entry frame 0 = 0x03030303)
  let s ← pageRemove s s.kernPgdir PGSIZE
  assertRef s pp2 0
  assert (pteAddr (s.entry s.kernPgdir 0) = page2pa pp0)
  assertRef (s.setEntry s.kernPgdir 0 0) pp0 1
  .ok (pageFree (takeBack s pp0 0) pp0)

/-- mem_init up to lcr3, on a machine whose memory has been measured; pp12 is what the stack slots
    of the two calls of check_page_free_list happen to hold. -/
def memInitEarly (fuel : Nat) (pp12 : Bool → Option Nat) (s : State) : Except InitStop State := do
  let s ← orCheck (orPanic (memInitAlloc s))
  let s ← orCheck (checkPageFreeList fuel pp12 s true)
  let s ← checkPageAlloc fuel s
  let s ← orCheck (orPanic (checkPage s))
  let s ← orCheck (orPanic (memInitMap s))
  let () ← orCheck (orPanic (checkKernPgdir s))
  .ok s

def memInit (fuel : Nat) (pp12 : Bool → Option Nat) (s : State) : Except InitStop State := do
  let s ← memInitEarly fuel pp12 s
  let s ← orCheck (checkPageFreeList fuel pp12 (lcr3 s s.kernPgdir) false)
  orCheck (orPanic (checkPageInstalledPgdir s))

end JosSelfChecks
