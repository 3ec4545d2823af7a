import Jos.IntrusiveList
import Jos.Machine

/- kern/pmap.c and the inline functions of kern/pmap.h. Every definition follows the C function
   of its name; a call that panics is an error, and a call that returns a value besides its
   effect returns a pair. -/
namespace JosPmap
open JosLayout FrameWords JosMachine CountedLoop IntrusiveList

/-- A pte_t *: the page that holds the table, and the index in it. -/
structure PtePtr where
  table : Nat
  idx : Nat
  deriving DecidableEq

def kaddr (s : State) (pa : Nat) : Except Panic Nat :=
  if pgnum pa ≥ s.npages then .error (.kaddr pa) else .ok (pgnum pa)

def pa2page (s : State) (pa : Nat) : Except Panic Nat :=
  if pgnum pa ≥ s.npages then .error .pa2page else .ok (pgnum pa)

def page2pa (pp : Nat) : Nat := pp * PGSIZE

def page2kva (s : State) (pp : Nat) : Except Panic Nat := kaddr s (page2pa pp)

section Pages
variable {s : State} {p x : Nat}

@[simp] theorem pgnum_page2pa (p : Nat) : pgnum (page2pa p) = p := by
  simp only [pgnum_eq, page2pa, PGSIZE]
  omega

theorem page2kva_ok (inside : p < s.npages) : page2kva s p = .ok p := by
  unfold page2kva kaddr
  rw [pgnum_page2pa, if_neg (Nat.not_le.mpr inside)]

theorem kaddr_entry (inside : ppn x < s.npages) : kaddr s (pteAddr x) = .ok (ppn x) :=
  if_neg (Nat.not_le.mpr inside)

theorem pa2page_entry (inside : ppn x < s.npages) : pa2page s (pteAddr x) = .ok (ppn x) :=
  if_neg (Nat.not_le.mpr inside)

theorem pa2page_ok (inside : p < s.npages) : pa2page s (page2pa p) = .ok p := by
  unfold pa2page
  rw [pgnum_page2pa, if_neg (Nat.not_le.mpr inside)]

end Pages

def paddr (kva : Nat) : Except Panic Nat :=
  if kva < KERNBASE then .error (.paddr kva) else .ok (kva - KERNBASE)

/- nextfree is static and starts as a null pointer; end comes from the linker. -/
def bootAlloc (s : State) (n : Nat) : Except Panic (Nat × State) :=
  let s := if s.nextfree = 0 then { s with nextfree := roundUp s.kernEnd PGSIZE } else s
  if n = 0 then .ok (s.nextfree, s)
  else
    let result := s.nextfree
    let s := { s with nextfree := roundUp ((s.nextfree + n) % WORD) PGSIZE }
    if s.nextfree > (KERNBASE + s.npages * PGSIZE) % WORD then .error .outOfMemory
    else .ok (result, s)

/-- ((uint32_t)boot_alloc(0) - KERNBASE) / PGSIZE -/
def kernelPages (free : Nat) : Nat := (free + WORD - KERNBASE) % WORD / PGSIZE

/-- The pages page_init leaves in use: page 0, the IO hole, and what lies in extended memory
    below the end of boot-time allocation. -/
def bootPage (nextfree i : Nat) : Prop :=
  i = 0 ∨ (IOPHYSMEM / PGSIZE ≤ i ∧ i < EXTPHYSMEM / PGSIZE) ∨
    (EXTPHYSMEM / PGSIZE ≤ i ∧ i < kernelPages nextfree)

instance (nextfree i : Nat) : Decidable (bootPage nextfree i) :=
  inferInstanceAs (Decidable (_ ∨ _ ∨ _))

def markUsed (s : State) (i : Nat) : State := s.setInfo i ⟨none, 1⟩

def markFree (s : State) (i : Nat) : State :=
  let s := s.setInfo i ⟨s.pageFreeList, 0⟩
  { s with pageFreeList := some i }

/-- One round of the loop of page_init, for page i. Its second test calls boot_alloc only where
    the first part of the conjunction holds. -/
def pageInitStep (s : State) (i : Nat) : Except Panic State :=
  if i ≥ IOPHYSMEM / PGSIZE ∧ i < EXTPHYSMEM / PGSIZE then .ok (markUsed s i)
  else if i ≥ EXTPHYSMEM / PGSIZE then do
    let (free, s) ← bootAlloc s 0
    if i < kernelPages free then .ok (markUsed s i) else .ok (markFree s i)
  else .ok (markFree s i)

def pageInit (s : State) : Except Panic State :=
  times (fun k s => pageInitStep s (k + 1)) (s.npages - 1) (markUsed s 0)

def FreeList (s : State) (fl : List Nat) : Prop :=
  Chain (fun p => (s.pages p).ppLink) s.pageFreeList fl

/- alloc_flags carries one flag, ALLOC_ZERO. -/
def pageAlloc (s : State) (zero : Bool) : Except Panic (Option Nat × State) :=
  match s.pageFreeList with
  | none => .ok (none, s)
  | some page => do
    let s := { s with pageFreeList := (s.pages page).ppLink }
    let s := s.setInfo page { s.pages page with ppLink := none }
    if zero then
      let frame ← page2kva s page
      .ok (some page, s.setFrame frame zeroFrame)
    else .ok (some page, s)

def pageFree (s : State) (pp : Nat) : State :=
  let s := s.setInfo pp { s.pages pp with ppLink := s.pageFreeList }
  { s with pageFreeList := some pp }

def pageDecref (s : State) (pp : Nat) : State :=
  let s := s.setRef pp ((s.pages pp).ppRef - 1)
  if (s.pages pp).ppRef = 0 then pageFree s pp else s

def pgdirWalk (s : State) (pgdir va : Nat) (create : Bool) :
    Except Panic (Option PtePtr × State) :=
  let pde := s.entry pgdir (pdx va)
  if Present pde then do
    let table ← kaddr s (pteAddr pde)
    .ok (some ⟨table, ptx va⟩, s)
  else if create = false then .ok (none, s)
  else do
    let (newPg, s) ← pageAlloc s true
    match newPg with
    | none => .ok (none, s)
    | some newPg =>
      let s := s.setRef newPg ((s.pages newPg).ppRef + 1)
      let s := s.setEntry pgdir (pdx va) (page2pa newPg ||| PTE_U ||| PTE_W ||| PTE_P)
      let table ← kaddr s (pteAddr (s.entry pgdir (pdx va)))
      .ok (some ⟨table, ptx va⟩, s)

section Walk
variable {s : State} {pgdir va : Nat}

theorem pgdirWalk_present (present : Present (s.entry pgdir (pdx va)))
    (room : ppn (s.entry pgdir (pdx va)) < s.npages) (create : Bool) :
    pgdirWalk s pgdir va create = .ok (some ⟨ppn (s.entry pgdir (pdx va)), ptx va⟩, s) := by
  unfold pgdirWalk
  rw [if_pos present, kaddr_entry room]
  rfl

theorem pgdirWalk_wild (present : Present (s.entry pgdir (pdx va)))
    (outside : ¬ ppn (s.entry pgdir (pdx va)) < s.npages) (create : Bool) :
    pgdirWalk s pgdir va create = .error (.kaddr (pteAddr (s.entry pgdir (pdx va)))) := by
  have beyond : pgnum (pteAddr (s.entry pgdir (pdx va))) ≥ s.npages := Nat.not_lt.mp outside
  unfold pgdirWalk
  rw [if_pos present, kaddr, if_pos beyond]
  rfl

theorem pgdirWalk_absent (absent : ¬ Present (s.entry pgdir (pdx va))) :
    pgdirWalk s pgdir va false = .ok (none, s) := by
  unfold pgdirWalk
  rw [if_neg absent, if_pos rfl]

theorem pgdirWalk_lookup {p : Option PtePtr} {s' : State}
    (walked : pgdirWalk s pgdir va false = .ok (p, s')) : s' = s := by
  by_cases present : Present (s.entry pgdir (pdx va))
  · by_cases room : ppn (s.entry pgdir (pdx va)) < s.npages
    · rw [pgdirWalk_present present room] at walked
      cases walked
      rfl
    · rw [pgdirWalk_wild present room] at walked
      cases walked
  · rw [pgdirWalk_absent present] at walked
    cases walked
    rfl

end Walk

def bootMapStep (pgdir va pa perm : Nat) (s : State) (i : Nat) : Except Panic State := do
  let (p, s) ← pgdirWalk s pgdir ((va + i) % WORD) true
  match p with
  | none => .error .mappingFailed
  | some p => .ok (s.setEntry p.table p.idx ((pa + i) % WORD ||| perm ||| PTE_P))

def bootMapRegion (s : State) (pgdir va size pa perm : Nat) : Except Panic State :=
  times (fun k s => bootMapStep pgdir va pa perm s (k * PGSIZE)) ((size + PGSIZE - 1) / PGSIZE) s

def tlbInvalidate (s : State) (va : Nat) : State :=
  { s with tlb := Function.update s.tlb (pgnum va) none }

def pageLookup (s : State) (pgdir va : Nat) : Except Panic (Option (Nat × PtePtr)) := do
  let (p, s) ← pgdirWalk s pgdir va false
  match p with
  | none => .ok none
  | some p =>
    if ¬ Present (s.entry p.table p.idx) then .ok none
    else
      let page ← pa2page s (pteAddr (s.entry p.table p.idx))
      .ok (some (page, p))

def pageRemove (s : State) (pgdir va : Nat) : Except Panic State := do
  match ← pageLookup s pgdir va with
  | none => .ok s
  | some (pg, p) =>
    let s := pageDecref s pg
    let s := s.setEntry p.table p.idx 0
    .ok (tlbInvalidate s va)

def pageInsert (s : State) (pgdir pp va perm : Nat) : Except Panic (Int × State) := do
  let (p, s) ← pgdirWalk s pgdir va true
  match p with
  | none => .ok (-E_NO_MEM, s)
  | some p =>
    let s := s.setRef pp ((s.pages pp).ppRef + 1)
    let s ← if Present (s.entry p.table p.idx) then pageRemove s pgdir va else .ok s
    let s := s.setEntry p.table p.idx (page2pa pp ||| perm ||| PTE_P)
    .ok (0, s.setEntry pgdir (pdx va) (s.entry pgdir (pdx va) ||| perm))

def badPage (s : State) (pte : Option PtePtr) (addr perm : Nat) : Prop :=
  addr ≥ ULIM ∨ match pte with
    | none => True
    | some p => ¬ Present (s.entry p.table p.idx) ∨ s.entry p.table p.idx &&& perm ≠ perm

instance (s : State) (pte : Option PtePtr) (addr perm : Nat) : Decidable (badPage s pte addr perm) := by
  unfold badPage
  cases pte <;> infer_instance

/-- env->env_pgdir through a null pointer, where env_pgdir is 92 bytes in, is a kernel-mode fault. -/
def derefEnv (env : Option Nat) : Except Panic Nat :=
  match env with
  | none => .error (.kernelPageFault 92)
  | some e => .ok e

/-- So is env_pgdir[i] when env_pgdir is null. -/
def derefPgdir (env : Env) (va : Nat) : Except Panic Nat :=
  match env.envPgdir with
  | none => .error (.kernelPageFault (4 * pdx va))
  | some pgdir => .ok pgdir

/- The while loop of user_mem_check over pages pages from addr on. addr and end are multiples
   of PGSIZE, so the sum addr + PGSIZE never passes end and does not wrap. -/
def userMemCheckLoop (s : State) (env : Option Nat) (va perm : Nat) (addr : Nat) :
    Nat → Except Panic (Int × State)
  | 0 => .ok (0, s)
  | pages + 1 => do
    let e ← derefEnv env
    let pgdir ← derefPgdir (s.envs e) addr
    let (pte, s) ← pgdirWalk s pgdir addr false
    if badPage s pte addr perm then
      .ok (-E_FAULT, { s with userMemCheckAddr := if addr < va then va else addr })
    else userMemCheckLoop s env va perm (addr + PGSIZE) pages

def userMemCheck (s : State) (env : Option Nat) (va len perm : Nat) : Except Panic (Int × State) :=
  let addr := roundDown va PGSIZE
  let stop := roundUp ((va + len) % WORD) PGSIZE
  userMemCheckLoop s env va perm addr ((stop - addr) / PGSIZE)

end JosPmap
