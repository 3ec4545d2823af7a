import Jos.Mmu

/- kern/env.c: the environment table, the loader and the teardown of an environment. -/
namespace JosEnv
open JosLayout FrameWords JosMachine JosPmap JosMmu CountedLoop

abbrev ENVGENSHIFT : Nat := 12

def envx (envid : EnvId) : Nat := (envid &&& (BitVec.ofNat 32 NENV - 1)).toNat

def curenvId (s : State) : Except Panic EnvId :=
  match s.curenv with
  | none => .error (.kernelPageFault 72)
  | some c => .ok (s.envs c).envId

/-- The result and what is stored through env_store. -/
def envid2env (s : State) (envid : EnvId) (checkperm : Bool) : Except Panic (Int × Option Nat) :=
  if envid = 0 then .ok (0, s.curenv)
  else
    let e := envx envid
    if (s.envs e).envStatus = ENV_FREE ∨ (s.envs e).envId ≠ envid then .ok (-E_BAD_ENV, none)
    else if checkperm ∧ some e ≠ s.curenv then do
      let caller ← curenvId s
      if (s.envs e).envParentId ≠ caller then .ok (-E_BAD_ENV, none) else .ok (0, some e)
    else .ok (0, some e)

def envInitStep (s : State) (i : Nat) : State :=
  let s := s.setEnv i { s.envs i with envId := 0, envLink := s.envFreeList }
  { s with envFreeList := some i }

def envInitLoop : Nat → State → State
  | 0, s => s
  | n + 1, s => envInitLoop n (envInitStep s n)

def envInit (s : State) : State := envInitLoop NENV s

def envSetupVm (s : State) (e : Nat) : Except Panic (Int × State) := do
  let (p, s) ← pageAlloc s true
  match p with
  | none => .ok (-E_NO_MEM, s)
  | some p =>
    let s := s.setRef p ((s.pages p).ppRef + 1)
    let pgdir ← page2kva s p
    let s := s.setEnv e { s.envs e with envPgdir := some pgdir }
    let s := s.setFrame pgdir (s.mem s.kernPgdir)
    .ok (0, s.setEntry pgdir (pdx UVPT) (page2pa pgdir ||| PTE_P ||| PTE_U))

def nextEnvId (old : EnvId) (e : Nat) : EnvId :=
  let generation := (old + BitVec.ofNat 32 (1 <<< ENVGENSHIFT)) &&& ~~~(BitVec.ofNat 32 NENV - 1)
  let generation := if generation.toInt ≤ 0 then BitVec.ofNat 32 (1 <<< ENVGENSHIFT) else generation
  generation ||| BitVec.ofNat 32 e

def initialTrapframe : Trapframe :=
  { zeroTrapframe with
    tfDs := GD_UD ||| 3
    tfEs := GD_UD ||| 3
    tfSs := GD_UD ||| 3
    tfEsp := UInt32.ofNat USTACKTOP
    tfCs := GD_UT ||| 3 }

def envAlloc (s : State) (parentId : EnvId) : Except Panic (Int × Option Nat × State) :=
  match s.envFreeList with
  | none => .ok (-E_NO_FREE_ENV, none, s)
  | some e => do
    let (r, s) ← envSetupVm s e
    if r < 0 then .ok (r, none, s)
    else
      let s := s.setEnv e { s.envs e with
        envId := nextEnvId (s.envs e).envId e
        envParentId := parentId
        envType := .user
        envStatus := ENV_RUNNABLE
        envRuns := 0
        envTf := initialTrapframe }
      .ok (0, some e, { s with envFreeList := (s.envs e).envLink })

/-- A page region_alloc took from the allocator, and what page_insert returned for it. The C
    function keeps neither; they are recorded here to speak about whose page is whose. -/
structure Grant where
  page : Nat
  ret : Int
  deriving DecidableEq

def regionAllocStep (e : Nat) (addr : Nat) (got : List Grant × State) :
    Except Panic (List Grant × State) := do
  let (pg, s) ← pageAlloc got.2 false
  match pg with
  | none => .error .regionAllocFailed
  | some pg =>
    let pgdir ← derefPgdir (s.envs e) addr
    let (r, s) ← pageInsert s pgdir pg addr (PTE_W ||| PTE_U)
    .ok (⟨pg, r⟩ :: got.1, s)

def regionAlloc (got : List Grant × State) (e va len : Nat) : Except Panic (List Grant × State) :=
  let addr := roundDown va PGSIZE
  let stop := roundUp ((va + len) % WORD) PGSIZE
  times (fun k got => regionAllocStep e (addr + k * PGSIZE) got) ((stop - addr) / PGSIZE) got

/-- memset through the directory in CR3, one byte after the other. -/
def memset (s : State) (v : Nat) (c : UInt8) (n : Nat) : Except Panic State :=
  times (fun k s => kwrite s ((v + k) % WORD) c) n s

/-- The object load_icode is given: the bytes from binary on, by offset. It is never written,
    so which way memmove runs makes no difference to what memcpy stores. -/
structure Binary where
  addr : Nat
  byte : Nat → UInt8

namespace Binary

def half (b : Binary) (o : Nat) : Nat :=
  (b.byte (o % WORD)).toNat + 256 * (b.byte ((o + 1) % WORD)).toNat

def long (b : Binary) (o : Nat) : Nat := b.half o + 65536 * b.half (o + 2)

/- struct Elf -/
def eMagic (b : Binary) : Nat := b.long 0
def eEntry (b : Binary) : Nat := b.long 24
def ePhoff (b : Binary) : Nat := b.long 28
def ePhnum (b : Binary) : Nat := b.half 44

/- struct Proghdr, for the header at offset o -/
def pOffset (b : Binary) (o : Nat) : Nat := b.long (o + 4)
def pVa (b : Binary) (o : Nat) : Nat := b.long (o + 8)
def pFilesz (b : Binary) (o : Nat) : Nat := b.long (o + 16)
def pMemsz (b : Binary) (o : Nat) : Nat := b.long (o + 20)

def ph (b : Binary) (k : Nat) : Nat := b.ePhoff + 32 * k

def phCount (b : Binary) : Nat :=
  let ph := (b.addr + b.ePhoff) % WORD
  let eph := (ph + 32 * b.ePhnum) % WORD
  (eph - ph) / 32

end Binary

abbrev ELF_MAGIC : Nat := 0x464C457F

def memcpy (s : State) (dst : Nat) (src : Binary) (o n : Nat) : Except Panic State :=
  times (fun k s => kwrite s ((dst + k) % WORD) (src.byte ((o + k) % WORD))) n s

def loadSegment (e : Nat) (binary : Binary) (ph : Nat) (got : List Grant × State) :
    Except Panic (List Grant × State) := do
  let (grants, s) ← regionAlloc got e (binary.pVa ph) (binary.pMemsz ph)
  let s ← memset s (binary.pVa ph) 0 (binary.pMemsz ph)
  let s ← memcpy s (binary.pVa ph) binary (binary.pOffset ph) (binary.pFilesz ph)
  .ok (grants, s)

def paddrPgdir (env : Env) : Except Panic Nat :=
  match env.envPgdir with
  | none => .error (.paddr 0)
  | some pgdir => .ok pgdir

def loadIcode (s : State) (e : Nat) (binary : Binary) : Except Panic (List Grant × State) :=
  if binary.eMagic ≠ ELF_MAGIC then .error .badElf
  else do
    let pgdir ← paddrPgdir (s.envs e)
    let s := lcr3 s pgdir
    let (grants, s) ←
      times (fun k got => loadSegment e binary (binary.ph k) got) binary.phCount ([], s)
    let s := s.setEnv e { s.envs e with
      envTf := { (s.envs e).envTf with tfEip := UInt32.ofNat binary.eEntry } }
    let s := lcr3 s s.kernPgdir
    regionAlloc (grants, s) e (USTACKTOP - PGSIZE) PGSIZE

/-- env_create does not look at the result of env_alloc: when that failed, p is still the value
    p0 its stack slot happened to hold. -/
def envCreate (s : State) (p0 : Nat) (binary : Binary) :
    Except Panic (Nat × List Grant × State) := do
  let (_, p, s) ← envAlloc s 0
  let p := p.getD p0
  let (grants, s) ← loadIcode s p binary
  .ok (p, grants, s)

theorem envCreate_loads {s s1 s2 : State} {p0 e : Nat} {binary : Binary} {grants : List Grant}
    (fresh : envAlloc s 0 = .ok (0, some e, s1)) (run : envCreate s p0 binary = .ok (e, grants, s2)) :
    loadIcode s1 e binary = .ok (grants, s2) := by
  unfold envCreate at run
  rw [fresh, ok_bind] at run
  obtain ⟨got, took, last⟩ := bind_ok.mp run
  cases last
  exact took

def envFreePte (e pdeno table : Nat) (pteno : Nat) (s : State) : Except Panic State := do
  if Present (s.entry table pteno) then
    let pgdir ← derefPgdir (s.envs e) (pgaddr pdeno pteno 0)
    pageRemove s pgdir (pgaddr pdeno pteno 0)
  else .ok s

def envFreePde (e : Nat) (pdeno : Nat) (s : State) : Except Panic State := do
  let pgdir ← derefPgdir (s.envs e) (pgaddr pdeno 0 0)
  if ¬ Present (s.entry pgdir pdeno) then .ok s
  else
    let pa := pteAddr (s.entry pgdir pdeno)
    let table ← kaddr s pa
    let s ← times (envFreePte e pdeno table) (ptx (WORD - 1) + 1) s
    let s := s.setEntry pgdir pdeno 0
    let page ← pa2page s pa
    .ok (pageDecref s page)

def envFree (s : State) (e : Nat) : Except Panic State := do
  let s := if s.curenv = some e then lcr3 s s.kernPgdir else s
  let s ← times (envFreePde e) (pdx UTOP) s
  let pgdir ← paddrPgdir (s.envs e)
  let s := s.setEnv e { s.envs e with envPgdir := none }
  let page ← pa2page s (page2pa pgdir)
  let s := pageDecref s page
  let s := s.setEnv e { s.envs e with envStatus := ENV_FREE, envLink := s.envFreeList }
  .ok { s with envFreeList := some e }

/-- env_run up to env_pop_tf; the trapframe it pops is the env_tf of e. -/
def envRun (s : State) (e : Nat) : Except Panic State :=
  if s.curenv ≠ some e then do
    let s := { s with curenv := some e }
    let s := s.setEnv e { s.envs e with
      envStatus := ENV_RUNNING, envRuns := (s.envs e).envRuns + 1 }
    let pgdir ← paddrPgdir (s.envs e)
    .ok (lcr3 s pgdir)
  else .ok s

end JosEnv
