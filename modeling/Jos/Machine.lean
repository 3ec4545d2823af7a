import Jos.CountedLoop
import Jos.FrameWords
import Jos.Layout

/- The kernel's data: physical memory, the globals of kern/pmap.c and kern/env.c, and the two
   processor registers that matter to paging.

   A struct PageInfo * is the index of the page in pages[], a struct Env * the index in
   envs[], and a pointer made by KADDR or page2kva for a whole page the number of that page;
   the null pointer is none. pages[] and envs[] are kept apart from the frames they occupy. -/
namespace JosMachine
open JosLayout FrameWords

structure PageInfo where
  ppLink : Option Nat
  ppRef : UInt16

structure PushRegs where
  regEdi : UInt32
  regEsi : UInt32
  regEbp : UInt32
  regOesp : UInt32
  regEbx : UInt32
  regEdx : UInt32
  regEcx : UInt32
  regEax : UInt32
  deriving DecidableEq

structure Trapframe where
  tfRegs : PushRegs
  tfEs : UInt16
  tfPadding1 : UInt16
  tfDs : UInt16
  tfPadding2 : UInt16
  tfTrapno : UInt32
  tfErr : UInt32
  tfEip : UInt32
  tfCs : UInt16
  tfPadding3 : UInt16
  tfEflags : UInt32
  tfEsp : UInt32
  tfSs : UInt16
  tfPadding4 : UInt16
  deriving DecidableEq

def zeroTrapframe : Trapframe where
  tfRegs := ⟨0, 0, 0, 0, 0, 0, 0, 0⟩
  tfEs := 0
  tfPadding1 := 0
  tfDs := 0
  tfPadding2 := 0
  tfTrapno := 0
  tfErr := 0
  tfEip := 0
  tfCs := 0
  tfPadding3 := 0
  tfEflags := 0
  tfEsp := 0
  tfSs := 0
  tfPadding4 := 0

inductive EnvType where
  | user
  deriving DecidableEq

/- env_status is a plain unsigned in struct Env, so it can hold any word. -/
abbrev ENV_FREE : UInt32 := 0
abbrev ENV_RUNNABLE : UInt32 := 2
abbrev ENV_RUNNING : UInt32 := 3

abbrev EnvId : Type := BitVec 32

structure Env where
  envTf : Trapframe
  envLink : Option Nat
  envId : EnvId
  envParentId : EnvId
  envType : EnvType
  envStatus : UInt32
  envRuns : UInt32
  envPgdir : Option Nat

/-- A translation the processor may hold on to: the directory entry and the table entry. -/
structure Translation where
  pde : Nat
  pte : Nat
  deriving DecidableEq

structure State where
  npages : Nat
  mem : Nat → Frame
  pages : Nat → PageInfo
  pageFreeList : Option Nat
  nextfree : Nat
  kernEnd : Nat
  bootstack : Nat
  kernPgdir : Nat
  pagesKva : Nat
  envsKva : Nat
  envs : Nat → Env
  envFreeList : Option Nat
  curenv : Option Nat
  cr3 : Nat
  tlb : Nat → Option Translation
  userMemCheckAddr : Nat

/- The reasons for which the modelled code calls panic, with the text it passes. -/
inductive Panic where
  | kaddr (pa : Nat)            -- "KADDR called with invalid pa %08lx"
  | paddr (kva : Nat)           -- "PADDR called with invalid kva %08lx"
  | pa2page                     -- "pa2page called with invalid pa"
  | outOfMemory                 -- "Out of memory.\n"
  | mappingFailed               -- "Mapping failed\n"
  | regionAllocFailed           -- "region_alloc failed"
  | badElf                      -- "binary bad ELF"
  | kernelPageFault (va : Nat)  -- "kernel-mode page fault"
  | unhandledTrap               -- "unhandled trap in kernel"
  | assertion                   -- "assertion failed: %.32s"
  deriving DecidableEq

section OrPanic
variable {ε α : Type} [Coe Panic ε]

/-- A panic of what is called, where the caller can stop in more ways. -/
def orPanic (x : Except Panic α) : Except ε α := x.mapError Coe.coe

theorem orPanic_value (a : α) : (orPanic (.ok a) : Except ε α) = .ok a := rfl

theorem orPanic_ok {x : Except Panic α} {a : α} : (orPanic x : Except ε α) = .ok a ↔ x = .ok a := by
  cases x with
  | error p => simp [orPanic, Except.mapError]
  | ok b => simp [orPanic, Except.mapError]

end OrPanic

/- inc/error.h; the calls return these negated. -/
abbrev E_BAD_ENV : Int := 2
abbrev E_INVAL : Int := 3
abbrev E_NO_MEM : Int := 4
abbrev E_NO_FREE_ENV : Int := 5
abbrev E_FAULT : Int := 6

namespace State

def setFrame (s : State) (p : Nat) (f : Frame) : State :=
  { s with mem := Function.update s.mem p f }

def setInfo (s : State) (p : Nat) (i : PageInfo) : State :=
  { s with pages := Function.update s.pages p i }

def setRef (s : State) (p : Nat) (r : UInt16) : State :=
  s.setInfo p { s.pages p with ppRef := r }

def setEnv (s : State) (e : Nat) (v : Env) : State :=
  { s with envs := Function.update s.envs e v }

def entry (s : State) (p i : Nat) : Nat := word (s.mem p) i

def setEntry (s : State) (p i v : Nat) : State := s.setFrame p (setWord (s.mem p) i v)

def setByte (s : State) (p o : Nat) (b : UInt8) : State :=
  s.setFrame p (Function.update (s.mem p) o b)

section
variable (s : State) (p q i v : Nat) (f : Frame) (n : PageInfo) (r : UInt16)

@[simp] theorem setFrame_mem : (s.setFrame p f).mem = Function.update s.mem p f := rfl
@[simp] theorem setFrame_pages : (s.setFrame p f).pages = s.pages := rfl
@[simp] theorem setFrame_pageFreeList : (s.setFrame p f).pageFreeList = s.pageFreeList := rfl
@[simp] theorem setFrame_npages : (s.setFrame p f).npages = s.npages := rfl
@[simp] theorem setFrame_nextfree : (s.setFrame p f).nextfree = s.nextfree := rfl
@[simp] theorem setFrame_kernPgdir : (s.setFrame p f).kernPgdir = s.kernPgdir := rfl
@[simp] theorem setFrame_envs : (s.setFrame p f).envs = s.envs := rfl
@[simp] theorem setFrame_cr3 : (s.setFrame p f).cr3 = s.cr3 := rfl

@[simp] theorem setInfo_mem : (s.setInfo p n).mem = s.mem := rfl
@[simp] theorem setInfo_pages : (s.setInfo p n).pages = Function.update s.pages p n := rfl
@[simp] theorem setInfo_pageFreeList : (s.setInfo p n).pageFreeList = s.pageFreeList := rfl
@[simp] theorem setInfo_npages : (s.setInfo p n).npages = s.npages := rfl
@[simp] theorem setInfo_nextfree : (s.setInfo p n).nextfree = s.nextfree := rfl
@[simp] theorem setInfo_kernPgdir : (s.setInfo p n).kernPgdir = s.kernPgdir := rfl
@[simp] theorem setInfo_envs : (s.setInfo p n).envs = s.envs := rfl

@[simp] theorem setRef_mem : (s.setRef p r).mem = s.mem := rfl
@[simp] theorem setRef_pageFreeList : (s.setRef p r).pageFreeList = s.pageFreeList := rfl
@[simp] theorem setRef_npages : (s.setRef p r).npages = s.npages := rfl
@[simp] theorem setRef_kernPgdir : (s.setRef p r).kernPgdir = s.kernPgdir := rfl

theorem entry_lt : s.entry p i < WORD := word_lt (s.mem p) i

@[simp] theorem entry_setEntry_same (small : v < WORD) : (s.setEntry p i v).entry p i = v := by
  simp [entry, setEntry, word_setWord_same _ _ small]

theorem entry_setEntry_of_ne {q j : Nat} (differ : q ≠ p ∨ j ≠ i) :
    (s.setEntry p i v).entry q j = s.entry q j := by
  by_cases same : q = p
  · subst same
    have other : j ≠ i := by
      rcases differ with pages | indices
      · exact absurd rfl pages
      · exact indices
    simp [entry, setEntry, word_setWord_of_ne _ _ other]
  · simp [entry, setEntry, same]

end

end State

end JosMachine
