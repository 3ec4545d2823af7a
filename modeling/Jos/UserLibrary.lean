import Jos.Gates
import Jos.Windows

/- lib/syscall.c, lib/libmain.c and lib/exit.c: what a program finds at thisenv, and that its exit is
   the end of it. -/
namespace JosUserLibrary
open JosLayout JosMachine JosPmap JosMmu JosEnv JosTrap JosBoot JosCputs JosAccounting JosMapping
open JosEnvSpace JosPageOps JosBootPages JosStaticMap JosKernelView JosPageRuns JosDirRights
open JosUserMemRights JosEnvIds
open JosEnvTable JosEnvSwitch JosSyscallReturn JosTrapEntry JosTrapReturn JosUserStores JosKernelRuns
open JosEnvFrames JosUserRuns JosGates CountedLoop

def callRegisters (u : Cpu) (num a1 a2 a3 a4 a5 : UInt32) : Cpu :=
  { u with reg := { u.reg with eax := num, edx := a1, ecx := a2, ebx := a3, edi := a4, esi := a5 } }

/-- envs+ENVX(id), where lib/entry.S puts envs. -/
def thisenv (id : EnvId) : Nat := UENVS + sizeofEnv * envx id

section Library
variable {m : Machine} {w : Surroundings} {s s' : State} {c : Fin NENV} {u : Cpu} {v : Nat → UInt32}
  {ts next back : UInt32} {pgdir : Nat}

abbrev callFrame (u : Cpu) (next : UInt32) : Trapframe := savedFrame (advance u next) 48 0

theorem call_arrives (u : Cpu) (v : Nat → UInt32) (ts next back : UInt32) :
    Arrives v (int (trapInit (fun i => (v i).toNat) (linkedTables ts.toNat)) u 48 next) back
      (callFrame u next) := by
  have taken := int_eq (n := 48) u next ts.toNat_lt fun i => (v i).toNat_lt
  have arrives := arrives_interrupt (v := v) (advance u next) (n := 48) (by decide) 0 back
  rw [taken, if_pos (by decide)]
  exact arrives

/-- The registers of a program that comes back from a call, with the result in eax. -/
def Resumes (s : State) (c : Fin NENV) (u : Cpu) (next eax : UInt32) : Prop :=
  ∀ p a, AboutToPop p a (s.envs c).envTf →
    (exec p (envPopTf a)).reg = { u.reg with eip := next, eax := eax }

theorem call_resumes (mode : UserMode s c) (user : u.reg.cs &&& 3 = 3) (cr2 : Nat) {eax : UInt32}
    (called : syscall w (saveFrame s (callFrame u next)) u.reg.eax u.reg.edx u.reg.ecx =
      .ok (eax, saveFrame s (callFrame u next))) :
    ∃ s', trap w s (callFrame u next) cr2 = .ok s' ∧ s' = saveFrame s (setEax (callFrame u next) eax) ∧
      Resumes s' c u next eax := by
  have frame : (callFrame u next).tfCs &&& 3 = 3 := user
  refine ⟨_, (trap_user_returns frame mode.current).mpr ⟨rfl, mode.running, eax, called, rfl⟩, rfl, ?_⟩
  rintro p a ⟨stack, b, mem, here, room⟩
  rw [saveFrame_eq mode.current] at mem
  simp only [State.setEnv, Function.update_self] at mem
  have after : (setEax (callFrame u next) eax).tfCs &&& 3 = 3 := user
  exact envPopTf_registers mem here room after

theorem static_readable (inv : KernelInv m s) (he : dirsOf s c = some pgdir) {va p : Nat}
    (static : StaticPde (pdx va)) (room : p < 1048576) (entry : bootPte m va = mapEntry p PTE_U) :
    userReadable s pgdir va p := by
  have view := inv.tidy.view
  have shows : Present (mapEntry p PTE_U) := present_mapEntry (by decide)
  have mapped : kernPte s va = mapEntry p PTE_U := (inv.mapped va static).trans entry
  have present : Present (s.entry s.kernPgdir (pdx va)) := by
    by_contra absent
    unfold kernPte at mapped
    rw [if_neg (not_not.mpr absent)] at mapped
    rw [← mapped] at shows
    exact absurd shows (by decide)
  have same := (view.shaped c pgdir he).high (pdx va) static
  have pte : s.entry (ppn (s.entry pgdir (pdx va))) (ptx va) = mapEntry p PTE_U := by
    unfold kernPte at mapped
    rw [if_pos present] at mapped
    rw [same, mapped]
  have granted : UserBit (mapEntry p PTE_U) := by
    unfold UserBit
    rw [mapEntry_and (by decide) (by decide)]
    decide
  refine ⟨⟨s.entry pgdir (pdx va), mapEntry p PTE_U⟩, walk_some.mpr ⟨?_, ?_, by rw [pte]⟩,
    ⟨?_, granted⟩, ?_⟩
  · rw [same]
    exact present
  · rw [pte]
    exact shows
  · dsimp only
    rw [same]
    exact (view.grants _ static present).1
  · exact ppn_mapEntry room (by decide)

theorem envs_readable (inv : KernelInv m s) (he : dirsOf s c = some pgdir) {o : Nat}
    (inside : o < sizeofEnv * NENV) :
    (∃ p, userReadable s pgdir (UENVS + o) p ∧
        p * PGSIZE + pgoff (UENVS + o) = envsBase m - KERNBASE + o) ∧
      ∀ q, ¬ userWritable s pgdir (UENVS + o) q := by
  obtain ⟨_, _, aligned, room, _, _⟩ := mapped_rooms m
  have small : o < PTSIZE := Nat.lt_trans inside (by decide)
  have number : vpn (UENVS + o) = UENVS / PGSIZE + o / PGSIZE := by
    unfold vpn
    simp only [UENVS, UPAGES, UVPT, ULIM, MMIOBASE, MMIOLIM, KSTACKTOP, KERNBASE, PTSIZE, PGSIZE,
      NPTENTRIES, WORD] at *
    omega
  have static : StaticPde (pdx (UENVS + o)) := by
    unfold StaticPde
    rw [pdx_eq]
    simp only [userPdes, uvptPde, NPDENTRIES, WORD, PGSIZE, UENVS, UPAGES, UVPT, ULIM, MMIOBASE, MMIOLIM,
      KSTACKTOP, KERNBASE, PTSIZE, NPTENTRIES] at *
    omega
  have window : UENVS / PGSIZE ≤ vpn (UENVS + o) ∧ vpn (UENVS + o) < UENVS / PGSIZE + NPTENTRIES ∧
      vpn (UENVS + o) + 8 < KERNBASE / PGSIZE := by
    rw [number]
    simp only [UENVS, UPAGES, UVPT, ULIM, MMIOBASE, MMIOLIM, KSTACKTOP, KERNBASE, PTSIZE, PGSIZE,
      NPTENTRIES] at *
    omega
  have entry : bootPte m (UENVS + o) =
      mapEntry ((envsBase m - KERNBASE) / PGSIZE + o / PGSIZE) PTE_U := by
    rw [bootPte_entry, if_neg (by omega), if_neg (by omega), if_pos ⟨window.1, window.2.1⟩, number,
      Nat.add_sub_cancel_left]
  have page : (envsBase m - KERNBASE) / PGSIZE + o / PGSIZE < 1048576 := by
    simp only [WORD, PGSIZE, PTSIZE, NPTENTRIES] at *
    omega
  constructor
  · refine ⟨_, static_readable inv he static page entry, ?_⟩
    rw [pgoff_eq]
    simp only [UENVS, UPAGES, UVPT, ULIM, MMIOBASE, MMIOLIM, KSTACKTOP, KERNBASE, PTSIZE, PGSIZE,
      NPTENTRIES] at *
    omega
  · intro q writes
    have word : UENVS + o < WORD := by
      simp only [UENVS, UPAGES, UVPT, ULIM, MMIOBASE, MMIOLIM, KSTACKTOP, KERNBASE, PTSIZE, PGSIZE,
        NPTENTRIES, WORD] at *
      omega
    have below := writable_below inv.tidy.view he word writes
    exact absurd below (Nat.not_lt.mpr (Nat.le_add_right _ _))

/-- libmain asks for its id, gets it with every other register as it was, and sets thisenv to where
    it can read, and cannot write, the kernel's own struct Env of its environment. -/
theorem thisenv_own (reached : Reached m loadsLow s) (mode : UserMode s c) (user : u.reg.cs &&& 3 = 3)
    (v : Nat → UInt32) (ts next back : UInt32) (w : Surroundings) (cr2 : Nat) :
    let u1 := callRegisters u SYS_getenvid 0 0 0 0 0
    ∃ tf s', Arrives v (int (trapInit (fun i => (v i).toNat) (linkedTables ts.toNat)) u1 48 next) back tf ∧
      trap w s tf cr2 = .ok s' ∧ UserMode s' c ∧ (s'.envs c).envId = (s.envs c).envId ∧
      Resumes s' c u1 next (UInt32.ofBitVec (s'.envs c).envId) ∧
      thisenv (s'.envs c).envId = UENVS + sizeofEnv * c ∧
      ∀ k, k < sizeofEnv →
        (∃ p, userReadable s' s'.cr3 (thisenv (s'.envs c).envId + k) p ∧
          p * PGSIZE + pgoff (thisenv (s'.envs c).envId + k) =
            envsBase m - KERNBASE + sizeofEnv * c + k) ∧
        ∀ q, ¬ userWritable s' s'.cr3 (thisenv (s'.envs c).envId + k) q := by
  intro u1
  have user1 : u1.reg.cs &&& 3 = 3 := user
  have inv := reached_inv loadsLow_keeps reached
  have inv1 := saved_inv inv (callFrame u1 next)
  have mode1 := mode.saved (callFrame u1 next)
  have called : syscall w (saveFrame s (callFrame u1 next)) u1.reg.eax u1.reg.edx u1.reg.ecx =
      .ok (UInt32.ofBitVec ((saveFrame s (callFrame u1 next)).envs c).envId,
        saveFrame s (callFrame u1 next)) := by
    have known := (own_id inv1 mode1).1
    change syscall w _ SYS_getenvid 0 0 = _
    unfold syscall
    rw [if_neg (by decide), if_neg (by decide), if_pos rfl, orPanic_ok.mpr known]
    rfl
  have saved_id : ∀ tf, ((saveFrame s tf).envs c).envId = (s.envs c).envId := by
    intro tf
    rw [saveFrame_eq mode.current]
    simp [State.setEnv]
  obtain ⟨s', run, ended, resumes⟩ := call_resumes mode user1 cr2 called
  have mode' : UserMode s' c := by
    rw [ended]
    exact mode.saved _
  have inv' : KernelInv m s' := by
    rw [ended]
    exact saved_inv inv _
  have id' : (s'.envs c).envId = (s.envs c).envId := by
    rw [ended]
    exact saved_id _
  rw [saved_id, ← id'] at resumes
  obtain ⟨_, slots⟩ := inv'.table
  obtain ⟨g, named⟩ := slots.live c c.isLt mode'.live
  have own : thisenv (s'.envs c).envId = UENVS + sizeofEnv * c := by
    unfold thisenv
    rw [idOf_envx c.isLt named]
  refine ⟨_, s', call_arrives u1 v ts next back, run, mode', id', resumes, own, ?_⟩
  intro k inside
  have slot := c.isLt
  have in_table : sizeofEnv * c + k < sizeofEnv * NENV := by
    simp only [sizeofEnv, NENV] at *
    omega
  have dir : dirsOf s' c = some s'.cr3 := dirsOf_some.mpr ⟨mode'.live, mode'.space⟩
  rw [own, Nat.add_assoc, Nat.add_assoc]
  exact envs_readable inv' dir in_table

theorem thisenv_own_smallMachine : ∃ s tf s', Arrives (fun i => UInt32.ofNat (4 * i))
      (int (trapInit (fun i => (UInt32.ofNat (4 * i)).toNat) (linkedTables (0xF0190000 : UInt32).toNat))
        (callRegisters busyUser SYS_getenvid 0 0 0 0 0) 48 0x800022) 0 tf ∧
    trap ⟨fun _ => .word 0, WORD, 0⟩ s tf 0 = .ok s' ∧ thisenv (s'.envs (0 : Fin NENV)).envId = UENVS := by
  obtain ⟨s, reached, mode⟩ := first_running
  obtain ⟨tf, s', arrives, run, _, _, _, own, _⟩ := @thisenv_own smallMachine _ 0 busyUser
    reached mode (by decide) (fun i => UInt32.ofNat (4 * i))
    0xF0190000 0x800022 0 ⟨fun _ => .word 0, WORD, 0⟩ 0
  exact ⟨_, tf, s', arrives, run, own⟩

/-- exit never comes back: the monitor is left with the environment's slot free and first on the list,
    the other slots as they were, and the kernel's directory loaded. -/
theorem exit_ends (reached : Reached m loadsLow s) (mode : UserMode s c) (user : u.reg.cs &&& 3 = 3)
    (v : Nat → UInt32) (ts next back : UInt32) (w : Surroundings) (cr2 : Nat) :
    ∃ tf s', Arrives v (int (trapInit (fun i => (v i).toNat) (linkedTables ts.toNat))
        (callRegisters u SYS_env_destroy 0 0 0 0 0) 48 next) back tf ∧
      trap w s tf cr2 = .error (.monitor s') ∧ (s'.envs c).envStatus = ENV_FREE ∧
      s'.envFreeList = some c.val ∧ s'.cr3 = s.kernPgdir ∧ ∀ e, e ≠ c.val → s'.envs e = s.envs e := by
  obtain ⟨u1, at_u1⟩ : ∃ u1, u1 = callRegisters u SYS_env_destroy 0 0 0 0 0 := ⟨_, rfl⟩
  have user1 : (callFrame u1 next).tfCs &&& 3 = 3 := by
    rw [at_u1]
    exact user
  have inv1 := saved_inv (reached_inv loadsLow_keeps reached) (callFrame u1 next)
  have mode1 := mode.saved (callFrame u1 next)
  obtain ⟨fl, acc⟩ := inv1.tidy.view.kept.books
  have dir : dirsOf (saveFrame s (callFrame u1 next)) c = some (saveFrame s (callFrame u1 next)).cr3 :=
    dirsOf_some.mpr ⟨mode1.live, mode1.space⟩
  obtain ⟨s', freed, left⟩ := envFree_spec acc inv1.tidy.view.kept.bounded dir mode1.space
  have called : syscall w (saveFrame s (callFrame u1 next)) u1.reg.eax u1.reg.edx u1.reg.ecx =
      .error (.monitor s') := by
    have self : envid2env (saveFrame s (callFrame u1 next)) (0 : UInt32).toBitVec true =
        .ok (0, (saveFrame s (callFrame u1 next)).curenv) := rfl
    rw [at_u1] at *
    change syscall w _ SYS_env_destroy 0 0 = _
    unfold syscall sysEnvDestroy
    rw [if_neg (by decide), if_neg (by decide), if_neg (by decide), if_pos rfl, orPanic_ok.mpr self,
      ok_bind]
    dsimp only
    rw [if_neg (Int.lt_irrefl 0), mode1.current]
    unfold envDestroy
    rw [orPanic_ok.mpr (show derefEnv (some c.val) = .ok c.val from rfl), ok_bind, orPanic_ok.mpr freed]
    rfl
  have run : trap w s (callFrame u1 next) cr2 = .error (.monitor s') := by
    rw [trap_user user1 mode.current]
    unfold trapDispatch
    have number : (callFrame u1 next).tfTrapno = T_SYSCALL := rfl
    rw [number, if_neg (by decide), if_neg (by decide), if_pos rfl]
    change (syscall w (saveFrame s (callFrame u1 next)) u1.reg.eax u1.reg.edx u1.reg.ecx >>= _) >>= _ = _
    rw [called]
    rfl
  have envs := left.envs
  rw [saveFrame_eq mode.current] at envs
  refine ⟨_, s', at_u1 ▸ call_arrives u1 v ts next back, run, ?_, left.listed, ?_, ?_⟩
  · rw [envs, Function.update_self]
  · rw [left.cr3, if_pos mode1.current, saveFrame_eq mode.current]
    rfl
  · intro e other
    rw [envs, Function.update_of_ne other]
    exact Function.update_of_ne other _ _

theorem exit_ends_smallMachine : ∃ s tf s', Arrives (fun i => UInt32.ofNat (4 * i))
      (int (trapInit (fun i => (UInt32.ofNat (4 * i)).toNat) (linkedTables (0xF0190000 : UInt32).toNat))
        (callRegisters busyUser SYS_env_destroy 0 0 0 0 0) 48 0x800022) 0 tf ∧
    trap ⟨fun _ => .word 0, WORD, 0⟩ s tf 0 = .error (.monitor s') ∧ s'.envFreeList = some 0 := by
  obtain ⟨s, reached, mode⟩ := first_running
  obtain ⟨tf, s', arrives, run, _, listed, _⟩ := @exit_ends smallMachine _ 0 busyUser
    reached mode (by decide) (fun i => UInt32.ofNat (4 * i))
    0xF0190000 0x800022 0 ⟨fun _ => .word 0, WORD, 0⟩ 0
  exact ⟨_, tf, s', arrives, run, listed⟩

end Library

end JosUserLibrary
