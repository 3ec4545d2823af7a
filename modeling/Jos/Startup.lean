import Jos.MemInit
import Jos.HeaderTable
import Jos.Gates

/- i386_init of kern/init.c from mem_init on: the first program runs, and what it runs is what its
   file says. -/
namespace JosStartup
open JosLayout FrameWords JosMachine JosPmap JosMmu JosEnv JosBoot JosAccounting JosPageOps JosNewEnv
open JosBootPages JosStaticMap JosSelfChecks JosMemInit JosEnvTable JosEnvSwitch JosUserStores
open JosLoading JosLoader JosPageRuns JosKernelRuns JosTrapEntry JosTrapReturn JosUserRuns JosGates
open CountedLoop

/-- i386_init after the console is up, with the addresses of the entry points for trap_init; p0 is
    what the stack slot of env_create happens to hold. -/
def i386Init (fuel : Nat) (pp12 : Bool → Option Nat) (vectors : Nat → Nat) (p0 : Nat) (binary : Binary)
    (t : Tables) (s : State) : Except InitStop (Tables × State) := do
  let s ← memInit fuel pp12 s
  let s := envInit s
  let t := trapInit vectors t
  let (_, _, s) ← orCheck (orPanic (envCreate s p0 binary))
  let s ← orCheck (orPanic (envRun s 0))
  .ok (t, s)

def startFrame (binary : Binary) : Trapframe :=
  { initialTrapframe with tfEip := UInt32.ofNat binary.eEntry }

/-- Environment 0 is about to execute the first instruction of a program. -/
structure Started (m : Machine) (binary : Binary) (s : State) : Prop where
  inv : KernelInv m s
  mode : UserMode s 0
  frame : (s.envs 0).envTf = startFrame binary
  entered : ∀ c a, AboutToPop c a (s.envs 0).envTf →
    (exec c (envPopTf a)).reg = registersOf (startFrame binary) ∧
      (exec c (envPopTf a)).reg.cs &&& 3 = 3 ∧
      (exec c (envPopTf a)).reg.eip = UInt32.ofNat binary.eEntry
  bytes : ∀ k, k < binary.ePhnum → ∀ i, i < binary.pMemsz (binary.ph k) →
    byteAt s s.cr3 (binary.pVa (binary.ph k) + i) = some (segmentByte binary (binary.ph k) i)
  mapped : ∀ va, va < UTOP → (walk s s.cr3 va ≠ none ↔ va / PGSIZE ∈ touched binary)
  rights : ∀ va t, va < UTOP → walk s s.cr3 va = some t → Translation.user t ∧ Translation.writable t

section Run
variable {m : Machine} {s : State} {binary : Binary}

def freePages (m : Machine) : Nat := 159 + (m.npages - firstExtended m)

theorem freePages_left (run : MemInit (powerOn m) s) {fl : List Nat} (boot : BootState m s fl) :
    freePages m ≤ fl.length + 69 := by
  obtain ⟨fits, _⟩ := memInit_ok m run
  obtain ⟨low, inside, _⟩ := firstExtended_bounds m fits
  obtain ⟨all, managed, once, long⟩ := boot.enough
  have listed : List.range' 1 159 ++ List.range' (firstExtended m) (m.npages - firstExtended m) ⊆ all := by
    intro p among
    rw [managed]
    unfold Managed
    rw [boot.npages, boot.nextfree, free_pages fits]
    rcases List.mem_append.mp among with base | extended
    · obtain ⟨_, _⟩ := List.mem_range'_1.mp base
      omega
    · obtain ⟨_, _⟩ := List.mem_range'_1.mp extended
      omega
  have apart : (List.range' 1 159 ++
      List.range' (firstExtended m) (m.npages - firstExtended m)).Nodup := by
    refine List.nodup_append.mpr ⟨List.nodup_range', List.nodup_range', ?_⟩
    intro p base q extended same
    obtain ⟨_, _⟩ := List.mem_range'_1.mp base
    obtain ⟨_, _⟩ := List.mem_range'_1.mp extended
    omega
  have most := (apart.subperm listed).length_le
  rw [List.length_append, List.length_range', List.length_range'] at most
  unfold freePages
  omega

theorem startFrame_entered {c : Cpu} {a : UInt32} (pops : AboutToPop c a (startFrame binary)) :
    (exec c (envPopTf a)).reg = registersOf (startFrame binary) ∧
      (exec c (envPopTf a)).reg.cs &&& 3 = 3 ∧
      (exec c (envPopTf a)).reg.eip = UInt32.ofNat binary.eEntry := by
  obtain ⟨_, _, mem, here, room⟩ := pops
  have user : (startFrame binary).tfCs &&& 3 = 3 :=
    (by decide : initialTrapframe.tfCs &&& 3 = 3)
  have registers := envPopTf_registers mem here room user
  rw [registers]
  exact ⟨rfl, user, rfl⟩

theorem started_switched {s : State} {p : Nat} (inv : KernelInv m s)
    (he : dirsOf s 0 = some p) (frame : (s.envs 0).envTf = startFrame binary)
    (correct : CorrectlyLoaded s 0 p binary) :
    Started m binary (switched s (0 : Fin NENV) p) := by
  obtain ⟨live, dir⟩ := dirsOf_some.mp he
  have here := switched_here s (0 : Fin NENV) p
  have kept : ((switched s (0 : Fin NENV) p).envs (0 : Fin NENV)).envTf = startFrame binary :=
    (congrArg Env.envTf here).trans frame
  refine ⟨switched_inv inv live p, switched_mode dir, kept, ?_, correct.bytes, correct.mapped, ?_⟩
  · intro c a pops
    apply startFrame_entered
    rw [← kept]
    exact pops
  · intro va t user walked
    have before : walk s p va = some t := walked
    have tidy := inv.tidy
    exact walk_granted tidy he (user_slot user) before

theorem first_program {s1 : State} {p : Nat} {rest : List Nat} (inv : KernelInv m s1)
    (head : s1.envFreeList = some 0) (books : Accounted (dirsOf s1) none s1 (p :: rest))
    (none_yet : dirsOf s1 = fun _ => none) (nobody : s1.curenv = none) (wf : WellFormed binary)
    (room : (touched binary).card + (tablesOf (touched binary)).card ≤ rest.length) (p0 : Nat) :
    ∃ s, (envCreate s1 p0 binary >>= fun got => envRun got.2.2 0) = .ok s ∧ Started m binary s := by
  have empty : dirsOf s1 0 = none := by rw [none_yet]
  have taken : envAlloc s1 0 = .ok (0, some (0 : Fin NENV).val, newEnv s1 (0 : Fin NENV) p 0) :=
    envAlloc_take books head 0
  have inv2 := alloc_inv inv taken
  obtain ⟨books2, moved⟩ := newEnv_books (e := 0) books empty 0
  have dirs := dirsOf_newEnv s1 0 p 0
  rw [← dirs] at books2 moved
  have slot : (newEnv s1 (0 : Fin NENV) p 0).envs (0 : Fin NENV) =
      filledSlot (s1.envs (0 : Fin NENV)) (0 : Fin NENV) p 0 := by
    rw [newEnv_envs, Function.update_self]
  have idle : (newEnv s1 (0 : Fin NENV) p 0).curenv = none := nobody
  generalize newEnv s1 (0 : Fin NENV) p 0 = s2 at taken inv2 books2 moved dirs slot idle
  have he : dirsOf s2 0 = some p := by rw [dirs, Function.update_self]
  have fresh : ∀ d, target (dirsOf s2) none s2 (.table 0 d) = none := by
    intro d
    refine (congrFun moved (.table 0 d)).trans ?_
    rw [Function.update_of_ne (by simp)]
    exact own_without_dir empty rfl
  obtain ⟨grants, s3, run, _, correct⟩ := loadIcode_total inv2.tidy books2 he fresh wf room
  have loaded := loadIcode_ok inv2.tidy books2 he (fun _ within => wellFormed_loadable wf within) run
  have he3 : dirsOf s3 0 = some p := by
    rw [(loaded_same loaded).dirsOf]
    exact he
  have frame : (s3.envs (0 : Fin NENV)).envTf = startFrame binary := by
    rw [loaded.rest]
    dsimp only
    rw [Function.update_self, slot]
    rfl
  have other : s3.curenv ≠ some (0 : Fin NENV).val := by
    rw [loaded.rest]
    simp [idle]
  have created : envCreate s1 p0 binary = .ok (0, grants, s3) := by
    unfold envCreate
    rw [taken, ok_bind]
    dsimp only
    change (loadIcode s2 (0 : Fin NENV).val binary >>= _) = _
    rw [run]
    rfl
  refine ⟨switched s3 (0 : Fin NENV) p, ?_,
    started_switched (loaded_inv inv2 books2 loaded) he3 frame correct⟩
  rw [created, ok_bind]
  exact envRun_switch other (dirsOf_some.mp he3).2

theorem i386Init_ok {fuel : Nat} {pp12 : Bool → Option Nat} {vectors : Nat → Nat} {p0 : Nat}
    {t : Tables} {s0 s' : State} {got : Nat × List Grant × State}
    (checked : memInit fuel pp12 s = .ok s0)
    (created : envCreate (envInit s0) p0 binary = .ok got) (switch : envRun got.2.2 0 = .ok s') :
    i386Init fuel pp12 vectors p0 binary t s = .ok (trapInit vectors t, s') := by
  unfold i386Init
  rw [checked, ok_bind]
  dsimp only
  rw [created]
  change (orCheck (orPanic (envRun got.2.2 0)) >>= _) = _
  rw [switch]
  rfl

/-- i386_init sets the gates and comes to the first instruction of its program, when memory is ample,
    boot_alloc stays in the 4MB of entry_pgdir, every slot of envs[] happens to be left ENV_FREE and
    there are pages enough for the program. -/
theorem i386_init_starts (ample : Ample m) (early : firstExtended m ≤ NPTENTRIES)
    (idle : ∀ e, e < NENV → (m.envs e).envStatus = ENV_FREE)
    (wf : WellFormed binary)
    (room : (touched binary).card + (tablesOf (touched binary)).card + 70 ≤ freePages m)
    {fuel : Nat} (enough : m.npages ≤ fuel) (pp12 : Bool → Option Nat) (vectors : Nat → Nat)
    (p0 : Nat) (t : Tables) :
    ∃ s, i386Init fuel pp12 vectors p0 binary t (powerOn m) = .ok (trapInit vectors t, s) ∧
      Started m binary s := by
  obtain ⟨_, s0, _, _, checked, run⟩ := (memInit_outcome m early enough pp12).1 ample
  obtain ⟨_, fl, boot⟩ := memInit_ok m run
  have left := freePages_left run boot
  have free : ∀ e, e < NENV → (s0.envs e).envStatus = ENV_FREE := by
    rw [boot.envs]
    exact idle
  have inv := boot_inv run free
  have head : (envInit s0).envFreeList = some 0 :=
    (IntrusiveList.chain_cons_head (envInit_slots free boot.envFreeList).list).1
  have none_yet := dirsOf_envInit free
  have books : Accounted (dirsOf (envInit s0)) none (envInit s0) fl := by
    rw [none_yet]
    exact (envInit_same s0).books boot.books
  have nobody : (envInit s0).curenv = none := by
    rw [envInit_rest]
    exact boot.curenv
  cases fl with
  | nil =>
    rw [List.length_nil] at left
    omega
  | cons p rest =>
    have room_left : (touched binary).card + (tablesOf (touched binary)).card ≤ rest.length := by
      rw [List.length_cons] at left
      omega
    obtain ⟨s, started, program⟩ := first_program inv head books none_yet nobody wf room_left p0
    obtain ⟨got, created, switch⟩ := bind_ok.mp started
    exact ⟨s, i386Init_ok checked created switch, program⟩

theorem i386_init_starts_smallMachine :
    ∃ t s, i386Init 1024 (fun _ => none) (fun i => 4 * i) 0 smallImage (linkedTables 0xF0190000)
        (powerOn smallMachine) = .ok (t, s) ∧ Started smallMachine smallImage s ∧
      (exec { busyUser with mem := storeTrapframe zeroFrame 0x1000 (s.envs 0).envTf }
        (envPopTf 0x1000)).reg.eip = UInt32.ofNat smallImage.eEntry := by
  have cost : (touched smallImage).card + (tablesOf (touched smallImage)).card = 5 := by decide
  have pages : 75 ≤ freePages smallMachine := by decide
  obtain ⟨s, run, started⟩ := @i386_init_starts smallMachine _ (by decide) (by decide)
    (fun _ _ => rfl) smallImage_wellFormed (by rw [cost]; exact pages) _ (Nat.le_refl 1024)
    (fun _ => none) (fun i => 4 * i) 0 (linkedTables 0xF0190000)
  refine ⟨_, s, run, started, ?_⟩
  exact (started.entered _ 0x1000 ⟨zeroFrame, 0x400, rfl, by decide, by decide⟩).2.2

end Run

end JosStartup
