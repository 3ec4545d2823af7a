import Jos.KernelRuns
import Jos.TrapEntry

/- The saved frames of environments lie in envs[], and envs[] lies in memory the kernel maps
   writable at KERNBASE. Of all stores the kernel makes, load_icode's alone go to addresses that
   somebody else chose. -/
namespace JosEnvFrames
open JosLayout FrameWords WordStack JosMachine JosPmap JosMmu JosEnv JosTrap JosBoot JosAccounting JosPageOps
open JosMapping JosEnvSpace JosNewEnv JosRegions JosBootPages JosStaticMap JosKernelView JosPageRuns
open JosEnvTable JosEnvSwitch JosSyscallReturn JosTrapEnds JosDirRights JosUserStores JosLoading
open JosTrapEntry JosKernelRuns IntrusiveList Ledger TableForest CountedLoop

def physByte (s : State) : Frame := fun a => s.mem (a / PGSIZE) (a % PGSIZE)

def envPhys (s : State) (f : Nat) : Nat := s.envsKva - KERNBASE + sizeofEnv * f

abbrev sizeofTrapframe : Nat := 68

def tfByte (tf : Trapframe) (o : Nat) : UInt8 := storeTrapframe zeroFrame 0 tf o

/-- Memory with every env_tf where it lies. -/
def mirror (s : State) : State :=
  { s with mem := fun q o =>
      let k := q * PGSIZE + o - envPhys s 0
      if o < PGSIZE ∧ envPhys s 0 ≤ q * PGSIZE + o ∧ k / sizeofEnv < NENV ∧
          k % sizeofEnv < sizeofTrapframe
      then tfByte (s.envs (k / sizeofEnv)).envTf (k % sizeofEnv)
      else s.mem q o }

/-- Every env_tf as it is found in memory. -/
def reread (s : State) : State :=
  { s with envs := fun f =>
      if f < NENV then { s.envs f with envTf := loadTrapframe (physByte s) (envPhys s f) }
      else s.envs f }

/-- load_icode with the stores that meet an env_tf on their way. tf_eip is assigned after them. -/
def loadInPlace (s : State) (e : Nat) (binary : Binary) : Except Panic State := do
  let (_, s) ← loadIcode (mirror s) e binary
  let s := reread s
  .ok (s.setEnv e { s.envs e with
    envTf := { (s.envs e).envTf with tfEip := UInt32.ofNat binary.eEntry } })

/-- The program headers all ask for user addresses. -/
def loadsLow (s : State) (e : Fin NENV) (s' : State) : Prop :=
  ∃ binary : Binary, (∀ k, k < binary.phCount → Loadable binary (binary.ph k)) ∧
    loadInPlace s e binary = .ok s'

def loadsAny (s : State) (e : Fin NENV) (s' : State) : Prop :=
  ∃ binary : Binary, loadInPlace s e binary = .ok s'

def UserFrame (tf : Trapframe) : Prop := tf.tfCs &&& 3 = 3 ∧ tf.tfSs &&& 3 = 3

def EnvsFrame (s : State) (q : Nat) : Prop :=
  envPhys s 0 / PGSIZE ≤ q ∧ q < envPhys s 0 / PGSIZE + 24

section Bytes
variable {s s' : State} {f q : Nat}

theorem setEnv_here (s : State) (f : Nat) (v : Env) : (s.setEnv f v).envs f = v := by
  simp [State.setEnv]

theorem lcr3_envs (s : State) (pgdir : Nat) : (lcr3 s pgdir).envs = s.envs := rfl

theorem word_shift {m m' : Frame} {i j : Nat}
    (same : ∀ k, k < 4 → m (4 * i + k) = m' (4 * j + k)) : word m i = word m' j := by
  have first := same 0 (by decide)
  rw [Nat.add_zero, Nat.add_zero] at first
  unfold word
  rw [first, same 1 (by decide), same 2 (by decide), same 3 (by decide)]

theorem mirror_byte (slot : f < NENV) {o : Nat} (inside : o < sizeofTrapframe) :
    physByte (mirror s) (envPhys s f + o) = tfByte (s.envs f).envTf o := by
  obtain ⟨a, at_a⟩ : ∃ a, a = envPhys s f + o := ⟨_, rfl⟩
  have whole : a / PGSIZE * PGSIZE + a % PGSIZE = a := Nat.div_add_mod' a PGSIZE
  have below : a % PGSIZE < PGSIZE := Nat.mod_lt _ (by decide)
  have first : envPhys s 0 ≤ a := by
    rw [at_a]
    unfold envPhys
    omega
  have offset : a - envPhys s 0 = sizeofEnv * f + o := by
    rw [at_a]
    unfold envPhys
    omega
  have at_f : (sizeofEnv * f + o) / sizeofEnv = f := by
    simp only [sizeofEnv, sizeofTrapframe] at *
    omega
  have at_o : (sizeofEnv * f + o) % sizeofEnv = o := by
    simp only [sizeofEnv, sizeofTrapframe] at *
    omega
  rw [← at_a]
  unfold physByte mirror
  dsimp only
  rw [whole, offset, at_f, at_o]
  exact if_pos ⟨below, first, slot, inside⟩

theorem reread_frame (aligned : envPhys s 0 % PGSIZE = 0) (kva : s'.envsKva = s.envsKva)
    (frames : ∀ q, EnvsFrame s q → s'.mem q = (mirror s).mem q) (slot : f < NENV) :
    loadTrapframe (physByte s') (envPhys s' f) = (s.envs f).envTf := by
  obtain ⟨b, start⟩ : ∃ b, envPhys s f = 4 * b := by
    refine ⟨envPhys s f / 4, ?_⟩
    simp only [envPhys, sizeofEnv, PGSIZE] at *
    omega
  have here : envPhys s' f = 4 * b := by
    rw [← start]
    unfold envPhys
    rw [kva]
  have bytes : ∀ o, o < sizeofTrapframe →
      physByte s' (4 * b + o) = tfByte (s.envs f).envTf o := by
    intro o inside
    rw [← start, ← mirror_byte slot inside]
    have within : EnvsFrame s ((envPhys s f + o) / PGSIZE) := by
      simp only [EnvsFrame, envPhys, sizeofEnv, sizeofTrapframe, PGSIZE, NENV, LOG2NENV] at *
      omega
    exact congrFun (frames _ within) _
  rw [here]
  apply loadTrapframe_eq
  intro k small
  have stored := word_storeTrapframe zeroFrame 0 (s.envs f).envTf small
  rw [← stored]
  apply word_shift
  intro j byte
  have inside : 4 * k + j < sizeofTrapframe := by
    simp only [sizeofTrapframe]
    omega
  have same := bytes (4 * k + j) inside
  rw [Nat.mul_add, Nat.add_assoc, same, Nat.zero_add]
  rfl

theorem mirror_mem (aligned : envPhys s 0 % PGSIZE = 0) (elsewhere : ¬ EnvsFrame s q) :
    (mirror s).mem q = s.mem q := by
  funext o
  apply if_neg
  intro inside
  obtain ⟨offset, first, slot, _⟩ := inside
  apply elsewhere
  simp only [EnvsFrame, sizeofEnv, PGSIZE, NENV, LOG2NENV] at *
  omega

end Bytes

section Frames
variable {m : Machine} {dirs : Dirs} {s s' : State} {e : Fin NENV} {fl : List Nat} {q : Nat}

theorem envs_aligned (inv : KernelInv m s) : envPhys s 0 % PGSIZE = 0 := by
  obtain ⟨_, _, whole, _⟩ := mapped_rooms m
  unfold envPhys
  rw [inv.envsKva, Nat.mul_zero, Nat.add_zero]
  exact whole

theorem envsFrame_boot (inv : KernelInv m s) (frame : EnvsFrame s q) :
    bootPage s.nextfree q ∧ q ≠ s.kernPgdir := by
  obtain ⟨_, aligned, _, low, order, high, last⟩ := layout_bounds m
  have machine := m.npages_le
  obtain ⟨first, before⟩ := frame
  unfold envPhys at first before
  rw [inv.envsKva] at first before
  rw [inv.nextfree, inv.kernPgdir, kernPage_eq]
  have top : pagesBase m = kernTop m + PGSIZE := rfl
  have linked := (kernTop_bounds m).2.1
  unfold bootPage kernelPages
  simp only [KERNBASE, IOPHYSMEM, EXTPHYSMEM, PTSIZE, PGSIZE, NPTENTRIES, WORD] at *
  omega

theorem boot_unmanaged (boot : bootPage s.nextfree q) : ¬ Managed s q := fun managed => managed.2 boot

theorem boot_page_kept {s0 : State} {fl0 : List Nat} (acc : Accounted dirs none s0 fl0)
    (loading : Loading m dirs e s0 fl0 s) (boot : bootPage s0.nextfree q) : s.mem q = s0.mem q := by
  have unmanaged := boot_unmanaged boot
  refine (loading.frame q (fun listed => unmanaged (acc.managed q listed)) ?_).1
  intro own
  obtain ⟨x, _, held⟩ := own
  exact unmanaged (acc.targets x q held)

theorem boot_no_table (acc : Accounted dirs none s fl) (boot : bootPage s.nextfree q)
    (other : q ≠ s.kernPgdir) : ¬ TablePage dirs s q := by
  have unmanaged := boot_unmanaged boot
  intro table
  rcases table with (⟨e', he'⟩ | ⟨e', d', ht'⟩) | kernel | ⟨d', static, named⟩
  · exact unmanaged (acc.targets (.root e') q he')
  · exact unmanaged (acc.targets _ q ht')
  · exact other kernel
  · have fixed : target dirs none s (.fixed ⟨d', static.2.1⟩) = some q := by
      rw [fixed_entry static]
      exact named
    exact unmanaged (acc.targets _ q fixed)

theorem mirror_untouched (inv : KernelInv m s) : Untouched (dirsOf s) s (mirror s) := by
  obtain ⟨fl, acc⟩ := inv.tidy.view.kept.books
  refine ⟨rfl, rfl, rfl, rfl, rfl, fun _ _ _ => rfl, ?_⟩
  intro q table
  apply mirror_mem (envs_aligned inv)
  intro frame
  obtain ⟨boot, other⟩ := envsFrame_boot inv frame
  exact boot_no_table acc boot other table

theorem mirror_inv (inv : KernelInv m s) : KernelInv m (mirror s) :=
  inv.untouched (mirror_untouched inv) rfl rfl (fun _ => ⟨rfl, rfl, rfl, Iff.rfl⟩) inv.current

/-- What a load through user addresses leaves of the saved frames. -/
structure LoadedFrames (m : Machine) (s : State) (e : Fin NENV) (binary : Binary) (s' : State) :
    Prop where
  inv : KernelInv m s'
  status : ∀ f, (s'.envs f).envStatus = (s.envs f).envStatus
  own : (s'.envs e).envTf = { (s.envs e).envTf with tfEip := UInt32.ofNat binary.eEntry }
  others : ∀ f, f < NENV → f ≠ e.val → (s'.envs f).envTf = (s.envs f).envTf

theorem reread_slots (s : State) (f : Nat) : ∃ tf, (reread s).envs f = { s.envs f with envTf := tf } := by
  by_cases slot : f < NENV
  · exact ⟨_, if_pos slot⟩
  · exact ⟨(s.envs f).envTf, if_neg slot⟩

theorem reread_left (s : State) (e : Fin NENV) (tf : Trapframe) :
    SameSlots s ((reread s).setEnv e { (reread s).envs e with envTf := tf }) ∧
    Untouched (dirsOf s) s ((reread s).setEnv e { (reread s).envs e with envTf := tf }) ∧
    (reread s).setEnv e { (reread s).envs e with envTf := tf } =
      { s with envs := ((reread s).setEnv e { (reread s).envs e with envTf := tf }).envs } := by
  have slots : ∀ f, ∃ tf', ((reread s).setEnv e { (reread s).envs e with envTf := tf }).envs f =
      { s.envs f with envTf := tf' } := by
    intro f
    obtain ⟨tf', plain⟩ := reread_slots s f
    by_cases same : f = e.val
    · subst same
      rw [setEnv_here, plain]
      exact ⟨tf, rfl⟩
    · refine ⟨tf', ?_⟩
      rw [← plain]
      exact Function.update_of_ne same _ _
  have same : SameSlots s ((reread s).setEnv e { (reread s).envs e with envTf := tf }) := by
    intro f
    obtain ⟨tf', plain⟩ := slots f
    rw [plain]
    exact ⟨rfl, rfl, rfl, Iff.rfl⟩
  exact ⟨same, ⟨rfl, rfl, rfl, rfl, rfl, fun f _ _ => (same f).2.2.1, fun _ _ => rfl⟩, rfl⟩

theorem loadInPlace_frames {binary : Binary} (inv : KernelInv m s) (live : Live s e)
    (low : ∀ k, k < binary.phCount → Loadable binary (binary.ph k))
    (run : loadInPlace s e binary = .ok s') : LoadedFrames m s e binary s' := by
  have aligned := envs_aligned inv
  have inv0 := mirror_inv inv
  obtain ⟨fl, acc⟩ := inv0.tidy.view.kept.books
  have live0 : Live (mirror s) e := live
  obtain ⟨pgdir, he⟩ := inv0.dir live0
  unfold loadInPlace at run
  obtain ⟨⟨grants, s1⟩, loaded_run, run⟩ := bind_ok.mp run
  cases run
  have loaded := loadIcode_ok inv0.tidy acc he low loaded_run
  have inv1 := loaded_inv inv0 acc loaded
  have frames : ∀ q, EnvsFrame s q → s1.mem q = (mirror s).mem q := fun q frame =>
    boot_page_kept acc loaded.loading (envsFrame_boot inv frame).1
  have kva : s1.envsKva = s.envsKva := by rw [loaded.rest]; rfl
  have found : ∀ f, f < NENV → ((reread s1).envs f).envTf = (s.envs f).envTf := by
    intro f slot
    have same := reread_frame aligned kva frames slot
    unfold reread
    dsimp only
    rw [if_pos slot]
    exact same
  obtain ⟨s2, at_s2⟩ : ∃ s2, s2 = (reread s1).setEnv e { (reread s1).envs e with
    envTf := { ((reread s1).envs e).envTf with tfEip := UInt32.ofNat binary.eEntry } } := ⟨_, rfl⟩
  obtain ⟨same, still, rest⟩ := reread_left s1 e
    { ((reread s1).envs e).envTf with tfEip := UInt32.ofNat binary.eEntry }
  rw [← at_s2] at same still rest ⊢
  have here : s2.envs e = { (reread s1).envs e with
      envTf := { ((reread s1).envs e).envTf with tfEip := UInt32.ofNat binary.eEntry } } := by
    rw [at_s2]
    exact setEnv_here _ _ _
  have elsewhere : ∀ f, f ≠ e.val → s2.envs f = (reread s1).envs f := by
    intro f other
    rw [at_s2]
    exact Function.update_of_ne other _ _
  constructor
  · refine inv1.untouched still (by rw [rest]) (by rw [rest]) same ?_
    intro c current
    rw [rest] at current
    exact same.current (inv1.current c current)
  · intro f
    have status : (s1.envs f).envStatus = (s.envs f).envStatus := by
      rw [loaded.rest]
      by_cases own : f = e.val
      · subst own
        dsimp only
        rw [Function.update_self]
        rfl
      · dsimp only
        rw [Function.update_of_ne own]
        rfl
    rw [← status]
    by_cases own : f = e.val
    · subst own
      rw [here]
      obtain ⟨tf, plain⟩ := reread_slots s1 e
      rw [plain]
    · rw [elsewhere f own]
      obtain ⟨tf, plain⟩ := reread_slots s1 f
      rw [plain]
  · rw [here]
    dsimp only
    rw [found e e.isLt]
  · intro f slot other
    rw [elsewhere f other]
    exact found f slot

def UserFrames (s : State) : Prop := ∀ e : Fin NENV, Live s e → UserFrame (s.envs e).envTf

theorem alloc_frames (frames : UserFrames s) {parentId : EnvId} {r : Int} {out : Option Nat}
    (run : envAlloc s parentId = .ok (r, out, s')) : UserFrames s' := by
  intro e live
  rcases envAlloc_slots run with ⟨_, _, envs, _⟩ | ⟨_, f, new, _, _, fresh, envs, _⟩
  · unfold Live at live
    rw [envs] at live ⊢
    exact frames e live
  · unfold Live at live
    rw [envs] at live ⊢
    by_cases same : e.val = f
    · rw [same, Function.update_self, fresh.envTf]
      exact ⟨by decide, by decide⟩
    · rw [Function.update_of_ne same] at live ⊢
      exact frames e live

theorem free_tf {f : Nat} (run : envFree s f = .ok s') (g : Nat) :
    (s'.envs g).envTf = (s.envs g).envTf := by
  rw [(envFree_slots run).1]
  by_cases same : g = f
  · rw [same, Function.update_self]
  · rw [Function.update_of_ne same]

theorem free_frames {f : Nat} (frames : UserFrames s) (run : envFree s f = .ok s') :
    UserFrames s' := by
  intro e live
  rw [free_tf run e]
  apply frames e
  intro free
  apply live
  rw [(envFree_slots run).1]
  by_cases same : e.val = f
  · rw [same, Function.update_self]
  · rw [Function.update_of_ne same]
    exact free

theorem run_frames (frames : UserFrames s) (live : Live s e) (run : envRun s e = .ok s') :
    UserFrames s' := by
  rcases envRun_cases run with ⟨_, rfl⟩ | ⟨_, pgdir, _, rfl⟩
  · exact frames
  · intro f live_f
    by_cases same : f.val = e
    · rw [same, switched_here]
      exact frames e live
    · unfold Live at live_f
      rw [switched_elsewhere s pgdir same] at live_f ⊢
      exact frames f live_f

theorem saved_frames (frames : UserFrames s) {tf : Trapframe} (user : UserFrame tf) :
    UserFrames (saveFrame s tf) := by
  intro e live
  unfold saveFrame at live ⊢
  cases current : s.curenv with
  | none =>
    simp only [current] at live ⊢
    exact frames e live
  | some c =>
    simp only [current] at live ⊢
    unfold Live at live
    by_cases same : e.val = c
    · subst same
      simp only [State.setEnv, Function.update_self]
      exact user
    · simp only [State.setEnv, Function.update_of_ne same] at live ⊢
      exact frames e live

theorem destroyed_frames (frames : UserFrames s) (destroyed : Destroyed s s') : UserFrames s' := by
  obtain ⟨a, f, _, run⟩ := destroyed
  have noted : UserFrames { s with userMemCheckAddr := a } := frames
  exact free_frames noted run

/-- Whatever becomes of a trap from kernel mode, no saved frame changes. -/
theorem kernelTrap_tf {w : Surroundings} {tf : Trapframe} {cr2 : Nat} (kernel : tf.tfCs &&& 3 = 0)
    (ends : Ends w s tf cr2 s') (f : Nat) : (s'.envs f).envTf = (s.envs f).envTf := by
  rcases kernelTrap_ends kernel ends with rfl | ⟨a, g, _, run⟩
  · rfl
  · exact free_tf run f

theorem load_frames (inv : KernelInv m s) (frames : UserFrames s) (live : Live s e)
    (load : loadsLow s e s') : UserFrames s' := by
  obtain ⟨binary, low, run⟩ := load
  have loaded := loadInPlace_frames inv live low run
  intro f live_f
  unfold Live at live_f
  rw [loaded.status] at live_f
  by_cases same : f.val = e
  · rw [same, loaded.own]
    exact frames e live
  · rw [loaded.others f f.isLt same]
    exact frames f live_f

theorem loadsLow_keeps : LoadKeeps m loadsLow := by
  intro s e s' inv live load
  obtain ⟨binary, low, run⟩ := load
  exact (loadInPlace_frames inv live low run).inv

theorem step_frames (inv : KernelInv m s) (frames : UserFrames s) (step : Step loadsLow s s') :
    UserFrames s' := by
  cases step with
  | alloc run => exact alloc_frames frames run
  | load live run => exact load_frames inv frames live run
  | free _ run => exact free_frames frames run
  | run live run => exact run_frames frames live run
  | userTrap cs ss ends =>
    rcases userTrap_ends cs ends with ⟨after, same_cs, same_ss, rfl⟩ | destroyed
    · apply saved_frames frames
      unfold UserFrame
      rw [same_cs, same_ss]
      exact ⟨cs, ss⟩
    · exact destroyed_frames (saved_frames frames ⟨cs, ss⟩) destroyed
  | kernelTrap cs ends =>
    rcases kernelTrap_ends cs ends with rfl | destroyed
    · exact frames
    · exact destroyed_frames frames destroyed
  | store _ _ _ _ _ => exact frames

theorem reached_frames (reached : Reached m loadsLow s) : KernelInv m s ∧ UserFrames s := by
  induction reached with
  | @boot s run free =>
    refine ⟨boot_inv run free, ?_⟩
    intro e live
    exact absurd (envInit_idle free e) live
  | step _ step ih => exact ⟨step_inv loadsLow_keeps ih.1 step, step_frames ih.1 ih.2 step⟩

end Frames

/- Where the kernel maps physical memory, any store of load_icode goes through. -/
section KernelStores
variable {m : Machine} {s s' : State} {e : Fin NENV} {fl : List Nat} {pgdir a n : Nat}

theorem physByte_setByte (s : State) (a x : Nat) (b : UInt8) :
    physByte (s.setByte (a / PGSIZE) (a % PGSIZE) b) x = if x = a then b else physByte s x := by
  unfold physByte
  by_cases same : x = a
  · subst same
    simp [State.setByte]
  · rw [if_neg same]
    by_cases frame : x / PGSIZE = a / PGSIZE
    · have offset : x % PGSIZE ≠ a % PGSIZE := by
        simp only [PGSIZE] at *
        omega
      simp [State.setByte, frame, offset]
    · simp [State.setByte, frame]

theorem kernbase_slot (small : a < WORD - KERNBASE) :
    StaticPde (pdx (KERNBASE + a)) ∧ vpn (KERNBASE + a) = KERNBASE / PGSIZE + a / PGSIZE ∧
      pgoff (KERNBASE + a) = a % PGSIZE := by
  unfold StaticPde vpn
  rw [pdx_eq, pgoff_eq]
  simp only [userPdes, uvptPde, NPDENTRIES, KERNBASE, WORD, PGSIZE] at *
  omega

theorem kwrite_kernbase (inv : KernelInv m s) (he : dirsOf s e = some pgdir) (cr3 : s.cr3 = pgdir)
    (small : a < WORD - KERNBASE) (b : UInt8) :
    kwrite s (KERNBASE + a) b = .ok (s.setByte (a / PGSIZE) (a % PGSIZE) b) := by
  obtain ⟨static, page, offset⟩ := kernbase_slot small
  have leaf : kernPte s (KERNBASE + a) = mapEntry (a / PGSIZE) PTE_W := by
    have above : KERNBASE / PGSIZE ≤ KERNBASE / PGSIZE + a / PGSIZE := Nat.le_add_right _ _
    rw [inv.mapped _ static, bootPte_entry, page, if_pos above, Nat.add_sub_cancel_left]
  have room : a / PGSIZE < 1048576 := by
    simp only [WORD, KERNBASE, PGSIZE] at *
    omega
  have present : Present (mapEntry (a / PGSIZE) PTE_W) := present_mapEntry (by decide)
  have same := (inv.tidy.view.shaped e pgdir he).high _ static
  have dir : Present (s.entry s.kernPgdir (pdx (KERNBASE + a))) := by
    by_cases dir : Present (s.entry s.kernPgdir (pdx (KERNBASE + a)))
    · exact dir
    · unfold kernPte at leaf
      rw [if_neg dir] at leaf
      rw [← leaf] at present
      exact absurd rfl present
  have entry : s.entry (ppn (s.entry pgdir (pdx (KERNBASE + a)))) (ptx (KERNBASE + a)) =
      mapEntry (a / PGSIZE) PTE_W := by
    unfold kernPte at leaf
    rw [if_pos dir] at leaf
    rw [same, leaf]
  have walked : walk s pgdir (KERNBASE + a) =
      some ⟨s.entry s.kernPgdir (pdx (KERNBASE + a)), mapEntry (a / PGSIZE) PTE_W⟩ := by
    rw [walk_some, entry, same]
    exact ⟨dir, present, rfl⟩
  have writable : Translation.writable
      ⟨s.entry s.kernPgdir (pdx (KERNBASE + a)), mapEntry (a / PGSIZE) PTE_W⟩ := by
    refine ⟨(inv.tidy.view.grants _ static dir).2, ?_⟩
    unfold Writable
    rw [mapEntry_and (by decide) (by decide)]
    decide
  unfold kwrite
  rw [cr3, walked]
  dsimp only
  rw [if_pos writable, offset]
  unfold Translation.page
  rw [ppn_mapEntry room (by decide)]

structure Overwritten (m : Machine) (s : State) (f : Nat → UInt8) (a n : Nat) (s' : State) :
    Prop where
  inv : KernelInv m s'
  rest : s' = { s with mem := s'.mem }
  frames : ∀ q, ¬ EnvsFrame s q → s'.mem q = s.mem q
  bytes : ∀ x, physByte s' x = if a ≤ x ∧ x < a + n then f (x - a) else physByte s x

theorem stores_kernbase (f : Nat → UInt8) (inv : KernelInv m s) (he : dirsOf s e = some pgdir)
    (cr3 : s.cr3 = pgdir) (inside : ∀ k, k < n → EnvsFrame s ((a + k) / PGSIZE))
    (small : a + n ≤ WORD - KERNBASE) :
    ∃ s', stores f (KERNBASE + a) n s = .ok s' ∧ Overwritten m s f a n s' := by
  obtain ⟨fl, acc⟩ := inv.tidy.view.kept.books
  apply times_total (fun k b => Overwritten m s f a k b)
  · refine ⟨inv, rfl, fun _ _ => rfl, ?_⟩
    intro x
    have nothing : ¬ (a ≤ x ∧ x < a + 0) := by omega
    rw [if_neg nothing]
  · intro k b within before
    have dirs : dirsOf b = dirsOf s := by rw [before.rest]; rfl
    have he_b : dirsOf b e = some pgdir := by rw [dirs]; exact he
    have cr3_b : b.cr3 = pgdir := by rw [before.rest]; exact cr3
    have address : (KERNBASE + a + k) % WORD = KERNBASE + (a + k) := by
      simp only [KERNBASE, WORD] at *
      omega
    have low : a + k < WORD - KERNBASE := by omega
    rw [address]
    refine ⟨_, kwrite_kernbase before.inv he_b cr3_b low (f k), ?_⟩
    have frame := inside k within
    have elsewhere : ∀ q, q ≠ (a + k) / PGSIZE →
        (b.setByte ((a + k) / PGSIZE) ((a + k) % PGSIZE) (f k)).mem q = b.mem q := by
      intro q other
      simp [State.setByte, other]
    refine ⟨?_, ?_, ?_, ?_⟩
    · have frame_b : EnvsFrame b ((a + k) / PGSIZE) := by
        rw [before.rest]
        exact frame
      obtain ⟨boot, not_kern⟩ := envsFrame_boot before.inv frame_b
      obtain ⟨fl_b, acc_b⟩ := before.inv.tidy.view.kept.books
      refine before.inv.untouched ⟨rfl, rfl, rfl, rfl, rfl, fun _ _ _ => rfl, ?_⟩ rfl rfl
        (fun _ => ⟨rfl, rfl, rfl, Iff.rfl⟩) before.inv.current
      intro q table
      apply elsewhere
      intro same
      subst same
      exact boot_no_table acc_b boot not_kern table
    · rw [before.rest]
      rfl
    · intro q outside
      have other : q ≠ (a + k) / PGSIZE := by
        intro same
        rw [same] at outside
        exact outside frame
      rw [elsewhere q other]
      exact before.frames q outside
    · intro x
      rw [physByte_setByte, before.bytes x]
      by_cases here : x = a + k
      · have now : a ≤ x ∧ x < a + (k + 1) := by omega
        have index : x - a = k := by omega
        rw [if_pos here, if_pos now, index]
      · rw [if_neg here]
        apply if_congr _ rfl rfl
        omega

end KernelStores

def oneHeader (pType pOffset pVa pFilesz pMemsz : Nat) (content : Nat → UInt8) : Binary where
  addr := 0xF0120000
  byte o :=
    if o < 84 then
      byteOf ([ELF_MAGIC, 0, 0, 0, 0, 0, 0, 52, 0, 0, 0, 1, 0, pType, pOffset, pVa, 0, pFilesz,
        pMemsz, 0, 0].getD (o / 4) 0) (o % 4)
    else content o

/-- Its segment has 54 bytes in the file and none in memory, and lies over envs[0]: the last of
    the bytes go to tf_cs. -/
def kernelImage : Binary :=
  oneHeader 1 0x100 0xF0185000 54 0 fun o => if o = 0x134 then 8 else 0

section KernelImage
variable {p : Nat} {s : State} {fl : List Nat} {load : State → Fin NENV → State → Prop}

theorem kernelImage_segment {s s' : State}
    (copied : stores (fun k => kernelImage.byte ((0x100 + k) % WORD)) (KERNBASE + 0x185000) 54 s =
      .ok s') : times (fun k got => loadSegment (0 : Fin NENV) kernelImage (kernelImage.ph k) got)
        kernelImage.phCount ([], s) = .ok ([], s') := by
  have count : kernelImage.phCount = 1 := by decide
  have no_page : rounds (kernelImage.pVa (kernelImage.ph 0)) (kernelImage.pMemsz (kernelImage.ph 0)) =
      0 := by decide
  have no_byte : kernelImage.pMemsz (kernelImage.ph 0) = 0 := by decide
  have va : kernelImage.pVa (kernelImage.ph 0) = KERNBASE + 0x185000 := by decide
  have offset : kernelImage.pOffset (kernelImage.ph 0) = 0x100 := by decide
  have file : kernelImage.pFilesz (kernelImage.ph 0) = 54 := by decide
  have allocated : regionAlloc ([], s) (0 : Fin NENV) (kernelImage.pVa (kernelImage.ph 0))
      (kernelImage.pMemsz (kernelImage.ph 0)) = .ok ([], s) := by
    rw [regionAlloc_eq, no_page]
    rfl
  have cleared : memset s (kernelImage.pVa (kernelImage.ph 0)) 0
      (kernelImage.pMemsz (kernelImage.ph 0)) = .ok s := by
    rw [no_byte]
    rfl
  have copied' : memcpy s (kernelImage.pVa (kernelImage.ph 0)) kernelImage
      (kernelImage.pOffset (kernelImage.ph 0)) (kernelImage.pFilesz (kernelImage.ph 0)) =
        .ok s' := by
    rw [memcpy_eq, va, offset, file]
    exact copied
  rw [count]
  exact bind_ok.mpr ⟨([], s), rfl, loadSegment_run allocated cleared copied'⟩

structure Overran (s s' : State) : Prop where
  kva : s'.envsKva = s.envsKva
  envs : ∃ tf, s'.envs 0 = { s.envs 0 with envTf := tf }
  bytes : ∀ k, k < 54 → physByte s' (0x185000 + k) = kernelImage.byte ((0x100 + k) % WORD)

theorem first_phys (first : FirstEnv load p s fl) : envPhys s 0 = 0x185000 := by
  unfold envPhys
  rw [first.inv.envsKva]
  decide

theorem kernelImage_overran (first : FirstEnv load p s fl) :
    ∃ grants s', loadIcode (mirror s) 0 kernelImage = .ok (grants, s') ∧ Overran s s' := by
  have inv0 := mirror_inv first.inv
  have still := lcr3_untouched (dirsOf (mirror s)) (mirror s) p
  have inv1 : KernelInv smallMachine (lcr3 (mirror s) p) :=
    inv0.untouched still rfl rfl (fun _ => ⟨rfl, rfl, rfl, Iff.rfl⟩) inv0.current
  have he : dirsOf (lcr3 (mirror s) p) 0 = some p := first.dir
  have base : envPhys s 0 = 0x185000 := first_phys first
  have base1 : envPhys (lcr3 (mirror s) p) 0 = 0x185000 := base
  have inside : ∀ k, k < 54 → EnvsFrame (lcr3 (mirror s) p) ((0x185000 + k) / PGSIZE) := by
    intro k small
    unfold EnvsFrame
    rw [base1]
    simp only [PGSIZE]
    omega
  obtain ⟨s2, copied, overran⟩ := stores_kernbase
    (fun k => kernelImage.byte ((0x100 + k) % WORD)) inv1 he rfl inside (by decide)
  have looped := kernelImage_segment copied
  have dirs2 : dirsOf s2 = dirsOf s := by rw [overran.rest]; rfl
  obtain ⟨s3, at_s3⟩ : ∃ s3, s3 = lcr3 (s2.setEnv (0 : Fin NENV) { s2.envs (0 : Fin NENV) with
    envTf := { (s2.envs (0 : Fin NENV)).envTf with
      tfEip := UInt32.ofNat kernelImage.eEntry } }) s2.kernPgdir := ⟨_, rfl⟩
  have still3 : Untouched (dirsOf s) s2 s3 := by
    rw [at_s3]
    exact (entry_untouched _ s2 (0 : Fin NENV) _).trans (lcr3_untouched _ _ _)
  have tidy2 : Tidy smallMachine (dirsOf s) s2 := by
    rw [← dirs2]
    exact overran.inv.tidy
  have tidy3 := still3.tidy tidy2
  obtain ⟨fl2, acc2⟩ := overran.inv.tidy.view.kept.books
  have list : FreeList s fl2 := by
    have list2 := acc2.list
    rw [overran.rest] at list2
    exact list2
  obtain rfl : fl2 = fl := chain_unique list first.books.list
  rw [dirs2] at acc2
  have books3 := still3.books acc2
  have enough := first.enough
  cases fl2 with
  | nil => exact absurd enough (by decide)
  | cons q rest =>
    obtain ⟨grants', s4, stack⟩ := stack_region tidy3 books3 first.dir []
    have loaded := (loading_start tidy3 books3).region first.dir stack_below stack
    have magic : kernelImage.eMagic = ELF_MAGIC := by decide
    have known : ((mirror s).envs (0 : Fin NENV)).envPgdir = some p :=
      (dirsOf_some.mp first.dir).2
    have kva3 : s3.envsKva = s.envsKva := by
      rw [at_s3, overran.rest]
      rfl
    have mem3 : s3.mem = s2.mem := by rw [at_s3]; rfl
    have slot3 : ∃ tf, s3.envs 0 = { s.envs 0 with envTf := tf } := by
      have slot : s3.envs (0 : Fin NENV) = { s2.envs (0 : Fin NENV) with
          envTf := { (s2.envs (0 : Fin NENV)).envTf with
            tfEip := UInt32.ofNat kernelImage.eEntry } } := by
        rw [at_s3, lcr3_envs, setEnv_here]
      rw [overran.rest] at slot
      exact ⟨_, slot⟩
    have frames : ∀ q, EnvsFrame s q → s4.mem q = s2.mem q := by
      intro q frame
      have inside : EnvsFrame s2 q := by
        rw [overran.rest]
        exact frame
      have boot := (envsFrame_boot overran.inv inside).1
      rw [← still3.nextfree] at boot
      rw [← mem3]
      exact boot_page_kept books3 loaded.1 boot
    rw [at_s3] at stack
    refine ⟨grants', s4, loadIcode_run magic known looped stack, loaded.2.envsKva.trans kva3, ?_, ?_⟩
    · rw [loaded.2.envs]
      exact slot3
    · intro k small
      have stored := overran.bytes (0x185000 + k)
      have within : 0x185000 ≤ 0x185000 + k ∧ 0x185000 + k < 0x185000 + 54 := by omega
      rw [if_pos within, Nat.add_sub_cancel_left] at stored
      rw [← stored]
      exact congrFun (frames _ (inside k small)) _

theorem kernelImage_load (first : FirstEnv load p s fl) :
    ∃ s', loadInPlace s 0 kernelImage = .ok s' ∧ Live s' 0 ∧ (s'.envs 0).envTf.tfCs = GD_KT := by
  obtain ⟨grants, s1, run, overran⟩ := kernelImage_overran first
  obtain ⟨s2, at_s2⟩ : ∃ s2, s2 = (reread s1).setEnv 0 { (reread s1).envs 0 with
    envTf := { ((reread s1).envs 0).envTf with
      tfEip := UInt32.ofNat kernelImage.eEntry } } := ⟨_, rfl⟩
  have slot : s2.envs 0 = { (reread s1).envs 0 with
      envTf := { ((reread s1).envs 0).envTf with
        tfEip := UInt32.ofNat kernelImage.eEntry } } := by
    rw [at_s2]
    exact setEnv_here _ _ _
  refine ⟨s2, bind_ok.mpr ⟨_, run, congrArg Except.ok at_s2.symm⟩, ?_, ?_⟩
  · obtain ⟨tf, plain⟩ := reread_slots s1 0
    obtain ⟨tf', before⟩ := overran.envs
    have live := (dirsOf_some.mp first.dir).1
    unfold Live at live ⊢
    rw [slot, plain, before]
    exact live
  · have here : envPhys s1 0 = 0x185000 := by
      rw [← first_phys first]
      unfold envPhys
      rw [overran.kva]
    have read : ((reread s1).envs 0).envTf = loadTrapframe (physByte s1) (envPhys s1 0) := rfl
    rw [slot]
    dsimp only
    rw [read, here]
    unfold loadTrapframe half
    dsimp only
    rw [overran.bytes 52 (by decide), overran.bytes 53 (by decide)]
    decide

end KernelImage

end JosEnvFrames
