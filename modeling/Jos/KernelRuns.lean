import Jos.Loading
import Jos.TrapEnds
import Jos.UserMemRights

/- Runs of the kernel after mem_init and env_init: environments are made, loaded, run and freed,
   trap into the kernel and store into their own memory, in any order. -/
namespace JosKernelRuns
open JosLayout FrameWords JosMachine JosPmap JosMmu JosEnv JosTrap JosBoot JosAccounting JosPageOps
open JosMapping JosEnvSpace JosNewEnv JosBootPages JosStaticMap JosKernelView JosPageRuns
open JosEnvTable JosEnvSwitch JosSyscallReturn JosTrapEnds JosDirRights JosUserMemRights JosUserStores
open JosLoading
open IntrusiveList Ledger TableForest CountedLoop

def dirsOf (s : State) : Dirs :=
  fun e => if (s.envs e).envStatus = ENV_FREE then none else (s.envs e).envPgdir

def Ends (w : Surroundings) (s : State) (tf : Trapframe) (cr2 : Nat) (s' : State) : Prop :=
  trap w s tf cr2 = .ok s' ∨ trap w s tf cr2 = .error (.monitor s')

/-- load is how an environment gets its program. -/
inductive Step (load : State → Fin NENV → State → Prop) : State → State → Prop where
  | alloc {s s' : State} {parentId : EnvId} {r : Int} {out : Option Nat}
      (run : envAlloc s parentId = .ok (r, out, s')) : Step load s s'
  | load {s s' : State} {e : Fin NENV} (live : Live s e) (run : load s e s') : Step load s s'
  | free {s s' : State} {e : Fin NENV} (live : Live s e) (run : envFree s e = .ok s') :
      Step load s s'
  | run {s s' : State} {e : Fin NENV} (live : Live s e) (run : envRun s e = .ok s') :
      Step load s s'
  | userTrap {s s' : State} {w : Surroundings} {tf : Trapframe} {cr2 : Nat}
      (cs : tf.tfCs &&& 3 = 3) (ss : tf.tfSs &&& 3 = 3) (ends : Ends w s tf cr2 s') : Step load s s'
  | kernelTrap {s s' : State} {w : Surroundings} {tf : Trapframe} {cr2 : Nat}
      (cs : tf.tfCs &&& 3 = 0) (ends : Ends w s tf cr2 s') : Step load s s'
  | store {s : State} {c : Fin NENV} {va p : Nat} {b : UInt8} (current : s.curenv = some c.val)
      (live : Live s c) (space : (s.envs c).envPgdir = some s.cr3) (word : va < WORD)
      (writes : userWritable s s.cr3 va p) : Step load s (s.setByte p (pgoff va) b)

inductive Reached (m : Machine) (load : State → Fin NENV → State → Prop) : State → Prop where
  | boot {s : State} (run : MemInit (powerOn m) s)
      (free : ∀ e, e < NENV → (s.envs e).envStatus = ENV_FREE) : Reached m load (envInit s)
  | step {s s' : State} (before : Reached m load s) (step : Step load s s') : Reached m load s'

def Enterable (s : State) (c : Nat) : Prop := c < NENV ∧ (Live s c ∨ (s.envs c).envPgdir = none)

/-- What holds in every state of a run. -/
structure KernelInv (m : Machine) (s : State) : Prop where
  table : ∃ el, Slots s el
  tidy : Tidy m (dirsOf s) s
  mapped : ∀ va, StaticPde (pdx va) → kernPte s va = bootPte m va
  space : ∀ e : Fin NENV, Live s e → (s.envs e).envPgdir ≠ none
  current : ∀ c, s.curenv = some c → Enterable s c
  npages : s.npages = m.npages
  nextfree : s.nextfree = bootEnd m
  kernPgdir : s.kernPgdir = kernPage m
  envsKva : s.envsKva = envsBase m

section Dirs
variable {m : Machine} {s s' : State} {e : Fin NENV} {pgdir : Nat}

theorem dirsOf_some : dirsOf s e = some pgdir ↔ Live s e ∧ (s.envs e).envPgdir = some pgdir := by
  unfold dirsOf Live
  by_cases free : (s.envs e).envStatus = ENV_FREE
  · rw [if_pos free]
    constructor
    · intro never
      cases never
    · intro both
      exact absurd free both.1
  · rw [if_neg free]
    exact ⟨fun dir => ⟨free, dir⟩, fun both => both.2⟩

theorem dirsOf_free (free : (s.envs e).envStatus = ENV_FREE) : dirsOf s e = none := if_pos free

theorem dirsOf_congr (same : ∀ f : Fin NENV, (s'.envs f).envPgdir = (s.envs f).envPgdir ∧
    ((s'.envs f).envStatus = ENV_FREE ↔ (s.envs f).envStatus = ENV_FREE)) :
    dirsOf s' = dirsOf s := by
  funext f
  unfold dirsOf
  rw [(same f).1]
  exact if_congr (same f).2 rfl rfl

theorem KernelInv.dir (inv : KernelInv m s) (live : Live s e) : ∃ pgdir, dirsOf s e = some pgdir := by
  cases dir : (s.envs e).envPgdir with
  | none => exact absurd dir (inv.space e live)
  | some pgdir => exact ⟨pgdir, dirsOf_some.mpr ⟨live, dir⟩⟩

end Dirs

section Steps
variable {m : Machine} {dirs : Dirs} {s s' : State} {e : Fin NENV} {p pgdir : Nat}
  {fl rest : List Nat} {parentId : EnvId}

theorem runnable_not_free : ENV_RUNNABLE ≠ ENV_FREE := by decide

structure Settled (s s' : State) : Prop where
  npages : s'.npages = s.npages
  nextfree : s'.nextfree = s.nextfree
  kernPgdir : s'.kernPgdir = s.kernPgdir
  envsKva : s'.envsKva = s.envsKva

theorem KernelInv.moved (inv : KernelInv m s) (settled : Settled s s')
    (frames : ∀ q, KernFrame s q → s'.mem q = s.mem q) (table : ∃ el, Slots s' el)
    (tidy : Tidy m (dirsOf s') s') (space : ∀ f : Fin NENV, Live s' f → (s'.envs f).envPgdir ≠ none)
    (current : ∀ c, s'.curenv = some c → Enterable s' c) :
    KernelInv m s' := by
  refine ⟨table, tidy, ?_, space, current, settled.npages.trans inv.npages,
    settled.nextfree.trans inv.nextfree, settled.kernPgdir.trans inv.kernPgdir,
    settled.envsKva.trans inv.envsKva⟩
  intro va static
  rw [kernPte_frame settled.kernPgdir frames static]
  exact inv.mapped va static

/-- The slots have the same ids, directories and links, and the same ones are free. -/
def SameSlots (s s' : State) : Prop := ∀ f, (s'.envs f).envLink = (s.envs f).envLink ∧
  (s'.envs f).envId = (s.envs f).envId ∧ (s'.envs f).envPgdir = (s.envs f).envPgdir ∧
  ((s'.envs f).envStatus = ENV_FREE ↔ (s.envs f).envStatus = ENV_FREE)

theorem SameSlots.dirsOf (slots : SameSlots s s') : dirsOf s' = dirsOf s :=
  dirsOf_congr fun f => ⟨(slots f).2.2.1, (slots f).2.2.2⟩

theorem SameSlots.current {c : Nat} (slots : SameSlots s s') (entered : Enterable s c) :
    Enterable s' c := by
  obtain ⟨slot, known⟩ := entered
  refine ⟨slot, ?_⟩
  rw [(slots c).2.2.1]
  rcases known with live | missing
  · left
    intro free
    exact live ((slots c).2.2.2.mp free)
  · exact Or.inr missing

theorem KernelInv.same_slots (inv : KernelInv m s) (settled : Settled s s')
    (frames : ∀ q, KernFrame s q → s'.mem q = s.mem q) (list : s'.envFreeList = s.envFreeList)
    (slots : SameSlots s s') (tidy : Tidy m (dirsOf s) s')
    (current : ∀ c, s'.curenv = some c → Enterable s' c) : KernelInv m s' := by
  obtain ⟨el, table⟩ := inv.table
  have table' := slots_congr table list fun f => ⟨(slots f).1, (slots f).2.1, (slots f).2.2.2⟩
  rw [← slots.dirsOf] at tidy
  refine inv.moved settled frames ⟨el, table'⟩ tidy ?_ current
  intro f live
  rw [(slots f).2.2.1]
  apply inv.space f
  intro free
  exact live ((slots f).2.2.2.mpr free)

theorem KernelInv.untouched (inv : KernelInv m s) (same : Untouched (dirsOf s) s s')
    (list : s'.envFreeList = s.envFreeList) (envsKva : s'.envsKva = s.envsKva)
    (slots : SameSlots s s') (current : ∀ c, s'.curenv = some c → Enterable s' c) :
    KernelInv m s' :=
  inv.same_slots ⟨same.npages, same.nextfree, same.kernPgdir, envsKva⟩
    (fun q kernel => same.mem q (Or.inr kernel)) list slots (same.tidy inv.tidy) current

theorem newDir_tidy (tidy : Tidy m dirs s) (acc : Accounted dirs none s (p :: rest))
    (empty : dirs e = none) : Tidy m (Function.update dirs e (some p)) (newDir s e p) := by
  obtain ⟨books, moved⟩ := newDir_books acc empty
  have vacant : target dirs none s (.root e) = none := empty
  have single : ∀ q, refs (target (Function.update dirs e (some p)) none (newDir s e p)) q ≤ 1 := by
    rw [moved]
    exact refs_point_le vacant (free_refs acc (by simp)) (Nat.le_refl 1) tidy.single
  have call : JosPageRuns.Call anyPage dirs s (Function.update dirs e (some p)) (newDir s e p) :=
    setup_call acc empty
  have bounded : Bounded (Function.update dirs e (some p)) none (newDir s e p) := by
    intro q
    have few := single q
    omega
  refine ⟨step_view tidy.view (.call call) bounded, single, ?_⟩
  intro f d i q held
  rw [moved, Function.update_of_ne (by simp)] at held
  obtain ⟨t, table, entry⟩ := tidy.rights f d i q held
  refine ⟨t, ?_, ?_⟩
  · rw [moved, Function.update_of_ne (by simp)]
    exact table
  · have apart : t ≠ p := by
      intro same
      subst same
      have counted := refs_pos.mpr ⟨_, table⟩
      rw [free_refs acc (by simp)] at counted
      exact absurd counted (Nat.lt_irrefl 0)
    unfold State.entry
    rw [newDir_mem_of_ne apart]
    exact entry

theorem head_slot {f : Nat} (inv : KernelInv m s) (head : s.envFreeList = some f) :
    ∃ slot : f < NENV, dirsOf s ⟨f, slot⟩ = none := by
  obtain ⟨el, table⟩ := inv.table
  have list := table.list
  unfold EnvFreeList at list
  rw [head, chain_some] at list
  obtain ⟨rest, first, _⟩ := list
  have listed : f ∈ el := by simp [first]
  obtain ⟨slot, free⟩ := (table.free f).mp listed
  exact ⟨slot, dirsOf_free free⟩

/-- env_alloc fails and leaves all as it was, or takes the first free slot and the first free page. -/
theorem envAlloc_cases {fl : List Nat} {r : Int} {out : Option Nat} (inv : KernelInv m s)
    (acc : Accounted (dirsOf s) none s fl) (run : envAlloc s parentId = .ok (r, out, s')) :
    (s' = s ∧ r < 0 ∧ out = none) ∨ ∃ (e : Fin NENV) (p : Nat) (rest : List Nat), fl = p :: rest ∧
      dirsOf s e = none ∧ r = 0 ∧ out = some e.val ∧ s' = newEnv s e p parentId := by
  cases head : s.envFreeList with
  | none =>
    rw [envAlloc_none head] at run
    cases run
    exact Or.inl ⟨rfl, by decide, rfl⟩
  | some f =>
    obtain ⟨slot, empty⟩ := head_slot inv head
    cases fl with
    | nil =>
      rw [envAlloc_full acc head] at run
      cases run
      exact Or.inl ⟨rfl, by decide, rfl⟩
    | cons p rest =>
      rw [envAlloc_take acc head] at run
      cases run
      exact Or.inr ⟨⟨f, slot⟩, p, rest, rfl, empty, rfl, rfl, rfl⟩

theorem dirsOf_newEnv (s : State) (e : Fin NENV) (p : Nat) (parentId : EnvId) :
    dirsOf (newEnv s e p parentId) = Function.update (dirsOf s) e (some p) := by
  funext f
  unfold dirsOf
  rw [newEnv_envs]
  by_cases same : f = e
  · subst same
    rw [Function.update_self, Function.update_self]
    exact if_neg runnable_not_free
  · have other : f.val ≠ e.val := fun eq => same (Fin.ext eq)
    rw [Function.update_of_ne same, Function.update_of_ne other]

theorem newEnv_untouched (dirs : Dirs) (s : State) (e p : Nat) (parentId : EnvId) :
    Untouched dirs (newDir s e p) (newEnv s e p parentId) := by
  refine ⟨rfl, rfl, rfl, rfl, rfl, ?_, fun _ _ => rfl⟩
  intro f q _
  rw [newEnv_envs, newDir_envs]
  by_cases same : f.val = e
  · rw [same, Function.update_self, Function.update_self]
    rfl
  · rw [Function.update_of_ne same, Function.update_of_ne same]

theorem newEnv_inv (inv : KernelInv m s) (acc : Accounted (dirsOf s) none s (p :: rest))
    (empty : dirsOf s e = none) (table : ∃ el, Slots (newEnv s e p parentId) el) :
    KernelInv m (newEnv s e p parentId) := by
  have tidy : Tidy m (dirsOf (newEnv s e p parentId)) (newEnv s e p parentId) := by
    rw [dirsOf_newEnv]
    exact (newEnv_untouched _ s e p parentId).tidy (newDir_tidy inv.tidy acc empty)
  have envs := newEnv_envs s e p parentId
  have frames : ∀ q, KernFrame s q → (newEnv s e p parentId).mem q = s.mem q := by
    intro q kernel
    have busy := (kernFrame_apart acc kernel).1
    have differ : q ≠ p := by
      intro same
      subst same
      exact busy (by simp)
    exact newEnv_mem_of_ne differ parentId
  have others : ∀ f, f ≠ e.val → (newEnv s e p parentId).envs f = s.envs f := by
    intro f other
    rw [envs, Function.update_of_ne other]
  have live : Live (newEnv s e p parentId) e := by
    unfold Live
    rw [envs, Function.update_self]
    exact runnable_not_free
  refine inv.moved ⟨rfl, rfl, rfl, rfl⟩ frames table tidy ?_ ?_
  · intro f live_f
    by_cases same : f = e
    · subst same
      rw [envs, Function.update_self]
      simp [filledSlot]
    · have other : f.val ≠ e.val := fun eq => same (Fin.ext eq)
      unfold Live at live_f
      rw [others f other] at live_f ⊢
      exact inv.space f live_f
  · intro c current
    have before := inv.current c current
    refine ⟨before.1, ?_⟩
    by_cases same : c = e.val
    · rw [same]
      exact Or.inl live
    · unfold Live
      rw [others c same]
      exact before.2

theorem alloc_inv (inv : KernelInv m s) {r : Int} {out : Option Nat}
    (run : envAlloc s parentId = .ok (r, out, s')) : KernelInv m s' := by
  obtain ⟨fl, acc⟩ := inv.tidy.view.kept.books
  obtain ⟨el, table⟩ := inv.table
  have table' := envAlloc_keeps table run
  rcases envAlloc_cases inv acc run with ⟨rfl, _, _⟩ | ⟨e, p, rest, rfl, empty, _, _, rfl⟩
  · exact inv
  · exact newEnv_inv inv acc empty table'

theorem dirsOf_freed (freed : Freed dirs e s fl s') :
    dirsOf s' = Function.update (dirsOf s) e none := by
  funext f
  unfold dirsOf
  rw [freed.envs]
  by_cases same : f = e
  · subst same
    rw [Function.update_self, Function.update_self]
    exact if_pos rfl
  · have other : f.val ≠ e.val := fun eq => same (Fin.ext eq)
    rw [Function.update_of_ne same, Function.update_of_ne other]

theorem freed_tidy (tidy : Tidy m dirs s) (he : dirs e = some pgdir) (run : envFree s e = .ok s')
    (freed : Freed dirs e s fl s') : Tidy m (Function.update dirs e none) s' := by
  have still : ∀ x q, target (Function.update dirs e none) none s' x = some q →
      x ∉ ownSlots e ∧ target dirs none s x = some q := by
    intro x q there
    rw [freed.target_eq, unlinkAll_target] at there
    by_cases own : x ∈ ownSlots e
    · rw [if_pos own] at there
      cases there
    · rw [if_neg own] at there
      exact ⟨own, there⟩
  have single : ∀ q, refs (target (Function.update dirs e none) none s') q ≤ 1 := by
    intro q
    rw [freed.target_eq]
    exact Nat.le_trans (refs_unlinkAll_le _ _ q) (tidy.single q)
  have bounded : Bounded (Function.update dirs e none) none s' := by
    intro q
    have few := single q
    omega
  refine ⟨step_view tidy.view (.call (@JosPageRuns.Call.envFree anyPage _ _ _ _ _ he run)) bounded, single, ?_⟩
  intro f d i q held
  obtain ⟨own, before⟩ := still _ q held
  obtain ⟨t, table, entry⟩ := tidy.rights f d i q before
  have other : f ≠ e := by
    intro same
    exact own (mem_ownSlots.mpr same)
  have foreign : Slot.table f d ∉ ownSlots e := fun listed => other (mem_ownSlots.mp listed)
  refine ⟨t, ?_, ?_⟩
  · rw [freed.target_eq, unlinkAll_target, if_neg foreign]
    exact table
  · have apart : ¬ OwnTable ⟨fl, target dirs none s⟩ e t := by
      intro mine
      rcases mine with root | ⟨d', table'⟩
      · have held_root : target dirs none s (.root e) = some t := root
        have slots := tidy.unique table held_root
        cases slots
      · have held_table : target dirs none s (.table e d') = some t := table'
        have slots := tidy.unique table held_table
        cases slots
        exact other rfl
    unfold State.entry
    rw [freed.mem t apart]
    exact entry

theorem free_inv (inv : KernelInv m s) (live : Live s e) (run : envFree s e = .ok s') :
    KernelInv m s' := by
  obtain ⟨fl, acc⟩ := inv.tidy.view.kept.books
  obtain ⟨el, table⟩ := inv.table
  obtain ⟨pgdir, he⟩ := inv.dir live
  have table' := envFree_keeps table e.isLt live run
  obtain ⟨s1, done, freed⟩ := envFree_spec acc inv.tidy.view.kept.bounded he (dirsOf_some.mp he).2
  rw [done] at run
  cases run
  have tidy : Tidy m (dirsOf s') s' := by
    rw [dirsOf_freed freed]
    exact freed_tidy inv.tidy he done freed
  have settled : Settled s s' := by
    constructor <;> rw [freed.rest]
  have frames : ∀ q, KernFrame s q → s'.mem q = s.mem q := by
    intro q kernel
    obtain ⟨_, plain⟩ := kernFrame_apart acc kernel
    apply freed.mem
    intro own
    rcases own with root | ⟨d, held⟩
    · exact plain (Or.inl ⟨e, root⟩)
    · exact plain (Or.inr ⟨e, d, held⟩)
  have others : ∀ f, f ≠ e.val → s'.envs f = s.envs f := by
    intro f other
    rw [freed.envs, Function.update_of_ne other]
  refine inv.moved settled frames ⟨_, table'⟩ tidy ?_ ?_
  · intro f live_f
    by_cases same : f = e
    · subst same
      unfold Live at live_f
      rw [freed.envs, Function.update_self] at live_f
      exact absurd rfl live_f
    · have other : f.val ≠ e.val := fun eq => same (Fin.ext eq)
      unfold Live at live_f
      rw [others f other] at live_f ⊢
      exact inv.space f live_f
  · intro c current
    rw [freed.rest] at current
    have before := inv.current c current
    refine ⟨before.1, ?_⟩
    by_cases same : c = e.val
    · right
      rw [same, freed.envs, Function.update_self]
    · unfold Live
      rw [others c same]
      exact before.2

theorem switched_same (live : Live s e) (pgdir : Nat) : SameSlots s (switched s e pgdir) := by
  intro f
  by_cases here : f = e.val
  · rw [here, switched_here]
    refine ⟨rfl, rfl, rfl, fun free => absurd free running_not_free, fun free => ?_⟩
    exact absurd free live
  · rw [switched_elsewhere s pgdir here]
    exact ⟨rfl, rfl, rfl, Iff.rfl⟩

theorem switched_untouched (live : Live s e) (pgdir : Nat) :
    Untouched (dirsOf s) s (switched s e pgdir) :=
  ⟨rfl, rfl, rfl, rfl, rfl, fun f _ _ => (switched_same live pgdir f).2.2.1, fun _ _ => rfl⟩

theorem switched_inv (inv : KernelInv m s) (live : Live s e) (pgdir : Nat) :
    KernelInv m (switched s e pgdir) := by
  refine inv.untouched (switched_untouched live pgdir) rfl rfl (switched_same live pgdir) ?_
  intro c current
  obtain rfl : e.val = c := Option.some.inj current
  refine ⟨e.isLt, Or.inl ?_⟩
  intro free
  exact live ((switched_same live pgdir e).2.2.2.mp free)

theorem run_inv (inv : KernelInv m s) (live : Live s e) (run : envRun s e = .ok s') :
    KernelInv m s' := by
  rcases envRun_cases run with ⟨_, rfl⟩ | ⟨_, pgdir, _, rfl⟩
  · exact inv
  · exact switched_inv inv live pgdir

theorem saved_same (s : State) (tf : Trapframe) : SameSlots s (saveFrame s tf) := by
  intro f
  obtain ⟨tf', here⟩ := (saveFrame_fields s tf).2.2.2 f
  rw [here]
  exact ⟨rfl, rfl, rfl, Iff.rfl⟩

theorem saved_rest (s : State) (tf : Trapframe) :
    saveFrame s tf = { s with envs := (saveFrame s tf).envs } := by
  unfold saveFrame
  split <;> rfl

theorem saved_untouched (s : State) (tf : Trapframe) :
    Untouched (dirsOf s) s (saveFrame s tf) := by
  have rest := saved_rest s tf
  refine ⟨?_, ?_, ?_, ?_, ?_, fun f _ _ => (saved_same s tf f).2.2.1, fun _ _ => ?_⟩ <;> rw [rest]

theorem saved_inv (inv : KernelInv m s) (tf : Trapframe) : KernelInv m (saveFrame s tf) := by
  obtain ⟨curenv, _, list, _⟩ := saveFrame_fields s tf
  refine inv.untouched (saved_untouched s tf) list (by rw [saved_rest]) (saved_same s tf) ?_
  intro c current
  rw [curenv] at current
  exact (saved_same s tf).current (inv.current c current)

theorem envFree_dir {f : Nat} (run : envFree s f = .ok s') : (s.envs f).envPgdir ≠ none := by
  unfold envFree at run
  obtain ⟨s1, looped, run⟩ := bind_ok.mp run
  obtain ⟨pgdir, found, _⟩ := bind_ok.mp run
  have quiet : Quiet (leaveDir s f) s1 := envFreePdes_quiet looped
  have envs : s1.envs = s.envs := quiet.envs.trans (leaveDir_mem s f).2.2.2.1
  intro missing
  rw [envs] at found
  unfold paddrPgdir at found
  rw [missing] at found
  cases found

theorem noted_inv (inv : KernelInv m s) (a : Nat) :
    KernelInv m { s with userMemCheckAddr := a } :=
  inv.untouched ⟨rfl, rfl, rfl, rfl, rfl, fun _ _ _ => rfl, fun _ _ => rfl⟩ rfl rfl
    (fun _ => ⟨rfl, rfl, rfl, Iff.rfl⟩) inv.current

theorem destroyed_live (inv : KernelInv m s) (destroyed : Destroyed s s') :
    ∃ a, ∃ f : Fin NENV, Live s f ∧ envFree { s with userMemCheckAddr := a } f = .ok s' := by
  obtain ⟨a, f, known, run⟩ := destroyed
  rcases known with current | ⟨slot, live⟩
  · obtain ⟨slot, live | missing⟩ := inv.current f current
    · exact ⟨a, ⟨f, slot⟩, live, run⟩
    · have dir := envFree_dir run
      exact absurd missing dir
  · exact ⟨a, ⟨f, slot⟩, live, run⟩

theorem destroyed_inv (inv : KernelInv m s) (destroyed : Destroyed s s') : KernelInv m s' := by
  obtain ⟨a, f, live, run⟩ := destroyed_live inv destroyed
  exact free_inv (noted_inv inv a) live run

/-- A trap from user mode leaves a frame with the selectors it came with, or frees an
    environment. -/
theorem userTrap_ends {w : Surroundings} {tf : Trapframe} {cr2 : Nat} (user : tf.tfCs &&& 3 = 3)
    (ends : Ends w s tf cr2 s') :
    (∃ after, after.tfCs = tf.tfCs ∧ after.tfSs = tf.tfSs ∧ s' = saveFrame s after) ∨
      Destroyed (saveFrame s tf) s' := by
  rcases ends with run | run
  · left
    cases current : s.curenv with
    | none =>
      have missing : runningEnv s = .error (.panic .assertion) := by
        unfold runningEnv
        rw [current]
      unfold trap at run
      rw [if_pos user, missing] at run
      cases run
    | some c =>
      obtain ⟨_, _, eax, _, left⟩ := (trap_user_returns user current).mp run
      exact ⟨setEax tf eax, rfl, rfl, left⟩
  · rcases trap_user_stops user run with saved | destroyed
    · exact Or.inl ⟨tf, rfl, rfl, saved⟩
    · exact Or.inr destroyed

theorem kernelTrap_ends {w : Surroundings} {tf : Trapframe} {cr2 : Nat} (kernel : tf.tfCs &&& 3 = 0)
    (ends : Ends w s tf cr2 s') : s' = s ∨ Destroyed s s' := by
  have other : tf.tfCs &&& 3 ≠ 3 := by
    rw [kernel]
    decide
  rcases ends with run | run
  · exact Or.inl (trap_kernel_returns other run)
  · exact trap_kernel_stops other run

theorem writable_below {va : Nat} (view : View m dirs s) (he : dirs e = some pgdir) (word : va < WORD)
    (writes : userWritable s pgdir va p) : va < UTOP := by
  obtain ⟨t, walked, user, writable, _⟩ := writes
  by_contra high
  rcases high_slot (Nat.le_of_not_lt high) word with static | self
  · obtain ⟨_, _, pte⟩ := walk_static view he static walked
    by_cases low : vpn va < ULIM / PGSIZE
    · apply view.readonly static low
      rw [← pte]
      exact writable.2
    · apply view.kernel_only static (Nat.le_of_not_lt low)
      rw [← pte]
      exact user.2
  · have asks : Writable PTE_W := by decide
    apply uvpt_denied view he self asks
    exact ⟨t, walked, user, fun _ => writable⟩

theorem writable_page {va : Nat} (view : View m dirs s) (he : dirs e = some pgdir) (word : va < WORD)
    (writes : userWritable s pgdir va p) :
    ∃ d i, target dirs none s (.leaf e d i) = some p := by
  have below := writable_below view he word writes
  obtain ⟨t, walked, _, _, page⟩ := writes
  have held := walk_page (s := s) he (user_slot below)
  rw [walked, Option.map_some, page] at held
  exact ⟨_, _, held.symm⟩

theorem store_inv {c : Fin NENV} {va : Nat} {b : UInt8} (inv : KernelInv m s) (live : Live s c)
    (space : (s.envs c).envPgdir = some s.cr3) (word : va < WORD)
    (writes : userWritable s s.cr3 va p) : KernelInv m (s.setByte p (pgoff va) b) := by
  have he : dirsOf s c = some s.cr3 := dirsOf_some.mpr ⟨live, space⟩
  obtain ⟨d, i, held⟩ := writable_page inv.tidy.view he word writes
  exact inv.untouched (setByte_untouched inv.tidy held (pgoff va) b) rfl rfl
    (fun _ => ⟨rfl, rfl, rfl, Iff.rfl⟩) inv.current

theorem envInit_idle (free : ∀ e, e < NENV → (s.envs e).envStatus = ENV_FREE) (f : Fin NENV) :
    ((envInit s).envs f).envStatus = ENV_FREE := by
  have status := (envInitLoop_slots NENV s f).1
  unfold envInit
  rw [status]
  exact free f f.isLt

theorem dirsOf_envInit (free : ∀ e, e < NENV → (s.envs e).envStatus = ENV_FREE) :
    dirsOf (envInit s) = fun _ => none := by
  funext f
  exact dirsOf_free (envInit_idle free f)

theorem boot_inv (run : MemInit (powerOn m) s)
    (free : ∀ e, e < NENV → (s.envs e).envStatus = ENV_FREE) : KernelInv m (envInit s) := by
  obtain ⟨_, fl, boot⟩ := memInit_ok m run
  have view := memInit_view run
  have tidy : Tidy m (fun _ => none) s := by
    refine ⟨view, refs_without_envs boot.books, ?_⟩
    intro e d i q held
    cases held
  have rest := envInit_rest s
  have still : Untouched (fun _ => none) s (envInit s) := by
    refine ⟨?_, ?_, ?_, ?_, ?_, ?_, fun _ _ => ?_⟩
    case refine_6 =>
      intro e q he
      cases he
    all_goals rw [rest]
  have table := envInit_slots free boot.envFreeList
  have idle := envInit_idle free
  have dirs := dirsOf_envInit free
  refine ⟨⟨_, table⟩, ?_, ?_, ?_, ?_, still.npages.trans boot.npages,
    still.nextfree.trans boot.nextfree, still.kernPgdir.trans boot.kernPgdir, ?_⟩
  · rw [dirs]
    exact still.tidy tidy
  · intro va static
    rw [kernPte_frame still.kernPgdir (fun q kernel => still.mem q (Or.inr kernel)) static]
    exact boot.pte va static
  · intro f live
    exact absurd (idle f) live
  · intro c current
    rw [rest] at current
    have none_yet := boot.curenv
    rw [current] at none_yet
    cases none_yet
  · rw [rest]
    exact boot.envsKva

theorem kernFrame_not_own {q : Nat} (tidy : Tidy m dirs s) (kernel : KernFrame s q) :
    ¬ OwnPage dirs s e q := by
  obtain ⟨fl, acc⟩ := tidy.view.kept.books
  intro own
  obtain ⟨x, mine, held⟩ := own
  rcases kernel with here | ⟨d, static, named⟩
  · exact managed_ne_kern acc (acc.targets x q held) here
  · have fixed : target dirs none s (.fixed ⟨d, static.2.1⟩) = some q := by
      rw [fixed_entry static]
      exact named
    have slots := tidy.unique held fixed
    subst slots
    exact mine

theorem loaded_same {binary : Binary} (loaded : Loaded m dirs e binary s fl s') : SameSlots s s' := by
  intro f
  rw [loaded.rest]
  by_cases here : f = e.val
  · subst here
    dsimp only
    rw [Function.update_self]
    exact ⟨rfl, rfl, rfl, Iff.rfl⟩
  · dsimp only
    rw [Function.update_of_ne here]
    exact ⟨rfl, rfl, rfl, Iff.rfl⟩

theorem loaded_inv {binary : Binary} (inv : KernelInv m s) (acc : Accounted (dirsOf s) none s fl)
    (loaded : Loaded m (dirsOf s) e binary s fl s') : KernelInv m s' := by
  have rest := loaded.rest
  have slots := loaded_same loaded
  have settled : Settled s s' := by
    constructor <;> rw [rest]
  have frames : ∀ q, KernFrame s q → s'.mem q = s.mem q := by
    intro q kernel
    have busy := (kernFrame_apart acc kernel).1
    exact (loaded.loading.frame q busy (kernFrame_not_own inv.tidy kernel)).1
  refine inv.same_slots settled frames (by rw [rest]) slots loaded.loading.tidy ?_
  intro c current
  rw [rest] at current
  exact slots.current (inv.current c current)

end Steps

section Runs
variable {m : Machine} {load : State → Fin NENV → State → Prop} {s s' : State}

def LoadKeeps (m : Machine) (load : State → Fin NENV → State → Prop) : Prop :=
  ∀ (s : State) (e : Fin NENV) (s' : State), KernelInv m s → Live s e → load s e s' → KernelInv m s'

theorem step_inv (loads : LoadKeeps m load) (inv : KernelInv m s) (step : Step load s s') :
    KernelInv m s' := by
  cases step with
  | alloc run => exact alloc_inv inv run
  | load live run => exact loads _ _ _ inv live run
  | free live run => exact free_inv inv live run
  | run live run => exact run_inv inv live run
  | userTrap cs _ ends =>
    rcases userTrap_ends cs ends with ⟨after, _, _, rfl⟩ | destroyed
    · exact saved_inv inv after
    · exact destroyed_inv (saved_inv inv _) destroyed
  | kernelTrap cs ends =>
    rcases kernelTrap_ends cs ends with rfl | destroyed
    · exact inv
    · exact destroyed_inv inv destroyed
  | store _ live space word writes => exact store_inv inv live space word writes

theorem reached_inv (loads : LoadKeeps m load) (reached : Reached m load s) : KernelInv m s := by
  induction reached with
  | boot run free => exact boot_inv run free
  | step _ step ih => exact step_inv loads ih step

end Runs

section SmallMachine
variable {load : State → Fin NENV → State → Prop}

/-- The first environment of a small machine, before it is loaded. -/
structure FirstEnv (load : State → Fin NENV → State → Prop) (p : Nat) (s : State) (fl : List Nat) :
    Prop where
  reached : Reached smallMachine load s
  inv : KernelInv smallMachine s
  books : Accounted (dirsOf s) none s fl
  enough : 500 ≤ fl.length
  dir : dirsOf s 0 = some p
  tables : ∀ d, target (dirsOf s) none s (.table 0 d) = none
  envTf : (s.envs 0).envTf = initialTrapframe
  idle : s.curenv = none

theorem first_alloc : ∃ s0 p s fl, Reached smallMachine load s0 ∧
    envAlloc s0 0 = .ok (0, some (0 : Fin NENV).val, s) ∧ FirstEnv load p s fl := by
  obtain ⟨s, fl, run, acc, long⟩ := smallMachine_boot
  obtain ⟨_, _, boot⟩ := memInit_ok smallMachine run
  have free := smallMachine_idle run
  have start := envInit_slots free boot.envFreeList
  have head : (envInit s).envFreeList = some 0 := (chain_cons_head start.list).1
  have none_yet := dirsOf_envInit free
  have acc0 : Accounted (dirsOf (envInit s)) none (envInit s) fl := by
    rw [none_yet]
    exact (envInit_same s).books acc
  have empty : dirsOf (envInit s) 0 = none := by rw [none_yet]
  cases fl with
  | nil => exact absurd long (by decide)
  | cons p rest =>
    have taken : envAlloc (envInit s) 0 =
        .ok (0, some (0 : Fin NENV).val, newEnv (envInit s) (0 : Fin NENV) p 0) :=
      envAlloc_take acc0 head 0
    have booted := boot_inv run free
    obtain ⟨books, moved⟩ := newEnv_books (e := 0) acc0 empty 0
    have dirs := dirsOf_newEnv (envInit s) 0 p 0
    rw [← dirs] at books moved
    refine ⟨_, p, _, rest, Reached.boot run free, taken,
      (Reached.boot run free).step (.alloc taken), alloc_inv booted taken, books, ?_, ?_, ?_, ?_, ?_⟩
    · simp only [List.length_cons] at long
      omega
    · rw [dirs, Function.update_self]
    · intro d
      rw [moved, Function.update_of_ne (by simp), none_yet]
      rfl
    · have slot : (newEnv (envInit s) (0 : Fin NENV) p 0).envs (0 : Fin NENV) =
          filledSlot ((envInit s).envs (0 : Fin NENV)) (0 : Fin NENV) p 0 := by
        rw [newEnv_envs, Function.update_self]
      exact congrArg Env.envTf slot
    · have kept : ∀ s1 : State, (newEnv s1 (0 : Fin NENV) p 0).curenv = s1.curenv := fun _ => rfl
      rw [kept, envInit_rest]
      exact boot.curenv

theorem first_env : ∃ p s fl, FirstEnv load p s fl := by
  obtain ⟨_, p, s, fl, _, _, first⟩ := @first_alloc load
  exact ⟨p, s, fl, first⟩

end SmallMachine

end JosKernelRuns
