import Jos.Loader

/- Whose page is whose. A run is taken together with the pages region_alloc got for each
   environment since it lives; whatever an environment maps below UTOP is among them, and nothing
   else can be written from user mode. -/
namespace JosPageOwners
open JosLayout FrameWords JosMachine JosPmap JosMmu JosEnv JosTrap JosBoot JosAccounting JosPageOps
open JosMapping JosEnvSpace JosNewEnv JosRegions JosBootPages JosStaticMap JosKernelView JosPageRuns
open JosEnvTable JosEnvSwitch JosSyscallReturn JosTrapEnds JosDirRights JosUserMemRights
open JosUserStores JosLoading JosKernelRuns JosEnvFrames JosLoader IntrusiveList Ledger TableForest
open CountedLoop

/-- What region_alloc got for each environment. -/
abbrev Grants : Type := Fin NENV → List Grant

def living (s : State) (got : Grants) : Grants :=
  fun e => if (s.envs e).envStatus = ENV_FREE then [] else got e

def loadsNothing (_ : State) (_ : Fin NENV) (_ : State) : Prop := False

/-- The runs of the kernel, with what load_icode got for each environment. -/
inductive History (m : Machine) : State → Grants → Prop where
  | boot {s : State} (run : MemInit (powerOn m) s)
      (free : ∀ e, e < NENV → (s.envs e).envStatus = ENV_FREE) : History m (envInit s) fun _ => []
  | load {s s' s1 : State} {got : Grants} {e : Fin NENV} {binary : Binary} {grants : List Grant}
      (before : History m s got) (live : Live s e)
      (low : ∀ k, k < binary.phCount → Loadable binary (binary.ph k))
      (run : loadInPlace s e binary = .ok s')
      (took : loadIcode (mirror s) e binary = .ok (grants, s1)) :
      History m s' (Function.update got e (grants ++ got e))
  | step {s s' : State} {got : Grants} (before : History m s got) (step : Step loadsNothing s s') :
      History m s' (living s' got)

section Runs
variable {m : Machine} {load load' : State → Fin NENV → State → Prop} {s s' : State} {got : Grants}

theorem step_mono (more : ∀ s e s', load s e s' → load' s e s') (step : Step load s s') :
    Step load' s s' := by
  cases step with
  | alloc run => exact .alloc run
  | load live run => exact .load live (more _ _ _ run)
  | free live run => exact .free live run
  | run live run => exact .run live run
  | userTrap cs ss ends => exact .userTrap cs ss ends
  | kernelTrap cs ends => exact .kernelTrap cs ends
  | store current live space word writes => exact .store current live space word writes

theorem history_reached (history : History m s got) : Reached m loadsLow s := by
  induction history with
  | boot run free => exact .boot run free
  | load _ live low run _ ih => exact ih.step (.load live ⟨_, low, run⟩)
  | step _ step ih =>
    exact ih.step (step_mono (fun _ _ _ never => never.elim) step)

theorem reached_history (reached : Reached m loadsLow s) : ∃ got, History m s got := by
  induction reached with
  | boot run free => exact ⟨_, .boot run free⟩
  | step _ step ih =>
    obtain ⟨got, before⟩ := ih
    cases step with
    | load live load =>
      obtain ⟨binary, low, run⟩ := load
      have whole := run
      unfold loadInPlace at run
      obtain ⟨⟨grants, s1⟩, took, _⟩ := bind_ok.mp run
      exact ⟨_, before.load live low whole took⟩
    | alloc run => exact ⟨_, before.step (.alloc run)⟩
    | free live run => exact ⟨_, before.step (.free live run)⟩
    | run live run => exact ⟨_, before.step (.run live run)⟩
    | userTrap cs ss ends => exact ⟨_, before.step (.userTrap cs ss ends)⟩
    | kernelTrap cs ends => exact ⟨_, before.step (.kernelTrap cs ends)⟩
    | store current live space word writes =>
      exact ⟨_, before.step (.store current live space word writes)⟩

theorem history_inv (history : History m s got) : KernelInv m s :=
  reached_inv loadsLow_keeps (history_reached history)

end Runs

def Took (dirs : Dirs) (e : Fin NENV) (s0 s : State) (grants : List Grant) : Prop :=
  ∀ d i p, target dirs none s (.leaf e d i) = some p →
    target dirs none s0 (.leaf e d i) = some p ∨ ⟨p, 0⟩ ∈ grants

section Loads
variable {m : Machine} {dirs : Dirs} {s0 s s' : State} {fl0 : List Nat} {e : Fin NENV}
  {pgdir va : Nat} {binary : Binary} {grants grants' : List Grant}

theorem Took.same (took : Took dirs e s0 s grants)
    (same : target dirs none s' = target dirs none s) : Took dirs e s0 s' grants := by
  intro d i p held
  rw [same] at held
  exact took d i p held

theorem Took.more (took : Took dirs e s0 s grants) (g : Grant) : Took dirs e s0 s (g :: grants) := by
  intro d i p held
  rcases took d i p held with old | listed
  · exact Or.inl old
  · exact Or.inr (List.mem_cons_of_mem g listed)

theorem Took.round (took : Took dirs e s0 s grants) (tidy : Tidy m dirs s) (he : dirs e = some pgdir)
    (user : pdx va < userPdes) (run : regionAllocStep e va (grants, s) = .ok (grants', s')) :
    Took dirs e s0 s' grants' := by
  have kept := tidy.view.kept
  obtain ⟨fl, acc⟩ := kept.books
  rcases regionAllocStep_spec acc kept.bounded he (kept.known e pgdir he) user grants with
    ⟨_, failed⟩ | ⟨p, rfl, _, done⟩ | ⟨p, rest, t, s1, fl1, s2, fl2, rfl, _, done, inserted⟩
  · rw [failed] at run
    cases run
  · rw [done] at run
    cases run
    exact (took.more _).same (takeFree_target acc false)
  · rw [done] at run
    cases run
    intro d i q held
    rw [inserted.target_eq, takeFree_target acc] at held
    by_cases here : Slot.leaf e d i = (leafSlot e va user : PageSlot)
    · rw [here, leafSlot, Function.update_self] at held
      cases held
      exact Or.inr List.mem_cons_self
    · rw [Function.update_of_ne here, Function.update_of_ne (by simp)] at held
      exact took.more _ d i q held

theorem took_carried (he : dirs e = some pgdir) :
    Carried m dirs e s0 fl0 fun grants s => Took dirs e s0 s grants where
  round user loading took run := took.round loading.tidy he user run
  same same took := took.same same.target

theorem loadIcode_took (tidy : Tidy m dirs s) (he : dirs e = some pgdir)
    (loadable : ∀ k, k < binary.phCount → Loadable binary (binary.ph k))
    (run : loadIcode s e binary = .ok (grants, s')) : Took dirs e s s' grants := by
  obtain ⟨fl0, acc⟩ := tidy.view.kept.books
  have start : Took dirs e s s [] := fun _ _ _ held => Or.inl held
  exact (took_carried he).loadIcode tidy acc he loadable start run

end Loads

def NoneMapped (s s' : State) : Prop :=
  ∀ (e : Fin NENV) d i p, target (dirsOf s') none s' (.leaf e d i) = some p →
    target (dirsOf s) none s (.leaf e d i) = some p

/-- Every page mapped below UTOP is one that region_alloc got for the environment. -/
def Owned (s : State) (got : Grants) : Prop :=
  ∀ (e : Fin NENV) d i p, target (dirsOf s) none s (.leaf e d i) = some p → ⟨p, 0⟩ ∈ got e

section Steps
variable {m : Machine} {s s' s'' : State} {e : Fin NENV} {got : Grants} {parentId : EnvId}

theorem noneMapped_refl (s : State) : NoneMapped s s := fun _ _ _ _ held => held

theorem NoneMapped.trans (first : NoneMapped s s') (second : NoneMapped s' s'') :
    NoneMapped s s'' := fun e d i p held => first e d i p (second e d i p held)

theorem untouched_maps (same : Untouched (dirsOf s) s s') (slots : SameSlots s s') :
    NoneMapped s s' := by
  intro e d i p held
  rw [slots.dirsOf, same.target] at held
  exact held

theorem alloc_maps (inv : KernelInv m s) {r : Int} {out : Option Nat}
    (run : envAlloc s parentId = .ok (r, out, s')) : NoneMapped s s' := by
  obtain ⟨fl, acc⟩ := inv.tidy.view.kept.books
  rcases envAlloc_cases inv acc run with ⟨rfl, _, _⟩ | ⟨f, p, rest, rfl, empty, _, _, rfl⟩
  · exact noneMapped_refl s'
  · intro e d i q held
    have dirs := dirsOf_newEnv s f p parentId
    have moved := (newEnv_books acc empty parentId).2
    rw [dirs, moved, Function.update_of_ne (by simp)] at held
    exact held

theorem free_maps (inv : KernelInv m s) (live : Live s e) (run : envFree s e = .ok s') :
    NoneMapped s s' := by
  obtain ⟨fl, acc⟩ := inv.tidy.view.kept.books
  obtain ⟨pgdir, he⟩ := inv.dir live
  obtain ⟨s1, done, freed⟩ := envFree_spec acc inv.tidy.view.kept.bounded he (dirsOf_some.mp he).2
  rw [done] at run
  cases run
  intro f d i p held
  rw [dirsOf_freed freed, freed.target_eq, unlinkAll_target] at held
  by_cases own : Slot.leaf f d i ∈ ownSlots e
  · rw [if_pos own] at held
    cases held
  · rw [if_neg own] at held
    exact held

theorem destroyed_maps (inv : KernelInv m s) (destroyed : Destroyed s s') : NoneMapped s s' := by
  obtain ⟨a, f, live, run⟩ := destroyed_live inv destroyed
  have freed := free_maps (noted_inv inv a) live run
  exact freed

theorem step_maps (inv : KernelInv m s) (step : Step loadsNothing s s') : NoneMapped s s' := by
  cases step with
  | alloc run => exact alloc_maps inv run
  | load _ never => exact never.elim
  | free live run => exact free_maps inv live run
  | run live run =>
    rcases envRun_cases run with ⟨_, rfl⟩ | ⟨_, pgdir, _, rfl⟩
    · exact noneMapped_refl _
    · exact untouched_maps (switched_untouched live pgdir) (switched_same live pgdir)
  | @userTrap _ _ tf _ cs _ ends =>
    have saved : ∀ after, NoneMapped s (saveFrame s after) :=
      fun after => untouched_maps (saved_untouched s after) (saved_same s after)
    rcases userTrap_ends cs ends with ⟨after, _, _, rfl⟩ | destroyed
    · exact saved after
    · exact (saved tf).trans (destroyed_maps (saved_inv inv tf) destroyed)
  | kernelTrap cs ends =>
    rcases kernelTrap_ends cs ends with rfl | destroyed
    · exact noneMapped_refl _
    · exact destroyed_maps inv destroyed
  | store current live space word writes =>
    have he : dirsOf s _ = some s.cr3 := dirsOf_some.mpr ⟨live, space⟩
    obtain ⟨d, i, held⟩ := writable_page inv.tidy.view he word writes
    exact untouched_maps (setByte_untouched inv.tidy held _ _) fun _ => ⟨rfl, rfl, rfl, Iff.rfl⟩

theorem Owned.living (owned : Owned s got) (none_new : NoneMapped s s') :
    Owned s' (living s' got) := by
  intro e d i p held
  have live : Live s' e := by
    intro free
    change ((forest (dirsOf s') none s').table e d).bind _ = some p at held
    have nothing : (forest (dirsOf s') none s').table e d = none := by
      change (dirsOf s' e).bind _ = none
      rw [dirsOf_free free]
      rfl
    rw [nothing] at held
    cases held
  have before := owned e d i p (none_new e d i p held)
  unfold JosPageOwners.living
  rw [if_neg live]
  exact before

theorem Owned.load {s1 : State} {binary : Binary} {grants : List Grant} (owned : Owned s got)
    (inv : KernelInv m s) (live : Live s e)
    (low : ∀ k, k < binary.phCount → Loadable binary (binary.ph k))
    (run : loadInPlace s e binary = .ok s') (took : loadIcode (mirror s) e binary = .ok (grants, s1)) :
    Owned s' (Function.update got e (grants ++ got e)) := by
  have inv0 := mirror_inv inv
  have mirrored := (mirror_untouched inv).target
  obtain ⟨fl, acc⟩ := inv0.tidy.view.kept.books
  have live0 : Live (mirror s) e := live
  obtain ⟨pgdir, he⟩ := inv0.dir live0
  have loaded := loadIcode_ok inv0.tidy acc he low took
  have recorded := loadIcode_took inv0.tidy he low took
  have dirs : dirsOf s1 = dirsOf (mirror s) := (loaded_same loaded).dirsOf
  have left := run
  unfold loadInPlace at left
  rw [took, ok_bind] at left
  cases left
  obtain ⟨slots, same, _⟩ := reread_left s1 e
    { ((reread s1).envs e).envTf with tfEip := UInt32.ofNat binary.eEntry }
  intro f d i p held
  rw [slots.dirsOf, same.target, dirs] at held
  by_cases here : f = e
  · subst here
    rw [Function.update_self, List.mem_append]
    rcases recorded d i p held with old | listed
    · right
      have before : target (dirsOf s) none (mirror s) (.leaf f d i) = some p := old
      rw [mirrored] at before
      exact owned f d i p before
    · exact Or.inl listed
  · rw [Function.update_of_ne here]
    have other : ¬ Own e (Slot.leaf f d i) := here
    rw [loaded.loading.others _ other] at held
    have before : target (dirsOf s) none (mirror s) (.leaf f d i) = some p := held
    rw [mirrored] at before
    exact owned f d i p before

theorem history_owned (history : History m s got) : Owned s got := by
  induction history with
  | @boot s run free =>
    intro e d i p held
    rw [dirsOf_envInit free] at held
    cases held
  | load before live low run took ih => exact ih.load (history_inv before) live low run took
  | step before step ih => exact ih.living (step_maps (history_inv before) step)

end Steps

/-- The kernel's addresses are out of reach: user code writes none from UTOP on, and reads none from
    ULIM on. -/
def Guarded (s : State) (pgdir : Nat) : Prop :=
  (∀ va p, UTOP ≤ va → va < WORD → ¬ userWritable s pgdir va p) ∧
    ∀ va p, ULIM ≤ va → va < WORD → ¬ userReadable s pgdir va p

/-- From UTOP on, but for UVPT, the directory translates as kern_pgdir does. -/
def KernelHalf (s : State) (pgdir : Nat) : Prop :=
  ∀ va, UTOP ≤ va → va < WORD → pdx va ≠ uvptPde → walk s pgdir va = walk s s.kernPgdir va

/-- The page was got by region_alloc for e, and nobody else has a use for it. -/
structure OwnAlone (s : State) (got : Grants) (e : Fin NENV) (p : Nat) : Prop where
  granted : ⟨p, 0⟩ ∈ got e
  unshared : ∀ (f : Fin NENV) pgdir va t, f ≠ e → Live s f → (s.envs f).envPgdir = some pgdir →
    va < UTOP → walk s pgdir va = some t → Translation.page t ≠ p
  busy : ¬ OnFreeList s p
  noTable : ¬ TablePage (dirsOf s) s p
  noBoot : ¬ bootPage s.nextfree p

section Integrity
variable {m : Machine} {s : State} {got : Grants} {e : Fin NENV} {pgdir p : Nat}

theorem guarded (view : View m (dirsOf s) s) (he : dirsOf s e = some pgdir) : Guarded s pgdir := by
  constructor
  · intro va p above word writes
    exact absurd (writable_below view he word writes) (Nat.not_lt.mpr above)
  · intro va p above word reads
    obtain ⟨t, walked, user, _⟩ := reads
    have low : UTOP ≤ va := Nat.le_trans (by decide) above
    rcases high_slot low word with static | self
    · obtain ⟨_, _, pte⟩ := walk_static view he static walked
      have kernel : ULIM / PGSIZE ≤ vpn va := by
        unfold vpn
        rw [Nat.mod_eq_of_lt word]
        exact Nat.div_le_div_right above
      apply view.kernel_only static kernel
      rw [← pte]
      exact user.2
    · -- the window at UVPT ends at ULIM
      rw [pdx_eq] at self
      simp only [uvptPde, WORD, ULIM, MMIOBASE, MMIOLIM, KSTACKTOP, KERNBASE, PTSIZE,
        PGSIZE, NPTENTRIES] at *
      omega

theorem kernelHalf (view : View m (dirsOf s) s) (he : dirsOf s e = some pgdir) :
    KernelHalf s pgdir := by
  intro va above word other
  have static := (high_slot above word).resolve_right other
  have same := (view.shaped e pgdir he).high (pdx va) static
  unfold walk
  rw [same]

theorem own_alone (inv : KernelInv m s) (owned : Owned s got) {d : Fin userPdes} {i : Fin NPTENTRIES}
    (held : target (dirsOf s) none s (.leaf e d i) = some p) : OwnAlone s got e p := by
  obtain ⟨fl, acc⟩ := inv.tidy.view.kept.books
  refine ⟨owned e d i p held, ?_, ?_, inv.tidy.plain held, (acc.targets _ p held).2⟩
  · intro f pgdir' va t other live dir below walked same
    have hf : dirsOf s f = some pgdir' := dirsOf_some.mpr ⟨live, dir⟩
    have there := walk_page (s := s) hf (user_slot below)
    rw [walked, Option.map_some, same] at there
    have slots := inv.tidy.unique held there.symm
    cases slots
    exact other rfl
  · rw [onFreeList_iff acc.list]
    exact busy_of_target acc held

theorem leaf_address (e : Fin NENV) (d : Fin userPdes) (i : Fin NPTENTRIES) :
    ∃ below : pgaddr d i 0 < UTOP, leafSlot e (pgaddr d i 0) (user_slot below) = .leaf e d i := by
  have dir : d.val < 1024 := Nat.lt_trans d.isLt (by decide)
  have below : pgaddr d i 0 < UTOP := by
    rw [pgaddr_eq i.isLt]
    have d_lt := d.isLt
    have i_lt := i.isLt
    simp only [userPdes, NPTENTRIES, UTOP, UENVS, UPAGES, UVPT, ULIM, MMIOBASE, MMIOLIM, KSTACKTOP,
      KERNBASE, PTSIZE, PGSIZE] at *
    omega
  refine ⟨below, ?_⟩
  simp [leafSlot, pdx_pgaddr dir i.isLt, ptx_pgaddr i.isLt]

theorem page_writable (tidy : Tidy m (dirsOf s) s) (he : dirsOf s e = some pgdir)
    {d : Fin userPdes} {i : Fin NPTENTRIES} (held : target (dirsOf s) none s (.leaf e d i) = some p) :
    ∃ va, va < WORD ∧ userWritable s pgdir va p := by
  obtain ⟨below, slot⟩ := leaf_address e d i
  have page := walk_page (s := s) he (user_slot below)
  rw [slot, held] at page
  obtain ⟨t, walked, named⟩ := Option.map_eq_some_iff.mp page
  obtain ⟨user, writable⟩ := walk_granted tidy he (user_slot below) walked
  exact ⟨_, Nat.lt_trans below (by decide), t, walked, user, writable, named⟩

end Integrity

/-- env_create has made environment e from a well-formed image. -/
structure Created (s : State) (fl : List Nat) (binary : Binary) (e : Fin NENV) (s' : State) : Prop where
  slot : dirsOf s e = none
  live : Live s' e
  others : ∀ g, g ≠ e → dirsOf s' g = dirsOf s g
  free : ∀ g, g ≠ e.val → ((s'.envs g).envStatus = ENV_FREE ↔ (s.envs g).envStatus = ENV_FREE)
  pages : ∀ n (small : n < UTOP / PGSIZE), n ∈ touched binary →
    target (dirsOf s') none s' (pageSlot e n small) ≠ none
  books : ∃ fl', Accounted (dirsOf s') none s' fl' ∧
    fl'.length + (touched binary).card + (tablesOf (touched binary)).card + 1 = fl.length

section Creation
variable {m : Machine} {s : State} {got : Grants} {fl : List Nat} {binary : Binary}

theorem create_env (history : History m s got) (acc : Accounted (dirsOf s) none s fl) {f : Nat}
    (slot : f < NENV) (free : (s.envs f).envStatus = ENV_FREE) (wf : WellFormed binary)
    (enough : (touched binary).card + (tablesOf (touched binary)).card < fl.length) :
    ∃ e s' got', History m s' got' ∧ Created s fl binary e s' := by
  have inv := history_inv history
  obtain ⟨el, table⟩ := inv.table
  have listed : f ∈ el := (table.free f).mpr ⟨slot, free⟩
  cases el with
  | nil => cases listed
  | cons g others =>
    have head : s.envFreeList = some g := (chain_cons_head table.list).1
    obtain ⟨slot_g, empty⟩ := head_slot inv head
    cases fl with
    | nil => exact absurd enough (Nat.not_lt_zero _)
    | cons p rest =>
      have run : envAlloc s 0 = .ok (0, some (⟨g, slot_g⟩ : Fin NENV).val, newEnv s g p 0) :=
        envAlloc_take acc head 0
      have dirs := dirsOf_newEnv s ⟨g, slot_g⟩ p 0
      have acc1 := (newEnv_books acc empty 0).1
      rw [← dirs] at acc1
      have history1 := history.step (.alloc run)
      obtain ⟨pgdir, he, no_table⟩ := fresh_env inv run
      have live1 := (dirsOf_some.mp he).1
      obtain ⟨grants, s2, s3, took, whole, placed⟩ :=
        load_placed (history_inv history1) acc1 he no_table wf (Nat.le_of_lt_succ enough)
      have history2 := history1.load live1 (fun k within => wellFormed_loadable wf within) whole took
      refine ⟨⟨g, slot_g⟩, s3, _, history2, empty, ?_, ?_, ?_, placed.pages, ?_⟩
      · intro dead
        exact live1 ((placed.same g).2.2.2.mp dead)
      · intro h other
        rw [placed.same.dirsOf, dirs, Function.update_of_ne other]
      · intro h other
        rw [(placed.same h).2.2.2, newEnv_envs, Function.update_of_ne other]
      · obtain ⟨fl', books, paid⟩ := placed.books
        refine ⟨fl', books, ?_⟩
        rw [List.length_cons]
        omega

theorem first_created : ∃ s0 fl s e got, (∀ f : Fin NENV, (s0.envs f).envStatus = ENV_FREE) ∧
    542 ≤ fl.length ∧ History smallMachine s got ∧ Created s0 fl smallImage e s := by
  obtain ⟨s, fl, run, acc, long⟩ := smallMachine_boot
  have free := smallMachine_idle run
  have acc0 : Accounted (dirsOf (envInit s)) none (envInit s) fl := by
    rw [dirsOf_envInit free]
    exact (envInit_same s).books acc
  have cost : (touched smallImage).card + (tablesOf (touched smallImage)).card = 5 := by decide
  have idle := envInit_idle free
  obtain ⟨e, s', got, history, created⟩ := create_env (History.boot run free) acc0
    (0 : Fin NENV).isLt (idle 0) smallImage_wellFormed (by omega)
  exact ⟨envInit s, fl, s', e, got, idle, long, history, created⟩

end Creation

def KernelIntegrity (s : State) (got : Grants) : Prop :=
  ∀ (e : Fin NENV) pgdir, Live s e → (s.envs e).envPgdir = some pgdir →
    Guarded s pgdir ∧ KernelHalf s pgdir ∧
      ∀ va p, va < WORD → userWritable s pgdir va p → OwnAlone s got e p

/-- In every state of a run user code can write pages only that region_alloc got for its own
    environment, and that serve nothing else. -/
theorem kernel_integrity {m : Machine} {s : State} {got : Grants} (history : History m s got) :
    KernelIntegrity s got := by
  intro e pgdir live dir
  have inv := history_inv history
  have he : dirsOf s e = some pgdir := dirsOf_some.mpr ⟨live, dir⟩
  refine ⟨guarded inv.tidy.view he, kernelHalf inv.tidy.view he, ?_⟩
  intro va p word writes
  obtain ⟨d, i, held⟩ := writable_page inv.tidy.view he word writes
  exact own_alone inv (history_owned history) held

theorem kernel_integrity_smallMachine : ∃ s got, (∃ (e : Fin NENV) (pgdir va p : Nat), Live s e ∧
    (s.envs e).envPgdir = some pgdir ∧ va < WORD ∧ userWritable s pgdir va p) ∧
      KernelIntegrity s got := by
  obtain ⟨_, _, s, e, got, _, _, history, created⟩ := first_created
  have inv := history_inv history
  obtain ⟨pgdir, he⟩ := inv.dir created.live
  -- the first page of the image
  obtain ⟨p, held⟩ := Option.ne_none_iff_exists'.mp (created.pages 1 (by decide) (by decide))
  obtain ⟨va, word, writes⟩ := page_writable inv.tidy he held
  exact ⟨s, got, ⟨e, pgdir, va, p, created.live, (dirsOf_some.mp he).2, word, writes⟩,
    kernel_integrity history⟩

/-- A small machine on which every slot of envs[] is left runnable, slot k with page k as its
    directory. -/
def leftoverMachine : Machine :=
  { smallMachine with
    envs := fun k => { idleEnv with envStatus := ENV_RUNNABLE, envPgdir := some k } }

theorem leftoverMachine_boot : ∃ s fl, MemInit (powerOn leftoverMachine) s ∧
    BootState leftoverMachine s fl := by
  have once : (List.range' 413 611).Nodup := List.nodup_range'
  have free : ∀ p ∈ List.range' 413 611,
      p < leftoverMachine.npages ∧ ¬ bootPage (bootEnd leftoverMachine) p := by
    intro p within
    obtain ⟨low, high⟩ := List.mem_range'_1.mp within
    exact smallMachine_free low (by omega)
  have enough : 69 < (List.range' 413 611).length := by
    rw [List.length_range']
    decide
  have fits : Fits leftoverMachine := by decide
  obtain ⟨s, run⟩ := memInit_total leftoverMachine fits once free enough
  obtain ⟨_, fl, boot⟩ := memInit_ok leftoverMachine run
  exact ⟨s, fl, run, boot⟩

theorem kernbase_table {m : Machine} {s : State} {fl : List Nat} (boot : BootState m s fl) :
    ∃ t, t < s.npages ∧ Present (s.entry s.kernPgdir (pdx KERNBASE)) ∧
      UserBit (s.entry s.kernPgdir (pdx KERNBASE)) ∧ ppn (s.entry s.kernPgdir (pdx KERNBASE)) = t ∧
      ∀ i, i < NPTENTRIES → s.entry t i = mapEntry i PTE_W := by
  have static : StaticPde (pdx KERNBASE) := ⟨by decide, by decide, by decide⟩
  have value : ∀ i, i < NPTENTRIES → kernPte s (KERNBASE + i * PGSIZE) = mapEntry i PTE_W ∧
      pdx (KERNBASE + i * PGSIZE) = pdx KERNBASE ∧ ptx (KERNBASE + i * PGSIZE) = i := by
    intro i small
    have dir : pdx (KERNBASE + i * PGSIZE) = pdx KERNBASE := by
      rw [pdx_eq, pdx_eq]
      simp only [KERNBASE, PGSIZE, NPTENTRIES] at *
      omega
    have table : ptx (KERNBASE + i * PGSIZE) = i := by
      rw [ptx_eq]
      simp only [KERNBASE, PGSIZE, NPTENTRIES] at *
      omega
    have page : vpn (KERNBASE + i * PGSIZE) = KERNBASE / PGSIZE + i := by
      unfold vpn
      simp only [WORD, KERNBASE, PGSIZE, NPTENTRIES] at *
      omega
    refine ⟨?_, dir, table⟩
    rw [boot.pte _ (by rw [dir]; exact static), bootPte_entry, page, if_pos (Nat.le_add_right _ _),
      Nat.add_sub_cancel_left]
  have present : Present (s.entry s.kernPgdir (pdx KERNBASE)) := by
    intro absent
    have first := (value 0 (by decide)).1
    unfold kernPte at first
    rw [Nat.zero_mul, Nat.add_zero, if_neg (fun shown => shown absent)] at first
    have shows : Present (mapEntry 0 PTE_W) := present_mapEntry (by decide)
    rw [← first] at shows
    exact absurd shows (by decide)
  have managed : Managed s (ppn (s.entry s.kernPgdir (pdx KERNBASE))) := by
    apply boot.books.targets (.fixed ⟨pdx KERNBASE, static.2.1⟩)
    rw [fixed_entry static, entryPage, if_pos present]
  refine ⟨_, managed.1, present, (boot.grants _ static present).1, rfl, ?_⟩
  intro i small
  obtain ⟨entry, dir, table⟩ := value i small
  unfold kernPte at entry
  rw [dir, if_pos present, table] at entry
  exact entry

theorem envInitLoop_dir (n : Nat) (s : State) (e : Nat) :
    ((envInitLoop n s).envs e).envPgdir = (s.envs e).envPgdir := by
  induction n generalizing s with
  | zero => rfl
  | succ n ih =>
    rw [envInitLoop, ih]
    change (Function.update s.envs n _ e).envPgdir = _
    by_cases here : e = n
    · rw [here, Function.update_self]
    · rw [Function.update_of_ne here]

/-- env_init leaves those slots live. One has the page table of KERNBASE as its directory, which
    does not translate as kern_pgdir does. -/
theorem leftover_env : ¬ ∀ m s, MemInit (powerOn m) s → KernelIntegrity (envInit s) fun _ => [] := by
  intro claim
  obtain ⟨s, fl, run, boot⟩ := leftoverMachine_boot
  obtain ⟨t, inside, present, user, named, entries⟩ := kernbase_table boot
  have slot : t < NENV := by
    rw [boot.npages] at inside
    exact inside
  have status : ((envInit s).envs t).envStatus = ENV_RUNNABLE := by
    unfold envInit
    rw [(envInitLoop_slots NENV s t).1, boot.envs]
    rfl
  have dir : ((envInit s).envs t).envPgdir = some t := by
    unfold envInit
    rw [envInitLoop_dir, boot.envs]
    rfl
  have pages := envInit_same s
  have integrity := claim leftoverMachine s run
  generalize envInit s = s1 at status dir pages integrity
  have live : Live s1 t := by
    unfold Live
    rw [status]
    decide
  obtain ⟨_, half, _⟩ := integrity ⟨t, slot⟩ t live dir
  have same := half KERNBASE (by decide) (by decide) (by decide)
  have kernel : walk s s.kernPgdir KERNBASE =
      some ⟨s.entry s.kernPgdir (pdx KERNBASE), mapEntry 0 PTE_W⟩ := by
    have first : s.entry t (ptx KERNBASE) = mapEntry 0 PTE_W := entries 0 (by decide)
    apply walk_some.mpr
    rw [named, first]
    exact ⟨present, present_mapEntry (by decide), rfl⟩
  have own : walk s t KERNBASE = some ⟨s.entry s.kernPgdir (pdx KERNBASE), mapEntry 0 PTE_W⟩ := by
    rw [← kernel]
    unfold walk at same ⊢
    simp only [pages.entry, pages.kernPgdir] at same
    exact same
  obtain ⟨_, _, entry⟩ := walk_some.mp own
  injection entry with pde _
  rw [pde, entries (pdx KERNBASE) (by decide)] at user
  unfold UserBit at user
  rw [mapEntry_and (by decide) (by decide)] at user
  exact absurd user (by decide)

end JosPageOwners
