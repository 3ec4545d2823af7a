import Jos.RefWrap

/- The directory entries of environments in every state of a run: below UTOP they grant
   everything, so a page's own entry decides; from UTOP on they are those of kern_pgdir, whose
   tables no call writes; and one entry maps the directory itself, for reading. -/
namespace JosDirRights
open JosLayout FrameWords JosMachine JosPmap JosMmu JosEnv JosBoot JosAccounting JosPageOps
open JosMapping JosEnvSpace JosNewEnv JosRegions JosBootPages JosStaticMap JosKernelView JosPageRuns
open JosRefWrap IntrusiveList Ledger TableForest CountedLoop

structure Shaped (s : State) (pgdir : Nat) : Prop where
  low : ∀ d, d < userPdes → Present (s.entry pgdir d) →
    UserBit (s.entry pgdir d) ∧ Writable (s.entry pgdir d)
  high : ∀ d, StaticPde d → s.entry pgdir d = s.entry s.kernPgdir d
  uvpt : s.entry pgdir uvptPde = mapEntry pgdir PTE_U

def AllShaped (dirs : Dirs) (s : State) : Prop := ∀ e p, dirs e = some p → Shaped s p

section Shape
variable {s s' : State} {pgdir d v : Nat}

theorem Shaped.frame (shaped : Shaped s pgdir) (kern : s'.kernPgdir = s.kernPgdir)
    (kernel : s'.mem s.kernPgdir = s.mem s.kernPgdir) (same : s'.mem pgdir = s.mem pgdir) :
    Shaped s' pgdir := by
  have dir : ∀ j, s'.entry pgdir j = s.entry pgdir j := by
    intro j
    unfold State.entry
    rw [same]
  have kern_dir : ∀ j, s'.entry s'.kernPgdir j = s.entry s.kernPgdir j := by
    intro j
    unfold State.entry
    rw [kern, kernel]
  constructor
  · intro j low present
    rw [dir] at present ⊢
    exact shaped.low j low present
  · intro j static
    rw [dir, kern_dir]
    exact shaped.high j static
  · rw [dir]
    exact shaped.uvpt

theorem Shaped.store (shaped : Shaped s pgdir) (kern : s'.kernPgdir = s.kernPgdir)
    (kernel : s'.mem s.kernPgdir = s.mem s.kernPgdir) (user : d < userPdes)
    (others : ∀ j, j ≠ d → s'.entry pgdir j = s.entry pgdir j)
    (grants : UserBit (s'.entry pgdir d) ∧ Writable (s'.entry pgdir d)) : Shaped s' pgdir := by
  constructor
  · intro j low present
    by_cases here : j = d
    · subst here
      exact grants
    · rw [others j here] at present ⊢
      exact shaped.low j low present
  · intro j static
    have elsewhere : j ≠ d := by
      intro same
      have above := static.1
      omega
    rw [others j elsewhere, shaped.high j static]
    unfold State.entry
    rw [kern, kernel]
  · have elsewhere : uvptPde ≠ d := by
      intro same
      simp only [uvptPde, userPdes] at same user
      omega
    rw [others uvptPde elsewhere]
    exact shaped.uvpt

theorem or_keeps_flag {x f : Nat} (flag : x &&& f ≠ 0) (perm : Nat) : (x ||| perm) &&& f ≠ 0 := by
  intro none_left
  rw [Nat.and_or_distrib_right, Nat.or_eq_zero_iff] at none_left
  exact flag none_left.1

end Shape

section Calls
variable {insert : Dirs → State → Fin NENV → Nat → Nat → Prop} {dirs dirs' : Dirs}
  {s s' : State} {fl fl' : List Nat} {e : Fin NENV} {d : Fin userPdes} {pgdir t va : Nat}

theorem AllShaped.frame (shaped : AllShaped dirs s) (kern : s'.kernPgdir = s.kernPgdir)
    (kernel : s'.mem s.kernPgdir = s.mem s.kernPgdir)
    (same : ∀ e p, dirs e = some p → s'.mem p = s.mem p) : AllShaped dirs s' := by
  intro e p he
  exact (shaped e p he).frame kern kernel (same e p he)

theorem table_apart (acc : Accounted dirs none s fl)
    (table : t ∈ fl ∨ target dirs none s (.table e d) = some t) :
    s.kernPgdir ≠ t ∧ ∀ e p, dirs e = some p → p ≠ t := by
  rcases table with listed | held
  · refine ⟨(managed_ne_kern acc (acc.managed t listed)).symm, ?_⟩
    intro e' p he' same
    subst same
    exact acc.unused p listed (.root e') he'
  · refine ⟨(managed_ne_kern acc (acc.targets _ t held)).symm, ?_⟩
    intro e' p he'
    exact Forest.root_ne_table acc.apart he' held

theorem AllShaped.write (acc : Accounted dirs none s fl) (shaped : AllShaped dirs s)
    (he : dirs e = some pgdir) (table : t ∈ fl ∨ target dirs none s (.table e d) = some t)
    (kern : s'.kernPgdir = s.kernPgdir)
    (mem : ∀ q, q ≠ t → q ≠ pgdir → s'.mem q = s.mem q) (own : Shaped s' pgdir) :
    AllShaped dirs s' := by
  obtain ⟨kern_table, root_table⟩ := table_apart acc table
  have kern_dir : s.kernPgdir ≠ pgdir := (managed_ne_kern acc (root_managed acc he)).symm
  intro e' p he'
  by_cases here : p = pgdir
  · subst here
    exact own
  · exact (shaped e' p he').frame kern (mem _ kern_table kern_dir) (mem p (root_table e' p he') here)

theorem walked_table (walked : Walked dirs none e d pgdir s fl t s' fl') :
    t ∈ fl ∨ target dirs none s (.table e d) = some t := by
  rcases walked with ⟨ht, _, _⟩ | ⟨_, _, rfl⟩
  · exact Or.inr ht
  · exact Or.inl (by simp)

/-- The entry pgdir_walk leaves for a page table grants everything. -/
theorem walked_grants (acc : Accounted dirs none s fl) (shaped : AllShaped dirs s)
    (he : dirs e = some pgdir) (walked : Walked dirs none e d pgdir s fl t s' fl') :
    UserBit (s'.entry pgdir d) ∧ Writable (s'.entry pgdir d) := by
  rcases walked with ⟨ht, rfl, _⟩ | ⟨_, rfl, rfl⟩
  · exact (shaped e pgdir he).low d d.isLt ((table_entry he).mp ht).1
  · rw [hangTable_dir (managed_room acc (acc.managed t (by simp)))]
    exact ⟨tableEntry_user t, tableEntry_writable t⟩

theorem walked_shaped (acc : Accounted dirs none s fl) (shaped : AllShaped dirs s)
    (he : dirs e = some pgdir) (walked : Walked dirs none e d pgdir s fl t s' fl') :
    AllShaped dirs s' := by
  have table := walked_table walked
  have kern_dir : s.kernPgdir ≠ pgdir := (managed_ne_kern acc (root_managed acc he)).symm
  have kernel := walked.mem_of_ne (table_apart acc table).1 kern_dir
  have own : Shaped s' pgdir :=
    (shaped e pgdir he).store walked.quiet.kernPgdir kernel d.isLt
      (fun j other => walked.dir_of_ne acc he other) (walked_grants acc shaped he walked)
  exact shaped.write acc he table walked.quiet.kernPgdir
    (fun q other root => walked.mem_of_ne other root) own

theorem inserted_shaped {i : Fin NPTENTRIES} {pp perm : Nat} {s1 : State} {fl1 : List Nat}
    (acc : Accounted dirs none s fl) (shaped : AllShaped dirs s) (he : dirs e = some pgdir)
    (walked : Walked dirs none e d pgdir s fl t s1 fl1)
    (inserted : Inserted dirs e d i pgdir pp perm s t s1 fl1 s' fl') : AllShaped dirs s' := by
  have table := walked_table walked
  have kern_dir : s.kernPgdir ≠ pgdir := (managed_ne_kern acc (root_managed acc he)).symm
  have kernel := inserted.mem_of_ne _ (table_apart acc table).1 kern_dir
  obtain ⟨user, writable⟩ := walked_grants acc shaped he walked
  have grants : UserBit (s'.entry pgdir d) ∧ Writable (s'.entry pgdir d) := by
    rw [inserted.dir]
    exact ⟨or_keeps_flag user perm, or_keeps_flag writable perm⟩
  have own : Shaped s' pgdir :=
    (shaped e pgdir he).store inserted.quiet.kernPgdir kernel d.isLt inserted.dir_of_ne grants
  exact shaped.write acc he table inserted.quiet.kernPgdir inserted.mem_of_ne own

theorem newDir_shaped {p : Nat} {rest : List Nat} (acc : Accounted dirs none s (p :: rest))
    (shaped : AllShaped dirs s) :
    AllShaped (Function.update dirs e (some p)) (newDir s e p) := by
  have managed := acc.managed p (by simp)
  have kernel := managed_ne_kern acc managed
  have kern_same : (newDir s e p).mem s.kernPgdir = s.mem s.kernPgdir :=
    newDir_mem_of_ne kernel.symm
  intro e' q he'
  by_cases here : e' = e
  · subst here
    rw [Function.update_self] at he'
    cases he'
    have dir : ∀ j, (newDir s e' p).entry p j =
        if j = uvptPde then mapEntry p PTE_U else s.entry s.kernPgdir j := by
      intro j
      exact newDir_entry kernel (managed_room acc managed)
    constructor
    · intro j low present
      have other : j ≠ uvptPde := by
        intro same
        simp only [uvptPde, userPdes] at same low
        omega
      rw [dir, if_neg other] at present
      exact absurd present (entryPage_none.mp (acc.kernEmpty j low))
    · intro j static
      rw [dir, if_neg static.2.2]
      unfold State.entry
      rw [← kern_same]
      rfl
    · rw [dir, if_pos rfl]
  · rw [Function.update_of_ne here] at he'
    have differ : q ≠ p := by
      intro same
      subst same
      exact acc.unused q (by simp) (.root e') he'
    exact (shaped e' q he').frame rfl kern_same (newDir_mem_of_ne differ)

theorem freed_shaped (acc : Accounted dirs none s fl) (shaped : AllShaped dirs s)
    (freed : Freed dirs e s fl s') : AllShaped (Function.update dirs e none) s' := by
  have kern : s'.kernPgdir = s.kernPgdir := by rw [freed.rest]
  have kernel : s'.mem s.kernPgdir = s.mem s.kernPgdir := by
    apply freed.mem
    intro own
    rcases own with root | ⟨d, table⟩
    · exact managed_ne_kern acc (root_managed acc root) rfl
    · exact managed_ne_kern acc (acc.targets (.table e d) _ table) rfl
  intro e' q he'
  have other : e' ≠ e := by
    intro same
    subst same
    rw [Function.update_self] at he'
    cases he'
  rw [Function.update_of_ne other] at he'
  refine (shaped e' q he').frame kern kernel (freed.mem q ?_)
  intro own
  rcases own with root | ⟨d, table⟩
  · exact other (Forest.root_unique acc.apart he' root)
  · exact Forest.root_ne_table acc.apart he' table rfl

theorem takeFree_shaped {p : Nat} {rest : List Nat} (acc : Accounted dirs none s (p :: rest))
    (shaped : AllShaped dirs s) (zero : Bool) : AllShaped dirs (takeFree s p zero) := by
  obtain ⟨kern, roots⟩ := @table_apart dirs s (p :: rest) 0 0 p acc (Or.inl (by simp))
  exact shaped.frame (takeFree_quiet s p zero).kernPgdir (takeFree_mem_of_ne zero kern)
    fun e q he => takeFree_mem_of_ne zero (roots e q he)

theorem clearLeaf_shaped {e : Fin NENV} {d : Fin userPdes} {t i p va : Nat}
    (acc : Accounted dirs none s fl) (shaped : AllShaped dirs s)
    (ht : target dirs none s (.table e d) = some t) : AllShaped dirs (clearLeaf s t i p va) := by
  obtain ⟨kern, roots⟩ := table_apart acc (Or.inr ht)
  have mem : ∀ q, q ≠ t → (clearLeaf s t i p va).mem q = s.mem q := by
    intro q differ
    rw [clearLeaf_mem, Function.update_of_ne differ]
  exact shaped.frame (clearLeaf_quiet s t i p va).kernPgdir (mem _ kern)
    fun e q he => mem q (roots e q he)

theorem call_shaped (acc : Accounted dirs none s fl) (bounded : Bounded dirs none s)
    (known : ∀ e p, dirs e = some p → (s.envs e).envPgdir = some p) (shaped : AllShaped dirs s)
    (call : Call insert dirs s dirs' s') : AllShaped dirs' s' := by
  cases call with
  | pageAlloc zero run =>
    cases fl with
    | nil =>
      rw [pageAlloc_empty acc] at run
      cases run
      exact shaped
    | cons p rest =>
      rw [pageAlloc_take acc] at run
      cases run
      exact takeFree_shaped acc shaped zero
  | pageFree held unreferenced => exact shaped.frame rfl rfl fun _ _ _ => rfl
  | pgdirWalk he user run =>
    rcases pgdirWalk_create acc he (user_slot user) with ⟨_, _, done⟩ | ⟨t, s1, fl1, done, walked⟩
    · rw [done] at run
      cases run
      exact shaped
    · rw [done] at run
      cases run
      exact walked_shaped acc shaped he walked
  | pageInsert he user held small may run =>
    obtain ⟨managed, busy⟩ := held
    rw [onFreeList_iff acc.list] at busy
    rcases pageInsert_spec acc bounded he (user_slot user) managed busy small with
      ⟨_, _, done⟩ | ⟨t, s1, fl1, s2, fl2, walked, done, inserted⟩
    · rw [done] at run
      cases run
      exact shaped
    · rw [done] at run
      cases run
      exact inserted_shaped acc shaped he walked inserted
  | pageRemove he user run =>
    rcases pageRemove_spec acc he (user_slot user) with ⟨_, done⟩ | ⟨t, p, ht, held, done⟩
    · rw [done] at run
      cases run
      exact shaped
    · rw [done] at run
      cases run
      exact clearLeaf_shaped acc shaped ht
  | envSetupVm he run =>
    rename_i e
    cases fl with
    | nil =>
      rw [envSetupVm_empty acc] at run
      cases run
    | cons p rest =>
      rw [envSetupVm_take acc] at run
      cases run
      have named : ((newDir s e p).envs e).envPgdir = some p := by
        rw [newDir_envs, Function.update_self]
      rw [named]
      exact newDir_shaped acc shaped
  | envSetupVmFailed he failed run =>
    cases fl with
    | nil =>
      rw [envSetupVm_empty acc] at run
      cases run
      exact shaped
    | cons p rest =>
      rw [envSetupVm_take acc] at run
      cases run
      exact absurd failed (by decide)
  | envFree he run =>
    obtain ⟨s1, done, freed⟩ := envFree_spec acc bounded he (known _ _ he)
    rw [done] at run
    cases run
    exact freed_shaped acc shaped freed

theorem regionAllocStep_shaped (kept : Kept dirs s) (shaped : AllShaped dirs s)
    (he : dirs e = some pgdir) (user : pdx va < userPdes) {grants grants' : List Grant}
    (run : regionAllocStep e va (grants, s) = .ok (grants', s')) :
    AllShaped dirs s' ∧ s'.kernPgdir = s.kernPgdir ∧ ∀ q, KernFrame s q → s'.mem q = s.mem q := by
  obtain ⟨fl, acc⟩ := kept.books
  rcases regionAllocStep_spec acc kept.bounded he (kept.known e pgdir he) user grants with
    ⟨_, failed⟩ | ⟨p, rfl, _, done⟩ | ⟨p, rest, t, s1, fl1, s2, fl2, rfl, walked, done, inserted⟩
  · rw [failed] at run
    cases run
  · rw [done] at run
    cases run
    exact ⟨shaped.frame rfl rfl fun _ _ _ => rfl, rfl, fun _ _ => rfl⟩
  · rw [done] at run
    cases run
    have taken := takeFree_books acc false
    have same := takeFree_target acc false
    have shaped1 : AllShaped dirs (takeFree s p false) := shaped.frame rfl rfl fun _ _ _ => rfl
    refine ⟨inserted_shaped taken shaped1 he walked inserted, inserted.quiet.kernPgdir, ?_⟩
    intro q kernel
    have kernel1 : KernFrame (takeFree s p false) q := kernel
    obtain ⟨busy, plain⟩ := kernFrame_apart taken kernel1
    apply inserted.mem_of_ne
    · intro here
      subst here
      rcases walked_table walked with listed | held
      · exact busy listed
      · exact plain (Or.inr ⟨e, _, held⟩)
    · intro here
      subst here
      exact plain (Or.inl ⟨e, he⟩)

end Calls

/-- What the processor finds above UTOP, in every state of a run: the entries of kern_pgdir are
    those mem_init made, or absent as long as it has not run. -/
structure View (m : Machine) (dirs : Dirs) (s : State) : Prop where
  kept : Kept dirs s
  shaped : AllShaped dirs s
  grants : ∀ d, StaticPde d → Present (s.entry s.kernPgdir d) →
    UserBit (s.entry s.kernPgdir d) ∧ Writable (s.entry s.kernPgdir d)
  pte : ∀ va, StaticPde (pdx va) → kernPte s va = 0 ∨ kernPte s va = bootPte m va

section Views
variable {m : Machine} {insert : Dirs → State → Fin NENV → Nat → Nat → Prop}
  {keep : Dirs → State → Prop} {dirs dirs' : Dirs} {s s' : State} {e : Fin NENV} {pgdir va : Nat}

theorem kernPte_frame (kern : s'.kernPgdir = s.kernPgdir)
    (frames : ∀ q, KernFrame s q → s'.mem q = s.mem q) (static : StaticPde (pdx va)) :
    kernPte s' va = kernPte s va := by
  unfold kernPte
  rw [kern_entry_frame kern frames]
  by_cases present : Present (s.entry s.kernPgdir (pdx va))
  · rw [if_pos present, if_pos present]
    have table := frames _ (Or.inr ⟨pdx va, static, entryPage_some.mpr ⟨present, rfl⟩⟩)
    exact congrArg (fun f => word f (ptx va)) table
  · rw [if_neg present, if_neg present]

theorem View.frame (view : View m dirs s) (kept : Kept dirs' s') (shaped : AllShaped dirs' s')
    (kern : s'.kernPgdir = s.kernPgdir) (frames : ∀ q, KernFrame s q → s'.mem q = s.mem q) :
    View m dirs' s' := by
  refine ⟨kept, shaped, ?_, ?_⟩
  · intro d static present
    rw [kern_entry_frame kern frames] at present ⊢
    exact view.grants d static present
  · intro va static
    rw [kernPte_frame kern frames static]
    exact view.pte va static

theorem regionAllocStep_view (view : View m dirs s) (he : dirs e = some pgdir)
    (user : pdx va < userPdes) {grants grants' : List Grant}
    (run : regionAllocStep e va (grants, s) = .ok (grants', s')) : View m dirs s' := by
  obtain ⟨shaped, kern, frames⟩ := regionAllocStep_shaped view.kept view.shaped he user run
  exact view.frame (regionAllocStep_kept view.kept he user run).1 shaped kern frames

theorem regionAlloc_view (view : View m dirs s) (he : dirs e = some pgdir) {len : Nat}
    (below : Below va len) {grants grants' : List Grant}
    (run : regionAlloc (grants, s) e va len = .ok (grants', s')) : View m dirs s' := by
  rw [regionAlloc_eq] at run
  have round : ∀ (k : Nat) (a b : List Grant × State), k < rounds va len → View m dirs a.2 →
      regionAllocStep e (roundDown va PGSIZE + k * PGSIZE) a = .ok b → View m dirs b.2 :=
    fun k a b within before done => regionAllocStep_view before he (below_user below within).2 done
  have start : View m dirs (grants, s).2 := view
  have done := times_keeps (fun _ got => View m dirs got.2) start round run
  exact done

theorem step_view (view : View m dirs s) (step : Step insert dirs s dirs' s')
    (bounded : Bounded dirs' none s') : View m dirs' s' := by
  have kept := step_kept view.kept step bounded
  cases step with
  | call call =>
    obtain ⟨fl, acc⟩ := view.kept.books
    obtain ⟨fl', stepped⟩ := call_stepped acc view.kept.bounded view.kept.known call
    have shaped := call_shaped acc view.kept.bounded view.kept.known view.shaped call
    exact view.frame kept shaped stepped.kernPgdir fun q kernel => stepped.kernel acc kernel
  | regionAlloc he below run => exact regionAlloc_view view he below run

theorem pageInit_view (run : memInitAlloc (powerOn m) = .ok s) : View m (fun _ => none) s := by
  obtain ⟨_, booted, _⟩ := memInitAlloc_ok m run
  have empty : ∀ d, StaticPde d → s.entry s.kernPgdir d = 0 := by
    intro d static
    rw [booted.kernPgdir, booted.dir, if_neg static.2.2]
  refine ⟨pageInit_kept run, ?_, ?_, ?_⟩
  · intro e p he
    cases he
  · intro d static present
    rw [empty d static] at present
    exact absurd present (by decide)
  · intro va static
    left
    unfold kernPte
    rw [empty _ static]
    exact if_neg (by decide)

theorem memInit_view (run : MemInit (powerOn m) s) : View m (fun _ => none) s := by
  obtain ⟨_, fl, boot⟩ := memInit_ok m run
  refine ⟨memInit_kept run, ?_, boot.grants, fun va static => Or.inr (boot.pte va static)⟩
  intro e p he
  cases he

theorem reached_view (few : ∀ dirs s, Reached m insert keep dirs s → Bounded dirs none s)
    (reached : Reached m insert keep dirs s) : View m dirs s := by
  induction reached with
  | pageInit run => exact pageInit_view run
  | memInit run => exact memInit_view run
  | step before step kept ih => exact step_view ih step (few _ _ (before.step step kept))

theorem View.readonly (view : View m dirs s) (static : StaticPde (pdx va))
    (low : vpn va < ULIM / PGSIZE) : ¬ Writable (kernPte s va) := by
  rcases view.pte va static with absent | same
  · rw [absent]
    decide
  · rw [same]
    exact bootPte_readonly m low

theorem View.kernel_only (view : View m dirs s) (static : StaticPde (pdx va))
    (high : ULIM / PGSIZE ≤ vpn va) : ¬ UserBit (kernPte s va) := by
  rcases view.pte va static with absent | same
  · rw [absent]
    decide
  · rw [same]
    exact bootPte_kernel_only m high

theorem high_slot (above : UTOP ≤ va) (word : va < WORD) :
    StaticPde (pdx va) ∨ pdx va = uvptPde := by
  unfold StaticPde
  rw [pdx_eq]
  simp only [userPdes, uvptPde, NPDENTRIES, WORD, UTOP, UENVS, UPAGES, UVPT, ULIM, MMIOBASE,
    MMIOLIM, KSTACKTOP, KERNBASE, PTSIZE, PGSIZE, NPTENTRIES] at *
  omega

/-- A walk through a slot of kern_pgdir meets the kernel's frames only. -/
theorem walk_kernel (kern : s'.kernPgdir = s.kernPgdir)
    (frames : ∀ q, KernFrame s q → s'.mem q = s.mem q) (static : StaticPde (pdx va))
    (before : s.entry pgdir (pdx va) = s.entry s.kernPgdir (pdx va))
    (after : s'.entry pgdir (pdx va) = s'.entry s'.kernPgdir (pdx va)) :
    walk s' pgdir va = walk s pgdir va := by
  have dir := kern_entry_frame kern frames (pdx va)
  unfold walk
  rw [after, dir, before]
  by_cases present : Present (s.entry s.kernPgdir (pdx va))
  · have table := frames _ (Or.inr ⟨pdx va, static, entryPage_some.mpr ⟨present, rfl⟩⟩)
    have leaf : s'.entry (ppn (s.entry s.kernPgdir (pdx va))) (ptx va) =
        s.entry (ppn (s.entry s.kernPgdir (pdx va))) (ptx va) :=
      congrArg (fun f => word f (ptx va)) table
    simp only [leaf]
  · simp only [if_neg present]

end Views

end JosDirRights
