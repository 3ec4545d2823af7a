import Jos.Loader
import Jos.Remaps

/- What env_free gives back: exactly the pages that the environment alone referred to. So making
   an environment and freeing it leaves the same pages free. -/
namespace JosEnvReclaim
open JosLayout FrameWords JosMachine JosPmap JosMmu JosEnv JosBoot JosAccounting JosPageOps
open JosMapping JosEnvSpace JosNewEnv JosRegions JosBootPages JosStaticMap JosKernelView JosPageRuns
open JosRefWrap JosEnvTable JosDirRights JosUserMemRights JosUserStores JosLoading JosKernelRuns JosRemaps JosEnvFrames
open JosLoader IntrusiveList Ledger TableForest CountedLoop

/-- The references to p that belong to e: its present PTEs below UTOP that point to p, its
    directory entries below UTOP that use p as a page table, and its directory. -/
def ownRefs (dirs : Dirs) (s : State) (e : Fin NENV) (p : Nat) : Nat :=
  (if dirs e = some p then 1 else 0) +
    (Finset.univ.filter fun d : Fin userPdes =>
      ((dirs e).bind fun pgdir => entryPage (s.entry pgdir d)) = some p).card +
    (Finset.univ.filter fun x : Fin userPdes × Fin NPTENTRIES =>
      userPage dirs s e x.1 x.2 = some p).card

def UnmappedElsewhere (dirs : Dirs) (s : State) (e : Fin NENV) (p : Nat) : Prop :=
  ∀ f d i, f ≠ e → userPage dirs s f d i ≠ some p

/-- What env_free(e) reclaims, and what it leaves alone. -/
structure Reclaimed (dirs : Dirs) (s : State) (e : Fin NENV) (pgdir : Nat) (s' : State) : Prop where
  list : ∃ fl, FreeList s' fl ∧ fl.Nodup
  freed : ∀ p, OnFreeList s' p ↔ OnFreeList s p ∨
    (ownRefs dirs s e p ≠ 0 ∧ ownRefs dirs s e p = references dirs s p)
  counts : ∀ p, Managed s p →
    (s'.pages p).ppRef.toNat + ownRefs dirs s e p = (s.pages p).ppRef.toNat
  tables : ∀ d t, d < userPdes → entryPage (s.entry pgdir d) = some t →
    UnmappedElsewhere dirs s e t → OnFreeList s' t
  directory : UnmappedElsewhere dirs s e pgdir → OnFreeList s' pgdir
  kernPgdir : s'.kernPgdir = s.kernPgdir
  kernel : ∀ q, KernFrame s q → s'.mem q = s.mem q
  spaces : ∀ f c va, f ≠ e → dirs f = some c → va < WORD → walk s' c va = walk s c va

section Teardown
variable {m : Machine} {dirs : Dirs} {s s' : State} {fl : List Nat} {e f : Fin NENV}
  {pgdir c p q va : Nat}

theorem own_slotOf (e : Fin NENV) (x : PageSlot) : x ∈ ownSlots e ↔ ∃ y, Forest.slotOf e y = x := by
  rw [mem_ownSlots]
  constructor
  · intro own
    cases x with
    | hand => exact own.elim
    | root e' =>
      obtain rfl : e' = e := own
      exact ⟨.inl (), rfl⟩
    | table e' d =>
      obtain rfl : e' = e := own
      exact ⟨.inr (.inl d), rfl⟩
    | leaf e' d i =>
      obtain rfl : e' = e := own
      exact ⟨.inr (.inr (d, i)), rfl⟩
    | fixed k => exact own.elim
  · intro slot
    obtain ⟨y, rfl⟩ := slot
    rcases y with _ | _ | _ <;> exact rfl

theorem ownSlots_refs (dirs : Dirs) (s : State) (e : Fin NENV) (p : Nat) :
    ((ownSlots e).filter fun x => decide (target dirs none s x = some p)).length =
      ownRefs dirs s e p := by
  have counted := Forest.refsOf_list (forest dirs none s) e p (ownSlots_nodup e) (own_slotOf e)
  have kinds := Forest.refsOf_by_kind (forest dirs none s) e p
  have leaves : ∀ x : Fin userPdes × Fin NPTENTRIES,
      (forest dirs none s).target (.leaf e x.1 x.2) = userPage dirs s e x.1 x.2 :=
    fun x => (userPage_target e x.1 x.2).symm
  simp only [leaves] at kinds
  exact counted.trans kinds

theorem foreign_dir (acc : Accounted dirs none s fl) (other : f ≠ e) (hf : dirs f = some c) :
    ¬ OwnTable ⟨fl, target dirs none s⟩ e c := by
  intro own
  rcases own with root | ⟨d, table⟩
  · exact other (Forest.root_unique acc.apart hf root)
  · exact Forest.root_ne_table acc.apart hf table rfl

theorem foreign_table (acc : Accounted dirs none s fl) (other : f ≠ e) {d : Fin userPdes}
    (ht : target dirs none s (.table f d) = some q) : ¬ OwnTable ⟨fl, target dirs none s⟩ e q := by
  intro own
  rcases own with root | ⟨d', table⟩
  · exact Forest.root_ne_table acc.apart root ht rfl
  · exact other (Forest.table_unique acc.apart ht table).1

theorem foreign_kernel (acc : Accounted dirs none s fl) (kernel : KernFrame s q) :
    ¬ OwnTable ⟨fl, target dirs none s⟩ e q := by
  obtain ⟨_, plain⟩ := kernFrame_apart acc kernel
  intro own
  rcases own with root | ⟨d, table⟩
  · exact plain (Or.inl ⟨e, root⟩)
  · exact plain (Or.inr ⟨e, d, table⟩)

theorem foreign_named (acc : Accounted dirs none s fl) (shaped : Shaped s c) (other : f ≠ e)
    (hf : dirs f = some c) {d : Nat} (slot : d < NPDENTRIES) (present : Present (s.entry c d)) :
    ¬ OwnTable ⟨fl, target dirs none s⟩ e (ppn (s.entry c d)) := by
  by_cases user : d < userPdes
  · exact foreign_table acc other ((table_entry (d := ⟨d, user⟩) hf).mpr ⟨present, rfl⟩)
  · by_cases self : d = uvptPde
    · rw [self, shaped.uvpt, ppn_mapEntry (managed_room acc (root_managed acc hf)) (by decide)]
      exact foreign_dir acc other hf
    · have static : StaticPde d := ⟨Nat.le_of_not_lt user, slot, self⟩
      rw [shaped.high d static] at present ⊢
      exact foreign_kernel acc (Or.inr ⟨d, static, entryPage_some.mpr ⟨present, rfl⟩⟩)

theorem freed_walk (acc : Accounted dirs none s fl) (shaped : AllShaped dirs s)
    (freed : Freed dirs e s fl s') (other : f ≠ e) (hf : dirs f = some c) (va : Nat) :
    walk s' c va = walk s c va := by
  apply walk_entries (entry_mem (freed.mem c (foreign_dir acc other hf)) _)
  intro present
  exact entry_mem (freed.mem _ (foreign_named acc (shaped f c hf) other hf (pdx_lt va) present)) _

theorem own_alone (acc : Accounted dirs none s fl) {x : PageSlot} (own : Own e x)
    (structural : x.Structural) (held : target dirs none s x = some p)
    (unmapped : UnmappedElsewhere dirs s e p) :
    ownRefs dirs s e p ≠ 0 ∧ ownRefs dirs s e p = references dirs s p := by
  have all : ∀ y, target dirs none s y = some p → y ∈ ownSlots e := by
    intro y there
    rw [mem_ownSlots]
    cases y with
    | hand => cases there
    | leaf f d i =>
      by_contra other
      rw [← userPage_target] at there
      exact unmapped f d i other there
    | root f =>
      have slots := acc.apart x (.root f) p structural trivial held there
      rw [← slots]
      exact own
    | table f d =>
      have slots := acc.apart x (.table f d) p structural trivial held there
      rw [← slots]
      exact own
    | fixed k =>
      have slots := acc.apart x (.fixed k) p structural trivial held there
      rw [← slots]
      exact own
  have busy := busy_of_target acc held
  have gone := (mem_unlinkAll_free ⟨fl, target dirs none s⟩ (ownSlots e) p).mpr
    (Or.inr ⟨⟨x, mem_ownSlots.mpr own, held⟩, all⟩)
  rw [unlinkAll_freed _ _ (ownSlots_nodup e), ownSlots_refs, ← references_eq] at gone
  exact gone.resolve_left busy

theorem freed_reclaimed (acc : Accounted dirs none s fl) (bounded : Bounded dirs none s)
    (shaped : AllShaped dirs s) (he : dirs e = some pgdir) (freed : Freed dirs e s fl s') :
    Reclaimed dirs s e pgdir s' := by
  have given : ∀ p, OnFreeList s' p ↔ OnFreeList s p ∨
      (ownRefs dirs s e p ≠ 0 ∧ ownRefs dirs s e p = references dirs s p) := by
    intro p
    rw [onFreeList_iff freed.books.list, onFreeList_iff acc.list,
      unlinkAll_freed _ _ (ownSlots_nodup e), ownSlots_refs, ← references_eq]
  have kernPgdir : s'.kernPgdir = s.kernPgdir := by rw [freed.rest]
  refine ⟨⟨_, freed.books.list, freed.books.nodup⟩, given, ?_, ?_, ?_, kernPgdir, ?_, ?_⟩
  · intro p managed
    have after : Managed s' p := by
      unfold Managed
      rw [freed.rest]
      exact managed
    have left := refs_unlinkAll ⟨fl, target dirs none s⟩ (ownSlots e) (ownSlots_nodup e) p
    rw [ownSlots_refs, ← freed.target_eq] at left
    dsimp only at left
    have small := bounded p
    have fewer : refs (target (Function.update dirs e none) none s') p < 65536 := by omega
    rw [acc.counts p managed, freed.books.counts p after, UInt16.toNat_ofNat',
      UInt16.toNat_ofNat', Nat.mod_eq_of_lt small, Nat.mod_eq_of_lt fewer]
    exact left
  · intro d t user table unmapped
    obtain ⟨present, named⟩ := entryPage_some.mp table
    have held : target dirs none s (.table e ⟨d, user⟩) = some t :=
      (table_entry he).mpr ⟨present, named⟩
    rw [given]
    exact Or.inr (own_alone acc (x := .table e ⟨d, user⟩) rfl trivial held unmapped)
  · intro unmapped
    rw [given]
    exact Or.inr (own_alone acc (x := .root e) rfl trivial he unmapped)
  · intro q kernel
    exact freed.mem q (foreign_kernel acc kernel)
  · intro f c va other hf _
    exact freed_walk acc shaped freed other hf va

end Teardown

def Held (dirs : Dirs) (s : State) (e : Fin NENV) (q : Nat) : Prop :=
  OnFreeList s q ∨ OwnPage dirs s e q

/-- While every page_insert gets through, no page is lost. -/
def NoneLost (dirs : Dirs) (e : Fin NENV) (s0 : State) (grants : List Grant) (s : State) : Prop :=
  (∀ g ∈ grants, g.ret = 0) → ∀ q, Held dirs s0 e q → Held dirs s e q

section Making
variable {m : Machine} {dirs : Dirs} {s0 s s' s1 s2 : State} {fl0 fl fl' fl1 : List Nat}
  {e : Fin NENV} {d : Fin userPdes} {i : Fin NPTENTRIES} {pgdir p t q va : Nat} {binary : Binary}
  {grants grants' : List Grant}

theorem inserted_held {rest : List Nat} (tidy : Tidy m dirs s) (acc : Accounted dirs none s (p :: rest))
    (he : dirs e = some pgdir)
    (walked : Walked dirs none e d pgdir (takeFree s p false) rest t s1 fl1)
    (inserted : Inserted dirs e d i pgdir p (PTE_W ||| PTE_U) (takeFree s p false) t s1 fl1 s' fl')
    (held : Held dirs s e q) : Held dirs s' e q := by
  have moved := inserted.target_eq
  rw [takeFree_target acc] at moved
  have back : OnFreeList s' q ↔ q ∈ fl1 ∨ (target dirs (some p) s1 (.leaf e d i) = some q ∧
      ∀ y, y ≠ .leaf e d i → target dirs (some p) s1 y ≠ some q) := by
    rw [onFreeList_iff inserted.books.list, inserted.free_eq, mem_unlink_free]
  rcases held with free | ⟨x, own, there⟩
  · rw [onFreeList_iff acc.list] at free
    rcases List.mem_cons.mp free with rfl | later
    · exact Or.inr ⟨.leaf e d i, rfl, by rw [moved, Function.update_self]⟩
    · rcases walked with ⟨_, _, rfl⟩ | ⟨_, _, rfl⟩
      · exact Or.inl (back.mpr (Or.inl later))
      · rcases List.mem_cons.mp later with rfl | still
        · refine Or.inr ⟨.table e d, rfl, ?_⟩
          rw [moved, Function.update_of_ne (by simp), Function.update_self]
        · exact Or.inl (back.mpr (Or.inl still))
  · by_cases leaf : x = .leaf e d i
    · subst leaf
      have at_leaf := (walked_slots (x := .leaf e d i) acc he walked (by simp) (by simp)).trans there
      exact Or.inl (back.mpr (Or.inr ⟨at_leaf, fun _ => displaced_alone tidy acc he walked there⟩))
    · right
      by_cases table : x = .table e d
      · subst table
        refine ⟨.table e d, rfl, ?_⟩
        rw [moved, Function.update_of_ne leaf, Function.update_self]
        rcases walked with ⟨same, _, _⟩ | ⟨empty, _, _⟩
        · rw [takeFree_target acc, there] at same
          exact same.symm
        · rw [takeFree_target acc, there] at empty
          cases empty
      · exact ⟨x, own, by rw [moved, Function.update_of_ne leaf, Function.update_of_ne table, there]⟩

theorem NoneLost.round (none_lost : NoneLost dirs e s0 grants s) (tidy : Tidy m dirs s)
    (he : dirs e = some pgdir) (user : pdx va < userPdes)
    (run : regionAllocStep e va (grants, s) = .ok (grants', s')) : NoneLost dirs e s0 grants' s' := by
  have kept := tidy.view.kept
  obtain ⟨fl, acc⟩ := kept.books
  rcases regionAllocStep_spec acc kept.bounded he (kept.known e pgdir he) user grants with
    ⟨_, failed⟩ | ⟨p, rfl, _, done⟩ | ⟨p, rest, t, s1, fl1, s2, fl2, rfl, walked, done, inserted⟩
  · rw [failed] at run
    cases run
  · rw [done] at run
    cases run
    intro through
    have failed : -E_NO_MEM = 0 := through _ List.mem_cons_self
    exact absurd failed (by decide)
  · rw [done] at run
    cases run
    intro through q held
    have before := none_lost (fun g listed => through g (List.mem_cons_of_mem _ listed)) q held
    exact inserted_held tidy acc he walked inserted before

theorem noneLost_carried (he : dirs e = some pgdir) :
    Carried m dirs e s0 fl0 (NoneLost dirs e s0) where
  round user loading none_lost run := none_lost.round loading.tidy he user run
  same same none_lost := by
    intro through q held
    rcases none_lost through q held with free | own
    · left
      unfold OnFreeList FreeList at free ⊢
      rw [same.list, same.pages]
      exact free
    · right
      unfold OwnPage
      rw [same.target]
      exact own

/-- A page_insert of region_alloc fails only when it took the last page. -/
def LastLost (grants : List Grant) (s : State) : Prop :=
  (∃ g ∈ grants, g.ret ≠ 0) → ∀ q, ¬ OnFreeList s q

theorem LastLost.round (last_lost : LastLost grants s) (tidy : Tidy m dirs s)
    (he : dirs e = some pgdir) (user : pdx va < userPdes)
    (run : regionAllocStep e va (grants, s) = .ok (grants', s')) : LastLost grants' s' := by
  have kept := tidy.view.kept
  obtain ⟨fl, acc⟩ := kept.books
  have full : ∀ p rest, fl = p :: rest → ∀ g ∈ grants, g.ret = 0 := by
    intro p rest first g listed
    by_contra lost
    have none_left := last_lost ⟨g, listed, lost⟩ p
    rw [onFreeList_iff acc.list, first] at none_left
    exact none_left List.mem_cons_self
  rcases regionAllocStep_spec acc kept.bounded he (kept.known e pgdir he) user grants with
    ⟨_, failed⟩ | ⟨p, rfl, _, done⟩ | ⟨p, rest, t, s1, fl1, s2, fl2, rfl, _, done, _⟩
  · rw [failed] at run
    cases run
  · rw [done] at run
    cases run
    intro _ q
    rw [onFreeList_iff (takeFree_books acc false).list]
    exact List.not_mem_nil
  · rw [done] at run
    cases run
    intro lost
    obtain ⟨g, listed, lost⟩ := lost
    rcases List.mem_cons.mp listed with rfl | before
    · exact absurd rfl lost
    · exact absurd (full p rest rfl g before) lost

theorem lastLost_carried (he : dirs e = some pgdir) :
    Carried m dirs e s0 fl0 LastLost where
  round user loading last_lost run := last_lost.round loading.tidy he user run
  same same last_lost := by
    intro lost q
    unfold OnFreeList FreeList
    rw [same.list, same.pages]
    exact last_lost lost q

theorem loaded_held (tidy : Tidy m dirs s) (acc : Accounted dirs none s fl) (he : dirs e = some pgdir)
    (loadable : ∀ k, k < binary.phCount → Loadable binary (binary.ph k))
    (run : loadIcode s e binary = .ok (grants, s')) (through : ∀ g ∈ grants, g.ret = 0) (q : Nat) :
    Held dirs s' e q ↔ Held dirs s e q := by
  have loading := (loadIcode_ok tidy acc he loadable run).loading
  obtain ⟨fl', acc'⟩ := loading.tidy.view.kept.books
  have start : NoneLost dirs e s [] s := fun _ _ held => held
  have none_lost := (noneLost_carried he).loadIcode tidy acc he loadable start run
  constructor
  · intro held
    unfold Held
    rw [onFreeList_iff acc.list]
    rcases held with free | own
    · rw [onFreeList_iff acc'.list] at free
      exact loading.free fl' acc' q free
    · exact (loading.own q own).symm
  · exact none_lost through q

theorem freed_held (tidy : Tidy m dirs s) (acc : Accounted dirs none s fl)
    (freed : Freed dirs e s fl s') (q : Nat) : OnFreeList s' q ↔ Held dirs s e q := by
  unfold Held OwnPage
  rw [onFreeList_iff freed.books.list, onFreeList_iff acc.list, mem_unlinkAll_free]
  constructor
  · intro given
    rcases given with old | ⟨⟨x, listed, there⟩, _⟩
    · exact Or.inl old
    · exact Or.inr ⟨x, mem_ownSlots.mp listed, there⟩
  · intro held
    rcases held with old | ⟨x, own, there⟩
    · exact Or.inl old
    · refine Or.inr ⟨⟨x, mem_ownSlots.mpr own, there⟩, ?_⟩
      intro y other
      rw [mem_ownSlots, tidy.unique other there]
      exact own

theorem fresh_held {parentId : EnvId} (inv : KernelInv m s)
    (run : envAlloc s parentId = .ok (0, some e.val, s')) (q : Nat) :
    Held (dirsOf s') s' e q ↔ OnFreeList s q := by
  obtain ⟨fl, acc⟩ := inv.tidy.view.kept.books
  obtain ⟨p, rest, rfl, empty, _, books, moved⟩ := fresh_books inv acc run
  unfold Held OwnPage
  rw [onFreeList_iff acc.list, onFreeList_iff books.list, moved, List.mem_cons]
  constructor
  · intro held
    rcases held with old | ⟨x, own, there⟩
    · exact Or.inr old
    · by_cases root : x = .root e
      · rw [root, Function.update_self] at there
        exact Or.inl (Option.some.inj there).symm
      · rw [Function.update_of_ne root, own_without_dir empty own] at there
        cases there
  · intro free
    rcases free with rfl | later
    · exact Or.inr ⟨.root e, rfl, Function.update_self ..⟩
    · exact Or.inl later

/-- env_create and env_free undo each other on the free pages. -/
theorem create_then_free {p0 : Nat} (inv : KernelInv m s0)
    (fresh : envAlloc s0 0 = .ok (0, some e.val, s1))
    (loadable : ∀ k, k < binary.phCount → Loadable binary (binary.ph k))
    (run : envCreate s0 p0 binary = .ok (e.val, grants, s2)) (through : ∀ g ∈ grants, g.ret = 0) :
    ∃ s3, envFree s2 e = .ok s3 ∧ ∀ q, OnFreeList s3 q ↔ OnFreeList s0 q := by
  have took := envCreate_loads fresh run
  have inv1 := alloc_inv inv fresh
  obtain ⟨fl, acc⟩ := inv1.tidy.view.kept.books
  obtain ⟨pgdir, he, _⟩ := fresh_env inv fresh
  have loaded := loadIcode_ok inv1.tidy acc he loadable took
  have tidy := loaded.loading.tidy
  obtain ⟨fl', acc'⟩ := tidy.view.kept.books
  obtain ⟨s3, done, freed⟩ := envFree_spec acc' tidy.view.kept.bounded he (tidy.view.kept.known e pgdir he)
  refine ⟨s3, done, ?_⟩
  intro q
  rw [freed_held tidy acc' freed, loaded_held inv1.tidy acc he loadable took through]
  exact fresh_held inv fresh q

end Making

section Runs
variable {m : Machine} {dirs : Dirs} {s : State}

theorem room_reached (reached : JosPageRuns.Reached m countRoom (fun _ _ => True) dirs s) :
    JosPageRuns.Reached m anyPage NoOverflow dirs s := by
  induction reached with
  | pageInit run => exact .pageInit run
  | memInit run => exact .memInit run
  | step before step _ ih =>
    refine ih.step ?_ ((noOverflow_iff _ _).mpr (step_bounded (room_kept before) step))
    cases step with
    | regionAlloc he below run => exact .regionAlloc he below run
    | call call =>
      apply JosPageRuns.Step.call
      cases call with
      | pageAlloc zero run => exact .pageAlloc zero run
      | pageFree held unreferenced => exact .pageFree held unreferenced
      | pgdirWalk he user run => exact .pgdirWalk he user run
      | pageInsert he user held small _ run => exact .pageInsert he user held small trivial run
      | pageRemove he user run => exact .pageRemove he user run
      | envSetupVm he run => exact .envSetupVm he run
      | envSetupVmFailed he failed run => exact .envSetupVmFailed he failed run
      | envFree he run => exact .envFree he run

structure Sparse (m : Machine) (dirs : Dirs) (s : State) (fl : List Nat) : Prop where
  reached : JosPageRuns.Reached m countRoom (fun _ _ => True) dirs s
  books : Accounted dirs none s fl
  few : ∀ q, refs (target dirs none s) q ≤ 1

theorem Sparse.setup {p : Nat} {rest : List Nat} {e : Fin NENV} (sparse : Sparse m dirs s (p :: rest))
    (empty : dirs e = none) : Sparse m (Function.update dirs e (some p)) (newDir s e p) rest := by
  obtain ⟨books, moved⟩ := newDir_books sparse.books empty
  have vacant : target dirs none s (.root e) = none := empty
  refine ⟨sparse.reached.step (.call (setup_call sparse.books empty)) trivial, books, ?_⟩
  rw [moved]
  exact refs_point_le vacant (free_refs sparse.books (by simp)) (Nat.le_refl 1) sparse.few

theorem Sparse.walk {p va pgdir : Nat} {rest : List Nat} {e : Fin NENV}
    (sparse : Sparse m dirs s (p :: rest)) (he : dirs e = some pgdir) (low : va < UTOP) :
    ∃ t s' fl', Sparse m dirs s' fl' ∧ rest.length ≤ fl'.length ∧
      target dirs none s' (.table e ⟨pdx va, user_slot low⟩) = some t := by
  have acc := sparse.books
  rcases pgdirWalk_create acc he (user_slot low) with ⟨_, full, _⟩ | ⟨t, s', fl', walk, walked⟩
  · cases full
  · refine ⟨t, s', fl', ⟨sparse.reached.step (.call (.pgdirWalk he low walk)) trivial,
      walked.books acc he, ?_⟩, ?_, walked.table acc he⟩
    · intro q
      rcases walked_refs acc he walked q with same | ⟨_, one⟩
      · rw [same]
        exact sparse.few q
      · exact Nat.le_of_eq one
    · rcases walked with ⟨_, _, rfl⟩ | ⟨_, _, first⟩
      · exact Nat.le_succ _
      · rw [(List.cons.inj first).2]

theorem Sparse.insert {p va pgdir pp : Nat} {rest : List Nat} {e : Fin NENV} {x : PageSlot}
    (sparse : Sparse m dirs s (p :: rest)) (he : dirs e = some pgdir) (low : va < UTOP)
    (used : target dirs none s x = some pp) (other : x ≠ leafSlot e va (user_slot low))
    (no_table : x ≠ .table e ⟨pdx va, user_slot low⟩) :
    ∃ s', JosPageRuns.Reached m countRoom (fun _ _ => True) dirs s' ∧
      target dirs none s' x = some pp ∧
      target dirs none s' (leafSlot e va (user_slot low)) = some pp := by
  have acc := sparse.books
  have managed := acc.targets x pp used
  have busy := busy_of_target acc used
  have held : Allocated s pp := by
    refine ⟨managed, ?_⟩
    rw [onFreeList_iff acc.list]
    exact busy
  have room : (s.pages pp).ppRef ≠ 65535 := by
    have few := sparse.few pp
    have top : (65535 : UInt16).toNat = 65535 := by decide
    intro full
    rw [acc.counts pp managed] at full
    have value := congrArg UInt16.toNat full
    rw [UInt16.toNat_ofNat', Nat.mod_eq_of_lt (by omega)] at value
    omega
  have bounded := (room_kept sparse.reached).bounded
  rcases pageInsert_spec acc bounded he (user_slot low) managed busy
    (show PTE_U < 4096 by decide) with ⟨_, full, _⟩ | ⟨t, s1, fl1, s', fl', _, done, inserted⟩
  · cases full
  · have insert := sparse.reached.step
      (.call (.pageInsert he low held (by decide) (Or.inl room) done)) trivial
    refine ⟨s', insert, ?_, ?_⟩
    · rw [inserted.target_eq, Function.update_of_ne other, Function.update_of_ne no_table, used]
    · rw [inserted.target_eq, leafSlot, Function.update_self]

theorem shared_table : ∃ dirs s pgdir t d i,
    JosPageRuns.Reached smallMachine countRoom (fun _ _ => True) dirs s ∧ dirs 0 = some pgdir ∧
      target dirs none s (.table 0 d) = some t ∧ target dirs none s (.leaf 1 d i) = some t := by
  obtain ⟨s, fl, run, acc, long⟩ := smallMachine_boot
  have low : 0 < UTOP := by decide
  match fl, acc, long with
  | a :: b :: c :: d :: rest, acc, long =>
    have start : Sparse smallMachine (fun _ => none) s (a :: b :: c :: d :: rest) :=
      ⟨.memInit run, acc, refs_without_envs acc⟩
    obtain ⟨t, s2, fl2, sparse2, left, table⟩ :=
      (start.setup (e := 0) rfl).walk (Function.update_self ..) low
    match fl2, sparse2, left with
    | p :: q :: rest2, sparse2, _ =>
      have sparse3 := sparse2.setup (e := 1) (Function.update_of_ne (by decide) ..)
      have moved := (newDir_books sparse2.books (e := 1) (Function.update_of_ne (by decide) ..)).2
      have table3 := congrFun moved (.table 0 ⟨pdx 0, user_slot low⟩)
      rw [Function.update_of_ne (by simp), table] at table3
      have apart : (Slot.table 0 ⟨pdx 0, user_slot low⟩ : PageSlot) ≠ .table 1 ⟨pdx 0, user_slot low⟩ := by
        intro same
        have first := (Slot.table.inj same).1
        exact absurd first (by decide)
      obtain ⟨s4, reached, still, leaf⟩ := sparse3.insert (e := 1) (Function.update_self ..) low
        table3 (by simp [leafSlot]) apart
      refine ⟨_, s4, a, t, _, _, reached, ?_, still, leaf⟩
      rw [Function.update_of_ne (by decide), Function.update_self]

end Runs

/-- Every environment that can be reached is reclaimed when it is freed, and one just made leaves
    the pages free that were free before. -/
theorem env_free_reclaims {m : Machine} :
    (∀ dirs s (e : Fin NENV) pgdir, JosPageRuns.Reached m anyPage NoOverflow dirs s →
      dirs e = some pgdir → ∃ s', envFree s e = .ok s' ∧ Reclaimed dirs s e pgdir s') ∧
    ∀ s0 s1 s2 p0 binary (e : Fin NENV) grants, JosKernelRuns.Reached m loadsLow s0 →
      envAlloc s0 0 = .ok (0, some e.val, s1) →
      (∀ k, k < binary.phCount → Loadable binary (binary.ph k)) →
      envCreate s0 p0 binary = .ok (e.val, grants, s2) → (∀ g ∈ grants, g.ret = 0) →
      ∃ s3, envFree s2 e = .ok s3 ∧ ∀ q, OnFreeList s3 q ↔ OnFreeList s0 q := by
  constructor
  · intro dirs s e pgdir reached he
    have few : ∀ dirs s, JosPageRuns.Reached m anyPage NoOverflow dirs s → Bounded dirs none s := by
      intro dirs s reached
      exact (reached_kept (fun dirs s few => (noOverflow_iff dirs s).mp few) reached).bounded
    have view := reached_view few reached
    obtain ⟨fl, acc⟩ := view.kept.books
    obtain ⟨s', run, freed⟩ := envFree_spec acc view.kept.bounded he (view.kept.known e pgdir he)
    exact ⟨s', run, freed_reclaimed acc view.kept.bounded view.shaped he freed⟩
  · intro s0 s1 s2 p0 binary e grants reached fresh loadable run through
    exact create_then_free (reached_inv loadsLow_keeps reached) fresh loadable run through

theorem env_free_reclaims_smallMachine :
    (∃ dirs s pgdir s', dirs 0 = some pgdir ∧ envFree s (0 : Fin NENV) = .ok s' ∧
      Reclaimed dirs s 0 pgdir s') ∧
    ∃ s0 grants s2 s3, envCreate s0 0 smallImage = .ok ((0 : Fin NENV).val, grants, s2) ∧
      envFree s2 (0 : Fin NENV) = .ok s3 ∧ ∀ q, OnFreeList s3 q ↔ OnFreeList s0 q := by
  constructor
  · obtain ⟨dirs, s, pgdir, _, _, _, reached, he, _⟩ := shared_table
    obtain ⟨s', run, reclaimed⟩ := env_free_reclaims.1 dirs s 0 pgdir (room_reached reached) he
    exact ⟨dirs, s, pgdir, s', he, run, reclaimed⟩
  · obtain ⟨s0, p, s, fl, reached, fresh, first⟩ := @first_alloc loadsLow
    have tidy := first.inv.tidy
    have cost : (touched smallImage).card + (tablesOf (touched smallImage)).card = 5 := by decide
    have enough := first.enough
    obtain ⟨grants, s2, took, filling, _⟩ := loadIcode_total tidy first.books first.dir
      first.tables smallImage_wellFormed (by omega)
    have low : ∀ k, k < smallImage.phCount → Loadable smallImage (smallImage.ph k) := by decide
    have made : envCreate s0 0 smallImage = .ok ((0 : Fin NENV).val, grants, s2) := by
      unfold envCreate
      rw [fresh, ok_bind]
      exact bind_ok.mpr ⟨_, took, rfl⟩
    -- pages are left, so no page_insert failed
    obtain ⟨fl', books, paid⟩ := filling.budget
    have start : LastLost [] s := by
      intro lost
      obtain ⟨_, listed, _⟩ := lost
      cases listed
    have last_lost := (lastLost_carried first.dir).loadIcode tidy first.books first.dir low start took
    have through : ∀ g ∈ grants, g.ret = 0 := by
      intro g listed
      by_contra lost
      have none_left := last_lost ⟨g, listed, lost⟩
      cases fl' with
      | nil =>
        rw [List.length_nil] at paid
        omega
      | cons q _ =>
        apply none_left q
        rw [onFreeList_iff books.list]
        exact List.mem_cons_self
    obtain ⟨s3, freed, same⟩ :=
      env_free_reclaims.2 s0 s s2 0 smallImage 0 grants reached fresh low made through
    exact ⟨s0, grants, s2, s3, made, freed, same⟩

/-- A page table that another environment maps as a page is not freed. -/
theorem table_not_freed : ¬ ∀ dirs s (e : Fin NENV) pgdir,
    JosPageRuns.Reached smallMachine anyPage NoOverflow dirs s → dirs e = some pgdir →
      ∃ s', envFree s e = .ok s' ∧ ∀ d t, d < userPdes →
        entryPage (s.entry pgdir d) = some t → OnFreeList s' t := by
  intro claim
  obtain ⟨dirs, s, pgdir, t, d, i, reached, he, table, leaf⟩ := shared_table
  obtain ⟨s', run, all⟩ := claim dirs s 0 pgdir (room_reached reached) he
  have kept := room_kept reached
  obtain ⟨fl, acc⟩ := kept.books
  obtain ⟨s1, done, freed⟩ := envFree_spec acc kept.bounded he (kept.known 0 pgdir he)
  rw [done] at run
  cases run
  have free := all d t d.isLt (entryPage_some.mpr ((table_entry he).mp table))
  rw [onFreeList_iff freed.books.list] at free
  apply freed.books.unused t free (.leaf 1 d i)
  change target (Function.update dirs 0 none) none s' (.leaf 1 d i) = some t
  rw [freed.target_eq, unlinkAll_target, if_neg]
  · exact leaf
  · rw [mem_ownSlots]
    intro own
    have same : (1 : Fin NENV) = 0 := own
    exact absurd same (by decide)

end JosEnvReclaim
