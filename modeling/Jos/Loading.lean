import Jos.UserStores

/- load_icode on headers that ask for user addresses: what it takes, it takes from the free list,
   and what it writes is its own environment's. -/
namespace JosLoading
open JosLayout FrameWords JosMachine JosPmap JosMmu JosEnv JosBoot JosAccounting JosPageOps
open JosMapping JosEnvSpace JosNewEnv JosRegions JosBootPages JosStaticMap JosPageRuns JosDirRights
open JosUserStores IntrusiveList Ledger TableForest CountedLoop

def OwnPage (dirs : Dirs) (s : State) (e : Fin NENV) (q : Nat) : Prop :=
  ∃ x, Own e x ∧ target dirs none s x = some q

/-- From s0 on, whose free list was fl0, only free pages and pages of e have been used, and all
    of them for e. -/
structure Loading (m : Machine) (dirs : Dirs) (e : Fin NENV) (s0 : State) (fl0 : List Nat)
    (s : State) : Prop where
  tidy : Tidy m dirs s
  others : ∀ x, ¬ Own e x → target dirs none s x = target dirs none s0 x
  frame : ∀ q, q ∉ fl0 → ¬ OwnPage dirs s0 e q → s.mem q = s0.mem q ∧ s.pages q = s0.pages q
  own : ∀ q, OwnPage dirs s e q → OwnPage dirs s0 e q ∨ q ∈ fl0
  free : ∀ fl, Accounted dirs none s fl → ∀ q ∈ fl, q ∈ fl0 ∨ OwnPage dirs s0 e q

section Rounds
variable {m : Machine} {dirs : Dirs} {s0 s s' s1 : State} {fl0 fl fl' fl1 : List Nat}
  {e : Fin NENV} {d : Fin userPdes} {i : Fin NPTENTRIES} {pgdir va p t : Nat}

theorem free_unique (acc : Accounted dirs none s fl) (acc' : Accounted dirs none s fl') :
    fl = fl' := chain_unique acc.list acc'.list

theorem loading_start (tidy : Tidy m dirs s0) (acc : Accounted dirs none s0 fl0) :
    Loading m dirs e s0 fl0 s0 := by
  refine ⟨tidy, fun _ _ => rfl, fun _ _ _ => ⟨rfl, rfl⟩, fun q own => Or.inl own, ?_⟩
  intro fl acc' q listed
  rw [free_unique acc' acc] at listed
  exact Or.inl listed

theorem Loading.stored (loading : Loading m dirs e s0 fl0 s) (stored : Stored dirs e s s') :
    Loading m dirs e s0 fl0 s' := by
  have same := stored.untouched.target
  refine ⟨stored.untouched.tidy loading.tidy, ?_, ?_, ?_, ?_⟩
  · intro x other
    rw [same]
    exact loading.others x other
  · intro q busy other
    have elsewhere : ∀ d i, target dirs none s (.leaf e d i) ≠ some q := by
      intro d i held
      rcases loading.own q ⟨.leaf e d i, rfl, held⟩ with mine | listed
      · exact other mine
      · exact busy listed
    rw [stored.mem q elsewhere, stored.untouched.pages]
    exact loading.frame q busy other
  · intro q own
    unfold OwnPage at own
    rw [same] at own
    exact loading.own q own
  · intro fl acc' q listed
    obtain ⟨fl1, acc⟩ := loading.tidy.view.kept.books
    have acc1 := stored.untouched.books acc
    rw [free_unique acc' acc1] at listed
    exact loading.free fl1 acc q listed

theorem inserted_entry {perm : Nat} (acc : Accounted dirs none s fl) (he : dirs e = some pgdir)
    (walked : Walked dirs none e d pgdir s fl t s1 fl1)
    (inserted : Inserted dirs e d i pgdir p perm s t s1 fl1 s' fl') {e' : Fin NENV}
    {d' : Fin userPdes} {i' : Fin NPTENTRIES} {t' : Nat}
    (other : Slot.leaf e' d' i' ≠ (Slot.leaf e d i : PageSlot))
    (ht' : target dirs none s (.table e' d') = some t') :
    target dirs none s' (.table e' d') = some t' ∧ s'.entry t' i' = s.entry t' i' := by
  have acc1 := walked.books acc he
  have ht1 := walked.table acc he
  by_cases same : Slot.table e' d' = (Slot.table e d : PageSlot)
  · cases same
    have there : t' = t := by
      rcases walked with ⟨ht, _, _⟩ | ⟨empty, _, _⟩
      · exact Option.some.inj (ht'.symm.trans ht)
      · rw [empty] at ht'
        cases ht'
    subst there
    have index : i'.val ≠ i.val := by
      intro index
      apply other
      rw [Fin.ext index]
    refine ⟨?_, ?_⟩
    · rw [inserted.target_eq, Function.update_of_ne (by simp), Function.update_self]
    · rw [inserted.table_of_ne _ index, walked.table_entry acc he, ht']
      rfl
  · refine ⟨?_, ?_⟩
    · rw [inserted.target_eq, Function.update_of_ne (by simp), Function.update_of_ne same]
      exact ht'
    · have ht1' : target dirs none s1 (.table e' d') = some t' := by
        rw [walked.target_eq acc he, Function.update_of_ne same]
        exact ht'
      have table_apart : t' ≠ t := by
        intro eq
        subst eq
        have slots := acc1.apart (.table e' d') (.table e d) t' trivial trivial ht1' ht1
        exact same slots
      have dir_apart : t' ≠ pgdir := (Forest.root_ne_table acc.apart he ht').symm
      unfold State.entry
      rw [inserted.mem_of_ne t' table_apart dir_apart]

theorem inserted_rights (rights : Rights dirs s) (acc : Accounted dirs none s fl)
    (he : dirs e = some pgdir) (walked : Walked dirs none e d pgdir s fl t s1 fl1)
    (inserted : Inserted dirs e d i pgdir p (PTE_W ||| PTE_U) s t s1 fl1 s' fl') :
    Rights dirs s' := by
  intro e' d' i' q held
  by_cases here : Slot.leaf e' d' i' = (Slot.leaf e d i : PageSlot)
  · cases here
    rw [inserted.target_eq, Function.update_self] at held
    cases held
    refine ⟨t, ?_, inserted.leaf⟩
    rw [inserted.target_eq, Function.update_of_ne (by simp), Function.update_self]
  · rw [inserted.target_eq, Function.update_of_ne here, Function.update_of_ne (by simp)] at held
    obtain ⟨t', ht', entry⟩ := rights e' d' i' q held
    obtain ⟨table, same⟩ := inserted_entry acc he walked inserted here ht'
    exact ⟨t', table, same.trans entry⟩

/-- What a round of region_alloc does when it does not panic. -/
inductive Round (dirs : Dirs) (e : Fin NENV) (d : Fin userPdes) (i : Fin NPTENTRIES) (pgdir : Nat)
    (s : State) (fl : List Nat) (s' : State) : Prop where
  | lost {p : Nat} (last : fl = [p]) (empty : target dirs none s (.table e d) = none)
      (result : s' = takeFree s p false)
  | mapped {p t : Nat} {rest fl1 fl' : List Nat} {s1 : State} (first : fl = p :: rest)
      (walked : Walked dirs none e d pgdir (takeFree s p false) rest t s1 fl1)
      (inserted : Inserted dirs e d i pgdir p (PTE_W ||| PTE_U) (takeFree s p false) t s1 fl1 s' fl')

theorem regionAllocStep_round (tidy : Tidy m dirs s) (acc : Accounted dirs none s fl)
    (he : dirs e = some pgdir) (user : pdx va < userPdes) {grants grants' : List Grant}
    (run : regionAllocStep e va (grants, s) = .ok (grants', s')) :
    Round dirs e ⟨pdx va, user⟩ ⟨ptx va, ptx_lt va⟩ pgdir s fl s' := by
  have kept := tidy.view.kept
  rcases regionAllocStep_spec acc kept.bounded he (kept.known e pgdir he) user grants with
    ⟨_, failed⟩ | ⟨p, rfl, empty, done⟩ |
    ⟨p, rest, t, s1, fl1, s2, fl2, first, walked, done, inserted⟩
  · rw [failed] at run
    cases run
  · rw [done] at run
    cases run
    exact .lost rfl empty rfl
  · rw [done] at run
    cases run
    exact .mapped first walked inserted

theorem Round.quiet (round : Round dirs e d i pgdir s fl s') : Quiet s s' := by
  cases round with
  | lost _ _ result =>
    subst result
    exact takeFree_quiet s _ false
  | mapped _ _ inserted => exact quiet_trans (takeFree_quiet s _ false) inserted.quiet

theorem regionAllocStep_tidy (tidy : Tidy m dirs s) (he : dirs e = some pgdir)
    (user : pdx va < userPdes) {grants grants' : List Grant}
    (run : regionAllocStep e va (grants, s) = .ok (grants', s')) : Tidy m dirs s' := by
  have kept := tidy.view.kept
  obtain ⟨fl, acc⟩ := kept.books
  refine ⟨regionAllocStep_view tidy.view he user run, ?_, ?_⟩
  · intro q
    have before := tidy.single q
    rcases regionAllocStep_count kept acc he user run q with fewer | few
    · omega
    · exact few
  · cases regionAllocStep_round tidy acc he user run with
    | lost last _ result =>
      subst last result
      unfold Rights
      rw [takeFree_target acc]
      exact tidy.rights
    | @mapped p t rest _ _ _ first walked inserted =>
      subst first
      have taken : Rights dirs (takeFree s p false) := by
        unfold Rights
        rw [takeFree_target acc]
        exact tidy.rights
      exact inserted_rights taken (takeFree_books acc false) he walked inserted

theorem Round.moved (acc : Accounted dirs none s fl) (round : Round dirs e d i pgdir s fl s') :
    target dirs none s' = target dirs none s ∨ ∃ p t, p ∈ fl ∧
      (target dirs none s (.table e d) = some t ∨
        (target dirs none s (.table e d) = none ∧ t ∈ fl ∧ t ≠ p)) ∧
      target dirs none s' = Function.update
        (Function.update (target dirs none s) (.table e d) (some t)) (.leaf e d i) (some p) := by
  cases round with
  | lost last _ result =>
    subst last result
    exact Or.inl (takeFree_target acc false)
  | @mapped p t rest fl1 _ _ first walked inserted =>
    subst first
    right
    refine ⟨p, t, by simp, ?_, ?_⟩
    · rcases walked with ⟨ht, _, _⟩ | ⟨empty, _, rfl⟩
      · rw [takeFree_target acc] at ht
        exact Or.inl ht
      · rw [takeFree_target acc] at empty
        refine Or.inr ⟨empty, by simp, ?_⟩
        intro same
        subst same
        exact (List.nodup_cons.mp acc.nodup).1 (by simp)
    · rw [inserted.target_eq, takeFree_target acc]

theorem Round.frame (acc : Accounted dirs none s fl) (he : dirs e = some pgdir)
    (round : Round dirs e d i pgdir s fl s') {q : Nat} (busy : q ∉ fl)
    (other : ¬ OwnPage dirs s e q) : s'.mem q = s.mem q ∧ s'.pages q = s.pages q := by
  cases round with
  | lost last _ result =>
    subst last result
    have differ : q ≠ _ := fun same => busy (List.mem_singleton.mpr same)
    exact ⟨rfl, takeFree_links false differ⟩
  | @mapped p t rest fl1 _ _ first walked inserted =>
    subst first
    have same := takeFree_target acc (p := p) false
    have page : q ≠ p := fun eq => busy (by simp [eq])
    have dir : q ≠ pgdir := by
      intro eq
      subst eq
      exact other ⟨.root e, rfl, he⟩
    have table : q ≠ t := by
      intro eq
      subst eq
      rcases walked_table walked with listed | held
      · exact busy (by simp [listed])
      · rw [same] at held
        exact other ⟨.table e d, rfl, held⟩
    have leaf : target dirs none (takeFree s p false) (.leaf e d i) ≠ some q := by
      intro held
      rw [same] at held
      exact other ⟨.leaf e d i, rfl, held⟩
    refine ⟨(inserted.mem_of_ne q table dir).trans rfl, ?_⟩
    rw [inserted.pages_of_ne q page table leaf]
    exact takeFree_links false page

theorem Round.free (acc : Accounted dirs none s fl) (he : dirs e = some pgdir)
    (round : Round dirs e d i pgdir s fl s') (acc' : Accounted dirs none s' fl') {q : Nat} (listed : q ∈ fl') :
    q ∈ fl ∨ target dirs none s (.leaf e d i) = some q := by
  cases round with
  | lost last _ result =>
    subst last result
    have empty := free_unique acc' (takeFree_books acc false)
    rw [empty] at listed
    cases listed
  | @mapped p t rest fl1 _ _ first walked inserted =>
    subst first
    rw [free_unique acc' inserted.books, inserted.free_eq, mem_unlink_free] at listed
    rcases listed with listed | ⟨held, _⟩
    · exact Or.inl (by simp [walked.subset listed])
    · right
      dsimp only at held
      rw [target_hand (by simp) dirs (some p) none, walked.target_eq (takeFree_books acc false) he,
        Function.update_of_ne (by simp), takeFree_target acc] at held
      exact held

theorem Loading.round (loading : Loading m dirs e s0 fl0 s) (he : dirs e = some pgdir)
    (user : pdx va < userPdes) {grants grants' : List Grant}
    (run : regionAllocStep e va (grants, s) = .ok (grants', s')) :
    Loading m dirs e s0 fl0 s' ∧ Quiet s s' := by
  have tidy' := regionAllocStep_tidy loading.tidy he user run
  obtain ⟨fl, acc⟩ := loading.tidy.view.kept.books
  have round := regionAllocStep_round loading.tidy acc he user run
  have listed := loading.free fl acc
  refine ⟨⟨tidy', ?_, ?_, ?_, ?_⟩, round.quiet⟩
  · intro x other
    rw [← loading.others x other]
    rcases round.moved acc with same | ⟨p, t, _, _, moved⟩
    · rw [same]
    · have leaf : x ≠ leafSlot e va user := by
        intro here
        subst here
        exact other rfl
      have table : x ≠ .table e ⟨pdx va, user⟩ := by
        intro here
        subst here
        exact other rfl
      rw [moved, Function.update_of_ne leaf, Function.update_of_ne table]
  · intro q busy other
    obtain ⟨mem, pages⟩ := loading.frame q busy other
    rw [← mem, ← pages]
    apply round.frame acc he
    · intro in_list
      exact (listed q in_list).elim busy other
    · intro mine
      exact (loading.own q mine).elim other busy
  · intro q mine
    obtain ⟨x, own, held⟩ := mine
    have before : ∀ y, Own e y → target dirs none s y = some q → OwnPage dirs s0 e q ∨ q ∈ fl0 :=
      fun y own_y held_y => loading.own q ⟨y, own_y, held_y⟩
    rcases round.moved acc with same | ⟨p, t, in_list, table, moved⟩
    · rw [same] at held
      exact before x own held
    · rw [moved] at held
      by_cases leaf : x = leafSlot e va user
      · rw [leaf, Function.update_self] at held
        cases held
        exact (listed q in_list).symm
      · rw [Function.update_of_ne leaf] at held
        by_cases here : x = .table e ⟨pdx va, user⟩
        · rw [here, Function.update_self] at held
          cases held
          rcases table with there | ⟨_, in_list, _⟩
          · exact before (.table e ⟨pdx va, user⟩) rfl there
          · exact (listed q in_list).symm
        · rw [Function.update_of_ne here] at held
          exact before x own held
  · intro fl' acc' q in_list
    rcases round.free acc he acc' in_list with old | held
    · exact listed q old
    · exact (loading.own q ⟨leafSlot e va user, rfl, held⟩).symm

theorem Loading.region (loading : Loading m dirs e s0 fl0 s) (he : dirs e = some pgdir) {len : Nat}
    (below : Below va len) {grants grants' : List Grant}
    (run : regionAlloc (grants, s) e va len = .ok (grants', s')) :
    Loading m dirs e s0 fl0 s' ∧ Quiet s s' := by
  rw [regionAlloc_eq] at run
  have round : ∀ (k : Nat) (a b : List Grant × State), k < rounds va len →
      Loading m dirs e s0 fl0 a.2 ∧ Quiet s a.2 →
      regionAllocStep e (roundDown va PGSIZE + k * PGSIZE) a = .ok b →
      Loading m dirs e s0 fl0 b.2 ∧ Quiet s b.2 := by
    intro k a b within before done
    obtain ⟨now, quiet⟩ := before.1.round he (below_user below within).2 done
    exact ⟨now, quiet_trans before.2 quiet⟩
  have start : Loading m dirs e s0 fl0 (grants, s).2 ∧ Quiet s (grants, s).2 :=
    ⟨loading, quiet_refl s⟩
  have done := times_keeps (fun _ got => Loading m dirs e s0 fl0 got.2 ∧ Quiet s got.2)
    start round run
  exact done

end Rounds

section Segments
variable {m : Machine} {dirs : Dirs} {s0 s s' : State} {fl0 : List Nat} {e : Fin NENV}
  {pgdir ph : Nat} {binary : Binary} {grants grants' : List Grant}

/-- A program header asks for addresses below UTOP only, or for nothing at all. -/
def Loadable (binary : Binary) (ph : Nat) : Prop :=
  (binary.pVa ph < UTOP ∧ Below (binary.pVa ph) (binary.pMemsz ph)) ∨
    (rounds (binary.pVa ph) (binary.pMemsz ph) = 0 ∧ binary.pMemsz ph = 0 ∧ binary.pFilesz ph = 0)

instance (binary : Binary) (ph : Nat) : Decidable (Loadable binary ph) :=
  inferInstanceAs (Decidable (_ ∨ _))

theorem loadSegment_ok {e : Nat} {got : List Grant × State}
    (run : loadSegment e binary ph got = .ok (grants', s')) :
    ∃ s1 s2, regionAlloc got e (binary.pVa ph) (binary.pMemsz ph) = .ok (grants', s1) ∧
      memset s1 (binary.pVa ph) 0 (binary.pMemsz ph) = .ok s2 ∧
      memcpy s2 (binary.pVa ph) binary (binary.pOffset ph) (binary.pFilesz ph) = .ok s' := by
  unfold loadSegment at run
  obtain ⟨⟨grants1, s1⟩, allocated, run⟩ := bind_ok.mp run
  obtain ⟨s2, cleared, run⟩ := bind_ok.mp run
  obtain ⟨s3, copied, run⟩ := bind_ok.mp run
  cases run
  exact ⟨s1, s2, allocated, cleared, copied⟩

theorem Loading.segment (loading : Loading m dirs e s0 fl0 s) (he : dirs e = some pgdir)
    (cr3 : s.cr3 = pgdir) (loadable : Loadable binary ph)
    (run : loadSegment e binary ph (grants, s) = .ok (grants', s')) :
    Loading m dirs e s0 fl0 s' ∧ Quiet s s' := by
  obtain ⟨s1, s2, allocated, cleared, copied⟩ := loadSegment_ok run
  rcases loadable with ⟨low, below⟩ | ⟨no_page, no_byte, no_file⟩
  · obtain ⟨loading1, quiet1⟩ := loading.region he below allocated
    have cr3_1 : s1.cr3 = pgdir := quiet1.cr3.trans cr3
    rw [memset_eq] at cleared
    rw [memcpy_eq] at copied
    have written1 := stores_ok loading1.tidy he cr3_1 (Nat.le_of_lt low) cleared
    have loading2 := loading1.stored written1.stored
    have cr3_2 : s2.cr3 = pgdir := written1.stored.quiet.cr3.trans cr3_1
    have written2 := stores_ok loading2.tidy he cr3_2 (Nat.le_of_lt low) copied
    exact ⟨loading2.stored written2.stored,
      quiet_trans quiet1 (quiet_trans written1.stored.quiet written2.stored.quiet)⟩
  · rw [regionAlloc_eq, no_page] at allocated
    cases allocated
    rw [no_byte] at cleared
    cases cleared
    rw [no_file] at copied
    cases copied
    exact ⟨loading, quiet_refl _⟩

structure Loaded (m : Machine) (dirs : Dirs) (e : Fin NENV) (binary : Binary) (s0 : State)
    (fl0 : List Nat) (s : State) : Prop where
  loading : Loading m dirs e s0 fl0 s
  rest : s = { s0 with
    mem := s.mem, pages := s.pages, pageFreeList := s.pageFreeList, tlb := s.tlb,
    cr3 := s0.kernPgdir,
    envs := Function.update s0.envs e { s0.envs e with
      envTf := { (s0.envs e).envTf with tfEip := UInt32.ofNat binary.eEntry } } }

theorem lcr3_untouched (dirs : Dirs) (s : State) (pgdir : Nat) : Untouched dirs s (lcr3 s pgdir) :=
  ⟨rfl, rfl, rfl, rfl, rfl, fun _ _ _ => rfl, fun _ _ => rfl⟩

theorem Loading.same (loading : Loading m dirs e s0 fl0 s) (same : Untouched dirs s s')
    (mem : s'.mem = s.mem) : Loading m dirs e s0 fl0 s' := by
  have moved := same.target
  refine ⟨same.tidy loading.tidy, ?_, ?_, ?_, ?_⟩
  · intro x other
    rw [moved]
    exact loading.others x other
  · intro q busy other
    rw [mem, same.pages]
    exact loading.frame q busy other
  · intro q mine
    unfold OwnPage at mine
    rw [moved] at mine
    exact loading.own q mine
  · intro fl acc' q listed
    obtain ⟨fl1, acc⟩ := loading.tidy.view.kept.books
    rw [free_unique acc' (same.books acc)] at listed
    exact loading.free fl1 acc q listed

theorem entry_untouched (dirs : Dirs) (s : State) (e : Nat) (entry : UInt32) :
    Untouched dirs s (s.setEnv e { s.envs e with
      envTf := { (s.envs e).envTf with tfEip := entry } }) := by
  refine ⟨rfl, rfl, rfl, rfl, rfl, ?_, fun _ _ => rfl⟩
  intro f p _
  by_cases same : f.val = e
  · subst same
    simp [State.setEnv]
  · simp [State.setEnv, same]

theorem stack_below : Below (USTACKTOP - PGSIZE) PGSIZE := by decide

theorem Loading.headers (loading : Loading m dirs e s0 fl0 s) (he : dirs e = some pgdir)
    (cr3 : s.cr3 = pgdir) {n : Nat} (loadable : ∀ k, k < n → Loadable binary (binary.ph k))
    (run : times (fun k got => loadSegment e binary (binary.ph k) got) n (grants, s) =
      .ok (grants', s')) : Loading m dirs e s0 fl0 s' ∧ Quiet s s' := by
  have round : ∀ (k : Nat) (a b : List Grant × State), k < n →
      Loading m dirs e s0 fl0 a.2 ∧ Quiet s a.2 →
      loadSegment e binary (binary.ph k) a = .ok b →
      Loading m dirs e s0 fl0 b.2 ∧ Quiet s b.2 := by
    intro k a b within before done
    obtain ⟨now, quiet⟩ :=
      before.1.segment he (before.2.cr3.trans cr3) (loadable k within) done
    exact ⟨now, quiet_trans before.2 quiet⟩
  have start : Loading m dirs e s0 fl0 (grants, s).2 ∧ Quiet s (grants, s).2 :=
    ⟨loading, quiet_refl s⟩
  have done := times_keeps (fun _ got => Loading m dirs e s0 fl0 got.2 ∧ Quiet s got.2)
    start round run
  exact done

/-- load_icode, when all its headers are loadable and it gets through. -/
theorem loadIcode_ok (tidy : Tidy m dirs s) (acc : Accounted dirs none s fl0)
    (he : dirs e = some pgdir) (loadable : ∀ k, k < binary.phCount → Loadable binary (binary.ph k))
    (run : loadIcode s e binary = .ok (grants, s')) : Loaded m dirs e binary s fl0 s' := by
  unfold loadIcode at run
  split at run
  · cases run
  · obtain ⟨pgdir', dir, run⟩ := bind_ok.mp run
    have known := tidy.view.kept.known e pgdir he
    unfold paddrPgdir at dir
    rw [known] at dir
    cases dir
    obtain ⟨⟨grants1, s1⟩, looped, run⟩ := bind_ok.mp run
    have switched := lcr3_untouched dirs s pgdir
    have start := (loading_start (e := e) tidy acc).same switched rfl
    obtain ⟨loading1, quiet1⟩ := start.headers he rfl loadable looped
    have entered := entry_untouched dirs s1 e (UInt32.ofNat binary.eEntry)
    have loading2 := (loading1.same entered rfl).same (lcr3_untouched dirs _ s1.kernPgdir) rfl
    obtain ⟨loading3, quiet3⟩ := loading2.region he stack_below run
    refine ⟨loading3, ?_⟩
    rw [quiet3]
    simp only [lcr3, State.setEnv]
    rw [quiet1]
    simp only [lcr3]

theorem loadSegment_run {s1 s2 : State}
    (allocated : regionAlloc (grants, s) e (binary.pVa ph) (binary.pMemsz ph) = .ok (grants', s1))
    (cleared : memset s1 (binary.pVa ph) 0 (binary.pMemsz ph) = .ok s2)
    (copied : memcpy s2 (binary.pVa ph) binary (binary.pOffset ph) (binary.pFilesz ph) = .ok s') :
    loadSegment e binary ph (grants, s) = .ok (grants', s') := by
  unfold loadSegment
  exact bind_ok.mpr ⟨_, allocated, bind_ok.mpr ⟨_, cleared, bind_ok.mpr ⟨_, copied, rfl⟩⟩⟩

theorem loadIcode_run {s1 : State} (magic : binary.eMagic = ELF_MAGIC)
    (dir : (s.envs e).envPgdir = some pgdir)
    (looped : times (fun k got => loadSegment e binary (binary.ph k) got) binary.phCount
      ([], lcr3 s pgdir) = .ok (grants, s1))
    (stack : regionAlloc (grants, lcr3 (s1.setEnv e { s1.envs e with
        envTf := { (s1.envs e).envTf with tfEip := UInt32.ofNat binary.eEntry } }) s1.kernPgdir)
      e (USTACKTOP - PGSIZE) PGSIZE = .ok (grants', s')) :
    loadIcode s e binary = .ok (grants', s') := by
  have found : paddrPgdir (s.envs e) = .ok pgdir := by
    unfold paddrPgdir
    rw [dir]
  unfold loadIcode
  rw [if_neg (not_not.mpr magic), found, ok_bind]
  exact bind_ok.mpr ⟨(grants, s1), looped, stack⟩

theorem stack_region {p : Nat} {rest : List Nat} (tidy : Tidy m dirs s)
    (acc : Accounted dirs none s (p :: rest)) (he : dirs e = some pgdir) (grants : List Grant) :
    ∃ grants' s', regionAlloc (grants, s) e (USTACKTOP - PGSIZE) PGSIZE = .ok (grants', s') := by
  have kept := tidy.view.kept
  have user := (below_user stack_below (k := 0) (by decide)).2
  have once : rounds (USTACKTOP - PGSIZE) PGSIZE = 1 := by decide
  rw [regionAlloc_eq, once]
  rcases regionAllocStep_spec acc kept.bounded he (kept.known e pgdir he) user grants with
    ⟨nothing, _⟩ | ⟨_, _, _, done⟩ | ⟨_, _, _, _, _, _, _, _, _, done, _⟩
  · cases nothing
  · exact ⟨_, _, bind_ok.mpr ⟨_, rfl, done⟩⟩
  · exact ⟨_, _, bind_ok.mpr ⟨_, rfl, done⟩⟩

end Segments

/-- Something about the pages got and the tables that rounds of region_alloc keep. -/
structure Carried (m : Machine) (dirs : Dirs) (e : Fin NENV) (s0 : State) (fl0 : List Nat)
    (P : List Grant → State → Prop) : Prop where
  round : ∀ {va : Nat} {grants grants' : List Grant} {s s' : State}, pdx va < userPdes →
    Loading m dirs e s0 fl0 s → P grants s →
    regionAllocStep e va (grants, s) = .ok (grants', s') → P grants' s'
  same : ∀ {grants : List Grant} {s s' : State}, Untouched dirs s s' → P grants s → P grants s'

section Carries
variable {m : Machine} {dirs : Dirs} {s0 s s' : State} {fl0 : List Nat} {e : Fin NENV}
  {pgdir va ph : Nat} {binary : Binary} {grants grants' : List Grant}
  {P : List Grant → State → Prop}

theorem Carried.region (carried : Carried m dirs e s0 fl0 P) (loading : Loading m dirs e s0 fl0 s)
    (he : dirs e = some pgdir) {len : Nat} (below : Below va len) (holds : P grants s)
    (run : regionAlloc (grants, s) e va len = .ok (grants', s')) : P grants' s' := by
  rw [regionAlloc_eq] at run
  have round : ∀ (k : Nat) (a b : List Grant × State), k < rounds va len →
      Loading m dirs e s0 fl0 a.2 ∧ P a.1 a.2 →
      regionAllocStep e (roundDown va PGSIZE + k * PGSIZE) a = .ok b →
      Loading m dirs e s0 fl0 b.2 ∧ P b.1 b.2 := by
    intro k a b within before done
    have user := (below_user below within).2
    exact ⟨(before.1.round he user done).1, carried.round user before.1 before.2 done⟩
  have start : Loading m dirs e s0 fl0 (grants, s).2 ∧ P (grants, s).1 (grants, s).2 :=
    ⟨loading, holds⟩
  have done := times_keeps (fun _ got => Loading m dirs e s0 fl0 got.2 ∧ P got.1 got.2) start round run
  exact done.2

theorem Carried.segment (carried : Carried m dirs e s0 fl0 P) (loading : Loading m dirs e s0 fl0 s)
    (he : dirs e = some pgdir) (cr3 : s.cr3 = pgdir) (loadable : Loadable binary ph)
    (holds : P grants s) (run : loadSegment e binary ph (grants, s) = .ok (grants', s')) :
    P grants' s' := by
  obtain ⟨s1, s2, allocated, cleared, copied⟩ := loadSegment_ok run
  rcases loadable with ⟨low, below⟩ | ⟨no_page, no_byte, no_file⟩
  · have holds1 := carried.region loading he below holds allocated
    obtain ⟨loading1, quiet1⟩ := loading.region he below allocated
    have cr3_1 : s1.cr3 = pgdir := quiet1.cr3.trans cr3
    rw [memset_eq] at cleared
    rw [memcpy_eq] at copied
    have written1 := stores_ok loading1.tidy he cr3_1 (Nat.le_of_lt low) cleared
    have cr3_2 : s2.cr3 = pgdir := written1.stored.quiet.cr3.trans cr3_1
    have written2 := stores_ok written1.tidy he cr3_2 (Nat.le_of_lt low) copied
    exact carried.same written2.stored.untouched (carried.same written1.stored.untouched holds1)
  · rw [regionAlloc_eq, no_page] at allocated
    cases allocated
    rw [no_byte] at cleared
    cases cleared
    rw [no_file] at copied
    cases copied
    exact holds

theorem Carried.loadIcode (carried : Carried m dirs e s fl0 P) (tidy : Tidy m dirs s)
    (acc : Accounted dirs none s fl0) (he : dirs e = some pgdir)
    (loadable : ∀ k, k < binary.phCount → Loadable binary (binary.ph k)) (start : P [] s)
    (run : JosEnv.loadIcode s e binary = .ok (grants, s')) : P grants s' := by
  unfold JosEnv.loadIcode at run
  split at run
  · cases run
  · obtain ⟨pgdir', dir, run⟩ := bind_ok.mp run
    unfold paddrPgdir at dir
    rw [tidy.view.kept.known e pgdir he] at dir
    cases dir
    obtain ⟨⟨grants1, s1⟩, looped, run⟩ := bind_ok.mp run
    have switched := lcr3_untouched dirs s pgdir
    have first : (Loading m dirs e s fl0 (lcr3 s pgdir) ∧ Quiet (lcr3 s pgdir) (lcr3 s pgdir)) ∧
        P [] (lcr3 s pgdir) :=
      ⟨⟨(loading_start (e := e) tidy acc).same switched rfl, quiet_refl _⟩,
        carried.same switched start⟩
    have round : ∀ (k : Nat) (a b : List Grant × State), k < binary.phCount →
        (Loading m dirs e s fl0 a.2 ∧ Quiet (lcr3 s pgdir) a.2) ∧ P a.1 a.2 →
        loadSegment e binary (binary.ph k) a = .ok b →
        (Loading m dirs e s fl0 b.2 ∧ Quiet (lcr3 s pgdir) b.2) ∧ P b.1 b.2 := by
      intro k a b within before done
      obtain ⟨⟨loading, quiet⟩, holds⟩ := before
      have cr3 : a.2.cr3 = pgdir := quiet.cr3
      obtain ⟨now, later⟩ := loading.segment he cr3 (loadable k within) done
      exact ⟨⟨now, quiet_trans quiet later⟩,
        carried.segment loading he cr3 (loadable k within) holds done⟩
    have done := times_keeps (fun _ got =>
      (Loading m dirs e s fl0 got.2 ∧ Quiet (lcr3 s pgdir) got.2) ∧ P got.1 got.2)
      first round looped
    obtain ⟨⟨loading1, _⟩, holds1⟩ := done
    have entered := (entry_untouched dirs s1 e (UInt32.ofNat binary.eEntry)).trans
      (lcr3_untouched dirs _ s1.kernPgdir)
    have loading2 := loading1.same entered rfl
    exact carried.region loading2 he stack_below (carried.same entered holds1) run

end Carries

end JosLoading
