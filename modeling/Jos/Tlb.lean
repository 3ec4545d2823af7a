import Jos.Remaps

/- The TLB between changes of the page tables: what page_insert and page_remove leave in it is
   what a walk of the current directory finds, as long as no counter wraps around. -/
namespace JosTlb
open JosLayout FrameWords JosMachine JosPmap JosMmu JosEnv JosBoot JosAccounting JosPageOps
open JosMapping JosEnvSpace JosRegions JosBootPages JosStaticMap JosPageRuns JosRefWrap JosDirRights
open JosUserStores JosLoading JosRemaps IntrusiveList Ledger TableForest CountedLoop

abbrev PTE_AVAIL : Nat := 0xE00

def PermBits (perm : Nat) : Prop := perm &&& (PTE_U ||| PTE_W ||| PTE_AVAIL) = perm

/-- Calls and accesses while the environments dirs have a directory. An access fills the TLB, and
    the processor may forget what it holds; a store goes to a page that is no table. -/
inductive TlbStep (insert : Dirs → State → Fin NENV → Nat → Nat → Prop) (dirs : Dirs) :
    State → State → Prop where
  | pageAlloc {s s' : State} {r : Option Nat} (zero : Bool) (run : pageAlloc s zero = .ok (r, s')) :
      TlbStep insert dirs s s'
  | pageInsert {s s' : State} {e : Fin NENV} {pgdir pp va perm : Nat} {r : Int}
      (he : dirs e = some pgdir) (user : va < UTOP) (held : Allocated s pp) (flags : PermBits perm)
      (may : insert dirs s e pp va) (run : pageInsert s pgdir pp va perm = .ok (r, s')) :
      TlbStep insert dirs s s'
  | pageRemove {s s' : State} {e : Fin NENV} {pgdir va : Nat} (he : dirs e = some pgdir)
      (user : va < UTOP) (run : pageRemove s pgdir va = .ok s') : TlbStep insert dirs s s'
  | access {s : State} {va : Nat} {t : Translation} (word : va < WORD)
      (walked : walk s s.cr3 va = some t) :
      TlbStep insert dirs s { s with tlb := Function.update s.tlb (pgnum va) (some t) }
  | store {s : State} {va : Nat} {t : Translation} (b : UInt8) (walked : walk s s.cr3 va = some t)
      (plain : ¬ TablePage dirs s (Translation.page t)) :
      TlbStep insert dirs s (s.setByte (Translation.page t) (pgoff va) b)
  | evict {s : State} (page : Nat) :
      TlbStep insert dirs s { s with tlb := Function.update s.tlb page none }
  | lcr3 {s : State} {pgdir : Nat} (dir : Directory dirs s pgdir) :
      TlbStep insert dirs s (lcr3 s pgdir)

inductive TlbRun (m : Machine) (insert : Dirs → State → Fin NENV → Nat → Nat → Prop) (dirs : Dirs) :
    State → Prop where
  | start {s : State} {pgdir : Nat} (reached : Reached m insert (fun _ _ => True) dirs s)
      (dir : Directory dirs s pgdir) : TlbRun m insert dirs (lcr3 s pgdir)
  | step {s s' : State} (before : TlbRun m insert dirs s) (step : TlbStep insert dirs s s') :
      TlbRun m insert dirs s'

theorem permBits_small {perm : Nat} (flags : PermBits perm) : perm < 4096 := by
  unfold PermBits at flags
  have low : perm &&& (PTE_U ||| PTE_W ||| PTE_AVAIL) < 2 ^ 12 :=
    Nat.and_lt_two_pow perm (by decide)
  omega

theorem user_flag : PermBits PTE_U := by
  unfold PermBits
  decide

/-- What holds between two steps. -/
structure TlbInv (m : Machine) (dirs : Dirs) (s : State) : Prop where
  view : View m dirs s
  self : ppn (s.entry s.kernPgdir uvptPde) = s.kernPgdir
  dir : Directory dirs s s.cr3
  coherent : Coherent s

section Runs
variable {m : Machine} {dirs dirs' : Dirs} {s s' : State} {pgdir : Nat}
  {insert : Dirs → State → Fin NENV → Nat → Nat → Prop}

theorem step_kern (view : View m dirs s) (step : Step insert dirs s dirs' s') :
    s'.kernPgdir = s.kernPgdir ∧ s'.mem s.kernPgdir = s.mem s.kernPgdir := by
  cases step with
  | call call =>
    obtain ⟨fl, acc⟩ := view.kept.books
    obtain ⟨fl', stepped⟩ := call_stepped acc view.kept.bounded view.kept.known call
    exact ⟨stepped.kernPgdir, stepped.kernel acc (Or.inl rfl)⟩
  | regionAlloc he below run =>
    rw [regionAlloc_eq] at run
    have start : View m dirs (([], s) : List Grant × State).2 ∧
        (([], s) : List Grant × State).2.kernPgdir = s.kernPgdir ∧
        (([], s) : List Grant × State).2.mem s.kernPgdir = s.mem s.kernPgdir := ⟨view, rfl, rfl⟩
    have done := times_keeps (fun _ (got : List Grant × State) => View m dirs got.2 ∧
      got.2.kernPgdir = s.kernPgdir ∧ got.2.mem s.kernPgdir = s.mem s.kernPgdir) start
      (fun k a b within before one => by
        obtain ⟨view_a, kern, mem⟩ := before
        have user := (below_user below within).2
        obtain ⟨_, same, frames⟩ := regionAllocStep_shaped view_a.kept view_a.shaped he user one
        have kept := frames _ (Or.inl rfl)
        rw [kern] at kept
        exact ⟨regionAllocStep_view view_a he user one, same.trans kern, kept.trans mem⟩) run
    exact done.2

theorem self_frame (kern : s'.kernPgdir = s.kernPgdir) (mem : s'.mem s.kernPgdir = s.mem s.kernPgdir)
    (self : ppn (s.entry s.kernPgdir uvptPde) = s.kernPgdir) :
    ppn (s'.entry s'.kernPgdir uvptPde) = s'.kernPgdir := by
  rw [kern, entry_mem mem]
  exact self

theorem reached_uvpt (reached : Reached m countRoom (fun _ _ => True) dirs s) :
    View m dirs s ∧ s.entry s.kernPgdir uvptPde = mapEntry s.kernPgdir PTE_U ∧
      s.kernPgdir < 1048576 := by
  have room := (kernPage_room m).1
  induction reached with
  | pageInit run =>
    obtain ⟨_, booted, _⟩ := memInitAlloc_ok m run
    refine ⟨pageInit_view run, ?_⟩
    rw [booted.kernPgdir, booted.dir, if_pos rfl]
    exact ⟨rfl, room⟩
  | memInit run =>
    obtain ⟨_, _, boot⟩ := memInit_ok m run
    refine ⟨memInit_view run, ?_⟩
    rw [boot.uvpt, boot.kernPgdir]
    exact ⟨rfl, room⟩
  | step _ step _ ih =>
    obtain ⟨view, self, inside⟩ := ih
    obtain ⟨kern, mem⟩ := step_kern view step
    refine ⟨step_view view step (step_bounded view.kept step), ?_⟩
    rw [kern, entry_mem mem]
    exact ⟨self, inside⟩

theorem reached_self (reached : Reached m countRoom (fun _ _ => True) dirs s) :
    View m dirs s ∧ ppn (s.entry s.kernPgdir uvptPde) = s.kernPgdir := by
  obtain ⟨view, uvpt, room⟩ := reached_uvpt reached
  refine ⟨view, ?_⟩
  rw [uvpt, ppn_mapEntry room (by decide)]

theorem TlbInv.still (inv : TlbInv m dirs s) (view : View m dirs s')
    (kern : s'.kernPgdir = s.kernPgdir) (same : ∀ q, TablePage dirs s q → s'.mem q = s.mem q)
    (cr3 : s'.cr3 = s.cr3)
    (tlb : ∀ va, va < WORD → ∀ t, s'.tlb (pgnum va) = some t →
      s.tlb (pgnum va) = some t ∨ walk s s.cr3 va = some t) : TlbInv m dirs s' := by
  obtain ⟨fl, acc⟩ := inv.view.kept.books
  refine ⟨view, self_frame kern (same _ (Or.inr (Or.inl rfl))) inv.self, ?_, ?_⟩
  · rw [cr3]
    unfold Directory
    rw [kern]
    exact inv.dir
  · intro va word t cached
    rw [cr3, walk_tables acc inv.view.shaped inv.self kern same inv.dir word]
    rcases tlb va word t cached with before | filled
    · exact inv.coherent va word t before
    · exact ⟨t, filled, agrees_refl t⟩

theorem TlbInv.remapped {e : Fin NENV} {fl : List Nat} {va t : Nat} {user : pdx va < userPdes}
    (inv : TlbInv m dirs s) (view : View m dirs s') (acc : Accounted dirs none s fl)
    (he : dirs e = some pgdir)
    (remapped : Remapped dirs fl e ⟨pdx va, user⟩ (ptx va) pgdir t s s') (cr3 : s'.cr3 = s.cr3)
    (word : va < WORD) (others : ∀ v, v ≠ pgnum va → s'.tlb v = s.tlb v)
    (here : s'.tlb (pgnum va) = none ∨
      s'.tlb (pgnum va) = s.tlb (pgnum va) ∧ walk s pgdir va = none) : TlbInv m dirs s' := by
  have kernel := remapped.frames acc he _ (Or.inl rfl)
  refine ⟨view, self_frame remapped.kern kernel inv.self, ?_, ?_⟩
  · rw [cr3]
    unfold Directory
    rw [remapped.kern]
    exact inv.dir
  · exact remapped.coherent acc inv.view.shaped he inv.self inv.coherent inv.dir cr3 word others here

theorem lcr3_inv (view : View m dirs s) (self : ppn (s.entry s.kernPgdir uvptPde) = s.kernPgdir)
    (dir : Directory dirs s pgdir) : TlbInv m dirs (lcr3 s pgdir) := by
  refine ⟨(lcr3_untouched dirs s pgdir).view view, self, dir, ?_⟩
  intro va _ t cached
  cases cached

theorem pageAlloc_inv (inv : TlbInv m dirs s) {zero : Bool} {r : Option Nat}
    (run : pageAlloc s zero = .ok (r, s')) : TlbInv m dirs s' := by
  obtain ⟨fl, acc⟩ := inv.view.kept.books
  have call : Step countRoom dirs s dirs s' := .call (.pageAlloc zero run)
  have view := step_view inv.view call (step_bounded inv.view.kept call)
  have tlb := pageAlloc_tlb run
  cases fl with
  | nil =>
    rw [pageAlloc_empty acc] at run
    cases run
    exact inv
  | cons p rest =>
    rw [pageAlloc_take acc] at run
    cases run
    have quiet := takeFree_quiet s p zero
    apply inv.still view quiet.kernPgdir _ quiet.cr3
    · intro va _ t cached
      rw [tlb] at cached
      exact Or.inl cached
    · intro q table
      apply takeFree_mem_of_ne
      rintro rfl
      rcases table with (⟨e, he⟩ | ⟨e, d, held⟩) | kernel
      · exact acc.unused q (by simp) (.root e) he
      · exact acc.unused q (by simp) (.table e d) held
      · exact (kernFrame_apart acc kernel).1 (by simp)

theorem pageInsert_inv (inv : TlbInv m dirs s) {e : Fin NENV} {pp va perm : Nat} {r : Int}
    (he : dirs e = some pgdir) (user : va < UTOP) (held : Allocated s pp) (small : perm < 4096)
    (may : countRoom dirs s e pp va) (run : pageInsert s pgdir pp va perm = .ok (r, s')) :
    TlbInv m dirs s' := by
  obtain ⟨fl, acc⟩ := inv.view.kept.books
  have word : va < WORD := Nat.lt_trans user (by decide)
  have call : Step countRoom dirs s dirs s' := .call (.pageInsert he user held small may run)
  have view := step_view inv.view call (step_bounded inv.view.kept call)
  obtain ⟨others, here⟩ := pageInsert_tlb run
  have busy := (onFreeList_iff acc.list).not.mp held.2
  rcases pageInsert_spec acc inv.view.kept.bounded he (user_slot user) held.1 busy small with
    ⟨_, _, done⟩ | ⟨t, s1, fl1, s2, fl2, walked, done, inserted⟩
  · rw [done] at run
    cases run
    exact inv
  · rw [done] at run
    cases run
    exact inv.remapped view acc he (inserted_remapped acc he small walked inserted)
      inserted.quiet.cr3 word others here

theorem pageRemove_inv (inv : TlbInv m dirs s) {e : Fin NENV} {va : Nat} (he : dirs e = some pgdir)
    (user : va < UTOP) (run : pageRemove s pgdir va = .ok s') : TlbInv m dirs s' := by
  obtain ⟨fl, acc⟩ := inv.view.kept.books
  have word : va < WORD := Nat.lt_trans user (by decide)
  have call : Step countRoom dirs s dirs s' := .call (.pageRemove he user run)
  have view := step_view inv.view call (step_bounded inv.view.kept call)
  rcases pageRemove_spec acc he (user_slot user) with ⟨_, done⟩ | ⟨t, p, ht, held, done⟩
  · rw [done] at run
    cases run
    exact inv
  · have dropped : s'.tlb = Function.update s.tlb (pgnum va) none := by
      rw [done] at run
      cases run
      change Function.update (pageDecref s p).tlb (pgnum va) none = _
      rw [pageDecref_tlb]
    rw [done] at run
    cases run
    apply inv.remapped view acc he (removed_remapped acc he ht (ptx va) p va)
      (clearLeaf_quiet s t (ptx va) p va).cr3 word
    · intro v other
      rw [dropped, Function.update_of_ne other]
    · rw [dropped, Function.update_self]
      exact Or.inl rfl

/-- The TLB alone changes, for the one page, to what a walk finds there or to nothing. -/
theorem TlbInv.cached (inv : TlbInv m dirs s) (page : Nat) (new : Option Translation)
    (fresh : ∀ va, va < WORD → pgnum va = page → ∀ t, new = some t → walk s s.cr3 va = some t) :
    TlbInv m dirs { s with tlb := Function.update s.tlb page new } := by
  have same : Untouched dirs s { s with tlb := Function.update s.tlb page new } :=
    ⟨rfl, rfl, rfl, rfl, rfl, fun _ _ _ => rfl, fun _ _ => rfl⟩
  apply inv.still (same.view inv.view) rfl (fun _ _ => rfl) rfl
  intro va word t cached
  dsimp only at cached
  by_cases here : pgnum va = page
  · rw [here, Function.update_self] at cached
    exact Or.inr (fresh va word here t cached)
  · rw [Function.update_of_ne here] at cached
    exact Or.inl cached

theorem store_inv (inv : TlbInv m dirs s) {q k : Nat} {b : UInt8} (plain : ¬ TablePage dirs s q) :
    TlbInv m dirs (s.setByte q k b) := by
  have frames : ∀ p, TablePage dirs s p → (s.setByte q k b).mem p = s.mem p := by
    intro p table
    have other : p ≠ q := by
      rintro rfl
      exact plain table
    simp [State.setByte, other]
  have same : Untouched dirs s (s.setByte q k b) :=
    ⟨rfl, rfl, rfl, rfl, rfl, fun _ _ _ => rfl, frames⟩
  exact inv.still (same.view inv.view) rfl frames rfl fun _ _ _ cached => Or.inl cached

theorem tlbStep_inv (inv : TlbInv m dirs s) (step : TlbStep countRoom dirs s s') :
    TlbInv m dirs s' := by
  cases step with
  | pageAlloc zero run => exact pageAlloc_inv inv run
  | pageInsert he user held flags may run =>
    exact pageInsert_inv inv he user held (permBits_small flags) may run
  | pageRemove he user run => exact pageRemove_inv inv he user run
  | @access va t word walked =>
    apply inv.cached
    intro va' _ here t' same
    cases same
    rw [walk_page_same here]
    exact walked
  | store b walked plain => exact store_inv inv plain
  | evict page => exact inv.cached page none fun _ _ _ _ impossible => nomatch impossible
  | lcr3 dir => exact lcr3_inv inv.view inv.self dir

theorem tlbRun_inv (run : TlbRun m countRoom dirs s) : TlbInv m dirs s := by
  induction run with
  | start reached dir =>
    obtain ⟨view, self⟩ := reached_self reached
    exact lcr3_inv view self dir
  | step _ step ih => exact tlbStep_inv ih step

end Runs

/-- Every cached translation is what a walk finds, while page_insert is called with room in the
    counter. -/
theorem tlb_coherent {m : Machine} {dirs : Dirs} {s : State} (run : TlbRun m countRoom dirs s) :
    Coherent s := (tlbRun_inv run).coherent

/-- An access, and then a page_insert at the next page: the translation stays in the TLB. -/
theorem tlb_coherent_smallMachine : ∃ pgdir pp s, Coherent s ∧ s.tlb (pgnum 0) ≠ none ∧
    mappedAt (oneDir pgdir) s 0 PGSIZE = some pp := by
  obtain ⟨pgdir, pp, s0, fl, one⟩ := onePage_run
  have he := oneDir_self pgdir
  have user : pdx PGSIZE < userPdes := by decide
  have start : TlbRun smallMachine countRoom (oneDir pgdir) (lcr3 s0 pgdir) :=
    .start (one.reached countRoom _ (fun _ _ _ _ _ unused => countRoom_unused unused)
      fun _ _ _ => trivial) (Or.inr ⟨0, he⟩)
  obtain ⟨tr, walked, _⟩ : ∃ tr, walk s0 pgdir 0 = some tr ∧ Translation.page tr = pp := by
    have there := one.mapped
    unfold userPage at there
    rw [he] at there
    exact Option.map_eq_some_iff.mp there
  obtain ⟨s1, at_s1⟩ : ∃ s1, s1 = ({ lcr3 s0 pgdir with
    tlb := Function.update (lcr3 s0 pgdir).tlb (pgnum 0) (some tr) } : State) := ⟨_, rfl⟩
  have run1 : TlbRun smallMachine countRoom (oneDir pgdir) s1 := by
    rw [at_s1]
    exact start.step (.access (by decide) walked)
  have same : Untouched (oneDir pgdir) s0 s1 := by
    rw [at_s1]
    exact ⟨rfl, rfl, rfl, rfl, rfl, fun _ _ _ => rfl, fun _ _ => rfl⟩
  have acc := same.books one.books
  have slot : target (oneDir pgdir) none s1 (leafSlot 0 0 (by decide)) = some pp := by
    rw [same.target, ← userPage_target]
    exact one.mapped
  have managed := acc.targets _ pp slot
  have busy := busy_of_target acc slot
  have room : countRoom (oneDir pgdir) s1 0 pp PGSIZE := by
    left
    rw [acc.counts pp managed]
    have few := one.few pp
    rw [← same.target] at few
    rcases Nat.le_one_iff_eq_zero_or_eq_one.mp few with none_yet | once
    · rw [none_yet]
      decide
    · rw [once]
      decide
  have bounded : Bounded (oneDir pgdir) none s1 := (tlbRun_inv run1).view.kept.bounded
  rcases pageInsert_spec acc bounded he user managed busy (show PTE_U < 4096 by decide) with
    ⟨_, full, _⟩ | ⟨t, s2, fl2, s', fl', _, done, inserted⟩
  · have long := one.long
    rw [full] at long
    exact absurd long (by decide)
  · have held : Allocated s1 pp := ⟨managed, (onFreeList_iff acc.list).not.mpr busy⟩
    refine ⟨pgdir, pp, s', tlb_coherent (run1.step (.pageInsert he (by decide) held user_flag room done)),
      ?_, ?_⟩
    · rw [(pageInsert_tlb done).1 (pgnum 0) (by decide), at_s1]
      dsimp only
      rw [Function.update_self]
      exact Option.some_ne_none tr
    · rw [mappedAt_target user, inserted.target_eq, Function.update_self]

section Direct
variable {s : State} {fl : List Nat} {pgdir d t i pp perm va p q : Nat}

def hung (s : State) (pgdir d t i pp perm : Nat) : State :=
  mapLeaf ((hangTable s pgdir d t).setRef pp (((hangTable s pgdir d t).pages pp).ppRef + 1))
    pgdir t d i pp perm

theorem pageInsert_head (head : s.pageFreeList = some t) (inside : t < s.npages)
    (room : t < 1048576) (apart : pgdir ≠ t) (absent : ¬ Present (s.entry pgdir (pdx va)))
    (pp perm : Nat) : pageInsert s pgdir pp va perm = .ok (0, hung s pgdir (pdx va) t (ptx va) pp perm) := by
  have empty : ¬ Present ((hangTable s pgdir (pdx va) t).entry t (ptx va)) := by
    rw [hangTable_table apart]
    decide
  unfold pageInsert
  rw [pgdirWalk_head head inside room absent, ok_bind]
  dsimp only
  have same : ((hangTable s pgdir (pdx va) t).setRef pp
      (((hangTable s pgdir (pdx va) t).pages pp).ppRef + 1)).entry t (ptx va) =
        (hangTable s pgdir (pdx va) t).entry t (ptx va) := rfl
  rw [same, if_neg empty]
  rfl

theorem hung_quiet (s : State) (pgdir d t i pp perm : Nat) : Quiet s (hung s pgdir d t i pp perm) :=
  rfl

theorem hung_dir (apart : pgdir ≠ t) (room : t < 1048576) (small : perm < 4096) :
    (hung s pgdir d t i pp perm).entry pgdir d = tableEntry t ||| perm := by
  have dir : (hung s pgdir d t i pp perm).entry pgdir d =
      (hangTable s pgdir d t).entry pgdir d ||| perm := mapLeaf_dir apart.symm small
  rw [dir, hangTable_dir room]

theorem hung_leaf (apart : pgdir ≠ t) (room : pp < 1048576) (small : perm < 4096) :
    (hung s pgdir d t i pp perm).entry t i = mapEntry pp perm := mapLeaf_leaf apart.symm room small

theorem hung_table (apart : pgdir ≠ t) {j : Nat} (other : j ≠ i) :
    (hung s pgdir d t i pp perm).entry t j = 0 := by
  have same : (hung s pgdir d t i pp perm).entry t j = (hangTable s pgdir d t).entry t j :=
    mapLeaf_entry_of_ne (Or.inr other) (Or.inl apart.symm)
  rw [same, hangTable_table apart]

theorem hung_entry_of_ne (table : q ≠ t) {j : Nat} (dir : q ≠ pgdir ∨ j ≠ d) :
    (hung s pgdir d t i pp perm).entry q j = s.entry q j := by
  have same : (hung s pgdir d t i pp perm).entry q j = (hangTable s pgdir d t).entry q j :=
    mapLeaf_entry_of_ne (Or.inl table) dir
  rw [same, hangTable_entry_of_ne table dir]

theorem hung_list (list : FreeList s (t :: fl)) (fresh : t ∉ fl) :
    FreeList (hung s pgdir d t i pp perm) fl := by
  obtain ⟨_, tail⟩ := chain_cons_head list
  have head : (hung s pgdir d t i pp perm).pageFreeList = (s.pages t).ppLink := rfl
  unfold FreeList
  rw [head]
  refine chain_congr tail ?_
  intro x listed
  have differ : x ≠ t := fun same => fresh (same ▸ listed)
  by_cases here : x = pp
  · subst here
    simp [hung, mapLeaf, hangTable, takeFree, State.setRef, State.setEntry, differ]
  · simp [hung, mapLeaf, hangTable, takeFree, State.setRef, State.setEntry, differ, here]

theorem hung_ref (apart : pp ≠ t) : ((hung s pgdir d t i pp perm).pages pp).ppRef =
    (s.pages pp).ppRef + 1 := by
  simp [hung, mapLeaf, hangTable, takeFree, State.setRef, State.setEntry, apart]

theorem hung_tableRef (apart : pp ≠ t) : ((hung s pgdir d t i pp perm).pages t).ppRef =
    (s.pages t).ppRef + 1 := by
  simp [hung, mapLeaf, hangTable, takeFree, State.setRef, State.setEntry, apart.symm]

theorem pageLookup_mapped (dir : entryPage (s.entry pgdir (pdx va)) = some t) (table : t < s.npages)
    (leaf : entryPage (s.entry t (ptx va)) = some p) (inside : p < s.npages) :
    pageLookup s pgdir va = .ok (some (p, ⟨t, ptx va⟩)) := by
  obtain ⟨present, rfl⟩ := entryPage_some.mp dir
  obtain ⟨mapped, rfl⟩ := entryPage_some.mp leaf
  unfold pageLookup
  rw [pgdirWalk_present present table, ok_bind]
  dsimp only
  rw [if_neg (not_not.mpr mapped), pa2page_entry inside]
  rfl

theorem pageRemove_mapped (dir : entryPage (s.entry pgdir (pdx va)) = some t) (table : t < s.npages)
    (leaf : entryPage (s.entry t (ptx va)) = some p) (inside : p < s.npages) :
    pageRemove s pgdir va = .ok (clearLeaf s t (ptx va) p va) := by
  unfold pageRemove
  rw [pageLookup_mapped dir table leaf inside]
  rfl

theorem clearLeaf_freed (list : FreeList s fl) (busy : p ∉ fl) (last : (s.pages p).ppRef = 1) :
    FreeList (clearLeaf s t i p va) (p :: fl) ∧ ((clearLeaf s t i p va).pages p).ppRef = 0 := by
  have gone : (s.pages p).ppRef - 1 = 0 := by
    rw [last]
    decide
  have freed := pageDecref_last gone
  have pages : (clearLeaf s t i p va).pages = (pageDecref s p).pages := rfl
  have head : (clearLeaf s t i p va).pageFreeList = (pageDecref s p).pageFreeList := rfl
  refine ⟨?_, ?_⟩
  · have pushed := chain_push list busy
    unfold FreeList
    rw [head, pages, freed]
    refine chain_congr pushed ?_
    intro x _
    by_cases same : x = p
    · subst same
      simp [pageFree, State.setRef]
    · simp [pageFree, State.setRef, same]
  · rw [pages, pageDecref_ref, gone]

theorem entryPage_mapped (room : p < 1048576) (small : perm < 4096) :
    entryPage (mapEntry p perm) = some p :=
  entryPage_some.mpr ⟨present_mapEntry small, ppn_mapEntry room small⟩

theorem entryPage_flags (room : t < 1048576) (small : perm < 4096) :
    entryPage (tableEntry t ||| perm) = some t := by
  have entry := @entryPage_mapped (PTE_U ||| PTE_W) t room (by decide)
  rw [← tableEntry_eq, entryPage_some] at entry
  have word : tableEntry t < WORD := by
    rw [tableEntry_eq]
    exact mapEntry_lt room (by decide)
  obtain ⟨same, still, _⟩ := ppn_or_flags word small
  exact entryPage_some.mpr ⟨still entry.1, same.trans entry.2⟩

theorem walk_entryPage (dir : entryPage (s.entry pgdir (pdx va)) = some t)
    (leaf : entryPage (s.entry t (ptx va)) = some p) :
    walk s pgdir va = some ⟨s.entry pgdir (pdx va), s.entry t (ptx va)⟩ := by
  obtain ⟨present, rfl⟩ := entryPage_some.mp dir
  exact walk_some.mpr ⟨present, (entryPage_some.mp leaf).1, rfl⟩

variable {m : Machine} {dirs : Dirs} {e : Fin NENV}

theorem insert_run (run : TlbRun m anyPage dirs s) (he : dirs e = some pgdir) (user : va < UTOP)
    (list : FreeList s (t :: fl)) (fresh : t ∉ fl) (managed : Managed s t)
    (room : s.npages ≤ 1048576) (apart : pgdir ≠ t)
    (absent : ¬ Present (s.entry pgdir (pdx va))) (other : Managed s p ∧ p ∉ t :: fl) :
    TlbRun m anyPage dirs (hung s pgdir (pdx va) t (ptx va) p PTE_U) ∧
      FreeList (hung s pgdir (pdx va) t (ptx va) p PTE_U) fl ∧
      entryPage ((hung s pgdir (pdx va) t (ptx va) p PTE_U).entry pgdir (pdx va)) = some t ∧
      entryPage ((hung s pgdir (pdx va) t (ptx va) p PTE_U).entry t (ptx va)) = some p := by
  have small : PTE_U < 4096 := by decide
  have room_t := Nat.lt_of_lt_of_le managed.1 room
  have room_p := Nat.lt_of_lt_of_le other.1.1 room
  have held : Allocated s p := by
    refine ⟨other.1, ?_⟩
    rw [onFreeList_iff list]
    exact other.2
  have done := pageInsert_head (chain_cons_head list).1 managed.1 room_t apart absent p PTE_U
  refine ⟨run.step (.pageInsert he user held user_flag trivial done), hung_list list fresh, ?_, ?_⟩
  · rw [hung_dir apart room_t small]
    exact entryPage_flags room_t small
  · rw [hung_leaf apart room_p small]
    exact entryPage_mapped room_p small

theorem remove_run (run : TlbRun m anyPage dirs s) (he : dirs e = some pgdir) (user : va < UTOP)
    (dir : entryPage (s.entry pgdir (pdx va)) = some t) (table : t < s.npages)
    (leaf : entryPage (s.entry t (ptx va)) = some p) (inside : p < s.npages)
    (list : FreeList s fl) (busy : p ∉ fl) (last : (s.pages p).ppRef = 1) :
    TlbRun m anyPage dirs (clearLeaf s t (ptx va) p va) ∧
      FreeList (clearLeaf s t (ptx va) p va) (p :: fl) ∧
      ((clearLeaf s t (ptx va) p va).pages p).ppRef = 0 := by
  have done := pageRemove_mapped dir table leaf inside
  exact ⟨run.step (.pageRemove he user done), clearLeaf_freed list busy last⟩

theorem managed_same {s' : State} (npages : s'.npages = s.npages) (nextfree : s'.nextfree = s.nextfree)
    (managed : Managed s p) : Managed s' p := by
  unfold Managed
  rw [npages, nextfree]
  exact managed

theorem there_and_back (run : TlbRun m anyPage dirs s) (he : dirs e = some pgdir) (user : va < UTOP)
    (list : FreeList s (t :: fl)) (fresh : t ∉ fl) (managed : Managed s t)
    (room : s.npages ≤ 1048576) (apart : pgdir ≠ t)
    (absent : ¬ Present (s.entry pgdir (pdx va))) (other : Managed s p ∧ p ∉ t :: fl)
    (unused : (s.pages p).ppRef = 0) :
    ∃ s', TlbRun m anyPage dirs s' ∧ FreeList s' (p :: fl) ∧ (s'.pages p).ppRef = 0 ∧ Quiet s s' ∧
      ∀ x j, x ≠ t → (x ≠ pgdir ∨ j ≠ pdx va) → s'.entry x j = s.entry x j := by
  obtain ⟨p_ne_t, p_fresh⟩ := not_or.mp (mt List.mem_cons.mpr other.2)
  obtain ⟨run1, list1, dir1, leaf1⟩ :=
    insert_run run he user list fresh managed room apart absent other
  have ref1 : ((hung s pgdir (pdx va) t (ptx va) p PTE_U).pages p).ppRef = 1 := by
    rw [hung_ref p_ne_t, unused]
    decide
  have quiet1 := hung_quiet s pgdir (pdx va) t (ptx va) p PTE_U
  have entry1 : ∀ x j, x ≠ t → (x ≠ pgdir ∨ j ≠ pdx va) →
      (hung s pgdir (pdx va) t (ptx va) p PTE_U).entry x j = s.entry x j :=
    fun x j differ elsewhere => hung_entry_of_ne differ elsewhere
  obtain ⟨s1, at_s1⟩ : ∃ s1, s1 = hung s pgdir (pdx va) t (ptx va) p PTE_U := ⟨_, rfl⟩
  rw [← at_s1] at run1 list1 dir1 leaf1 ref1 quiet1 entry1
  have table : t < s1.npages := by
    rw [quiet1.npages]
    exact managed.1
  have inside : p < s1.npages := by
    rw [quiet1.npages]
    exact other.1.1
  obtain ⟨run2, list2, ref2⟩ :=
    remove_run run1 he user dir1 table leaf1 inside list1 p_fresh ref1
  refine ⟨_, run2, list2, ref2, quiet_trans quiet1 (clearLeaf_quiet s1 t (ptx va) p va), ?_⟩
  intro x j differ elsewhere
  rw [clearLeaf_entry_of_ne (Or.inl differ), entry1 x j differ elsewhere]

end Direct

structure Loose (pgdir pp q : Nat) (s : State) (fl : List Nat) : Prop where
  run : TlbRun smallMachine anyPage (oneDir pgdir) s
  cr3 : s.cr3 = pgdir
  list : FreeList s (pp :: fl)
  fresh : pp ∉ fl
  ref : (s.pages pp).ppRef = 0
  managed : Managed s pp
  other : Managed s q ∧ q ∉ pp :: fl
  room : s.npages ≤ 1048576
  apart : pgdir ≠ pp
  stray : ∃ t, t ≠ pp ∧ t ≠ pgdir ∧ t < s.npages ∧ entryPage (s.entry pgdir 63) = some t ∧
    entryPage (s.entry t 1023) = some pp
  bare : ∀ d, 65 ≤ d → d < userPdes → ¬ Present (s.entry pgdir d)

/-- pp is the first free page, though it is the page table of slot 65 and a translation through
    it is cached. -/
structure Hooked (pgdir pp q : Nat) (s : State) (fl : List Nat) : Prop where
  run : TlbRun smallMachine anyPage (oneDir pgdir) s
  cr3 : s.cr3 = pgdir
  list : FreeList s (pp :: fl)
  fresh : pp ∉ fl
  managed : Managed s pp
  other : Managed s q ∧ q ∉ pp :: fl
  room : s.npages ≤ 1048576
  apart : pgdir ≠ pp
  hook : entryPage (s.entry pgdir 65) = some pp
  bare : ¬ Present (s.entry pgdir 66)
  cached : s.tlb (pgnum (nth 66560)) ≠ none

section Stale
variable {s s' : State} {fl : List Nat} {pgdir pp q : Nat}

theorem Loose.hooked (loose : Loose pgdir pp q s fl) : ∃ s', Hooked pgdir pp q s' fl := by
  obtain ⟨t, not_pp, not_dir, table, dir, leaf⟩ := loose.stray
  have he := oneDir_self pgdir
  have q_ne : q ≠ pp := fun same => loose.other.2 (by simp [same])
  have dir65 : pdx (nth 66560) = 65 := by decide
  have ptx65 : ptx (nth 66560) = 0 := by decide
  have dir63 : pdx (nth 65535) = 63 := by decide
  have ptx63 : ptx (nth 65535) = 1023 := by decide
  have absent : ¬ Present (s.entry pgdir (pdx (nth 66560))) := by
    rw [dir65]
    exact loose.bare 65 (by decide) (by decide)
  obtain ⟨run4, list4, dir4, leaf4⟩ := insert_run loose.run he (by decide) loose.list loose.fresh
    loose.managed loose.room loose.apart absent loose.other
  have walk4 := walk_entryPage dir4 leaf4
  rw [dir65, ptx65] at run4 list4 dir4 leaf4 walk4
  have ref4 : ((hung s pgdir 65 pp 0 q PTE_U).pages pp).ppRef = 1 := by
    rw [hung_tableRef q_ne, loose.ref]
    decide
  have quiet4 := hung_quiet s pgdir 65 pp 0 q PTE_U
  have entry4 : ∀ x j, x ≠ pp → (x ≠ pgdir ∨ j ≠ 65) →
      (hung s pgdir 65 pp 0 q PTE_U).entry x j = s.entry x j :=
    fun x j other differ => hung_entry_of_ne other differ
  obtain ⟨s4, at_s4⟩ : ∃ s4, s4 = hung s pgdir 65 pp 0 q PTE_U := ⟨_, rfl⟩
  rw [← at_s4] at run4 list4 dir4 leaf4 walk4 ref4 quiet4 entry4
  obtain ⟨tr, walked⟩ : ∃ tr, walk s4 s4.cr3 (nth 66560) = some tr := by
    rw [quiet4.cr3, loose.cr3]
    exact ⟨_, walk4⟩
  obtain ⟨s5, at_s5⟩ : ∃ s5, s5 =
    ({ s4 with tlb := Function.update s4.tlb (pgnum (nth 66560)) (some tr) } : State) := ⟨_, rfl⟩
  have run5 : TlbRun smallMachine anyPage (oneDir pgdir) s5 := by
    rw [at_s5]
    exact run4.step (.access (by decide) walked)
  have entry5 : ∀ x j, s5.entry x j = s4.entry x j := by
    rw [at_s5]
    exact fun _ _ => rfl
  have npages5 : s5.npages = s.npages := by
    rw [at_s5]
    exact quiet4.npages
  have dir5 : entryPage (s5.entry pgdir (pdx (nth 65535))) = some t := by
    rw [entry5, dir63, entry4 _ _ loose.apart (Or.inr (by decide))]
    exact dir
  have leaf5 : entryPage (s5.entry t (ptx (nth 65535))) = some pp := by
    rw [entry5, ptx63, entry4 _ _ not_pp (Or.inl not_dir)]
    exact leaf
  have list5 : FreeList s5 fl := by
    rw [at_s5]
    exact list4
  have ref5 : (s5.pages pp).ppRef = 1 := by
    rw [at_s5]
    exact ref4
  obtain ⟨run6, list6, _⟩ := remove_run run5 he (by decide) dir5 (by rw [npages5]; exact table) leaf5
    (by rw [npages5]; exact loose.managed.1) list5 loose.fresh ref5
  have quiet6 := clearLeaf_quiet s5 t (ptx (nth 65535)) pp (nth 65535)
  have entry6 : ∀ j, (clearLeaf s5 t (ptx (nth 65535)) pp (nth 65535)).entry pgdir j =
      s4.entry pgdir j := by
    intro j
    rw [clearLeaf_entry_of_ne (Or.inl (Ne.symm not_dir)), entry5]
  have npages6 := quiet6.npages.trans npages5
  have nextfree6 : (clearLeaf s5 t (ptx (nth 65535)) pp (nth 65535)).nextfree = s.nextfree := by
    rw [quiet6.nextfree, at_s5]
    exact quiet4.nextfree
  refine ⟨_, run6, ?_, list6, loose.fresh, managed_same npages6 nextfree6 loose.managed,
    ⟨managed_same npages6 nextfree6 loose.other.1, loose.other.2⟩, ?_, loose.apart, ?_, ?_, ?_⟩
  · rw [quiet6.cr3, at_s5]
    exact quiet4.cr3.trans loose.cr3
  · rw [npages6]
    exact loose.room
  · rw [entry6]
    exact dir4
  · rw [entry6, entry4 _ _ loose.apart (Or.inr (by decide))]
    exact loose.bare 66 (by decide) (by decide)
  · change Function.update (pageDecref s5 pp).tlb (pgnum (nth 65535)) none (pgnum (nth 66560)) ≠ none
    rw [Function.update_of_ne (by decide), pageDecref_tlb, at_s5]
    dsimp only
    rw [Function.update_self]
    exact Option.some_ne_none _

theorem Hooked.stale (hooked : Hooked pgdir pp q s fl) :
    ∃ s', TlbRun smallMachine anyPage (oneDir pgdir) s' ∧ ¬ Coherent s' := by
  have he := oneDir_self pgdir
  have dir66 : pdx (nth 67585) = 66 := by decide
  have ptx66 : ptx (nth 67585) = 1 := by decide
  have dir65 : pdx (nth 66560) = 65 := by decide
  have ptx65 : ptx (nth 66560) = 0 := by decide
  have absent : ¬ Present (s.entry pgdir (pdx (nth 67585))) := by
    rw [dir66]
    exact hooked.bare
  obtain ⟨run, _, _, _⟩ := insert_run hooked.run he (by decide) hooked.list hooked.fresh hooked.managed
    hooked.room hooked.apart absent hooked.other
  rw [dir66, ptx66] at run
  refine ⟨_, run, ?_⟩
  intro coherent
  obtain ⟨tr, cached⟩ := Option.ne_none_iff_exists'.mp hooked.cached
  obtain ⟨_, walked, _⟩ := coherent (nth 66560) (by decide) tr cached
  have cr3 : (hung s pgdir 66 pp 1 q PTE_U).cr3 = pgdir := hooked.cr3
  obtain ⟨_, mapped, _⟩ := walk_some.mp walked
  have hook : entryPage ((hung s pgdir 66 pp 1 q PTE_U).entry pgdir 65) = some pp := by
    rw [hung_entry_of_ne hooked.apart (Or.inr (by decide))]
    exact hooked.hook
  rw [cr3, dir65, (entryPage_some.mp hook).2, ptx65, hung_table hooked.apart (by decide)] at mapped
  exact absurd mapped (by decide)

/-- The state after 65536 mappings: pp counts as unused. -/
structure Wrapped (pgdir pp : Nat) (s : State) (fl : List Nat) : Prop where
  reached : Reached smallMachine anyPage (fun _ _ => True) (oneDir pgdir) s
  books : Accounted (oneDir pgdir) none s fl
  managed : Managed s pp
  busy : pp ∉ fl
  apart : pgdir ≠ pp
  ref : (s.pages pp).ppRef = 0
  stray : ∃ t, t ≠ pp ∧ target (oneDir pgdir) none s (.table 0 ⟨63, by decide⟩) = some t ∧
    entryPage (s.entry t 1023) = some pp
  bare : ∀ d : Fin userPdes, 64 ≤ d.val → target (oneDir pgdir) none s (.table 0 d) = none
  two : ∃ a b rest, fl = a :: b :: rest

theorem wrapped_page : ∃ pgdir pp s fl, Wrapped pgdir pp s fl := by
  obtain ⟨pgdir, pp, s0, fl0, start, bare⟩ := filled_start
  obtain ⟨s, fl, filled, tables⟩ := filled_many start bare (Nat.le_refl 65536)
  have two : ∃ a b rest, fl = a :: b :: rest := by
    have long := filled.budget
    match fl with
    | [] =>
      simp only [List.length_nil] at long
      omega
    | [a] =>
      simp only [List.length_cons, List.length_nil] at long
      omega
    | a :: b :: rest => exact ⟨a, b, rest, rfl⟩
  have ref := filled.books.counts pp filled.managed
  rw [filled.count] at ref
  have apart : pgdir ≠ pp := by
    intro same
    subst same
    have root : target (oneDir pgdir) none s0 (.root 0) = some pgdir := oneDir_self pgdir
    have used := refs_pos.mpr ⟨_, root⟩
    rw [start.count] at used
    exact absurd used (by decide)
  refine ⟨pgdir, pp, s, fl, filled.reached, filled.books, filled.managed, filled.busy, apart, ref, ?_,
    ?_, two⟩
  · have mapped := filled.last 65535 (by decide) (by decide)
    have slot : leafSlot 0 (nth 65535) (nth_user (by decide)) =
        (.leaf 0 ⟨63, by decide⟩ ⟨1023, by decide⟩ : PageSlot) := by decide
    rw [slot] at mapped
    cases named : target (oneDir pgdir) none s (.table 0 ⟨63, by decide⟩) with
    | none =>
      rw [leaf_without_table named] at mapped
      cases mapped
    | some t =>
      rw [leaf_entry named] at mapped
      exact ⟨t, (tables _ t named).2, rfl, mapped⟩
  · intro d above
    by_contra there
    obtain ⟨t, named⟩ := Option.ne_none_iff_exists'.mp there
    have below := (tables d t named).1
    omega

theorem Wrapped.loose (wrapped : Wrapped pgdir pp s fl) : ∃ q s' fl', Loose pgdir pp q s' fl' := by
  obtain ⟨a, b, rest, rfl⟩ := wrapped.two
  obtain ⟨t, t_ne_pp, named, leaf⟩ := wrapped.stray
  have he := oneDir_self pgdir
  have dir64 : pdx (nth 65536) = 64 := by decide
  have run0 : TlbRun smallMachine anyPage (oneDir pgdir) (lcr3 s pgdir) :=
    .start wrapped.reached (Or.inr ⟨0, he⟩)
  have acc := (lcr3_untouched (oneDir pgdir) s pgdir).books wrapped.books
  have busy := wrapped.busy
  have once := acc.nodup
  simp only [List.nodup_cons, List.mem_cons, not_or] at once busy
  obtain ⟨⟨a_ne_b, a_fresh⟩, b_fresh, _⟩ := once
  obtain ⟨pp_ne_a, pp_ne_b, pp_fresh⟩ := busy
  have managed_t : Managed s t := wrapped.books.targets _ t named
  have t_busy := busy_of_target wrapped.books named
  simp only [List.mem_cons, not_or] at t_busy
  have apart_b : pgdir ≠ b := by
    intro same
    subst same
    exact acc.unused pgdir (by simp) (.root 0) he
  have root : (forest (oneDir pgdir) none s).root 0 = some pgdir := he
  have apart_t : pgdir ≠ t := Forest.root_ne_table wrapped.books.apart root named
  -- a is for later; it is nobody's now
  have run1 := run0.step (.pageAlloc false (pageAlloc_take acc false))
  have acc1 := takeFree_books acc false
  have quiet1 := takeFree_quiet (lcr3 s pgdir) a false
  have ref1 : ((takeFree (lcr3 s pgdir) a false).pages pp).ppRef = 0 := by
    rw [takeFree_ref]
    exact wrapped.ref
  have entry1 : ∀ x j, (takeFree (lcr3 s pgdir) a false).entry x j = s.entry x j := fun _ _ => rfl
  obtain ⟨s1, at_s1⟩ : ∃ s1, s1 = takeFree (lcr3 s pgdir) a false := ⟨_, rfl⟩
  rw [← at_s1] at run1 acc1 quiet1 ref1 entry1
  have absent : ∀ d : Fin userPdes, 64 ≤ d.val → ¬ Present (s.entry pgdir d) :=
    fun d above => (table_absent he).mp (wrapped.bare d above)
  have absent1 : ¬ Present (s1.entry pgdir (pdx (nth 65536))) := by
    rw [entry1, dir64]
    exact absent ⟨64, by decide⟩ (Nat.le_refl 64)
  have other1 : Managed s1 pp ∧ pp ∉ b :: rest := by
    refine ⟨(managed_quiet quiet1 pp).mpr wrapped.managed, ?_⟩
    simp only [List.mem_cons, not_or]
    exact ⟨pp_ne_b, pp_fresh⟩
  -- mapping pp once more, where it counts as unused, and taking that back frees it
  obtain ⟨s3, run3, list3, ref3, quiet', kept⟩ := there_and_back run1 he (by decide) acc1.list b_fresh
    (acc1.managed b (by simp)) acc1.room apart_b absent1 other1 ref1
  have quiet3 := quiet_trans quiet1 quiet'
  have entry3 : ∀ x j, x ≠ b → (x ≠ pgdir ∨ j ≠ 64) → s3.entry x j = s.entry x j := by
    intro x j other differ
    rw [kept x j other (dir64.symm ▸ differ), entry1]
  have npages3 := quiet3.npages
  have nextfree3 := quiet3.nextfree
  refine ⟨a, s3, rest, run3, quiet3.cr3, list3, pp_fresh, ref3,
    managed_same npages3 nextfree3 wrapped.managed, ?_, ?_, wrapped.apart, ?_, ?_⟩
  · refine ⟨managed_same npages3 nextfree3 (wrapped.books.managed a (by simp)), ?_⟩
    simp only [List.mem_cons, not_or]
    exact ⟨Ne.symm pp_ne_a, a_fresh⟩
  · rw [npages3]
    exact wrapped.books.room
  · refine ⟨t, t_ne_pp, Ne.symm apart_t, ?_, ?_, ?_⟩
    · rw [npages3]
      exact managed_t.1
    · rw [entry3 _ _ apart_b (Or.inr (by decide))]
      obtain ⟨present, page⟩ := (table_entry he).mp named
      exact entryPage_some.mpr ⟨present, page⟩
    · rw [entry3 _ _ t_busy.2.1 (Or.inl (Ne.symm apart_t))]
      exact leaf
  · intro d above user
    have differ : d ≠ 64 := by omega
    rw [entry3 _ _ apart_b (Or.inr differ)]
    exact absent ⟨d, user⟩ (Nat.le_trans (by decide) above)

end Stale

/-- With 65536 references to a page the TLB can keep a translation that is gone. -/
theorem tlb_goes_stale : ¬ ∀ dirs s, TlbRun smallMachine anyPage dirs s → Coherent s := by
  intro claim
  obtain ⟨pgdir, pp, s, fl, wrapped⟩ := wrapped_page
  obtain ⟨q, s1, fl1, loose⟩ := wrapped.loose
  obtain ⟨s2, hooked⟩ := loose.hooked
  obtain ⟨s3, run, stale⟩ := hooked.stale
  exact stale (claim _ s3 run)

end JosTlb
