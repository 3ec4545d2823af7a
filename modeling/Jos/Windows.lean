import Jos.PageOwners

/- What user code reads above UTOP: the PTSIZE bytes of physical memory from pages[] on and from
   envs[] on, which is more than the two arrays, and its own directory and page tables. -/
namespace JosWindows
open JosLayout FrameWords JosMachine JosPmap JosMmu JosEnv JosBoot JosAccounting JosPageOps
open JosMapping JosEnvSpace JosNewEnv JosRegions JosBootPages JosStaticMap JosKernelView JosPageRuns
open JosEnvTable JosDirRights JosUserMemRights JosUserStores JosLoading JosKernelRuns JosEnvFrames
open JosLoader JosPageOwners IntrusiveList Ledger TableForest CountedLoop

/-- The pages that PTSIZE bytes from a kernel address on lie in. -/
def PagesFrom (kva p : Nat) : Prop :=
  (kva - KERNBASE) / PGSIZE ≤ p ∧ p < (kva - KERNBASE) / PGSIZE + NPTENTRIES

instance (kva p : Nat) : Decidable (PagesFrom kva p) := inferInstanceAs (Decidable (_ ∧ _))

/-- What boot_map_region shows at UPAGES and at UENVS. -/
def InWindow (m : Machine) (p : Nat) : Prop := PagesFrom (pagesBase m) p ∨ PagesFrom (envsBase m) p

def MapsLow (s : State) (e : Fin NENV) (p : Nat) : Prop :=
  ∃ pgdir va t, (s.envs e).envPgdir = some pgdir ∧ va < UTOP ∧ walk s pgdir va = some t ∧
    Translation.page t = p

/-- region_alloc got the page for e, and of all environments e alone maps it below UTOP. -/
def OnlyFor (s : State) (got : Grants) (e : Fin NENV) (p : Nat) : Prop :=
  ⟨p, 0⟩ ∈ got e ∧ MapsLow s e p ∧ ∀ f : Fin NENV, f ≠ e → Live s f → ¬ MapsLow s f p

def Confidential (s : State) (got : Grants) : Prop :=
  ∀ a b : Fin NENV, a ≠ b → Live s a → Live s b → ∀ pgdir, (s.envs a).envPgdir = some pgdir →
    ∀ p, OnlyFor s got b p → ∀ va, va < WORD → ¬ userReadable s pgdir va p

def NoneShown (m : Machine) (s : State) (got : Grants) : Prop :=
  ∀ a b : Fin NENV, a ≠ b → Live s a → Live s b → ∀ p, OnlyFor s got b p → ¬ InWindow m p

section Reads
variable {m : Machine} {s : State} {got : Grants} {a b e : Fin NENV} {pgdir va p : Nat}

theorem bootPte_user (user : UserBit (bootPte m va)) : InWindow m (ppn (bootPte m va)) := by
  have kernel : ∀ q, ¬ UserBit (mapEntry q PTE_W) := by
    intro q
    unfold UserBit
    rw [mapEntry_and (by decide) (by decide)]
    decide
  obtain ⟨_, room1, _, room2, _, _⟩ := mapped_rooms m
  have entry := bootPte_entry m va
  split at entry
  · rw [entry] at user
    exact absurd user (kernel _)
  · split at entry
    · rw [entry] at user
      exact absurd user (kernel _)
    · split at entry
      · rename_i inside
        have room : (envsBase m - KERNBASE) / PGSIZE + (vpn va - UENVS / PGSIZE) < 1048576 := by
          simp only [WORD, PGSIZE, NPTENTRIES] at *
          omega
        rw [entry, ppn_mapEntry room (by decide)]
        have few := Nat.sub_lt_left_of_lt_add inside.1 inside.2
        exact Or.inr ⟨Nat.le_add_right _ _, Nat.add_lt_add_left few _⟩
      · split at entry
        · rename_i inside
          have room : (pagesBase m - KERNBASE) / PGSIZE + (vpn va - UPAGES / PGSIZE) < 1048576 := by
            simp only [WORD, PGSIZE, NPTENTRIES] at *
            omega
          rw [entry, ppn_mapEntry room (by decide)]
          have few := Nat.sub_lt_left_of_lt_add inside.1 inside.2
          exact Or.inl ⟨Nat.le_add_right _ _, Nat.add_lt_add_left few _⟩
        · rw [entry] at user
          exact absurd user (by decide)

theorem window_address {base k : Nat} (window : base = UPAGES ∨ base = UENVS) (small : k < NPTENTRIES) :
    UTOP ≤ (base / PGSIZE + k) * PGSIZE ∧ (base / PGSIZE + k) * PGSIZE < WORD ∧
      StaticPde (pdx ((base / PGSIZE + k) * PGSIZE)) ∧
      vpn ((base / PGSIZE + k) * PGSIZE) = base / PGSIZE + k ∧
      base / PGSIZE + k + 8 < KERNBASE / PGSIZE := by
  unfold StaticPde vpn
  rw [pdx_eq]
  simp only [userPdes, uvptPde, NPDENTRIES, WORD, UTOP, PGSIZE, UPAGES, UENVS, UVPT, ULIM,
    MMIOBASE, MMIOLIM, KSTACKTOP, KERNBASE, PTSIZE, NPTENTRIES] at *
  omega

theorem bootPte_window (shown : InWindow m p) :
    ∃ va, UTOP ≤ va ∧ va < WORD ∧ StaticPde (pdx va) ∧ p < 1048576 ∧
      bootPte m va = mapEntry p PTE_U := by
  obtain ⟨_, room1, _, room2, _, _⟩ := mapped_rooms m
  rcases shown with ⟨low, high⟩ | ⟨low, high⟩
  · obtain ⟨k, rfl⟩ := Nat.exists_eq_add_of_le low
    have small : k < NPTENTRIES := by omega
    obtain ⟨above, word, static, page, below⟩ := window_address (Or.inl rfl) small
    refine ⟨_, above, word, static, ?_, ?_⟩
    · simp only [WORD, PGSIZE, NPTENTRIES] at *
      omega
    · have later : ¬ (UENVS / PGSIZE ≤ UPAGES / PGSIZE + k ∧
          UPAGES / PGSIZE + k < UENVS / PGSIZE + NPTENTRIES) := by
        have order : UENVS / PGSIZE + NPTENTRIES = UPAGES / PGSIZE := by decide
        omega
      rw [bootPte_entry, page, if_neg (by omega), if_neg (by omega), if_neg later,
        if_pos ⟨Nat.le_add_right _ k, Nat.add_lt_add_left small _⟩, Nat.add_sub_cancel_left]
  · obtain ⟨k, rfl⟩ := Nat.exists_eq_add_of_le low
    have small : k < NPTENTRIES := by omega
    obtain ⟨above, word, static, page, below⟩ := window_address (Or.inr rfl) small
    refine ⟨_, above, word, static, ?_, ?_⟩
    · simp only [WORD, PGSIZE, NPTENTRIES] at *
      omega
    · rw [bootPte_entry, page, if_neg (by omega), if_neg (by omega),
        if_pos ⟨Nat.le_add_right _ k, Nat.add_lt_add_left small _⟩, Nat.add_sub_cancel_left]

theorem named_table (view : View m (dirsOf s) s) (he : dirsOf s e = some pgdir) {d : Nat}
    (slot : d < NPDENTRIES) (present : Present (s.entry pgdir d)) :
    TablePage (dirsOf s) s (ppn (s.entry pgdir d)) := by
  obtain ⟨fl, acc⟩ := view.kept.books
  by_cases user : d < userPdes
  · exact Or.inl (Or.inr ⟨e, ⟨d, user⟩, (table_entry he).mpr ⟨present, rfl⟩⟩)
  · by_cases self : d = uvptPde
    · rw [self, (view.shaped e pgdir he).uvpt,
        ppn_mapEntry (managed_room acc (root_managed acc he)) (by decide)]
      exact Or.inl (Or.inl ⟨e, he⟩)
    · have static : StaticPde d := ⟨Nat.le_of_not_lt user, slot, self⟩
      rw [(view.shaped e pgdir he).high d static] at present ⊢
      exact Or.inr (Or.inr ⟨d, static, entryPage_some.mpr ⟨present, rfl⟩⟩)

theorem reads_above (inv : KernelInv m s) (he : dirsOf s e = some pgdir) (above : UTOP ≤ va)
    (word : va < WORD) (reads : userReadable s pgdir va p) :
    InWindow m p ∨ ∃ d, d < NPDENTRIES ∧ Present (s.entry pgdir d) ∧ ppn (s.entry pgdir d) = p := by
  have view := inv.tidy.view
  obtain ⟨t, walked, user, page⟩ := reads
  rcases high_slot above word with static | self
  · left
    obtain ⟨_, _, pte⟩ := walk_static view he static walked
    rw [inv.mapped va static] at pte
    rw [← page, Translation.page, pte]
    apply bootPte_user
    rw [← pte]
    exact user.2
  · right
    obtain ⟨fl, acc⟩ := view.kept.books
    obtain ⟨_, pte, rfl⟩ := walk_some.mp walked
    have named : ppn (s.entry pgdir (pdx va)) = pgdir := by
      rw [self, (view.shaped e pgdir he).uvpt]
      exact ppn_mapEntry (managed_room acc (root_managed acc he)) (by decide)
    rw [named] at pte
    refine ⟨ptx va, ptx_lt va, pte, ?_⟩
    rw [← page, Translation.page]
    dsimp only
    rw [named]

theorem window_readable (inv : KernelInv m s) (he : dirsOf s e = some pgdir) (shown : InWindow m p) :
    ∃ va, va < WORD ∧ userReadable s pgdir va p := by
  have view := inv.tidy.view
  obtain ⟨va, _, word, static, room, entry⟩ := bootPte_window shown
  have mapped := inv.mapped va static
  rw [entry] at mapped
  have shows : Present (mapEntry p PTE_U) := present_mapEntry (by decide)
  have present : Present (s.entry s.kernPgdir (pdx va)) := by
    by_cases present : Present (s.entry s.kernPgdir (pdx va))
    · exact present
    · unfold kernPte at mapped
      rw [if_neg present] at mapped
      rw [← mapped] at shows
      exact absurd shows (by decide)
  unfold kernPte at mapped
  rw [if_pos present] at mapped
  have same := (view.shaped e pgdir he).high (pdx va) static
  refine ⟨va, word, _, walk_some.mpr ⟨?_, ?_, rfl⟩, ⟨?_, ?_⟩, ?_⟩
  · rw [same]
    exact present
  · rw [same, mapped]
    exact shows
  · dsimp only
    rw [same]
    exact (view.grants _ static present).1
  · dsimp only
    rw [same, mapped]
    unfold UserBit
    rw [mapEntry_and (by decide) (by decide)]
    decide
  · unfold Translation.page
    dsimp only
    rw [same, mapped]
    exact ppn_mapEntry room (by decide)

theorem mapsLow_leaf (he : dirsOf s e = some pgdir) :
    MapsLow s e p ↔ ∃ d i, target (dirsOf s) none s (.leaf e d i) = some p := by
  obtain ⟨_, dir⟩ := dirsOf_some.mp he
  constructor
  · intro maps
    obtain ⟨pgdir', va, t, dir', below, walked, page⟩ := maps
    obtain rfl : pgdir = pgdir' := Option.some.inj (dir.symm.trans dir')
    have held := walk_page (s := s) he (user_slot below)
    rw [walked, Option.map_some, page] at held
    exact ⟨_, _, held.symm⟩
  · intro maps
    obtain ⟨d, i, held⟩ := maps
    obtain ⟨below, slot⟩ := leaf_address e d i
    have page := walk_page (s := s) he (user_slot below)
    rw [slot, held] at page
    obtain ⟨t, walked, named⟩ := Option.map_eq_some_iff.mp page
    exact ⟨pgdir, _, t, dir, below, walked, named⟩

/-- A page of another environment is readable exactly when it lies in a window. -/
theorem readable_iff (inv : KernelInv m s) (other : a ≠ b) (ha : dirsOf s a = some pgdir)
    (only : OnlyFor s got b p) (live : Live s b) :
    (∃ va, va < WORD ∧ userReadable s pgdir va p) ↔ InWindow m p := by
  obtain ⟨_, maps, alone⟩ := only
  obtain ⟨live_a, dir⟩ := dirsOf_some.mp ha
  constructor
  · intro reads
    obtain ⟨va, word, reads⟩ := reads
    by_cases below : va < UTOP
    · obtain ⟨t, walked, _, page⟩ := reads
      exact absurd ⟨pgdir, va, t, dir, below, walked, page⟩ (alone a other live_a)
    · rcases reads_above inv ha (Nat.le_of_not_lt below) word reads with shown | ⟨d, slot, present, named⟩
      · exact shown
      · obtain ⟨pgdir_b, hb⟩ := inv.dir live
        obtain ⟨d', i, held⟩ := (mapsLow_leaf hb).mp maps
        have table := named_table inv.tidy.view ha slot present
        rw [named] at table
        exact absurd table (inv.tidy.plain held)
  · exact window_readable inv ha

end Reads

def wideImage : Binary := oneHeader 1 0x100 0x1000 0 0xA0000 fun _ => 0

theorem wideImage_wellFormed : WellFormed wideImage :=
  oneSegment_wellFormed (by decide) (by decide) (by decide) (by decide) (by decide) (by decide)

theorem wideImage_touched : Finset.Ico 1 161 ⊆ touched wideImage ∧
    (touched wideImage).card + (tablesOf (touched wideImage)).card ≤ 322 := by
  have count : wideImage.ePhnum = 1 := by decide
  have first : pagesOf (wideImage.pVa (wideImage.ph 0)) (wideImage.pMemsz (wideImage.ph 0)) =
      Finset.Ico 1 161 := by
    have va : wideImage.pVa (wideImage.ph 0) = 0x1000 := by decide
    have len : wideImage.pMemsz (wideImage.ph 0) = 0xA0000 := by decide
    rw [va, len]
    rfl
  have pages : touched wideImage = insert stackPage (Finset.Ico 1 161) := by
    unfold touched
    rw [count, segmentPages_succ, first]
    simp [segmentPages]
  have few : (touched wideImage).card ≤ 161 := by
    rw [pages]
    have one_more := Finset.card_insert_le stackPage (Finset.Ico 1 161)
    rwa [Nat.card_Ico] at one_more
  have tables : (tablesOf (touched wideImage)).card ≤ (touched wideImage).card :=
    Finset.card_image_le
  constructor
  · rw [pages]
    exact Finset.subset_insert _ _
  · omega

section Leak
variable {s : State} {got : Grants} {fl : List Nat} {e : Fin NENV}

theorem extended_shown (inv : KernelInv smallMachine s) {p : Nat} (managed : Managed s p)
    (extended : 160 ≤ p) : InWindow smallMachine p := by
  obtain ⟨inside, unused⟩ := managed
  rw [inv.npages] at inside
  rw [inv.nextfree] at unused
  have top : kernelPages (bootEnd smallMachine) = 413 := by decide
  have base : (pagesBase smallMachine - KERNBASE) / PGSIZE = 387 := by decide
  have memory : smallMachine.npages = 1024 := rfl
  unfold bootPage at unused
  left
  unfold PagesFrom
  rw [base]
  simp only [top, memory, IOPHYSMEM, EXTPHYSMEM, PGSIZE, NPTENTRIES] at *
  omega

theorem wideImage_shown (inv : KernelInv smallMachine s) {s0 : State}
    (created : Created s0 fl wideImage e s) :
    ∃ d i p, target (dirsOf s) none s (.leaf e d i) = some p ∧ InWindow smallMachine p := by
  obtain ⟨_, acc⟩ := inv.tidy.view.kept.books
  have low : ∀ n ∈ Finset.Ico 1 161, n < UTOP / PGSIZE := by
    intro n member
    have top : 161 ≤ UTOP / PGSIZE := by decide
    have bound := (Finset.mem_Ico.mp member).2
    omega
  have mapped : ∀ n, ∃ p, ∀ member : n ∈ Finset.Ico 1 161,
      target (dirsOf s) none s (pageSlot e n (low n member)) = some p := by
    intro n
    by_cases member : n ∈ Finset.Ico 1 161
    · have there := created.pages n (low n member) (wideImage_touched.1 member)
      obtain ⟨p, held⟩ := Option.ne_none_iff_exists'.mp there
      exact ⟨p, fun _ => held⟩
    · exact ⟨0, fun never => absurd never member⟩
  choose page held using mapped
  by_contra hidden
  have below : ∀ n ∈ Finset.Ico 1 161, page n ∈ Finset.Ico 1 160 := by
    intro n member
    have managed := acc.targets _ _ (held n member)
    rw [Finset.mem_Ico]
    constructor
    · have used : page n ≠ 0 := fun zero => managed.2 (Or.inl zero)
      omega
    · by_contra extended
      exact hidden ⟨_, _, page n, held n member, extended_shown inv managed (by omega)⟩
  have fewer : (Finset.Ico 1 160).card < (Finset.Ico 1 161).card := by
    rw [Nat.card_Ico, Nat.card_Ico]
    decide
  obtain ⟨j, member_j, k, member_k, differ, same⟩ :=
    Finset.exists_ne_map_eq_of_card_lt_of_maps_to fewer below
  have held_j := held j member_j
  rw [same] at held_j
  have slots := inv.tidy.unique held_j (held k member_k)
  exact differ ((pageSlot_inj _ _).mp slots)

theorem two_envs : ∃ s got, History smallMachine s got ∧ ∃ (a b : Fin NENV) (p : Nat), a ≠ b ∧
    Live s a ∧ Live s b ∧ OnlyFor s got b p ∧ InWindow smallMachine p := by
  obtain ⟨s0, fl, s1, a, got1, idle, long, history1, created1⟩ := first_created
  have cost : (touched smallImage).card + (tablesOf (touched smallImage)).card = 5 := by decide
  obtain ⟨fl1, acc1, paid⟩ := created1.books
  -- a second slot is still free
  obtain ⟨f, apart⟩ : ∃ f : Fin NENV, f ≠ a := by
    by_cases first : (0 : Fin NENV) = a
    · exact ⟨1, fun here => absurd (first.trans here.symm) (by decide)⟩
    · exact ⟨0, first⟩
  have free1 : (s1.envs f).envStatus = ENV_FREE :=
    (created1.free f fun same => apart (Fin.ext same)).mpr (idle f)
  have wide := wideImage_touched.2
  obtain ⟨b, s2, got2, history2, created2⟩ := create_env history1 acc1 f.isLt free1
    wideImage_wellFormed (by omega)
  have inv2 := history_inv history2
  obtain ⟨d, i, p, held, shown⟩ := wideImage_shown inv2 created2
  obtain ⟨pgdir1, ha1⟩ := (history_inv history1).dir created1.live
  have other : a ≠ b := by
    intro same
    subst same
    have vacant := created2.slot
    rw [ha1] at vacant
    cases vacant
  have ha : dirsOf s2 a = some pgdir1 := by
    rw [created2.others a other]
    exact ha1
  obtain ⟨pgdir2, hb⟩ := inv2.dir created2.live
  have alone := own_alone inv2 (history_owned history2) held
  refine ⟨s2, got2, history2, a, b, p, other, (dirsOf_some.mp ha).1, created2.live, ?_, shown⟩
  refine ⟨alone.granted, (mapsLow_leaf hb).mpr ⟨d, i, held⟩, ?_⟩
  intro g elsewhere live maps
  obtain ⟨pgdir, va, t, dir, below, walked, page⟩ := maps
  exact alone.unshared g pgdir va t elsewhere live dir below walked page

end Leak

/-- Environments are confidential exactly in the states in which no page of theirs lies among the
    PTSIZE bytes from pages[] on or from envs[] on. -/
theorem confidential_iff {m : Machine} {s : State} {got : Grants} (history : History m s got) :
    Confidential s got ↔ NoneShown m s got := by
  have inv := history_inv history
  constructor
  · intro hidden a b other live_a live_b p only shown
    obtain ⟨pgdir, ha⟩ := inv.dir live_a
    obtain ⟨va, word, reads⟩ := (readable_iff inv other ha only live_b).mpr shown
    exact hidden a b other live_a live_b pgdir (dirsOf_some.mp ha).2 p only va word reads
  · intro none_shown a b other live_a live_b pgdir dir p only va word reads
    have ha : dirsOf s a = some pgdir := dirsOf_some.mpr ⟨live_a, dir⟩
    have shown := (readable_iff inv other ha only live_b).mp ⟨va, word, reads⟩
    exact none_shown a b other live_a live_b p only shown

theorem confidential_iff_smallMachine : ∃ s got, (∃ (a b : Fin NENV) (p : Nat), a ≠ b ∧
    Live s a ∧ Live s b ∧ OnlyFor s got b p) ∧ (Confidential s got ↔ NoneShown smallMachine s got) := by
  obtain ⟨s, got, history, a, b, p, other, live_a, live_b, only, _⟩ := two_envs
  exact ⟨s, got, ⟨a, b, p, other, live_a, live_b, only⟩, confidential_iff history⟩

/-- On a small machine the first of two environments reads a page of the second. -/
theorem window_leaks : ¬ ∀ s got, History smallMachine s got → Confidential s got := by
  intro claim
  obtain ⟨s, got, history, a, b, p, other, live_a, live_b, only, shown⟩ := two_envs
  have inv := history_inv history
  obtain ⟨pgdir, ha⟩ := inv.dir live_a
  obtain ⟨va, word, reads⟩ := window_readable inv ha shown
  exact claim s got history a b other live_a live_b pgdir (dirsOf_some.mp ha).2 p only va word reads

end JosWindows
