import Jos.PageRuns

/- pp_ref has 16 bits and page_insert does not look at it before counting. A page mapped 65536
   times has a count of 0; without that, no mapped page can be freed. -/
namespace JosRefWrap
open JosLayout FrameWords JosMachine JosPmap JosMmu JosEnv JosBoot JosAccounting JosPageOps
open JosMapping JosEnvSpace JosNewEnv JosRegions JosBootPages JosPageRuns IntrusiveList Ledger TableForest
open CountedLoop

def mappedAt (dirs : Dirs) (s : State) (e : Fin NENV) (va : Nat) : Option Nat :=
  (dirs e).bind fun pgdir => (walk s pgdir va).map Translation.page

/-- There is neither a page table for va nor a page for one, so that page_insert returns -E_NO_MEM. -/
def noTable (dirs : Dirs) (s : State) (e : Fin NENV) (va : Nat) : Prop :=
  s.pageFreeList = none ∧ ∀ pgdir, dirs e = some pgdir → ¬ Present (s.entry pgdir (pdx va))

/-- page_insert is called with room for one more reference, or to map a page over itself, or in vain. -/
def countRoom (dirs : Dirs) (s : State) (e : Fin NENV) (pp va : Nat) : Prop :=
  (s.pages pp).ppRef ≠ 65535 ∨ mappedAt dirs s e va = some pp ∨ noTable dirs s e va

structure NoWrap (dirs : Dirs) (s : State) : Prop where
  freed : ∀ p, OnFreeList s p → pteRefs dirs s p = 0
  counted : ∀ p, pteRefs dirs s p ≠ 0 → (s.pages p).ppRef ≠ 0

section Runs
variable {dirs dirs' : Dirs} {s s' : State} {fl : List Nat}

theorem mappedAt_target {e : Fin NENV} {va : Nat} (user : pdx va < userPdes) :
    mappedAt dirs s e va = target dirs none s (leafSlot e va user) := by
  have same : userPage dirs s e ⟨pdx va, user⟩ ⟨ptx va, ptx_lt va⟩ =
      target dirs none s (leafSlot e va user) :=
    userPage_target e ⟨pdx va, user⟩ ⟨ptx va, ptx_lt va⟩
  rw [← same]
  unfold mappedAt userPage walk
  have d_lt : pdx va < 1024 := pdx_lt va
  rw [pdx_pgaddr d_lt (ptx_lt va), ptx_pgaddr (ptx_lt va)]

theorem noTable_absent {e : Fin NENV} {va : Nat} (acc : Accounted dirs none s fl)
    (user : pdx va < userPdes) (nothing : noTable dirs s e va) :
    fl = [] ∧ target dirs none s (.table e ⟨pdx va, user⟩) = none := by
  obtain ⟨full, absent⟩ := nothing
  have list := acc.list
  unfold FreeList at list
  rw [full, chain_none] at list
  refine ⟨list, ?_⟩
  cases he : dirs e with
  | none =>
    change (dirs e).bind _ = none
    rw [he]
    rfl
  | some pgdir => exact (table_absent he).mpr (absent pgdir he)

theorem step_bounded (kept : Kept dirs s) (step : Step countRoom dirs s dirs' s') :
    Bounded dirs' none s' := by
  cases step with
  | call call =>
    obtain ⟨fl, acc⟩ := kept.books
    obtain ⟨fl', stepped⟩ := call_stepped acc kept.bounded kept.known call
    intro q
    have before := kept.bounded q
    rcases stepped.count q with fewer | few | ⟨one_more, e, va, user, may, managed, elsewhere, tabled⟩
    · omega
    · omega
    · rcases may with room | there | nothing
      · have counted := acc.counts q managed
        have full : refs (target dirs none s) q ≠ 65535 := by
          intro same
          rw [same] at counted
          exact room counted
        omega
      · rw [mappedAt_target user] at there
        exact absurd there elsewhere
      · obtain ⟨full, absent⟩ := noTable_absent acc user nothing
        exact (tabled.elim (fun some_left => some_left full) fun present => present absent).elim
  | regionAlloc he below run => exact (regionAlloc_kept kept he below run).1.bounded

theorem room_kept {m : Machine} (reached : Reached m countRoom (fun _ _ => True) dirs s) :
    Kept dirs s := by
  induction reached with
  | pageInit run => exact pageInit_kept run
  | memInit run => exact memInit_kept run
  | step _ step _ ih => exact step_kept ih step (step_bounded ih step)

theorem kept_noWrap (kept : Kept dirs s) : NoWrap dirs s := by
  obtain ⟨fl, acc⟩ := kept.books
  constructor
  · intro p listed
    rw [onFreeList_iff acc.list] at listed
    have none_left := free_refs acc listed
    rw [← references_eq] at none_left
    unfold references at none_left
    omega
  · intro p mapped zero
    have total := references_eq dirs s p
    have positive : 0 < refs (target dirs none s) p := by
      unfold references at total
      omega
    obtain ⟨x, held⟩ := refs_pos.mp positive
    rw [acc.counts p (acc.targets x p held), count_zero (kept.bounded p)] at zero
    omega

theorem pteRefs_of_leaf {e : Fin NENV} {d : Fin userPdes} {i : Fin NPTENTRIES} {p : Nat}
    (held : target dirs none s (.leaf e d i) = some p) : pteRefs dirs s p ≠ 0 := by
  rw [← userPage_target] at held
  unfold pteRefs
  apply Finset.card_ne_zero_of_mem (a := (e, d, i))
  simp only [Finset.mem_filter, Finset.mem_univ, true_and]
  exact held

end Runs

theorem no_ref_wrap {m : Machine} {dirs : Dirs} {s : State}
    (reached : Reached m countRoom (fun _ _ => True) dirs s) : NoWrap dirs s :=
  kept_noWrap (room_kept reached)

theorem countRoom_unused {dirs : Dirs} {s : State} {e : Fin NENV} {p va : Nat}
    (unused : (s.pages p).ppRef = 0) : countRoom dirs s e p va := by
  left
  rw [unused]
  decide

theorem no_ref_wrap_smallMachine : ∃ pgdir pp s, NoWrap (oneDir pgdir) s ∧
    userPage (oneDir pgdir) s 0 ⟨0, by decide⟩ ⟨0, by decide⟩ = some pp := by
  obtain ⟨pgdir, pp, s, fl, one⟩ := onePage_run
  exact ⟨pgdir, pp, s, no_ref_wrap (one.reached countRoom (fun _ _ => True)
    (fun _ _ _ _ _ unused => countRoom_unused unused) fun _ _ _ => trivial), one.mapped⟩

section Wrapping
variable {m : Machine} {s s' : State} {fl fl' : List Nat} {pgdir pp k : Nat}

def nth (k : Nat) : Nat := k * PGSIZE

theorem nth_pdx (k : Nat) : pdx (nth k) = k / 1024 % 1024 := by
  rw [pdx_eq]
  simp only [nth, PGSIZE]
  omega

theorem nth_user (small : k < 65536) : pdx (nth k) < userPdes := by
  rw [nth_pdx]
  simp only [userPdes]
  omega

theorem nth_ptx (k : Nat) : ptx (nth k) = k % 1024 := by
  rw [ptx_eq]
  simp only [nth, PGSIZE]
  omega

/-- Environment 0 maps pp at its first k pages, and nothing after. -/
structure Filled (m : Machine) (pgdir pp k : Nat) (s : State) (fl : List Nat) : Prop where
  reached : Reached m anyPage (fun _ _ => True) (oneDir pgdir) s
  books : Accounted (oneDir pgdir) none s fl
  managed : Managed s pp
  busy : pp ∉ fl
  count : refs (target (oneDir pgdir) none s) pp = k
  others : ∀ q, q ≠ pp →
    refs (target (oneDir pgdir) none s) q ≤ 1
  empty : ∀ j (small : j < 65536), k ≤ j →
    target (oneDir pgdir) none s (leafSlot 0 (nth j) (nth_user small)) = none
  last : ∀ j (small : j < 65536), k = j + 1 →
    target (oneDir pgdir) none s (leafSlot 0 (nth j) (nth_user small)) = some pp
  tables : ∀ d : Fin userPdes, d.val * 1024 < k → target (oneDir pgdir) none s (.table 0 d) ≠ none
  budget : 500 ≤ fl.length + (k + 1023) / 1024

theorem Filled.bounded (filled : Filled m pgdir pp k s fl) (small : k < 65536) :
    Bounded (oneDir pgdir) none s := by
  intro q
  by_cases same : q = pp
  · rw [same, filled.count]
    exact small
  · have few := filled.others q same
    omega

theorem nth_low (small : k < 65536) : nth k < UTOP := by
  simp only [nth, PGSIZE, UTOP, UENVS, UPAGES, UVPT, ULIM, MMIOBASE, MMIOLIM, KSTACKTOP,
    KERNBASE, PTSIZE, NPTENTRIES]
  omega

/-- page_insert of pp at page k, through the state s1 in which there is a page table for it. -/
structure OneMore (pgdir pp k : Nat) (user : pdx (nth k) < userPdes) (s : State) (fl : List Nat) (t : Nat)
    (s1 : State) (fl1 : List Nat) (s' : State) (fl' : List Nat) : Prop where
  walked : Walked (oneDir pgdir) none 0 ⟨pdx (nth k), user⟩ pgdir s fl t s1 fl1
  inserted : Inserted (oneDir pgdir) 0 ⟨pdx (nth k), user⟩ ⟨ptx (nth k), ptx_lt (nth k)⟩ pgdir pp PTE_U s t s1
    fl1 s' fl'
  run : pageInsert s pgdir pp (nth k) PTE_U = .ok (0, s')

theorem Filled.more (filled : Filled m pgdir pp k s fl) (small : k < 65536) :
    ∃ t s1 fl1 s' fl', OneMore pgdir pp k (nth_user small) s fl t s1 fl1 s' fl' := by
  rcases pageInsert_spec filled.books (filled.bounded small) (oneDir_self pgdir) (nth_user small) filled.managed
    filled.busy (show PTE_U < 4096 by decide) with ⟨_, full, _⟩ | ⟨t, s1, fl1, s', fl', walked, done, inserted⟩
  · have budget := filled.budget
    rw [full, List.length_nil] at budget
    omega
  · exact ⟨t, s1, fl1, s', fl', walked, inserted, done⟩

section OneMore
variable {user : pdx (nth k) < userPdes} {t : Nat} {s1 : State} {fl1 : List Nat}

theorem OneMore.vacant (filled : Filled m pgdir pp k s fl) (small : k < 65536)
    (more : OneMore pgdir pp k user s fl t s1 fl1 s' fl') :
    target (oneDir pgdir) none s1 (leafSlot 0 (nth k) user) = none := by
  rw [more.walked.target_eq filled.books (oneDir_self pgdir), Function.update_of_ne (by simp)]
  exact filled.empty k small (Nat.le_refl k)

theorem OneMore.moved (filled : Filled m pgdir pp k s fl)
    (more : OneMore pgdir pp k user s fl t s1 fl1 s' fl') : target (oneDir pgdir) none s' =
      Function.update (target (oneDir pgdir) none s1) (leafSlot 0 (nth k) user) (some pp) := by
  rw [more.inserted.target_eq, more.walked.target_eq filled.books (oneDir_self pgdir)]

theorem OneMore.counts (filled : Filled m pgdir pp k s fl) (small : k < 65536)
    (more : OneMore pgdir pp k user s fl t s1 fl1 s' fl') (q : Nat) :
    refs (target (oneDir pgdir) none s') q =
      refs (target (oneDir pgdir) none s1) q + if pp = q then 1 else 0 := by
  rw [more.moved filled]
  exact refs_point (more.vacant filled small) pp q

theorem OneMore.list (filled : Filled m pgdir pp k s fl) (small : k < 65536)
    (more : OneMore pgdir pp k user s fl t s1 fl1 s' fl') : fl' = fl1 := by
  have nothing : target (oneDir pgdir) (some pp) s1 (leafSlot 0 (nth k) user) = none := by
    rw [target_hand (by simp) (oneDir pgdir) (some pp) none]
    exact more.vacant filled small
  rw [more.inserted.free_eq, unlink_empty nothing]

theorem OneMore.tables (more : OneMore pgdir pp k user s fl t s1 fl1 s' fl') (d : Fin userPdes) :
    target (oneDir pgdir) none s' (.table 0 d) =
      if d = ⟨pdx (nth k), user⟩ then some t else target (oneDir pgdir) none s (.table 0 d) := by
  rw [more.inserted.target_eq, Function.update_of_ne (by simp)]
  by_cases here : d = ⟨pdx (nth k), user⟩
  · rw [here, if_pos rfl, Function.update_self]
  · have other : (Slot.table 0 d : PageSlot) ≠ .table 0 ⟨pdx (nth k), user⟩ := by
      intro same
      exact here (Slot.table.inj same).2
    rw [if_neg here, Function.update_of_ne other]

theorem Filled.first (filled : Filled m pgdir pp k s fl) (small : k < 65536)
    (absent : target (oneDir pgdir) none s (.table 0 ⟨pdx (nth k), user⟩) = none) : k % 1024 = 0 := by
  have d_eq := nth_pdx k
  by_contra inside
  apply filled.tables ⟨pdx (nth k), user⟩ _ absent
  dsimp only
  omega

theorem Filled.next_others (filled : Filled m pgdir pp k s fl) (small : k < 65536)
    (more : OneMore pgdir pp k user s fl t s1 fl1 s' fl') :
    refs (target (oneDir pgdir) none s') pp = k + 1 ∧
      ∀ q, q ≠ pp → refs (target (oneDir pgdir) none s') q ≤ 1 := by
  have he := oneDir_self pgdir
  constructor
  · rw [more.counts filled small, if_pos rfl]
    rcases walked_refs filled.books he more.walked pp with same | ⟨listed, _⟩
    · rw [same, filled.count]
    · exact absurd listed filled.busy
  · intro q differ
    rw [more.counts filled small, if_neg (Ne.symm differ), Nat.add_zero]
    rcases walked_refs filled.books he more.walked q with same | ⟨_, one⟩
    · rw [same]
      exact filled.others q differ
    · exact Nat.le_of_eq one

theorem Filled.next_empty (filled : Filled m pgdir pp k s fl) (more : OneMore pgdir pp k user s fl t s1 fl1 s' fl')
    (j : Nat) (small : j < 65536) (after : k + 1 ≤ j) :
    target (oneDir pgdir) none s' (leafSlot 0 (nth j) (nth_user small)) = none := by
  have other : leafSlot 0 (nth j) (nth_user small) ≠ leafSlot 0 (nth k) user := by
    intro same
    simp only [leafSlot, Slot.leaf.injEq, Fin.mk.injEq, nth_pdx, nth_ptx, true_and] at same
    omega
  rw [more.moved filled, Function.update_of_ne other, more.walked.target_eq filled.books (oneDir_self pgdir),
    Function.update_of_ne (by simp)]
  exact filled.empty j small (by omega)

theorem Filled.next_budget (filled : Filled m pgdir pp k s fl) (small : k < 65536)
    (more : OneMore pgdir pp k user s fl t s1 fl1 s' fl') : 500 ≤ fl'.length + (k + 1 + 1023) / 1024 := by
  have budget := filled.budget
  rw [more.list filled small]
  rcases more.walked with ⟨_, _, rfl⟩ | ⟨absent, _, rfl⟩
  · omega
  · have first := filled.first small absent
    simp only [List.length_cons] at budget
    omega

end OneMore

/-- One mapping more makes at most the page table it needs. -/
theorem Filled.next (filled : Filled m pgdir pp k s fl) (small : k < 65536) :
    ∃ s' fl', Filled m pgdir pp (k + 1) s' fl' ∧
      ∀ (d : Fin userPdes) (t : Nat), target (oneDir pgdir) none s' (.table 0 d) = some t →
        target (oneDir pgdir) none s (.table 0 d) = some t ∨ d.val = k / 1024 ∧ t ≠ pp := by
  have d_eq := nth_pdx k
  obtain ⟨t, s1, fl1, s', fl', more⟩ := filled.more small
  have held : Allocated s pp := ⟨filled.managed, (onFreeList_iff filled.books.list).not.mpr filled.busy⟩
  have call : Step anyPage (oneDir pgdir) s (oneDir pgdir) s' :=
    .call (.pageInsert (oneDir_self pgdir) (nth_low small) held (by decide) trivial more.run)
  obtain ⟨count, others⟩ := filled.next_others small more
  refine ⟨s', fl', ⟨filled.reached.step call trivial, more.inserted.books,
    (managed_quiet more.inserted.quiet pp).mpr filled.managed, ?_, count, others, filled.next_empty more, ?_, ?_,
    filled.next_budget small more⟩, ?_⟩
  · rw [more.list filled small]
    exact fun listed => filled.busy (more.walked.subset listed)
  · intro j small_j same
    obtain rfl : k = j := by omega
    rw [more.moved filled, Function.update_self]
  · intro d before
    rw [more.tables]
    by_cases here : d = ⟨pdx (nth k), nth_user small⟩
    · rw [if_pos here]
      exact Option.some_ne_none t
    · have other : d.val ≠ pdx (nth k) := fun same => here (Fin.ext same)
      rw [if_neg here]
      exact filled.tables d (by omega)
  · intro d t' named
    rw [more.tables] at named
    by_cases here : d = ⟨pdx (nth k), nth_user small⟩
    · rw [if_pos here] at named
      cases named
      subst here
      rcases more.walked with ⟨before, _, _⟩ | ⟨_, _, listed⟩
      · exact Or.inl before
      · refine Or.inr ⟨by dsimp only; omega, ?_⟩
        rintro rfl
        exact filled.busy (by rw [listed]; exact List.mem_cons_self)
    · rw [if_neg here] at named
      exact Or.inl named

theorem filled_many (filled : Filled m pgdir pp 0 s fl)
    (bare : ∀ d, target (oneDir pgdir) none s (.table 0 d) = none) (small : k ≤ 65536) :
    ∃ s' fl', Filled m pgdir pp k s' fl' ∧
      ∀ (d : Fin userPdes) (t : Nat), target (oneDir pgdir) none s' (.table 0 d) = some t →
        d.val * 1024 < k ∧ t ≠ pp := by
  induction k with
  | zero =>
    refine ⟨s, fl, filled, ?_⟩
    intro d t named
    rw [bare d] at named
    cases named
  | succ k ih =>
    obtain ⟨s1, fl1, filled1, tables1⟩ := ih (by omega)
    obtain ⟨s2, fl2, filled2, tables2⟩ := filled1.next (by omega)
    refine ⟨s2, fl2, filled2, ?_⟩
    intro d t named
    rcases tables2 d t named with before | ⟨here, other⟩
    · obtain ⟨below, other⟩ := tables1 d t before
      exact ⟨by omega, other⟩
    · exact ⟨by omega, other⟩

theorem filled_start : ∃ pgdir pp s fl, Filled smallMachine pgdir pp 0 s fl ∧
    ∀ d, target (oneDir pgdir) none s (.table 0 d) = none := by
  obtain ⟨s0, fl0, run, booted, acc, all⟩ := memInitAlloc_fits smallMachine smallMachine_fits
  have listed : List.range' 413 611 ⊆ fl0 := by
    intro p within
    obtain ⟨low, high⟩ := List.mem_range'_1.mp within
    rw [all]
    unfold Managed
    rw [booted.npages, booted.nextfree]
    exact smallMachine_free low (by omega)
  have once : (List.range' 413 611).Nodup := List.nodup_range'
  have long := (once.subperm listed).length_le
  rw [List.length_range'] at long
  match fl0, acc, long with
  | p :: q :: rest, acc, long =>
    have reached0 : Reached smallMachine anyPage (fun _ _ => True) (fun _ => none) s0 :=
      .pageInit run
    obtain ⟨reached, taken, moved⟩ := dir_and_page (fun _ _ _ => trivial) reached0 acc
    have before : ∀ x, x ≠ .root 0 →
        target (oneDir p) none (takeFree (newDir s0 (0 : Fin NENV) p) q false) x =
          target (fun _ => none) none s0 x := by
      intro x other
      have at_x := congrFun moved x
      rwa [Function.update_of_ne other] at at_x
    have empty : target (fun _ => none) none s0 (.root 0) = none := rfl
    have counts : ∀ r, refs (target (oneDir p) none
        (takeFree (newDir s0 (0 : Fin NENV) p) q false)) r =
        refs (target (fun _ => none) none s0) r + if p = r then 1 else 0 := by
      intro r
      rw [← refs_point empty, ← moved]
    have few : ∀ r, refs (target (oneDir p) none
        (takeFree (newDir s0 (0 : Fin NENV) p) q false)) r ≤ 1 := by
      rw [moved]
      exact refs_point_le empty (free_refs acc (by simp)) (Nat.le_refl 1) (refs_without_envs acc)
    have fresh : p ≠ q ∧ q ∉ rest := by
      have once := acc.nodup
      simp only [List.nodup_cons, List.mem_cons, not_or] at once
      exact ⟨once.1.1, once.2.1⟩
    have no_tables : ∀ d, target (oneDir p) none (takeFree (newDir s0 (0 : Fin NENV) p) q false)
        (.table 0 d) = none := by
      intro d
      rw [before _ (by simp)]
      rfl
    refine ⟨p, q, _, rest, ⟨reached, taken, ?_, fresh.2, ?_, fun r _ => few r, ?_, ?_, ?_, ?_⟩,
      no_tables⟩
    · exact acc.managed q (by simp)
    · rw [counts, free_refs acc (by simp), if_neg fresh.1]
    · intro j small _
      rw [before _ (by simp)]
      rfl
    · intro j _ impossible
      exact absurd impossible.symm (Nat.succ_ne_zero j)
    · intro d impossible
      exact absurd impossible (Nat.not_lt_zero _)
    · simp only [List.length_cons] at long
      omega

/-- 65536 mappings of one page leave it with a count of 0. -/
theorem ref_wraps : ¬ ∀ dirs s, Reached smallMachine anyPage (fun _ _ => True) dirs s →
    NoWrap dirs s := by
  intro claim
  obtain ⟨pgdir, pp, s0, fl0, start, bare⟩ := filled_start
  obtain ⟨s, fl, filled, _⟩ := filled_many start bare (Nat.le_refl 65536)
  have count := filled.books.counts pp filled.managed
  rw [filled.count] at count
  apply (claim _ s filled.reached).counted pp _ count
  have mapped := filled.last 65535 (by decide) (by decide)
  exact pteRefs_of_leaf mapped

end Wrapping

end JosRefWrap
