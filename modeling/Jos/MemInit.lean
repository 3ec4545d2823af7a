import Jos.FreeListChecks
import Jos.InstalledChecks
import Jos.KernelChecks

/- mem_init with its self-checks, from power-on: when it returns, and that what it then leaves is
   what MemInit says. -/
namespace JosMemInit
open JosLayout FrameWords JosMachine JosPmap JosMmu JosBoot JosAccounting JosPageOps JosBootPages
open JosStaticMap JosPageListCheck JosSelfChecks JosPageChecks JosInstalledChecks JosKernelChecks
open JosFreeListChecks JosMapping JosKernelView IntrusiveList CountedLoop

section Checked
variable {m : Machine} {a b c s : State} {fl fl' : List Nat} {fuel : Nat}

theorem selfChecked_trans (first : SelfChecked a b) (second : SelfChecked b c) : SelfChecked a c := by
  refine ⟨?_, ?_, ?_, fun p => (second.counts p).trans (first.counts p),
    quiet_trans first.rest second.rest⟩
  · intro fl list
    obtain ⟨fl1, list1, perm1⟩ := first.reordered fl list
    obtain ⟨fl2, list2, perm2⟩ := second.reordered fl1 list1
    exact ⟨fl2, list2, perm1.trans perm2⟩
  · intro p fl list away
    obtain ⟨fl1, list1, perm1⟩ := first.reordered fl list
    rw [second.contents p fl1 list1 fun among => away (perm1.mem_iff.mpr among),
      first.contents p fl list away]
  · intro p fl list away
    obtain ⟨fl1, list1, perm1⟩ := first.reordered fl list
    rw [second.links p fl1 list1 fun among => away (perm1.mem_iff.mpr among),
      first.links p fl list away]

theorem checkable_of (acc : Accounted (fun _ => none) none s fl) (room : s.npages ≤ 65536)
    (bare : s.entry s.kernPgdir 0 = 0 ∧ s.entry s.kernPgdir 1 = 0) : Checkable s fl := by
  refine ⟨acc.list, acc.nodup, fun p listed => (acc.managed p listed).1, ?_,
    fun listed => acc.kernApart (acc.managed _ listed), by omega, bare⟩
  intro p listed
  rw [acc.counts p (acc.managed p listed), free_refs acc listed]
  rfl

theorem checkable_after (acc : Accounted (fun _ => none) none a fl) (room : a.npages ≤ 65536)
    (bare : a.entry a.kernPgdir 0 = 0 ∧ a.entry a.kernPgdir 1 = 0) (checked : SelfChecked a b)
    (list : FreeList b fl') : Checkable b fl' := by
  obtain ⟨xs, _, books, _, dir⟩ := selfChecked_books acc checked
  rw [chain_unique books.list list] at books
  have size : b.npages = a.npages := (show Quiet a b from checked.rest).npages
  refine checkable_of books (by omega) ?_
  rw [dir, dir]
  exact bare

theorem marked_of (mark : s.nextfree = bootEnd m) : Marked s := by
  obtain ⟨_, _, aligned, _, order, bound, last⟩ := layout_bounds m
  obtain ⟨_, low, _, _⟩ := kernTop_bounds m
  have machine := m.npages_le
  refine ⟨by rw [mark]; exact aligned, ?_, ?_⟩
  · rw [mark]
    simp only [pagesBase, KERNBASE, EXTPHYSMEM, PGSIZE] at *
    omega
  · rw [mark]
    simp only [KERNBASE, PTSIZE, PGSIZE, NPTENTRIES, WORD] at *
    omega

theorem marked_congr (marked : Marked a) (same : b.nextfree = a.nextfree) : Marked b := by
  obtain ⟨aligned, high, word⟩ := marked
  rw [← same] at aligned high word
  exact ⟨aligned, high, word⟩

end Checked

section Memory
variable (m : Machine)

def firstExtended : Nat := kernelPages (bootEnd m)

/-- Memory mem_init gets through with: some extended memory is free, and in a machine of at most 4MB
    it is more than what the 67 page tables take. -/
def Ample : Prop := Fits m ∧ firstExtended m < m.npages ∧
  (m.npages ≤ 1024 → firstExtended m + 67 < m.npages)

instance : Decidable (Ample m) := inferInstanceAs (Decidable (_ ∧ _ ∧ _))

theorem firstExtended_bounds (fits : Fits m) :
    256 < firstExtended m ∧ firstExtended m ≤ m.npages ∧ m.npages < 65536 := by
  obtain ⟨mark, above⟩ := marked_pages (marked_of (m := m) (s := { powerOn m with nextfree := bootEnd m }) rfl)
  have inside := fits.1
  change bootEnd m = firstExtended m * PGSIZE + KERNBASE at mark
  refine ⟨above, ?_, fits.2⟩
  simp only [PGSIZE, KERNBASE] at *
  omega

variable {m}

theorem free_pages (fits : Fits m) (p : Nat) : (p < m.npages ∧ ¬ bootPage (bootEnd m) p) ↔
    (1 ≤ p ∧ p < 160) ∨ (firstExtended m ≤ p ∧ p < m.npages) := by
  obtain ⟨low, inside, _⟩ := firstExtended_bounds m fits
  unfold bootPage
  change p < m.npages ∧ ¬ (_ ∨ _ ∨ _ ∧ p < firstExtended m) ↔ _
  simp only [IOPHYSMEM, EXTPHYSMEM, PGSIZE]
  omega

/-- What page_init leaves. -/
structure Opened (m : Machine) (a : State) (fl : List Nat) : Prop where
  booted : Booted m a
  books : Accounted (fun _ => none) none a fl
  pages : ∀ p, p ∈ fl ↔ (1 ≤ p ∧ p < 160) ∨ (firstExtended m ≤ p ∧ p < m.npages)
  falls : fl.Pairwise (· > ·)
  contents : ∀ p, p ≠ kernPage m → a.mem p = m.mem p

theorem memInitAlloc_opened (fits : Fits m) :
    ∃ a fl, memInitAlloc (powerOn m) = .ok a ∧ Opened m a fl := by
  obtain ⟨a, fl, run, booted, books, managed⟩ := memInitAlloc_fits m fits
  have run' := run
  rw [memInitAlloc_eq, if_pos fits] at run'
  obtain ⟨_, _, _, high, order, _, last⟩ := layout_bounds m
  have started : (allocated m).nextfree ≠ 0 := by
    change bootEnd m ≠ 0
    omega
  obtain ⟨⟨xs, list, falls⟩, mem⟩ := pageInit_falls started rfl run'
  rw [chain_unique list books.list] at falls
  have contents : ∀ p, p ≠ kernPage m → a.mem p = m.mem p := by
    intro p other
    rw [mem]
    simp [allocated, kernDirMade, State.setEntry, other, powerOn]
  refine ⟨a, fl, run, booted, books, ?_, falls, contents⟩
  intro p
  rw [managed, ← free_pages fits]
  unfold Managed
  rw [booted.npages, booted.nextfree]

end Memory

section Lists
variable {m : Machine} {a : State} {fl : List Nat}

theorem low_page (p : Nat) : pdx (page2pa p) < 1 ↔ p % 1048576 < 1024 := by
  rw [pdx_eq]
  simp only [page2pa, PGSIZE]
  omega

theorem below_1mb (p : Nat) : page2pa p < EXTPHYSMEM ↔ p < 256 := by
  simp only [page2pa, PGSIZE, EXTPHYSMEM]
  omega

theorem Opened.base_pages (opened : Opened m a fl) (fits : Fits m) :
    fl.countP (fun p => decide (p < 256)) = 159 := by
  obtain ⟨low, inside, _⟩ := firstExtended_bounds m fits
  refine @countP_range _ opened.books.nodup 1 160 _ fun p => ?_
  rw [opened.pages, decide_eq_true_iff]
  omega

theorem Opened.low_extended (opened : Opened m a fl) (fits : Fits m) :
    (fl.filter fun p => decide (pdx (page2pa p) < 1)).countP (fun p => decide (256 ≤ p)) =
      min m.npages 1024 - firstExtended m := by
  obtain ⟨low, inside, _⟩ := firstExtended_bounds m fits
  refine countP_range (opened.books.nodup.filter _) fun p => ?_
  rw [List.mem_filter, opened.pages, decide_eq_true_iff, decide_eq_true_iff, low_page]
  omega

theorem Opened.after_tables (opened : Opened m a fl) (fits : Fits m) :
    (∃ p ∈ (lowPagesFirst fl).drop 67, page2pa p < EXTPHYSMEM) ∧
      ((∃ p ∈ (lowPagesFirst fl).drop 67, ¬ page2pa p < EXTPHYSMEM) ↔ Ample m) := by
  obtain ⟨low, inside, small⟩ := firstExtended_bounds m fits
  have base := opened.base_pages fits
  rw [(lowPagesFirst_perm fl).countP_eq] at base
  have split := congrArg (List.countP fun p => decide (p < 256))
    (List.take_append_drop 67 (lowPagesFirst fl))
  rw [List.countP_append, base] at split
  have taken : ((lowPagesFirst fl).take 67).countP (fun p => decide (p < 256)) ≤ 67 :=
    Nat.le_trans List.countP_le_length (List.length_take_le _ _)
  constructor
  · have left : 0 < ((lowPagesFirst fl).drop 67).countP fun p => decide (p < 256) := by omega
    obtain ⟨p, listed, below⟩ := List.countP_pos_iff.mp left
    exact ⟨p, listed, (below_1mb p).mpr (of_decide_eq_true below)⟩
  · have first_part : 67 ≤ (fl.filter fun p => decide (pdx (page2pa p) < 1)).length := by
      have count : (fl.filter fun p => decide (pdx (page2pa p) < 1)).countP
          (fun p => decide (p < 256)) = 160 - 1 := by
        refine countP_range (opened.books.nodup.filter _) fun p => ?_
        rw [List.mem_filter, opened.pages, decide_eq_true_iff, decide_eq_true_iff, low_page]
        omega
      have bound := List.countP_le_length (p := fun p => decide (p < 256))
        (l := fl.filter fun p => decide (pdx (page2pa p) < 1))
      omega
    have reaches := drop_reaches (opened.falls.filter fun p => decide (pdx (page2pa p) < 1)) 67 256
    rw [opened.low_extended fits] at reaches
    unfold lowPagesFirst
    rw [List.drop_append_of_le_length first_part]
    have sides : (∃ p ∈ (fl.filter fun p => decide (pdx (page2pa p) < 1)).drop 67 ++
        fl.filter fun p => !decide (pdx (page2pa p) < 1), ¬ page2pa p < EXTPHYSMEM) ↔
        67 < min m.npages 1024 - firstExtended m ∨ max (firstExtended m) 1024 < m.npages := by
      rw [← reaches]
      constructor
      · rintro ⟨p, listed, high⟩
        rw [below_1mb] at high
        rcases List.mem_append.mp listed with early | late
        · exact Or.inl ⟨p, early, by omega⟩
        · have both := List.mem_filter.mp late
          rw [opened.pages, ← decide_not, decide_eq_true_iff, low_page] at both
          exact Or.inr (by omega)
      · rintro (⟨p, early, high⟩ | room)
        · exact ⟨p, List.mem_append_left _ early, by rw [below_1mb]; omega⟩
        · refine ⟨m.npages - 1, List.mem_append_right _ (List.mem_filter.mpr ⟨?_, ?_⟩), ?_⟩
          · rw [opened.pages]
            omega
          · rw [← decide_not, decide_eq_true_iff, low_page]
            omega
          · rw [below_1mb]
            omega
    rw [sides]
    unfold Ample
    constructor
    · intro room
      exact ⟨fits, by omega, by omega⟩
    · rintro ⟨_, room, more⟩
      omega

theorem Opened.before_tables (opened : Opened m a fl) (fits : Fits m) :
    (∃ p ∈ fl, page2pa p < EXTPHYSMEM) ∧
      ((∃ p ∈ fl, ¬ page2pa p < EXTPHYSMEM) ↔ firstExtended m < m.npages) := by
  obtain ⟨low, inside, _⟩ := firstExtended_bounds m fits
  constructor
  · exact ⟨1, (opened.pages 1).mpr (by omega), (below_1mb 1).mpr (by omega)⟩
  · constructor
    · rintro ⟨p, listed, high⟩
      rw [opened.pages] at listed
      rw [below_1mb] at high
      omega
    · intro room
      refine ⟨firstExtended m, (opened.pages _).mpr (by omega), ?_⟩
      rw [below_1mb]
      omega

end Lists

section Run
variable {m : Machine} {a : State} {fl : List Nat} {fuel : Nat}

theorem orCheck_ok {α : Type} (x : α) : orCheck (.ok x) = .ok x := rfl

theorem checkPageAlloc_ok {s : State} {t p1 p2 : Nat} {rest : List Nat}
    (start : Checkable s (t :: p1 :: p2 :: rest)) (built : s.pagesKva ≠ 0)
    (enough : (t :: p1 :: p2 :: rest).length < fuel) :
    ∃ s', checkPageAlloc fuel s = .ok s' ∧ FreeList s' (t :: p1 :: p2 :: rest) ∧
      GivenBack s s' [t, p1, p2] := by
  obtain ⟨s', run, list, checked⟩ := checkPageAllocPages_ok start
  refine ⟨s', ?_, list, checked⟩
  unfold checkPageAlloc
  rw [if_neg built, countFree_ok start.list enough, ok_bind, run, orPanic_value, ok_bind,
    countFree_ok list enough, ok_bind, assert_pos rfl, orPanic_value, ok_bind]
  rfl

/-- check_page_alloc passes on any allocator with three free pages to lend and leaves its free list
    as it was; a shorter list, or no pages[] yet, stops it. -/
theorem check_page_alloc_passes {s : State} {fl : List Nat} (start : Checkable s fl)
    (enough : fl.length < fuel) :
    (s.pagesKva ≠ 0 → 3 ≤ fl.length → ∃ s', checkPageAlloc fuel s = .ok s' ∧ FreeList s' fl ∧
      GivenBack s s' (fl.take 3)) ∧
    (s.pagesKva ≠ 0 → fl.length < 3 →
      checkPageAlloc fuel s = .error (.check (.panic .assertion))) ∧
    (s.pagesKva = 0 → checkPageAlloc fuel s = .error .nullPages) := by
  refine ⟨fun built long => ?_, fun built short => ?_, fun missing => if_pos missing⟩
  · match fl, start, long, enough with
    | t :: p1 :: p2 :: rest, start, _, enough => exact checkPageAlloc_ok start built enough
  · have none_lent : checkPageAllocPages s = .error .assertion := by
      unfold checkPageAllocPages
      rw [takeThree_short start.list start.nodup start.inside short]
      rfl
    unfold checkPageAlloc
    rw [if_neg built, countFree_ok start.list enough, ok_bind, none_lent]
    rfl

theorem check_page_alloc_passes_threeFree :
    ∃ s', checkPageAlloc 4 { threeFree with pagesKva := 0xF0183000 } = .ok s' ∧
      FreeList s' [1, 2, 3] ∧ GivenBack { threeFree with pagesKva := 0xF0183000 } s' [1, 2, 3] := by
  have start : Checkable { threeFree with pagesKva := 0xF0183000 } [1, 2, 3] :=
    { threeFree_checkable with }
  exact (check_page_alloc_passes start (by decide)).1 (by decide) (by decide)

theorem three_pages {fl : List Nat} (long : 3 ≤ fl.length) :
    ∃ t p1 p2 rest, fl = t :: p1 :: p2 :: rest := by
  match fl, long with
  | t :: p1 :: p2 :: rest, _ => exact ⟨t, p1, p2, rest, rfl⟩

theorem Opened.falling_head (opened : Opened m a fl) (fits : Fits m) :
    ∃ t p1 p2 rest, lowPagesFirst fl = t :: p1 :: p2 :: rest := by
  have base := opened.base_pages fits
  have long := List.countP_le_length (p := fun p => decide (p < 256)) (l := fl)
  have same := (lowPagesFirst_perm fl).length_eq
  exact three_pages (by omega)

theorem Opened.length (opened : Opened m a fl) (fits : Fits m) :
    159 ≤ fl.length ∧ fl.length < m.npages := by
  obtain ⟨low, inside, _⟩ := firstExtended_bounds m fits
  have base := opened.base_pages fits
  have long := List.countP_le_length (p := fun p => decide (p < 256)) (l := fl)
  refine ⟨by omega, ?_⟩
  have bound : fl.countP (fun _ => true) ≤ (List.range' 1 (m.npages - 1)).countP fun _ => true := by
    refine List.Subperm.countP_le _ (opened.books.nodup.subperm fun p listed => ?_)
    rw [opened.pages] at listed
    rw [List.mem_range'_1]
    omega
  simp only [List.countP_true, List.length_range'] at bound
  omega

theorem Opened.first_low (opened : Opened m a fl) (fits : Fits m) {p : Nat}
    (first : p ∈ (lowPagesFirst fl).take 67) : p < NPTENTRIES := by
  obtain ⟨low, inside, small⟩ := firstExtended_bounds m fits
  have many : 67 ≤ (fl.filter fun p => decide (pdx (page2pa p) < 1)).length := by
    have base := opened.base_pages fits
    rw [List.countP_eq_length_filter] at base
    have part : ((fl.filter fun p => decide (p < 256))).length ≤
        (fl.filter fun p => decide (pdx (page2pa p) < 1)).length := by
      rw [← List.countP_eq_length_filter, ← List.countP_eq_length_filter]
      refine List.countP_mono_left fun p _ below => ?_
      rw [decide_eq_true_iff] at below
      rw [decide_eq_true_iff, low_page]
      omega
    omega
  unfold lowPagesFirst at first
  rw [List.take_append_of_le_length many] at first
  obtain ⟨listed, below⟩ := List.mem_filter.mp (List.mem_of_mem_take first)
  rw [opened.pages] at listed
  rw [decide_eq_true_iff, low_page] at below
  simp only [NPTENTRIES]
  omega

theorem Opened.bare (opened : Opened m a fl) :
    a.entry a.kernPgdir 0 = 0 ∧ a.entry a.kernPgdir 1 = 0 := by
  rw [opened.booted.kernPgdir, opened.booted.dir, opened.booted.dir]
  exact ⟨if_neg (by decide), if_neg (by decide)⟩

theorem Opened.list_check (opened : Opened m a fl) (fits : Fits m) (enough : m.npages ≤ fuel)
    (pp12 : Bool → Option Nat) (room : firstExtended m < m.npages) :
    ∃ b, checkPageFreeList fuel pp12 a true = .ok b ∧ SelfChecked a b ∧ FreeList b (lowPagesFirst fl) ∧
      ∀ p, NPTENTRIES ≤ p → b.mem p = a.mem p := by
  obtain ⟨base, extended⟩ := opened.before_tables fits
  obtain ⟨long, short⟩ := opened.length fits
  have books := opened.books
  have few := Nat.lt_of_lt_of_le short enough
  have started : a.nextfree ≠ 0 := by
    have high := (marked_of opened.booted.nextfree).high
    omega
  have some_page : fl ≠ [] := by
    rintro rfl
    simp at long
  obtain ⟨b, outcome⟩ := checkPageFreeList_outcome (marked_of opened.booted.nextfree) books.list
    books.nodup books.managed some_page few pp12 true
  rw [if_pos ⟨base, extended.mpr room⟩] at outcome
  obtain ⟨list, _, busy, _⟩ := checkPageFreeList_ok books.list books.nodup few outcome
  rw [if_pos rfl] at list
  refine ⟨b, outcome, checkPageFreeList_selfChecked books.list books.nodup few started outcome, list, ?_⟩
  intro p high
  by_cases listed : p ∈ fl
  · have inside := (books.managed p listed).1
    have machine := m.npages_le
    have size := opened.booted.npages
    refine checkPageFreeList_spares books.list books.nodup few outcome ?_
    rw [low_page]
    simp only [NPTENTRIES] at high
    omega
  · exact (busy p listed).2

theorem Opened.first_checks (opened : Opened m a fl) (fits : Fits m) (enough : m.npages ≤ fuel)
    (pp12 : Bool → Option Nat) (room : firstExtended m < m.npages) :
    ∃ b1 b2 b3 fl3, checkPageFreeList fuel pp12 a true = .ok b1 ∧ checkPageAlloc fuel b1 = .ok b2 ∧
      checkPage b2 = .ok b3 ∧ SelfChecked a b3 ∧ FreeList b3 fl3 ∧ fl3.length = fl.length ∧
      fl3.drop 67 = (lowPagesFirst fl).drop 67 ∧ (∀ p ∈ fl3.take 67, p < NPTENTRIES) ∧
      ∀ p, NPTENTRIES ≤ p → b3.mem p = a.mem p := by
  obtain ⟨long, short⟩ := opened.length fits
  obtain ⟨t, p1, p2, rest, order⟩ := opened.falling_head fits
  have size := opened.booted.npages
  have machine := m.npages_le
  have books := opened.books
  obtain ⟨b1, outcome, checked1, list1, spared⟩ := opened.list_check fits enough pp12 room
  rw [order] at list1
  have start1 := checkable_after books (by omega) opened.bare checked1 list1
  have long1 : (t :: p1 :: p2 :: rest).length < fuel := by
    rw [← order, ← (lowPagesFirst_perm fl).length_eq]
    omega
  have built : b1.pagesKva ≠ 0 := by
    obtain ⟨_, _, _, high, _, _, _⟩ := layout_bounds m
    rw [(show Quiet a b1 from checked1.rest).pagesKva, opened.booted.pagesKva]
    omega
  obtain ⟨b2, run2, list2, checked2⟩ := checkPageAlloc_ok start1 built long1
  have checked12 := selfChecked_trans checked1 checked2.toSelfChecked
  obtain ⟨b3, run3, list3, checked3⟩ :=
    checkPage_ok (checkable_after books (by omega) opened.bare checked12 list2)
  have low : ∀ p, p = t ∨ p = p1 ∨ p = p2 ∨ p ∈ rest.take 64 → p < NPTENTRIES := by
    intro p among
    refine opened.first_low fits ?_
    rw [order]
    change p ∈ t :: p1 :: p2 :: rest.take 64
    simp only [List.mem_cons]
    exact among
  have lent : ∀ p, NPTENTRIES ≤ p → p ∉ [t, p1, p2] := by
    intro p high mine
    have below := low p
    simp only [List.mem_cons, List.not_mem_nil, or_false] at mine
    omega
  refine ⟨b1, b2, b3, _, outcome, run2, run3, selfChecked_trans checked12 checked3.toSelfChecked, list3, ?_, ?_,
    ?_, ?_⟩
  · rw [(lowPagesFirst_perm fl).length_eq, order]
    rfl
  · rw [order]
    rfl
  · intro p first
    refine low p ?_
    change p ∈ p2 :: p1 :: t :: rest.take 64 at first
    simp only [List.mem_cons] at first
    rcases first with second | middle | front | later
    · exact Or.inr (Or.inr (Or.inl second))
    · exact Or.inr (Or.inl middle)
    · exact Or.inl front
    · exact Or.inr (Or.inr (Or.inr later))
  · intro p high
    rw [checked3.elsewhere p (lent p high), checked2.elsewhere p (lent p high)]
    exact spared p high

theorem Opened.tables (opened : Opened m a fl) (fits : Fits m) {b : State} {fl0 : List Nat}
    (checked : SelfChecked a b) (list : FreeList b fl0) (long : fl0.length = fl.length) :
    ∃ c, memInitMap b = .ok c ∧ checkKernPgdir c = .ok () ∧
      Accounted (fun _ => none) none c (fl0.drop 67) ∧ Quiet a c ∧
      (c.entry c.kernPgdir 0 = 0 ∧ c.entry c.kernPgdir 1 = 0) ∧
      KernMapped (fun _ => none) b fl0 c (fl0.drop 67) (bootPte m) ∧
      Linked b fl0 BootSlot c (fl0.drop 67) := by
  obtain ⟨fl1, _, start, quiet, uvpt⟩ := mapping_start m opened.booted opened.books checked
  rw [chain_unique start.books.list list] at start
  obtain ⟨_, _, _, _, dir⟩ := selfChecked_books opened.books checked
  have pages : b.pagesKva = pagesBase m := quiet.pagesKva.trans opened.booted.pagesKva
  have envs : b.envsKva = envsBase m := quiet.envsKva.trans opened.booted.envsKva
  have stack : b.bootstack = m.bootstack := quiet.bootstack.trans opened.booted.bootstack
  have empty : ∀ d, d ≠ uvptPde → b.entry b.kernPgdir d = 0 := by
    intro d other
    rw [dir, opened.booted.kernPgdir, opened.booted.dir, if_neg other]
  have many := (opened.length fits).1
  have bare : ∀ d, BootSlot d → b.entry b.kernPgdir d = 0 := by
    intro d boot
    have high : 955 = pdx UENVS ∧ 956 = pdx UPAGES ∧ 959 = pdx (KSTACKTOP - 1) ∧
        960 = pdx KERNBASE := by decide
    refine empty d fun own => ?_
    unfold BootSlot at boot
    simp only [uvptPde] at own
    omega
  obtain ⟨c, run⟩ := memInitMap_total m pages envs stack start (by omega)
  obtain ⟨fl2, km, linked⟩ := memInitMap_linked pages envs stack start bare run
  obtain ⟨after, before⟩ := bootTables km linked empty
  have budget := km.budget
  rw [after, before] at budget
  have count : fl0.length - fl2.length = 67 := by omega
  have left : fl2 = fl0.drop 67 := by
    have last := List.suffix_iff_eq_drop.mp linked.used
    rw [count] at last
    exact last
  have self : Present (c.entry c.kernPgdir uvptPde) := by
    rw [km.uvpt, uvpt]
    exact present_mapEntry (by decide)
  have low : ∀ d, d < 2 → c.entry c.kernPgdir d = 0 := by
    intro d small
    have high : 955 = pdx UENVS ∧ 956 = pdx UPAGES ∧ 959 = pdx (KSTACKTOP - 1) ∧
        960 = pdx KERNBASE := by decide
    rcases linked.dir d with same | ⟨_, boot, _⟩
    · rw [same]
      refine empty d fun own => ?_
      simp only [uvptPde] at own
      omega
    · unfold BootSlot at boot
      omega
  refine ⟨c, run, ?_, left ▸ km.books, quiet_trans quiet km.quiet, ⟨low 0 (by omega), low 1 (by omega)⟩,
    left ▸ km, left ▸ linked⟩
  exact checkKernPgdir_ok km linked (km.quiet.pagesKva.trans pages) (km.quiet.envsKva.trans envs)
    (km.quiet.bootstack.trans stack) (km.quiet.npages.trans (quiet.npages.trans opened.booted.npages))
    self empty

/-- Before lcr3 mem_init writes to no page above the 4MB that entry_pgdir maps, and the tables it has
    to walk lie below too. -/
structure Early (m : Machine) (c : State) : Prop where
  dir : c.kernPgdir < NPTENTRIES
  tables : ∀ d, Present (c.entry c.kernPgdir d) → ppn (c.entry c.kernPgdir d) < NPTENTRIES
  contents : ∀ p, NPTENTRIES ≤ p → c.mem p = m.mem p

/-- What mem_init has made of the state a that page_init left, when it comes to lcr3. -/
structure Mapped (m : Machine) (a : State) (fl : List Nat) (b c : State) : Prop where
  checked : SelfChecked a b
  run : memInitMap b = .ok c
  books : Accounted (fun _ => none) none c ((lowPagesFirst fl).drop 67)
  quiet : Quiet a c
  bare : c.entry c.kernPgdir 0 = 0 ∧ c.entry c.kernPgdir 1 = 0
  view : ∀ va, StaticPde (pdx va) → kernPte c va = bootPte m va
  grants : ∀ d, StaticPde d → Present (c.entry c.kernPgdir d) →
    UserBit (c.entry c.kernPgdir d) ∧ Writable (c.entry c.kernPgdir d)
  low : ∀ d, d < pdx UTOP → ¬ Present (c.entry c.kernPgdir d)
  early : firstExtended m ≤ NPTENTRIES → Early m c

theorem early_of (opened : Opened m a fl) {b c : State} {fl0 : List Nat}
    (checked : SelfChecked a b) (quiet : Quiet a c) (linked : Linked b fl0 BootSlot c (fl0.drop 67))
    (low : ∀ p ∈ fl0.take 67, p < NPTENTRIES) (spared : ∀ p, NPTENTRIES ≤ p → b.mem p = a.mem p)
    (room : firstExtended m ≤ NPTENTRIES) : Early m c := by
  have kern : c.kernPgdir = kernPage m := quiet.kernPgdir.trans opened.booted.kernPgdir
  have kern_b : b.kernPgdir = kernPage m :=
    (show Quiet a b from checked.rest).kernPgdir.trans opened.booted.kernPgdir
  have below : kernPage m < NPTENTRIES := by
    obtain ⟨mark, _⟩ := marked_pages
      (marked_of (m := m) (s := { powerOn m with nextfree := bootEnd m }) rfl)
    obtain ⟨_, _, _, _, order, _, last⟩ := layout_bounds m
    change bootEnd m = firstExtended m * PGSIZE + KERNBASE at mark
    rw [kernPage_eq]
    simp only [pagesBase, NPTENTRIES, PGSIZE, KERNBASE] at *
    omega
  have taken : ∀ p, Taken fl0 (fl0.drop 67) p → p < NPTENTRIES := by
    rintro p ⟨listed, gone⟩
    rw [← List.take_append_drop 67 fl0] at listed
    rcases List.mem_append.mp listed with first | late
    · exact low p first
    · exact absurd late gone
  obtain ⟨_, _, _, _, dir⟩ := selfChecked_books opened.books checked
  refine ⟨kern ▸ below, ?_, ?_⟩
  · intro d present
    rcases linked.dir d with same | ⟨_, _, mine⟩
    · rw [same, dir, opened.booted.kernPgdir, opened.booted.dir] at present ⊢
      by_cases own : d = uvptPde
      · rw [if_pos own, ppn_mapEntry (kernPage_room m).1 (by decide)]
        exact below
      · rw [if_neg own] at present
        exact absurd present (by decide)
    · exact taken _ mine
  · intro p high
    have other : p ≠ kernPage m := by omega
    rw [linked.elsewhere p (kern_b ▸ other) fun mine => absurd (taken p mine) (by omega), spared p high,
      opened.contents p other]

theorem memInitEarly_ok (alloc : memInitAlloc (powerOn m) = .ok a) (opened : Opened m a fl)
    (fits : Fits m) (enough : m.npages ≤ fuel) (pp12 : Bool → Option Nat)
    (room : firstExtended m < m.npages) :
    ∃ b c, memInitEarly fuel pp12 (powerOn m) = .ok c ∧ Mapped m a fl b c := by
  obtain ⟨b1, b2, b3, fl3, run1, run2, run3, checked, list3, same, tail, low, spared⟩ :=
    opened.first_checks fits enough pp12 room
  obtain ⟨c, run4, run5, books, quiet, bare, km, linked⟩ := opened.tables fits checked list3 same
  obtain ⟨_, _, _, _, dir⟩ := selfChecked_books opened.books checked
  have empty : ∀ d, d < pdx UTOP → ¬ Present (c.entry c.kernPgdir d) := by
    intro d user
    have places : pdx UTOP = 955 ∧ 955 = pdx UENVS ∧ 956 = pdx UPAGES ∧ 959 = pdx (KSTACKTOP - 1) ∧
        960 = pdx KERNBASE := by decide
    rcases linked.dir d with same | ⟨_, boot, _⟩
    · have other : d ≠ uvptPde := by
        simp only [uvptPde]
        omega
      rw [same, dir, opened.booted.kernPgdir, opened.booted.dir, if_neg other]
      decide
    · unfold BootSlot at boot
      omega
  refine ⟨b3, c, ?_, checked, run4, tail ▸ books, quiet, bare, km.pte_eq, km.grants, empty,
    early_of opened checked quiet linked low spared⟩
  unfold memInitEarly
  rw [alloc, orPanic_value, orCheck_ok, ok_bind, run1, orCheck_ok, ok_bind, run2, ok_bind, run3, orPanic_value,
    orCheck_ok, ok_bind, run4, orPanic_value, orCheck_ok, ok_bind, run5, orPanic_value, orCheck_ok, ok_bind]

theorem Mapped.switched {b c : State} (mapped : Mapped m a fl b c) :
    Accounted (fun _ => none) none (lcr3 c c.kernPgdir) ((lowPagesFirst fl).drop 67) :=
  mapped.books.keep ⟨rfl, rfl, rfl, fun _ _ => rfl⟩ rfl rfl rfl

theorem Opened.left_over (opened : Opened m a fl) (fits : Fits m) (enough : m.npages ≤ fuel) :
    3 ≤ ((lowPagesFirst fl).drop 67).length ∧ ((lowPagesFirst fl).drop 67).length < fuel := by
  obtain ⟨long, short⟩ := opened.length fits
  rw [List.length_drop, ← (lowPagesFirst_perm fl).length_eq]
  omega

theorem Mapped.last_check {b c : State} (mapped : Mapped m a fl b c) (opened : Opened m a fl)
    (fits : Fits m) (enough : m.npages ≤ fuel) (pp12 : Bool → Option Nat) :
    ∃ d, checkPageFreeList fuel pp12 (lcr3 c c.kernPgdir) false =
      if Ample m then .ok d else .error (.panic .assertion) := by
  obtain ⟨long, few⟩ := opened.left_over fits enough
  obtain ⟨base, extended⟩ := opened.after_tables fits
  have marked : Marked (lcr3 c c.kernPgdir) :=
    marked_congr (marked_of opened.booted.nextfree) mapped.quiet.nextfree
  have some_page : (lowPagesFirst fl).drop 67 ≠ [] := by
    intro nothing
    rw [nothing] at long
    exact absurd long (by decide)
  obtain ⟨d, outcome⟩ := checkPageFreeList_outcome marked mapped.switched.list mapped.switched.nodup
    mapped.switched.managed some_page few pp12 false
  refine ⟨d, ?_⟩
  rw [outcome]
  by_cases ample : Ample m
  · rw [if_pos ⟨base, extended.mpr ample⟩, if_pos ample]
  · rw [if_neg fun both => ample (extended.mp both.2), if_neg ample]

theorem Mapped.installed {b c d : State} (mapped : Mapped m a fl b c) (opened : Opened m a fl)
    (fits : Fits m) (enough : m.npages ≤ fuel) {pp12 : Bool → Option Nat}
    (outcome : checkPageFreeList fuel pp12 (lcr3 c c.kernPgdir) false = .ok d) :
    ∃ s, checkPageInstalledPgdir d = .ok s ∧ SelfChecked (lcr3 c c.kernPgdir) s := by
  obtain ⟨long, few⟩ := opened.left_over fits enough
  obtain ⟨t, p1, p2, rest, order⟩ := three_pages long
  have switched := mapped.switched
  have marked : Marked (lcr3 c c.kernPgdir) :=
    marked_congr (marked_of opened.booted.nextfree) mapped.quiet.nextfree
  have started : (lcr3 c c.kernPgdir).nextfree ≠ 0 := by
    have high := marked.high
    omega
  have size : (lcr3 c c.kernPgdir).npages ≤ 65536 := by
    have machine := m.npages_le
    change c.npages ≤ 65536
    rw [mapped.quiet.npages, opened.booted.npages]
    omega
  obtain ⟨list, _, _, rest_kept⟩ := checkPageFreeList_ok switched.list switched.nodup few outcome
  have checked := checkPageFreeList_selfChecked switched.list switched.nodup few started outcome
  have tail_list : FreeList d (t :: p1 :: p2 :: rest) := order ▸ list
  have start := checkable_after switched size mapped.bare checked tail_list
  have installed : d.cr3 = d.kernPgdir := by
    rw [rest_kept started]
    rfl
  have flushed : d.tlb (pgnum PGSIZE) = none := by
    rw [rest_kept started]
    rfl
  obtain ⟨s, run, _, checked7⟩ := checkPageInstalledPgdir_ok start installed flushed
  exact ⟨s, run, selfChecked_trans checked checked7.toSelfChecked⟩

/-- mem_init returns exactly when memory is ample, leaves what MemInit says, and until lcr3 keeps to
    the memory that entry_pgdir maps, where boot_alloc has put its arrays. It runs out of memory
    before page_init when what boot_alloc hands out does not fit, and else fails an assertion. -/
theorem memInit_outcome (m : Machine) (room : firstExtended m ≤ NPTENTRIES) {fuel : Nat}
    (enough : m.npages ≤ fuel) (pp12 : Bool → Option Nat) :
    (Ample m → ∃ c s, memInitEarly fuel pp12 (powerOn m) = .ok c ∧ Early m c ∧
      memInit fuel pp12 (powerOn m) = .ok s ∧ MemInit (powerOn m) s) ∧
    (¬ Fits m → memInit fuel pp12 (powerOn m) = .error (.check (.panic .outOfMemory))) ∧
    (Fits m → ¬ Ample m →
      memInit fuel pp12 (powerOn m) = .error (.check (.panic .assertion))) := by
  by_cases fits : Fits m
  · obtain ⟨a, fl, alloc, opened⟩ := memInitAlloc_opened fits
    by_cases some_extended : firstExtended m < m.npages
    · obtain ⟨b, c, run, mapped⟩ := memInitEarly_ok alloc opened fits enough pp12 some_extended
      obtain ⟨d, outcome⟩ := mapped.last_check opened fits enough pp12
      refine ⟨?_, fun unfit => absurd fits unfit, ?_⟩
      · intro ample
        rw [if_pos ample] at outcome
        obtain ⟨s, run7, checked⟩ := mapped.installed opened fits enough outcome
        refine ⟨c, s, run, mapped.early room, ?_, a, b, c, alloc, mapped.checked, mapped.run, checked⟩
        unfold memInit
        rw [run, ok_bind, outcome, orCheck_ok, ok_bind, run7]
        rfl
      · intro _ scarce
        rw [if_neg scarce] at outcome
        unfold memInit
        rw [run, ok_bind, outcome]
        rfl
    · refine ⟨fun ample => absurd ample.2.1 some_extended, fun unfit => absurd fits unfit, fun _ _ => ?_⟩
      obtain ⟨long, short⟩ := opened.length fits
      obtain ⟨_, extended⟩ := opened.before_tables fits
      have some_page : fl ≠ [] := by
        rintro rfl
        simp at long
      obtain ⟨b, outcome⟩ := checkPageFreeList_outcome (marked_of opened.booted.nextfree)
        opened.books.list opened.books.nodup opened.books.managed some_page
        (Nat.lt_of_lt_of_le short enough) pp12 true
      rw [if_neg fun both => some_extended (extended.mp both.2)] at outcome
      unfold memInit memInitEarly
      rw [alloc, orPanic_value, orCheck_ok, ok_bind, outcome]
      rfl
  · refine ⟨fun ample => absurd ample.1 fits, fun _ => ?_, fun fits' => absurd fits' fits⟩
    unfold memInit memInitEarly
    rw [memInitAlloc_eq, if_neg fits]
    rfl

theorem memInit_outcome_smallMachine :
    ∃ c s, memInitEarly 1024 (fun _ => none) (powerOn smallMachine) = .ok c ∧ Early smallMachine c ∧
      memInit 1024 (fun _ => none) (powerOn smallMachine) = .ok s ∧
      MemInit (powerOn smallMachine) s :=
  (memInit_outcome smallMachine (by decide) (Nat.le_refl 1024) fun _ => none).1 (by decide)

end Run

end JosMemInit
