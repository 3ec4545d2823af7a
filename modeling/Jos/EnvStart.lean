import Jos.EnvTable
import Jos.KernelPart

/- env_init on memory that holds anything, and env_create when env_alloc has no environment to
   give. -/
namespace JosEnvStart
open JosLayout FrameWords JosMachine JosPmap JosMmu JosEnv JosBoot JosRegions JosEnvTable
open JosEnvFrames JosKernelPart IntrusiveList CountedLoop

/-- Every slot is free, with id 0, and the free list is all of them in their order. -/
def FreeTable (s : State) : Prop :=
  (∀ e, e < NENV → (s.envs e).envStatus = ENV_FREE ∧ (s.envs e).envId = 0) ∧
    EnvFreeList s (List.range' 0 NENV)

/-- env_init sets up everything but the status of the slots, which it leaves as it finds it. -/
theorem env_init_free_iff (s : State) (empty : s.envFreeList = none) :
    FreeTable (envInit s) ↔ ∀ e, e < NENV → (s.envs e).envStatus = ENV_FREE := by
  have slots := envInitLoop_slots NENV s
  unfold envInit
  constructor
  · intro table e bound
    have free := (table.1 e bound).1
    exact (slots e).1.symm.trans free
  · intro free
    have none_yet : EnvFreeList s (List.range' NENV (NENV - NENV)) := by
      unfold EnvFreeList
      rw [empty, Nat.sub_self]
      exact .nil
    refine ⟨?_, envInitLoop_list NENV s (Nat.le_refl _) none_yet⟩
    intro e bound
    exact ⟨(slots e).1.trans (free e bound), (slots e).2.1 bound⟩

theorem env_init_free_iff_smallMachine : FreeTable (envInit (powerOn smallMachine)) :=
  (env_init_free_iff (powerOn smallMachine) rfl).mpr fun _ _ => rfl

def dirtyTable : State :=
  { powerOn smallMachine with envs := fun _ => { idleEnv with envStatus := 0xFFFFFFFF, envId := 0xFFFFFFFF } }

theorem env_init_keeps_status : ¬ ∀ s : State, s.envFreeList = none → FreeTable (envInit s) := by
  intro claim
  have free := ((claim dirtyTable rfl).1 0 (by decide)).1
  have kept := (envInitLoop_slots NENV dirtyTable 0).1
  unfold envInit at free
  rw [kept] at free
  exact absurd free (by decide)

/-- load_icode stores something for the header at ph: region_alloc takes a page off the free list,
    or memset or memcpy gets its first byte through. -/
def segmentStores (e : Nat) (binary : Binary) (ph : Nat) (got : List Grant × State) : Prop :=
  (0 < rounds (binary.pVa ph) (binary.pMemsz ph) ∧ got.2.pageFreeList ≠ none) ∨
    ∃ got1, regionAlloc got e (binary.pVa ph) (binary.pMemsz ph) = .ok got1 ∧
      ((0 < binary.pMemsz ph ∧ ∃ s, kwrite got1.2 (binary.pVa ph % WORD) 0 = .ok s) ∨
        ∃ s1, memset got1.2 (binary.pVa ph) 0 (binary.pMemsz ph) = .ok s1 ∧
          0 < binary.pFilesz ph ∧
          ∃ s, kwrite s1 (binary.pVa ph % WORD) (binary.byte (binary.pOffset ph % WORD)) = .ok s)

def loadStores (s : State) (e : Nat) (binary : Binary) : Prop :=
  binary.eMagic = ELF_MAGIC ∧ ∃ pgdir, (s.envs e).envPgdir = some pgdir ∧
    ((∃ k, k < binary.phCount ∧ ∃ got,
        times (fun k got => loadSegment e binary (binary.ph k) got) k ([], lcr3 s pgdir) = .ok got ∧
        segmentStores e binary (binary.ph k) got) ∨
      ∃ got, times (fun k got => loadSegment e binary (binary.ph k) got) binary.phCount
        ([], lcr3 s pgdir) = .ok got)

def createStores (s : State) (p0 : Nat) (binary : Binary) : Prop :=
  ∃ r p s', envAlloc s 0 = .ok (r, p, s') ∧ loadStores s' (p.getD p0) binary

def Stops (s : State) (p0 : Nat) (binary : Binary) : Prop :=
  ¬ createStores s p0 binary ∧
    ((∃ panic, envCreate s p0 binary = .error panic) ∨
      ∃ p grants, envCreate s p0 binary = .ok (p, grants, s))

def Blank (binary : Binary) (ph : Nat) : Prop :=
  rounds (binary.pVa ph) (binary.pMemsz ph) = 0 ∧ binary.pMemsz ph = 0 ∧ binary.pFilesz ph = 0

/-- What the header asks for first is not to be had: there is no page, or, where it asks for none,
    no writable page at p_va in the directory. -/
def Barred (s : State) (pgdir : Nat) (binary : Binary) (ph : Nat) : Prop :=
  if 0 < rounds (binary.pVa ph) (binary.pMemsz ph) then s.pageFreeList = none
  else ¬ ∃ t, walk s pgdir (binary.pVa ph % WORD) = some t ∧ Translation.writable t

/-- load_icode panics before it stores anything: the magic is wrong, e has no directory, or the
    first header that asks for anything is barred. -/
def HeldBack (s : State) (e : Nat) (binary : Binary) : Prop :=
  binary.eMagic ≠ ELF_MAGIC ∨ (s.envs e).envPgdir = none ∨
    ∃ pgdir k, (s.envs e).envPgdir = some pgdir ∧ k < binary.phCount ∧
      (∀ j, j < k → Blank binary (binary.ph j)) ∧ ¬ Blank binary (binary.ph k) ∧
      Barred s pgdir binary (binary.ph k)

section Load
variable {s : State} {e ph pgdir : Nat} {binary : Binary} {got : List Grant × State}

theorem kwrite_ok_iff {va : Nat} {b : UInt8} : (∃ s', kwrite s va b = .ok s') ↔
    ∃ t, walk s s.cr3 va = some t ∧ Translation.writable t := by
  unfold kwrite
  cases walk s s.cr3 va with
  | none =>
    constructor
    · rintro ⟨s', run⟩
      cases run
    · rintro ⟨t, found, _⟩
      cases found
  | some t =>
    dsimp only
    by_cases right : Translation.writable t
    · rw [if_pos right]
      exact ⟨fun _ => ⟨t, rfl, right⟩, fun _ => ⟨_, rfl⟩⟩
    · rw [if_neg right]
      constructor
      · rintro ⟨s', run⟩
        cases run
      · rintro ⟨t', found, right'⟩
        cases found
        exact absurd right' right

theorem regionAlloc_none (none_asked : rounds (binary.pVa ph) (binary.pMemsz ph) = 0) :
    regionAlloc got e (binary.pVa ph) (binary.pMemsz ph) = .ok got := by
  rw [regionAlloc_eq, none_asked]
  rfl

theorem blank_segment (blank : Blank binary ph) : loadSegment e binary ph got = .ok got := by
  obtain ⟨no_page, no_byte, no_file⟩ := blank
  unfold loadSegment
  rw [regionAlloc_none no_page, ok_bind, no_byte, no_file]
  rfl

theorem blank_stores (blank : Blank binary ph) : ¬ segmentStores e binary ph got := by
  obtain ⟨no_page, no_byte, no_file⟩ := blank
  rintro (⟨asked, _⟩ | ⟨_, _, ⟨asked, _⟩ | ⟨_, _, asked, _⟩⟩)
  · omega
  · omega
  · omega

theorem regionAlloc_needs (pages : 0 < rounds (binary.pVa ph) (binary.pMemsz ph))
    (empty : got.2.pageFreeList = none) (got1 : List Grant × State) :
    regionAlloc got e (binary.pVa ph) (binary.pMemsz ph) ≠ .ok got1 := by
  intro run
  obtain ⟨n, more⟩ := Nat.exists_eq_succ_of_ne_zero (Nat.ne_of_gt pages)
  rw [regionAlloc_eq, more] at run
  obtain ⟨a, first⟩ := times_first run
  unfold regionAllocStep pageAlloc at first
  rw [empty] at first
  cases first

theorem segmentStores_iff (cr3 : got.2.cr3 = pgdir) (asks : ¬ Blank binary ph) :
    segmentStores e binary ph got ↔ ¬ Barred got.2 pgdir binary ph := by
  unfold segmentStores Barred
  subst cr3
  by_cases pages : 0 < rounds (binary.pVa ph) (binary.pMemsz ph)
  · rw [if_pos pages]
    constructor
    · rintro (⟨_, listed⟩ | ⟨got1, run, _⟩)
      · exact listed
      · exact fun empty => regionAlloc_needs pages empty got1 run
    · exact fun listed => Or.inl ⟨pages, listed⟩
  · have none_asked : rounds (binary.pVa ph) (binary.pMemsz ph) = 0 := by omega
    rw [if_neg pages, not_not]
    constructor
    · rintro (⟨some_asked, _⟩ | ⟨got1, run, stored⟩)
      · exact absurd some_asked pages
      · rw [regionAlloc_none none_asked] at run
        cases run
        rcases stored with ⟨_, wrote⟩ | ⟨s1, cleared, _, wrote⟩
        · exact kwrite_ok_iff.mp wrote
        · cases bytes : binary.pMemsz ph with
          | zero =>
            rw [bytes] at cleared
            cases cleared
            exact kwrite_ok_iff.mp wrote
          | succ n =>
            rw [bytes] at cleared
            exact kwrite_ok_iff.mp (times_first cleared)
    · intro writable
      have wrote : ∀ b, ∃ s', kwrite got.2 (binary.pVa ph % WORD) b = .ok s' :=
        fun b => kwrite_ok_iff.mpr writable
      refine Or.inr ⟨got, regionAlloc_none none_asked, ?_⟩
      by_cases bytes : binary.pMemsz ph = 0
      · have file : 0 < binary.pFilesz ph := by
          by_contra none_left
          exact asks ⟨none_asked, bytes, by omega⟩
        rw [bytes]
        exact Or.inr ⟨got.2, rfl, file, wrote _⟩
      · exact Or.inl ⟨by omega, wrote 0⟩

theorem barred_segment (cr3 : got.2.cr3 = pgdir) (asks : ¬ Blank binary ph)
    (barred : Barred got.2 pgdir binary ph) (got' : List Grant × State) :
    loadSegment e binary ph got ≠ .ok got' := by
  intro run
  have stores : ¬ segmentStores e binary ph got := fun stores =>
    (segmentStores_iff cr3 asks).mp stores barred
  obtain ⟨s1, s2, allocated, cleared, copied⟩ := JosLoading.loadSegment_ok run
  apply stores
  unfold segmentStores
  by_cases pages : 0 < rounds (binary.pVa ph) (binary.pMemsz ph)
  · exact Or.inl ⟨pages, fun empty => regionAlloc_needs pages empty _ allocated⟩
  · refine Or.inr ⟨_, allocated, ?_⟩
    cases bytes : binary.pMemsz ph with
    | succ n =>
      rw [bytes] at cleared
      exact Or.inl ⟨Nat.succ_pos n, times_first cleared⟩
    | zero =>
      have file : binary.pFilesz ph ≠ 0 := fun none_left => asks ⟨by omega, bytes, none_left⟩
      obtain ⟨n, more⟩ := Nat.exists_eq_succ_of_ne_zero file
      rw [bytes] at cleared
      rw [more] at copied
      exact Or.inr ⟨s2, cleared, by omega, times_first copied⟩

theorem blank_segments {k : Nat} (blank : ∀ j, j < k → Blank binary (binary.ph j)) :
    times (fun k got => loadSegment e binary (binary.ph k) got) k got = .ok got :=
  times_idle fun j below => blank_segment (blank j below)

theorem loadStores_iff (s : State) (e : Nat) (binary : Binary) :
    ¬ loadStores s e binary ↔ HeldBack s e binary := by
  have start : ∀ pgdir, (([], lcr3 s pgdir) : List Grant × State).2.cr3 = pgdir := fun _ => rfl
  constructor
  · intro held
    by_cases magic : binary.eMagic = ELF_MAGIC
    · cases dir : (s.envs e).envPgdir with
      | none => exact Or.inr (Or.inl dir)
      | some pgdir =>
        right
        right
        have some_asks : ∃ k, k < binary.phCount ∧ ¬ Blank binary (binary.ph k) := by
          by_contra none_asks
          refine held ⟨magic, pgdir, dir, Or.inr ⟨_, blank_segments fun j below => ?_⟩⟩
          by_contra asks
          exact none_asks ⟨j, below, asks⟩
        classical
        obtain ⟨bound, asks⟩ := Nat.find_spec some_asks
        have blank : ∀ j, j < Nat.find some_asks → Blank binary (binary.ph j) := by
          intro j below
          by_contra asks'
          exact Nat.find_min some_asks below ⟨Nat.lt_trans below bound, asks'⟩
        refine ⟨pgdir, Nat.find some_asks, dir, bound, blank, asks, ?_⟩
        by_contra open_way
        have stores := (segmentStores_iff (e := e) (start pgdir) asks).mpr open_way
        exact held ⟨magic, pgdir, dir, Or.inl ⟨_, bound, _, blank_segments blank, stores⟩⟩
    · exact Or.inl magic
  · rintro (magic | dir | ⟨pgdir, k, dir, bound, blank, asks, barred⟩) ⟨magic', pgdir', dir', stores⟩
    · exact magic magic'
    · rw [dir] at dir'
      cases dir'
    · rw [dir] at dir'
      cases dir'
      have stuck : ∀ n, k < n → ∀ got, times (fun k got => loadSegment e binary (binary.ph k) got) n
          ([], lcr3 s pgdir) ≠ .ok got := by
        intro n later got run
        obtain ⟨a, part⟩ := times_part later run
        obtain ⟨b, before, here⟩ := bind_ok.mp part
        rw [blank_segments blank] at before
        cases before
        exact barred_segment (start pgdir) asks barred a here
      rcases stores with ⟨j, within, got, run, stored⟩ | ⟨got, run⟩
      · rcases Nat.lt_trichotomy j k with earlier | rfl | later
        · exact blank_stores (blank j earlier) stored
        · rw [blank_segments blank] at run
          cases run
          exact (segmentStores_iff (start pgdir) asks).mp stored barred
        · exact stuck j later got run
      · exact stuck _ bound got run

theorem loadIcode_stores {grants : List Grant} {s' : State}
    (run : loadIcode s e binary = .ok (grants, s')) : loadStores s e binary := by
  unfold loadIcode at run
  split at run
  · cases run
  · rename_i magic
    obtain ⟨pgdir, dir, run⟩ := bind_ok.mp run
    obtain ⟨got, looped, _⟩ := bind_ok.mp run
    refine ⟨not_not.mp magic, pgdir, ?_, Or.inr ⟨got, looped⟩⟩
    unfold paddrPgdir at dir
    split at dir
    · cases dir
    · rename_i found
      cases dir
      exact found

end Load

theorem envAlloc_fails {s : State} (fails : s.envFreeList = none ∨ s.pageFreeList = none)
    (parentId : EnvId) : ∃ r, r < 0 ∧ envAlloc s parentId = .ok (r, none, s) := by
  cases slot : s.envFreeList with
  | none =>
    refine ⟨-E_NO_FREE_ENV, by decide, ?_⟩
    unfold envAlloc
    rw [slot]
  | some e =>
    have empty : s.pageFreeList = none := fails.resolve_left (by rw [slot]; simp)
    have alloc : pageAlloc s true = .ok (none, s) := by
      unfold pageAlloc
      rw [empty]
    have setup : envSetupVm s e = .ok (-E_NO_MEM, s) := by
      unfold envSetupVm
      rw [alloc]
      rfl
    refine ⟨-E_NO_MEM, by decide, ?_⟩
    unfold envAlloc
    rw [slot]
    dsimp only
    rw [setup, ok_bind]
    exact if_pos (show (-E_NO_MEM : Int) < 0 by decide)

/-- When env_alloc fails it leaves everything as it was, but env_create goes on to load_icode with
    whatever p holds, and is held back only by what load_icode itself happens to meet. -/
theorem env_create_stops_iff {s : State} {p0 : Nat} {binary : Binary}
    (fails : s.envFreeList = none ∨ s.pageFreeList = none) :
    (∃ r, r < 0 ∧ envAlloc s 0 = .ok (r, none, s)) ∧
      (Stops s p0 binary ↔ HeldBack s p0 binary) := by
  obtain ⟨r, negative, alloc⟩ := envAlloc_fails fails 0
  refine ⟨⟨r, negative, alloc⟩, ?_⟩
  have stores : createStores s p0 binary ↔ loadStores s p0 binary := by
    constructor
    · rintro ⟨r', p, s', alloc', stores⟩
      rw [alloc] at alloc'
      cases alloc'
      exact stores
    · exact fun stores => ⟨r, none, s, alloc, stores⟩
  have create : envCreate s p0 binary =
      (loadIcode s p0 binary >>= fun got => .ok (p0, got.1, got.2)) := by
    unfold envCreate
    rw [alloc]
    rfl
  unfold Stops
  rw [stores, loadStores_iff, create]
  constructor
  · exact fun stops => stops.1
  · intro held
    refine ⟨held, Or.inl ?_⟩
    cases run : loadIcode s p0 binary with
    | error panic => exact ⟨panic, rfl⟩
    | ok got => exact absurd (loadIcode_stores run) ((loadStores_iff s p0 binary).mpr held)

def fullTable : State :=
  { powerOn smallMachine with
    envs := fun _ => { idleEnv with envStatus := ENV_RUNNABLE, envPgdir := some 500 } }

theorem env_create_stops_iff_badMagic : Stops fullTable 0 ⟨0xF0120000, fun _ => 0⟩ :=
  (env_create_stops_iff (Or.inl rfl)).2.mpr (Or.inl (by decide))

theorem env_create_loads_anyway : ¬ ∀ s p0 binary, s.envFreeList = none ∨ s.pageFreeList = none →
    Stops s p0 binary := by
  intro claim
  have magic : emptyImage.eMagic = ELF_MAGIC := by decide
  have one : emptyImage.phCount = 1 := by decide
  have blank : ∀ j, j < emptyImage.phCount → Blank emptyImage (emptyImage.ph j) := by
    intro j below
    rw [one] at below
    obtain rfl : j = 0 := by omega
    exact ⟨by decide, by decide, by decide⟩
  have looped : times (fun k got => loadSegment 0 emptyImage (emptyImage.ph k) got)
      emptyImage.phCount ([], lcr3 fullTable 500) = .ok ([], lcr3 fullTable 500) :=
    blank_segments blank
  have stores : loadStores fullTable 0 emptyImage :=
    ⟨magic, 500, rfl, Or.inr ⟨_, looped⟩⟩
  exact (claim fullTable 0 emptyImage (Or.inl rfl)).1 ⟨_, none, fullTable, rfl, stores⟩

end JosEnvStart
