import Jos.Loader

/- load_icode as a run over its program header table, and what the headers in it that are not
   ELF_PROG_LOAD do to that run. -/
namespace JosHeaderTable
open JosLayout FrameWords JosMachine JosPmap JosMmu JosEnv JosBoot JosAccounting JosPageOps
open JosMapping JosEnvSpace JosRegions JosBootPages JosPageRuns JosDirRights JosUserStores JosLoading
open JosKernelRuns JosEnvFrames JosLoader IntrusiveList TableForest CountedLoop

/-- A program header, with the bytes of the file that it stands for. -/
structure Header where
  pType : Nat
  pVa : Nat
  pMemsz : Nat
  fromFile : List UInt8
  deriving DecidableEq

def header (binary : Binary) (ph : Nat) : Header where
  pType := pType binary ph
  pVa := binary.pVa ph
  pMemsz := binary.pMemsz ph
  fromFile := (List.range (binary.pFilesz ph)).map fun k =>
    binary.byte ((binary.pOffset ph + k) % WORD)

def headers (binary : Binary) : List Header :=
  (List.range binary.phCount).map fun k => header binary (binary.ph k)

def loadHeader (e : Nat) (got : List Grant × State) (h : Header) :
    Except Panic (List Grant × State) := do
  let (grants, s) ← regionAlloc got e h.pVa h.pMemsz
  let s ← memset s h.pVa 0 h.pMemsz
  let s ← stores (fun k => h.fromFile.getD k 0) h.pVa h.fromFile.length s
  .ok (grants, s)

def loadTable (s : State) (e : Nat) (entry : Nat) (table : List Header) :
    Except Panic (List Grant × State) := do
  let pgdir ← paddrPgdir (s.envs e)
  let (grants, s) ← table.foldlM (loadHeader e) ([], lcr3 s pgdir)
  let s := s.setEnv e { s.envs e with
    envTf := { (s.envs e).envTf with tfEip := UInt32.ofNat entry } }
  let s := lcr3 s s.kernPgdir
  regionAlloc (grants, s) e (USTACKTOP - PGSIZE) PGSIZE

def loads (h : Header) : Bool := h.pType = ELF_PROG_LOAD

def loadable (table : List Header) : List Header := table.filter loads

/-- What load_icode may assume about the segments it is to load. -/
structure Assumed (segments : List Header) : Prop where
  file : ∀ h ∈ segments, h.fromFile.length ≤ h.pMemsz
  fits : ∀ h ∈ segments, h.pVa + h.pMemsz ≤ USTACKTOP - PGSIZE
  apart : segments.Pairwise fun h h' => Disjoint (pagesOf h.pVa h.pMemsz) (pagesOf h'.pVa h'.pMemsz)

/-- A header that asks for no page and for no byte. -/
structure Idle (h : Header) : Prop where
  page : rounds h.pVa h.pMemsz = 0
  memory : h.pMemsz = 0
  file : h.fromFile = []

/-- Two images of one program: the same segments in the same order, the same entry point. -/
structure SameProgram (b b' : Binary) : Prop where
  magic : b.eMagic = ELF_MAGIC
  magic' : b'.eMagic = ELF_MAGIC
  entry : b.eEntry = b'.eEntry
  segments : loadable (headers b) = loadable (headers b')

def OthersIdle (table : List Header) : Prop := ∀ h ∈ table, loads h = false → Idle h

section Tables
variable {s : State} {e ph : Nat} {binary b b' : Binary} {got : List Grant × State} {h : Header}
  {table : List Header}

theorem memcpy_header (s : State) (v : Nat) :
    memcpy s v binary (binary.pOffset ph) (binary.pFilesz ph) =
      stores (fun k => (header binary ph).fromFile.getD k 0) v (header binary ph).fromFile.length s := by
  have long : (header binary ph).fromFile.length = binary.pFilesz ph := by simp [header]
  rw [memcpy_eq, long]
  unfold stores
  apply times_congr
  intro k inside
  have byte : (header binary ph).fromFile.getD k 0 =
      binary.byte ((binary.pOffset ph + k) % WORD) := by
    simp [header, inside]
  dsimp only
  rw [byte]

theorem loadSegment_header :
    loadSegment e binary ph got = loadHeader e got (header binary ph) := by
  unfold loadSegment loadHeader
  simp only [memcpy_header]
  rfl

theorem loadIcode_table (magic : binary.eMagic = ELF_MAGIC) :
    loadIcode s e binary = loadTable s e binary.eEntry (headers binary) := by
  unfold loadIcode loadTable headers
  rw [if_neg (not_not.mpr magic)]
  simp only [loadSegment_header, ← times_foldlM]

theorem idle_loadHeader (idle : Idle h) : loadHeader e got h = .ok got := by
  unfold loadHeader
  rw [regionAlloc_eq, idle.page, idle.memory, idle.file]
  rfl

theorem loadTable_loadable (idle : OthersIdle table) (entry : Nat) :
    loadTable s e entry (loadable table) = loadTable s e entry table := by
  have same : ∀ start, (loadable table).foldlM (loadHeader e) start =
      table.foldlM (loadHeader e) start :=
    fun start => foldlM_filter start fun h member other _ => idle_loadHeader (idle h member other)
  unfold loadTable
  simp only [same]

theorem same_program (same : SameProgram b b') (idle : OthersIdle (headers b))
    (idle' : OthersIdle (headers b')) : loadIcode s e b = loadIcode s e b' := by
  rw [loadIcode_table same.magic, loadIcode_table same.magic', ← loadTable_loadable idle,
    ← loadTable_loadable idle', same.entry, same.segments]

def bareState : State where
  npages := 2
  mem := fun _ => zeroFrame
  pages := fun _ => ⟨none, 0⟩
  pageFreeList := some 1
  nextfree := 0
  kernEnd := 0
  bootstack := 0
  kernPgdir := 0
  pagesKva := 0
  envsKva := 0
  envs := fun _ => ⟨zeroTrapframe, none, 0, 0, .user, ENV_RUNNABLE, 0, some 0⟩
  envFreeList := none
  curenv := none
  cr3 := 0
  tlb := fun _ => none
  userMemCheckAddr := 0

structure Bare (s : State) : Prop where
  list : s.pageFreeList = some 1
  last : (s.pages 1).ppLink = none
  blank : ∀ p, s.mem p = zeroFrame
  dir : ∀ e, (s.envs e).envPgdir = some 0

theorem blank_absent (blank : ∀ p, s.mem p = zeroFrame) (p i : Nat) : ¬ Present (s.entry p i) := by
  unfold State.entry
  rw [blank, word_zeroFrame]
  decide

theorem regionAllocStep_none {addr : Nat} (empty : got.2.pageFreeList = none) :
    regionAllocStep e addr got = .error .regionAllocFailed := by
  unfold regionAllocStep pageAlloc
  rw [empty]
  rfl

theorem regionAllocStep_bare (bare : Bare s) (addr : Nat) (grants : List Grant) :
    ∃ s', regionAllocStep e addr (grants, s) = .ok (⟨1, -E_NO_MEM⟩ :: grants, s') ∧
      s'.pageFreeList = none := by
  obtain ⟨s1, at_s1⟩ : ∃ s1, s1 = ({ s with pageFreeList := (s.pages 1).ppLink } : State).setInfo 1
    { s.pages 1 with ppLink := none } := ⟨_, rfl⟩
  have empty : s1.pageFreeList = none := by
    rw [at_s1]
    exact bare.last
  have taken : pageAlloc s false = .ok (some 1, s1) := by
    unfold pageAlloc
    rw [bare.list, at_s1]
    rfl
  have dir : derefPgdir (s1.envs e) addr = .ok 0 := by
    have named : (s1.envs e).envPgdir = some 0 := by
      rw [at_s1]
      exact bare.dir e
    unfold derefPgdir
    rw [named]
  have blank : ∀ p, s1.mem p = zeroFrame := by
    rw [at_s1]
    exact bare.blank
  have inserted : pageInsert s1 0 1 addr (PTE_W ||| PTE_U) = .ok (-E_NO_MEM, s1) := by
    unfold pageInsert pgdirWalk pageAlloc
    dsimp only
    rw [if_neg (blank_absent blank 0 _), empty]
    rfl
  refine ⟨s1, ?_, empty⟩
  unfold regionAllocStep
  rw [taken, ok_bind]
  dsimp only
  rw [dir, ok_bind, inserted]
  rfl

theorem region_bare {va len : Nat} {grants : List Grant} {got' : List Grant × State} (bare : Bare s)
    (run : regionAlloc (grants, s) e va len = .ok got') :
    rounds va len = 0 ∧ got' = (grants, s) ∨ got'.2.pageFreeList = none := by
  rw [regionAlloc_eq] at run
  apply times_keeps (fun k got => k = 0 ∧ got = (grants, s) ∨ got.2.pageFreeList = none)
    (Or.inl ⟨rfl, rfl⟩) _ run
  intro k a b _ before step
  rcases before with ⟨_, rfl⟩ | empty
  · obtain ⟨s', done, left⟩ := regionAllocStep_bare (e := e) bare (roundDown va PGSIZE + k * PGSIZE)
      grants
    rw [done] at step
    cases step
    exact Or.inr left
  · rw [regionAllocStep_none empty] at step
    cases step

theorem region_starved {va len : Nat} {got' : List Grant × State} (empty : got.2.pageFreeList = none)
    (run : regionAlloc got e va len = .ok got') : rounds va len = 0 := by
  rw [regionAlloc_eq] at run
  cases many : rounds va len with
  | zero => rfl
  | succ n =>
    rw [many] at run
    obtain ⟨a, first⟩ := times_first run
    rw [regionAllocStep_none empty] at first
    cases first

theorem kwrite_list {s' : State} {va : Nat} {b : UInt8} (run : kwrite s va b = .ok s') :
    s'.pageFreeList = s.pageFreeList := by
  unfold kwrite at run
  cases walked : walk s s.cr3 va with
  | none =>
    rw [walked] at run
    cases run
  | some t =>
    rw [walked] at run
    dsimp only at run
    split at run
    · cases run
      rfl
    · cases run

theorem stores_list {f : Nat → UInt8} {v n : Nat} {s' : State} (run : stores f v n s = .ok s') :
    s'.pageFreeList = s.pageFreeList := by
  apply times_keeps (fun _ a => a.pageFreeList = s.pageFreeList) rfl _ run
  intro k a b _ before step
  exact (kwrite_list step).trans before

theorem stores_blank {f : Nat → UInt8} {v n : Nat} {s' : State} (blank : ∀ p, s.mem p = zeroFrame)
    (run : stores f v n s = .ok s') : n = 0 := by
  cases n with
  | zero => rfl
  | succ n =>
    obtain ⟨a, first⟩ := times_first run
    have unmapped : walk s s.cr3 ((v + 0) % WORD) = none := by
      unfold walk
      dsimp only
      rw [if_neg (blank_absent blank _ _)]
    unfold kwrite at first
    rw [unmapped] at first
    cases first

theorem bareState_bare (e entry : Nat) : Bare (lcr3 ((lcr3 bareState 0).setEnv e
    { (lcr3 bareState 0).envs e with
      envTf := { ((lcr3 bareState 0).envs e).envTf with tfEip := UInt32.ofNat entry } }) 0) := by
  refine ⟨rfl, rfl, fun _ => rfl, ?_⟩
  intro f
  by_cases same : f = e
  · subst same
    rw [lcr3_envs, setEnv_here]
    rfl
  · rw [lcr3_envs]
    unfold State.setEnv
    dsimp only
    rw [Function.update_of_ne same]
    rfl

theorem bareState_dir (e : Nat) : paddrPgdir (bareState.envs e) = .ok 0 := rfl

theorem stack_rounds : rounds (USTACKTOP - PGSIZE) PGSIZE = 1 := by decide

theorem loadTable_bare (e entry : Nat) : ∃ got, loadTable bareState e entry [] = .ok got := by
  obtain ⟨s', stack, _⟩ := regionAllocStep_bare (e := e) (bareState_bare e entry)
    (roundDown (USTACKTOP - PGSIZE) PGSIZE + 0 * PGSIZE) []
  refine ⟨([⟨1, -E_NO_MEM⟩], s'), ?_⟩
  unfold loadTable
  rw [bareState_dir, ok_bind]
  change regionAlloc ([], _) e _ _ = _
  rw [regionAlloc_eq, stack_rounds]
  exact bind_ok.mpr ⟨_, rfl, stack⟩

theorem only_idle {entry : Nat} {got' : List Grant × State}
    (run : loadTable bareState e entry [h] = .ok got') : Idle h := by
  unfold loadTable at run
  rw [bareState_dir, ok_bind, List.foldlM_cons] at run
  obtain ⟨⟨grants, s⟩, loaded, stack⟩ := bind_ok.mp run
  obtain ⟨⟨grants1, s1⟩, one, rest⟩ := bind_ok.mp loaded
  cases rest
  unfold loadHeader at one
  obtain ⟨⟨grants2, s2⟩, allocated, filled⟩ := bind_ok.mp one
  obtain ⟨s3, cleared, copied⟩ := bind_ok.mp filled
  obtain ⟨s4, stored, last⟩ := bind_ok.mp copied
  cases last
  rw [memset_eq] at cleared
  dsimp only at stack cleared stored
  have bare : Bare (lcr3 bareState 0) := ⟨rfl, rfl, fun _ => rfl, fun _ => rfl⟩
  rcases region_bare bare allocated with ⟨page, same⟩ | empty
  · obtain ⟨rfl, rfl⟩ := Prod.mk.inj same
    have memory := stores_blank (fun _ => rfl) cleared
    rw [memory] at cleared
    cases cleared
    exact ⟨page, memory, List.eq_nil_of_length_eq_zero (stores_blank (fun _ => rfl) stored)⟩
  · have left : s.pageFreeList = none := by rw [stores_list stored, stores_list cleared, empty]
    have starved := region_starved left stack
    rw [stack_rounds] at starved
    cases starved

end Tables

/-- Headers that are not ELF_PROG_LOAD make no difference where they ask for nothing; and one
    that asks for something, of whatever type, makes a difference to some run. -/
theorem load_icode_only_loadable (h : Header) :
    (∀ b b', SameProgram b b' → OthersIdle (headers b) → OthersIdle (headers b') →
      ∀ s e, loadIcode s e b = loadIcode s e b') ∧
    ((∀ before after, Assumed (loadable (before ++ after)) → ∀ s e entry,
      loadTable s e entry (before ++ h :: after) = loadTable s e entry (before ++ after)) ↔
        Idle h) := by
  constructor
  · intro b b' same idle idle' s e
    exact same_program same idle idle'
  · constructor
    · intro harmless
      have nothing : Assumed (loadable ([] ++ [])) := by
        constructor <;> simp [loadable]
      obtain ⟨got, run⟩ := loadTable_bare 0 0
      have same := harmless [] [] nothing bareState 0 0
      rw [List.nil_append, List.nil_append, run] at same
      exact only_idle same
    · intro idle before after _ s e entry
      have drop : ∀ start, (before ++ h :: after).foldlM (loadHeader e) start =
          (before ++ after).foldlM (loadHeader e) start := by
        intro start
        rw [List.foldlM_append, List.foldlM_append]
        refine congrArg _ (funext fun got => ?_)
        rw [List.foldlM_cons, idle_loadHeader idle, ok_bind]
      unfold loadTable
      simp only [drop]

def tableImage (phs : List (List Nat)) (content : Nat → UInt8) : Binary where
  addr := 0xF0120000
  byte o :=
    if o < 52 + 32 * phs.length then
      byteOf (([ELF_MAGIC, 0, 0, 0, 0, 0, 0, 52, 0, 0, 0, phs.length, 0] ++ phs.flatten).getD
        (o / 4) 0) (o % 4)
    else content o

def segmentHeader : List Nat := [1, 0x100, 0x1000, 0, 1, 2, 0, 0]

def emptyNote : List Nat := [4, 0x100, 0x1000, 0, 0, 0, 0, 0]
def insideNote : List Nat := [4, 0x100, 0x1000, 0, 0, 1, 0, 0]

def plainImage : Binary := tableImage [segmentHeader] fun _ => 0xAB
def quietImage : Binary := tableImage [emptyNote, segmentHeader] fun _ => 0xAB
def notedImage : Binary := tableImage [segmentHeader, insideNote] fun _ => 0xAB

theorem plainImage_headers : headers plainImage = [⟨1, 0x1000, 2, [0xAB]⟩] := by decide

theorem quietImage_headers : headers quietImage = [⟨4, 0x1000, 0, []⟩, ⟨1, 0x1000, 2, [0xAB]⟩] := by
  decide

theorem load_icode_only_loadable_quietImage :
    (∀ s e, loadIcode s e plainImage = loadIcode s e quietImage) ∧
      ∀ before after, Assumed (loadable (before ++ after)) → ∀ s e entry,
        loadTable s e entry (before ++ ⟨4, 0x1000, 0, []⟩ :: after) =
          loadTable s e entry (before ++ after) := by
  obtain ⟨images, tables⟩ := load_icode_only_loadable ⟨4, 0x1000, 0, []⟩
  have quiet : Idle ⟨4, 0x1000, 0, []⟩ := ⟨by decide, rfl, rfl⟩
  refine ⟨images plainImage quietImage ⟨by decide, by decide, by decide, by decide⟩ ?_ ?_,
    tables.mpr quiet⟩
  · rw [plainImage_headers]
    intro h member other
    obtain rfl := List.mem_singleton.mp member
    cases other
  · rw [quietImage_headers]
    intro h member other
    rcases List.mem_cons.mp member with rfl | last
    · exact quiet
    · obtain rfl := List.mem_singleton.mp last
      cases other

section Noted
variable {p : Nat} {s : State} {fl : List Nat} {load : State → Fin NENV → State → Prop}

def notedPages : Finset Nat := {1, stackPage}

theorem notedImage_run (first : FirstEnv load p s fl) :
    ∃ grants s', loadIcode s (0 : Fin NENV) notedImage = .ok (grants, s') ∧
      byteAt s' p 0x1000 = some 0 := by
  have enough := first.enough
  have cost : notedPages.card + (tablesOf notedPages).card = 4 := by decide
  have spare : notedPages.card + (tablesOf notedPages).card < fl.length := by omega
  have switched := lcr3_untouched (dirsOf s) s p
  have filling := (filling_start first.inv.tidy first.books first.tables).same switched rfl
  have fits0 : notedImage.pVa (notedImage.ph 0) + notedImage.pMemsz (notedImage.ph 0) ≤ UTOP := by
    decide
  have fits1 : notedImage.pVa (notedImage.ph 1) + notedImage.pMemsz (notedImage.ph 1) ≤ UTOP := by
    decide
  have sub0 : pagesOf (notedImage.pVa (notedImage.ph 0)) (notedImage.pMemsz (notedImage.ph 0)) ∪ ∅ ⊆
      notedPages := by decide
  have sub1 : pagesOf (notedImage.pVa (notedImage.ph 1)) (notedImage.pMemsz (notedImage.ph 1)) ∪
      (pagesOf (notedImage.pVa (notedImage.ph 0)) (notedImage.pMemsz (notedImage.ph 0)) ∪ ∅) ⊆
        notedPages := by decide
  have sub2 : pagesOf (USTACKTOP - PGSIZE) PGSIZE ∪
      (pagesOf (notedImage.pVa (notedImage.ph 1)) (notedImage.pMemsz (notedImage.ph 1)) ∪
        (pagesOf (notedImage.pVa (notedImage.ph 0)) (notedImage.pMemsz (notedImage.ph 0)) ∪ ∅)) ⊆
          notedPages := by decide
  obtain ⟨grants1, s1, run1, filled1, quiet1, _, _⟩ := filling.segment first.dir rfl (by decide)
    fits0 (rooms_spare fits0 sub0 spare) []
  obtain ⟨grants2, s2, run2, filled2, quiet2, _, bytes⟩ := filled1.segment first.dir
    (quiet1.cr3.trans rfl) (by decide) fits1 (rooms_spare fits1 sub1 spare) grants1
  have looped : times (fun k got => loadSegment (0 : Fin NENV) notedImage (notedImage.ph k) got)
      notedImage.phCount ([], lcr3 s p) = .ok (grants2, s2) := by
    have count : notedImage.phCount = 2 := by decide
    rw [count]
    exact bind_ok.mpr ⟨_, bind_ok.mpr ⟨_, rfl, run1⟩, run2⟩
  obtain ⟨s3, at_s3⟩ : ∃ s3, s3 = lcr3 (s2.setEnv (0 : Fin NENV) { s2.envs (0 : Fin NENV) with
    envTf := { (s2.envs (0 : Fin NENV)).envTf with
      tfEip := UInt32.ofNat notedImage.eEntry } }) s2.kernPgdir := ⟨_, rfl⟩
  have same : Untouched (dirsOf s) s2 s3 := by
    rw [at_s3]
    exact (entry_untouched _ s2 (0 : Fin NENV) _).trans (lcr3_untouched _ _ _)
  have mem : s3.mem = s2.mem := by
    rw [at_s3]
    rfl
  have filled3 := filled2.same same mem
  have fits2 : USTACKTOP - PGSIZE + PGSIZE ≤ UTOP := by decide
  obtain ⟨grants', s', stack, _, _, kept⟩ := filled3.region first.dir fits2
    (rooms_spare fits2 sub2 spare) grants2
  rw [at_s3] at stack
  have magic : notedImage.eMagic = ELF_MAGIC := by decide
  have known : (s.envs (0 : Fin NENV)).envPgdir = some p := (dirsOf_some.mp first.dir).2
  refine ⟨grants', s', loadIcode_run magic known looped stack, ?_⟩
  rw [kept 0x1000 (by decide) (by decide), byteAt_congr mem]
  exact bytes 0 (by decide)

theorem plainImage_wellFormed : WellFormed plainImage :=
  oneSegment_wellFormed (by decide) (by decide) (by decide) (by decide) (by decide) (by decide)

end Noted

/-- With a note inside its segment the same program is not the same in memory: the page the
    segment was read into is gone. -/
theorem load_icode_loads_notes : ¬ ∀ s0, Reached smallMachine loadsLow s0 →
    ∀ parentId (e : Fin NENV) s, envAlloc s0 parentId = .ok (0, some e.val, s) →
      ∀ b b', SameProgram b b' → Assumed (loadable (headers b)) →
        ∀ grants grants' s1 s2, loadIcode s e b = .ok (grants, s1) →
          loadIcode s e b' = .ok (grants', s2) →
            ∀ pgdir, (s.envs e).envPgdir = some pgdir → ∀ va, va < UTOP →
              byteAt s1 pgdir va = byteAt s2 pgdir va := by
  intro claim
  obtain ⟨s0, p, s, fl, reached, fresh, first⟩ := @first_alloc loadsLow
  have cost : (touched plainImage).card + (tablesOf (touched plainImage)).card = 4 := by decide
  have enough := first.enough
  obtain ⟨grants, s1, run, _, correct⟩ := loadIcode_total first.inv.tidy first.books first.dir
    first.tables plainImage_wellFormed (by omega)
  obtain ⟨grants', s2, run', wiped⟩ := notedImage_run first
  have known : (s.envs (0 : Fin NENV)).envPgdir = some p := (dirsOf_some.mp first.dir).2
  have program : SameProgram plainImage notedImage :=
    ⟨by decide, by decide, by decide, by decide⟩
  have assumed : Assumed (loadable (headers plainImage)) := by
    rw [plainImage_headers]
    refine ⟨by decide, by decide, List.pairwise_singleton _ _⟩
  have same := claim s0 reached 0 0 s fresh plainImage notedImage program assumed grants grants' s1 s2
    run run' p known 0x1000 (by decide)
  have read := correct.bytes 0 (by decide) 0 (by decide)
  have there : byteAt s1 p 0x1000 = some 0xAB := read
  rw [there, wiped] at same
  cases same

end JosHeaderTable
