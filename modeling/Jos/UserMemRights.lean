import Jos.DirRights
import Jos.UserMemCheck

/- user_mem_check looks at page table entries only, the processor at both levels. They agree but
   for the slot at UVPT, where the entries looked at are the directory's own: the directory maps
   itself there without PTE_W. -/
namespace JosUserMemRights
open JosLayout FrameWords JosMachine JosPmap JosMmu JosEnv JosBoot JosAccounting JosPageOps
open JosMapping JosEnvSpace JosStaticMap JosKernelView JosBootPages JosPageRuns JosRefWrap
open JosDirRights JosUserMemCheck IntrusiveList Ledger TableForest CountedLoop

/-- User-mode code may read the byte at a, and write it if perm asks for that. -/
def userMay (s : State) (pgdir a perm : Nat) : Prop :=
  ∃ t, walk s pgdir a = some t ∧ Translation.user t ∧ (Writable perm → Translation.writable t)

/-- user_mem_check passes the range exactly when the processor does. -/
def CheckAgrees (s : State) (e : Fin NENV) (pgdir : Nat) (va len : UInt32) (perm : Nat) : Prop :=
  (∃ s', userMemCheck s (some e.val) va.toNat len.toNat perm = .ok (0, s')) ↔
    ∀ k, k < len.toNat → userMay s pgdir (va.toNat + k) perm

def Asked (perm : Nat) : Prop := perm = PTE_U ∨ perm = PTE_U ||| PTE_W

section Flags
variable {perm : Nat}

theorem user_flag (x : Nat) : x &&& PTE_U = PTE_U ↔ UserBit x := by
  have bit : x &&& 2 ^ 2 = (x.testBit 2).toNat * 2 ^ 2 := Nat.and_two_pow x 2
  unfold UserBit
  change x &&& 2 ^ 2 = 2 ^ 2 ↔ x &&& 2 ^ 2 ≠ 0
  rw [bit]
  cases x.testBit 2 <;> decide

theorem both_flags (x : Nat) :
    x &&& (PTE_U ||| PTE_W) = PTE_U ||| PTE_W ↔ UserBit x ∧ Writable x := by
  have bit2 : x &&& PTE_U = (x.testBit 2).toNat * 2 ^ 2 := Nat.and_two_pow x 2
  have bit1 : x &&& PTE_W = (x.testBit 1).toNat * 2 ^ 1 := Nat.and_two_pow x 1
  unfold UserBit Writable
  rw [Nat.and_or_distrib_left, bit2, bit1]
  cases x.testBit 2 <;> cases x.testBit 1 <;> decide

theorem granted_iff (asked : Asked perm) (x : Nat) :
    x &&& perm = perm ↔ UserBit x ∧ (Writable perm → Writable x) := by
  rcases asked with rfl | rfl
  · rw [user_flag]
    have reads : ¬ Writable PTE_U := by decide
    exact ⟨fun user => ⟨user, fun writes => absurd writes reads⟩, fun both => both.1⟩
  · rw [both_flags]
    have writes : Writable (PTE_U ||| PTE_W) := by decide
    exact ⟨fun both => ⟨both.1, fun _ => both.2⟩, fun both => ⟨both.1, both.2 writes⟩⟩

end Flags

theorem slot_cases {a : Nat} (low : a < ULIM) :
    pdx a < userPdes ∨ (StaticPde (pdx a) ∧ vpn a < ULIM / PGSIZE ∧ a < UVPT) ∨
      (pdx a = uvptPde ∧ UVPT ≤ a) := by
  unfold StaticPde vpn
  rw [pdx_eq]
  simp only [userPdes, uvptPde, NPDENTRIES, ULIM, UVPT, MMIOBASE, MMIOLIM, KSTACKTOP, KERNBASE,
    PTSIZE, PGSIZE, NPTENTRIES, WORD] at *
  omega

section Page
variable {m : Machine} {dirs : Dirs} {s : State} {e : Fin NENV} {pgdir a perm : Nat}

theorem walk_static (view : View m dirs s) (he : dirs e = some pgdir) (static : StaticPde (pdx a))
    {t : Translation} (walked : walk s pgdir a = some t) :
    Present (s.entry s.kernPgdir (pdx a)) ∧ t.pde = s.entry s.kernPgdir (pdx a) ∧
      t.pte = kernPte s a := by
  obtain ⟨pde, pte, rfl⟩ := walk_some.mp walked
  have same := (view.shaped e pgdir he).high (pdx a) static
  rw [same] at pde
  refine ⟨pde, same, ?_⟩
  unfold kernPte
  rw [if_pos pde, ← same]

theorem walk_room (view : View m dirs s) (he : dirs e = some pgdir) (low : a < ULIM)
    {t : Translation} (walked : walk s pgdir a = some t) : ppn t.pde < s.npages := by
  obtain ⟨fl, acc⟩ := view.kept.books
  rcases slot_cases low with user | ⟨static, _, _⟩ | ⟨self, _⟩
  · obtain ⟨pde, _, rfl⟩ := walk_some.mp walked
    have ht : target dirs none s (.table e ⟨pdx a, user⟩) = some (ppn (s.entry pgdir (pdx a))) :=
      (table_entry he).mpr ⟨pde, rfl⟩
    exact (acc.targets _ _ ht).1
  · obtain ⟨present, pde, _⟩ := walk_static view he static walked
    have fixed : target dirs none s (.fixed ⟨pdx a, static.2.1⟩) = some (ppn t.pde) := by
      rw [fixed_entry static, ← pde]
      rw [← pde] at present
      exact entryPage_some.mpr ⟨present, rfl⟩
    exact (acc.targets _ _ fixed).1
  · obtain ⟨pde, _, rfl⟩ := walk_some.mp walked
    have root := root_managed acc he
    dsimp only
    rw [self, (view.shaped e pgdir he).uvpt, ppn_mapEntry (managed_room acc root) (by decide)]
    exact root.1

theorem accessible_iff (view : View m dirs s) (he : dirs e = some pgdir) (low : a < ULIM)
    (asked : Asked perm) :
    Accessible s (some e.val) a perm ↔ ∃ t, walk s pgdir a = some t ∧ UserBit t.pte ∧
      (Writable perm → Writable t.pte) := by
  have dir := view.kept.known e pgdir he
  constructor
  · intro access
    obtain ⟨_, e', pgdir', t, here, dir', walked, _, granted⟩ := access
    cases here
    rw [dir] at dir'
    cases dir'
    exact ⟨t, walked, (granted_iff asked t.pte).mp granted⟩
  · intro rights
    obtain ⟨t, walked, rights⟩ := rights
    exact ⟨low, e, pgdir, t, rfl, dir, walked, walk_room view he low walked,
      (granted_iff asked t.pte).mpr rights⟩

theorem page_agrees (view : View m dirs s) (he : dirs e = some pgdir) (low : a < ULIM)
    (asked : Asked perm) (plain : perm = PTE_U ∨ a < UVPT) :
    Accessible s (some e.val) a perm ↔ userMay s pgdir a perm := by
  rw [accessible_iff view he low asked]
  constructor
  · intro rights
    obtain ⟨t, walked, user, writes⟩ := rights
    have pde : UserBit t.pde ∧ (Writable perm → Writable t.pde) := by
      rcases slot_cases low with slot | ⟨static, below, _⟩ | ⟨self, high⟩
      · obtain ⟨present, _, rfl⟩ := walk_some.mp walked
        obtain ⟨grants, open_write⟩ := (view.shaped e pgdir he).low (pdx a) slot present
        exact ⟨grants, fun _ => open_write⟩
      · obtain ⟨present, pde, pte⟩ := walk_static view he static walked
        rw [pde]
        refine ⟨(view.grants _ static present).1, fun asks => ?_⟩
        have writable := writes asks
        rw [pte] at writable
        exact absurd writable (view.readonly static below)
      · obtain ⟨_, _, rfl⟩ := walk_some.mp walked
        have reads : perm = PTE_U := plain.resolve_right (Nat.not_lt.mpr high)
        dsimp only
        rw [self, (view.shaped e pgdir he).uvpt, reads]
        refine ⟨?_, fun asks => absurd asks (by decide)⟩
        unfold UserBit
        rw [mapEntry_and (by decide) (by decide)]
        decide
    exact ⟨t, walked, ⟨pde.1, user⟩, fun asks => ⟨pde.2 asks, writes asks⟩⟩
  · intro may
    obtain ⟨t, walked, ⟨_, user⟩, writes⟩ := may
    exact ⟨t, walked, user, fun asks => (writes asks).2⟩

theorem uvpt_denied (view : View m dirs s) (he : dirs e = some pgdir) (self : pdx a = uvptPde)
    (asks : Writable perm) : ¬ userMay s pgdir a perm := by
  intro may
  obtain ⟨t, walked, _, writes⟩ := may
  obtain ⟨_, _, rfl⟩ := walk_some.mp walked
  have writable := (writes asks).1
  dsimp only at writable
  rw [self, (view.shaped e pgdir he).uvpt] at writable
  unfold Writable at writable
  rw [mapEntry_and (by decide) (by decide)] at writable
  exact writable (by decide)

/-- A directory entry with which the check passes the page that shows its table. -/
def OpenEntry (x : Nat) : Prop := Present x ∧ UserBit x ∧ Writable x

theorem uvpt_accessible (view : View m dirs s) (he : dirs e = some pgdir) (self : pdx a = uvptPde)
    (low : a < ULIM) :
    Accessible s (some e.val) a (PTE_U ||| PTE_W) ↔ OpenEntry (s.entry pgdir (ptx a)) := by
  obtain ⟨fl, acc⟩ := view.kept.books
  have writes : Writable (PTE_U ||| PTE_W) := by decide
  have pde : s.entry pgdir (pdx a) = mapEntry pgdir PTE_U := by
    rw [self, (view.shaped e pgdir he).uvpt]
  have named : ppn (s.entry pgdir (pdx a)) = pgdir := by
    rw [pde]
    exact ppn_mapEntry (managed_room acc (root_managed acc he)) (by decide)
  have present : Present (s.entry pgdir (pdx a)) := by
    rw [pde]
    exact present_mapEntry (by decide)
  rw [accessible_iff view he low (Or.inr rfl)]
  constructor
  · intro rights
    obtain ⟨t, walked, user, writable⟩ := rights
    obtain ⟨_, pte, rfl⟩ := walk_some.mp walked
    rw [named] at pte
    dsimp only at user writable
    rw [named] at user writable
    exact ⟨pte, user, writable writes⟩
  · intro shown
    obtain ⟨pte, user, writable⟩ := shown
    refine ⟨_, walk_some.mpr ⟨present, ?_, rfl⟩, ?_, ?_⟩
    · rw [named]
      exact pte
    · dsimp only
      rw [named]
      exact user
    · intro _
      dsimp only
      rw [named]
      exact writable

end Page

section Range
variable {m : Machine} {dirs : Dirs} {s : State} {e : Fin NENV} {pgdir perm va len : Nat}

theorem visited_inside (fits : va + len ≤ ULIM) (nonempty : 0 < len) {j : Nat}
    (small : j < visited va len) :
    ∃ k, k < len ∧ (va + k) / PGSIZE = (roundDown va PGSIZE + j * PGSIZE) / PGSIZE := by
  refine ⟨roundDown va PGSIZE + j * PGSIZE - va, ?_, ?_⟩
  · simp only [visited, roundUp, roundDown_eq, ULIM, MMIOBASE, MMIOLIM, KSTACKTOP, KERNBASE,
      PTSIZE, PGSIZE, NPTENTRIES, WORD] at *
    omega
  · simp only [roundDown_eq, PGSIZE] at *
    omega

theorem check_bytes (fits : va + len ≤ ULIM) (nonempty : 0 < len) (env : Option Nat) :
    (∃ s', userMemCheck s env va len perm = .ok (0, s')) ↔
      ∀ k, k < len → Accessible s env (va + k) perm := by
  have small : Fits va len := Nat.le_trans fits (by decide)
  rw [check_zero_iff]
  constructor
  · intro pages k inside
    obtain ⟨j, within, same⟩ := visited_covers small inside
    exact accessible_same_page same (pages j within)
  · intro bytes j within
    obtain ⟨k, inside, same⟩ := visited_inside fits nonempty within
    exact accessible_same_page same (bytes k inside)

/-- A range that meets the slot at UVPT and begins below it holds a page of pages[], which is
    read-only in both views. -/
theorem both_refuse (view : View m dirs s) (he : dirs e = some pgdir) (below : va < UVPT)
    (meets : UVPT < va + len) (asks : perm = PTE_U ||| PTE_W) :
    ∃ k, k < len ∧ ¬ Accessible s (some e.val) (va + k) perm ∧ ¬ userMay s pgdir (va + k) perm := by
  have last : va + (UVPT - 1 - va) = UVPT - 1 := by omega
  have low : UVPT - 1 < ULIM := by decide
  have static : StaticPde (pdx (UVPT - 1)) := by
    unfold StaticPde
    decide
  have plain : perm = PTE_U ∨ UVPT - 1 < UVPT := Or.inr (by decide)
  have refused : ¬ userMay s pgdir (UVPT - 1) perm := by
    intro may
    obtain ⟨t, walked, _, writes⟩ := may
    have writable := (writes (asks ▸ by decide)).2
    rw [(walk_static view he static walked).2.2] at writable
    exact view.readonly static (by decide) writable
  refine ⟨UVPT - 1 - va, by omega, ?_, ?_⟩
  · rw [last, page_agrees view he low (Or.inr asks) plain]
    exact refused
  · rw [last]
    exact refused

def Bytewise (s : State) (e : Fin NENV) (pgdir va len perm : Nat) : Prop :=
  (∀ k, k < len → Accessible s (some e.val) (va + k) perm) ↔
    ∀ k, k < len → userMay s pgdir (va + k) perm

theorem agrees_plain (view : View m dirs s) (he : dirs e = some pgdir) (fits : va + len ≤ ULIM)
    (asked : Asked perm) (plain : perm = PTE_U ∨ va + len ≤ UVPT) :
    Bytewise s e pgdir va len perm := by
  apply forall₂_congr
  intro k inside
  refine page_agrees view he (by omega) asked ?_
  rcases plain with reads | below
  · exact Or.inl reads
  · exact Or.inr (by omega)

theorem agrees_below (view : View m dirs s) (he : dirs e = some pgdir) (fits : va + len ≤ ULIM)
    (asked : Asked perm) (below : va < UVPT) : Bytewise s e pgdir va len perm := by
  by_cases plain : perm = PTE_U ∨ va + len ≤ UVPT
  · exact agrees_plain view he fits asked plain
  · obtain ⟨writes, meets⟩ := not_or.mp plain
    obtain ⟨k, inside, check, may⟩ :=
      both_refuse view he below (Nat.not_le.mp meets) (asked.resolve_left writes)
    exact ⟨fun all => absurd (all k inside) check, fun all => absurd (all k inside) may⟩

theorem agrees_uvpt (view : View m dirs s) (he : dirs e = some pgdir) (fits : va + len ≤ ULIM)
    (nonempty : 0 < len) (high : UVPT ≤ va) :
    Bytewise s e pgdir va len (PTE_U ||| PTE_W) ↔
      ∃ k, k < len ∧ ¬ OpenEntry (s.entry pgdir (ptx (va + k))) := by
  have low : ∀ k, k < len → va + k < ULIM := by
    intro k inside
    omega
  have self : ∀ k, k < len → pdx (va + k) = uvptPde := by
    intro k inside
    rcases slot_cases (low k inside) with user | ⟨_, _, below⟩ | ⟨self, _⟩
    · have below := (pdx_user (Nat.lt_trans (low k inside) (by decide))).mp user
      have order : UTOP ≤ UVPT := by decide
      omega
    · omega
    · exact self
  have denied : ¬ userMay s pgdir (va + 0) (PTE_U ||| PTE_W) :=
    uvpt_denied view he (self 0 nonempty) (by decide)
  have shown : ∀ k, k < len → (Accessible s (some e.val) (va + k) (PTE_U ||| PTE_W) ↔
      OpenEntry (s.entry pgdir (ptx (va + k)))) :=
    fun k inside => uvpt_accessible view he (self k inside) (low k inside)
  constructor
  · intro agree
    by_contra all_open
    simp only [not_exists, not_and, not_not] at all_open
    exact denied (agree.mp (fun k inside => (shown k inside).mpr (all_open k inside)) 0 nonempty)
  · intro shut
    obtain ⟨k, inside, shut⟩ := shut
    constructor
    · intro all
      exact absurd ((shown k inside).mp (all k inside)) shut
    · intro all
      exact absurd (all 0 nonempty) denied

/-- When the check and the processor agree: for reading; for ranges that begin below UVPT; and
    where some page of the range shows no page table, or the directory itself. -/
def Agreeing (s : State) (pgdir va len perm : Nat) : Prop :=
  perm = PTE_U ∨ va < UVPT ∨
    ∃ k, k < len ∧ (ptx (va + k) = uvptPde ∨ ¬ Present (s.entry pgdir (ptx (va + k))))

theorem open_iff (view : View m dirs s) (he : dirs e = some pgdir) {d : Nat} (slot : d < 1024) :
    OpenEntry (s.entry pgdir d) ↔ d ≠ uvptPde ∧ Present (s.entry pgdir d) := by
  have shaped := view.shaped e pgdir he
  unfold OpenEntry
  constructor
  · intro all
    obtain ⟨present, _, writable⟩ := all
    refine ⟨?_, present⟩
    intro self
    rw [self, shaped.uvpt] at writable
    unfold Writable at writable
    rw [mapEntry_and (by decide) (by decide)] at writable
    exact writable (by decide)
  · intro there
    obtain ⟨other, present⟩ := there
    by_cases user : d < userPdes
    · exact ⟨present, shaped.low d user present⟩
    · have static : StaticPde d := ⟨Nat.not_lt.mp user, slot, other⟩
      rw [shaped.high d static] at present ⊢
      exact ⟨present, view.grants d static present⟩

theorem view_agrees (view : View m dirs s) (he : dirs e = some pgdir) (fits : va + len ≤ ULIM)
    (nonempty : 0 < len) (asked : Asked perm) :
    Bytewise s e pgdir va len perm ↔ Agreeing s pgdir va len perm := by
  unfold Agreeing
  by_cases reads : perm = PTE_U
  · exact ⟨fun _ => Or.inl reads, fun _ => agrees_plain view he fits asked (Or.inl reads)⟩
  · by_cases below : va < UVPT
    · exact ⟨fun _ => Or.inr (Or.inl below), fun _ => agrees_below view he fits asked below⟩
    · have writes := asked.resolve_left reads
      subst writes
      rw [agrees_uvpt view he fits nonempty (Nat.not_lt.mp below)]
      simp only [reads, below, false_or, open_iff view he (ptx_lt _), not_and_or, not_not, ne_eq]

end Range

/-- In every run that does not overflow a counter. -/
theorem user_mem_check_mmu {m : Machine} {dirs : Dirs} {s : State} {e : Fin NENV} {pgdir : Nat}
    {va len : UInt32} {perm : Nat} (reached : Reached m countRoom (fun _ _ => True) dirs s)
    (he : dirs e = some pgdir) (nonempty : 0 < len.toNat) (fits : va.toNat + len.toNat ≤ ULIM)
    (asked : Asked perm) :
    CheckAgrees s e pgdir va len perm ↔ Agreeing s pgdir va.toNat len.toNat perm := by
  have view := reached_view (fun _ _ run => (room_kept run).bounded) reached
  unfold CheckAgrees
  rw [check_bytes fits nonempty]
  exact view_agrees view he fits nonempty asked

section SmallMachine
variable {m : Machine} {dirs : Dirs} {s : State} {e : Fin NENV} {pgdir : Nat}

theorem smallMachine_idle {s : State} (run : MemInit (powerOn smallMachine) s) :
    ∀ e, e < NENV → (s.envs e).envStatus = ENV_FREE := by
  intro e _
  obtain ⟨_, _, boot⟩ := memInit_ok smallMachine run
  rw [boot.envs]
  rfl

theorem onePage_reached {pp : Nat} {fl : List Nat} (one : OnePage pgdir pp s fl) :
    Reached smallMachine countRoom (fun _ _ => True) (oneDir pgdir) s :=
  one.reached countRoom _ (fun _ _ _ _ _ unused => countRoom_unused unused) fun _ _ _ => trivial

theorem onePage_view {pp : Nat} {fl : List Nat} (one : OnePage pgdir pp s fl) :
    View smallMachine (oneDir pgdir) s :=
  reached_view (fun _ _ run => (room_kept run).bounded) (onePage_reached one)

theorem uvpt_first (view : View m dirs s) (he : dirs e = some pgdir)
    (present : Present (s.entry pgdir 0)) {k : Nat} (inside : k < (1 : UInt32).toNat) :
    OpenEntry (s.entry pgdir (ptx ((0xEF400000 : UInt32).toNat + k))) := by
  have first : k = 0 := by
    have one : (1 : UInt32).toNat = 1 := by decide
    omega
  subst first
  have slot : ptx ((0xEF400000 : UInt32).toNat + 0) = 0 := by decide
  rw [slot]
  obtain ⟨user, writable⟩ := (view.shaped e pgdir he).low 0 (by decide) present
  exact ⟨present, user, writable⟩

/-- One byte of the table that the processor shows at UVPT: the check lets user code write it. -/
theorem user_mem_check_uvpt : ¬ ∀ dirs s (e : Fin NENV) pgdir (va len : UInt32) perm,
    Reached smallMachine anyPage (fun _ _ => True) dirs s → dirs e = some pgdir →
    0 < len.toNat → va.toNat + len.toNat ≤ ULIM → Asked perm →
    CheckAgrees s e pgdir va len perm := by
  intro claim
  obtain ⟨pgdir, pp, s, fl, one⟩ := onePage_run
  have reached : Reached smallMachine anyPage (fun _ _ => True) (oneDir pgdir) s :=
    one.reached anyPage _ (fun _ _ _ _ _ _ => trivial) fun _ _ _ => trivial
  have view := onePage_view one
  have he := oneDir_self pgdir
  have nonempty : 0 < (1 : UInt32).toNat := by decide
  have fits : (0xEF400000 : UInt32).toNat + (1 : UInt32).toNat ≤ ULIM := by decide
  have agree := claim _ s 0 pgdir 0xEF400000 1 _ reached he nonempty fits (Or.inr rfl)
  unfold CheckAgrees at agree
  rw [check_bytes fits nonempty] at agree
  have bytewise : Bytewise s 0 pgdir (0xEF400000 : UInt32).toNat (1 : UInt32).toNat
      (PTE_U ||| PTE_W) := agree
  rw [agrees_uvpt view he fits nonempty (by decide)] at bytewise
  obtain ⟨k, inside, shut⟩ := bytewise
  exact shut (uvpt_first view he one.table inside)

theorem user_mem_check_mmu_smallMachine : ∃ pgdir s,
    CheckAgrees s 0 pgdir 0 0x1000 (PTE_U ||| PTE_W) ↔
      Agreeing s pgdir (0 : UInt32).toNat (0x1000 : UInt32).toNat (PTE_U ||| PTE_W) := by
  obtain ⟨pgdir, pp, s, fl, one⟩ := onePage_run
  exact ⟨pgdir, s, user_mem_check_mmu (onePage_reached one) (oneDir_self pgdir) (by decide) (by decide)
    (Or.inr rfl)⟩

end SmallMachine

end JosUserMemRights
