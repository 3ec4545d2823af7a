import Jos.UserMemRights
import Mathlib.Order.Bounds.Basic

/- What user_mem_check reports. The loop steps from page to page while the range is one of bytes,
   so the address of the first bad page is lifted to va where the page begins before it. -/
namespace JosUserMemFault
open JosLayout FrameWords JosMachine JosPmap JosMmu JosEnv JosBoot JosAccounting JosPageOps
open JosEnvSpace JosStaticMap JosKernelView JosPageRuns JosRefWrap JosDirRights JosUserMemCheck
open JosUserMemRights IntrusiveList Ledger TableForest CountedLoop

/-- At or above ULIM, or on a page without a present PTE that has all the bits of perm. -/
def Bad (s : State) (pgdir perm a : Nat) : Prop :=
  ULIM ≤ a ∨ ¬ ∃ t, walk s pgdir a = some t ∧ t.pte &&& perm = perm

def badBytes (s : State) (pgdir perm va len : Nat) : Set Nat :=
  {a | va ≤ a ∧ a < va + len ∧ Bad s pgdir perm a}

def Walkable (s : State) (pgdir : Nat) : Prop :=
  ∀ d, d < NPDENTRIES → Present (s.entry pgdir d) → ppn (s.entry pgdir d) < s.npages

/-- user_mem_check returns, with -E_FAULT exactly when the range has a bad address, which it then
    records the least of; nothing else changes. -/
def ReportsFirstBad (s : State) (e pgdir va len perm : Nat) : Prop :=
  ∃ r, ∃ s' : State, userMemCheck s (some e) va len perm = .ok (r, s') ∧
    (r = -E_FAULT ↔ (badBytes s pgdir perm va len).Nonempty) ∧
    (r = -E_FAULT → IsLeast (badBytes s pgdir perm va len) s'.userMemCheckAddr ∧
      (Bad s pgdir perm (roundDown va PGSIZE) → s'.userMemCheckAddr = va)) ∧
    (r ≠ -E_FAULT → r = 0 ∧ s' = s) ∧
    s' = { s with userMemCheckAddr := s'.userMemCheckAddr }

section Directories
variable {m : Machine} {dirs : Dirs} {s : State} {e : Fin NENV} {pgdir : Nat}

theorem env_walkable (view : View m dirs s) (he : dirs e = some pgdir) : Walkable s pgdir := by
  obtain ⟨fl, acc⟩ := view.kept.books
  have shaped := view.shaped e pgdir he
  intro d slot present
  by_cases user : d < userPdes
  · have table : target dirs none s (.table e ⟨d, user⟩) = some (ppn (s.entry pgdir d)) :=
      (table_entry he).mpr ⟨present, rfl⟩
    exact (acc.targets _ _ table).1
  · by_cases self : d = uvptPde
    · have root := root_managed acc he
      rw [self, shaped.uvpt, ppn_mapEntry (managed_room acc root) (by decide)]
      exact root.1
    · have static : StaticPde d := ⟨Nat.not_lt.mp user, slot, self⟩
      rw [shaped.high d static] at present ⊢
      have fixed : target dirs none s (.fixed ⟨d, slot⟩) = some (ppn (s.entry s.kernPgdir d)) := by
        rw [fixed_entry static]
        exact entryPage_some.mpr ⟨present, rfl⟩
      exact (acc.targets _ _ fixed).1

end Directories

section Loop
variable {s : State} {e pgdir va perm : Nat}

theorem bad_same_page {a b : Nat} (same : a / PGSIZE = b / PGSIZE) (bad : Bad s pgdir perm a) :
    Bad s pgdir perm b := by
  have same' : a / 4096 = b / 4096 := same
  have dirs : pdx a = pdx b := by
    rw [pdx_eq, pdx_eq]
    omega
  have tables : ptx a = ptx b := by
    rw [ptx_eq, ptx_eq, same']
  rcases bad with high | refused
  · left
    simp only [ULIM, MMIOBASE, MMIOLIM, KSTACKTOP, KERNBASE, PTSIZE, PGSIZE, NPTENTRIES] at high ⊢
    omega
  · right
    simp only [walk, dirs, tables] at refused ⊢
    exact refused

theorem loop_good {addr pages : Nat} (dir : (s.envs e).envPgdir = some pgdir)
    (tables : Walkable s pgdir) (good : ¬ Bad s pgdir perm addr) :
    userMemCheckLoop s (some e) va perm addr (pages + 1) =
      userMemCheckLoop s (some e) va perm (addr + PGSIZE) pages := by
  unfold Bad at good
  simp only [not_or, not_not, Nat.not_le] at good
  obtain ⟨low, t, walked, granted⟩ := good
  obtain ⟨present, _, same⟩ := walk_some.mp walked
  have room : ppn t.pde < s.npages := by
    rw [same]
    exact tables (pdx addr) (pdx_lt addr) present
  exact loop_passes ⟨low, e, pgdir, t, rfl, dir, walked, room, granted⟩

theorem loop_bad {addr pages : Nat} (dir : (s.envs e).envPgdir = some pgdir)
    (tables : Walkable s pgdir) (bad : Bad s pgdir perm addr) :
    userMemCheckLoop s (some e) va perm addr (pages + 1) =
      .ok (-E_FAULT, { s with userMemCheckAddr := if addr < va then va else addr }) := by
  by_cases present : Present (s.entry pgdir (pdx addr))
  · have room := tables (pdx addr) (pdx_lt addr) present
    have found : badPage s (some ⟨ppn (s.entry pgdir (pdx addr)), ptx addr⟩) addr perm := by
      rcases bad with high | refused
      · exact Or.inl high
      · right
        by_contra fine
        simp only [not_or, not_not, ne_eq] at fine
        exact refused ⟨_, walk_some.mpr ⟨present, fine.1, rfl⟩, fine.2⟩
    simp only [userMemCheckLoop, derefEnv, derefPgdir, dir, bind, Except.bind,
      pgdirWalk_present present room, if_pos found]
  · have found : badPage s none addr perm := Or.inr trivial
    simp only [userMemCheckLoop, derefEnv, derefPgdir, dir, bind, Except.bind,
      pgdirWalk_absent present, if_pos found]

/-- The loop stops at the first bad page it visits. -/
theorem loop_reports (dir : (s.envs e).envPgdir = some pgdir) (tables : Walkable s pgdir)
    (addr pages : Nat) :
    (∃ j, j < pages ∧ Bad s pgdir perm (addr + j * PGSIZE) ∧
      (∀ i, i < j → ¬ Bad s pgdir perm (addr + i * PGSIZE)) ∧
      userMemCheckLoop s (some e) va perm addr pages =
        .ok (-E_FAULT, { s with userMemCheckAddr :=
          if addr + j * PGSIZE < va then va else addr + j * PGSIZE })) ∨
    ((∀ j, j < pages → ¬ Bad s pgdir perm (addr + j * PGSIZE)) ∧
      userMemCheckLoop s (some e) va perm addr pages = .ok (0, s)) := by
  induction pages generalizing addr with
  | zero =>
    right
    refine ⟨?_, rfl⟩
    intro j small
    omega
  | succ pages ih =>
    have start : addr = addr + 0 * PGSIZE := by simp
    by_cases bad : Bad s pgdir perm addr
    · left
      refine ⟨0, by omega, by rwa [← start], ?_, ?_⟩
      · intro i small
        omega
      · rw [loop_bad dir tables bad, ← start]
    · rw [loop_good dir tables bad]
      have before : ∀ i, (∀ i', i' + 1 = i → ¬ Bad s pgdir perm (addr + PGSIZE + i' * PGSIZE)) →
          ¬ Bad s pgdir perm (addr + i * PGSIZE) := by
        intro i later
        cases i with
        | zero => rwa [← start]
        | succ i =>
          rw [← next_page]
          exact later i rfl
      rcases ih (addr + PGSIZE) with ⟨j, small, found, earlier, run⟩ | ⟨none_bad, run⟩
      · left
        rw [next_page] at found run
        refine ⟨j + 1, by omega, found, ?_, run⟩
        intro i less
        apply before
        intro i' next
        exact earlier i' (by omega)
      · right
        refine ⟨?_, run⟩
        intro i less
        apply before
        intro i' next
        exact none_bad i' (by omega)

end Loop

section Range
variable {s : State} {pgdir perm va len : Nat}

def firstByte (va j : Nat) : Nat :=
  if roundDown va PGSIZE + j * PGSIZE < va then va else roundDown va PGSIZE + j * PGSIZE

theorem firstByte_page (va j : Nat) :
    (roundDown va PGSIZE + j * PGSIZE) / PGSIZE = firstByte va j / PGSIZE := by
  unfold firstByte
  simp only [roundDown_eq, PGSIZE]
  split <;> omega

theorem firstByte_inside (fits : Fits va len) (nonempty : 0 < len) {j : Nat}
    (small : j < visited va len) : va ≤ firstByte va j ∧ firstByte va j < va + len := by
  unfold Fits at fits
  unfold firstByte
  simp only [visited, roundUp, roundDown_eq, PGSIZE, WORD] at *
  split <;> omega

theorem firstByte_least {a i j : Nat} (above : va ≤ a) (order : j ≤ i)
    (page : (roundDown va PGSIZE + i * PGSIZE) / PGSIZE = a / PGSIZE) : firstByte va j ≤ a := by
  unfold firstByte
  simp only [roundDown_eq, PGSIZE] at *
  split <;> omega

theorem firstByte_zero (va : Nat) : firstByte va 0 = va := by
  unfold firstByte
  simp only [roundDown_eq, PGSIZE]
  split <;> omega

theorem badByte_page (fits : Fits va len) {a : Nat} (bad : a ∈ badBytes s pgdir perm va len) :
    ∃ j, j < visited va len ∧ (roundDown va PGSIZE + j * PGSIZE) / PGSIZE = a / PGSIZE ∧
      Bad s pgdir perm (roundDown va PGSIZE + j * PGSIZE) := by
  obtain ⟨above, below, bad⟩ := bad
  obtain ⟨j, small, page⟩ := visited_covers fits (show a - va < len by omega)
  rw [Nat.add_sub_cancel' above] at page
  exact ⟨j, small, page, bad_same_page page.symm bad⟩

theorem firstByte_isLeast (fits : Fits va len) (nonempty : 0 < len) {j : Nat}
    (small : j < visited va len) (bad : Bad s pgdir perm (roundDown va PGSIZE + j * PGSIZE))
    (earlier : ∀ i, i < j → ¬ Bad s pgdir perm (roundDown va PGSIZE + i * PGSIZE)) :
    IsLeast (badBytes s pgdir perm va len) (firstByte va j) := by
  obtain ⟨above, below⟩ := firstByte_inside fits nonempty small
  constructor
  · exact ⟨above, below, bad_same_page (firstByte_page va j) bad⟩
  · intro a member
    obtain ⟨i, _, page, found⟩ := badByte_page fits member
    have order : j ≤ i := by
      by_contra less
      exact earlier i (by omega) found
    exact firstByte_least member.1 order page

end Range

/-- In every state, for every directory whose tables lie in memory, as an environment's do. -/
theorem user_mem_check_reports_first_bad {s : State} {e pgdir : Nat} {va len : UInt32} {perm : Nat}
    (dir : (s.envs e).envPgdir = some pgdir) (tables : Walkable s pgdir)
    (nonempty : 0 < len.toNat) (fits : Fits va.toNat len.toNat) :
    ReportsFirstBad s e pgdir va.toNat len.toNat perm := by
  rcases @loop_reports s e pgdir va.toNat perm dir tables (roundDown va.toNat PGSIZE)
      (visited va.toNat len.toNat) with ⟨j, small, bad, earlier, run⟩ | ⟨none_bad, run⟩
  · have least := firstByte_isLeast fits nonempty small bad earlier
    refine ⟨-E_FAULT, { s with userMemCheckAddr := firstByte va.toNat j }, run, ?_, ?_, ?_, rfl⟩
    · exact ⟨fun _ => ⟨_, least.1⟩, fun _ => rfl⟩
    · intro _
      refine ⟨least, ?_⟩
      intro first
      have start : j = 0 := by
        by_contra later
        apply earlier 0 (by omega)
        simpa using first
      subst start
      exact firstByte_zero va.toNat
    · intro other
      exact absurd rfl other
  · have fault : (0 : Int) ≠ -E_FAULT := by decide
    refine ⟨0, s, run, ?_, ?_, fun _ => ⟨rfl, rfl⟩, rfl⟩
    · constructor
      · intro equal
        exact absurd equal fault
      · intro found
        obtain ⟨a, member⟩ := found
        obtain ⟨j, small, _, bad⟩ := badByte_page fits member
        exact absurd bad (none_bad j small)
    · intro equal
      exact absurd equal fault

theorem user_mem_check_reports_first_bad_onePage : ∃ pgdir, ∃ s : State,
    ReportsFirstBad s 0 pgdir (0x800 : UInt32).toNat (0x2000 : UInt32).toNat PTE_U := by
  obtain ⟨pgdir, pp, s, fl, one⟩ := onePage_run
  have view := onePage_view one
  have he := oneDir_self pgdir
  have dir : (s.envs 0).envPgdir = some pgdir := view.kept.known 0 pgdir he
  exact ⟨pgdir, s, user_mem_check_reports_first_bad dir (env_walkable view he) (by decide)
    (by unfold Fits; decide)⟩

end JosUserMemFault
