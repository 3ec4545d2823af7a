import Jos.Boot

/- user_mem_check against the range it is asked about. The sum va + len and its rounding are
   32-bit, so the pages the loop visits are the pages of the range only while neither wraps. -/
namespace JosUserMemCheck
open JosLayout FrameWords JosMachine JosPmap JosMmu JosBoot

def Accessible (s : State) (env : Option Nat) (a perm : Nat) : Prop :=
  a < ULIM ∧ ∃ e pgdir t, env = some e ∧ (s.envs e).envPgdir = some pgdir ∧
    walk s pgdir a = some t ∧ ppn t.pde < s.npages ∧ t.pte &&& perm = perm

/-- user_mem_check returns 0 only for ranges all of whose addresses, as integers, are accessible. -/
def CheckSound (s : State) (env : Option Nat) (va len perm : UInt32) : Prop :=
  ∀ s', userMemCheck s env va.toNat len.toNat perm.toNat = .ok (0, s') →
    ∀ k, k < len.toNat → Accessible s env (va.toNat + k) perm.toNat

section Page
variable {s : State} {env : Option Nat} {a b perm : Nat}

theorem accessible_same_page (same : a / PGSIZE = b / PGSIZE) (h : Accessible s env a perm) :
    Accessible s env b perm := by
  obtain ⟨low, e, pgdir, t, he, hp, walked, rest⟩ := h
  have same' : a / 4096 = b / 4096 := same
  have dirs : pdx a = pdx b := by
    rw [pdx_eq, pdx_eq]
    omega
  have tables : ptx a = ptx b := by
    rw [ptx_eq, ptx_eq, same']
  have low' : b < ULIM := by
    simp only [ULIM, MMIOBASE, MMIOLIM, KSTACKTOP, KERNBASE, PTSIZE, PGSIZE, NPTENTRIES] at low ⊢
    omega
  refine ⟨low', e, pgdir, t, he, hp, ?_, rest⟩
  simp only [walk, dirs, tables] at walked ⊢
  exact walked

end Page

section Loop
variable {s : State} {env : Option Nat} {va perm : Nat}

theorem loop_passes {addr pages : Nat} (h : Accessible s env addr perm) :
    userMemCheckLoop s env va perm addr (pages + 1) =
      userMemCheckLoop s env va perm (addr + PGSIZE) pages := by
  obtain ⟨low, e, pgdir, t, rfl, hp, walked, room, granted⟩ := h
  obtain ⟨pde, pte, rfl⟩ := walk_some.mp walked
  have fine : ¬ badPage s (some ⟨ppn (s.entry pgdir (pdx addr)), ptx addr⟩) addr perm := by
    intro bad
    rcases bad with high | absent | lacking
    · omega
    · exact absent pte
    · exact lacking granted
  simp only [userMemCheckLoop, derefEnv, derefPgdir, hp, bind, Except.bind,
    pgdirWalk_present pde room]
  rw [if_neg fine]

theorem loop_stops {addr pages : Nat} (h : ¬ Accessible s env addr perm) (s' : State) :
    userMemCheckLoop s env va perm addr (pages + 1) ≠ .ok (0, s') := by
  intro passed
  apply h
  unfold userMemCheckLoop at passed
  cases env with
  | none => simp [derefEnv, bind, Except.bind] at passed
  | some e =>
    simp only [derefEnv, derefPgdir, bind, Except.bind] at passed
    cases hp : (s.envs e).envPgdir with
    | none => simp [hp] at passed
    | some pgdir =>
      simp only [hp] at passed
      by_cases pde : Present (s.entry pgdir (pdx addr))
      · by_cases room : ppn (s.entry pgdir (pdx addr)) < s.npages
        · simp only [pgdirWalk_present pde room] at passed
          split at passed
          · simp [E_FAULT] at passed
          · rename_i fine
            simp only [badPage, not_or, not_not, Nat.not_le, ge_iff_le] at fine
            obtain ⟨low, pte, granted⟩ := fine
            exact ⟨low, e, pgdir, _, rfl, hp, walk_some.mpr ⟨pde, pte, rfl⟩, room, granted⟩
        · simp [pgdirWalk_wild pde room] at passed
      · simp [pgdirWalk_absent pde, badPage, E_FAULT] at passed

theorem next_page (addr j : Nat) : addr + PGSIZE + j * PGSIZE = addr + (j + 1) * PGSIZE := by
  simp only [PGSIZE]
  omega

theorem loop_zero_iff (addr pages : Nat) :
    (∃ s', userMemCheckLoop s env va perm addr pages = .ok (0, s')) ↔
      ∀ j, j < pages → Accessible s env (addr + j * PGSIZE) perm := by
  induction pages generalizing addr with
  | zero => simp [userMemCheckLoop]
  | succ pages ih =>
    constructor
    · intro passed j small
      by_cases first : Accessible s env addr perm
      · rw [loop_passes first, ih] at passed
        cases j with
        | zero => simpa using first
        | succ j =>
          have later := passed j (by omega)
          rwa [next_page] at later
      · obtain ⟨s', passed⟩ := passed
        exact absurd passed (loop_stops first s')
    · intro all
      have first : Accessible s env addr perm := by simpa using all 0 (by omega)
      rw [loop_passes first, ih]
      intro j small
      rw [next_page]
      exact all (j + 1) (by omega)

end Loop

def visited (va len : Nat) : Nat :=
  (roundUp ((va + len) % WORD) PGSIZE - roundDown va PGSIZE) / PGSIZE

theorem check_zero_iff (s : State) (env : Option Nat) (va len perm : Nat) :
    (∃ s', userMemCheck s env va len perm = .ok (0, s')) ↔
      ∀ j, j < visited va len → Accessible s env (roundDown va PGSIZE + j * PGSIZE) perm :=
  loop_zero_iff _ _

section Ranges
variable {va len : Nat}

def Fits (va len : Nat) : Prop := va + len ≤ WORD - PGSIZE

/-- The sum wraps, and ends inside the page va lies in, below va; this page is not the last one. -/
def OnePageWrap (va len : Nat) : Prop :=
  WORD ≤ va + len ∧ roundDown va PGSIZE < va + len - WORD ∧ roundDown va PGSIZE < WORD - PGSIZE

theorem visited_covers (fits : Fits va len) {k : Nat} (inside : k < len) :
    ∃ j, j < visited va len ∧ (roundDown va PGSIZE + j * PGSIZE) / PGSIZE = (va + k) / PGSIZE := by
  unfold Fits at fits
  refine ⟨(va + k) / PGSIZE - va / PGSIZE, ?_, ?_⟩
  · simp only [visited, roundUp, roundDown_eq, PGSIZE, WORD] at *
    omega
  · simp only [roundDown_eq, PGSIZE] at *
    omega

theorem visited_wrap_one (sva : va < WORD) (slen : len < WORD) (wraps : OnePageWrap va len) :
    visited va len = 1 := by
  unfold OnePageWrap at wraps
  simp only [visited, roundUp, roundDown_eq, PGSIZE, WORD] at *
  omega

theorem visited_wrap_none (sva : va < WORD) (slen : len < WORD) (unfit : ¬ Fits va len)
    (other : ¬ OnePageWrap va len) : visited va len = 0 := by
  unfold OnePageWrap at other
  unfold Fits at unfit
  simp only [visited, roundUp, roundDown_eq, PGSIZE, WORD] at *
  omega

theorem unfit_reaches_kernel (unfit : ¬ Fits va len) (some_byte : 0 < len) :
    ∃ k, k < len ∧ ULIM ≤ va + k := by
  refine ⟨len - 1, by omega, ?_⟩
  unfold Fits at unfit
  simp only [ULIM, MMIOBASE, MMIOLIM, KSTACKTOP, KERNBASE, PTSIZE, PGSIZE, NPTENTRIES, WORD] at *
  omega

end Ranges

/-- The check is sound for a range exactly when the range is empty, or fits below the last page,
    or wraps into its own first page and that page is refused. -/
theorem user_mem_check_sound_iff (s : State) (env : Option Nat) (va len perm : UInt32) :
    CheckSound s env va len perm ↔
      len = 0 ∨ Fits va.toNat len.toNat ∨
        (OnePageWrap va.toNat len.toNat ∧
          ¬ Accessible s env (roundDown va.toNat PGSIZE) perm.toNat) := by
  have sva : va.toNat < WORD := va.toNat_lt
  have slen : len.toNat < WORD := len.toNat_lt
  have judged := check_zero_iff s env va.toNat len.toNat perm.toNat
  constructor
  · intro sound
    by_contra none_holds
    simp only [not_or, not_and, not_not] at none_holds
    obtain ⟨nonempty, unfit, refused⟩ := none_holds
    have some_byte : 0 < len.toNat := by
      apply Nat.pos_of_ne_zero
      intro zero
      exact nonempty (UInt32.toNat_inj.mp zero)
    have passes : ∃ s', userMemCheck s env va.toNat len.toNat perm.toNat = .ok (0, s') := by
      rw [judged]
      intro j small
      by_cases wraps : OnePageWrap va.toNat len.toNat
      · rw [visited_wrap_one sva slen wraps] at small
        have first : j = 0 := by omega
        subst first
        simpa using refused wraps
      · rw [visited_wrap_none sva slen unfit wraps] at small
        omega
    obtain ⟨s', passes⟩ := passes
    obtain ⟨k, inside, high⟩ := unfit_reaches_kernel unfit some_byte
    have low := (sound s' passes k inside).1
    omega
  · intro when s' passes k inside
    rcases when with empty | fits | ⟨wraps, refused⟩
    · subst empty
      simp at inside
    · obtain ⟨j, small, same⟩ := visited_covers fits inside
      exact accessible_same_page same (judged.mp ⟨s', passes⟩ j small)
    · have first := judged.mp ⟨s', passes⟩ 0 (by rw [visited_wrap_one sva slen wraps]; omega)
      exact absurd (by simpa using first) refused

def emptySpace : State :=
  (powerOn smallMachine).setEnv 0 { idleEnv with envPgdir := some 1000 }

/-- The topmost page passes, with an empty directory: its end rounds to 0 and no page is visited. -/
theorem user_mem_check_topmost_page : ¬ CheckSound emptySpace (some 0) 0xFFFFF000 0x1000 4 := by
  intro sound
  have last := sound emptySpace rfl 0 (by decide)
  have low := last.1
  revert low
  decide

end JosUserMemCheck
