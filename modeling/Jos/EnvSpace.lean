import Jos.Mapping

/- env_setup_vm and env_free against the books: the directory goes up with one reference, and
   the teardown unlinks what the environment refers to, slot by slot, in the order of the loops. -/
namespace JosEnvSpace
open JosLayout FrameWords JosMachine JosPmap JosMmu JosEnv JosAccounting JosPageOps JosMapping
open IntrusiveList Ledger TableForest CountedLoop

section Setup
variable {dirs : Dirs} {hand : Option Nat} {s : State} {rest : List Nat} {e : Fin NENV} {p : Nat}

/-- PADDR(e->env_pgdir) | PTE_P | PTE_U -/
theorem selfEntry_eq (p : Nat) : page2pa p ||| PTE_P ||| PTE_U = mapEntry p PTE_U := by
  unfold mapEntry
  rw [Nat.or_assoc, Nat.or_assoc, Nat.or_comm PTE_P]

def newDir (s : State) (e p : Nat) : State :=
  let s := takeFree s p true
  let s := s.setRef p ((s.pages p).ppRef + 1)
  let s := s.setEnv e { s.envs e with envPgdir := some p }
  let s := s.setFrame p (s.mem s.kernPgdir)
  s.setEntry p (pdx UVPT) (page2pa p ||| PTE_P ||| PTE_U)

theorem newDir_envs (s : State) (e p : Nat) :
    (newDir s e p).envs = Function.update s.envs e { s.envs e with envPgdir := some p } := rfl

theorem newDir_mem_of_ne {q e : Nat} (differ : q ≠ p) : (newDir s e p).mem q = s.mem q := by
  simp [newDir, State.setEntry, State.setEnv, takeFree, differ]

theorem newDir_entry {e i : Nat} (kernel : p ≠ s.kernPgdir) (room : p < 1048576) :
    (newDir s e p).entry p i =
      if i = uvptPde then mapEntry p PTE_U else s.entry s.kernPgdir i := by
  have small : mapEntry p PTE_U < WORD := mapEntry_lt room (by decide)
  simp only [newDir, selfEntry_eq, ← uvptPde_eq]
  split
  · rename_i here
    subst here
    exact State.entry_setEntry_same _ _ _ _ small
  · rename_i other
    rw [State.entry_setEntry_of_ne _ _ _ _ (Or.inr other)]
    simp [State.entry, State.setEnv, takeFree, kernel.symm]

theorem envSetupVm_empty (acc : Accounted dirs hand s []) (e : Nat) :
    envSetupVm s e = .ok (-E_NO_MEM, s) := by
  unfold envSetupVm
  rw [pageAlloc_empty acc]
  rfl

theorem envSetupVm_take (acc : Accounted dirs hand s (p :: rest)) (e : Nat) :
    envSetupVm s e = .ok (0, newDir s e p) := by
  have managed := acc.managed p (by simp)
  unfold envSetupVm
  rw [pageAlloc_take acc]
  change (page2kva ((takeFree s p true).setRef p (((takeFree s p true).pages p).ppRef + 1)) p >>=
    _) = _
  rw [page2kva_ok (by exact managed.1)]
  rfl

theorem newDir_books (acc : Accounted dirs hand s (p :: rest)) (free_slot : dirs e = none) :
    Accounted (Function.update dirs e (some p)) hand (newDir s e p) rest ∧
      target (Function.update dirs e (some p)) hand (newDir s e p) =
        Function.update (target dirs hand s) (.root e) (some p) := by
  have managed := acc.managed p (by simp)
  have room := managed_room acc managed
  have kernel := managed_ne_kern acc managed
  have taken := takeFree_books acc true
  have taken_target := takeFree_target acc true
  have still_unused : (forest dirs hand (takeFree s p true)).Unused p := by
    intro x
    change target dirs hand (takeFree s p true) x ≠ some p
    rw [taken_target]
    exact acc.unused p (by simp) x
  have elsewhere : ∀ q, q ≠ p → ∀ j, (newDir s e p).entry q j = (takeFree s p true).entry q j := by
    intro q differ j
    unfold State.entry
    rw [newDir_mem_of_ne differ, takeFree_mem_of_ne true differ]
  have moved : target (Function.update dirs e (some p)) hand (newDir s e p) =
      Function.update (target dirs hand (takeFree s p true)) (.root e) (some p) := by
    refine Forest.target_attachRoot free_slot still_unused rfl ?_ rfl ?_ ?_
    · funext k
      simp only [forest]
      rw [show (newDir s e p).kernPgdir = s.kernPgdir from rfl,
        show (takeFree s p true).kernPgdir = s.kernPgdir from rfl, elsewhere _ kernel.symm]
    · intro d
      change entryPage ((newDir s e p).entry p d) = none
      have user : d.val ≠ uvptPde := by
        have := d.isLt
        simp only [userPdes, uvptPde] at this ⊢
        omega
      rw [newDir_entry kernel room, if_neg user]
      exact acc.kernEmpty d d.isLt
    · intro q j differ
      exact congrArg entryPage (elsewhere q differ j)
  refine ⟨?_, by rw [moved, taken_target]⟩
  have steady : Steady (takeFree s p true) (newDir s e p) := by
    refine ⟨rfl, rfl, rfl, ?_⟩
    intro j _
    rw [(takeFree_quiet s p true).kernPgdir, elsewhere _ kernel.symm]
  have vacant : target dirs hand (takeFree s p true) (.root e) = none := free_slot
  exact taken.link steady vacant ⟨managed.1, managed.2⟩ (List.nodup_cons.mp acc.nodup).1
    (fun _ => still_unused) moved rfl rfl

end Setup

section Teardown

/-- The leaves of table d, in the order in which the inner loop of env_free clears the first n. -/
def clearedLeaves (e : Fin NENV) (d : Fin userPdes) : Nat → List PageSlot
  | 0 => []
  | n + 1 => clearedLeaves e d n ++ if h : n < NPTENTRIES then [.leaf e d ⟨n, h⟩] else []

def clearedTables (e : Fin NENV) : Nat → List PageSlot
  | 0 => []
  | n + 1 => clearedTables e n ++
      if h : n < userPdes then clearedLeaves e ⟨n, h⟩ NPTENTRIES ++ [.table e ⟨n, h⟩] else []

/-- Everything through which an environment refers to pages, in the order of env_free. -/
def ownSlots (e : Fin NENV) : List PageSlot := clearedTables e userPdes ++ [.root e]

def Own (e : Fin NENV) : PageSlot → Prop
  | .hand => False
  | .root e' => e' = e
  | .table e' _ => e' = e
  | .leaf e' _ _ => e' = e
  | .fixed _ => False

theorem mem_clearedLeaves {e : Fin NENV} {d : Fin userPdes} {n : Nat} {x : PageSlot} :
    x ∈ clearedLeaves e d n ↔ ∃ i : Fin NPTENTRIES, i.val < n ∧ x = .leaf e d i := by
  induction n with
  | zero => simp [clearedLeaves]
  | succ n ih =>
    simp only [clearedLeaves, List.mem_append, ih]
    constructor
    · intro h
      rcases h with ⟨i, small, same⟩ | last
      · exact ⟨i, by omega, same⟩
      · split at last
        · rename_i bound
          exact ⟨⟨n, bound⟩, by simp, by simpa using last⟩
        · simp at last
    · intro h
      obtain ⟨i, small, same⟩ := h
      by_cases last : i.val = n
      · right
        subst last
        simp [same]
      · exact Or.inl ⟨i, by omega, same⟩

theorem mem_clearedTables {e : Fin NENV} {n : Nat} {x : PageSlot} :
    x ∈ clearedTables e n ↔ ∃ d : Fin userPdes, d.val < n ∧
      (x = .table e d ∨ ∃ i, x = .leaf e d i) := by
  induction n with
  | zero => simp [clearedTables]
  | succ n ih =>
    simp only [clearedTables, List.mem_append, ih]
    constructor
    · intro h
      rcases h with ⟨d, small, same⟩ | last
      · exact ⟨d, by omega, same⟩
      · split at last
        · rename_i bound
          refine ⟨⟨n, bound⟩, by simp, ?_⟩
          rcases List.mem_append.mp last with leaf | table
          · obtain ⟨i, _, same⟩ := mem_clearedLeaves.mp leaf
            exact Or.inr ⟨i, same⟩
          · exact Or.inl (by simpa using table)
        · simp at last
    · intro h
      obtain ⟨d, small, same⟩ := h
      by_cases last : d.val = n
      · right
        subst last
        rw [dif_pos d.isLt, List.mem_append]
        rcases same with table | ⟨i, leaf⟩
        · exact Or.inr (by simp [table])
        · exact Or.inl (mem_clearedLeaves.mpr ⟨i, i.isLt, leaf⟩)
      · exact Or.inl ⟨d, by omega, same⟩

theorem mem_ownSlots {e : Fin NENV} {x : PageSlot} : x ∈ ownSlots e ↔ Own e x := by
  simp only [ownSlots, List.mem_append, mem_clearedTables, List.mem_singleton]
  cases x with
  | hand => simp [Own]
  | root e' => simp [Own]
  | table e' d =>
    simp only [Slot.table.injEq, reduceCtorEq, exists_false, or_false, Own]
    constructor
    · intro h
      obtain ⟨_, _, same, _⟩ := h
      exact same
    · intro same
      exact ⟨d, d.isLt, same, rfl⟩
  | leaf e' d i =>
    simp only [reduceCtorEq, Slot.leaf.injEq, false_or, or_false, Own]
    constructor
    · intro h
      obtain ⟨_, _, _, same, _⟩ := h
      exact same
    · intro same
      exact ⟨d, d.isLt, i, same, rfl, rfl⟩
  | fixed k => simp [Own]

theorem clearedLeaves_nodup (e : Fin NENV) (d : Fin userPdes) (n : Nat) :
    (clearedLeaves e d n).Nodup := by
  induction n with
  | zero => simp [clearedLeaves]
  | succ n ih =>
    unfold clearedLeaves
    split
    · refine List.Nodup.append ih (List.nodup_singleton _) ?_
      intro x before last
      obtain ⟨i, small, same⟩ := mem_clearedLeaves.mp before
      rw [List.mem_singleton, same] at last
      cases last
      exact absurd small (Nat.lt_irrefl n)
    · simpa using ih

theorem clearedTables_nodup (e : Fin NENV) (n : Nat) : (clearedTables e n).Nodup := by
  induction n with
  | zero => simp [clearedTables]
  | succ n ih =>
    unfold clearedTables
    split
    · rename_i bound
      have row : (clearedLeaves e ⟨n, bound⟩ NPTENTRIES ++ [Slot.table e ⟨n, bound⟩]).Nodup := by
        refine List.Nodup.append (clearedLeaves_nodup e _ _) (List.nodup_singleton _) ?_
        intro x leaf table
        obtain ⟨i, _, same⟩ := mem_clearedLeaves.mp leaf
        rw [List.mem_singleton, same] at table
        cases table
      refine List.Nodup.append ih row ?_
      intro x before last
      obtain ⟨d, small, of_d⟩ := mem_clearedTables.mp before
      have of_n : ∃ d : Fin userPdes, d.val = n ∧ (x = .table e d ∨ ∃ i, x = .leaf e d i) := by
        rcases List.mem_append.mp last with leaf | table
        · obtain ⟨i, _, same⟩ := mem_clearedLeaves.mp leaf
          exact ⟨_, rfl, Or.inr ⟨i, same⟩⟩
        · exact ⟨_, rfl, Or.inl (by simpa using table)⟩
      obtain ⟨d', at_n, of_d'⟩ := of_n
      have apart : d ≠ d' := fun same => absurd small (by rw [same, at_n]; exact Nat.lt_irrefl n)
      rcases of_d with rfl | ⟨i, rfl⟩
      · rcases of_d' with same | ⟨i', same⟩
        · cases same
          exact apart rfl
        · cases same
      · rcases of_d' with same | ⟨i', same⟩
        · cases same
        · cases same
          exact apart rfl
    · simpa using ih

theorem ownSlots_nodup (e : Fin NENV) : (ownSlots e).Nodup := by
  refine List.Nodup.append (clearedTables_nodup e userPdes) (List.nodup_singleton _) ?_
  intro x table root
  obtain ⟨d, _, same⟩ := mem_clearedTables.mp table
  rw [List.mem_singleton] at root
  subst root
  rcases same with same | ⟨i, same⟩
  · cases same
  · cases same

variable {dirs : Dirs} {s0 s : State} {b0 : Book PageSlot Nat} {cleared : List PageSlot}
  {e : Fin NENV} {pgdir : Nat}

def OwnTable (b0 : Book PageSlot Nat) (e : Fin NENV) (q : Nat) : Prop :=
  b0.target (.root e) = some q ∨ ∃ d, b0.target (.table e d) = some q

/-- In the middle of env_free(e): the slots in cleared are unlinked, and memory outside the
    tables of e is as it was. -/
structure Freeing (dirs : Dirs) (e : Fin NENV) (s0 : State) (b0 : Book PageSlot Nat)
    (cleared : List PageSlot) (s : State) : Prop where
  books : Accounted dirs none s (unlinkAll b0 cleared).free
  target_eq : target dirs none s = (unlinkAll b0 cleared).target
  quiet : Quiet s0 s
  mem : ∀ q, ¬ OwnTable b0 e q → s.mem q = s0.mem q

theorem Freeing.bound (freeing : Freeing dirs e s0 b0 cleared s)
    (bounded : ∀ p, refs b0.target p < 65536) (p : Nat) : refs (target dirs none s) p ≤ 65536 := by
  have before := bounded p
  have fewer := refs_unlinkAll_le b0 cleared p
  rw [freeing.target_eq]
  omega

theorem Freeing.still (freeing : Freeing dirs e s0 b0 cleared s) {x : PageSlot}
    (later : x ∉ cleared) : target dirs none s x = b0.target x := by
  rw [freeing.target_eq, unlinkAll_target, if_neg later]

theorem Freeing.gone (freeing : Freeing dirs e s0 b0 cleared s) {x : PageSlot}
    (before : x ∈ cleared) : target dirs none s x = none := by
  rw [freeing.target_eq, unlinkAll_target, if_pos before]

theorem Freeing.skip (freeing : Freeing dirs e s0 b0 cleared s) {x : PageSlot}
    (empty : target dirs none s x = none) : Freeing dirs e s0 b0 (cleared ++ [x]) s := by
  have nothing : unlinkAll b0 (cleared ++ [x]) = unlinkAll b0 cleared := by
    rw [unlinkAll_snoc]
    apply unlink_empty
    rw [← freeing.target_eq]
    exact empty
  refine ⟨?_, ?_, freeing.quiet, freeing.mem⟩
  · rw [nothing]
    exact freeing.books
  · rw [nothing]
    exact freeing.target_eq

theorem Freeing.skipAll (freeing : Freeing dirs e s0 b0 cleared s) {xs : List PageSlot}
    (empty : ∀ x ∈ xs, target dirs none s x = none) : Freeing dirs e s0 b0 (cleared ++ xs) s := by
  induction xs generalizing cleared with
  | nil => simpa using freeing
  | cons x xs ih =>
    have first := freeing.skip (empty x (by simp))
    have rest := ih first fun y listed => empty y (by simp [listed])
    simpa using rest

theorem Freeing.book (freeing : Freeing dirs e s0 b0 cleared s) :
    (⟨(unlinkAll b0 cleared).free, target dirs none s⟩ : Book PageSlot Nat) =
      unlinkAll b0 cleared := by
  rw [freeing.target_eq]

/-- The state after env_free has taken the page table t out of slot d of pgdir. -/
def clearTable (s : State) (pgdir d t : Nat) : State := (pageDecref s t).setEntry pgdir d 0

theorem clearTable_quiet (s : State) (pgdir d t : Nat) : Quiet s (clearTable s pgdir d t) :=
  quiet_trans (pageDecref_quiet s t).1 rfl

theorem clearTable_mem_of_ne {d t q : Nat} (differ : q ≠ pgdir) :
    (clearTable s pgdir d t).mem q = s.mem q := by
  simp [clearTable, State.setEntry, differ, (pageDecref_quiet s t).2]

theorem clearTable_entry (s : State) (pgdir d t q j : Nat) :
    (clearTable s pgdir d t).entry q j = (s.setEntry pgdir d 0).entry q j := by
  simp only [clearTable, State.entry, State.setEntry, State.setFrame_mem, (pageDecref_quiet s t).2]

theorem clearTable_books {fl : List Nat} {d : Fin userPdes} {t : Nat}
    (acc : Accounted dirs none s fl) (he : dirs e = some pgdir)
    (ht : target dirs none s (.table e d) = some t) (bound : refs (target dirs none s) t ≤ 65536)
    (empty : ∀ i, target dirs none s (.leaf e d i) = none) :
    Accounted dirs none (clearTable s pgdir d t)
        (unlink ⟨fl, target dirs none s⟩ (.table e d : PageSlot)).free ∧
      target dirs none (clearTable s pgdir d t) =
        Function.update (target dirs none s) (.table e d) none := by
  have kernel : s.kernPgdir ≠ pgdir := (managed_ne_kern acc (root_managed acc he)).symm
  have quiet := clearTable_quiet s pgdir d t
  have moved : target dirs none (clearTable s pgdir d t) =
      Function.update (target dirs none s) (.table e d) none := by
    refine Forest.target_detachTable acc.apart he empty rfl ?_ rfl ?_ ?_
    · funext k
      simp only [forest, quiet.kernPgdir]
      rw [clearTable_entry, State.entry_setEntry_of_ne _ _ _ _ (Or.inl kernel)]
    · change entryPage ((clearTable s pgdir d t).entry pgdir d) = none
      rw [clearTable_entry, State.entry_setEntry_same _ _ _ _ (by decide)]
      exact entryPage_zero
    · intro q j differ
      change entryPage ((clearTable s pgdir d t).entry q j) = entryPage (s.entry q j)
      rw [clearTable_entry, State.entry_setEntry_of_ne _ _ _ _ differ]
  have steady : Steady s (clearTable s pgdir d t) := by
    refine ⟨quiet.npages, quiet.nextfree, quiet.kernPgdir, ?_⟩
    intro j _
    rw [clearTable_entry, State.entry_setEntry_of_ne _ _ _ _ (Or.inl kernel)]
  exact ⟨acc.unlink steady ht bound moved rfl rfl, moved⟩

theorem table_later {n : Nat} (small : n < userPdes) :
    Slot.table e ⟨n, small⟩ ∉ clearedTables e n := by
  intro listed
  obtain ⟨d, before, same | ⟨i, same⟩⟩ := mem_clearedTables.mp listed
  · cases same
    exact absurd before (Nat.lt_irrefl n)
  · cases same

theorem row_later {n : Nat} (small : n < userPdes) :
    Slot.table e ⟨n, small⟩ ∉ clearedTables e n ++ clearedLeaves e ⟨n, small⟩ NPTENTRIES ∧
      Slot.root e ∉ clearedTables e n ++ clearedLeaves e ⟨n, small⟩ NPTENTRIES := by
  refine ⟨?_, ?_⟩
  · intro listed
    rcases List.mem_append.mp listed with before | leaf
    · exact table_later small before
    · obtain ⟨i, _, same⟩ := mem_clearedLeaves.mp leaf
      cases same
  · intro listed
    rcases List.mem_append.mp listed with before | leaf
    · obtain ⟨_, _, same | ⟨_, same⟩⟩ := mem_clearedTables.mp before
      · cases same
      · cases same
    · obtain ⟨_, _, same⟩ := mem_clearedLeaves.mp leaf
      cases same

theorem Freeing.detach {d : Fin userPdes} {t : Nat} (freeing : Freeing dirs e s0 b0 cleared s)
    (he : dirs e = some pgdir) (bounded : ∀ p, refs b0.target p < 65536)
    (later : Slot.table e d ∉ cleared) (root : Slot.root e ∉ cleared)
    (leaves : ∀ i, Slot.leaf e d i ∈ cleared) (table : b0.target (.table e d) = some t) :
    Freeing dirs e s0 b0 (cleared ++ [.table e d]) (clearTable s pgdir d t) := by
  have ht : target dirs none s (.table e d) = some t := (freeing.still later).trans table
  obtain ⟨books, moved⟩ := clearTable_books freeing.books he ht (freeing.bound bounded t)
    fun i => freeing.gone (leaves i)
  refine ⟨?_, ?_, quiet_trans freeing.quiet (clearTable_quiet s pgdir d t), ?_⟩
  · rw [unlinkAll_snoc, ← freeing.book]
    exact books
  · rw [unlinkAll_snoc, unlink_target, ← freeing.target_eq]
    exact moved
  · intro q outside
    have differ : q ≠ pgdir := by
      intro same
      subst same
      exact outside (Or.inl ((freeing.still root).symm.trans he))
    rw [clearTable_mem_of_ne differ]
    exact freeing.mem q outside

section Loops
variable (dir : (s0.envs e).envPgdir = some pgdir) (he : dirs e = some pgdir)
  (bounded : ∀ p, refs b0.target p < 65536)
include dir he bounded

theorem envFreePte_step {d : Fin userPdes} {i : Fin NPTENTRIES} {t : Nat}
    (freeing : Freeing dirs e s0 b0 cleared s) (later : Slot.table e d ∉ cleared)
    (table : b0.target (.table e d) = some t) :
    ∃ s', envFreePte e d t i s = .ok s' ∧
      Freeing dirs e s0 b0 (cleared ++ [.leaf e d i]) s' := by
  have ht : target dirs none s (.table e d) = some t := (freeing.still later).trans table
  have leaf := leaf_entry ht i
  have d_lt : d.val < 1024 := Nat.lt_trans d.isLt (by decide)
  have at_d : pdx (pgaddr d i 0) = d := pdx_pgaddr d_lt i.isLt
  have at_i : ptx (pgaddr d i 0) = i := ptx_pgaddr i.isLt
  have user : pdx (pgaddr d i 0) < userPdes := by
    rw [at_d]
    exact d.isLt
  have slot : leafSlot e (pgaddr d i 0) user = .leaf e d i := by
    simp [leafSlot, at_d, at_i]
  have same_table : (Slot.table e ⟨pdx (pgaddr d i 0), user⟩ : PageSlot) = .table e d := by
    simp [at_d]
  unfold envFreePte
  by_cases present : Present (s.entry t i)
  · rw [if_pos present, freeing.quiet.envs]
    simp only [derefPgdir, dir, bind, Except.bind]
    rcases pageRemove_spec freeing.books he user with ⟨empty, _⟩ | ⟨t', p, ht', held, done⟩
    · rw [slot, leaf] at empty
      exact absurd present (entryPage_none.mp empty)
    · rw [slot] at held
      rw [same_table, ht] at ht'
      cases ht'
      rw [at_i] at done
      obtain ⟨books, moved⟩ :=
        clearLeaf_books freeing.books ht held (freeing.bound bounded p) (pgaddr d i 0)
      refine ⟨_, done, ?_, ?_, quiet_trans freeing.quiet (clearLeaf_quiet _ _ _ _ _), ?_⟩
      · rw [unlinkAll_snoc, ← freeing.book]
        exact books
      · rw [unlinkAll_snoc, unlink_target, ← freeing.target_eq]
        exact moved
      · intro q outside
        have differ : q ≠ t := fun same => outside (Or.inr ⟨d, same ▸ table⟩)
        rw [clearLeaf_mem, Function.update_of_ne differ]
        exact freeing.mem q outside
  · rw [if_neg present]
    exact ⟨s, rfl, freeing.skip (leaf.trans (entryPage_none.mpr present))⟩

theorem envFreePte_loop {d : Fin userPdes} {t : Nat} (freeing : Freeing dirs e s0 b0 cleared s)
    (later : Slot.table e d ∉ cleared) (table : b0.target (.table e d) = some t) :
    ∃ s', times (envFreePte e d t) NPTENTRIES s = .ok s' ∧
      Freeing dirs e s0 b0 (cleared ++ clearedLeaves e d NPTENTRIES) s' := by
  refine times_total (fun n s => Freeing dirs e s0 b0 (cleared ++ clearedLeaves e d n) s) ?_ ?_
  · simpa [clearedLeaves] using freeing
  · intro n a small now
    have still_later : Slot.table e d ∉ cleared ++ clearedLeaves e d n := by
      intro listed
      rcases List.mem_append.mp listed with before | leaf
      · exact later before
      · obtain ⟨i, _, same⟩ := mem_clearedLeaves.mp leaf
        cases same
    obtain ⟨b, done, next⟩ :=
      envFreePte_step dir he bounded (i := ⟨n, small⟩) now still_later table
    refine ⟨b, done, ?_⟩
    rw [List.append_assoc] at next
    simpa [clearedLeaves, small] using next

theorem envFreePde_step {n : Nat} (small : n < userPdes)
    (freeing : Freeing dirs e s0 b0 (clearedTables e n) s) :
    ∃ s', envFreePde e n s = .ok s' ∧ Freeing dirs e s0 b0 (clearedTables e (n + 1)) s' := by
  have row : clearedTables e (n + 1) =
      clearedTables e n ++ (clearedLeaves e ⟨n, small⟩ NPTENTRIES ++ [.table e ⟨n, small⟩]) := by
    simp [clearedTables, small]
  unfold envFreePde
  rw [freeing.quiet.envs]
  simp only [derefPgdir, dir, bind, Except.bind]
  cases ht : target dirs none s (.table e ⟨n, small⟩) with
  | none =>
    have absent := (table_absent he).mp ht
    rw [if_pos absent]
    refine ⟨s, rfl, ?_⟩
    rw [row]
    apply freeing.skipAll
    intro x listed
    rcases List.mem_append.mp listed with leaf | table
    · obtain ⟨i, _, same⟩ := mem_clearedLeaves.mp leaf
      rw [same]
      exact leaf_without_table ht i
    · rw [List.mem_singleton] at table
      rw [table]
      exact ht
  | some t =>
    obtain ⟨present, named⟩ := (table_entry he).mp ht
    have table : b0.target (.table e ⟨n, small⟩) = some t :=
      (freeing.still (table_later small)).symm.trans ht
    have inside : t < s.npages := (freeing.books.targets _ t ht).1
    dsimp only at present named
    obtain ⟨s1, cleared_leaves, freeing1⟩ :=
      envFreePte_loop dir he bounded freeing (table_later small) table
    have rounds : ptx (WORD - 1) + 1 = NPTENTRIES := by decide
    have inside1 : ppn (s.entry pgdir n) < (s1.setEntry pgdir n 0).npages := by
      rw [named]
      change t < s1.npages
      rw [freeing1.quiet.npages, ← freeing.quiet.npages]
      exact inside
    rw [if_neg (not_not.mpr present), kaddr_entry (by rw [named]; exact inside), named]
    simp only [rounds, cleared_leaves]
    rw [pa2page_entry inside1, named]
    refine ⟨_, rfl, ?_⟩
    -- the table is empty now, so taking it out of the directory unlinks it alone
    obtain ⟨later, root⟩ := row_later (e := e) small
    rw [pageDecref_setEntry, row, ← List.append_assoc]
    exact freeing1.detach he bounded later root
      (fun i => List.mem_append.mpr (Or.inr (mem_clearedLeaves.mpr ⟨i, i.isLt, rfl⟩))) table

theorem envFreePde_loop (start : Freeing dirs e s0 b0 [] s0) :
    ∃ s', times (envFreePde e) (pdx UTOP) s0 = .ok s' ∧
      Freeing dirs e s0 b0 (clearedTables e userPdes) s' := by
  rw [← userPdes_eq]
  refine times_total (fun n s => Freeing dirs e s0 b0 (clearedTables e n) s) ?_ ?_
  · simpa [clearedTables] using start
  · intro n a small now
    exact envFreePde_step dir he bounded small now

end Loops

/-- What env_free(e) has done. -/
structure Freed (dirs : Dirs) (e : Fin NENV) (s : State) (fl : List Nat) (s' : State) : Prop where
  books : Accounted (Function.update dirs e none) none s'
    (unlinkAll ⟨fl, target dirs none s⟩ (ownSlots e)).free
  target_eq : target (Function.update dirs e none) none s' =
    (unlinkAll ⟨fl, target dirs none s⟩ (ownSlots e)).target
  mem : ∀ q, ¬ OwnTable ⟨fl, target dirs none s⟩ e q → s'.mem q = s.mem q
  envs : s'.envs = Function.update s.envs e
    { s.envs e with envPgdir := none, envStatus := ENV_FREE, envLink := s.envFreeList }
  listed : s'.envFreeList = some e.val
  cr3 : s'.cr3 = if s.curenv = some e.val then s.kernPgdir else s.cr3
  rest : s' = { s with
    mem := s'.mem, pages := s'.pages, pageFreeList := s'.pageFreeList, tlb := s'.tlb,
    envs := s'.envs, envFreeList := s'.envFreeList, cr3 := s'.cr3 }

def leaveDir (s : State) (e : Nat) : State :=
  if s.curenv = some e then lcr3 s s.kernPgdir else s

theorem leaveDir_mem (s : State) (e : Nat) :
    (leaveDir s e).mem = s.mem ∧ (leaveDir s e).pages = s.pages ∧
      (leaveDir s e).pageFreeList = s.pageFreeList ∧ (leaveDir s e).envs = s.envs ∧
      (leaveDir s e).kernPgdir = s.kernPgdir ∧ (leaveDir s e).npages = s.npages ∧
      (leaveDir s e).nextfree = s.nextfree := by
  unfold leaveDir
  split <;> exact ⟨rfl, rfl, rfl, rfl, rfl, rfl, rfl⟩

theorem leaveDir_rest (s : State) (e : Nat) :
    leaveDir s e = { s with
      tlb := (leaveDir s e).tlb, cr3 := if s.curenv = some e then s.kernPgdir else s.cr3 } := by
  unfold leaveDir
  split <;> rfl

def dropRoot (s : State) (e pgdir : Nat) : State :=
  let s := s.setEnv e { s.envs e with envPgdir := none }
  let s := pageDecref s pgdir
  let s := s.setEnv e { s.envs e with envStatus := ENV_FREE, envLink := s.envFreeList }
  { s with envFreeList := some e }

structure DropsRoot (s : State) (e pgdir : Nat) (s' : State) : Prop where
  mem : s'.mem = s.mem
  pages : s'.pages = (pageDecref s pgdir).pages
  list : s'.pageFreeList = (pageDecref s pgdir).pageFreeList
  npages : s'.npages = s.npages
  nextfree : s'.nextfree = s.nextfree
  kernPgdir : s'.kernPgdir = s.kernPgdir
  cr3 : s'.cr3 = s.cr3
  envs : s'.envs = Function.update s.envs e
    { s.envs e with envPgdir := none, envStatus := ENV_FREE, envLink := s.envFreeList }
  rest : s' = { s with
    mem := s'.mem, pages := s'.pages, pageFreeList := s'.pageFreeList, tlb := s'.tlb,
    envs := s'.envs, envFreeList := s'.envFreeList }

theorem dropRoot_fields (s : State) (e pgdir : Nat) :
    DropsRoot s e pgdir (dropRoot s e pgdir) := by
  obtain ⟨quiet, mem⟩ := pageDecref_quiet s pgdir
  obtain ⟨envs, listed⟩ := pageDecref_envs s pgdir
  have plain : dropRoot s e pgdir =
      { (pageDecref s pgdir).setEnv e
          { s.envs e with envPgdir := none, envStatus := ENV_FREE, envLink := s.envFreeList } with
        envFreeList := some e } := by
    simp only [dropRoot, pageDecref_setEnv]
    simp [State.setEnv, envs, listed]
  rw [plain]
  refine ⟨mem, rfl, rfl, quiet.npages, quiet.nextfree, quiet.kernPgdir, quiet.cr3, ?_, ?_⟩
  · change Function.update (pageDecref s pgdir).envs e _ = _
    rw [envs]
  · rw [quiet]
    simp [State.setEnv, mem]

/-- env_free returns, and has unlinked every slot of e. -/
theorem envFree_spec {fl : List Nat} (acc : Accounted dirs none s fl)
    (bounded : Bounded dirs none s) (he : dirs e = some pgdir)
    (dir : (s.envs e).envPgdir = some pgdir) :
    ∃ s', envFree s e = .ok s' ∧ Freed dirs e s fl s' := by
  obtain ⟨mem0, pages0, list0, envs0, kern0, npages0, nextfree0⟩ := leaveDir_mem s e
  have same0 : target dirs none (leaveDir s e) = target dirs none s := by
    refine target_entries kern0 ?_ ?_
    · intro i _
      simp only [State.entry, mem0]
    · intro q _ i _
      simp only [State.entry, mem0]
  have steady0 : Steady s (leaveDir s e) :=
    ⟨npages0, nextfree0, kern0, fun j _ => by simp only [State.entry, mem0]⟩
  have acc0 := acc.keep steady0 same0 pages0 list0
  have start : Freeing dirs e (leaveDir s e) ⟨fl, target dirs none s⟩ [] (leaveDir s e) := by
    refine ⟨?_, ?_, quiet_refl _, fun _ _ => rfl⟩
    · exact acc0
    · exact same0
  have dir0 : ((leaveDir s e).envs e).envPgdir = some pgdir := by
    rw [envs0]
    exact dir
  have bounded0 : ∀ p, refs (⟨fl, target dirs none s⟩ : Book PageSlot Nat).target p < 65536 :=
    bounded
  obtain ⟨s1, looped, freeing⟩ := envFreePde_loop dir0 he bounded0 start
  have dir1 : (s1.envs e).envPgdir = some pgdir := by
    rw [freeing.quiet.envs]
    exact dir0
  have root_later : (Slot.root e : PageSlot) ∉ clearedTables e userPdes := by
    intro listed
    obtain ⟨_, _, same | ⟨_, same⟩⟩ := mem_clearedTables.mp listed
    · cases same
    · cases same
  have held : target dirs none s1 (.root e) = some pgdir := he
  have inside : pgdir < s1.npages := (freeing.books.targets _ pgdir held).1
  have done : envFree s e = .ok (dropRoot s1 e pgdir) := by
    unfold envFree
    change (times (envFreePde e) (pdx UTOP) (leaveDir s e) >>= _) = _
    rw [looped]
    change (paddrPgdir (s1.envs e) >>= _) = _
    rw [paddrPgdir, dir1]
    change (pa2page (s1.setEnv e { s1.envs e with envPgdir := none }) (page2pa pgdir) >>= _) = _
    rw [pa2page_ok (by exact inside)]
    rfl
  have fields := dropRoot_fields s1 e pgdir
  have moved : target (Function.update dirs e none) none (dropRoot s1 e pgdir) =
      Function.update (target dirs none s1) (.root e) none := by
    refine Forest.target_detachRoot ?_ rfl ?_ rfl ?_
    · intro d
      exact freeing.gone (mem_clearedTables.mpr ⟨d, d.isLt, Or.inl rfl⟩)
    · funext k
      simp only [forest, State.entry, fields.mem, fields.kernPgdir]
    · funext q j
      simp only [forest, State.entry, fields.mem]
  have steady : Steady s1 (dropRoot s1 e pgdir) :=
    ⟨fields.npages, fields.nextfree, fields.kernPgdir, fun j _ => by
      simp only [State.entry, fields.mem]⟩
  refine ⟨_, done, ?_, ?_, ?_, ?_, rfl, ?_, ?_⟩
  · rw [ownSlots, unlinkAll_snoc, ← freeing.book]
    exact freeing.books.unlink steady held (freeing.bound bounded pgdir) moved fields.pages
      fields.list
  · rw [ownSlots, unlinkAll_snoc, unlink_target, ← freeing.target_eq]
    exact moved
  · intro q outside
    rw [fields.mem, freeing.mem q outside, mem0]
  · rw [fields.envs, freeing.quiet.envs, freeing.quiet.envFreeList, envs0]
    unfold leaveDir
    split <;> rfl
  · rw [fields.cr3, freeing.quiet.cr3]
    unfold leaveDir
    split <;> rfl
  · rw [fields.rest, freeing.quiet, leaveDir_rest]

end Teardown

end JosEnvSpace
