import Jos.EnvFrames
import Mathlib.Algebra.Order.Interval.Finset.SuccPred
import Mathlib.Order.Interval.Finset.Nat
import Mathlib.Data.Nat.SuccPred

/- load_icode of a well-formed image into a fresh environment: it gets through, every segment is in
   memory, and nothing else is mapped but the stack. -/
namespace JosLoader
open JosLayout FrameWords JosMachine JosPmap JosMmu JosEnv JosBoot JosAccounting JosPageOps
open JosMapping JosEnvSpace JosNewEnv JosRegions JosBootPages JosPageRuns JosEnvTable JosDirRights
open JosUserStores JosLoading JosKernelRuns JosEnvFrames IntrusiveList Ledger TableForest CountedLoop

abbrev ELF_PROG_LOAD : Nat := 1

def pType (b : Binary) (o : Nat) : Nat := b.long o

def pagesOf (va len : Nat) : Finset Nat := Finset.Ico (va / PGSIZE) ((va + len + (PGSIZE - 1)) / PGSIZE)

abbrev stackPage : Nat := USTACKTOP / PGSIZE - 1

def segmentPages (binary : Binary) (n : Nat) : Finset Nat :=
  (Finset.range n).biUnion fun k => pagesOf (binary.pVa (binary.ph k)) (binary.pMemsz (binary.ph k))

def touched (binary : Binary) : Finset Nat := insert stackPage (segmentPages binary binary.ePhnum)

def tablesOf (pages : Finset Nat) : Finset Nat := pages.image (· / NPTENTRIES)

/-- Byte i of a segment: from the file, or cleared. -/
def segmentByte (binary : Binary) (ph i : Nat) : UInt8 :=
  if i < binary.pFilesz ph then binary.byte ((binary.pOffset ph + i) % WORD) else 0

theorem pageSlot_dir {n : Nat} (small : n < UTOP / PGSIZE) : n / NPTENTRIES < userPdes := by
  simp only [NPTENTRIES, userPdes, UTOP, UENVS, UPAGES, UVPT, ULIM, MMIOBASE, MMIOLIM, KSTACKTOP,
    KERNBASE, PTSIZE, PGSIZE] at *
  omega

def pageSlot (e : Fin NENV) (n : Nat) (small : n < UTOP / PGSIZE) : PageSlot :=
  .leaf e ⟨n / NPTENTRIES, pageSlot_dir small⟩ ⟨n % NPTENTRIES, Nat.mod_lt n (by decide)⟩

section Slots
variable {e : Fin NENV} {n n' va : Nat}

theorem page_below (user : va < UTOP) : va / PGSIZE < UTOP / PGSIZE := by
  have whole : UTOP % PGSIZE = 0 := by decide
  have pages : UTOP / PGSIZE * PGSIZE = UTOP := by decide
  exact Nat.div_lt_of_lt_mul (by rw [Nat.mul_comm, pages]; exact user)

theorem leafSlot_page (user : va < UTOP) :
    leafSlot e va (user_slot user) = pageSlot e (va / PGSIZE) (page_below user) := by
  have word : UTOP < WORD := by decide
  have dir : pdx va = va / PGSIZE / NPTENTRIES := by
    rw [pdx_eq]
    simp only [PGSIZE, NPTENTRIES, WORD] at *
    omega
  have table : ptx va = va / PGSIZE % NPTENTRIES := by
    rw [ptx_eq]
  unfold leafSlot pageSlot
  simp only [dir, table]

theorem pageSlot_inj (small : n < UTOP / PGSIZE) (small' : n' < UTOP / PGSIZE) :
    pageSlot e n small = pageSlot e n' small' ↔ n = n' := by
  unfold pageSlot
  simp only [Slot.leaf.injEq, Fin.mk.injEq, true_and, NPTENTRIES]
  omega

end Slots

/-- In the middle of load_icode: e maps the pages in pages, each with a page of its own, and the
    free list has paid for them and for their tables. -/
structure Filling (m : Machine) (dirs : Dirs) (e : Fin NENV) (s0 : State) (fl0 : List Nat)
    (pages : Finset Nat) (s : State) : Prop where
  loading : Loading m dirs e s0 fl0 s
  budget : ∃ fl, Accounted dirs none s fl ∧
    fl.length + pages.card + (tablesOf pages).card = fl0.length
  leaf : ∀ n (small : n < UTOP / PGSIZE),
    target dirs none s (pageSlot e n small) ≠ none ↔ n ∈ pages
  table : ∀ d : Fin userPdes, target dirs none s (.table e d) ≠ none ↔ d.val ∈ tablesOf pages

def SameBytes (s s' : State) (pgdir : Nat) (pages : Finset Nat) : Prop :=
  ∀ va, va < UTOP → va / PGSIZE ∉ pages → byteAt s' pgdir va = byteAt s pgdir va

section Pages
variable {m : Machine} {dirs : Dirs} {s0 s s' s1 : State} {fl0 fl fl' fl1 : List Nat}
  {e : Fin NENV} {pgdir n va : Nat} {pages all : Finset Nat}

theorem byteAt_target (he : dirs e = some pgdir) (user : va < UTOP) :
    byteAt s pgdir va = (target dirs none s (leafSlot e va (user_slot user))).map fun q =>
      s.mem q (pgoff va) := by
  rw [← walk_page he (user_slot user), Option.map_map]
  rfl

theorem tablesOf_insert (n : Nat) (pages : Finset Nat) :
    tablesOf (insert n pages) = insert (n / NPTENTRIES) (tablesOf pages) :=
  Finset.image_insert _ n pages

def Room (fl0 : List Nat) (pages : Finset Nat) (n : Nat) : Prop :=
  pages.card + (tablesOf pages).card < fl0.length ∧
    (insert n pages).card + (tablesOf (insert n pages)).card ≤ fl0.length

theorem room_fresh (fresh : n ∉ pages) (sub : insert n pages ⊆ all)
    (enough : all.card + (tablesOf all).card ≤ fl0.length) : Room fl0 pages n := by
  have more := Finset.card_le_card sub
  have tables : (tablesOf (insert n pages)).card ≤ (tablesOf all).card :=
    Finset.card_le_card (Finset.image_subset_image sub)
  have kept : (tablesOf pages).card ≤ (tablesOf (insert n pages)).card :=
    Finset.card_le_card (Finset.image_subset_image (Finset.subset_insert n pages))
  have one := Finset.card_insert_of_notMem fresh
  constructor <;> omega

theorem room_spare (sub : insert n pages ⊆ all)
    (enough : all.card + (tablesOf all).card < fl0.length) : Room fl0 pages n := by
  have more := Finset.card_le_card sub
  have tables : (tablesOf (insert n pages)).card ≤ (tablesOf all).card :=
    Finset.card_le_card (Finset.image_subset_image sub)
  have kept : (tablesOf pages).card ≤ (tablesOf (insert n pages)).card :=
    Finset.card_le_card (Finset.image_subset_image (Finset.subset_insert n pages))
  have fewer := Finset.card_le_card (Finset.subset_insert n pages)
  constructor <;> omega

theorem page_cost (room : Room fl0 pages n)
    (budget : fl.length + pages.card + (tablesOf pages).card = fl0.length) :
    1 ≤ fl.length ∧ (n / NPTENTRIES ∉ tablesOf pages → 2 ≤ fl.length) := by
  obtain ⟨one, two⟩ := room
  refine ⟨by omega, ?_⟩
  intro new
  have fresh : n ∉ pages := fun there => new (Finset.mem_image_of_mem _ there)
  rw [tablesOf_insert, Finset.card_insert_of_notMem new, Finset.card_insert_of_notMem fresh] at two
  omega

theorem inserted_bytes {p t : Nat} {rest : List Nat} {d : Fin userPdes} {i : Fin NPTENTRIES}
    (tidy : Tidy m dirs s) (acc : Accounted dirs none s (p :: rest)) (he : dirs e = some pgdir)
    (walked : Walked dirs none e d pgdir (takeFree s p false) rest t s1 fl1)
    (inserted : Inserted dirs e d i pgdir p (PTE_W ||| PTE_U) (takeFree s p false) t s1 fl1 s' fl')
    {x : PageSlot} (leaf : ∃ f j k, x = .leaf f j k) {q : Nat} (held : target dirs none s x = some q) :
    s'.mem q = s.mem q := by
  obtain ⟨f, j, k, rfl⟩ := leaf
  have busy := busy_of_target acc held
  have other_dir : q ≠ pgdir := by
    intro same
    subst same
    have slots := tidy.unique held (show target dirs none s (.root e) = some q from he)
    cases slots
  have other_table : q ≠ t := by
    intro same
    subst same
    rcases walked_table walked with listed | there
    · exact busy (by simp [listed])
    · rw [takeFree_target acc] at there
      have slots := tidy.unique held there
      cases slots
  exact (inserted.mem_of_ne q other_table other_dir).trans rfl

theorem Filling.slots {p t : Nat} {d : Fin userPdes} (filling : Filling m dirs e s0 fl0 pages s)
    (small : n < UTOP / PGSIZE) (under : d.val = n / NPTENTRIES)
    (moved : target dirs none s' = Function.update
      (Function.update (target dirs none s) (.table e d) (some t)) (pageSlot e n small) (some p)) :
    (∀ k (small_k : k < UTOP / PGSIZE),
      target dirs none s' (pageSlot e k small_k) ≠ none ↔ k ∈ insert n pages) ∧
    ∀ d', target dirs none s' (.table e d') ≠ none ↔ d'.val ∈ tablesOf (insert n pages) := by
  constructor
  · intro k small_k
    rw [moved, Finset.mem_insert]
    by_cases here : k = n
    · subst here
      rw [Function.update_self]
      simp
    · have other : pageSlot e k small_k ≠ pageSlot e n small :=
        fun same => here ((pageSlot_inj small_k small).mp same)
      have no_table : pageSlot e k small_k ≠ .table e d := by
        intro same
        cases same
      rw [Function.update_of_ne other, Function.update_of_ne no_table, filling.leaf k small_k]
      simp [here]
  · intro d'
    have no_leaf : Slot.table e d' ≠ pageSlot e n small := by
      intro same
      cases same
    rw [moved, Function.update_of_ne no_leaf, tablesOf_insert, Finset.mem_insert, ← under]
    by_cases here : d' = d
    · subst here
      rw [Function.update_self]
      simp
    · have other : (Slot.table e d' : PageSlot) ≠ Slot.table e d := by
        intro same
        cases same
        exact here rfl
      have apart : d'.val ≠ d.val := fun same => here (Fin.ext same)
      rw [Function.update_of_ne other, filling.table d']
      simp [apart]

theorem walked_slots {p t : Nat} {rest : List Nat} {d : Fin userPdes}
    (acc : Accounted dirs none s (p :: rest)) (he : dirs e = some pgdir)
    (walked : Walked dirs none e d pgdir (takeFree s p false) rest t s1 fl1) {x : PageSlot}
    (no_hand : x ≠ .hand) (no_table : x ≠ .table e d) :
    target dirs (some p) s1 x = target dirs none s x := by
  rw [target_hand no_hand dirs (some p) none, walked.target_eq (takeFree_books acc false) he,
    Function.update_of_ne no_table, takeFree_target acc]

theorem displaced_alone {p t q : Nat} {rest : List Nat} {d : Fin userPdes} {i : Fin NPTENTRIES}
    (tidy : Tidy m dirs s) (acc : Accounted dirs none s (p :: rest)) (he : dirs e = some pgdir)
    (walked : Walked dirs none e d pgdir (takeFree s p false) rest t s1 fl1)
    (held : target dirs none s (.leaf e d i) = some q) {x : PageSlot} (other : x ≠ .leaf e d i) :
    target dirs (some p) s1 x ≠ some q := by
  have busy := busy_of_target acc held
  intro there
  by_cases in_hand : x = .hand
  · subst in_hand
    cases there
    exact busy (by simp)
  · by_cases at_table : x = .table e d
    · have named := walked.table (takeFree_books acc false) he
      rw [at_table, target_hand (by simp) dirs (some p) none, named] at there
      cases there
      rcases walked_table walked with listed | old
      · exact busy (by simp [listed])
      · rw [takeFree_target acc] at old
        have slots := tidy.unique held old
        cases slots
    · rw [walked_slots acc he walked in_hand at_table] at there
      exact other (tidy.unique there held)

/-- The free list after a page was mapped: without the page, and without another one for a new
    table; a page that was mapped there before comes back. -/
theorem inserted_free {p t : Nat} {rest : List Nat} {d : Fin userPdes} {i : Fin NPTENTRIES}
    (tidy : Tidy m dirs s) (acc : Accounted dirs none s (p :: rest)) (he : dirs e = some pgdir)
    (walked : Walked dirs none e d pgdir (takeFree s p false) rest t s1 fl1)
    (inserted : Inserted dirs e d i pgdir p (PTE_W ||| PTE_U) (takeFree s p false) t s1 fl1 s' fl') :
    fl'.length + (if target dirs none s (.leaf e d i) = none then 1 else 0) +
      (if target dirs none s (.table e d) = none then 1 else 0) = (p :: rest).length := by
  have at_leaf : target dirs (some p) s1 (.leaf e d i) = target dirs none s (.leaf e d i) :=
    walked_slots acc he walked (by simp) (by simp)
  have list : fl'.length = fl1.length +
      (if target dirs none s (.leaf e d i) = none then 0 else 1) := by
    rw [inserted.free_eq]
    cases held : target dirs none s (.leaf e d i) with
    | none =>
      rw [held] at at_leaf
      rw [unlink_empty at_leaf]
      rfl
    | some q =>
      rw [held] at at_leaf
      have alone : refs (Function.update (target dirs (some p) s1) (.leaf e d i) none) q = 0 := by
        rw [refs_zero]
        intro x there
        by_cases here : x = .leaf e d i
        · rw [here, Function.update_self] at there
          cases there
        · rw [Function.update_of_ne here] at there
          exact displaced_alone tidy acc he walked held here there
      unfold unlink
      simp only [at_leaf, alone, if_true]
      rfl
  rw [list]
  rcases walked with ⟨there, _, rfl⟩ | ⟨empty, _, rfl⟩
  · rw [takeFree_target acc] at there
    rw [there]
    simp only [List.length_cons]
    split <;> simp
  · rw [takeFree_target acc] at empty
    rw [empty]
    simp only [List.length_cons]
    split <;> simp

theorem inserted_sameBytes {p t : Nat} {rest : List Nat} (user : pdx va < userPdes)
    (tidy : Tidy m dirs s) (acc : Accounted dirs none s (p :: rest)) (he : dirs e = some pgdir)
    (walked : Walked dirs none e ⟨pdx va, user⟩ pgdir (takeFree s p false) rest t s1 fl1)
    (inserted : Inserted dirs e ⟨pdx va, user⟩ ⟨ptx va, ptx_lt va⟩ pgdir p (PTE_W ||| PTE_U)
      (takeFree s p false) t s1 fl1 s' fl') {va' : Nat} (user' : va' < UTOP)
    (other : leafSlot e va' (user_slot user') ≠ leafSlot e va user) :
    byteAt s' pgdir va' = byteAt s pgdir va' := by
  rw [byteAt_target he user', byteAt_target he user', inserted.target_eq, takeFree_target acc,
    Function.update_of_ne other, Function.update_of_ne (by simp)]
  cases held : target dirs none s (leafSlot e va' (user_slot user')) with
  | none => rfl
  | some q =>
    have same := inserted_bytes tidy acc he walked inserted ⟨_, _, _, rfl⟩ held
    simp only [Option.map_some, same]

theorem page_address (small : n < UTOP / PGSIZE) : n * PGSIZE < UTOP ∧ n * PGSIZE / PGSIZE = n := by
  have whole : UTOP / PGSIZE * PGSIZE = UTOP := by decide
  refine ⟨?_, Nat.mul_div_cancel n (by decide)⟩
  rw [← whole]
  exact Nat.mul_lt_mul_of_pos_right small (by decide)

theorem page_slot (small : n < UTOP / PGSIZE) :
    leafSlot e (n * PGSIZE) (user_slot (page_address small).1) = pageSlot e n small := by
  obtain ⟨user, page⟩ := page_address small
  rw [leafSlot_page user, pageSlot_inj]
  exact page

theorem page_pdx (small : n < UTOP / PGSIZE) : pdx (n * PGSIZE) = n / NPTENTRIES := by
  have slot := page_slot (e := 0) small
  unfold leafSlot pageSlot at slot
  simp only [Slot.leaf.injEq, Fin.mk.injEq, true_and] at slot
  exact slot.1

/-- region_alloc maps a page while the budget lasts. -/
theorem Filling.page (filling : Filling m dirs e s0 fl0 pages s) (he : dirs e = some pgdir)
    (small : n < UTOP / PGSIZE) (room : Room fl0 pages n) (grants : List Grant) :
    ∃ grants' s', regionAllocStep e (n * PGSIZE) (grants, s) = .ok (grants', s') ∧
      Filling m dirs e s0 fl0 (insert n pages) s' ∧ Quiet s s' ∧ SameBytes s s' pgdir {n} := by
  obtain ⟨fl, acc, budget⟩ := filling.budget
  have tidy := filling.loading.tidy
  have kept := tidy.view.kept
  obtain ⟨one, two⟩ := page_cost room budget
  have user := user_slot (page_address small).1
  have slot : leafSlot e (n * PGSIZE) user = pageSlot e n small := page_slot small
  have under := page_pdx small
  have table : target dirs none s (.table e ⟨pdx (n * PGSIZE), user⟩) ≠ none ↔
      n / NPTENTRIES ∈ tablesOf pages := by
    rw [← under]
    exact filling.table ⟨pdx (n * PGSIZE), user⟩
  have leaf : target dirs none s (leafSlot e (n * PGSIZE) user) ≠ none ↔ n ∈ pages := by
    rw [slot]
    exact filling.leaf n small
  rcases regionAllocStep_spec acc kept.bounded he (kept.known e pgdir he) user grants with
    ⟨nothing, _⟩ | ⟨p, last, empty, _⟩ |
    ⟨p, rest, t, s1, fl1, s', fl', first, walked, done, inserted⟩
  · rw [nothing] at one
    exact absurd one (by decide)
  · have new : n / NPTENTRIES ∉ tablesOf pages := by
      intro there
      exact absurd empty (table.mpr there)
    have more := two new
    rw [last] at more
    exact absurd more (by simp)
  · subst first
    obtain ⟨loading, quiet⟩ := filling.loading.round he user done
    have moved := inserted.target_eq
    rw [takeFree_target acc] at moved
    have moved' : target dirs none s' = Function.update (Function.update (target dirs none s)
        (.table e ⟨pdx (n * PGSIZE), user⟩) (some t)) (pageSlot e n small) (some p) := by
      rw [← slot]
      exact moved
    obtain ⟨leaves, tables⟩ := filling.slots small under moved'
    have paid := inserted_free tidy acc he walked inserted
    refine ⟨_, s', done, ⟨loading, ⟨fl', inserted.books, ?_⟩, leaves, tables⟩, quiet, ?_⟩
    · rw [tablesOf_insert]
      by_cases old : n ∈ pages
      · have under_old : n / NPTENTRIES ∈ tablesOf pages := Finset.mem_image_of_mem _ old
        rw [if_neg (leaf.mpr old), if_neg (table.mpr under_old)] at paid
        rw [Finset.insert_eq_of_mem old, Finset.insert_eq_of_mem under_old]
        omega
      · have vacant := not_not.mp fun there => old (leaf.mp there)
        rw [if_pos vacant] at paid
        rw [Finset.card_insert_of_notMem old]
        by_cases there : n / NPTENTRIES ∈ tablesOf pages
        · rw [if_neg (table.mpr there)] at paid
          rw [Finset.insert_eq_of_mem there]
          omega
        · have empty := not_not.mp fun held => there (table.mp held)
          rw [if_pos empty] at paid
          rw [Finset.card_insert_of_notMem there]
          omega
    · intro va user_va outside
      apply inserted_sameBytes user tidy acc he walked inserted user_va
      rw [slot, leafSlot_page user_va]
      intro same
      rw [pageSlot_inj] at same
      exact outside (by simp [same])

theorem sameBytes_refl (s : State) (pgdir : Nat) (pages : Finset Nat) :
    SameBytes s s pgdir pages := fun _ _ _ => rfl

theorem SameBytes.trans {more : Finset Nat} (first : SameBytes s s1 pgdir pages)
    (second : SameBytes s1 s' pgdir more) : SameBytes s s' pgdir (more ∪ pages) := by
  intro va user outside
  rw [Finset.mem_union, not_or] at outside
  rw [second va user outside.1, first va user outside.2]

theorem rounds_pages {len : Nat} (fits : va + len ≤ UTOP) :
    rounds va len = (va + len + (PGSIZE - 1)) / PGSIZE - va / PGSIZE := by
  have word : UTOP + PGSIZE ≤ WORD := by decide
  have small : va + len < WORD := by
    simp only [PGSIZE] at *
    omega
  have room : va + len + PGSIZE - 1 < WORD := by
    simp only [PGSIZE] at *
    omega
  unfold rounds roundUp
  rw [Nat.mod_eq_of_lt small, Nat.mod_eq_of_lt room, roundDown_eq, roundDown_eq]
  simp only [PGSIZE]
  omega

theorem pagesOf_rounds {len : Nat} (fits : va + len ≤ UTOP) :
    pagesOf va len = Finset.Ico (va / PGSIZE) (va / PGSIZE + rounds va len) := by
  rw [rounds_pages fits]
  unfold pagesOf
  congr 1
  simp only [PGSIZE]
  omega

def Rooms (fl0 : List Nat) (pages : Finset Nat) (va len : Nat) : Prop :=
  ∀ k, k < rounds va len →
    Room fl0 (Finset.Ico (va / PGSIZE) (va / PGSIZE + k) ∪ pages) (va / PGSIZE + k)

theorem next_page (va k : Nat) : Finset.Ico (va / PGSIZE) (va / PGSIZE + (k + 1)) =
    insert (va / PGSIZE + k) (Finset.Ico (va / PGSIZE) (va / PGSIZE + k)) :=
  (Finset.insert_Ico_right_eq_Ico_add_one (Nat.le_add_right _ k)).symm

theorem rounds_inside {k len : Nat} (fits : va + len ≤ UTOP) (within : k < rounds va len)
    (sub : pagesOf va len ∪ pages ⊆ all) :
    insert (va / PGSIZE + k) (Finset.Ico (va / PGSIZE) (va / PGSIZE + k) ∪ pages) ⊆ all := by
  rw [← Finset.insert_union, ← next_page]
  refine Finset.Subset.trans (Finset.union_subset_union_left ?_) sub
  rw [pagesOf_rounds fits]
  exact Finset.Ico_subset_Ico_right (by omega)

theorem rooms_fresh {len : Nat} (fits : va + len ≤ UTOP) (apart : Disjoint (pagesOf va len) pages)
    (sub : pagesOf va len ∪ pages ⊆ all) (enough : all.card + (tablesOf all).card ≤ fl0.length) :
    Rooms fl0 pages va len := by
  intro k within
  have member : va / PGSIZE + k ∈ pagesOf va len := by
    rw [pagesOf_rounds fits, Finset.mem_Ico]
    omega
  have fresh : va / PGSIZE + k ∉ Finset.Ico (va / PGSIZE) (va / PGSIZE + k) ∪ pages := by
    rw [Finset.mem_union, Finset.mem_Ico, not_or]
    exact ⟨by omega, Finset.disjoint_left.mp apart member⟩
  exact room_fresh fresh (rounds_inside fits within sub) enough

theorem rooms_spare {len : Nat} (fits : va + len ≤ UTOP) (sub : pagesOf va len ∪ pages ⊆ all)
    (enough : all.card + (tablesOf all).card < fl0.length) : Rooms fl0 pages va len := by
  intro k within
  exact room_spare (rounds_inside fits within sub) enough

theorem Filling.region {len : Nat} (filling : Filling m dirs e s0 fl0 pages s)
    (he : dirs e = some pgdir) (fits : va + len ≤ UTOP) (rooms : Rooms fl0 pages va len)
    (grants : List Grant) :
    ∃ grants' s', regionAlloc (grants, s) e va len = .ok (grants', s') ∧
      Filling m dirs e s0 fl0 (pagesOf va len ∪ pages) s' ∧ Quiet s s' ∧
      SameBytes s s' pgdir (pagesOf va len) := by
  have low : va / PGSIZE + rounds va len ≤ UTOP / PGSIZE := by
    have top : UTOP % PGSIZE = 0 := by decide
    rw [rounds_pages fits]
    simp only [PGSIZE] at *
    omega
  have start : Filling m dirs e s0 fl0 (Finset.Ico (va / PGSIZE) (va / PGSIZE + 0) ∪ pages)
        (grants, s).2 ∧
      Quiet s (grants, s).2 ∧
      SameBytes s (grants, s).2 pgdir (Finset.Ico (va / PGSIZE) (va / PGSIZE + 0)) := by
    rw [Nat.add_zero, Finset.Ico_self, Finset.empty_union]
    exact ⟨filling, quiet_refl s, sameBytes_refl s pgdir ∅⟩
  have round : ∀ (k : Nat) (a : List Grant × State), k < rounds va len →
      (Filling m dirs e s0 fl0 (Finset.Ico (va / PGSIZE) (va / PGSIZE + k) ∪ pages) a.2 ∧
        Quiet s a.2 ∧ SameBytes s a.2 pgdir (Finset.Ico (va / PGSIZE) (va / PGSIZE + k))) →
      ∃ b, regionAllocStep e (roundDown va PGSIZE + k * PGSIZE) a = .ok b ∧
        (Filling m dirs e s0 fl0 (Finset.Ico (va / PGSIZE) (va / PGSIZE + (k + 1)) ∪ pages) b.2 ∧
          Quiet s b.2 ∧ SameBytes s b.2 pgdir (Finset.Ico (va / PGSIZE) (va / PGSIZE + (k + 1)))) := by
    intro k a within before
    obtain ⟨filled, quiet, same⟩ := before
    have address : roundDown va PGSIZE + k * PGSIZE = (va / PGSIZE + k) * PGSIZE := by
      rw [roundDown_eq, Nat.add_mul]
    have small : va / PGSIZE + k < UTOP / PGSIZE :=
      Nat.lt_of_lt_of_le (Nat.add_lt_add_left within _) low
    obtain ⟨grants', s', done, filled', quiet', same'⟩ :=
      filled.page he small (rooms k within) a.1
    rw [address, next_page]
    refine ⟨(grants', s'), done, ?_, quiet_trans quiet quiet', ?_⟩
    · rw [Finset.insert_union]
      exact filled'
    · rw [Finset.insert_eq]
      exact same.trans same'
  obtain ⟨⟨grants', s'⟩, run, filled, quiet, same⟩ := times_total
    (fun k (got : List Grant × State) =>
      Filling m dirs e s0 fl0 (Finset.Ico (va / PGSIZE) (va / PGSIZE + k) ∪ pages) got.2 ∧
      Quiet s got.2 ∧ SameBytes s got.2 pgdir (Finset.Ico (va / PGSIZE) (va / PGSIZE + k)))
    start round
  rw [regionAlloc_eq, pagesOf_rounds fits]
  exact ⟨grants', s', run, filled, quiet, same⟩

theorem mem_pagesOf {k len : Nat} (inside : k < len) : (va + k) / PGSIZE ∈ pagesOf va len := by
  unfold pagesOf
  rw [Finset.mem_Ico]
  simp only [PGSIZE]
  omega

theorem Filling.stored (filling : Filling m dirs e s0 fl0 pages s) (stored : Stored dirs e s s') :
    Filling m dirs e s0 fl0 pages s' := by
  obtain ⟨fl, acc, budget⟩ := filling.budget
  have moved := stored.untouched.target
  refine ⟨filling.loading.stored stored, ⟨fl, stored.untouched.books acc, budget⟩, ?_, ?_⟩
  · rw [moved]
    exact filling.leaf
  · rw [moved]
    exact filling.table

theorem Filling.stores {v len : Nat} (filling : Filling m dirs e s0 fl0 pages s)
    (he : dirs e = some pgdir) (cr3 : s.cr3 = pgdir) (f : Nat → UInt8) (fits : v + len ≤ UTOP)
    (mapped : ∀ k, k < len → (v + k) / PGSIZE ∈ pages) :
    ∃ s', stores f v len s = .ok s' ∧ Written m dirs e f v len s s' := by
  apply stores_total filling.loading.tidy he cr3 fits
  intro k inside user
  rw [leafSlot_page user, filling.leaf]
  exact mapped k inside

variable {binary : Binary} {ph : Nat}

theorem Filling.segment (filling : Filling m dirs e s0 fl0 pages s) (he : dirs e = some pgdir)
    (cr3 : s.cr3 = pgdir) (file : binary.pFilesz ph ≤ binary.pMemsz ph)
    (fits : binary.pVa ph + binary.pMemsz ph ≤ UTOP)
    (rooms : Rooms fl0 pages (binary.pVa ph) (binary.pMemsz ph)) (grants : List Grant) :
    ∃ grants' s', loadSegment e binary ph (grants, s) = .ok (grants', s') ∧
      Filling m dirs e s0 fl0 (pagesOf (binary.pVa ph) (binary.pMemsz ph) ∪ pages) s' ∧
      Quiet s s' ∧ SameBytes s s' pgdir (pagesOf (binary.pVa ph) (binary.pMemsz ph)) ∧
      ∀ i, i < binary.pMemsz ph →
        byteAt s' pgdir (binary.pVa ph + i) = some (segmentByte binary ph i) := by
  obtain ⟨grants', s1, allocated, filled1, quiet1, same1⟩ :=
    filling.region he fits rooms grants
  have cr3_1 : s1.cr3 = pgdir := quiet1.cr3.trans cr3
  have mapped : ∀ k, k < binary.pMemsz ph → (binary.pVa ph + k) / PGSIZE ∈
      pagesOf (binary.pVa ph) (binary.pMemsz ph) ∪ pages :=
    fun k inside => Finset.mem_union_left _ (mem_pagesOf inside)
  obtain ⟨s2, cleared, written2⟩ := filled1.stores he cr3_1 (fun _ => 0) fits mapped
  have filled2 := filled1.stored written2.stored
  have cr3_2 : s2.cr3 = pgdir := written2.stored.quiet.cr3.trans cr3_1
  obtain ⟨s3, copied, written3⟩ := filled2.stores he cr3_2
    (fun k => binary.byte ((binary.pOffset ph + k) % WORD))
    (Nat.le_trans (Nat.add_le_add_left file _) fits)
    (fun k inside => mapped k (Nat.lt_of_lt_of_le inside file))
  refine ⟨grants', s3, loadSegment_run allocated cleared copied, filled2.stored written3.stored,
    quiet_trans quiet1 (quiet_trans written2.stored.quiet written3.stored.quiet), ?_, ?_⟩
  · intro va user outside
    have elsewhere : ¬ (binary.pVa ph ≤ va ∧ va < binary.pVa ph + binary.pMemsz ph) := by
      intro inside
      obtain ⟨k, rfl⟩ := Nat.exists_eq_add_of_le inside.1
      exact outside (mem_pagesOf (by omega))
    rw [written3.bytes e pgdir va he user, if_neg (by omega), written2.bytes e pgdir va he user,
      if_neg (by omega)]
    exact same1 va user outside
  · intro i inside
    have user : binary.pVa ph + i < UTOP := by omega
    rw [written3.bytes e pgdir _ he user, written2.bytes e pgdir _ he user]
    unfold segmentByte
    by_cases from_file : i < binary.pFilesz ph
    · rw [if_pos ⟨rfl, by omega, by omega⟩, if_pos from_file, Nat.add_sub_cancel_left]
    · rw [if_neg (by omega), if_pos ⟨rfl, by omega, by omega⟩, if_neg from_file]

end Pages

/-- The segments fit below the stack, and no two touch the same page. -/
structure WellFormed (binary : Binary) : Prop where
  magic : binary.eMagic = ELF_MAGIC
  /-- the header table lies in the address space -/
  table : (binary.addr + binary.ePhoff) % WORD + 32 * binary.ePhnum < WORD
  load : ∀ k, k < binary.ePhnum → pType binary (binary.ph k) = ELF_PROG_LOAD
  file : ∀ k, k < binary.ePhnum → binary.pFilesz (binary.ph k) ≤ binary.pMemsz (binary.ph k)
  fits : ∀ k, k < binary.ePhnum →
    binary.pVa (binary.ph k) + binary.pMemsz (binary.ph k) ≤ USTACKTOP - PGSIZE
  apart : ∀ j k, j < k → k < binary.ePhnum →
    Disjoint (pagesOf (binary.pVa (binary.ph k)) (binary.pMemsz (binary.ph k)))
      (pagesOf (binary.pVa (binary.ph j)) (binary.pMemsz (binary.ph j)))

/-- What load_icode is for: the segments are in memory, nothing else is mapped but the stack, every
    page is the environment's own, and it starts at the entry point. -/
structure CorrectlyLoaded (s : State) (e : Fin NENV) (pgdir : Nat) (binary : Binary) : Prop where
  space : (s.envs e).envPgdir = some pgdir
  bytes : ∀ k, k < binary.ePhnum → ∀ i, i < binary.pMemsz (binary.ph k) →
    byteAt s pgdir (binary.pVa (binary.ph k) + i) = some (segmentByte binary (binary.ph k) i)
  mapped : ∀ va, va < UTOP → (walk s pgdir va ≠ none ↔ va / PGSIZE ∈ touched binary)
  rights : ∀ va t, va < UTOP → walk s pgdir va = some t →
    t.pte = mapEntry (Translation.page t) (PTE_W ||| PTE_U) ∧
      (s.pages (Translation.page t)).ppRef = 1
  own : ∀ va va' t t', va < UTOP → va' < UTOP → walk s pgdir va = some t →
    walk s pgdir va' = some t' → Translation.page t = Translation.page t' →
      va / PGSIZE = va' / PGSIZE
  entry : (s.envs e).envTf.tfEip = UInt32.ofNat binary.eEntry
  cr3 : s.cr3 = s.kernPgdir

section Images
variable {m : Machine} {dirs : Dirs} {s0 s s' : State} {fl0 : List Nat} {e : Fin NENV}
  {pgdir : Nat} {binary : Binary} {grants : List Grant}

theorem WellFormed.count (wf : WellFormed binary) : binary.phCount = binary.ePhnum := by
  have table := wf.table
  unfold Binary.phCount
  dsimp only
  rw [Nat.mod_eq_of_lt table]
  omega

theorem WellFormed.below (wf : WellFormed binary) {k : Nat} (within : k < binary.ePhnum) :
    binary.pVa (binary.ph k) < UTOP ∧ Below (binary.pVa (binary.ph k)) (binary.pMemsz (binary.ph k)) := by
  have fits := wf.fits k within
  have stack : USTACKTOP - PGSIZE < UTOP ∧ UTOP + PGSIZE ≤ WORD ∧ UTOP % PGSIZE = 0 := by decide
  refine ⟨by omega, ?_⟩
  have small : binary.pVa (binary.ph k) + binary.pMemsz (binary.ph k) < WORD := by omega
  have room : binary.pVa (binary.ph k) + binary.pMemsz (binary.ph k) + PGSIZE - 1 < WORD := by
    simp only [PGSIZE] at *
    omega
  unfold Below roundUp
  rw [Nat.mod_eq_of_lt small, Nat.mod_eq_of_lt room, roundDown_eq]
  simp only [PGSIZE] at *
  omega

theorem wellFormed_loadable (wf : WellFormed binary) {k : Nat} (within : k < binary.phCount) :
    Loadable binary (binary.ph k) := by
  rw [wf.count] at within
  exact Or.inl (wf.below within)

theorem segmentPages_succ (binary : Binary) (k : Nat) : segmentPages binary (k + 1) =
    pagesOf (binary.pVa (binary.ph k)) (binary.pMemsz (binary.ph k)) ∪ segmentPages binary k := by
  unfold segmentPages
  rw [Finset.range_add_one, Finset.biUnion_insert]

theorem segmentPages_mono {j k : Nat} (before : j ≤ k) :
    segmentPages binary j ⊆ segmentPages binary k :=
  Finset.biUnion_subset_biUnion_of_subset_left _ (Finset.range_mono before)

theorem WellFormed.disjoint (wf : WellFormed binary) {k : Nat} (within : k < binary.ePhnum) :
    Disjoint (pagesOf (binary.pVa (binary.ph k)) (binary.pMemsz (binary.ph k)))
      (segmentPages binary k) := by
  unfold segmentPages
  rw [Finset.disjoint_biUnion_right]
  intro j before
  exact wf.apart j k (Finset.mem_range.mp before) within

theorem WellFormed.no_stack (wf : WellFormed binary) : stackPage ∉ segmentPages binary binary.ePhnum := by
  intro there
  unfold segmentPages at there
  obtain ⟨k, within, member⟩ := Finset.mem_biUnion.mp there
  have fits := wf.fits k (Finset.mem_range.mp within)
  unfold pagesOf at member
  rw [Finset.mem_Ico] at member
  have top : (USTACKTOP - PGSIZE) / PGSIZE = stackPage := by decide
  have whole : (USTACKTOP - PGSIZE) % PGSIZE = 0 := by decide
  simp only [PGSIZE] at *
  omega

structure Headers (m : Machine) (dirs : Dirs) (e : Fin NENV) (s0 : State) (fl0 : List Nat)
    (binary : Binary) (pgdir : Nat) (s : State) (k : Nat) (s' : State) : Prop where
  filling : Filling m dirs e s0 fl0 (segmentPages binary k) s'
  quiet : Quiet s s'
  bytes : ∀ j, j < k → ∀ i, i < binary.pMemsz (binary.ph j) →
    byteAt s' pgdir (binary.pVa (binary.ph j) + i) = some (segmentByte binary (binary.ph j) i)

theorem Headers.next {k : Nat} (headers : Headers m dirs e s0 fl0 binary pgdir s k s')
    (wf : WellFormed binary) (he : dirs e = some pgdir) (cr3 : s.cr3 = pgdir)
    (enough : (touched binary).card + (tablesOf (touched binary)).card ≤ fl0.length)
    (within : k < binary.ePhnum) (grants : List Grant) :
    ∃ grants' s'', loadSegment e binary (binary.ph k) (grants, s') = .ok (grants', s'') ∧
      Headers m dirs e s0 fl0 binary pgdir s (k + 1) s'' := by
  have stack : USTACKTOP - PGSIZE ≤ UTOP := by decide
  have fits := Nat.le_trans (wf.fits k within) stack
  have sub : pagesOf (binary.pVa (binary.ph k)) (binary.pMemsz (binary.ph k)) ∪
      segmentPages binary k ⊆ touched binary := by
    rw [← segmentPages_succ]
    exact Finset.Subset.trans (segmentPages_mono within) (Finset.subset_insert _ _)
  have rooms := rooms_fresh fits (wf.disjoint within) sub enough
  obtain ⟨grants', s'', run, filled, quiet, same, bytes⟩ :=
    headers.filling.segment he (headers.quiet.cr3.trans cr3) (wf.file k within) fits rooms grants
  refine ⟨grants', s'', run, ?_, quiet_trans headers.quiet quiet, ?_⟩
  · rw [segmentPages_succ]
    exact filled
  · intro j before i inside
    by_cases last : j = k
    · subst last
      exact bytes i inside
    · have earlier : j < k := by omega
      have fits_j := Nat.le_trans (wf.fits j (by omega)) stack
      rw [same _ (by omega)]
      · exact headers.bytes j earlier i inside
      · exact Finset.disjoint_right.mp (wf.apart j k earlier within) (mem_pagesOf inside)

theorem Filling.same {pages : Finset Nat} (filling : Filling m dirs e s0 fl0 pages s)
    (same : Untouched dirs s s') (mem : s'.mem = s.mem) : Filling m dirs e s0 fl0 pages s' := by
  obtain ⟨fl, acc, budget⟩ := filling.budget
  refine ⟨filling.loading.same same mem, ⟨fl, same.books acc, budget⟩, ?_, ?_⟩
  · rw [same.target]
    exact filling.leaf
  · rw [same.target]
    exact filling.table

theorem byteAt_congr (mem : s'.mem = s.mem) (va : Nat) : byteAt s' pgdir va = byteAt s pgdir va := by
  unfold byteAt walk State.entry
  rw [mem]

theorem filling_start (tidy : Tidy m dirs s) (acc : Accounted dirs none s fl0)
    (fresh : ∀ d, target dirs none s (.table e d) = none) : Filling m dirs e s fl0 ∅ s := by
  refine ⟨loading_start tidy acc, ⟨fl0, acc, rfl⟩, ?_, ?_⟩
  · intro n small
    have empty : target dirs none s (pageSlot e n small) = none := by
      have no_table : (forest dirs none s).table e ⟨n / NPTENTRIES, _⟩ = none :=
        fresh ⟨n / NPTENTRIES, (pageSlot_dir small)⟩
      change ((forest dirs none s).table e _).bind _ = none
      rw [no_table]
      rfl
    simp [empty]
  · intro d
    simp [fresh d, tablesOf]

theorem walk_leaf {va : Nat} (tidy : Tidy m dirs s) (he : dirs e = some pgdir)
    (user : pdx va < userPdes) {t : Translation} (walked : walk s pgdir va = some t) :
    t.pte = mapEntry (Translation.page t) (PTE_W ||| PTE_U) := by
  obtain ⟨_, _, same⟩ := walk_some.mp walked
  have page := walk_page (s := s) he user
  rw [walked] at page
  obtain ⟨table, ht, entry⟩ := tidy.rights e ⟨pdx va, user⟩ ⟨ptx va, ptx_lt va⟩ _ page.symm
  obtain ⟨_, named⟩ := (table_entry he).mp ht
  dsimp only at named entry
  rw [← entry, same, named]

theorem Filling.correct (filling : Filling m dirs e s0 fl0 (touched binary) s)
    (he : dirs e = some pgdir)
    (bytes : ∀ k, k < binary.ePhnum → ∀ i, i < binary.pMemsz (binary.ph k) →
      byteAt s pgdir (binary.pVa (binary.ph k) + i) = some (segmentByte binary (binary.ph k) i))
    (entry : (s.envs e).envTf.tfEip = UInt32.ofNat binary.eEntry) (cr3 : s.cr3 = s.kernPgdir) :
    CorrectlyLoaded s e pgdir binary := by
  have tidy := filling.loading.tidy
  obtain ⟨fl, acc⟩ := tidy.view.kept.books
  refine ⟨tidy.view.kept.known e pgdir he, bytes, ?_, ?_, ?_, entry, cr3⟩
  · intro va user
    have page := walk_page (s := s) he (user_slot user)
    rw [leafSlot_page user] at page
    rw [← filling.leaf (va / PGSIZE) (page_below user), ← page]
    simp
  · intro va t user walked
    refine ⟨walk_leaf tidy he (user_slot user) walked, ?_⟩
    have page := walk_page (s := s) he (user_slot user)
    rw [walked, Option.map_some] at page
    have one : refs (target dirs none s) (Translation.page t) = 1 := by
      have most := tidy.single (Translation.page t)
      have least := refs_pos.mpr ⟨_, page.symm⟩
      omega
    rw [acc.counts _ (acc.targets _ _ page.symm), one]
    rfl
  · intro va va' t t' user user' walked walked' same
    have page := walk_page (s := s) he (user_slot user)
    have page' := walk_page (s := s) he (user_slot user')
    rw [walked, Option.map_some, leafSlot_page user] at page
    rw [walked', Option.map_some, leafSlot_page user', ← same] at page'
    exact (pageSlot_inj _ _).mp (tidy.unique page.symm page'.symm)

theorem segments_total (tidy : Tidy m dirs s) (acc : Accounted dirs none s fl0)
    (he : dirs e = some pgdir) (fresh : ∀ d, target dirs none s (.table e d) = none)
    (wf : WellFormed binary)
    (enough : (touched binary).card + (tablesOf (touched binary)).card ≤ fl0.length) :
    ∃ grants s', times (fun k got => loadSegment e binary (binary.ph k) got) binary.phCount
        ([], lcr3 s pgdir) = .ok (grants, s') ∧
      Headers m dirs e s fl0 binary pgdir (lcr3 s pgdir) binary.ePhnum s' := by
  have switched := lcr3_untouched dirs s pgdir
  have filling := (filling_start tidy acc fresh).same switched rfl
  have start : Headers m dirs e s fl0 binary pgdir (lcr3 s pgdir) 0
      (([], lcr3 s pgdir) : List Grant × State).2 := by
    refine ⟨filling, quiet_refl _, ?_⟩
    intro j before
    exact absurd before (Nat.not_lt_zero j)
  have round : ∀ (k : Nat) (a : List Grant × State), k < binary.ePhnum →
      Headers m dirs e s fl0 binary pgdir (lcr3 s pgdir) k a.2 →
      ∃ b, loadSegment e binary (binary.ph k) a = .ok b ∧
        Headers m dirs e s fl0 binary pgdir (lcr3 s pgdir) (k + 1) b.2 := by
    intro k a within headers
    obtain ⟨grants', s'', run, next⟩ := headers.next wf he rfl enough within a.1
    exact ⟨(grants', s''), run, next⟩
  obtain ⟨⟨grants, s'⟩, run, headers⟩ := times_total
    (fun k (got : List Grant × State) =>
      Headers m dirs e s fl0 binary pgdir (lcr3 s pgdir) k got.2) start round
  rw [wf.count]
  exact ⟨grants, s', run, headers⟩

theorem stack_pages : pagesOf (USTACKTOP - PGSIZE) PGSIZE = {stackPage} := by decide

/-- load_icode gets through, and has done what it is for. -/
theorem loadIcode_total (tidy : Tidy m dirs s) (acc : Accounted dirs none s fl0)
    (he : dirs e = some pgdir) (fresh : ∀ d, target dirs none s (.table e d) = none)
    (wf : WellFormed binary)
    (enough : (touched binary).card + (tablesOf (touched binary)).card ≤ fl0.length) :
    ∃ grants s', loadIcode s e binary = .ok (grants, s') ∧
      Filling m dirs e s fl0 (touched binary) s' ∧ CorrectlyLoaded s' e pgdir binary := by
  obtain ⟨grants, s1, looped, headers⟩ := segments_total tidy acc he fresh wf enough
  obtain ⟨s2, at_s2⟩ : ∃ s2, s2 = lcr3 (s1.setEnv e { s1.envs e with
    envTf := { (s1.envs e).envTf with tfEip := UInt32.ofNat binary.eEntry } }) s1.kernPgdir :=
      ⟨_, rfl⟩
  have same : Untouched dirs s1 s2 := by
    rw [at_s2]
    exact (entry_untouched dirs s1 e _).trans (lcr3_untouched _ _ _)
  have mem : s2.mem = s1.mem := by
    rw [at_s2]
    rfl
  have filling := headers.filling.same same mem
  have fits : USTACKTOP - PGSIZE + PGSIZE ≤ UTOP := by decide
  have all : pagesOf (USTACKTOP - PGSIZE) PGSIZE ∪ segmentPages binary binary.ePhnum =
      touched binary := by
    rw [stack_pages]
    exact (Finset.insert_eq _ _).symm
  have apart : Disjoint (pagesOf (USTACKTOP - PGSIZE) PGSIZE)
      (segmentPages binary binary.ePhnum) := by
    rw [stack_pages, Finset.disjoint_singleton_left]
    exact wf.no_stack
  have rooms := rooms_fresh fits apart (Finset.Subset.refl _) (by rw [all]; exact enough)
  obtain ⟨grants', s', stack, filled, quiet, bytes⟩ := filling.region he fits rooms grants
  rw [all] at filled
  have known := tidy.view.kept.known e pgdir he
  have entry : (s'.envs e).envTf.tfEip = UInt32.ofNat binary.eEntry := by
    rw [quiet.envs, at_s2, lcr3_envs, setEnv_here]
  have cr3 : s'.cr3 = s'.kernPgdir := by
    rw [quiet.cr3, quiet.kernPgdir, at_s2]
    rfl
  rw [at_s2] at stack
  refine ⟨grants', s', loadIcode_run wf.magic known looped stack, filled, ?_⟩
  apply filled.correct he _ entry cr3
  intro k within i inside
  have below := wf.fits k within
  have stack_high : USTACKTOP - PGSIZE ≤ UTOP := by decide
  have member : (binary.pVa (binary.ph k) + i) / PGSIZE ∈ segmentPages binary binary.ePhnum :=
    Finset.mem_biUnion.mpr ⟨k, Finset.mem_range.mpr within, mem_pagesOf inside⟩
  rw [bytes _ (by omega), byteAt_congr mem]
  · exact headers.bytes k within i inside
  · rw [stack_pages, Finset.mem_singleton]
    intro here
    rw [here] at member
    exact wf.no_stack member

theorem fresh_books {parentId : EnvId} {fl : List Nat} (inv : KernelInv m s)
    (acc : Accounted (dirsOf s) none s fl) (run : envAlloc s parentId = .ok (0, some e.val, s')) :
    ∃ p rest, fl = p :: rest ∧ dirsOf s e = none ∧ dirsOf s' = Function.update (dirsOf s) e (some p) ∧
      Accounted (dirsOf s') none s' rest ∧
      target (dirsOf s') none s' = Function.update (target (dirsOf s) none s) (.root e) (some p) := by
  rcases envAlloc_cases inv acc run with ⟨_, failed, _⟩ | ⟨f, p, rest, rfl, empty, _, same, rfl⟩
  · cases failed
  · obtain rfl : e = f := Fin.ext (Option.some.inj same)
    have dirs := dirsOf_newEnv s e p parentId
    obtain ⟨books, moved⟩ := newEnv_books acc empty parentId
    rw [← dirs] at books moved
    exact ⟨p, rest, rfl, empty, dirs, books, moved⟩

theorem own_without_dir {x : PageSlot} (empty : dirs e = none) (own : Own e x) :
    target dirs none s x = none := by
  have no_table : ∀ d, target dirs none s (.table e d) = none := by
    intro d
    change ((dirs e).bind _ : Option Nat) = none
    rw [empty]
    rfl
  cases x with
  | hand => exact own.elim
  | root f =>
    obtain rfl : f = e := own
    exact empty
  | table f d =>
    obtain rfl : f = e := own
    exact no_table d
  | leaf f d i =>
    obtain rfl : f = e := own
    exact leaf_without_table (no_table d) i
  | fixed k => exact own.elim

theorem fresh_env {parentId : EnvId} (inv : KernelInv m s)
    (run : envAlloc s parentId = .ok (0, some e.val, s')) :
    ∃ pgdir, dirsOf s' e = some pgdir ∧ ∀ d, target (dirsOf s') none s' (.table e d) = none := by
  obtain ⟨fl, acc⟩ := inv.tidy.view.kept.books
  obtain ⟨p, _, _, empty, dirs, _, moved⟩ := fresh_books inv acc run
  refine ⟨p, by rw [dirs, Function.update_self], ?_⟩
  intro d
  rw [moved, Function.update_of_ne (by simp)]
  exact own_without_dir empty rfl

end Images

/-- A program has been loaded: the same environments live, its pages are mapped and paid for. -/
structure Placed (s : State) (fl : List Nat) (binary : Binary) (e : Fin NENV) (s' : State) : Prop where
  same : SameSlots s s'
  curenv : s'.curenv = s.curenv
  pages : ∀ n (small : n < UTOP / PGSIZE), n ∈ touched binary →
    target (dirsOf s') none s' (pageSlot e n small) ≠ none
  books : ∃ fl', Accounted (dirsOf s') none s' fl' ∧
    fl'.length + (touched binary).card + (tablesOf (touched binary)).card = fl.length

theorem load_placed {m : Machine} {s : State} {fl : List Nat} {binary : Binary} {e : Fin NENV}
    {pgdir : Nat} (inv : KernelInv m s)
    (acc : Accounted (dirsOf s) none s fl) (he : dirsOf s e = some pgdir)
    (no_table : ∀ d, target (dirsOf s) none s (.table e d) = none) (wf : WellFormed binary)
    (enough : (touched binary).card + (tablesOf (touched binary)).card ≤ fl.length) :
    ∃ grants s1 s', loadIcode (mirror s) e binary = .ok (grants, s1) ∧
      loadInPlace s e binary = .ok s' ∧ Placed s fl binary e s' := by
  have inv0 := mirror_inv inv
  have acc0 := (mirror_untouched inv).books acc
  have no_table0 : ∀ d, target (dirsOf (mirror s)) none (mirror s) (.table e d) = none := by
    intro d
    change target (dirsOf s) none (mirror s) (.table e d) = none
    rw [(mirror_untouched inv).target]
    exact no_table d
  have he0 : dirsOf (mirror s) e = some pgdir := he
  obtain ⟨grants, s1, took, filling, _⟩ := loadIcode_total inv0.tidy acc0 he0 no_table0 wf enough
  have loaded := loadIcode_ok inv0.tidy acc0 he0 (fun k within => wellFormed_loadable wf within) took
  have dirs1 : dirsOf s1 = dirsOf s := (loaded_same loaded).dirsOf
  obtain ⟨slots, same, _⟩ := reread_left s1 e
    { ((reread s1).envs e).envTf with tfEip := UInt32.ofNat binary.eEntry }
  obtain ⟨s2, at_s2⟩ : ∃ s2, s2 = (reread s1).setEnv e { (reread s1).envs e with
    envTf := { ((reread s1).envs e).envTf with tfEip := UInt32.ofNat binary.eEntry } } := ⟨_, rfl⟩
  have placed : loadInPlace s e binary = .ok s2 := by
    unfold loadInPlace
    rw [took, at_s2]
    rfl
  rw [← at_s2] at slots same
  have targets : target (dirsOf s2) none s2 = target (dirsOf s) none s1 := by
    rw [slots.dirsOf, same.target, dirs1]
  refine ⟨grants, s1, s2, took, placed, ?_, ?_, ?_, ?_⟩
  · intro g
    obtain ⟨link, id, dir, free⟩ := loaded_same loaded g
    obtain ⟨link', id', dir', free'⟩ := slots g
    exact ⟨link'.trans link, id'.trans id, dir'.trans dir, free'.trans free⟩
  · have kept : s2.curenv = s1.curenv := by rw [at_s2]; rfl
    rw [kept, loaded.rest]
    rfl
  · intro n small member
    rw [targets]
    exact (filling.leaf n small).mpr member
  · obtain ⟨fl', books, paid⟩ := filling.budget
    have books1 : Accounted (dirsOf s1) none s1 fl' := by
      rw [dirs1]
      exact books
    have books2 := same.books books1
    rw [← slots.dirsOf] at books2
    exact ⟨fl', books2, paid⟩

/-- load_icode of a well-formed image into a fresh environment, with a free page for every page
    the segments touch, for the stack, and for their page tables. -/
theorem load_icode_correct {m : Machine} {s0 s : State} (reached : Reached m loadsLow s0)
    (parentId : EnvId) (e : Fin NENV) (fresh : envAlloc s0 parentId = .ok (0, some e.val, s))
    (binary : Binary) (wf : WellFormed binary) (fl : List Nat) (list : FreeList s fl)
    (enough : (touched binary).card + (tablesOf (touched binary)).card ≤ fl.length) :
    ∃ grants s' pgdir, loadIcode s e binary = .ok (grants, s') ∧
      CorrectlyLoaded s' e pgdir binary := by
  have inv0 := reached_inv loadsLow_keeps reached
  have inv := alloc_inv inv0 fresh
  obtain ⟨pgdir, he, empty⟩ := fresh_env inv0 fresh
  obtain ⟨fl', acc⟩ := inv.tidy.view.kept.books
  obtain rfl : fl' = fl := chain_unique acc.list list
  obtain ⟨grants, s', run, _, correct⟩ := loadIcode_total inv.tidy acc he empty wf enough
  exact ⟨grants, s', pgdir, run, correct⟩

def smallImage : Binary := oneHeader 1 0x100 0x1ffc 4 8 fun o => if o < 0x104 then 0xAB else 0xCD

theorem oneSegment_wellFormed {binary : Binary} (magic : binary.eMagic = ELF_MAGIC)
    (one : binary.ePhnum = 1) (table : (binary.addr + binary.ePhoff) % WORD + 32 < WORD)
    (load : pType binary (binary.ph 0) = ELF_PROG_LOAD)
    (file : binary.pFilesz (binary.ph 0) ≤ binary.pMemsz (binary.ph 0))
    (fits : binary.pVa (binary.ph 0) + binary.pMemsz (binary.ph 0) ≤ USTACKTOP - PGSIZE) :
    WellFormed binary := by
  refine ⟨magic, ?_, ?_, ?_, ?_, ?_⟩
  · rw [one]
    exact table
  all_goals
    rw [one]
    intro k
  · intro within
    obtain rfl : k = 0 := by omega
    exact load
  · intro within
    obtain rfl : k = 0 := by omega
    exact file
  · intro within
    obtain rfl : k = 0 := by omega
    exact fits
  · intro j before within
    omega

theorem smallImage_wellFormed : WellFormed smallImage :=
  oneSegment_wellFormed (by decide) (by decide) (by decide) (by decide) (by decide) (by decide)

theorem load_icode_correct_smallMachine : ∃ s grants s' pgdir,
    loadIcode s (0 : Fin NENV) smallImage = .ok (grants, s') ∧
      CorrectlyLoaded s' 0 pgdir smallImage := by
  obtain ⟨s0, p, s, fl, reached, fresh, first⟩ := @first_alloc loadsLow
  have cost : (touched smallImage).card + (tablesOf (touched smallImage)).card = 5 := by decide
  have enough := first.enough
  obtain ⟨grants, s', pgdir, run, correct⟩ := load_icode_correct reached 0 0 fresh smallImage
    smallImage_wellFormed fl first.books.list (by omega)
  exact ⟨s, grants, s', pgdir, run, correct⟩

def hollowImage : Binary := oneHeader 1 0x100 0x1001 0 0 fun _ => 0

theorem hollowImage_wellFormed : WellFormed hollowImage :=
  oneSegment_wellFormed (by decide) (by decide) (by decide) (by decide) (by decide) (by decide)

def HasByte (binary : Binary) (n : Nat) : Prop :=
  ∃ k i, k < binary.ePhnum ∧ i < binary.pMemsz (binary.ph k) ∧
    (binary.pVa (binary.ph k) + i) / PGSIZE = n

/-- The pages with a byte of a segment are not all that is mapped besides the stack: region_alloc
    rounds the start of an empty segment down and its end up. -/
theorem load_icode_maps_more : ¬ ∀ s0, Reached smallMachine loadsLow s0 → ∀ parentId (e : Fin NENV) s,
    envAlloc s0 parentId = .ok (0, some e.val, s) → ∀ binary, WellFormed binary → ∀ fl, FreeList s fl →
      (touched binary).card + (tablesOf (touched binary)).card ≤ fl.length →
      ∃ grants s' pgdir, loadIcode s e binary = .ok (grants, s') ∧
        (s'.envs e).envPgdir = some pgdir ∧ ∀ va, va < UTOP →
          (walk s' pgdir va ≠ none ↔ va / PGSIZE = stackPage ∨ HasByte binary (va / PGSIZE)) := by
  intro claim
  obtain ⟨s0, p, s, fl, reached, fresh, first⟩ := @first_alloc loadsLow
  have cost : (touched hollowImage).card + (tablesOf (touched hollowImage)).card = 4 := by decide
  have enough := first.enough
  have room : (touched hollowImage).card + (tablesOf (touched hollowImage)).card ≤ fl.length := by
    omega
  obtain ⟨grants, s', pgdir, run, space, mapped⟩ := claim s0 reached 0 0 s fresh hollowImage
    hollowImage_wellFormed fl first.books.list room
  obtain ⟨_, _, run', _, correct⟩ := loadIcode_total first.inv.tidy first.books first.dir
    first.tables hollowImage_wellFormed room
  obtain ⟨rfl, rfl⟩ := Prod.mk.inj (Except.ok.inj (run.symm.trans run'))
  obtain rfl : pgdir = p := Option.some.inj (space.symm.trans correct.space)
  have there := (correct.mapped 0x1000 (by decide)).mpr (by decide)
  rcases (mapped 0x1000 (by decide)).mp there with stack | byte
  · exact absurd stack (by decide)
  · obtain ⟨k, i, within, inside, _⟩ := byte
    have one : hollowImage.ePhnum = 1 := by decide
    obtain rfl : k = 0 := by omega
    have nothing : hollowImage.pMemsz (hollowImage.ph 0) = 0 := by decide
    omega

end JosLoader
