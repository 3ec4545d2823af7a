import Jos.InsertContract
import Mathlib.Data.Nat.Count

/- What region_alloc promises. It looks at the result of page_alloc and not at that of page_insert:
   when a page table cannot be had, the page it just took is mapped nowhere, and only the next
   round can find that out. -/
namespace JosRegionContract
open JosLayout FrameWords JosMachine JosPmap JosMmu JosEnv JosBoot JosAccounting JosPageOps
open JosMapping JosEnvSpace JosRegions JosBootPages JosStaticMap JosPageRuns JosRefWrap JosDirRights
open JosUserStores JosLoading JosNewEnv JosRemaps JosTlb JosInsertContract IntrusiveList Ledger
open SlotFill TableForest CountedLoop

def pageAt (va k : Nat) : Nat := roundDown va PGSIZE + k * PGSIZE

/-- Round k needs a page table: its slot has none, and no round before was for that slot. -/
def NeedsTable (s : State) (pgdir va k : Nat) : Prop :=
  ¬ Present (s.entry pgdir (pdx (pageAt va k))) ∧
    ∀ j, j < k → pdx (pageAt va j) ≠ pdx (pageAt va k)

def leafAt (e : Fin NENV) (va k : Nat) : PageSlot :=
  .leaf e ⟨pdx (pageAt va k) % userPdes, Nat.mod_lt _ (by decide)⟩ ⟨ptx (pageAt va k), ptx_lt _⟩

def tabAt (e : Fin NENV) (va k : Nat) : PageSlot :=
  .table e ⟨pdx (pageAt va k) % userPdes, Nat.mod_lt _ (by decide)⟩

/-- Round k gives a page back: the one mapped there, if nothing else refers to it than the slots of
    this round and those before. -/
def GivesBack (dirs : Dirs) (s : State) (e : Fin NENV) (pgdir va k : Nat) : Prop :=
  ∃ q, Maps s pgdir (pageAt va k) q ∧ ∀ x, target dirs none s x = some q →
    ∃ j, j ≤ k ∧ x = leafAt e va j

open Classical in
/-- The last of n rounds needs a page table when its page has taken the last one there was. -/
def Short (dirs : Dirs) (s : State) (fl : List Nat) (e : Fin NENV) (pgdir va n : Nat) : Prop :=
  ∃ m, n = m + 1 ∧ NeedsTable s pgdir va m ∧
    fl.length + Nat.count (GivesBack dirs s e pgdir va) m =
      m + Nat.count (NeedsTable s pgdir va) m + 1

def NewTables (s : State) (pgdir va n c va' : Nat) : Prop :=
  ∃ k, k < n ∧ NewTable s pgdir (pageAt va k) c va'

/-- What the n rounds of region_alloc have done: every page_alloc and page_insert succeeded, each
    address has a page of its own, no other page but those in spare has moved, and what has left
    the free list is in use. -/
structure AllMapped (spare : Nat → Nat → Prop) (dirs : Dirs) (s : State) (fl : List Nat)
    (pgdir va n : Nat) (grants : List Grant) (s' : State) : Prop where
  own : ∃ page : Nat → Nat, grants = ((List.range n).map fun k => ⟨page k, 0⟩).reverse ∧
    (∀ j k, j < n → k < n → page j = page k → j = k) ∧
    ∀ k, k < n → (s'.pages (page k)).ppRef = 1 ∧ ∃ p,
      pageLookup s' pgdir (pageAt va k) = .ok (some (page k, p)) ∧
        s'.entry p.table p.idx = page2pa (page k) ||| (PTE_W ||| PTE_U) ||| PTE_P
  others : ∀ c va', Directory dirs s c → va' < WORD →
    (c = pgdir → ∀ k, k < n → pgnum va' ≠ pgnum (pageAt va k)) → ¬ spare c va' → Unmoved s s' c va'
  kept : ∀ q ∈ fl, OnFreeList s' q ∨ ∃ x, target dirs none s' x = some q

def MapsOrPanics (spare : Nat → Nat → Prop) (dirs : Dirs) (s : State) (fl : List Nat)
    (e : Fin NENV) (pgdir va len : Nat) : Prop :=
  regionAlloc ([], s) e va len = .error .regionAllocFailed ∨
    ∃ grants s', regionAlloc ([], s) e va len = .ok (grants, s') ∧
      AllMapped spare dirs s fl pgdir va (rounds va len) grants s'

section Addresses
variable {va j k len : Nat}

theorem pageAt_user (fits : va + len ≤ UTOP) (within : k < rounds va len) :
    pageAt va k < UTOP := by
  have below : Below va len := by
    have whole : UTOP % PGSIZE = 0 := by decide
    have top : UTOP + PGSIZE ≤ WORD := by decide
    unfold Below roundUp
    rw [roundDown_eq, Nat.mod_eq_of_lt (show va + len < WORD by simp only [PGSIZE] at *; omega)]
    have room : va + len + PGSIZE - 1 < WORD := by
      simp only [PGSIZE] at *
      omega
    rw [Nat.mod_eq_of_lt room]
    simp only [PGSIZE] at *
    omega
  have last := (below_user below within).1
  unfold pageAt
  simp only [PGSIZE] at *
  omega

theorem pageAt_pgnum (va k : Nat) : pgnum (pageAt va k) = va / 4096 + k := by
  unfold pageAt
  rw [pgnum_eq, roundDown_eq]
  simp only [PGSIZE]
  omega

theorem pageAt_apart (differ : j ≠ k) : pgnum (pageAt va j) ≠ pgnum (pageAt va k) := by
  rw [pageAt_pgnum, pageAt_pgnum]
  omega

theorem leafAt_eq (e : Fin NENV) (user : pageAt va k < UTOP) :
    leafAt e va k = leafSlot e (pageAt va k) (user_slot user) := by
  unfold leafAt leafSlot
  simp only [Nat.mod_eq_of_lt (user_slot user)]

theorem tabAt_eq (e : Fin NENV) (user : pageAt va k < UTOP) :
    tabAt e va k = .table e ⟨pdx (pageAt va k), user_slot user⟩ := by
  unfold tabAt
  simp only [Nat.mod_eq_of_lt (user_slot user)]

theorem leafAt_ne_tabAt (e : Fin NENV) (va j k : Nat) : leafAt e va j ≠ tabAt e va k :=
  fun same => nomatch same

theorem leafAt_apart (e : Fin NENV) (user : pageAt va k < UTOP) (user' : pageAt va j < UTOP)
    (differ : j ≠ k) : leafAt e va k ≠ leafAt e va j := by
  have top : UTOP < WORD := by decide
  rw [leafAt_eq e user, leafAt_eq e user']
  intro same
  simp only [leafSlot, Slot.leaf.injEq, Fin.mk.injEq, true_and] at same
  exact pageAt_apart differ.symm
    (same_page (Nat.lt_trans user top) (Nat.lt_trans user' top) same.1 same.2)

theorem tabAt_same (e : Fin NENV) (user : pageAt va k < UTOP) (user' : pageAt va j < UTOP) :
    tabAt e va j = tabAt e va k ↔ pdx (pageAt va j) = pdx (pageAt va k) := by
  rw [tabAt_eq e user, tabAt_eq e user']
  simp

end Addresses

open Classical in
/-- In the middle of region_alloc: k pages are mapped, and the free list has paid for them and for
    the tables they need. -/
structure Laid (dirs : Dirs) (e : Fin NENV) (s0 : State) (fl0 : List Nat) (pgdir va k : Nat)
    (page : Nat → Nat) (s : State) (fl : List Nat) : Prop where
  books : Books dirs s fl
  quiet : Quiet s0 s
  budget : fl.length + k + Nat.count (NeedsTable s0 pgdir va) k =
    fl0.length + Nat.count (GivesBack dirs s0 e pgdir va) k
  filled : Filled (target dirs none s0) (target dirs none s) (leafAt e va) (tabAt e va) k page
  entry : ∀ j, j < k → ∃ t, target dirs none s (tabAt e va j) = some t ∧
    s.entry t (ptx (pageAt va j)) = mapEntry (page j) (PTE_W ||| PTE_U)
  others : ∀ c va', Directory dirs s0 c → va' < WORD →
    (c = pgdir → ∀ j, j < k → pgnum va' ≠ pgnum (pageAt va j)) →
      ¬ NewTables s0 pgdir va k c va' → Unmoved s0 s c va'
  kept : ∀ q ∈ fl0, refs (target dirs none s) q = 0 → q ∈ fl

section Rounds
variable {dirs : Dirs} {e : Fin NENV} {s0 s : State} {fl0 fl : List Nat} {pgdir va k : Nat}
  {page : Nat → Nat}

theorem Laid.start (books : Books dirs s0 fl0) (page : Nat → Nat) :
    Laid dirs e s0 fl0 pgdir va 0 page s0 fl0 := by
  refine ⟨books, quiet_refl s0, rfl, .start _ _ _ _, ?_, ?_, ?_⟩
  · intro j less
    exact absurd less (Nat.not_lt_zero j)
  · intro c va' _ _ _ _
    exact unmoved_of_eq rfl
  · intro q listed _
    exact listed

theorem Laid.needs (laid : Laid dirs e s0 fl0 pgdir va k page s fl) (he : dirs e = some pgdir)
    (users : ∀ j, j ≤ k → pageAt va j < UTOP) :
    target dirs none s (tabAt e va k) = none ↔ NeedsTable s0 pgdir va k := by
  have user := users k (Nat.le_refl k)
  rw [laid.filled.next_table (leafAt_ne_tabAt e va)]
  unfold NeedsTable
  rw [tabAt_eq e user, table_absent he]
  refine and_congr_right fun _ => forall₂_congr fun j less => ?_
  rw [← tabAt_eq e user, Ne, tabAt_same e user (users j (Nat.le_of_lt less))]

theorem Laid.gives (books0 : Books dirs s0 fl0) (laid : Laid dirs e s0 fl0 pgdir va k page s fl)
    (he : dirs e = some pgdir) (users : ∀ j, j ≤ k → pageAt va j < UTOP) :
    (∃ q, target dirs none s (leafAt e va k) = some q ∧ refs (target dirs none s) q = 1) ↔
      GivesBack dirs s0 e pgdir va k := by
  have user := users k (Nat.le_refl k)
  have once : ∀ j, j < k → leafAt e va k ≠ leafAt e va j := fun j less =>
    leafAt_apart e user (users j (Nat.le_of_lt less)) (Nat.ne_of_lt less)
  have start : ∀ q, Maps s0 pgdir (pageAt va k) q ↔
      target dirs none s0 (leafAt e va k) = some q := by
    intro q
    rw [leafAt_eq e user]
    exact maps_iff books0.acc he (user_slot user)
  rw [laid.filled.next_leaf once (leafAt_ne_tabAt e va k)]
  unfold GivesBack
  refine exists_congr fun q => ?_
  rw [start]
  refine and_congr_right fun held => ?_
  exact laid.filled.next_last once (leafAt_ne_tabAt e va) held

theorem taken_books {p : Nat} {rest : List Nat} (books : Books dirs s (p :: rest)) :
    Books dirs (takeFree s p false) rest ∧
      target dirs none (takeFree s p false) = target dirs none s := by
  have acc := books.acc
  have same := takeFree_target acc (p := p) false
  refine ⟨⟨takeFree_books acc false, ?_, books.shaped.frame rfl rfl fun _ _ _ => rfl, books.uvpt,
    books.kernRoom⟩, same⟩
  intro q
  rw [same]
  exact books.bounded q

section Next
variable {s1 s' : State} {p t : Nat} {rest fl1 fl' : List Nat} (user : pageAt va k < UTOP)
  (laid : Laid dirs e s0 fl0 pgdir va k page s (p :: rest)) (he : dirs e = some pgdir)
  (users : ∀ j, j ≤ k → pageAt va j < UTOP)
  (walked : Walked dirs none e ⟨pdx (pageAt va k), user_slot user⟩ pgdir (takeFree s p false) rest t
    s1 fl1)
  (inserted : Inserted dirs e ⟨pdx (pageAt va k), user_slot user⟩ ⟨ptx (pageAt va k), ptx_lt _⟩ pgdir
    p (PTE_W ||| PTE_U) (takeFree s p false) t s1 fl1 s' fl')
include laid he walked inserted

theorem Laid.next_kept : ∀ q ∈ fl0, refs (target dirs none s') q = 0 → q ∈ fl' := by
  obtain ⟨books, same⟩ := taken_books laid.books
  intro q listed unused
  have moved := inserted_refs walked inserted q
  rw [unused, same] at moved
  have not_p : p ≠ q := by
    intro eq
    subst eq
    have free : target dirs none s (.leaf e ⟨pdx (pageAt va k), user_slot user⟩
        ⟨ptx (pageAt va k), ptx_lt _⟩) ≠ some p :=
      fun there => busy_of_target laid.books.acc there (by simp)
    rw [if_neg free, if_pos rfl] at moved
    omega
  have not_new : ¬ (target dirs none s (.table e ⟨pdx (pageAt va k), user_slot user⟩) = none ∧ t = q) := by
    intro new
    rw [if_pos new] at moved
    have free : target dirs none s (.leaf e ⟨pdx (pageAt va k), user_slot user⟩
        ⟨ptx (pageAt va k), ptx_lt _⟩) ≠ some q := by
      rw [leaf_without_table new.1]
      exact fun never => nomatch never
    rw [if_neg free] at moved
    omega
  rw [if_neg not_p, if_neg not_new] at moved
  by_cases held : target dirs none s (.leaf e ⟨pdx (pageAt va k), user_slot user⟩
      ⟨ptx (pageAt va k), ptx_lt _⟩) = some q
  · rw [if_pos held] at moved
    rw [← same] at held
    refine (displaced_free books.acc he walked inserted held not_p.symm).mpr ?_
    rw [same]
    omega
  · rw [if_neg held] at moved
    have free := laid.kept q listed (by omega)
    apply inserted_keeps_free inserted
    rcases walked with ⟨_, _, rfl⟩ | ⟨empty, _, rfl⟩
    · exact (List.mem_cons.mp free).resolve_left not_p.symm
    · have at_rest := (List.mem_cons.mp free).resolve_left not_p.symm
      refine (List.mem_cons.mp at_rest).resolve_left fun eq => not_new ⟨?_, eq.symm⟩
      rw [← same]
      exact empty

include users

omit he in
theorem Laid.next_filled : Filled (target dirs none s0) (target dirs none s') (leafAt e va)
    (tabAt e va) (k + 1) (Function.update page k p) := by
  obtain ⟨_, same⟩ := taken_books laid.books
  have acc := laid.books.acc
  have once : ∀ j, j < k → leafAt e va k ≠ leafAt e va j := fun j less =>
    leafAt_apart e user (users j (Nat.le_of_lt less)) (Nat.ne_of_lt less)
  have unused : refs (target dirs none s) p = 0 := free_refs acc (by simp)
  have table : (p ≠ t) ∧ (target dirs none s (tabAt e va k) = some t ∨
      target dirs none s (tabAt e va k) = none ∧ refs (target dirs none s) t = 0) := by
    rw [tabAt_eq e user, ← same]
    rcases walked with ⟨there, _, _⟩ | ⟨empty, _, rfl⟩
    · refine ⟨?_, Or.inl there⟩
      intro eq
      rw [same, ← eq] at there
      exact busy_of_target acc there (by simp)
    · refine ⟨?_, Or.inr ⟨empty, ?_⟩⟩
      · intro eq
        exact (List.nodup_cons.mp acc.nodup).1 (by simp [eq])
      · rw [same]
        exact free_refs acc (by simp)
  have step := laid.filled.step once (leafAt_ne_tabAt e va) unused table.1 table.2
  rw [inserted.target_eq, same, ← tabAt_eq e user]
  have slot : leafAt e va k = .leaf e ⟨pdx (pageAt va k), user_slot user⟩ ⟨ptx (pageAt va k), ptx_lt _⟩ :=
    leafAt_eq e user
  rw [← slot]
  exact step

open Classical in
theorem Laid.next_budget (books0 : Books dirs s0 fl0) :
    fl'.length + (k + 1) + (Nat.count (NeedsTable s0 pgdir va) (k + 1)) =
      fl0.length + (Nat.count (GivesBack dirs s0 e pgdir va) (k + 1)) := by
  obtain ⟨books, same⟩ := taken_books laid.books
  have needs := laid.needs he users
  have gives := laid.gives books0 he users
  rw [tabAt_eq e user] at needs
  rw [leafAt_eq e user] at gives
  have fresh : target dirs none (takeFree s p false) (leafSlot e (pageAt va k) (user_slot user)) ≠
      some p := by
    rw [same]
    exact fun there => busy_of_target laid.books.acc there (by simp)
  have length := inserted_length books.acc he walked inserted fresh
  rw [same] at length
  simp only [needs, gives] at length
  have budget := laid.budget
  rw [List.length_cons] at budget
  rw [Nat.count_succ, Nat.count_succ]
  omega

theorem Laid.next (books0 : Books dirs s0 fl0)
    (run : pageInsert (takeFree s p false) pgdir p (pageAt va k) (PTE_W ||| PTE_U) = .ok (0, s')) :
    Laid dirs e s0 fl0 pgdir va (k + 1) (Function.update page k p) s' fl' := by
  obtain ⟨books, same⟩ := taken_books laid.books
  have acc := laid.books.acc
  have small : PTE_W ||| PTE_U < 4096 := by decide
  have filled := laid.next_filled user users walked inserted
  have room : refs (target dirs none (takeFree s p false)) p < 65535 := by
    rw [same, free_refs acc (by simp)]
    decide
  refine ⟨inserted_books books room he small walked inserted, ?_, ?_, filled, ?_, ?_, ?_⟩
  · exact quiet_trans laid.quiet (quiet_trans (takeFree_quiet s p false) inserted.quiet)
  · exact laid.next_budget user he users walked inserted books0
  · intro j less
    by_cases here : j = k
    · subst here
      rw [Function.update_self, tabAt_eq e user]
      refine ⟨t, ?_, inserted.leaf⟩
      rw [inserted.target_eq, Function.update_of_ne (by simp), Function.update_self]
    · have before : j < k := by omega
      have user_j := users j (Nat.le_of_lt before)
      obtain ⟨t', table, entry⟩ := laid.entry j before
      rw [tabAt_eq e user_j, ← same] at table
      have other := leafAt_apart e user user_j here
      rw [leafAt_eq e user, leafAt_eq e user_j] at other
      obtain ⟨still, kept⟩ := inserted_entry books.acc he walked inserted other.symm table
      rw [Function.update_of_ne here, tabAt_eq e user_j]
      exact ⟨t', still, kept.trans entry⟩
  · intro c va' dir word other hidden
    have first := laid.others c va' dir word (fun own j less => other own j (by omega)) fun shown => by
      obtain ⟨j, less, new⟩ := shown
      exact hidden ⟨j, by omega, new⟩
    have dir' : Directory dirs (takeFree s p false) c := by
      unfold Directory
      rw [(takeFree_quiet s p false).kernPgdir, laid.quiet.kernPgdir]
      exact dir
    have between : Unmoved s (takeFree s p false) c va' := unmoved_of_eq rfl
    refine (first.trans between).trans (insert_others books he user small walked inserted run dir' word
      (fun own => other own k (by omega)) ?_)
    intro new
    obtain ⟨own, slot, index, absent⟩ := new
    refine hidden ⟨k, by omega, own, slot, index, ?_⟩
    have missing : target dirs none s (tabAt e va k) = none := by
      rw [tabAt_eq e user]
      exact (table_absent he).mpr absent
    exact ((laid.needs he users).mp missing).1
  · exact laid.next_kept user he walked inserted

end Next

theorem Laid.round (books0 : Books dirs s0 fl0) (laid : Laid dirs e s0 fl0 pgdir va k page s fl)
    (he : dirs e = some pgdir) (known : (s0.envs e).envPgdir = some pgdir)
    (users : ∀ j, j ≤ k → pageAt va j < UTOP) (grants : List Grant) :
    (fl = [] ∧ regionAllocStep e (pageAt va k) (grants, s) = .error .regionAllocFailed) ∨
    (∃ p, fl = [p] ∧ NeedsTable s0 pgdir va k ∧
      regionAllocStep e (pageAt va k) (grants, s) = .ok (⟨p, -E_NO_MEM⟩ :: grants, takeFree s p false)) ∨
    ∃ p s' fl', regionAllocStep e (pageAt va k) (grants, s) = .ok (⟨p, 0⟩ :: grants, s') ∧
      Laid dirs e s0 fl0 pgdir va (k + 1) (Function.update page k p) s' fl' := by
  have user := users k (Nat.le_refl k)
  have dir : (s.envs e).envPgdir = some pgdir := by
    rw [laid.quiet.envs]
    exact known
  rcases regionAllocStep_spec laid.books.acc laid.books.bounded he dir (user_slot user) grants with
    empty | ⟨p, last, missing, done⟩ | ⟨p, rest, t, s1, fl1, s', fl', first, walked, done, inserted⟩
  · exact Or.inl empty
  · refine Or.inr (Or.inl ⟨p, last, ?_, done⟩)
    rw [← tabAt_eq e user] at missing
    exact (laid.needs he users).mp missing
  · subst first
    refine Or.inr (Or.inr ⟨p, s', fl', done, ?_⟩)
    have run : pageInsert (takeFree s p false) pgdir p (pageAt va k) (PTE_W ||| PTE_U) =
        .ok (0, s') := by
      rw [regionAllocStep_take laid.books.acc dir] at done
      obtain ⟨⟨r, s2⟩, run, same⟩ := bind_ok.mp done
      cases same
      exact run
    exact laid.next user he users walked inserted books0 run

def granted (page : Nat → Nat) (n : Nat) : List Grant :=
  ((List.range n).map fun k => ⟨page k, 0⟩).reverse

theorem granted_succ (page : Nat → Nat) (k p : Nat) :
    granted (Function.update page k p) (k + 1) = ⟨p, 0⟩ :: granted page k := by
  unfold granted
  rw [List.range_succ, List.map_append, List.reverse_append]
  have same : (List.range k).map (fun j => (⟨Function.update page k p j, 0⟩ : Grant)) =
      (List.range k).map fun j => ⟨page j, 0⟩ := by
    apply List.map_congr_left
    intro j listed
    rw [Function.update_of_ne (Nat.ne_of_lt (List.mem_range.mp listed))]
  rw [same]
  simp

/-- After k rounds: all of them succeeded, or the last of them did not get a page table. -/
inductive Outcome (dirs : Dirs) (e : Fin NENV) (s0 : State) (fl0 : List Nat) (pgdir va : Nat) :
    Nat → List Grant × State → Prop where
  | laid {k : Nat} {page : Nat → Nat} {s : State} {fl : List Nat}
      (laid : Laid dirs e s0 fl0 pgdir va k page s fl) :
      Outcome dirs e s0 fl0 pgdir va k (granted page k, s)
  | lost {m p : Nat} {page : Nat → Nat} {s : State} (needs : NeedsTable s0 pgdir va m)
      (laid : Laid dirs e s0 fl0 pgdir va m page s [p]) :
      Outcome dirs e s0 fl0 pgdir va (m + 1)
        (⟨p, -E_NO_MEM⟩ :: granted page m, takeFree s p false)

theorem region_outcome {n : Nat} (books0 : Books dirs s0 fl0) (he : dirs e = some pgdir)
    (known : (s0.envs e).envPgdir = some pgdir) (users : ∀ k, k < n → pageAt va k < UTOP) :
    times (fun k got => regionAllocStep e (pageAt va k) got) n ([], s0) = .error .regionAllocFailed ∨
      ∃ got, times (fun k got => regionAllocStep e (pageAt va k) got) n ([], s0) = .ok got ∧
        Outcome dirs e s0 fl0 pgdir va n got := by
  apply times_outcome (fun k got => Outcome dirs e s0 fl0 pgdir va k got)
  · exact .laid (.start books0 fun _ => 0)
  · intro k got within outcome
    have users_k : ∀ j, j ≤ k → pageAt va j < UTOP := fun j order => users j (by omega)
    cases outcome with
    | laid laid =>
      rcases laid.round books0 he known users_k _ with ⟨_, failed⟩ | ⟨p, last, needs, done⟩ |
        ⟨p, s', fl', done, next⟩
      · exact Or.inl failed
      · subst last
        exact Or.inr ⟨_, done, .lost needs laid⟩
      · refine Or.inr ⟨_, done, ?_⟩
        rw [← granted_succ]
        exact .laid next
    | @lost m p page s needs laid =>
      left
      obtain ⟨books, _⟩ := taken_books laid.books
      have dir : ((takeFree s p false).envs e).envPgdir = some pgdir := by
        rw [(takeFree_quiet s p false).envs, laid.quiet.envs]
        exact known
      rcases regionAllocStep_spec books.acc books.bounded he dir
        (user_slot (users_k (m + 1) (Nat.le_refl _))) (⟨p, -E_NO_MEM⟩ :: granted page m) with
        ⟨_, failed⟩ | ⟨q, last, _⟩ | ⟨q, rest, t, s1, fl1, s', fl', first, _⟩
      · exact failed
      · cases last
      · cases first

theorem Laid.mapped {n : Nat} (laid : Laid dirs e s0 fl0 pgdir va n page s fl)
    (he : dirs e = some pgdir) (users : ∀ k, k < n → pageAt va k < UTOP) :
    AllMapped (NewTables s0 pgdir va n) dirs s0 fl0 pgdir va n (granted page n) s := by
  have acc := laid.books.acc
  refine ⟨⟨page, rfl, ?_, ?_⟩, laid.others, ?_⟩
  · intro j k less_j less_k same
    by_contra differ
    have at_j := laid.filled.holds j less_j
    rw [same] at at_j
    have slots := refs_le_one_unique (Nat.le_of_eq (laid.filled.single k less_k)) at_j
      (laid.filled.holds k less_k)
    exact leafAt_apart e (users j less_j) (users k less_k) (Ne.symm differ) slots
  · intro k less
    have user := users k less
    have held := laid.filled.holds k less
    have single := laid.filled.single k less
    have managed := acc.targets _ _ held
    obtain ⟨t, table, entry⟩ := laid.entry k less
    rw [tabAt_eq e user] at table
    rw [leafAt_eq e user] at held
    obtain ⟨present, named⟩ := (table_entry he).mp table
    have leaf := (leaf_entry table ⟨ptx (pageAt va k), ptx_lt _⟩).symm.trans held
    refine ⟨?_, _, pageLookup_mapped (entryPage_some.mpr ⟨present, named⟩) (acc.targets _ t table).1
      leaf managed.1, entry⟩
    rw [acc.counts _ managed, single]
    rfl
  · intro q listed
    by_cases unused : refs (target dirs none s) q = 0
    · left
      rw [onFreeList_iff acc.list]
      exact laid.kept q listed unused
    · right
      exact refs_pos.mp (Nat.pos_of_ne_zero unused)

end Rounds

section Whole
variable {dirs : Dirs} {e : Fin NENV} {s : State} {fl : List Nat} {pgdir va len : Nat}

theorem region_maps (books : Books dirs s fl) (he : dirs e = some pgdir)
    (known : (s.envs e).envPgdir = some pgdir) (fits : va + len ≤ UTOP)
    (enough : ¬ Short dirs s fl e pgdir va (rounds va len)) :
    MapsOrPanics (NewTables s pgdir va (rounds va len)) dirs s fl e pgdir va len := by
  have users : ∀ k, k < rounds va len → pageAt va k < UTOP := fun k => pageAt_user fits
  unfold MapsOrPanics
  rw [regionAlloc_eq]
  rcases region_outcome books he known users with failed | ⟨got, run, outcome⟩
  · exact Or.inl failed
  · right
    generalize at_n : rounds va len = n at outcome enough run users
    cases outcome with
    | @laid k page s' fl' laid => exact ⟨_, _, run, laid.mapped he users⟩
    | @lost m p page s' needs laid =>
      refine absurd ⟨m, rfl, needs, ?_⟩ enough
      have budget := laid.budget
      rw [List.length_singleton] at budget
      omega

theorem count_grows (P : Nat → Prop) [DecidablePred P] {k m : Nat} (order : k ≤ m) :
    Nat.count P m ≤ Nat.count P k + (m - k) := by
  obtain ⟨d, rfl⟩ := Nat.exists_eq_add_of_le order
  rw [Nat.count_add]
  have rest := Nat.count_le (p := fun j => P (k + j)) (n := d)
  omega

theorem needs_nothing_back {k : Nat} (needs : NeedsTable s pgdir va k) :
    ¬ GivesBack dirs s e pgdir va k := by
  intro gives
  obtain ⟨q, found, _⟩ := gives
  exact maps_absent needs.1 found

open Classical in
theorem short_rounds {m : Nat} (books : Books dirs s fl) (he : dirs e = some pgdir)
    (known : (s.envs e).envPgdir = some pgdir) (users : ∀ k, k ≤ m → pageAt va k < UTOP)
    (tight : fl.length + Nat.count (GivesBack dirs s e pgdir va) m =
      m + Nat.count (NeedsTable s pgdir va) m + 1) :
    ∃ got, times (fun k got => regionAllocStep e (pageAt va k) got) m ([], s) = .ok got ∧
      ∃ page s' fl', got = (granted page m, s') ∧ Laid dirs e s fl pgdir va m page s' fl' := by
  apply times_total (fun k got => ∃ page s' fl', got = (granted page k, s') ∧
    Laid dirs e s fl pgdir va k page s' fl')
  · exact ⟨fun _ => 0, s, fl, rfl, .start books _⟩
  · intro k got within before
    obtain ⟨page, s', fl', rfl, laid⟩ := before
    have budget := laid.budget
    have users_k : ∀ j, j ≤ k → pageAt va j < UTOP := fun j order => users j (by omega)
    have tables := Nat.count_monotone (NeedsTable s pgdir va) (show k + 1 ≤ m from within)
    have back := @count_grows (GivesBack dirs s e pgdir va) _ (k + 1) m within
    have more : Nat.count (GivesBack dirs s e pgdir va) (k + 1) ≤
        Nat.count (GivesBack dirs s e pgdir va) k + 1 := by
      rw [Nat.count_succ]
      split <;> omega
    have fewer := Nat.count_monotone (NeedsTable s pgdir va) (show k ≤ k + 1 from Nat.le_add_right k 1)
    rcases laid.round books he known users_k (granted page k) with ⟨empty, _⟩ | ⟨p, last, needs, _⟩ |
      ⟨p, s'', fl'', done, next⟩
    · rw [empty, List.length_nil] at budget
      omega
    · rw [last, List.length_singleton] at budget
      rw [Nat.count_succ, if_pos needs] at tables
      rw [Nat.count_succ, if_neg (needs_nothing_back needs)] at back
      omega
    · exact ⟨_, done, _, s'', fl'', by rw [granted_succ], next⟩

theorem region_short (spare : Nat → Nat → Prop) (books : Books dirs s fl) (he : dirs e = some pgdir)
    (known : (s.envs e).envPgdir = some pgdir) (fits : va + len ≤ UTOP)
    (short : Short dirs s fl e pgdir va (rounds va len)) :
    ¬ MapsOrPanics spare dirs s fl e pgdir va len := by
  obtain ⟨m, at_n, needs, tight⟩ := short
  have users : ∀ k, k ≤ m → pageAt va k < UTOP := by
    intro k order
    exact pageAt_user fits (by omega)
  obtain ⟨got, before, page, s', fl', rfl, laid⟩ := short_rounds books he known users tight
  have budget := laid.budget
  have last : fl'.length = 1 := by omega
  have run : ∃ p s'', regionAlloc ([], s) e va len = .ok (⟨p, -E_NO_MEM⟩ :: granted page m, s'') := by
    rw [regionAlloc_eq, at_n]
    rcases laid.round books he known users (granted page m) with ⟨empty, _⟩ | ⟨p, _, _, done⟩ |
      ⟨p, s'', fl'', _, next⟩
    · rw [empty] at last
      cases last
    · exact ⟨p, _, bind_ok.mpr ⟨_, before, done⟩⟩
    · have spent := next.budget
      rw [Nat.count_succ, Nat.count_succ, if_pos needs, if_neg (needs_nothing_back needs)] at spent
      omega
  obtain ⟨p, s'', run⟩ := run
  intro claim
  rcases claim with failed | ⟨grants, s1, done, mapped⟩
  · rw [run] at failed
    cases failed
  · rw [run] at done
    cases done
    obtain ⟨page', same, _⟩ := mapped.own
    rw [at_n, List.range_succ, List.map_append, List.reverse_append] at same
    have results := (List.cons.inj same).1
    have result : -E_NO_MEM = 0 := congrArg Grant.ret results
    exact absurd result (by decide)

theorem one_page_enough (long : 2 ≤ fl.length) : ¬ Short dirs s fl e pgdir va 1 := by
  intro short
  obtain ⟨m, rounds_m, _, tight⟩ := short
  have first : m = 0 := by omega
  subst first
  rw [Nat.count_zero, Nat.count_zero] at tight
  omega

theorem one_page_shown (books : Books dirs s fl) (he : dirs e = some pgdir)
    (known : (s.envs e).envPgdir = some pgdir) (long : 2 ≤ fl.length)
    (absent : ¬ Present (s.entry pgdir 0)) :
    ∃ got, regionAlloc ([], s) e 0 PGSIZE = .ok got ∧ ¬ Unmoved s got.2 pgdir UVPT := by
  have one : rounds 0 PGSIZE = 0 + 1 := by decide
  have users : ∀ j, j ≤ 0 → pageAt 0 j < UTOP := by
    intro j order
    rw [Nat.le_zero.mp order]
    decide
  have own : Directory dirs s pgdir := Or.inr ⟨e, he⟩
  have slot : pdx UVPT = uvptPde ∧ ptx UVPT = 0 := by decide
  have start : Laid dirs e s fl pgdir 0 0 (fun _ => 0) s fl := .start books _
  rcases start.round books he known users [] with ⟨empty, _⟩ | ⟨p, last, _⟩ | ⟨p, s', fl', done, next⟩
  · rw [empty] at long
    exact absurd long (by decide)
  · rw [last] at long
    simp at long
  · refine ⟨([⟨p, 0⟩], s'), ?_, ?_⟩
    · rw [regionAlloc_eq, one]
      exact bind_ok.mpr ⟨_, rfl, done⟩
    · intro still
      have own' : Directory dirs s' pgdir := Or.inr ⟨e, he⟩
      have there : Present (s'.entry pgdir 0) := by
        obtain ⟨t, table⟩ := Option.ne_none_iff_exists'.mp (next.filled.tables 0 (by decide))
        rw [tabAt_eq e (users 0 (Nat.le_refl 0))] at table
        have present := ((table_entry he).mp table).1
        exact present
      unfold Unmoved at still
      rw [walk_uvpt books own slot.1, slot.2, if_neg absent, walk_uvpt next.books own' slot.1, slot.2,
        if_pos there] at still
      cases still

end Whole

/-- Unless the last round is the one that finds no page for its page table. -/
theorem region_alloc_maps_or_panics {dirs : Dirs} {s : State} {fl : List Nat} {e : Fin NENV}
    {pgdir va len : Nat} (books : Books dirs s fl) (he : dirs e = some pgdir)
    (known : (s.envs e).envPgdir = some pgdir) (fits : va + len ≤ UTOP)
    (enough : ¬ Short dirs s fl e pgdir va (rounds va len)) :
    MapsOrPanics (NewTables s pgdir va (rounds va len)) dirs s fl e pgdir va len :=
  region_maps books he known fits enough

section SmallMachine
variable {pgdir : Nat}

theorem drained {fl : List Nat} {s : State} {x : Nat}
    (reached : Reached smallMachine countRoom (fun _ _ => True) (oneDir pgdir) s)
    (acc : Accounted (oneDir pgdir) none s (x :: fl)) :
    ∃ s' y, Reached smallMachine countRoom (fun _ _ => True) (oneDir pgdir) s' ∧
      Accounted (oneDir pgdir) none s' [y] ∧ ∀ q i, s'.entry q i = s.entry q i := by
  induction fl generalizing s x with
  | nil => exact ⟨s, x, reached, acc, fun _ _ => rfl⟩
  | cons y rest ih =>
    have next := reached.step (.call (.pageAlloc false (pageAlloc_take acc false))) trivial
    obtain ⟨s', z, reached', acc', same⟩ := ih next (takeFree_books acc false)
    exact ⟨s', z, reached', acc', same⟩

/-- One page at address 0: with room its page table shows at UVPT, and with one page left nothing is
    mapped. -/
theorem region_alloc_falls_short : (¬ ∀ dirs s fl (e : Fin NENV) pgdir va len, Books dirs s fl →
    dirs e = some pgdir → (s.envs e).envPgdir = some pgdir → va + len ≤ UTOP →
      ¬ Short dirs s fl e pgdir va (rounds va len) →
        MapsOrPanics (fun _ _ => False) dirs s fl e pgdir va len) ∧
    ¬ ∀ dirs s fl (e : Fin NENV) pgdir va len, Books dirs s fl → dirs e = some pgdir →
      (s.envs e).envPgdir = some pgdir → va + len ≤ UTOP →
        MapsOrPanics (NewTables s pgdir va (rounds va len)) dirs s fl e pgdir va len := by
  obtain ⟨pgdir, pp, t, fl, s, reached, books, _, _, absent, long⟩ := oneDir_books
  have he : oneDir pgdir 0 = some pgdir := oneDir_self pgdir
  have one : rounds 0 PGSIZE = 1 := by decide
  have fits : 0 + PGSIZE ≤ UTOP := by decide
  have known : ∀ s', Reached smallMachine countRoom (fun _ _ => True) (oneDir pgdir) s' →
      (s'.envs (0 : Fin NENV)).envPgdir = some pgdir :=
    fun s' reached => (room_kept reached).known 0 pgdir he
  constructor
  · intro claim
    have enough : ¬ Short (oneDir pgdir) s (t :: fl) 0 pgdir 0 (rounds 0 PGSIZE) := by
      rw [one]
      exact one_page_enough long
    obtain ⟨got, run, moved⟩ := one_page_shown books he (known s reached) long absent
    rcases claim _ s _ 0 pgdir 0 PGSIZE books he (known s reached) fits enough with
      failed | ⟨grants, s', done, mapped⟩
    · rw [run] at failed
      cases failed
    · rw [run] at done
      cases done
      refine moved (mapped.others pgdir UVPT (Or.inr ⟨0, he⟩) (by decide) ?_ id)
      intro _ k less
      rw [one] at less
      rw [Nat.lt_one_iff.mp less]
      decide
  · intro claim
    obtain ⟨s', y, reached', acc, same⟩ := drained reached books.acc
    have books' := reached_books reached' acc
    have short : Short (oneDir pgdir) s' [y] 0 pgdir 0 (rounds 0 PGSIZE) := by
      refine ⟨0, one, ⟨?_, fun j less => absurd less (Nat.not_lt_zero j)⟩, rfl⟩
      rw [same]
      exact absent
    exact region_short _ books' he (known s' reached') fits short
      (claim _ s' _ 0 pgdir 0 PGSIZE books' he (known s' reached') fits)

theorem region_alloc_maps_or_panics_oneDir : ∃ pgdir fl, ∃ s : State,
    MapsOrPanics (NewTables s pgdir 0 1) (oneDir pgdir) s fl 0 pgdir 0 PGSIZE := by
  obtain ⟨pgdir, pp, t, fl, s, reached, books, _, _, _, long⟩ := oneDir_books
  have he : oneDir pgdir 0 = some pgdir := oneDir_self pgdir
  have known := (room_kept reached).known 0 pgdir he
  have one : rounds 0 PGSIZE = 1 := by decide
  have enough : ¬ Short (oneDir pgdir) s (t :: fl) 0 pgdir 0 (rounds 0 PGSIZE) := by
    rw [one]
    exact one_page_enough long
  have kept := region_alloc_maps_or_panics books he known (by decide) enough
  rw [one] at kept
  exact ⟨pgdir, t :: fl, s, kept⟩

end SmallMachine

end JosRegionContract
