import Jos.KernelView
import Jos.NewEnv
import Jos.Regions
import Jos.SlotFill

/- Runs of calls on pages and address spaces, in any order, and what holds in every state they
   reach. -/
namespace JosPageRuns
open JosLayout FrameWords JosMachine JosPmap JosMmu JosEnv JosBoot JosAccounting JosPageOps
open JosMapping JosEnvSpace JosNewEnv JosRegions JosBootPages JosStaticMap JosKernelView IntrusiveList
open Ledger SlotFill TableForest CountedLoop

def OnFreeList (s : State) (p : Nat) : Prop := ∃ fl, FreeList s fl ∧ p ∈ fl

/-- Somebody got p from page_alloc and has not given it back. -/
def Allocated (s : State) (p : Nat) : Prop := Managed s p ∧ ¬ OnFreeList s p

section References
variable (dirs : Dirs) (s : State) (p : Nat)

def userPage (e : Fin NENV) (d : Fin userPdes) (i : Fin NPTENTRIES) : Option Nat :=
  (dirs e).bind fun pgdir => (walk s pgdir (pgaddr d i 0)).map Translation.page

def pteRefs : Nat :=
  (Finset.univ.filter fun x : Fin NENV × Fin userPdes × Fin NPTENTRIES =>
    userPage dirs s x.1 x.2.1 x.2.2 = some p).card

def tableRefs : Nat :=
  (Finset.univ.filter fun x : Fin NENV × Fin userPdes =>
    ((dirs x.1).bind fun pgdir => entryPage (s.entry pgdir x.2)) = some p).card

def dirRefs : Nat := (Finset.univ.filter fun e => dirs e = some p).card

def kernRefs : Nat := (forest dirs none s).fixedRefs p

def references : Nat := pteRefs dirs s p + tableRefs dirs s p + dirRefs dirs p + kernRefs dirs s p

end References

def NoOverflow (dirs : Dirs) (s : State) : Prop := ∀ p, references dirs s p < 65536

/-- A call, and what it asks of its caller; dirs says which environments have a directory.
    insert is what a caller of page_insert keeps to, for the page and the address it passes. -/
inductive Call (insert : Dirs → State → Fin NENV → Nat → Nat → Prop) :
    Dirs → State → Dirs → State → Prop where
  | pageAlloc {dirs : Dirs} {s s' : State} {r : Option Nat} (zero : Bool)
      (run : pageAlloc s zero = .ok (r, s')) : Call insert dirs s dirs s'
  | pageFree {dirs : Dirs} {s : State} {p : Nat} (held : Allocated s p)
      (unreferenced : (s.pages p).ppRef = 0) : Call insert dirs s dirs (pageFree s p)
  | pgdirWalk {dirs : Dirs} {s s' : State} {e : Fin NENV} {pgdir va : Nat} {r : Option PtePtr}
      (he : dirs e = some pgdir) (user : va < UTOP)
      (run : pgdirWalk s pgdir va true = .ok (r, s')) : Call insert dirs s dirs s'
  | pageInsert {dirs : Dirs} {s s' : State} {e : Fin NENV} {pgdir pp va perm : Nat} {r : Int}
      (he : dirs e = some pgdir) (user : va < UTOP) (held : Allocated s pp) (small : perm < 4096)
      (may : insert dirs s e pp va) (run : pageInsert s pgdir pp va perm = .ok (r, s')) :
      Call insert dirs s dirs s'
  | pageRemove {dirs : Dirs} {s s' : State} {e : Fin NENV} {pgdir va : Nat}
      (he : dirs e = some pgdir) (user : va < UTOP) (run : pageRemove s pgdir va = .ok s') :
      Call insert dirs s dirs s'
  | envSetupVm {dirs : Dirs} {s s' : State} {e : Fin NENV} (he : dirs e = none)
      (run : envSetupVm s e = .ok (0, s')) :
      Call insert dirs s (Function.update dirs e (s'.envs e).envPgdir) s'
  | envSetupVmFailed {dirs : Dirs} {s s' : State} {e : Fin NENV} {r : Int} (he : dirs e = none)
      (failed : r < 0) (run : envSetupVm s e = .ok (r, s')) : Call insert dirs s dirs s'
  | envFree {dirs : Dirs} {s s' : State} {e : Fin NENV} {pgdir : Nat} (he : dirs e = some pgdir)
      (run : envFree s e = .ok s') : Call insert dirs s (Function.update dirs e none) s'

inductive Step (insert : Dirs → State → Fin NENV → Nat → Nat → Prop) :
    Dirs → State → Dirs → State → Prop where
  | call {dirs dirs' : Dirs} {s s' : State} (call : Call insert dirs s dirs' s') :
      Step insert dirs s dirs' s'
  | regionAlloc {dirs : Dirs} {s s' : State} {e : Fin NENV} {pgdir va len : Nat}
      {grants : List Grant} (he : dirs e = some pgdir) (below : Below va len)
      (run : regionAlloc ([], s) e va len = .ok (grants, s')) : Step insert dirs s dirs s'

/-- The states that calls reach from page_init, or from mem_init, if every state on the way
    meets keep. -/
inductive Reached (m : Machine) (insert : Dirs → State → Fin NENV → Nat → Nat → Prop)
    (keep : Dirs → State → Prop) : Dirs → State → Prop where
  | pageInit {s : State} (run : memInitAlloc (powerOn m) = .ok s) :
      Reached m insert keep (fun _ => none) s
  | memInit {s : State} (run : MemInit (powerOn m) s) : Reached m insert keep (fun _ => none) s
  | step {dirs dirs' : Dirs} {s s' : State} (before : Reached m insert keep dirs s)
      (step : Step insert dirs s dirs' s') (kept : keep dirs' s') : Reached m insert keep dirs' s'

section Counting
variable {dirs : Dirs} {s : State} {p : Nat}

theorem userPage_target (e : Fin NENV) (d : Fin userPdes) (i : Fin NPTENTRIES) :
    userPage dirs s e d i = target dirs none s (.leaf e d i) := by
  have d_lt : d.val < 1024 := Nat.lt_trans d.isLt (by decide)
  unfold userPage walk
  rw [pdx_pgaddr d_lt i.isLt, ptx_pgaddr i.isLt]
  cases he : dirs e with
  | none => exact (leaf_without_table (show target dirs none s (.table e d) = none by
      change (dirs e).bind _ = none
      rw [he]
      rfl) i).symm
  | some pgdir =>
    by_cases present : Present (s.entry pgdir d)
    · have ht : target dirs none s (.table e d) = some (ppn (s.entry pgdir d)) :=
        (table_entry he).mpr ⟨present, rfl⟩
      rw [leaf_entry ht]
      unfold entryPage
      simp only [Option.bind_some]
      rw [if_pos present]
      split <;> rfl
    · rw [leaf_without_table ((table_absent he).mpr present)]
      simp only [Option.bind_some]
      rw [if_neg present]
      rfl

/-- The references of a page, counted slot by slot, are those the walks and entries show. -/
theorem references_eq (dirs : Dirs) (s : State) (p : Nat) :
    references dirs s p = refs (target dirs none s) p := by
  have by_kind := Forest.refs_by_kind (forest dirs none s) p
  have leaves : pteRefs dirs s p = (forest dirs none s).leafRefs p := by
    unfold pteRefs Forest.leafRefs
    simp only [userPage_target]
  have tables : tableRefs dirs s p = (forest dirs none s).tableRefs p := rfl
  have roots : dirRefs dirs p = (forest dirs none s).rootRefs p := rfl
  have nobody : (forest dirs none s).hand ≠ some p := by
    intro held
    cases held
  rw [if_neg nobody] at by_kind
  unfold references kernRefs
  rw [leaves, tables, roots, by_kind]
  omega

theorem noOverflow_iff (dirs : Dirs) (s : State) : NoOverflow dirs s ↔ Bounded dirs none s := by
  unfold NoOverflow Bounded
  simp only [references_eq]

theorem onFreeList_iff {fl : List Nat} (list : FreeList s fl) : OnFreeList s p ↔ p ∈ fl := by
  constructor
  · intro listed
    obtain ⟨fl', list', listed⟩ := listed
    rwa [chain_unique list list']
  · intro listed
    exact ⟨fl, list, listed⟩

end Counting

def KernFrame (s : State) (q : Nat) : Prop :=
  q = s.kernPgdir ∨ ∃ d, StaticPde d ∧ entryPage (s.entry s.kernPgdir d) = some q

/-- What one call can do: it keeps the books, writes free pages and the trees' own pages only,
    and adds references to fresh pages, or one to the page it inserts. -/
structure Stepped (insert : Dirs → State → Fin NENV → Nat → Nat → Prop) (dirs : Dirs) (s : State)
    (fl : List Nat) (dirs' : Dirs) (s' : State) (fl' : List Nat) : Prop where
  books : Accounted dirs' none s' fl'
  known : (∀ e p, dirs e = some p → (s.envs e).envPgdir = some p) →
    ∀ e p, dirs' e = some p → (s'.envs e).envPgdir = some p
  kernPgdir : s'.kernPgdir = s.kernPgdir
  mem : ∀ q, q ∉ fl → ¬ TreePage dirs s q → s'.mem q = s.mem q
  count : ∀ q, refs (target dirs' none s') q ≤ refs (target dirs none s) q ∨
    refs (target dirs' none s') q ≤ 1 ∨
    (refs (target dirs' none s') q ≤ refs (target dirs none s) q + 1 ∧
      ∃ e va, ∃ user : pdx va < userPdes, insert dirs s e q va ∧ Managed s q ∧
        target dirs none s (leafSlot e va user) ≠ some q ∧
        (fl ≠ [] ∨ target dirs none s (.table e ⟨pdx va, user⟩) ≠ none))
  leaves : ∀ e d i q, target dirs' none s' (.leaf e d i) = some q →
    target dirs none s (.leaf e d i) = some q ∨ (q ∉ fl ∧ ∃ va, insert dirs s e q va)
  trees : ∀ q, TreePage dirs' s' q → TreePage dirs s q ∨ q ∈ fl

section Calls
variable {insert : Dirs → State → Fin NENV → Nat → Nat → Prop} {dirs dirs' : Dirs}
  {s s' : State} {fl : List Nat} {e : Fin NENV} {pgdir va : Nat}

theorem setup_call {p : Nat} {rest : List Nat} (acc : Accounted dirs none s (p :: rest))
    (empty : dirs e = none) : Call insert dirs s (Function.update dirs e (some p)) (newDir s e p) := by
  have named : ((newDir s e p).envs e).envPgdir = some p := by
    rw [newDir_envs, Function.update_self]
  have call : Call insert dirs s _ (newDir s e p) := .envSetupVm empty (envSetupVm_take acc e)
  rwa [named] at call

theorem Stepped.still {fl' : List Nat} (books : Accounted dirs none s' fl')
    (same : target dirs none s' = target dirs none s) (quiet : Quiet s s')
    (mem : ∀ q, q ∉ fl → ¬ TreePage dirs s q → s'.mem q = s.mem q) :
    Stepped insert dirs s fl dirs s' fl' := by
  refine ⟨books, ?_, quiet.kernPgdir, mem, ?_, ?_, ?_⟩
  · intro known
    rw [quiet.envs]
    exact known
  · intro q
    rw [same]
    exact Or.inl (Nat.le_refl _)
  · intro e d i q held
    rw [same] at held
    exact Or.inl held
  · intro q tree
    unfold TreePage at tree ⊢
    rw [same] at tree
    exact Or.inl tree

theorem pageAlloc_stepped (acc : Accounted dirs none s fl) {zero : Bool} {r : Option Nat}
    (run : pageAlloc s zero = .ok (r, s')) : ∃ fl', Stepped insert dirs s fl dirs s' fl' := by
  cases fl with
  | nil =>
    rw [pageAlloc_empty acc] at run
    cases run
    exact ⟨[], Stepped.still acc rfl rfl fun _ _ _ => rfl⟩
  | cons p rest =>
    rw [pageAlloc_take acc] at run
    cases run
    refine ⟨rest, Stepped.still (takeFree_books acc zero) (takeFree_target acc zero)
      (takeFree_quiet s p zero) ?_⟩
    intro q busy _
    have differ : q ≠ p := fun same => busy (by simp [same])
    exact takeFree_mem_of_ne zero differ

theorem pageFree_stepped (acc : Accounted dirs none s fl) (bounded : Bounded dirs none s)
    {p : Nat} (held : Allocated s p) (unreferenced : (s.pages p).ppRef = 0) :
    Stepped insert dirs s fl dirs (pageFree s p) (p :: fl) := by
  obtain ⟨managed, busy⟩ := held
  rw [onFreeList_iff acc.list] at busy
  have counted := acc.counts p managed
  rw [unreferenced] at counted
  have unused := refs_zero.mp ((count_zero (bounded p)).mp counted.symm)
  exact Stepped.still (pageFree_books acc managed busy unused) rfl rfl fun _ _ _ => rfl

theorem walked_refs {d : Fin userPdes} {t : Nat} {fl' : List Nat} (acc : Accounted dirs none s fl)
    (he : dirs e = some pgdir) (walked : Walked dirs none e d pgdir s fl t s' fl') (q : Nat) :
    refs (target dirs none s') q = refs (target dirs none s) q ∨
      (q ∈ fl ∧ refs (target dirs none s') q = 1) := by
  have moved := walked.target_eq acc he
  rcases walked with ⟨_, same, _⟩ | ⟨empty, _, rfl⟩
  · rw [same]
    exact Or.inl rfl
  · rw [moved, refs_point empty]
    by_cases here : t = q
    · subst here
      right
      refine ⟨by simp, ?_⟩
      rw [free_refs acc (by simp), if_pos rfl]
    · rw [if_neg here, Nat.add_zero]
      exact Or.inl rfl

theorem walked_stepped {d : Fin userPdes} {t : Nat} {fl' : List Nat}
    (acc : Accounted dirs none s fl) (he : dirs e = some pgdir)
    (walked : Walked dirs none e d pgdir s fl t s' fl') : Stepped insert dirs s fl dirs s' fl' := by
  have books := walked.books acc he
  have quiet := walked.quiet
  have moved := walked.target_eq acc he
  have table : t ∈ fl ∨ TreePage dirs s t := by
    rcases walked with ⟨ht, _, _⟩ | ⟨_, _, rfl⟩
    · exact Or.inr (Or.inr ⟨e, d, ht⟩)
    · exact Or.inl (by simp)
  refine ⟨books, ?_, quiet.kernPgdir, ?_, ?_, ?_, ?_⟩
  · intro known
    rw [quiet.envs]
    exact known
  · intro q busy plain
    apply walked.mem_of_ne
    · intro same
      subst same
      exact table.elim busy plain
    · intro same
      subst same
      exact plain (Or.inl ⟨e, he⟩)
  · intro q
    rcases walked_refs acc he walked q with same | ⟨_, one⟩
    · exact Or.inl (Nat.le_of_eq same)
    · exact Or.inr (Or.inl (Nat.le_of_eq one))
  · intro e' d' i q held
    rw [moved, Function.update_of_ne (by simp)] at held
    exact Or.inl held
  · intro q tree
    rcases tree with root | ⟨e', d', held⟩
    · exact Or.inl (Or.inl root)
    · rw [moved] at held
      by_cases here : Slot.table e' d' = (Slot.table e d : PageSlot)
      · rw [here, Function.update_self] at held
        cases held
        exact table.symm
      · rw [Function.update_of_ne here] at held
        exact Or.inl (Or.inr ⟨e', d', held⟩)

theorem pgdirWalk_stepped (acc : Accounted dirs none s fl) (he : dirs e = some pgdir)
    (user : pdx va < userPdes) {r : Option PtePtr}
    (run : pgdirWalk s pgdir va true = .ok (r, s')) :
    ∃ fl', Stepped insert dirs s fl dirs s' fl' := by
  rcases pgdirWalk_create acc he user with ⟨_, _, done⟩ | ⟨t, s1, fl1, done, walked⟩
  · rw [done] at run
    cases run
    exact ⟨fl, Stepped.still acc rfl rfl fun _ _ _ => rfl⟩
  · rw [done] at run
    cases run
    exact ⟨fl1, walked_stepped acc he walked⟩

theorem pageRemove_stepped (acc : Accounted dirs none s fl) (bounded : Bounded dirs none s)
    (he : dirs e = some pgdir) (user : pdx va < userPdes)
    (run : pageRemove s pgdir va = .ok s') : ∃ fl', Stepped insert dirs s fl dirs s' fl' := by
  rcases pageRemove_spec acc he user with ⟨_, done⟩ | ⟨t, p, ht, held, done⟩
  · rw [done] at run
    cases run
    exact ⟨fl, Stepped.still acc rfl rfl fun _ _ _ => rfl⟩
  · rw [done] at run
    cases run
    obtain ⟨books, moved⟩ := clearLeaf_books acc ht held (Nat.le_of_lt (bounded p)) va
    have quiet := clearLeaf_quiet s t (ptx va) p va
    refine ⟨_, books, ?_, quiet.kernPgdir, ?_, ?_, ?_, ?_⟩
    · intro known
      rw [quiet.envs]
      exact known
    · intro q _ plain
      have differ : q ≠ t := fun same => plain (same ▸ Or.inr ⟨e, _, ht⟩)
      rw [clearLeaf_mem, Function.update_of_ne differ]
    · intro q
      have fewer := refs_unlink_le ⟨fl, target dirs none s⟩ (leafSlot e va user) q
      rw [unlink_target] at fewer
      rw [moved]
      exact Or.inl fewer
    · intro e' d' i q there
      rw [moved] at there
      by_cases here : Slot.leaf e' d' i = leafSlot e va user
      · rw [here, Function.update_self] at there
        cases there
      · rw [Function.update_of_ne here] at there
        exact Or.inl there
    · intro q tree
      rcases tree with root | ⟨e', d', there⟩
      · exact Or.inl (Or.inl root)
      · rw [moved, Function.update_of_ne (by simp)] at there
        exact Or.inl (Or.inr ⟨e', d', there⟩)

theorem inserted_refs {d : Fin userPdes} {i : Fin NPTENTRIES} {pp perm t : Nat} {s1 : State}
    {fl1 fl' : List Nat} (walked : Walked dirs none e d pgdir s fl t s1 fl1)
    (inserted : Inserted dirs e d i pgdir pp perm s t s1 fl1 s' fl') (q : Nat) :
    refs (target dirs none s') q +
        (if target dirs none s (.leaf e d i) = some q then 1 else 0) =
      refs (target dirs none s) q +
        (if target dirs none s (.table e d) = none ∧ t = q then 1 else 0) +
        (if pp = q then 1 else 0) := by
  have table : target dirs none s (.table e d) = some t ∨
      target dirs none s (.table e d) = none :=
    walked.imp And.left And.left
  rw [inserted.target_eq]
  exact refs_fill (by simp) table q

theorem inserted_count {d : Fin userPdes} {i : Fin NPTENTRIES} {pp perm t : Nat} {s1 : State}
    {fl1 fl' : List Nat} (acc : Accounted dirs none s fl)
    (walked : Walked dirs none e d pgdir s fl t s1 fl1)
    (inserted : Inserted dirs e d i pgdir pp perm s t s1 fl1 s' fl') (busy : pp ∉ fl) (q : Nat) :
    refs (target dirs none s') q ≤ refs (target dirs none s) q ∨ refs (target dirs none s') q ≤ 1 ∨
      (q = pp ∧ refs (target dirs none s') q ≤ refs (target dirs none s) q + 1 ∧
        target dirs none s (.leaf e d i) ≠ some q) := by
  have moved := inserted_refs walked inserted q
  have fresh : target dirs none s (.table e d) = none → t ∈ fl := by
    intro empty
    rcases walked with ⟨there, _, _⟩ | ⟨_, _, first⟩
    · rw [there] at empty
      cases empty
    · rw [first]
      exact List.mem_cons_self
  by_cases same : pp = q
  · subst same
    have old : ¬ (target dirs none s (.table e d) = none ∧ t = pp) :=
      fun new => busy (new.2 ▸ fresh new.1)
    rw [if_neg old, if_pos rfl] at moved
    by_cases there : target dirs none s (.leaf e d i) = some pp
    · rw [if_pos there] at moved
      exact Or.inl (by omega)
    · rw [if_neg there] at moved
      exact Or.inr (Or.inr ⟨rfl, by omega, there⟩)
  · rw [if_neg same] at moved
    by_cases new : target dirs none s (.table e d) = none ∧ t = q
    · have unused := free_refs acc (fresh new.1)
      rw [if_pos new, ← new.2, unused] at moved
      rw [← new.2]
      exact Or.inr (Or.inl (by omega))
    · rw [if_neg new] at moved
      exact Or.inl (by omega)

theorem pageInsert_stepped (acc : Accounted dirs none s fl) (bounded : Bounded dirs none s)
    (he : dirs e = some pgdir) (user : pdx va < userPdes) {pp perm : Nat} (held : Allocated s pp)
    (small : perm < 4096) (may : insert dirs s e pp va) {r : Int}
    (run : pageInsert s pgdir pp va perm = .ok (r, s')) :
    ∃ fl', Stepped insert dirs s fl dirs s' fl' := by
  obtain ⟨managed, busy⟩ := held
  rw [onFreeList_iff acc.list] at busy
  rcases pageInsert_spec acc bounded he user managed busy small with ⟨_, _, done⟩ | inserted
  · rw [done] at run
    cases run
    exact ⟨fl, Stepped.still acc rfl rfl fun _ _ _ => rfl⟩
  · obtain ⟨t, s1, fl1, s2, fl2, walked, done, inserted⟩ := inserted
    rw [done] at run
    cases run
    have first : Stepped insert dirs s fl dirs s1 fl1 := walked_stepped acc he walked
    have table : t ∈ fl ∨ TreePage dirs s t := by
      rcases walked with ⟨ht, _, _⟩ | ⟨_, _, rfl⟩
      · exact Or.inr (Or.inr ⟨e, _, ht⟩)
      · exact Or.inl (by simp)
    have moved : target dirs none s' =
        Function.update (target dirs none s1) (leafSlot e va user) (some pp) := by
      rw [inserted.target_eq, walked.target_eq acc he]
    refine ⟨fl2, inserted.books, ?_, inserted.quiet.kernPgdir, ?_, ?_, ?_, ?_⟩
    · intro known
      rw [inserted.quiet.envs]
      exact known
    · intro q away plain
      apply inserted.mem_of_ne
      · intro same
        subst same
        exact table.elim away plain
      · intro same
        subst same
        exact plain (Or.inl ⟨e, he⟩)
    · intro q
      rcases inserted_count acc walked inserted busy q with fewer | one | ⟨rfl, most, there⟩
      · exact Or.inl fewer
      · exact Or.inr (Or.inl one)
      · have tabled : fl ≠ [] ∨ target dirs none s (.table e ⟨pdx va, user⟩) ≠ none := by
          rcases walked with ⟨ht, _, _⟩ | ⟨_, _, first⟩
          · right
            rw [ht]
            exact Option.some_ne_none t
          · exact Or.inl (by rw [first]; exact List.cons_ne_nil _ _)
        exact Or.inr (Or.inr ⟨most, e, va, user, may, managed, there, tabled⟩)
    · intro e' d' i q there
      rw [moved] at there
      by_cases here : Slot.leaf e' d' i = leafSlot e va user
      · rw [here, Function.update_self] at there
        cases there
        cases here
        exact Or.inr ⟨busy, va, may⟩
      · rw [Function.update_of_ne here] at there
        exact first.leaves e' d' i q there
    · intro q tree
      rcases tree with root | ⟨e', d', there⟩
      · exact Or.inl (Or.inl root)
      · rw [moved, Function.update_of_ne (by simp)] at there
        exact first.trees q (Or.inr ⟨e', d', there⟩)

theorem envSetupVm_stepped (acc : Accounted dirs none s fl) (he : dirs e = none) {r : Int}
    (run : envSetupVm s e = .ok (r, s')) :
    (r < 0 ∧ s' = s) ∨ (r = 0 ∧ ∃ fl',
      Stepped insert dirs s fl (Function.update dirs e (s'.envs e).envPgdir) s' fl') := by
  cases fl with
  | nil =>
    rw [envSetupVm_empty acc] at run
    cases run
    exact Or.inl ⟨by decide, rfl⟩
  | cons p rest =>
    rw [envSetupVm_take acc] at run
    cases run
    right
    refine ⟨rfl, rest, ?_⟩
    obtain ⟨books, moved⟩ := newDir_books acc he
    have named : ((newDir s e p).envs e).envPgdir = some p := by
      rw [newDir_envs, Function.update_self]
    have empty : target dirs none s (.root e) = none := he
    rw [named]
    refine ⟨books, ?_, rfl, ?_, ?_, ?_, ?_⟩
    · intro known e' q he'
      rw [newDir_envs]
      by_cases here : e' = e
      · subst here
        rw [Function.update_self] at he'
        rw [Function.update_self]
        exact he'
      · have other : e'.val ≠ e.val := fun same => here (Fin.ext same)
        rw [Function.update_of_ne here] at he'
        rw [Function.update_of_ne other]
        exact known e' q he'
    · intro q busy _
      exact newDir_mem_of_ne fun same => busy (by simp [same])
    · intro q
      rw [moved, refs_point empty]
      by_cases same : p = q
      · subst same
        rw [free_refs acc (by simp), if_pos rfl]
        exact Or.inr (Or.inl (Nat.le_refl 1))
      · rw [if_neg same, Nat.add_zero]
        exact Or.inl (Nat.le_refl _)
    · intro e' d i q there
      rw [moved, Function.update_of_ne (by simp)] at there
      exact Or.inl there
    · intro q tree
      rcases tree with ⟨e', he'⟩ | ⟨e', d, there⟩
      · by_cases here : e' = e
        · subst here
          rw [Function.update_self] at he'
          cases he'
          exact Or.inr (by simp)
        · rw [Function.update_of_ne here] at he'
          exact Or.inl (Or.inl ⟨e', he'⟩)
      · rw [moved, Function.update_of_ne (by simp)] at there
        exact Or.inl (Or.inr ⟨e', d, there⟩)

theorem envFree_stepped (acc : Accounted dirs none s fl) (bounded : Bounded dirs none s)
    (he : dirs e = some pgdir) (dir : (s.envs e).envPgdir = some pgdir)
    (run : envFree s e = .ok s') :
    ∃ fl', Stepped insert dirs s fl (Function.update dirs e none) s' fl' := by
  obtain ⟨s1, done, freed⟩ := envFree_spec acc bounded he dir
  rw [done] at run
  cases run
  have gone : ∀ x q, target (Function.update dirs e none) none s' x = some q →
      target dirs none s x = some q := by
    intro x q there
    rw [freed.target_eq, unlinkAll_target] at there
    split at there
    · cases there
    · exact there
  refine ⟨_, freed.books, ?_, by rw [freed.rest], ?_, ?_, ?_, ?_⟩
  · intro known e' q he'
    have here : e' ≠ e := by
      intro same
      subst same
      rw [Function.update_self] at he'
      cases he'
    have other : e'.val ≠ e.val := fun same => here (Fin.ext same)
    rw [Function.update_of_ne here] at he'
    rw [freed.envs, Function.update_of_ne other]
    exact known e' q he'
  · intro q _ plain
    apply freed.mem
    intro own
    rcases own with root | ⟨d, table⟩
    · exact plain (Or.inl ⟨e, root⟩)
    · exact plain (Or.inr ⟨e, d, table⟩)
  · intro q
    rw [freed.target_eq]
    exact Or.inl (refs_unlinkAll_le ⟨fl, target dirs none s⟩ (ownSlots e) q)
  · intro e' d i q there
    exact Or.inl (gone _ q there)
  · intro q tree
    rcases tree with ⟨e', he'⟩ | ⟨e', d, there⟩
    · exact Or.inl (Or.inl ⟨e', gone (.root e') q he'⟩)
    · exact Or.inl (Or.inr ⟨e', d, gone _ q there⟩)

theorem user_slot (user : va < UTOP) : pdx va < userPdes :=
  (pdx_user (Nat.lt_trans user (by decide))).mpr user

theorem call_stepped (acc : Accounted dirs none s fl) (bounded : Bounded dirs none s)
    (known : ∀ e p, dirs e = some p → (s.envs e).envPgdir = some p)
    (call : Call insert dirs s dirs' s') : ∃ fl', Stepped insert dirs s fl dirs' s' fl' := by
  cases call with
  | pageAlloc zero run => exact pageAlloc_stepped acc run
  | pageFree held unreferenced => exact ⟨_, pageFree_stepped acc bounded held unreferenced⟩
  | pgdirWalk he user run => exact pgdirWalk_stepped acc he (user_slot user) run
  | pageInsert he user held small may run =>
    exact pageInsert_stepped acc bounded he (user_slot user) held small may run
  | pageRemove he user run => exact pageRemove_stepped acc bounded he (user_slot user) run
  | envSetupVm he run =>
    rcases envSetupVm_stepped acc he run with ⟨failed, _⟩ | ⟨_, stepped⟩
    · exact absurd failed (by decide)
    · exact stepped
  | envSetupVmFailed he failed run =>
    rcases @envSetupVm_stepped insert _ _ _ _ _ acc he _ run with ⟨_, rfl⟩ | ⟨done, _⟩
    · exact ⟨fl, Stepped.still acc rfl rfl fun _ _ _ => rfl⟩
    · rw [done] at failed
      exact absurd failed (by decide)
  | envFree he run => exact envFree_stepped acc bounded he (known _ _ he) run

end Calls

/-- A store at UTOP is refused by the page table of kern_pgdir, if there is one. -/
def UtopShut (s : State) : Prop :=
  Present (s.entry s.kernPgdir userPdes) →
    ¬ Writable (s.entry (ppn (s.entry s.kernPgdir userPdes)) 0)

def Plain (dirs : Dirs) (s : State) : Prop :=
  ∀ e d i q, target dirs none s (.leaf e d i) = some q → ¬ TreePage dirs s q

structure Kept (dirs : Dirs) (s : State) : Prop where
  books : ∃ fl, Accounted dirs none s fl
  known : ∀ e p, dirs e = some p → (s.envs e).envPgdir = some p
  bounded : Bounded dirs none s
  shut : UtopShut s

section Runs
variable {insert : Dirs → State → Fin NENV → Nat → Nat → Prop} {dirs dirs' : Dirs}
  {s s' : State} {fl fl' : List Nat} {e : Fin NENV} {pgdir va : Nat}

theorem kernFrame_apart (acc : Accounted dirs none s fl) {q : Nat} (kernel : KernFrame s q) :
    q ∉ fl ∧ ¬ TreePage dirs s q := by
  rcases kernel with same | ⟨d, static, named⟩
  · subst same
    refine ⟨fun listed => acc.kernApart (acc.managed _ listed), ?_⟩
    intro tree
    rcases tree with ⟨e, he⟩ | ⟨e, d, ht⟩
    · exact acc.kernApart (acc.targets (.root e) _ he)
    · exact acc.kernApart (acc.targets (.table e d) _ ht)
  · have fixed : target dirs none s (.fixed ⟨d, static.2.1⟩) = some q := by
      rw [fixed_entry static]
      exact named
    refine ⟨busy_of_target acc fixed, ?_⟩
    intro tree
    rcases tree with ⟨e, he⟩ | ⟨e, d', ht⟩
    · have slots := acc.apart (.root e) (.fixed _) q trivial trivial he fixed
      cases slots
    · have slots := acc.apart (.table e d') (.fixed _) q trivial trivial ht fixed
      cases slots

theorem Stepped.kernel (acc : Accounted dirs none s fl)
    (stepped : Stepped insert dirs s fl dirs' s' fl') {q : Nat} (kernel : KernFrame s q) :
    s'.mem q = s.mem q := by
  obtain ⟨busy, plain⟩ := kernFrame_apart acc kernel
  exact stepped.mem q busy plain

theorem kern_entry_frame (kern : s'.kernPgdir = s.kernPgdir)
    (frames : ∀ q, KernFrame s q → s'.mem q = s.mem q) (j : Nat) :
    s'.entry s'.kernPgdir j = s.entry s.kernPgdir j := by
  unfold State.entry
  rw [kern, frames _ (Or.inl rfl)]

theorem shut_frame (kern : s'.kernPgdir = s.kernPgdir)
    (frames : ∀ q, KernFrame s q → s'.mem q = s.mem q) (shut : UtopShut s) : UtopShut s' := by
  unfold UtopShut
  rw [kern_entry_frame kern frames]
  intro present
  have static : StaticPde userPdes := by
    unfold StaticPde
    decide
  have table := frames _ (Or.inr ⟨userPdes, static, entryPage_some.mpr ⟨present, rfl⟩⟩)
  have same : s'.entry (ppn (s.entry s.kernPgdir userPdes)) 0 =
      s.entry (ppn (s.entry s.kernPgdir userPdes)) 0 := congrArg (fun f => word f 0) table
  rw [same]
  exact shut present

theorem Stepped.shut (acc : Accounted dirs none s fl)
    (stepped : Stepped insert dirs s fl dirs' s' fl') (shut : UtopShut s) : UtopShut s' :=
  shut_frame stepped.kernPgdir (fun _ kernel => stepped.kernel acc kernel) shut

theorem Stepped.kept (kept : Kept dirs s) (acc : Accounted dirs none s fl)
    (stepped : Stepped insert dirs s fl dirs' s' fl') (bounded : Bounded dirs' none s') :
    Kept dirs' s' :=
  ⟨⟨fl', stepped.books⟩, stepped.known kept.known, bounded, stepped.shut acc kept.shut⟩

theorem Stepped.plain (acc : Accounted dirs none s fl)
    (stepped : Stepped insert dirs s fl dirs' s' fl') (plain : Plain dirs s)
    (user : ∀ e q va, insert dirs s e q va → ¬ TreePage dirs s q) : Plain dirs' s' := by
  intro e d i q held tree
  have was : q ∉ fl ∧ ¬ TreePage dirs s q := by
    rcases stepped.leaves e d i q held with before | ⟨busy, va, may⟩
    · exact ⟨busy_of_target acc before, plain e d i q before⟩
    · exact ⟨busy, user e q va may⟩
  rcases stepped.trees q tree with before | listed
  · exact was.2 before
  · exact was.1 listed

theorem regionAllocStep_steps (kept : Kept dirs s) (acc : Accounted dirs none s fl)
    (he : dirs e = some pgdir) (user : pdx va < userPdes) {grants grants' : List Grant}
    (run : regionAllocStep e va (grants, s) = .ok (grants', s')) :
    ∃ p rest fl', fl = p :: rest ∧
      Stepped (fun _ _ _ _ _ => False) dirs s fl dirs (takeFree s p false) rest ∧
      Stepped (fun _ _ _ q _ => q = p) dirs (takeFree s p false) rest dirs s' fl' := by
  cases fl with
  | nil =>
    unfold regionAllocStep at run
    rw [pageAlloc_empty acc] at run
    cases run
  | cons p rest =>
    have managed := acc.managed p (by simp)
    have taken : Stepped (fun _ _ _ _ _ => False) dirs s (p :: rest) dirs (takeFree s p false) rest := by
      refine Stepped.still (takeFree_books acc false) (takeFree_target acc false)
        (takeFree_quiet s p false) ?_
      intro q _ _
      rw [takeFree_mem]
      rfl
    have kept1 : Kept dirs (takeFree s p false) :=
      taken.kept kept acc (bounded_takeFree acc kept.bounded false)
    have held : Allocated (takeFree s p false) p := by
      refine ⟨(managed_quiet (takeFree_quiet s p false) p).mpr managed, ?_⟩
      rw [onFreeList_iff taken.books.list]
      exact (List.nodup_cons.mp acc.nodup).1
    have inserted : ∃ r, pageInsert (takeFree s p false) pgdir p va (PTE_W ||| PTE_U) =
        .ok (r, s') := by
      unfold regionAllocStep at run
      rw [pageAlloc_take acc, ok_bind] at run
      obtain ⟨found, deref, run⟩ := bind_ok.mp run
      have known := kept1.known e pgdir he
      unfold derefPgdir at deref
      rw [known] at deref
      cases deref
      obtain ⟨got, done, last⟩ := bind_ok.mp run
      cases last
      exact ⟨got.1, done⟩
    obtain ⟨r, done⟩ := inserted
    have inserting : ∃ fl', Stepped (fun _ _ _ q _ => q = p) dirs (takeFree s p false) rest dirs
        s' fl' :=
      pageInsert_stepped taken.books kept1.bounded he user held (by decide) rfl done
    obtain ⟨fl', stepped⟩ := inserting
    exact ⟨p, rest, fl', rfl, taken, stepped⟩

/-- A round gives the page it takes its first reference, and no other page a second one. -/
theorem regionAllocStep_count (kept : Kept dirs s) (acc : Accounted dirs none s fl)
    (he : dirs e = some pgdir) (user : pdx va < userPdes) {grants grants' : List Grant}
    (run : regionAllocStep e va (grants, s) = .ok (grants', s')) (q : Nat) :
    refs (target dirs none s') q ≤ refs (target dirs none s) q ∨
      refs (target dirs none s') q ≤ 1 := by
  obtain ⟨p, rest, fl', rfl, taken, stepped⟩ := regionAllocStep_steps kept acc he user run
  have same := takeFree_target acc (p := p) false
  rcases stepped.count q with fewer | few | ⟨one_more, _, _, _, here, _⟩
  · rw [same] at fewer
    exact Or.inl fewer
  · exact Or.inr few
  · subst here
    rw [same, free_refs acc (by simp)] at one_more
    exact Or.inr one_more

theorem regionAllocStep_kept (kept : Kept dirs s) (he : dirs e = some pgdir)
    (user : pdx va < userPdes) {grants grants' : List Grant}
    (run : regionAllocStep e va (grants, s) = .ok (grants', s')) :
    Kept dirs s' ∧ (Plain dirs s → Plain dirs s') := by
  obtain ⟨fl, acc⟩ := kept.books
  have bounded : Bounded dirs none s' := by
    intro q
    have before := kept.bounded q
    rcases regionAllocStep_count kept acc he user run q with fewer | few
    · omega
    · omega
  obtain ⟨p, rest, fl', rfl, taken, stepped⟩ := regionAllocStep_steps kept acc he user run
  have kept1 : Kept dirs (takeFree s p false) :=
    taken.kept kept acc (bounded_takeFree acc kept.bounded false)
  refine ⟨stepped.kept kept1 taken.books bounded, ?_⟩
  intro plain
  have plain1 : Plain dirs (takeFree s p false) :=
    taken.plain acc plain fun _ _ _ never => never.elim
  have unused := unused_plain (acc.unused p (by simp))
  refine stepped.plain taken.books plain1 ?_
  intro _ q _ same
  subst same
  unfold TreePage at unused ⊢
  rw [takeFree_target acc]
  exact unused

theorem regionAlloc_kept (kept : Kept dirs s) (he : dirs e = some pgdir) {len : Nat}
    (below : Below va len) {grants grants' : List Grant}
    (run : regionAlloc (grants, s) e va len = .ok (grants', s')) :
    Kept dirs s' ∧ (Plain dirs s → Plain dirs s') := by
  rw [regionAlloc_eq] at run
  have round : ∀ (k : Nat) (a b : List Grant × State), k < rounds va len →
      Kept dirs a.2 ∧ (Plain dirs s → Plain dirs a.2) →
      regionAllocStep e (roundDown va PGSIZE + k * PGSIZE) a = .ok b →
      Kept dirs b.2 ∧ (Plain dirs s → Plain dirs b.2) := by
    intro k a b within before done
    have user := (below_user below within).2
    obtain ⟨kept_b, plain_b⟩ := regionAllocStep_kept before.1 he user done
    exact ⟨kept_b, fun plain => plain_b (before.2 plain)⟩
  have start : Kept dirs (grants, s).2 ∧ (Plain dirs s → Plain dirs (grants, s).2) :=
    ⟨kept, fun plain => plain⟩
  have done := times_keeps (fun _ got => Kept dirs got.2 ∧ (Plain dirs s → Plain dirs got.2))
    start round run
  exact done

theorem step_kept (kept : Kept dirs s) (step : Step insert dirs s dirs' s')
    (bounded : Bounded dirs' none s') : Kept dirs' s' := by
  cases step with
  | call call =>
    obtain ⟨fl, acc⟩ := kept.books
    obtain ⟨fl', stepped⟩ := call_stepped acc kept.bounded kept.known call
    exact stepped.kept kept acc bounded
  | regionAlloc he below run => exact (regionAlloc_kept kept he below run).1

end Runs

section Reached
variable {m : Machine} {insert : Dirs → State → Fin NENV → Nat → Nat → Prop}
  {keep : Dirs → State → Prop} {dirs : Dirs} {s : State} {fl : List Nat}

theorem kept_without_envs (acc : Accounted (fun _ => none) none s fl) (shut : UtopShut s) :
    Kept (fun _ => none) s := by
  refine ⟨⟨fl, acc⟩, ?_, ?_, shut⟩
  · intro e p he
    cases he
  · intro p
    exact Nat.lt_of_le_of_lt (refs_without_envs acc p) (by decide)

theorem pageInit_kept (run : memInitAlloc (powerOn m) = .ok s) : Kept (fun _ => none) s := by
  obtain ⟨_, booted, fl, acc, _⟩ := memInitAlloc_ok m run
  apply kept_without_envs acc
  intro present
  rw [booted.kernPgdir, booted.dir, if_neg (by decide)] at present
  exact absurd present (by decide)

theorem memInit_kept (run : MemInit (powerOn m) s) : Kept (fun _ => none) s := by
  obtain ⟨_, fl, boot⟩ := memInit_ok m run
  apply kept_without_envs boot.books
  intro present
  have utop : pdx UTOP = userPdes := userPdes_eq.symm
  have first : ptx UTOP = 0 := by decide
  have static : StaticPde (pdx UTOP) := by
    unfold StaticPde
    decide
  have entry := boot.pte UTOP static
  unfold kernPte at entry
  rw [utop, first, if_pos present] at entry
  rw [entry]
  exact bootPte_readonly m (by decide)

theorem reached_kept (few : ∀ dirs s, keep dirs s → Bounded dirs none s)
    (reached : Reached m insert keep dirs s) : Kept dirs s := by
  induction reached with
  | pageInit run => exact pageInit_kept run
  | memInit run => exact memInit_kept run
  | step _ step kept ih => exact step_kept ih step (few _ _ kept)

end Reached

/-- The books of the allocator agree with the page tables. -/
structure PageAccounting (dirs : Dirs) (s : State) : Prop where
  free_list : ∃ fl, FreeList s fl ∧ fl.Nodup ∧
    ∀ p ∈ fl, (s.pages p).ppRef = 0 ∧ pteRefs dirs s p = 0 ∧ tableRefs dirs s p = 0 ∧
      dirRefs dirs p = 0 ∧ kernRefs dirs s p = 0
  counts : ∀ p, Managed s p → kernRefs dirs s p = 0 →
    (s.pages p).ppRef.toNat = pteRefs dirs s p + tableRefs dirs s p + dirRefs dirs p
  dir_once : ∀ p, dirRefs dirs p ≤ 1
  alloc_fresh : ∀ zero p s', pageAlloc s zero = .ok (some p, s') →
    Managed s p ∧ pteRefs dirs s p = 0 ∧ tableRefs dirs s p = 0 ∧ dirRefs dirs p = 0 ∧
      kernRefs dirs s p = 0

theorem kept_accounting {dirs : Dirs} {s : State} (kept : Kept dirs s) : PageAccounting dirs s := by
  obtain ⟨fl, acc⟩ := kept.books
  have unreferenced : ∀ p ∈ fl, pteRefs dirs s p = 0 ∧ tableRefs dirs s p = 0 ∧
      dirRefs dirs p = 0 ∧ kernRefs dirs s p = 0 := by
    intro p listed
    have none_left := free_refs acc listed
    rw [← references_eq] at none_left
    unfold references at none_left
    omega
  refine ⟨⟨fl, acc.list, acc.nodup, ?_⟩, ?_, ?_, ?_⟩
  · intro p listed
    refine ⟨?_, unreferenced p listed⟩
    rw [acc.counts p (acc.managed p listed), free_refs acc listed]
    rfl
  · intro p managed plain
    have small := kept.bounded p
    have total := references_eq dirs s p
    unfold references at total
    rw [acc.counts p managed, UInt16.toNat_ofNat', Nat.mod_eq_of_lt small]
    omega
  · intro p
    unfold dirRefs
    refine Finset.card_le_one.mpr ?_
    intro e he e' he'
    simp only [Finset.mem_filter, Finset.mem_univ, true_and] at he he'
    exact Forest.root_unique acc.apart he he'
  · intro zero p s' run
    cases fl with
    | nil =>
      rw [pageAlloc_empty acc] at run
      cases run
    | cons q rest =>
      rw [pageAlloc_take acc] at run
      cases run
      exact ⟨acc.managed p (by simp), unreferenced p (by simp)⟩

abbrev anyPage : Dirs → State → Fin NENV → Nat → Nat → Prop := fun _ _ _ _ _ => True

section SmallMachine
variable {m : Machine} {insert : Dirs → State → Fin NENV → Nat → Nat → Prop}
  {keep : Dirs → State → Prop} {s : State} {fl rest : List Nat} {pgdir pp p q : Nat}

def oneDir (pgdir : Nat) : Dirs := Function.update (fun _ => none) 0 (some pgdir)

theorem oneDir_self (pgdir : Nat) : oneDir pgdir (0 : Fin NENV) = some pgdir :=
  Function.update_self _ _ _

theorem smallMachine_free {p : Nat} (low : 413 ≤ p) (high : p < 1024) :
    p < smallMachine.npages ∧ ¬ bootPage (bootEnd smallMachine) p := by
  have last : kernelPages (bootEnd smallMachine) = 413 := by decide
  refine ⟨high, ?_⟩
  unfold bootPage
  rw [last]
  simp only [IOPHYSMEM, EXTPHYSMEM, PGSIZE]
  omega

theorem smallMachine_boot : ∃ s fl, MemInit (powerOn smallMachine) s ∧
    Accounted (fun _ => none) none s fl ∧ 542 ≤ fl.length := by
  have once : (List.range' 413 611).Nodup := List.nodup_range'
  have free : ∀ p ∈ List.range' 413 611,
      p < smallMachine.npages ∧ ¬ bootPage (bootEnd smallMachine) p := by
    intro p within
    obtain ⟨low, high⟩ := List.mem_range'_1.mp within
    exact smallMachine_free low (by omega)
  have enough : 69 < (List.range' 413 611).length := by
    rw [List.length_range']
    decide
  obtain ⟨s, run⟩ := memInit_total smallMachine smallMachine_fits once free enough
  obtain ⟨_, fl, boot⟩ := memInit_ok smallMachine run
  refine ⟨s, fl, run, boot.books, ?_⟩
  obtain ⟨all, managed, _, long⟩ := boot.enough
  have listed : List.range' 413 611 ⊆ all := by
    intro p within
    rw [managed]
    unfold Managed
    rw [boot.npages, boot.nextfree]
    exact free p within
  have most := (once.subperm listed).length_le
  rw [List.length_range'] at most
  omega

theorem dir_and_page (may : ∀ dirs s, Bounded dirs none s → keep dirs s)
    (reached : Reached m insert keep (fun _ => none) s)
    (acc : Accounted (fun _ => none) none s (p :: q :: rest)) :
    Reached m insert keep (oneDir p) (takeFree (newDir s (0 : Fin NENV) p) q false) ∧
      Accounted (oneDir p) none (takeFree (newDir s (0 : Fin NENV) p) q false) rest ∧
      target (oneDir p) none (takeFree (newDir s (0 : Fin NENV) p) q false) =
        Function.update (target (fun _ => none) none s) (.root 0) (some p) := by
  obtain ⟨acc1, moved1⟩ := newDir_books acc (rfl : (fun _ => none : Dirs) 0 = none)
  have moved2 := (takeFree_target acc1 false).trans moved1
  have few : ∀ r, refs (Function.update (target (fun _ => none) none s) (.root 0) (some p)) r ≤ 1 :=
    refs_point_le rfl (free_refs acc (by simp)) (Nat.le_refl 1) (refs_without_envs acc)
  have bounded1 : Bounded (oneDir p) none (newDir s (0 : Fin NENV) p) := by
    intro r
    rw [show target (oneDir p) none (newDir s (0 : Fin NENV) p) = _ from moved1]
    exact Nat.lt_of_le_of_lt (few r) (by decide)
  have bounded2 : Bounded (oneDir p) none (takeFree (newDir s (0 : Fin NENV) p) q false) := by
    intro r
    rw [show target (oneDir p) none (takeFree (newDir s (0 : Fin NENV) p) q false) = _ from moved2]
    exact Nat.lt_of_le_of_lt (few r) (by decide)
  have setup : Call insert (fun _ => none) s (oneDir p) (newDir s (0 : Fin NENV) p) :=
    setup_call acc rfl
  have reached1 := reached.step (.call setup) (may _ _ bounded1)
  exact ⟨reached1.step (.call (.pageAlloc false (pageAlloc_take acc1 false))) (may _ _ bounded2),
    takeFree_books acc1 false, moved2⟩

/-- Environment 0 has a directory, maps pp at its address 0 and nothing else, in a run that asks no
    more of its calls than that the page inserted has no references. -/
structure OnePage (pgdir pp : Nat) (s : State) (fl : List Nat) : Prop where
  reached : ∀ (insert : Dirs → State → Fin NENV → Nat → Nat → Prop) (keep : Dirs → State → Prop),
    (∀ dirs s e p va, (s.pages p).ppRef = 0 → insert dirs s e p va) →
    (∀ dirs s, Bounded dirs none s → keep dirs s) →
    Reached smallMachine insert keep (oneDir pgdir) s
  books : Accounted (oneDir pgdir) none s fl
  mapped : userPage (oneDir pgdir) s 0 ⟨0, by decide⟩ ⟨0, by decide⟩ = some pp
  table : Present (s.entry pgdir 0)
  few : ∀ r, refs (target (oneDir pgdir) none s) r ≤ 1
  long : 500 ≤ fl.length

theorem onePage_run : ∃ pgdir pp s fl, OnePage pgdir pp s fl := by
  obtain ⟨s0, fl, run, acc, long⟩ := smallMachine_boot
  match fl, acc, long with
  | p :: q :: t :: rest, acc, long =>
    have before : ∀ insert keep, (∀ dirs s, Bounded dirs none s → keep dirs s) →
        Reached smallMachine insert keep (oneDir p) (takeFree (newDir s0 (0 : Fin NENV) p) q false) :=
      fun insert keep may => (dir_and_page may (.memInit run) acc).1
    obtain ⟨reached, taken, moved⟩ := @dir_and_page smallMachine anyPage (fun _ _ => True) s0 (t :: rest)
      p q (fun _ _ _ => trivial) (.memInit run) acc
    have he := oneDir_self p
    have busy : q ∉ t :: rest := (List.nodup_cons.mp (List.nodup_cons.mp acc.nodup).2).1
    have managed : Managed (takeFree (newDir s0 (0 : Fin NENV) p) q false) q := acc.managed q (by simp)
    generalize takeFree (newDir s0 (0 : Fin NENV) p) q false = s1 at before taken moved managed
    have differ : p ≠ q := by
      rintro rfl
      exact (List.nodup_cons.mp acc.nodup).1 (by simp)
    have few : ∀ r, refs (target (oneDir p) none s1) r ≤ 1 := by
      rw [moved]
      exact refs_point_le rfl (free_refs acc (by simp)) (Nat.le_refl 1) (refs_without_envs acc)
    have unused : refs (target (oneDir p) none s1) q = 0 := by
      rw [moved, refs_point rfl, free_refs acc (by simp), if_neg differ]
    have bounded : Bounded (oneDir p) none s1 := fun r => Nat.lt_of_le_of_lt (few r) (by decide)
    have zero : (s1.pages q).ppRef = 0 := by
      rw [taken.counts q managed, unused]
      rfl
    have user : pdx 0 < userPdes := by decide
    have small : PTE_U < 4096 := by decide
    have held : Allocated s1 q := ⟨managed, (onFreeList_iff taken.list).not.mpr busy⟩
    rcases pageInsert_spec taken bounded he user managed busy small with
      ⟨_, full, _⟩ | ⟨t', s2, fl2, s', fl', walked, done, inserted⟩
    · cases full
    · have bare : target (oneDir p) none s1 (.table 0 ⟨pdx 0, user⟩) = none := by
        rw [moved, Function.update_of_ne (by simp)]
        rfl
      have empty : target (oneDir p) none s1 (leafSlot 0 0 user) = none := by
        rw [moved, Function.update_of_ne (by simp)]
        rfl
      obtain ⟨fresh, left⟩ : t' ∈ t :: rest ∧ t :: rest = t' :: fl2 := by
        rcases walked with ⟨named, _, _⟩ | ⟨_, _, first⟩
        · rw [bare] at named
          cases named
        · exact ⟨by simp [first], first⟩
      have apart : t' ≠ q := fun same => busy (same ▸ fresh)
      have named : target (oneDir p) none s' (.table 0 ⟨pdx 0, user⟩) = some t' := by
        rw [inserted.target_eq, Function.update_of_ne (by simp), Function.update_self]
      have mapped : userPage (oneDir p) s' 0 ⟨pdx 0, user⟩ ⟨ptx 0, ptx_lt 0⟩ = some q := by
        rw [userPage_target, inserted.target_eq, Function.update_self]
      have empty' : Function.update (target (oneDir p) none s1) (.table 0 ⟨pdx 0, user⟩) (some t')
          (leafSlot 0 0 user) = none := by
        rw [Function.update_of_ne (by simp), empty]
      have few' : ∀ r, refs (target (oneDir p) none s') r ≤ 1 := by
        rw [inserted.target_eq]
        refine refs_point_le empty' ?_ (Nat.le_refl 1)
          (refs_point_le bare (free_refs taken fresh) (Nat.le_refl 1) few)
        rw [refs_point bare, unused, if_neg apart]
      have list : fl' = fl2 := by
        have nothing : target (oneDir p) (some q) s2 (leafSlot 0 0 user) = none := by
          rw [target_hand (by simp) (oneDir p) (some q) none, walked.target_eq taken he]
          exact empty'
        rw [inserted.free_eq, unlink_empty nothing]
      refine ⟨p, q, s', fl', ⟨fun insert keep may kept => ?_, inserted.books, mapped,
        ((table_entry he).mp named).1, few', ?_⟩⟩
      · have call : Step insert (oneDir p) s1 (oneDir p) s' :=
          .call (.pageInsert he (by decide) held small (may _ _ _ _ _ zero) done)
        exact (before insert keep kept).step call
          (kept _ _ fun r => Nat.lt_of_le_of_lt (few' r) (by decide))
      · rw [left] at long
        rw [list]
        simp only [List.length_cons] at long
        omega

end SmallMachine

theorem page_accounting {m : Machine} {dirs : Dirs} {s : State}
    (reached : Reached m anyPage NoOverflow dirs s) : PageAccounting dirs s :=
  kept_accounting (reached_kept (fun dirs s few => (noOverflow_iff dirs s).mp few) reached)

theorem page_accounting_smallMachine : ∃ pgdir pp s, PageAccounting (oneDir pgdir) s ∧
    userPage (oneDir pgdir) s 0 ⟨0, by decide⟩ ⟨0, by decide⟩ = some pp := by
  obtain ⟨pgdir, pp, s, fl, one⟩ := onePage_run
  exact ⟨pgdir, pp, s, page_accounting (one.reached anyPage NoOverflow (fun _ _ _ _ _ _ => trivial)
    fun dirs s few => (noOverflow_iff dirs s).mpr few), one.mapped⟩

end JosPageRuns
