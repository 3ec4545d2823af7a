import Jos.PageOps

/- What pgdir_walk, page_remove and page_insert do below UTOP in the directory of an
   environment, and what that does to the books. -/
namespace JosMapping
open JosLayout FrameWords JosMachine JosPmap JosAccounting JosPageOps IntrusiveList Ledger
open TableForest CountedLoop

section Hang
variable {dirs : Dirs} {hand : Option Nat} {s : State} {rest : List Nat} {pgdir d t va : Nat}

/-- The state after pgdir_walk has made the page t a page table, for slot d of pgdir. -/
def hangTable (s : State) (pgdir d t : Nat) : State :=
  let s := takeFree s t true
  (s.setRef t ((s.pages t).ppRef + 1)).setEntry pgdir d (tableEntry t)

theorem hangTable_quiet (s : State) (pgdir d t : Nat) : Quiet s (hangTable s pgdir d t) := rfl

theorem hangTable_mem_of_ne {q : Nat} (table : q ≠ t) (dir : q ≠ pgdir) :
    (hangTable s pgdir d t).mem q = s.mem q := by
  simp [hangTable, State.setEntry, takeFree, table, dir]

theorem hangTable_pages_of_ne {q : Nat} (table : q ≠ t) :
    (hangTable s pgdir d t).pages q = s.pages q := by
  simp [hangTable, State.setEntry, State.setRef, takeFree, table]

theorem hangTable_dir (room : t < 1048576) :
    (hangTable s pgdir d t).entry pgdir d = tableEntry t := by
  have small : tableEntry t < WORD := by
    rw [tableEntry_eq]
    exact mapEntry_lt room (by decide)
  exact State.entry_setEntry_same _ _ _ _ small

theorem hangTable_dir_of_ne (apart : pgdir ≠ t) {j : Nat} (other : j ≠ d) :
    (hangTable s pgdir d t).entry pgdir j = s.entry pgdir j := by
  unfold hangTable
  rw [State.entry_setEntry_of_ne _ _ _ _ (Or.inr other)]
  simp [State.entry, takeFree, apart]

theorem hangTable_table (apart : pgdir ≠ t) (i : Nat) :
    (hangTable s pgdir d t).entry t i = 0 := by
  unfold hangTable
  rw [State.entry_setEntry_of_ne _ _ _ _ (Or.inl apart.symm)]
  simp [State.entry, takeFree]

theorem hangTable_entry_of_ne {q : Nat} (table : q ≠ t) {j : Nat} (dir : q ≠ pgdir ∨ j ≠ d) :
    (hangTable s pgdir d t).entry q j = s.entry q j := by
  unfold hangTable
  rw [State.entry_setEntry_of_ne _ _ _ _ dir]
  simp [State.entry, takeFree, table]

theorem pgdirWalk_full (acc : Accounted dirs hand s [])
    (absent : ¬ Present (s.entry pgdir (pdx va))) :
    pgdirWalk s pgdir va true = .ok (none, s) := by
  unfold pgdirWalk
  rw [if_neg absent, if_neg (by decide), pageAlloc_empty acc]
  rfl

theorem pgdirWalk_head (head : s.pageFreeList = some t) (inside : t < s.npages) (room : t < 1048576)
    (absent : ¬ Present (s.entry pgdir (pdx va))) :
    pgdirWalk s pgdir va true = .ok (some ⟨t, ptx va⟩, hangTable s pgdir (pdx va) t) := by
  have named : ppn ((hangTable s pgdir (pdx va) t).entry pgdir (pdx va)) = t := by
    rw [hangTable_dir room, tableEntry_eq]
    exact ppn_mapEntry room (by decide)
  have found : kaddr (hangTable s pgdir (pdx va) t)
      (pteAddr ((hangTable s pgdir (pdx va) t).entry pgdir (pdx va))) = .ok t := by
    have inside' : ppn ((hangTable s pgdir (pdx va) t).entry pgdir (pdx va)) <
        (hangTable s pgdir (pdx va) t).npages := by
      rw [named]
      exact inside
    rw [kaddr_entry inside', named]
  unfold pgdirWalk
  rw [if_neg absent, if_neg (by decide), pageAlloc_head head inside]
  change (kaddr (hangTable s pgdir (pdx va) t)
    (pteAddr ((hangTable s pgdir (pdx va) t).entry pgdir (pdx va))) >>= _) = _
  rw [found]
  rfl

theorem pgdirWalk_hang (acc : Accounted dirs hand s (t :: rest))
    (absent : ¬ Present (s.entry pgdir (pdx va))) :
    pgdirWalk s pgdir va true = .ok (some ⟨t, ptx va⟩, hangTable s pgdir (pdx va) t) := by
  have managed := acc.managed t (by simp)
  exact pgdirWalk_head (chain_cons_head acc.list).1 managed.1 (managed_room acc managed) absent

end Hang

section Walk
variable {dirs : Dirs} {hand : Option Nat} {s s' : State} {fl fl' rest : List Nat}
  {e : Fin NENV} {d : Fin userPdes} {pgdir t va : Nat}

theorem hangTable_user (acc : Accounted dirs hand s (t :: rest)) (he : dirs e = some pgdir)
    (empty : target dirs hand s (.table e d) = none) :
    Accounted dirs hand (hangTable s pgdir d t) rest ∧
      target dirs hand (hangTable s pgdir d t) =
        Function.update (target dirs hand s) (.table e d) (some t) := by
  have managed := acc.managed t (by simp)
  have room := managed_room acc managed
  have apart : pgdir ≠ t := by
    intro same
    subst same
    exact acc.unused pgdir (by simp) (.root e) he
  have dir_kern : pgdir ≠ s.kernPgdir := managed_ne_kern acc (root_managed acc he)
  have table_kern : t ≠ s.kernPgdir := managed_ne_kern acc managed
  have taken := takeFree_books acc true
  have taken_target := takeFree_target acc true
  have still_empty : target dirs hand (takeFree s t true) (.table e d) = none := by
    rw [taken_target]
    exact empty
  have still_unused : (forest dirs hand (takeFree s t true)).Unused t := by
    intro x
    change target dirs hand (takeFree s t true) x ≠ some t
    rw [taken_target]
    exact acc.unused t (by simp) x
  have moved : target dirs hand (hangTable s pgdir d t) =
      Function.update (target dirs hand (takeFree s t true)) (.table e d) (some t) := by
    refine Forest.target_attachTable taken.apart he still_empty still_unused rfl ?_ rfl ?_ ?_ ?_
    · funext k
      simp only [forest, (hangTable_quiet s pgdir d t).kernPgdir, (takeFree_quiet s t true).kernPgdir]
      rw [hangTable_entry_of_ne table_kern.symm (Or.inl dir_kern.symm)]
      simp [State.entry, takeFree, table_kern.symm]
    · change entryPage ((hangTable s pgdir d t).entry pgdir d) = some t
      rw [hangTable_dir room, tableEntry_eq]
      exact entryPage_mapEntry room (by decide)
    · intro i
      change entryPage ((hangTable s pgdir d t).entry t i) = none
      rw [hangTable_table apart]
      exact entryPage_zero
    · intro q j table dir
      change entryPage ((hangTable s pgdir d t).entry q j) =
        entryPage ((takeFree s t true).entry q j)
      rw [hangTable_entry_of_ne table dir]
      simp [State.entry, takeFree, table]
  refine ⟨?_, by rw [moved, taken_target]⟩
  have steady : Steady (takeFree s t true) (hangTable s pgdir d t) := by
    refine ⟨rfl, rfl, rfl, ?_⟩
    intro j _
    rw [(takeFree_quiet s t true).kernPgdir,
      hangTable_entry_of_ne table_kern.symm (Or.inl dir_kern.symm)]
    simp [State.entry, takeFree, table_kern.symm]
  exact taken.link steady still_empty ⟨managed.1, managed.2⟩ (List.nodup_cons.mp acc.nodup).1
    (fun _ => still_unused) moved rfl rfl

/-- What a walk with create that returns an entry has done: the table t was there, or it was
    the first free page. -/
def Walked (dirs : Dirs) (hand : Option Nat) (e : Fin NENV) (d : Fin userPdes) (pgdir : Nat)
    (s : State) (fl : List Nat) (t : Nat) (s' : State) (fl' : List Nat) : Prop :=
  (target dirs hand s (.table e d) = some t ∧ s' = s ∧ fl = fl') ∨
    (target dirs hand s (.table e d) = none ∧ s' = hangTable s pgdir d t ∧ fl = t :: fl')

theorem pgdirWalk_create (acc : Accounted dirs hand s fl) (he : dirs e = some pgdir)
    (user : pdx va < userPdes) :
    (target dirs hand s (.table e ⟨pdx va, user⟩) = none ∧ fl = [] ∧
      pgdirWalk s pgdir va true = .ok (none, s)) ∨
    ∃ t s' fl', pgdirWalk s pgdir va true = .ok (some ⟨t, ptx va⟩, s') ∧
      Walked dirs hand e ⟨pdx va, user⟩ pgdir s fl t s' fl' := by
  cases ht : target dirs hand s (.table e ⟨pdx va, user⟩) with
  | some t =>
    right
    obtain ⟨present, named⟩ := (table_entry he).mp ht
    have inside := (acc.targets _ t ht).1
    have walked := pgdirWalk_present present (by rw [named]; exact inside) true
    dsimp only at named
    rw [named] at walked
    exact ⟨t, s, fl, walked, Or.inl ⟨ht, rfl, rfl⟩⟩
  | none =>
    have absent := (table_absent he).mp ht
    cases fl with
    | nil => exact Or.inl ⟨rfl, rfl, pgdirWalk_full acc absent⟩
    | cons t rest =>
      right
      exact ⟨t, hangTable s pgdir (pdx va) t, rest, pgdirWalk_hang acc absent,
        Or.inr ⟨ht, rfl, rfl⟩⟩

section Walked

theorem Walked.books (acc : Accounted dirs hand s fl) (he : dirs e = some pgdir)
    (walked : Walked dirs hand e d pgdir s fl t s' fl') : Accounted dirs hand s' fl' := by
  rcases walked with ⟨_, rfl, rfl⟩ | ⟨empty, rfl, rfl⟩
  · exact acc
  · exact (hangTable_user acc he empty).1

theorem Walked.target_eq (acc : Accounted dirs hand s fl) (he : dirs e = some pgdir)
    (walked : Walked dirs hand e d pgdir s fl t s' fl') :
    target dirs hand s' = Function.update (target dirs hand s) (.table e d) (some t) := by
  rcases walked with ⟨ht, rfl, rfl⟩ | ⟨empty, rfl, rfl⟩
  · rw [← ht, Function.update_eq_self]
  · exact (hangTable_user acc he empty).2

theorem Walked.table (acc : Accounted dirs hand s fl) (he : dirs e = some pgdir)
    (walked : Walked dirs hand e d pgdir s fl t s' fl') :
    target dirs hand s' (.table e d) = some t := by
  rw [walked.target_eq acc he, Function.update_self]

theorem Walked.quiet (walked : Walked dirs hand e d pgdir s fl t s' fl') : Quiet s s' := by
  rcases walked with ⟨_, rfl, _⟩ | ⟨_, rfl, _⟩
  · exact quiet_refl s'
  · exact hangTable_quiet s pgdir d t

theorem Walked.mem_of_ne (walked : Walked dirs hand e d pgdir s fl t s' fl') {q : Nat}
    (table : q ≠ t) (dir : q ≠ pgdir) : s'.mem q = s.mem q := by
  rcases walked with ⟨_, rfl, _⟩ | ⟨_, rfl, _⟩
  · rfl
  · exact hangTable_mem_of_ne table dir

theorem Walked.pages_of_ne (walked : Walked dirs hand e d pgdir s fl t s' fl') {q : Nat}
    (table : q ≠ t) : s'.pages q = s.pages q := by
  rcases walked with ⟨_, rfl, _⟩ | ⟨_, rfl, _⟩
  · rfl
  · exact hangTable_pages_of_ne table

theorem Walked.subset (walked : Walked dirs hand e d pgdir s fl t s' fl') {q : Nat}
    (listed : q ∈ fl') : q ∈ fl := by
  rcases walked with ⟨_, _, rfl⟩ | ⟨_, _, rfl⟩
  · exact listed
  · simp [listed]

theorem Walked.dir_of_ne (acc : Accounted dirs hand s fl) (he : dirs e = some pgdir)
    (walked : Walked dirs hand e d pgdir s fl t s' fl') {j : Nat} (other : j ≠ d) :
    s'.entry pgdir j = s.entry pgdir j := by
  rcases walked with ⟨_, rfl, _⟩ | ⟨_, rfl, rfl⟩
  · rfl
  · apply hangTable_dir_of_ne _ other
    intro same
    subst same
    exact acc.unused pgdir (by simp) (.root e) he

theorem Walked.table_entry (acc : Accounted dirs hand s fl) (he : dirs e = some pgdir)
    (walked : Walked dirs hand e d pgdir s fl t s' fl') (j : Nat) :
    s'.entry t j = if target dirs hand s (.table e d) = none then 0 else s.entry t j := by
  rcases walked with ⟨ht, rfl, _⟩ | ⟨empty, rfl, rfl⟩
  · simp [ht]
  · rw [if_pos empty]
    apply hangTable_table
    intro same
    subst same
    exact acc.unused pgdir (by simp) (.root e) he

theorem Walked.bounded (acc : Accounted dirs hand s fl) (he : dirs e = some pgdir)
    (walked : Walked dirs hand e d pgdir s fl t s' fl') (bounded : Bounded dirs hand s) :
    Bounded dirs hand s' := by
  intro q
  rw [walked.target_eq acc he]
  rcases walked with ⟨ht, _, _⟩ | ⟨empty, _, rfl⟩
  · rw [← ht, Function.update_eq_self]
    exact bounded q
  · rw [refs_point empty]
    have before := bounded q
    by_cases same : t = q
    · subst same
      have none_yet := free_refs acc (show t ∈ t :: fl' by simp)
      rw [if_pos rfl]
      omega
    · rw [if_neg same]
      omega

end Walked

end Walk

section Remove
variable {dirs : Dirs} {hand : Option Nat} {s : State} {fl : List Nat}
  {e : Fin NENV} {pgdir va : Nat}

abbrev leafSlot (e : Fin NENV) (va : Nat) (user : pdx va < userPdes) : PageSlot :=
  .leaf e ⟨pdx va, user⟩ ⟨ptx va, ptx_lt va⟩

theorem pageLookup_spec (acc : Accounted dirs hand s fl) (he : dirs e = some pgdir)
    (user : pdx va < userPdes) :
    (target dirs hand s (leafSlot e va user) = none ∧ pageLookup s pgdir va = .ok none) ∨
    ∃ t p, target dirs hand s (.table e ⟨pdx va, user⟩) = some t ∧
      target dirs hand s (leafSlot e va user) = some p ∧
      pageLookup s pgdir va = .ok (some (p, ⟨t, ptx va⟩)) := by
  cases ht : target dirs hand s (.table e ⟨pdx va, user⟩) with
  | none =>
    left
    refine ⟨leaf_without_table ht _, ?_⟩
    have absent := (table_absent he).mp ht
    dsimp only at absent
    unfold pageLookup
    rw [pgdirWalk_absent absent]
    rfl
  | some t =>
    obtain ⟨present, named⟩ := (table_entry he).mp ht
    have inside := (acc.targets _ t ht).1
    have walked := pgdirWalk_present present (by rw [named]; exact inside) false
    dsimp only at named
    rw [named] at walked
    have leaf := leaf_entry ht ⟨ptx va, ptx_lt va⟩
    cases hp : entryPage (s.entry t (ptx va)) with
    | none =>
      left
      refine ⟨leaf.trans hp, ?_⟩
      unfold pageLookup
      rw [walked]
      exact if_pos (entryPage_none.mp hp)
    | some p =>
      right
      obtain ⟨mapped, page⟩ := entryPage_some.mp hp
      have held := leaf.trans hp
      have bound := (acc.targets _ p held).1
      refine ⟨t, p, rfl, held, ?_⟩
      unfold pageLookup
      rw [walked]
      simp only [bind, Except.bind]
      rw [if_neg (not_not.mpr mapped), pa2page_entry (by rw [page]; exact bound), page]

/-- The state after page_remove has unmapped p. -/
def clearLeaf (s : State) (t i p va : Nat) : State :=
  tlbInvalidate ((pageDecref s p).setEntry t i 0) va

theorem pageDecref_quiet (s : State) (p : Nat) :
    Quiet s (pageDecref s p) ∧ (pageDecref s p).mem = s.mem := by
  unfold pageDecref pageFree
  dsimp only
  split <;> exact ⟨rfl, rfl⟩

theorem clearLeaf_quiet (s : State) (t i p va : Nat) : Quiet s (clearLeaf s t i p va) := by
  refine quiet_trans (pageDecref_quiet s p).1 ?_
  rfl

theorem clearLeaf_mem (s : State) (t i p va : Nat) :
    (clearLeaf s t i p va).mem = Function.update s.mem t (setWord (s.mem t) i 0) := by
  have mem := (pageDecref_quiet s p).2
  simp only [clearLeaf, tlbInvalidate, State.setEntry, State.setFrame_mem, mem]

theorem clearLeaf_pages_of_ne {t i p va q : Nat} (differ : q ≠ p) :
    (clearLeaf s t i p va).pages q = s.pages q := pageDecref_links s p q differ

theorem clearLeaf_entry (s : State) (t i p va : Nat) : (clearLeaf s t i p va).entry t i = 0 := by
  simp [State.entry, clearLeaf_mem]

theorem clearLeaf_entry_of_ne {t i p va q j : Nat} (differ : q ≠ t ∨ j ≠ i) :
    (clearLeaf s t i p va).entry q j = s.entry q j := by
  have plain := State.entry_setEntry_of_ne s t i 0 differ
  rw [← plain]
  simp only [State.entry, clearLeaf_mem]
  rfl

theorem clearLeaf_books (acc : Accounted dirs hand s fl)
    {d : Fin userPdes} {i : Fin NPTENTRIES} {t p : Nat}
    (ht : target dirs hand s (.table e d) = some t)
    (held : target dirs hand s (.leaf e d i) = some p)
    (bound : refs (target dirs hand s) p ≤ 65536) (va : Nat) :
    Accounted dirs hand (clearLeaf s t i p va)
        (unlink ⟨fl, target dirs hand s⟩ (.leaf e d i : PageSlot)).free ∧
      target dirs hand (clearLeaf s t i p va) =
        Function.update (target dirs hand s) (.leaf e d i) none := by
  have kernel : t ≠ s.kernPgdir := managed_ne_kern acc (acc.targets _ t ht)
  have quiet := clearLeaf_quiet s t i p va
  have moved : target dirs hand (clearLeaf s t i p va) =
      Function.update (target dirs hand s) (.leaf e d i) none := by
    refine Forest.target_setLeaf acc.apart ht rfl ?_ rfl ?_ ?_
    · funext k
      simp only [forest, quiet.kernPgdir]
      rw [clearLeaf_entry_of_ne (Or.inl kernel.symm)]
    · change entryPage ((clearLeaf s t i p va).entry t i) = none
      rw [clearLeaf_entry]
      exact entryPage_zero
    · intro q j differ
      change entryPage ((clearLeaf s t i p va).entry q j) = entryPage (s.entry q j)
      rw [clearLeaf_entry_of_ne differ]
  have steady : Steady s (clearLeaf s t i p va) := by
    refine ⟨quiet.npages, quiet.nextfree, quiet.kernPgdir, ?_⟩
    intro j _
    rw [clearLeaf_entry_of_ne (Or.inl kernel.symm)]
  exact ⟨acc.unlink steady held bound moved rfl rfl, moved⟩

theorem pageRemove_spec (acc : Accounted dirs hand s fl) (he : dirs e = some pgdir)
    (user : pdx va < userPdes) :
    (target dirs hand s (leafSlot e va user) = none ∧ pageRemove s pgdir va = .ok s) ∨
    ∃ t p, target dirs hand s (.table e ⟨pdx va, user⟩) = some t ∧
      target dirs hand s (leafSlot e va user) = some p ∧
      pageRemove s pgdir va = .ok (clearLeaf s t (ptx va) p va) := by
  rcases pageLookup_spec acc he user with ⟨empty, found⟩ | ⟨t, p, ht, held, found⟩
  · left
    refine ⟨empty, ?_⟩
    unfold pageRemove
    rw [found]
    rfl
  · right
    refine ⟨t, p, ht, held, ?_⟩
    unfold pageRemove
    rw [found]
    rfl

end Remove

section Insert
variable {dirs : Dirs} {s s' : State} {fl fl' : List Nat} {e : Fin NENV} {d : Fin userPdes}
  {i : Fin NPTENTRIES} {pgdir pp perm va t : Nat}

def mapLeaf (s : State) (pgdir t d i pp perm : Nat) : State :=
  let s := s.setEntry t i (mapEntry pp perm)
  s.setEntry pgdir d (s.entry pgdir d ||| perm)

theorem mapLeaf_quiet (s : State) (pgdir t d i pp perm : Nat) :
    Quiet s (mapLeaf s pgdir t d i pp perm) := rfl

theorem mapLeaf_mem_of_ne {d i q : Nat} (table : q ≠ t) (dir : q ≠ pgdir) :
    (mapLeaf s pgdir t d i pp perm).mem q = s.mem q := by
  simp [mapLeaf, State.setEntry, table, dir]

theorem mapLeaf_entry_of_ne {d i q j : Nat} (table : q ≠ t ∨ j ≠ i) (dir : q ≠ pgdir ∨ j ≠ d) :
    (mapLeaf s pgdir t d i pp perm).entry q j = s.entry q j := by
  unfold mapLeaf
  rw [State.entry_setEntry_of_ne _ _ _ _ dir, State.entry_setEntry_of_ne _ _ _ _ table]

theorem mapLeaf_leaf {d i : Nat} (apart : t ≠ pgdir) (room : pp < 1048576) (small : perm < 4096) :
    (mapLeaf s pgdir t d i pp perm).entry t i = mapEntry pp perm := by
  unfold mapLeaf
  rw [State.entry_setEntry_of_ne _ _ _ _ (Or.inl apart)]
  exact State.entry_setEntry_same _ _ _ _ (mapEntry_lt room small)

theorem mapLeaf_dir {d i : Nat} (apart : t ≠ pgdir) (small : perm < 4096) :
    (mapLeaf s pgdir t d i pp perm).entry pgdir d = s.entry pgdir d ||| perm := by
  have word := (ppn_or_flags (State.entry_lt s pgdir d) small).2.2
  simp only [mapLeaf]
  rw [State.entry_setEntry_of_ne _ _ _ _ (Or.inl apart.symm)]
  exact State.entry_setEntry_same _ _ _ _ word

theorem mapLeaf_target {hand : Option Nat} (acc : Accounted dirs hand s fl)
    (i : Fin NPTENTRIES) (he : dirs e = some pgdir) (ht : target dirs hand s (.table e d) = some t)
    (room : pp < 1048576) (small : perm < 4096) :
    Steady s (mapLeaf s pgdir t d i pp perm) ∧
      target dirs none (mapLeaf s pgdir t d i pp perm) =
        Function.update (target dirs none s) (.leaf e d i) (some pp) := by
  have apart : t ≠ pgdir := (Forest.root_ne_table acc.apart he ht).symm
  have dir_kern : s.kernPgdir ≠ pgdir := (managed_ne_kern acc (root_managed acc he)).symm
  have table_kern : s.kernPgdir ≠ t := (managed_ne_kern acc (acc.targets _ t ht)).symm
  have ht' : target dirs none s (.table e d) = some t := ht
  have apart' : (forest dirs none s).Apart := by
    refine Forest.apart_update acc.apart (Forest.target_setHand rfl rfl rfl) ?_
    intro structural
    exact absurd structural (by simp [Slot.Structural])
  have kernel : ∀ j, (mapLeaf s pgdir t d i pp perm).entry s.kernPgdir j =
      s.entry s.kernPgdir j := by
    intro j
    exact mapLeaf_entry_of_ne (Or.inl table_kern) (Or.inl dir_kern)
  refine ⟨⟨rfl, rfl, rfl, fun j _ => by rw [kernel]⟩, ?_⟩
  have first : target dirs none (s.setEntry t i (mapEntry pp perm)) =
      Function.update (target dirs none s) (.leaf e d i) (some pp) := by
    refine Forest.target_setLeaf apart' ht' rfl ?_ rfl ?_ ?_
    · funext k
      simp only [forest, State.setEntry, State.setFrame_kernPgdir]
      rw [show (s.setFrame t (setWord (s.mem t) i (mapEntry pp perm))).entry s.kernPgdir k =
        s.entry s.kernPgdir k from State.entry_setEntry_of_ne s t i _ (Or.inl table_kern)]
    · change entryPage ((s.setEntry t i (mapEntry pp perm)).entry t i) = some pp
      rw [State.entry_setEntry_same _ _ _ _ (mapEntry_lt room small)]
      exact entryPage_mapEntry room small
    · intro q j differ
      change entryPage ((s.setEntry t i (mapEntry pp perm)).entry q j) = entryPage (s.entry q j)
      rw [State.entry_setEntry_of_ne _ _ _ _ differ]
  rw [← first]
  refine target_entries rfl ?_ ?_
  · intro j _
    rw [show (s.setEntry t i (mapEntry pp perm)).kernPgdir = s.kernPgdir from rfl, kernel]
    rw [State.entry_setEntry_of_ne _ _ _ _ (Or.inl table_kern)]
  · intro q _ j _
    by_cases here : q = pgdir ∧ j = d
    · obtain ⟨rfl, rfl⟩ := here
      obtain ⟨present, named⟩ := (table_entry he).mp ht
      have old : entryPage (s.entry q d) = some t := entryPage_some.mpr ⟨present, named⟩
      rw [mapLeaf_dir apart small, State.entry_setEntry_of_ne _ _ _ _ (Or.inl apart.symm), old]
      exact entryPage_or (State.entry_lt s q d) small old
    · have elsewhere : q ≠ pgdir ∨ j ≠ d := not_and_or.mp here
      unfold mapLeaf
      rw [State.entry_setEntry_of_ne _ _ _ _ elsewhere]

/-- What a successful page_insert of pp at va has done, from the walk's state s1 and list fl1 on. -/
structure Inserted (dirs : Dirs) (e : Fin NENV) (d : Fin userPdes) (i : Fin NPTENTRIES)
    (pgdir pp perm : Nat) (s : State) (t : Nat) (s1 : State) (fl1 : List Nat)
    (s' : State) (fl' : List Nat) : Prop where
  books : Accounted dirs none s' fl'
  target_eq : target dirs none s' =
    Function.update (Function.update (target dirs none s) (.table e d) (some t)) (.leaf e d i)
      (some pp)
  free_eq : fl' = (unlink ⟨fl1, target dirs (some pp) s1⟩ (.leaf e d i : PageSlot)).free
  quiet : Quiet s s'
  mem_of_ne : ∀ q, q ≠ t → q ≠ pgdir → s'.mem q = s.mem q
  pages_of_ne : ∀ q, q ≠ pp → q ≠ t → target dirs none s (.leaf e d i) ≠ some q →
    s'.pages q = s.pages q
  dir_of_ne : ∀ j, j ≠ d.val → s'.entry pgdir j = s.entry pgdir j
  dir : s'.entry pgdir d = s1.entry pgdir d ||| perm
  table_of_ne : ∀ j, j ≠ i.val → s'.entry t j = s1.entry t j
  leaf : s'.entry t i = mapEntry pp perm

theorem Walked.managed (walked : Walked dirs none e d pgdir s fl t s' fl') (managed : Managed s pp) :
    Managed s' pp := by
  have quiet := walked.quiet
  refine ⟨?_, ?_⟩
  · rw [quiet.npages]
    exact managed.1
  · rw [quiet.nextfree]
    exact managed.2

theorem counted_books (acc : Accounted dirs none s fl) (bounded : Bounded dirs none s)
    (managed : Managed s pp) (busy : pp ∉ fl) :
    Accounted dirs (some pp) (s.setRef pp ((s.pages pp).ppRef + 1)) fl ∧
      ∀ q, refs (target dirs (some pp) s) q ≤ 65536 := by
  have moved : target dirs (some pp) (s.setRef pp ((s.pages pp).ppRef + 1)) =
      Function.update (target dirs none s) .hand (some pp) :=
    Forest.target_setHand rfl rfl rfl
  refine ⟨acc.link ⟨rfl, rfl, rfl, fun _ _ => rfl⟩ rfl managed busy
    (fun structural => absurd structural (by simp [Slot.Structural])) moved rfl rfl, ?_⟩
  intro q
  have before := bounded q
  change refs (target dirs (some pp) (s.setRef pp ((s.pages pp).ppRef + 1))) q ≤ 65536
  rw [moved, refs_point rfl]
  split <;> omega

/-- pp is counted, and what was mapped at va is not mapped any more: page_insert is about to store
    the entry. -/
structure Vacated (dirs : Dirs) (x : PageSlot) (va t pp : Nat) (s : State) (fl : List Nat)
    (s' : State) : Prop where
  books : Accounted dirs (some pp) s' (unlink ⟨fl, target dirs (some pp) s⟩ x).free
  target_eq : target dirs (some pp) s' = Function.update (target dirs (some pp) s) x none
  quiet : Quiet s s'
  mem_of_ne : ∀ q, q ≠ t → s'.mem q = s.mem q
  pages_of_ne : ∀ q, q ≠ pp → target dirs (some pp) s x ≠ some q → s'.pages q = s.pages q
  entry_of_ne : ∀ q j, (q ≠ t ∨ j ≠ ptx va) → s'.entry q j = s.entry q j

theorem clearLeaf_vacated {p : Nat} {user : pdx va < userPdes}
    (acc : Accounted dirs (some pp) (s.setRef pp ((s.pages pp).ppRef + 1)) fl)
    (ht : target dirs (some pp) s (.table e ⟨pdx va, user⟩) = some t)
    (held : target dirs (some pp) s (leafSlot e va user) = some p)
    (bound : refs (target dirs (some pp) s) p ≤ 65536) :
    Vacated dirs (leafSlot e va user) va t pp s fl
      (clearLeaf (s.setRef pp ((s.pages pp).ppRef + 1)) t (ptx va) p va) := by
  obtain ⟨books, moved⟩ := clearLeaf_books acc ht held bound va
  refine ⟨books, moved, ?_, ?_, ?_, ?_⟩
  · exact quiet_trans (show Quiet s (s.setRef pp ((s.pages pp).ppRef + 1)) from rfl)
      (clearLeaf_quiet _ _ _ _ _)
  · intro q differ
    rw [clearLeaf_mem, Function.update_of_ne differ]
    rfl
  · intro q differ elsewhere
    have other : q ≠ p := fun same => elsewhere (same ▸ held)
    rw [clearLeaf_pages_of_ne other]
    simp [State.setRef, differ]
  · intro q j differ
    rw [clearLeaf_entry_of_ne differ]
    rfl

theorem vacate_spec (acc : Accounted dirs (some pp) (s.setRef pp ((s.pages pp).ppRef + 1)) fl)
    (bound : ∀ q, refs (target dirs (some pp) s) q ≤ 65536) (he : dirs e = some pgdir)
    (user : pdx va < userPdes)
    (ht : target dirs (some pp) s (.table e ⟨pdx va, user⟩) = some t) :
    ∃ s', (if Present (s.entry t (ptx va))
        then pageRemove (s.setRef pp ((s.pages pp).ppRef + 1)) pgdir va
        else .ok (s.setRef pp ((s.pages pp).ppRef + 1))) = .ok s' ∧
      Vacated dirs (leafSlot e va user) va t pp s fl s' := by
  have leaf : target dirs (some pp) s (leafSlot e va user) = entryPage (s.entry t (ptx va)) :=
    leaf_entry ht _
  rcases pageRemove_spec acc he user with ⟨empty, done⟩ | ⟨t', p, ht', held, done⟩
  · have absent : ¬ Present (s.entry t (ptx va)) := entryPage_none.mp (leaf.symm.trans empty)
    have nothing : target dirs (some pp) s (leafSlot e va user) = none := empty
    refine ⟨_, if_neg absent, ?_, ?_, rfl, fun q _ => rfl, ?_, fun q j _ => rfl⟩
    · rw [unlink_empty nothing]
      exact acc
    · rw [← nothing, Function.update_eq_self]
      rfl
    · intro q differ _
      simp [State.setRef, differ]
  · have same : t' = t := Option.some.inj (ht'.symm.trans ht)
    subst same
    have present : Present (s.entry t' (ptx va)) := (entryPage_some.mp (leaf.symm.trans held)).1
    exact ⟨_, (if_pos present).trans done, clearLeaf_vacated acc ht held (bound p)⟩

theorem pageInsert_run {s1 s3 : State}
    (walk : pgdirWalk s pgdir va true = .ok (some ⟨t, ptx va⟩, s1))
    (removed : (if Present (s1.entry t (ptx va))
        then pageRemove (s1.setRef pp ((s1.pages pp).ppRef + 1)) pgdir va
        else .ok (s1.setRef pp ((s1.pages pp).ppRef + 1))) = .ok s3) :
    pageInsert s pgdir pp va perm = .ok (0, mapLeaf s3 pgdir t (pdx va) (ptx va) pp perm) := by
  unfold pageInsert
  rw [walk]
  change (if Present (s1.entry t (ptx va))
    then pageRemove (s1.setRef pp ((s1.pages pp).ppRef + 1)) pgdir va >>= _
    else Except.ok (s1.setRef pp ((s1.pages pp).ppRef + 1)) >>= _) = _
  by_cases present : Present (s1.entry t (ptx va))
  · rw [if_pos present] at removed ⊢
    rw [removed]
    rfl
  · rw [if_neg present] at removed ⊢
    rw [removed]
    rfl

theorem Vacated.without_hand {user : pdx va < userPdes}
    (vacated : Vacated dirs (leafSlot e va user) va t pp s fl s') :
    target dirs none s' = Function.update (target dirs none s) (leafSlot e va user) none := by
  funext x
  by_cases hand : x = .hand
  · subst hand
    rfl
  · rw [target_hand hand dirs none (some pp) s', vacated.target_eq]
    by_cases here : x = leafSlot e va user
    · subst here
      rw [Function.update_self, Function.update_self]
    · rw [Function.update_of_ne here, Function.update_of_ne here]
      exact target_hand hand dirs (some pp) none s

theorem mapLeaf_inserted {s1 s3 : State} {fl1 : List Nat} {user : pdx va < userPdes}
    (acc : Accounted dirs none s fl) (he : dirs e = some pgdir)
    (walked : Walked dirs none e ⟨pdx va, user⟩ pgdir s fl t s1 fl1)
    (vacated : Vacated dirs (leafSlot e va user) va t pp s1 fl1 s3) (room : pp < 1048576)
    (small : perm < 4096) :
    Inserted dirs e ⟨pdx va, user⟩ ⟨ptx va, ptx_lt va⟩ pgdir pp perm s t s1 fl1
      (mapLeaf s3 pgdir t (pdx va) (ptx va) pp perm)
      (unlink ⟨fl1, target dirs (some pp) s1⟩ (leafSlot e va user)).free := by
  have ht : target dirs (some pp) s3 (.table e ⟨pdx va, user⟩) = some t := by
    have table := walked.table acc he
    rw [vacated.target_eq, Function.update_of_ne (by simp)]
    exact table
  have apart : t ≠ pgdir := (Forest.root_ne_table vacated.books.apart he ht).symm
  have vacant : target dirs (some pp) s3 (leafSlot e va user) = none := by
    rw [vacated.target_eq, Function.update_self]
  obtain ⟨steady, moved⟩ := mapLeaf_target vacated.books ⟨ptx va, ptx_lt va⟩ he ht room small
  refine ⟨vacated.books.drop steady vacant moved rfl rfl, ?_, rfl, ?_, ?_, ?_, ?_, ?_, ?_, ?_⟩
  · rw [moved, vacated.without_hand, Function.update_idem, walked.target_eq acc he]
  · exact quiet_trans walked.quiet
      (quiet_trans vacated.quiet (mapLeaf_quiet s3 pgdir t (pdx va) (ptx va) pp perm))
  · intro q table dir
    rw [mapLeaf_mem_of_ne table dir, vacated.mem_of_ne q table]
    exact walked.mem_of_ne table dir
  · intro q differ table elsewhere
    have kept : target dirs (some pp) s1 (leafSlot e va user) ≠ some q := by
      rw [target_hand (by simp) dirs (some pp) none, walked.target_eq acc he,
        Function.update_of_ne (by simp)]
      exact elsewhere
    exact (vacated.pages_of_ne q differ kept).trans (walked.pages_of_ne table)
  · intro j other
    rw [mapLeaf_entry_of_ne (Or.inl apart.symm) (Or.inr other),
      vacated.entry_of_ne _ _ (Or.inl apart.symm)]
    exact walked.dir_of_ne acc he other
  · rw [mapLeaf_dir apart small, vacated.entry_of_ne _ _ (Or.inl apart.symm)]
  · intro j other
    rw [mapLeaf_entry_of_ne (Or.inr other) (Or.inl apart)]
    exact vacated.entry_of_ne _ _ (Or.inr other)
  · exact mapLeaf_leaf apart room small

/-- page_insert fails only for want of a page table, and changes nothing then. -/
theorem pageInsert_spec (acc : Accounted dirs none s fl) (bounded : Bounded dirs none s)
    (he : dirs e = some pgdir) (user : pdx va < userPdes) (managed : Managed s pp)
    (busy : pp ∉ fl) (small : perm < 4096) :
    (target dirs none s (.table e ⟨pdx va, user⟩) = none ∧ fl = [] ∧
      pageInsert s pgdir pp va perm = .ok (-E_NO_MEM, s)) ∨
    ∃ t s1 fl1 s' fl', Walked dirs none e ⟨pdx va, user⟩ pgdir s fl t s1 fl1 ∧
      pageInsert s pgdir pp va perm = .ok (0, s') ∧
      Inserted dirs e ⟨pdx va, user⟩ ⟨ptx va, ptx_lt va⟩ pgdir pp perm s t s1 fl1 s' fl' := by
  rcases pgdirWalk_create acc he user with ⟨empty, full, walk⟩ | ⟨t, s1, fl1, walk, walked⟩
  · left
    refine ⟨empty, full, ?_⟩
    unfold pageInsert
    rw [walk]
    rfl
  · right
    -- pp is counted before anything else: from here to the store it is in hand
    obtain ⟨counted, bound⟩ := counted_books (walked.books acc he) (walked.bounded acc he bounded)
      (walked.managed managed) fun listed => busy (walked.subset listed)
    have table := walked.table acc he
    obtain ⟨s3, removed, vacated⟩ := vacate_spec counted bound he user table
    exact ⟨t, s1, fl1, _, _, walked, pageInsert_run walk removed,
      mapLeaf_inserted acc he walked vacated (managed_room acc managed) small⟩

end Insert

end JosMapping
