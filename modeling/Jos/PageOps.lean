import Jos.Accounting

/- What page_alloc, page_free, pgdir_walk, page_remove and page_insert do to the books. Each
   returns, and each moves the references its caller expects and no other. -/
namespace JosPageOps
open JosLayout FrameWords JosMachine JosPmap JosAccounting IntrusiveList Ledger TableForest
open CountedLoop

section Entries

theorem entryPage_some {x p : Nat} : entryPage x = some p ↔ Present x ∧ ppn x = p := by
  unfold entryPage
  by_cases present : Present x
  · rw [if_pos present]
    constructor
    · intro same
      cases same
      exact ⟨present, rfl⟩
    · intro both
      rw [both.2]
  · rw [if_neg present]
    constructor
    · intro same
      cases same
    · intro both
      exact absurd both.1 present

theorem entryPage_none {x : Nat} : entryPage x = none ↔ ¬ Present x := by
  unfold entryPage
  by_cases present : Present x
  · rw [if_pos present]
    constructor
    · intro same
      cases same
    · intro absent
      exact absurd present absent
  · rw [if_neg present]
    exact ⟨fun _ => present, fun _ => rfl⟩

/-- page2pa(pp) | perm | PTE_P -/
def mapEntry (pp perm : Nat) : Nat := page2pa pp ||| perm ||| PTE_P

def tableEntry (t : Nat) : Nat := page2pa t ||| PTE_U ||| PTE_W ||| PTE_P

variable {pp perm : Nat}

theorem mapEntry_eq (pp perm : Nat) : mapEntry pp perm = pp * 4096 ||| (perm ||| PTE_P) := by
  unfold mapEntry page2pa
  rw [Nat.or_assoc]

theorem tableEntry_eq (t : Nat) : tableEntry t = mapEntry t (PTE_U ||| PTE_W) := by
  unfold tableEntry mapEntry
  rw [Nat.or_assoc (page2pa t)]

theorem flags_small (small : perm < 4096) : perm ||| PTE_P < 4096 := or_lt_page small (by decide)

theorem mapEntry_lt (room : pp < 1048576) (small : perm < 4096) : mapEntry pp perm < WORD := by
  rw [mapEntry_eq]
  exact JosLayout.entry_lt room (flags_small small)

theorem ppn_mapEntry (room : pp < 1048576) (small : perm < 4096) : ppn (mapEntry pp perm) = pp := by
  rw [mapEntry_eq]
  exact ppn_entry room (flags_small small)

theorem present_mapEntry (small : perm < 4096) : Present (mapEntry pp perm) := by
  rw [mapEntry_eq]
  exact present_entry (flags_small small) (or_one_odd perm)

theorem entryPage_mapEntry (room : pp < 1048576) (small : perm < 4096) :
    entryPage (mapEntry pp perm) = some pp :=
  entryPage_some.mpr ⟨present_mapEntry small, ppn_mapEntry room small⟩

theorem mapEntry_and (small : perm < 4096) {f : Nat} (flag : f < 4096) :
    mapEntry pp perm &&& f = (perm ||| PTE_P) &&& f := by
  rw [mapEntry_eq]
  exact and_entry (flags_small small) flag

theorem tableEntry_user (t : Nat) : UserBit (tableEntry t) := by
  unfold UserBit
  rw [tableEntry_eq, mapEntry_and (by decide) (by decide)]
  decide

theorem tableEntry_writable (t : Nat) : Writable (tableEntry t) := by
  unfold Writable
  rw [tableEntry_eq, mapEntry_and (by decide) (by decide)]
  decide

theorem entryPage_zero : entryPage 0 = none := entryPage_none.mpr (by decide)

theorem entryPage_or {x p : Nat} (word : x < WORD) (small : perm < 4096)
    (named : entryPage x = some p) : entryPage (x ||| perm) = some p := by
  obtain ⟨present, same⟩ := entryPage_some.mp named
  obtain ⟨kept, still, _⟩ := ppn_or_flags word small
  exact entryPage_some.mpr ⟨still present, kept.trans same⟩

end Entries

section Targets
variable {dirs : Dirs} {hand : Option Nat} {s s' : State} {fl : List Nat} {p : Nat}

/-- The directories and page tables of environments. -/
def TreePage (dirs : Dirs) (s : State) (p : Nat) : Prop :=
  (∃ e, dirs e = some p) ∨ ∃ e d, target dirs none s (.table e d) = some p

theorem root_managed (acc : Accounted dirs hand s fl) {e : Fin NENV} (he : dirs e = some p) :
    Managed s p := acc.targets (.root e) p he

theorem managed_ne_kern (acc : Accounted dirs hand s fl) (managed : Managed s p) :
    p ≠ s.kernPgdir := fun same => acc.kernApart (same ▸ managed)

theorem managed_room (acc : Accounted dirs hand s fl) (managed : Managed s p) : p < 1048576 :=
  Nat.lt_of_lt_of_le managed.1 acc.room

theorem target_hand {x : PageSlot} (other : x ≠ .hand) (dirs : Dirs) (hand hand' : Option Nat)
    (s : State) : target dirs hand s x = target dirs hand' s x := by
  cases x with
  | hand => exact absurd rfl other
  | root e => rfl
  | table e d => rfl
  | leaf e d i => rfl
  | fixed k => rfl

theorem target_entries (kern : s'.kernPgdir = s.kernPgdir)
    (kernel : ∀ i, i < 1024 →
      entryPage (s'.entry s.kernPgdir i) = entryPage (s.entry s.kernPgdir i))
    (tree : ∀ q, TreePage dirs s q →
      ∀ i, i < 1024 → entryPage (s'.entry q i) = entryPage (s.entry q i)) :
    target dirs hand s' = target dirs hand s := by
  refine Forest.target_congr rfl ?_ rfl ?_ ?_
  · funext k
    simp only [forest, kern]
    rw [kernel k k.isLt]
  · intro e q he d
    have bound : d.val < 1024 := Nat.lt_trans d.isLt (by decide)
    exact tree q (Or.inl ⟨e, he⟩) d bound
  · intro e d t ht i
    exact tree t (Or.inr ⟨e, d, ht⟩) i i.isLt

theorem target_plain (plain : ¬ TreePage dirs s p)
    (kernel : p ≠ s.kernPgdir) (kern : s'.kernPgdir = s.kernPgdir)
    (others : ∀ q, q ≠ p → s'.mem q = s.mem q) : target dirs hand s' = target dirs hand s := by
  refine target_entries kern ?_ ?_
  · intro i _
    unfold State.entry
    rw [others _ kernel.symm]
  · intro q tree i _
    have differ : q ≠ p := fun same => plain (same ▸ tree)
    unfold State.entry
    rw [others q differ]

theorem steady_elsewhere (kernel : p ≠ s.kernPgdir) (npages : s'.npages = s.npages)
    (nextfree : s'.nextfree = s.nextfree) (kern : s'.kernPgdir = s.kernPgdir)
    (others : ∀ q, q ≠ p → s'.mem q = s.mem q) : Steady s s' := by
  refine ⟨npages, nextfree, kern, ?_⟩
  intro d _
  unfold State.entry
  rw [others _ kernel.symm]

theorem unused_plain (unused : (forest dirs hand s).Unused p) : ¬ TreePage dirs s p := by
  intro tree
  rcases tree with ⟨e, held⟩ | ⟨e, d, held⟩
  · exact unused (.root e) held
  · exact unused (.table e d) held

theorem table_entry {e : Fin NENV} {d : Fin userPdes} {pgdir t : Nat} (he : dirs e = some pgdir) :
    target dirs hand s (.table e d) = some t ↔
      Present (s.entry pgdir d) ∧ ppn (s.entry pgdir d) = t := by
  change (dirs e).bind _ = some t ↔ _
  rw [he]
  exact entryPage_some

theorem table_absent {e : Fin NENV} {d : Fin userPdes} {pgdir : Nat} (he : dirs e = some pgdir) :
    target dirs hand s (.table e d) = none ↔ ¬ Present (s.entry pgdir d) := by
  change (dirs e).bind _ = none ↔ _
  rw [he]
  exact entryPage_none

theorem leaf_entry {e : Fin NENV} {d : Fin userPdes} {t : Nat}
    (ht : target dirs hand s (.table e d) = some t) (i : Fin NPTENTRIES) :
    target dirs hand s (.leaf e d i) = entryPage (s.entry t i) := by
  change ((forest dirs hand s).table e d).bind _ = _
  rw [show (forest dirs hand s).table e d = some t from ht]
  rfl

theorem leaf_without_table {e : Fin NENV} {d : Fin userPdes}
    (ht : target dirs hand s (.table e d) = none) (i : Fin NPTENTRIES) :
    target dirs hand s (.leaf e d i) = none := by
  change ((forest dirs hand s).table e d).bind _ = _
  rw [show (forest dirs hand s).table e d = none from ht]
  rfl

/-- What the books are about is the same in both states. -/
structure SamePages (s s' : State) : Prop where
  mem : s'.mem = s.mem
  pages : s'.pages = s.pages
  list : s'.pageFreeList = s.pageFreeList
  npages : s'.npages = s.npages
  nextfree : s'.nextfree = s.nextfree
  kernPgdir : s'.kernPgdir = s.kernPgdir

theorem SamePages.entry (same : SamePages s s') (q i : Nat) : s'.entry q i = s.entry q i := by
  unfold State.entry
  rw [same.mem]

theorem SamePages.target (same : SamePages s s') : target dirs hand s' = target dirs hand s :=
  target_entries same.kernPgdir (fun i _ => by rw [same.entry]) fun q _ i _ => by rw [same.entry]

theorem SamePages.books (same : SamePages s s') (acc : Accounted dirs hand s fl) :
    Accounted dirs hand s' fl :=
  acc.keep ⟨same.npages, same.nextfree, same.kernPgdir, fun j _ => by rw [same.entry]⟩
    same.target same.pages same.list

end Targets

section Alloc
variable {dirs : Dirs} {hand : Option Nat} {s : State} {rest : List Nat} {p : Nat}

/-- The state after page_alloc has taken p. -/
def takeFree (s : State) (p : Nat) (zero : Bool) : State :=
  let s := { s with pageFreeList := (s.pages p).ppLink }
  let s := s.setInfo p { s.pages p with ppLink := none }
  if zero then s.setFrame p zeroFrame else s

theorem takeFree_quiet (s : State) (p : Nat) (zero : Bool) : Quiet s (takeFree s p zero) := by
  cases zero <;> rfl

theorem takeFree_mem (s : State) (p : Nat) (zero : Bool) :
    (takeFree s p zero).mem = if zero then Function.update s.mem p zeroFrame else s.mem := by
  cases zero <;> rfl

theorem takeFree_mem_of_ne {s : State} {p q : Nat} (zero : Bool) (differ : q ≠ p) :
    (takeFree s p zero).mem q = s.mem q := by
  rw [takeFree_mem]
  split
  · rw [Function.update_of_ne differ]
  · rfl

theorem takeFree_ref (s : State) (p : Nat) (zero : Bool) (q : Nat) :
    ((takeFree s p zero).pages q).ppRef = (s.pages q).ppRef := by
  by_cases same : q = p
  · subst same
    cases zero <;> simp [takeFree]
  · cases zero <;> simp [takeFree, same]

theorem takeFree_links {s : State} {p q : Nat} (zero : Bool) (differ : q ≠ p) :
    (takeFree s p zero).pages q = s.pages q := by
  cases zero <;> simp [takeFree, differ]

theorem pageAlloc_empty (acc : Accounted dirs hand s []) (zero : Bool) :
    pageAlloc s zero = .ok (none, s) := by
  have head := chain_nil_head acc.list
  unfold pageAlloc
  rw [head]

theorem pageAlloc_head (head : s.pageFreeList = some p) (inside : p < s.npages) (zero : Bool) :
    pageAlloc s zero = .ok (some p, takeFree s p zero) := by
  unfold pageAlloc
  rw [head]
  cases zero with
  | false => rfl
  | true =>
    simp only [if_true]
    rw [page2kva_ok (by exact inside)]
    rfl

theorem pageAlloc_take (acc : Accounted dirs hand s (p :: rest)) (zero : Bool) :
    pageAlloc s zero = .ok (some p, takeFree s p zero) :=
  pageAlloc_head (chain_cons_head acc.list).1 (acc.managed p (by simp)).1 zero

theorem takeFree_target (acc : Accounted dirs hand s (p :: rest)) (zero : Bool) :
    target dirs hand (takeFree s p zero) = target dirs hand s := by
  have managed := acc.managed p (by simp)
  refine target_plain (unused_plain (acc.unused p (by simp))) (managed_ne_kern acc managed)
    (takeFree_quiet s p zero).kernPgdir ?_
  intro q differ
  exact takeFree_mem_of_ne zero differ

theorem takeFree_books (acc : Accounted dirs hand s (p :: rest)) (zero : Bool) :
    Accounted dirs hand (takeFree s p zero) rest := by
  obtain ⟨_, tail⟩ := chain_cons_head acc.list
  obtain ⟨fresh, nodup⟩ := List.nodup_cons.mp acc.nodup
  have quiet := takeFree_quiet s p zero
  have same := takeFree_target acc zero
  have steady : Steady s (takeFree s p zero) :=
    steady_elsewhere (managed_ne_kern acc (acc.managed p (by simp))) quiet.npages quiet.nextfree
      quiet.kernPgdir fun q differ => takeFree_mem_of_ne zero differ
  obtain ⟨low, kern, room⟩ := steady_parts acc steady
  refine ⟨?_, nodup, ?_, ?_, ?_, ?_, ?_, low, kern, room⟩
  · have head : (takeFree s p zero).pageFreeList = (s.pages p).ppLink := by
      cases zero <;> rfl
    unfold FreeList
    rw [head]
    refine chain_congr tail ?_
    intro q listed
    have differ : q ≠ p := fun eq => fresh (eq ▸ listed)
    rw [takeFree_links zero differ]
  · intro q listed
    exact (managed_steady steady q).mpr (acc.managed q (by simp [listed]))
  · intro q listed x
    change target dirs hand (takeFree s p zero) x ≠ some q
    rw [same]
    exact acc.unused q (by simp [listed]) x
  · intro q managed
    rw [takeFree_ref, same]
    exact acc.counts q ((managed_steady steady q).mp managed)
  · intro x q held
    rw [same] at held
    exact (managed_steady steady q).mpr (acc.targets x q held)
  · intro x y q sx sy hx hy
    change target dirs hand (takeFree s p zero) x = some q at hx
    change target dirs hand (takeFree s p zero) y = some q at hy
    rw [same] at hx hy
    exact acc.apart x y q sx sy hx hy

/-- page_free, by the holder of a page that is neither free nor referred to. -/
theorem pageFree_books {fl : List Nat} (acc : Accounted dirs hand s fl) (managed : Managed s p)
    (busy : p ∉ fl) (unused : (forest dirs hand s).Unused p) :
    Accounted dirs hand (pageFree s p) (p :: fl) := by
  have steady : Steady s (pageFree s p) := ⟨rfl, rfl, rfl, fun _ _ => rfl⟩
  refine ⟨?_, List.nodup_cons.mpr ⟨busy, acc.nodup⟩, ?_, ?_, ?_, acc.targets, acc.apart,
    acc.kernEmpty, acc.kernApart, acc.room⟩
  · have pushed := chain_push acc.list busy
    have head : (pageFree s p).pageFreeList = some p := rfl
    unfold FreeList
    rw [head]
    refine chain_congr pushed ?_
    intro q _
    by_cases same : q = p
    · subst same
      simp [pageFree]
    · simp [pageFree, same]
  · intro q listed
    rcases List.mem_cons.mp listed with same | old
    · subst same
      exact managed
    · exact acc.managed q old
  · intro q listed
    rcases List.mem_cons.mp listed with same | old
    · subst same
      exact unused
    · exact acc.unused q old
  · intro q managed_q
    have before := acc.counts q managed_q
    change _ = UInt16.ofNat (refs (target dirs hand s) q)
    rw [← before]
    by_cases same : q = p
    · subst same
      simp [pageFree]
    · simp [pageFree, same]

end Alloc

end JosPageOps
