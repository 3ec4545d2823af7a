import Jos.SelfChecks
import Jos.Tlb

/- What the operations on pages do while the self-checks have the free list to themselves: a few
   pages, one of which serves as a page table of kern_pgdir, and nothing else moves. -/
namespace JosPageTrials
open JosLayout FrameWords JosMachine JosPmap JosBoot JosAccounting JosPageOps JosMapping JosTlb
open JosPageListCheck JosSelfChecks IntrusiveList CountedLoop

/-- The pages own are set aside, and t is the one that may serve as a page table. -/
structure Stage (s0 : State) (own : List Nat) (t : Nat) : Prop where
  table : t ∈ own
  kern : s0.kernPgdir ∉ own
  inside : ∀ p ∈ own, p < s0.npages
  room : s0.npages ≤ 1048576

/-- What can be seen of the state: the free list fl, the counters, the entries of kern_pgdir and of
    t, and the contents of the other pages. -/
structure Sight (s0 : State) (own : List Nat) (t : Nat) (fl : List Nat) (ref : Nat → UInt16)
    (dir table : Nat → Nat) (data : Nat → Frame) (s : State) : Prop where
  quiet : Quiet s0 s
  list : FreeList s fl
  nodup : fl.Nodup
  plain : ∀ p ∈ own, p ∉ fl → (s.pages p).ppLink = none
  links : ∀ p, p ∉ own → (s.pages p).ppLink = (s0.pages p).ppLink
  refs : ∀ p, (s.pages p).ppRef = ref p
  dir : ∀ i, s.entry s0.kernPgdir i = dir i
  table : ∀ i, s.entry t i = table i
  data : ∀ p, p ≠ s0.kernPgdir → p ≠ t → s.mem p = data p

def released (ref : Nat → UInt16) (fl : List Nat) (p : Nat) : List Nat :=
  if ref p - 1 = 0 then p :: fl else fl

namespace Sight
variable {s0 s : State} {own fl : List Nat} {t p q : Nat} {ref : Nat → UInt16}
  {dir table : Nat → Nat} {data : Nat → Frame}

theorem kernPgdir (v : Sight s0 own t fl ref dir table data s) : s.kernPgdir = s0.kernPgdir :=
  v.quiet.kernPgdir

theorem apart (stage : Stage s0 own t) : s0.kernPgdir ≠ t :=
  fun same => stage.kern (same ▸ stage.table)

theorem inside (stage : Stage s0 own t) (v : Sight s0 own t fl ref dir table data s)
    (mine : p ∈ own) : p < s.npages := by
  rw [v.quiet.npages]
  exact stage.inside p mine

theorem room (stage : Stage s0 own t) (mine : p ∈ own) : p < 1048576 :=
  Nat.lt_of_lt_of_le (stage.inside p mine) stage.room

theorem congr {ref' : Nat → UInt16} {dir' table' : Nat → Nat} {data' : Nat → Frame}
    (v : Sight s0 own t fl ref dir table data s) (href : ref = ref') (hdir : dir = dir')
    (htable : table = table') (hdata : data = data') :
    Sight s0 own t fl ref' dir' table' data' s := by
  subst href hdir htable hdata
  exact v

/-! Elementary changes of the state. -/

theorem setRef (v : Sight s0 own t fl ref dir table data s) (p : Nat) (n : UInt16) :
    Sight s0 own t fl (Function.update ref p n) dir table data (s.setRef p n) := by
  have same : ∀ q, ((s.setRef p n).pages q).ppLink = (s.pages q).ppLink := by
    intro q
    by_cases here : q = p
    · subst here
      simp [State.setRef]
    · simp [State.setRef, here]
  refine ⟨quiet_trans v.quiet rfl, chain_congr v.list fun q _ => same q, v.nodup, ?_, ?_,
    ?_, v.dir, v.table, v.data⟩
  · intro q mine busy
    rw [same]
    exact v.plain q mine busy
  · intro q other
    rw [same]
    exact v.links q other
  · intro q
    by_cases here : q = p
    · subst here
      simp [State.setRef]
    · simp [State.setRef, here, v.refs q]

theorem setTable (stage : Stage s0 own t) (v : Sight s0 own t fl ref dir table data s) (i : Nat)
    {x : Nat} (word : x < WORD) :
    Sight s0 own t fl ref dir (Function.update table i x) data (s.setEntry t i x) := by
  refine ⟨quiet_trans v.quiet rfl, v.list, v.nodup, v.plain, v.links, v.refs, ?_, ?_, ?_⟩
  · intro j
    rw [State.entry_setEntry_of_ne _ _ _ _ (Or.inl (apart stage))]
    exact v.dir j
  · intro j
    by_cases here : j = i
    · subst here
      rw [Function.update_self]
      exact State.entry_setEntry_same _ _ _ _ word
    · rw [Function.update_of_ne here, State.entry_setEntry_of_ne _ _ _ _ (Or.inr here)]
      exact v.table j
  · intro p kern other
    rw [← v.data p kern other]
    simp [State.setEntry, other]

theorem setDir (stage : Stage s0 own t) (v : Sight s0 own t fl ref dir table data s) (i : Nat)
    {x : Nat} (word : x < WORD) :
    Sight s0 own t fl ref (Function.update dir i x) table data (s.setEntry s0.kernPgdir i x) := by
  refine ⟨quiet_trans v.quiet rfl, v.list, v.nodup, v.plain, v.links, v.refs, ?_, ?_, ?_⟩
  · intro j
    by_cases here : j = i
    · subst here
      rw [Function.update_self]
      exact State.entry_setEntry_same _ _ _ _ word
    · rw [Function.update_of_ne here, State.entry_setEntry_of_ne _ _ _ _ (Or.inr here)]
      exact v.dir j
  · intro j
    rw [State.entry_setEntry_of_ne _ _ _ _ (Or.inl (apart stage).symm)]
    exact v.table j
  · intro p kern other
    rw [← v.data p kern other]
    simp [State.setEntry, kern]

theorem setFrame (v : Sight s0 own t fl ref dir table data s) (kern : p ≠ s0.kernPgdir)
    (other : p ≠ t) (f : Frame) :
    Sight s0 own t fl ref dir table (Function.update data p f) (s.setFrame p f) := by
  refine ⟨quiet_trans v.quiet rfl, v.list, v.nodup, v.plain, v.links, v.refs, ?_, ?_, ?_⟩
  · intro j
    rw [← v.dir j]
    simp [State.entry, kern.symm]
  · intro j
    rw [← v.table j]
    simp [State.entry, other.symm]
  · intro q hk ht
    by_cases here : q = p
    · subst here
      simp
    · rw [Function.update_of_ne here, ← v.data q hk ht]
      simp [here]

theorem fillTable (stage : Stage s0 own t) (v : Sight s0 own t fl ref dir table data s) (f : Frame) :
    Sight s0 own t fl ref dir (word f) data (s.setFrame t f) := by
  refine ⟨quiet_trans v.quiet rfl, v.list, v.nodup, v.plain, v.links, v.refs, ?_, ?_, ?_⟩
  · intro j
    rw [← v.dir j]
    simp [State.entry, apart stage]
  · intro j
    simp [State.entry]
  · intro q kern other
    rw [← v.data q kern other]
    simp [other]

theorem free (v : Sight s0 own t fl ref dir table data s) (mine : p ∈ own) (busy : p ∉ fl) :
    Sight s0 own t (p :: fl) ref dir table data (pageFree s p) := by
  have other : ∀ q, q ≠ p → (pageFree s p).pages q = s.pages q := by
    intro q differ
    simp [pageFree, differ]
  refine ⟨quiet_trans v.quiet rfl, ?_, List.nodup_cons.mpr ⟨busy, v.nodup⟩, ?_, ?_, ?_, v.dir,
    v.table, v.data⟩
  · refine chain_congr (chain_push v.list busy) ?_
    intro q _
    by_cases here : q = p
    · subst here
      simp [pageFree]
    · rw [other q here, Function.update_of_ne here]
  · intro q among away
    have differ : q ≠ p := fun same => away (same ▸ List.mem_cons_self)
    rw [other q differ]
    exact v.plain q among fun listed => away (List.mem_cons_of_mem p listed)
  · intro q away
    have differ : q ≠ p := fun same => away (same ▸ mine)
    rw [other q differ]
    exact v.links q away
  · intro q
    rw [← v.refs q]
    by_cases here : q = p
    · subst here
      simp [pageFree]
    · rw [other q here]

theorem take (stage : Stage s0 own t) (v : Sight s0 own t (p :: fl) ref dir table data s)
    (mine : p ∈ own) :
    pageAlloc s false = .ok (some p, takeFree s p false) ∧
      Sight s0 own t fl ref dir table data (takeFree s p false) := by
  obtain ⟨head, tail⟩ := chain_cons_head v.list
  obtain ⟨busy, nodup⟩ := List.nodup_cons.mp v.nodup
  refine ⟨pageAlloc_head head (inside stage v mine) false, quiet_trans v.quiet rfl, ?_, nodup,
    ?_, ?_, ?_, v.dir, v.table, v.data⟩
  · refine chain_congr tail ?_
    intro q listed
    have differ : q ≠ p := fun same => busy (same ▸ listed)
    rw [takeFree_links false differ]
  · intro q among away
    by_cases here : q = p
    · subst here
      simp [takeFree]
    · rw [takeFree_links false here]
      refine v.plain q among fun listed => ?_
      rcases List.mem_cons.mp listed with same | rest
      · exact here same
      · exact away rest
  · intro q away
    have differ : q ≠ p := fun same => away (same ▸ mine)
    rw [takeFree_links false differ]
    exact v.links q away
  · intro q
    rw [takeFree_ref]
    exact v.refs q

theorem hide (v : Sight s0 own t fl ref dir table data s) (others : ∀ p ∈ own, p ∉ fl) :
    Sight s0 own t [] ref dir table data { s with pageFreeList := none } :=
  ⟨quiet_trans v.quiet rfl, .nil, List.nodup_nil, fun p mine _ => v.plain p mine (others p mine),
    v.links, v.refs, v.dir, v.table, v.data⟩

theorem unhide (v : Sight s0 own t [] ref dir table data s) {head : Option Nat} (nodup : fl.Nodup)
    (list : Chain (fun p => (s0.pages p).ppLink) head fl) (others : ∀ p ∈ own, p ∉ fl) :
    Sight s0 own t fl ref dir table data { s with pageFreeList := head } := by
  refine ⟨quiet_trans v.quiet rfl, ?_, nodup, fun p mine _ => v.plain p mine List.not_mem_nil,
    v.links, v.refs, v.dir, v.table, v.data⟩
  refine chain_congr list ?_
  intro p listed
  exact v.links p fun mine => others p mine listed

theorem empty (v : Sight s0 own t [] ref dir table data s) (zero : Bool) :
    pageAlloc s zero = .ok (none, s) := by
  unfold pageAlloc
  rw [chain_nil_head v.list]

/-! Page tables: t is hung into slot d, and page p is mapped in it or taken out. -/

variable {d i va perm : Nat}

theorem hang (stage : Stage s0 own t) (v : Sight s0 own t (t :: fl) ref dir table data s) (d : Nat) :
    Sight s0 own t fl (Function.update ref t (ref t + 1)) (Function.update dir d (tableEntry t))
      (fun _ => 0) data (hangTable s s0.kernPgdir d t) := by
  have small : tableEntry t < WORD := by
    rw [tableEntry_eq]
    exact mapEntry_lt (room stage stage.table) (by decide)
  have taken := (take stage v stage.table).2
  have cleared := (fillTable stage taken zeroFrame).setRef t (((takeFree s t true).pages t).ppRef + 1)
  have hung := setDir stage cleared d small
  have refs : ((takeFree s t true).pages t).ppRef = ref t := by
    rw [takeFree_ref]
    exact v.refs t
  refine congr hung (by rw [refs]) rfl ?_ rfl
  funext i
  exact word_zeroFrame i

theorem unmap (v : Sight s0 own t fl ref dir table data s) (va : Nat) :
    Sight s0 own t fl ref dir table data (tlbInvalidate s va) :=
  ⟨quiet_trans v.quiet rfl, v.list, v.nodup, v.plain, v.links, v.refs, v.dir, v.table, v.data⟩

theorem decref (v : Sight s0 own t fl ref dir table data s) (mine : p ∈ own) (busy : p ∉ fl) :
    Sight s0 own t (released ref fl p) (Function.update ref p (ref p - 1)) dir table data
      (pageDecref s p) := by
  have counted := v.setRef p (ref p - 1)
  unfold released
  by_cases last : ref p - 1 = 0
  · have gone : (s.pages p).ppRef - 1 = 0 := by
      rw [v.refs]
      exact last
    rw [if_pos last, pageDecref_last gone, v.refs]
    exact counted.free mine busy
  · have more : (s.pages p).ppRef - 1 ≠ 0 := by
      rw [v.refs]
      exact last
    rw [if_neg last, pageDecref_more more, v.refs]
    exact counted

theorem clear (stage : Stage s0 own t) (v : Sight s0 own t fl ref dir table data s) (mine : p ∈ own)
    (busy : p ∉ fl) (i va : Nat) :
    Sight s0 own t (released ref fl p) (Function.update ref p (ref p - 1)) dir
      (Function.update table i 0) data (clearLeaf s t i p va) :=
  unmap (setTable stage (decref v mine busy) i (by decide)) va

theorem map (stage : Stage s0 own t) (v : Sight s0 own t fl ref dir table data s) (mine : p ∈ own)
    (small : perm < 4096) (d i : Nat) :
    Sight s0 own t fl ref (Function.update dir d (dir d ||| perm))
      (Function.update table i (mapEntry p perm)) data (mapLeaf s s0.kernPgdir t d i p perm) := by
  have mapped := setTable stage v i (mapEntry_lt (room stage mine) small)
  have same : (s.setEntry t i (mapEntry p perm)).entry s0.kernPgdir d = dir d := mapped.dir d
  have word : dir d ||| perm < WORD := by
    rw [← v.dir d]
    exact (ppn_or_flags (State.entry_lt s s0.kernPgdir d) small).2.2
  have hung := setDir stage mapped d word
  unfold mapLeaf
  dsimp only
  rw [same]
  exact hung

theorem insert_fails (v : Sight s0 own t [] ref dir table data s) (bare : entryPage (dir (pdx va)) = none)
    (p perm : Nat) : pageInsert s s.kernPgdir p va perm = .ok (-E_NO_MEM, s) := by
  have absent : ¬ Present (s.entry s.kernPgdir (pdx va)) := by
    rw [v.kernPgdir, v.dir]
    exact entryPage_none.mp bare
  unfold pageInsert pgdirWalk
  rw [if_neg absent, if_neg (by decide), empty v]
  rfl

variable (stage : Stage s0 own t)
include stage

theorem dirPage (v : Sight s0 own t fl ref dir table data s)
    (there : entryPage (dir (pdx va)) = some t) :
    entryPage (s.entry s.kernPgdir (pdx va)) = some t ∧ t < s.npages := by
  rw [v.kernPgdir, v.dir]
  exact ⟨there, inside stage v stage.table⟩

theorem remove (v : Sight s0 own t fl ref dir table data s)
    (there : entryPage (dir (pdx va)) = some t) (leaf : entryPage (table (ptx va)) = some p)
    (mine : p ∈ own) (busy : p ∉ fl) :
    ∃ s', pageRemove s s.kernPgdir va = .ok s' ∧
      Sight s0 own t (released ref fl p) (Function.update ref p (ref p - 1)) dir
        (Function.update table (ptx va) 0) data s' := by
  obtain ⟨dir_page, within⟩ := dirPage stage v there
  have leaf_page : entryPage (s.entry t (ptx va)) = some p := by
    rw [v.table]
    exact leaf
  exact ⟨_, pageRemove_mapped dir_page within leaf_page (inside stage v mine),
    clear stage v mine busy (ptx va) va⟩

/-- page_insert, where t is the free page that becomes the page table. -/
theorem insert_hangs (v : Sight s0 own t (t :: fl) ref dir table data s)
    (bare : entryPage (dir (pdx va)) = none) (mine : p ∈ own) (other : p ≠ t) (small : perm < 4096) :
    ∃ s', pageInsert s s.kernPgdir p va perm = .ok (0, s') ∧
      Sight s0 own t fl (Function.update (Function.update ref t (ref t + 1)) p (ref p + 1))
        (Function.update dir (pdx va) (tableEntry t ||| perm))
        (Function.update (fun _ => 0) (ptx va) (mapEntry p perm)) data s' := by
  have absent : ¬ Present (s.entry s0.kernPgdir (pdx va)) := by
    rw [v.dir]
    exact entryPage_none.mp bare
  have run := pageInsert_head (chain_cons_head v.list).1 (inside stage v stage.table)
    (room stage stage.table) (apart stage) absent p perm
  rw [v.kernPgdir]
  refine ⟨_, run, ?_⟩
  have hung := hang stage v (pdx va)
  have counted := hung.setRef p (((hangTable s s0.kernPgdir (pdx va) t).pages p).ppRef + 1)
  have mapped := map stage counted mine small (pdx va) (ptx va)
  refine congr mapped ?_ ?_ rfl rfl
  · rw [hung.refs, Function.update_of_ne other]
  · rw [Function.update_self, Function.update_idem]

theorem insert_fresh (v : Sight s0 own t fl ref dir table data s)
    (there : entryPage (dir (pdx va)) = some t) (leaf : entryPage (table (ptx va)) = none)
    (mine : p ∈ own) (small : perm < 4096) :
    ∃ s', pageInsert s s.kernPgdir p va perm = .ok (0, s') ∧
      Sight s0 own t fl (Function.update ref p (ref p + 1))
        (Function.update dir (pdx va) (dir (pdx va) ||| perm))
        (Function.update table (ptx va) (mapEntry p perm)) data s' := by
  obtain ⟨dir_page, within⟩ := dirPage stage v there
  obtain ⟨present, named⟩ := entryPage_some.mp dir_page
  have absent : ¬ Present ((s.setRef p ((s.pages p).ppRef + 1)).entry t (ptx va)) := by
    have same : (s.setRef p ((s.pages p).ppRef + 1)).entry t (ptx va) = table (ptx va) := v.table _
    rw [same]
    exact entryPage_none.mp leaf
  have counted := v.setRef p ((s.pages p).ppRef + 1)
  have mapped := map stage counted mine small (pdx va) (ptx va)
  refine ⟨mapLeaf (s.setRef p ((s.pages p).ppRef + 1)) s0.kernPgdir t (pdx va) (ptx va) p perm, ?_,
    congr mapped (by rw [v.refs]) rfl rfl rfl⟩
  unfold pageInsert
  rw [pgdirWalk_present present (named ▸ within), ok_bind, named]
  dsimp only
  rw [if_neg absent, v.kernPgdir]
  rfl

theorem insert_over (v : Sight s0 own t fl ref dir table data s)
    (there : entryPage (dir (pdx va)) = some t) (leaf : entryPage (table (ptx va)) = some q)
    (mine : p ∈ own) (also : q ∈ own) (busy : q ∉ fl) (small : perm < 4096) :
    ∃ s', pageInsert s s.kernPgdir p va perm = .ok (0, s') ∧
      Sight s0 own t (released (Function.update ref p (ref p + 1)) fl q)
        (Function.update (Function.update ref p (ref p + 1)) q
          (Function.update ref p (ref p + 1) q - 1))
        (Function.update dir (pdx va) (dir (pdx va) ||| perm))
        (Function.update table (ptx va) (mapEntry p perm)) data s' := by
  obtain ⟨dir_page, within⟩ := dirPage stage v there
  obtain ⟨present, named⟩ := entryPage_some.mp dir_page
  have counted : Sight s0 own t fl (Function.update ref p (ref p + 1)) dir table data
      (s.setRef p ((s.pages p).ppRef + 1)) := by
    rw [v.refs]
    exact v.setRef p (ref p + 1)
  have leaf_present : Present ((s.setRef p ((s.pages p).ppRef + 1)).entry t (ptx va)) := by
    rw [counted.table]
    exact (entryPage_some.mp leaf).1
  obtain ⟨s1, removed, cleared⟩ := remove stage counted there leaf also busy
  have mapped := map stage cleared mine small (pdx va) (ptx va)
  refine ⟨mapLeaf s1 s0.kernPgdir t (pdx va) (ptx va) p perm, ?_, ?_⟩
  · unfold pageInsert
    rw [pgdirWalk_present present (named ▸ within), ok_bind, named]
    dsimp only
    rw [if_pos leaf_present]
    have same : (s.setRef p ((s.pages p).ppRef + 1)).kernPgdir = s.kernPgdir := rfl
    rw [same] at removed
    rw [removed, ok_bind, v.kernPgdir]
    rfl
  · exact congr mapped rfl rfl (Function.update_idem _ _ _) rfl

theorem walk (v : Sight s0 own t fl ref dir table data s)
    (there : entryPage (dir (pdx va)) = some t) (create : Bool) :
    pgdirWalk s s.kernPgdir va create = .ok (some ⟨t, ptx va⟩, s) := by
  obtain ⟨dir_page, within⟩ := dirPage stage v there
  obtain ⟨present, named⟩ := entryPage_some.mp dir_page
  rw [pgdirWalk_present present (named ▸ within), named]

theorem walk_hangs (v : Sight s0 own t (t :: fl) ref dir table data s) (va : Nat)
    (bare : entryPage (dir (pdx va)) = none) :
    ∃ s', pgdirWalk s s.kernPgdir va true = .ok (some ⟨t, ptx va⟩, s') ∧
      Sight s0 own t fl (Function.update ref t (ref t + 1))
        (Function.update dir (pdx va) (tableEntry t)) (fun _ => 0) data s' := by
  have absent : ¬ Present (s.entry s.kernPgdir (pdx va)) := by
    rw [v.kernPgdir, v.dir]
    exact entryPage_none.mp bare
  refine ⟨_, pgdirWalk_head (chain_cons_head v.list).1 (inside stage v stage.table)
    (room stage stage.table) absent, ?_⟩
  rw [v.kernPgdir]
  exact hang stage v (pdx va)

/-! What the assertions find. -/

theorem va2pa (v : Sight s0 own t fl ref dir table data s)
    (there : entryPage (dir (pdx va)) = some t) (leaf : entryPage (table (ptx va)) = some p) :
    assertVa2pa s s.kernPgdir va (page2pa p) = .ok () := by
  obtain ⟨dir_page, within⟩ := dirPage stage v there
  obtain ⟨present, named⟩ := entryPage_some.mp dir_page
  obtain ⟨mapped, page⟩ := entryPage_some.mp leaf
  have found : pteAddr (table (ptx va)) = page2pa p := by
    rw [pteAddr_eq, page]
  unfold assertVa2pa checkVa2pa
  dsimp only
  rw [if_neg (not_not.mpr present), kaddr_entry (named ▸ within), ok_bind, named, v.table,
    if_neg (not_not.mpr mapped), ok_bind, found]
  exact assert_pos rfl

theorem va2pa_unmapped (v : Sight s0 own t fl ref dir table data s)
    (there : entryPage (dir (pdx va)) = some t) (leaf : entryPage (table (ptx va)) = none) :
    assertVa2pa s s.kernPgdir va (WORD - 1) = .ok () := by
  obtain ⟨dir_page, within⟩ := dirPage stage v there
  obtain ⟨present, named⟩ := entryPage_some.mp dir_page
  unfold assertVa2pa checkVa2pa
  dsimp only
  rw [if_neg (not_not.mpr present), kaddr_entry (named ▸ within), ok_bind, named, v.table,
    if_pos (entryPage_none.mp leaf), ok_bind]
  exact assert_pos rfl

theorem walked (v : Sight s0 own t fl ref dir table data s)
    (there : entryPage (dir (pdx va)) = some t) : walkedEntry s va = .ok (table (ptx va)) := by
  unfold walkedEntry
  rw [walk stage v there false, ok_bind]
  dsimp only
  rw [v.table]

omit stage in
theorem noPage (v : Sight s0 own t [] ref dir table data s) : noPage s = .ok s := by
  unfold JosSelfChecks.noPage
  rw [empty v, ok_bind]
  dsimp only
  rw [assert_pos rfl]
  rfl

omit stage in
theorem hasRef (v : Sight s0 own t fl ref dir table data s) {n : UInt16} (same : ref p = n) :
    assertRef s p n = .ok () := by
  apply assert_pos
  rw [v.refs]
  exact same

theorem taken (v : Sight s0 own t (p :: fl) ref dir table data s) (mine : p ∈ own) :
    takePage s false = .ok (p, takeFree s p false) := by
  unfold takePage
  rw [(take stage v mine).1]
  rfl

end Sight

end JosPageTrials
