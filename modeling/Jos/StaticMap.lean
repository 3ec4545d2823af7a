import Jos.BootPages
import Jos.Mapping

/- boot_map_region on kern_pgdir: the page tables above UTOP, and what their entries are once
   mem_init is done. -/
namespace JosStaticMap
open JosLayout FrameWords JosMachine JosPmap JosMmu JosBoot JosAccounting JosPageOps JosMapping
open JosBootPages IntrusiveList Ledger TableForest CountedLoop

/-- The slots of kern_pgdir that boot_map_region fills: from UTOP on, without the one at UVPT. -/
def StaticPde (d : Nat) : Prop := userPdes ≤ d ∧ d < NPDENTRIES ∧ d ≠ uvptPde

def kernPte (s : State) (va : Nat) : Nat :=
  if Present (s.entry s.kernPgdir (pdx va))
  then s.entry (ppn (s.entry s.kernPgdir (pdx va))) (ptx va) else 0

def tablesUsed (s : State) : Nat := (forest (fun _ => none) none s).fixedUsed

section Fixed
variable {dirs : Dirs} {hand : Option Nat} {s : State} {fl rest : List Nat} {d t : Nat}

theorem fixed_entry (static : StaticPde d) :
    target dirs hand s (.fixed ⟨d, static.2.1⟩) = entryPage (s.entry s.kernPgdir d) := by
  change (if userPdes ≤ d ∧ d ≠ uvptPde then entryPage (s.entry s.kernPgdir d) else none) = _
  rw [if_pos ⟨static.1, static.2.2⟩]

theorem hangTable_kern_dir (kernel : t ≠ s.kernPgdir) {j : Nat} (other : j ≠ d) :
    (hangTable s s.kernPgdir d t).entry s.kernPgdir j = s.entry s.kernPgdir j :=
  hangTable_dir_of_ne kernel.symm other

theorem hangTable_fixed (dirs : Dirs) (hand : Option Nat) (kernel : t ≠ s.kernPgdir) (room : t < 1048576) (static : StaticPde d) :
    (forest dirs hand (hangTable s s.kernPgdir d t)).fixed =
      Function.update (forest dirs hand s).fixed ⟨d, static.2.1⟩ (some t) := by
  funext k
  by_cases here : k = ⟨d, static.2.1⟩
  · subst here
    have placed : (hangTable s s.kernPgdir d t).entry s.kernPgdir d = tableEntry t :=
      hangTable_dir room
    rw [Function.update_self]
    simp only [forest, (hangTable_quiet s s.kernPgdir d t).kernPgdir]
    rw [if_pos ⟨static.1, static.2.2⟩, placed, tableEntry_eq]
    exact entryPage_mapEntry room (by decide)
  · have other : k.val ≠ d := fun same => here (Fin.ext same)
    rw [Function.update_of_ne here]
    simp only [forest, (hangTable_quiet s s.kernPgdir d t).kernPgdir]
    rw [hangTable_kern_dir kernel other]

theorem hangTable_kern (acc : Accounted dirs hand s (t :: rest)) (static : StaticPde d)
    (empty : ¬ Present (s.entry s.kernPgdir d)) :
    Accounted dirs hand (hangTable s s.kernPgdir d t) rest := by
  have managed := acc.managed t (by simp)
  have room := managed_room acc managed
  have table_kern : t ≠ s.kernPgdir := managed_ne_kern acc managed
  have taken := takeFree_books acc true
  have taken_target := takeFree_target acc true
  have still_vacant : target dirs hand (takeFree s t true) (.fixed ⟨d, static.2.1⟩) = none := by
    rw [taken_target, fixed_entry static]
    exact entryPage_none.mpr empty
  have still_unused : (forest dirs hand (takeFree s t true)).Unused t := by
    intro x
    change target dirs hand (takeFree s t true) x ≠ some t
    rw [taken_target]
    exact acc.unused t (by simp) x
  have tree : ∀ q, q ≠ t → q ≠ s.kernPgdir → ∀ j,
      (hangTable s s.kernPgdir d t).entry q j = (takeFree s t true).entry q j := by
    intro q table kernel j
    simp only [State.entry]
    rw [hangTable_mem_of_ne table kernel, takeFree_mem_of_ne true table]
  have moved : target dirs hand (hangTable s s.kernPgdir d t) =
      Function.update (target dirs hand (takeFree s t true)) (.fixed ⟨d, static.2.1⟩) (some t) := by
    refine Forest.target_setFixed still_unused rfl ?_ rfl ?_ ?_
    · rw [hangTable_fixed dirs hand table_kern room static]
      congr 1
      funext k
      have same := congrFun taken_target (.fixed k)
      exact same.symm
    · intro e p he differ j
      have kernel : p ≠ s.kernPgdir := managed_ne_kern acc (root_managed acc he)
      exact congrArg entryPage (tree p differ kernel j)
    · intro e j p hp differ i
      have kernel : p ≠ s.kernPgdir := by
        rw [← (takeFree_quiet s t true).kernPgdir]
        exact managed_ne_kern taken (taken.targets (.table e j) p hp)
      exact congrArg entryPage (tree p differ kernel i)
  have steady : Steady (takeFree s t true) (hangTable s s.kernPgdir d t) := by
    refine ⟨rfl, rfl, rfl, ?_⟩
    intro j low
    have other : j ≠ d := fun same => absurd static.1 (by omega)
    rw [(takeFree_quiet s t true).kernPgdir, hangTable_kern_dir table_kern other]
    simp [State.entry, takeFree, table_kern.symm]
  exact taken.link steady still_vacant ⟨managed.1, managed.2⟩ (List.nodup_cons.mp acc.nodup).1
    (fun _ => still_unused) moved rfl rfl

end Fixed

/-- In the middle of the static mappings: kern_pgdir's entries are those of pte, its page tables
    grant everything, and every page table came off the free list. -/
structure KernMapped (dirs : Dirs) (s0 : State) (fl0 : List Nat) (s : State) (fl : List Nat)
    (pte : Nat → Nat) : Prop where
  books : Accounted dirs none s fl
  quiet : Quiet s0 s
  pte_eq : ∀ va, StaticPde (pdx va) → kernPte s va = pte va
  grants : ∀ d, StaticPde d → Present (s.entry s.kernPgdir d) →
    UserBit (s.entry s.kernPgdir d) ∧ Writable (s.entry s.kernPgdir d)
  uvpt : s.entry s.kernPgdir uvptPde = s0.entry s0.kernPgdir uvptPde
  budget : fl0.length + tablesUsed s0 = fl.length + tablesUsed s
  subset : fl ⊆ fl0

section Steps
variable {dirs : Dirs} {s0 s : State} {fl0 fl rest : List Nat} {pte : Nat → Nat} {d t va : Nat}

theorem KernMapped.hang (km : KernMapped dirs s0 fl0 s (t :: rest) pte) (static : StaticPde d)
    (empty : ¬ Present (s.entry s.kernPgdir d)) :
    KernMapped dirs s0 fl0 (hangTable s s.kernPgdir d t) rest pte := by
  have managed := km.books.managed t (by simp)
  have room := managed_room km.books managed
  have kernel : t ≠ s.kernPgdir := managed_ne_kern km.books managed
  have placed : (hangTable s s.kernPgdir d t).entry s.kernPgdir d = tableEntry t :=
    hangTable_dir room
  have named : ppn (tableEntry t) = t := by
    rw [tableEntry_eq]
    exact ppn_mapEntry room (by decide)
  have same_kern : (hangTable s s.kernPgdir d t).kernPgdir = s.kernPgdir := rfl
  refine ⟨hangTable_kern km.books static empty, quiet_trans km.quiet (hangTable_quiet _ _ _ _),
    ?_, ?_, ?_, ?_, ?_⟩
  · intro va within
    rw [← km.pte_eq va within]
    unfold kernPte
    rw [same_kern]
    by_cases here : pdx va = d
    · have present : Present (tableEntry t) := by
        rw [tableEntry_eq]
        exact present_mapEntry (by decide)
      rw [here, placed, if_pos present, if_neg empty, named, hangTable_table kernel.symm]
    · rw [hangTable_kern_dir kernel here]
      by_cases there : Present (s.entry s.kernPgdir (pdx va))
      · rw [if_pos there, if_pos there]
        have held : target dirs none s (.fixed ⟨pdx va, within.2.1⟩) =
            some (ppn (s.entry s.kernPgdir (pdx va))) := by
          rw [fixed_entry within]
          exact entryPage_some.mpr ⟨there, rfl⟩
        have table : ppn (s.entry s.kernPgdir (pdx va)) ≠ t := by
          intro same
          rw [same] at held
          exact km.books.unused t (by simp) _ held
        have other : ppn (s.entry s.kernPgdir (pdx va)) ≠ s.kernPgdir :=
          managed_ne_kern km.books (km.books.targets _ _ held)
        exact hangTable_entry_of_ne table (Or.inl other)
      · rw [if_neg there, if_neg there]
  · intro j within present
    rw [same_kern] at present ⊢
    by_cases here : j = d
    · subst here
      rw [placed]
      exact ⟨tableEntry_user t, tableEntry_writable t⟩
    · rw [hangTable_kern_dir kernel here] at present ⊢
      exact km.grants j within present
  · rw [same_kern, hangTable_kern_dir kernel (Ne.symm static.2.2)]
    exact km.uvpt
  · have vacant : (forest (fun _ => none) none s).fixed ⟨d, static.2.1⟩ = none := by
      have absent : entryPage (s.entry s.kernPgdir d) = none := entryPage_none.mpr empty
      exact (fixed_entry static).trans absent
    have grown : (forest (fun _ => none) none (hangTable s s.kernPgdir d t)).fixed =
        Function.update (forest (fun _ => none) none s).fixed ⟨d, static.2.1⟩ (some t) :=
      hangTable_fixed (fun _ => none) none kernel room static
    have one_more := Forest.fixedUsed_point vacant grown
    have before := km.budget
    simp only [List.length_cons] at before
    unfold tablesUsed at before ⊢
    omega
  · intro q listed
    exact km.subset (by simp [listed])

def setPte (pte : Nat → Nat) (va v : Nat) : Nat → Nat :=
  fun va' => if pdx va' = pdx va ∧ ptx va' = ptx va then v else pte va'

theorem KernMapped.store (km : KernMapped dirs s0 fl0 s fl pte) (static : StaticPde (pdx va))
    (ht : target dirs none s (.fixed ⟨pdx va, static.2.1⟩) = some t) {v : Nat} (word : v < WORD) :
    KernMapped dirs s0 fl0 (s.setEntry t (ptx va) v) fl (setPte pte va v) := by
  have kernel : t ≠ s.kernPgdir := managed_ne_kern km.books (km.books.targets _ t ht)
  have same_kern : (s.setEntry t (ptx va) v).kernPgdir = s.kernPgdir := rfl
  have dir : ∀ j, (s.setEntry t (ptx va) v).entry s.kernPgdir j = s.entry s.kernPgdir j := by
    intro j
    exact State.entry_setEntry_of_ne _ _ _ _ (Or.inl kernel.symm)
  have plain : ¬ TreePage dirs s t := by
    intro tree
    rcases tree with ⟨e, he⟩ | ⟨e, d, hd⟩
    · have slots := km.books.apart (.root e) (.fixed _) t trivial trivial he ht
      cases slots
    · have slots := km.books.apart (.table e d) (.fixed _) t trivial trivial hd ht
      cases slots
  have mem : ∀ q, q ≠ t → (s.setEntry t (ptx va) v).mem q = s.mem q := by
    intro q differ
    simp [State.setEntry, differ]
  have same_target : target dirs none (s.setEntry t (ptx va) v) = target dirs none s :=
    target_plain plain kernel rfl mem
  have steady : Steady s (s.setEntry t (ptx va) v) :=
    ⟨rfl, rfl, rfl, fun j _ => by rw [dir]⟩
  refine ⟨km.books.keep steady same_target rfl rfl, quiet_trans km.quiet rfl, ?_, ?_, ?_, ?_,
    km.subset⟩
  · intro va' within
    unfold kernPte setPte
    rw [same_kern, dir]
    obtain ⟨present, named⟩ := entryPage_some.mp ((fixed_entry static).symm.trans ht)
    by_cases here : pdx va' = pdx va
    · rw [here, if_pos present, named]
      by_cases slot : ptx va' = ptx va
      · rw [slot, State.entry_setEntry_same _ _ _ _ word, if_pos ⟨rfl, rfl⟩]
      · have elsewhere : ¬ (pdx va = pdx va ∧ ptx va' = ptx va) := fun both => slot both.2
        rw [State.entry_setEntry_of_ne _ _ _ _ (Or.inr slot), if_neg elsewhere,
          ← km.pte_eq va' within]
        unfold kernPte
        rw [here, if_pos present, named]
    · have elsewhere : ¬ (pdx va' = pdx va ∧ ptx va' = ptx va) := fun both => here both.1
      rw [if_neg elsewhere, ← km.pte_eq va' within]
      unfold kernPte
      by_cases there : Present (s.entry s.kernPgdir (pdx va'))
      · rw [if_pos there, if_pos there]
        have held : target dirs none s (.fixed ⟨pdx va', within.2.1⟩) =
            some (ppn (s.entry s.kernPgdir (pdx va'))) := by
          rw [fixed_entry within]
          exact entryPage_some.mpr ⟨there, rfl⟩
        have table : ppn (s.entry s.kernPgdir (pdx va')) ≠ t := by
          intro same
          rw [same] at held
          have slots := km.books.apart (.fixed _) (.fixed _) t trivial trivial held ht
          simp only [Slot.fixed.injEq, Fin.mk.injEq] at slots
          exact here slots
        exact State.entry_setEntry_of_ne _ _ _ _ (Or.inl table)
      · rw [if_neg there, if_neg there]
  · intro j within present
    rw [same_kern, dir] at present ⊢
    exact km.grants j within present
  · rw [same_kern, dir]
    exact km.uvpt
  · have same_used : tablesUsed (s.setEntry t (ptx va) v) = tablesUsed s := by
      have same_fixed : (forest (fun _ => none) none (s.setEntry t (ptx va) v)).fixed =
          (forest (fun _ => none) none s).fixed := by
        funext k
        simp only [forest]
        rw [same_kern, dir]
      unfold tablesUsed Forest.fixedUsed
      rw [same_fixed]
    rw [same_used]
    exact km.budget

theorem or_perm_lt {a perm : Nat} (word : a < WORD) (small : perm < 4096) :
    a ||| perm ||| PTE_P < WORD := by
  have first := (ppn_or_flags word small).2.2
  exact (ppn_or_flags first (by decide)).2.2

/-- One round of boot_map_region maps one page, or panics because no page is left for a table. -/
theorem bootMapStep_spec (km : KernMapped dirs s0 fl0 s fl pte) {pa perm i : Nat}
    (static : StaticPde (pdx ((va + i) % WORD))) (small : perm < 4096) :
    (fl = [] ∧ bootMapStep s.kernPgdir va pa perm s i = .error .mappingFailed) ∨
    ∃ s' fl', bootMapStep s.kernPgdir va pa perm s i = .ok s' ∧
      KernMapped dirs s0 fl0 s' fl'
        (setPte pte ((va + i) % WORD) ((pa + i) % WORD ||| perm ||| PTE_P)) := by
  have word : (pa + i) % WORD ||| perm ||| PTE_P < WORD :=
    or_perm_lt (Nat.mod_lt _ (by decide)) small
  unfold bootMapStep
  by_cases present : Present (s.entry s.kernPgdir (pdx ((va + i) % WORD)))
  · right
    have ht : target dirs none s (.fixed ⟨pdx ((va + i) % WORD), static.2.1⟩) =
        some (ppn (s.entry s.kernPgdir (pdx ((va + i) % WORD)))) := by
      rw [fixed_entry static]
      exact entryPage_some.mpr ⟨present, rfl⟩
    rw [pgdirWalk_present present (km.books.targets _ _ ht).1, ok_bind]
    exact ⟨_, fl, rfl, km.store static ht word⟩
  · cases fl with
    | nil =>
      left
      rw [pgdirWalk_full km.books present]
      exact ⟨rfl, rfl⟩
    | cons t rest =>
      right
      have hung := km.hang static present
      have kernel : t ≠ s.kernPgdir :=
        managed_ne_kern km.books (km.books.managed t (by simp))
      have room := managed_room km.books (km.books.managed t (by simp))
      have ht : target dirs none (hangTable s s.kernPgdir (pdx ((va + i) % WORD)) t)
          (.fixed ⟨pdx ((va + i) % WORD), static.2.1⟩) = some t := by
        have grown := congrFun (hangTable_fixed dirs none kernel room static)
          ⟨pdx ((va + i) % WORD), static.2.1⟩
        rw [Function.update_self] at grown
        exact grown
      rw [pgdirWalk_hang km.books present, ok_bind]
      exact ⟨_, rest, rfl, hung.store static ht word⟩

end Steps

section Regions
variable {dirs : Dirs} {s0 s s' : State} {fl0 fl : List Nat} {pte : Nat → Nat}
  {va size pa perm n : Nat}

def regionPte (pte : Nat → Nat) (va pa perm n : Nat) : Nat → Nat :=
  fun va' =>
    if va / PGSIZE ≤ va' % WORD / PGSIZE ∧ va' % WORD / PGSIZE < va / PGSIZE + n
    then (pa + (va' % WORD / PGSIZE - va / PGSIZE) * PGSIZE) % WORD ||| perm ||| PTE_P
    else pte va'

theorem same_page {a b : Nat} :
    pdx a = pdx b ∧ ptx a = ptx b ↔ a % WORD / PGSIZE = b % WORD / PGSIZE := by
  simp only [pdx_eq, ptx_eq, WORD, PGSIZE]
  omega

theorem regionPte_next (aligned : va % PGSIZE = 0) (bound : va + n * PGSIZE + PGSIZE ≤ WORD) :
    setPte (regionPte pte va pa perm n) ((va + n * PGSIZE) % WORD)
        ((pa + n * PGSIZE) % WORD ||| perm ||| PTE_P) = regionPte pte va pa perm (n + 1) := by
  funext va'
  have place : (va + n * PGSIZE) % WORD % WORD / PGSIZE = va / PGSIZE + n := by
    simp only [WORD, PGSIZE] at *
    omega
  unfold setPte
  simp only [same_page, place]
  unfold regionPte
  by_cases here : va' % WORD / PGSIZE = va / PGSIZE + n
  · have inside : va / PGSIZE ≤ va' % WORD / PGSIZE ∧
        va' % WORD / PGSIZE < va / PGSIZE + (n + 1) := by omega
    rw [if_pos here, if_pos inside, here, Nat.add_sub_cancel_left]
  · rw [if_neg here]
    by_cases before : va / PGSIZE ≤ va' % WORD / PGSIZE ∧ va' % WORD / PGSIZE < va / PGSIZE + n
    · rw [if_pos before, if_pos (by omega)]
    · rw [if_neg before, if_neg (by omega)]

theorem tablesUsed_le (s : State) : tablesUsed s ≤ 69 := by
  have low : ∀ k, (forest (fun _ => none) none s).fixed k ≠ none → 955 ≤ k.val := by
    intro k used
    by_contra below
    exact used (if_neg fun both => below both.1)
  have bound : tablesUsed s ≤ (Finset.range 69).card := by
    unfold tablesUsed Forest.fixedUsed
    refine Finset.card_le_card_of_injOn (fun k : Fin NPDENTRIES => k.val - 955) ?_ ?_
    · intro k used
      have used' := low k (Finset.mem_filter.mp (Finset.mem_coe.mp used)).2
      have bound : k.val < 1024 := k.isLt
      simp only [Finset.coe_range, Set.mem_Iio]
      omega
    · intro a used_a b used_b same
      have := low a (Finset.mem_filter.mp (Finset.mem_coe.mp used_a)).2
      have := low b (Finset.mem_filter.mp (Finset.mem_coe.mp used_b)).2
      exact Fin.ext (by simp only at same; omega)
  simpa using bound

def StaticRegion (va n : Nat) : Prop :=
  va % PGSIZE = 0 ∧ va + n * PGSIZE ≤ WORD ∧ ∀ k, k < n → StaticPde (pdx ((va + k * PGSIZE) % WORD))

theorem bootMapRegion_step (region : StaticRegion va n) (small : perm < 4096) {k : Nat}
    (within : k < n) (km : KernMapped dirs s0 fl0 s fl (regionPte pte va pa perm k)) :
    (fl = [] ∧ bootMapStep s0.kernPgdir va pa perm s (k * PGSIZE) = .error .mappingFailed) ∨
    ∃ s' fl', bootMapStep s0.kernPgdir va pa perm s (k * PGSIZE) = .ok s' ∧
      KernMapped dirs s0 fl0 s' fl' (regionPte pte va pa perm (k + 1)) := by
  obtain ⟨aligned, bound, static⟩ := region
  have room : va + k * PGSIZE + PGSIZE ≤ WORD := by
    simp only [PGSIZE] at bound ⊢
    omega
  have next : setPte (regionPte pte va pa perm k) ((va + k * PGSIZE) % WORD)
      ((pa + k * PGSIZE) % WORD ||| perm ||| PTE_P) = regionPte pte va pa perm (k + 1) :=
    regionPte_next aligned room
  have kern : s.kernPgdir = s0.kernPgdir := km.quiet.kernPgdir
  rw [← next, ← kern]
  exact bootMapStep_spec km (static k within) small

theorem regionPte_zero : regionPte pte va pa perm 0 = pte := by
  funext va'
  unfold regionPte
  exact if_neg (by omega)

theorem bootMapRegion_ok (region : StaticRegion va ((size + PGSIZE - 1) / PGSIZE))
    (small : perm < 4096) (km : KernMapped dirs s0 fl0 s fl pte)
    (run : bootMapRegion s s0.kernPgdir va size pa perm = .ok s') :
    ∃ fl', KernMapped dirs s0 fl0 s' fl'
      (regionPte pte va pa perm ((size + PGSIZE - 1) / PGSIZE)) := by
  unfold bootMapRegion at run
  refine times_keeps (fun k s => ∃ fl', KernMapped dirs s0 fl0 s fl'
    (regionPte pte va pa perm k)) ⟨fl, ?_⟩ ?_ run
  · rw [regionPte_zero]
    exact km
  · intro k a b within before done
    obtain ⟨fl', now⟩ := before
    rcases bootMapRegion_step region small within now with ⟨_, failed⟩ | ⟨b', fl'', done', next⟩
    · rw [failed] at done
      cases done
    · rw [done'] at done
      cases done
      exact ⟨fl'', next⟩

/-- boot_map_region returns when there are pages for all the tables kern_pgdir can need. -/
theorem bootMapRegion_total (pa : Nat) (region : StaticRegion va ((size + PGSIZE - 1) / PGSIZE))
    (small : perm < 4096) (km : KernMapped dirs s0 fl0 s fl pte)
    (enough : 69 < fl0.length + tablesUsed s0) :
    ∃ s' fl', bootMapRegion s s0.kernPgdir va size pa perm = .ok s' ∧
      KernMapped dirs s0 fl0 s' fl'
        (regionPte pte va pa perm ((size + PGSIZE - 1) / PGSIZE)) := by
  have start : ∃ fl', KernMapped dirs s0 fl0 s fl' (regionPte pte va pa perm 0) := by
    rw [regionPte_zero]
    exact ⟨fl, km⟩
  have round : ∀ k a, k < (size + PGSIZE - 1) / PGSIZE →
      (∃ fl', KernMapped dirs s0 fl0 a fl' (regionPte pte va pa perm k)) →
      ∃ b, bootMapStep s0.kernPgdir va pa perm a (k * PGSIZE) = .ok b ∧
        ∃ fl', KernMapped dirs s0 fl0 b fl' (regionPte pte va pa perm (k + 1)) := by
    intro k a within before
    obtain ⟨fl', now⟩ := before
    rcases bootMapRegion_step region small within now with ⟨empty, _⟩ | ⟨b, fl'', done, next⟩
    · have budget := now.budget
      have used := tablesUsed_le a
      rw [empty, List.length_nil] at budget
      omega
    · exact ⟨b, done, fl'', next⟩
  obtain ⟨t, run, fl', done⟩ := times_total _ start round
  exact ⟨t, fl', run, done⟩

end Regions

section MemInitMap
variable (m : Machine)

/-- What mem_init leaves kern_pgdir mapping above UTOP. -/
def bootPte : Nat → Nat :=
  let pte := regionPte (fun _ => 0) UPAGES (pagesBase m - KERNBASE) PTE_U NPTENTRIES
  let pte := regionPte pte UENVS (envsBase m - KERNBASE) PTE_U NPTENTRIES
  let pte := regionPte pte (KSTACKTOP - KSTKSIZE) (m.bootstack - KERNBASE) PTE_W 8
  regionPte pte KERNBASE 0 PTE_W 65536

theorem staticRegion_of {va n : Nat} (aligned : va % PGSIZE = 0) (bound : va + n * PGSIZE ≤ WORD)
    (user : UTOP ≤ va) (away : va + n * PGSIZE ≤ UVPT ∨ UVPT + PTSIZE ≤ va) :
    StaticRegion va n := by
  refine ⟨aligned, bound, ?_⟩
  intro k within
  unfold StaticPde
  rw [pdx_eq]
  simp only [userPdes, uvptPde, NPDENTRIES, UTOP, UENVS, UPAGES, UVPT, ULIM, MMIOBASE, MMIOLIM,
    KSTACKTOP, KERNBASE, PTSIZE, PGSIZE, NPTENTRIES, WORD] at *
  omega

theorem region_pages : StaticRegion UPAGES ((PTSIZE + PGSIZE - 1) / PGSIZE) :=
  staticRegion_of (by decide) (by decide) (by decide) (by decide)

theorem region_envs : StaticRegion UENVS ((PTSIZE + PGSIZE - 1) / PGSIZE) :=
  staticRegion_of (by decide) (by decide) (by decide) (by decide)

theorem region_stack : StaticRegion (KSTACKTOP - KSTKSIZE) ((KSTKSIZE + PGSIZE - 1) / PGSIZE) :=
  staticRegion_of (by decide) (by decide) (by decide) (by decide)

theorem region_kernel : StaticRegion KERNBASE ((WORD - KERNBASE + PGSIZE - 1) / PGSIZE) :=
  staticRegion_of (by decide) (by decide) (by decide) (by decide)

theorem paddr_ok {kva : Nat} (high : KERNBASE ≤ kva) : paddr kva = .ok (kva - KERNBASE) :=
  if_neg (Nat.not_lt.mpr high)

theorem mapped_high : KERNBASE ≤ pagesBase m ∧ KERNBASE ≤ envsBase m ∧ KERNBASE ≤ m.bootstack := by
  obtain ⟨_, _, _, high, order, _, _⟩ := layout_bounds m
  have linked := m.bootstack_linked.1
  exact ⟨Nat.le_of_lt high, Nat.le_trans (Nat.le_of_lt high) order,
    Nat.le_trans (Nat.le_add_right _ _) linked⟩

variable {dirs : Dirs} {s0 s' : State} {fl0 : List Nat}

theorem KernMapped.start (acc : Accounted dirs none s0 fl0)
    (empty : ∀ d, StaticPde d → ¬ Present (s0.entry s0.kernPgdir d)) :
    KernMapped dirs s0 fl0 s0 fl0 fun _ => 0 := by
  refine ⟨acc, rfl, ?_, ?_, rfl, rfl, fun _ h => h⟩
  · intro va within
    exact if_neg (empty _ within)
  · intro d within present
    exact absurd present (empty d within)

theorem memInitMap_ok (pages : s0.pagesKva = pagesBase m) (envs : s0.envsKva = envsBase m)
    (stack : s0.bootstack = m.bootstack) (km : KernMapped dirs s0 fl0 s0 fl0 fun _ => 0)
    (run : memInitMap s0 = .ok s') : ∃ fl, KernMapped dirs s0 fl0 s' fl (bootPte m) := by
  obtain ⟨high1, high2, high3⟩ := mapped_high m
  unfold memInitMap at run
  rw [pages, paddr_ok high1, ok_bind] at run
  obtain ⟨s1, run1, run⟩ := bind_ok.mp run
  obtain ⟨fl1, km1⟩ := bootMapRegion_ok region_pages (by decide) km run1
  rw [km1.quiet.envsKva, envs, paddr_ok high2, ok_bind, km1.quiet.kernPgdir] at run
  obtain ⟨s2, run2, run⟩ := bind_ok.mp run
  obtain ⟨fl2, km2⟩ := bootMapRegion_ok region_envs (by decide) km1 run2
  rw [km2.quiet.bootstack, stack, paddr_ok high3, ok_bind, km2.quiet.kernPgdir] at run
  obtain ⟨s3, run3, run⟩ := bind_ok.mp run
  obtain ⟨fl3, km3⟩ := bootMapRegion_ok region_stack (by decide) km2 run3
  rw [km3.quiet.kernPgdir] at run
  exact bootMapRegion_ok region_kernel (by decide) km3 run

theorem memInitMap_total (pages : s0.pagesKva = pagesBase m) (envs : s0.envsKva = envsBase m)
    (stack : s0.bootstack = m.bootstack) (km : KernMapped dirs s0 fl0 s0 fl0 fun _ => 0)
    (enough : 69 < fl0.length + tablesUsed s0) : ∃ s', memInitMap s0 = .ok s' := by
  obtain ⟨high1, high2, high3⟩ := mapped_high m
  obtain ⟨s1, fl1, run1, km1⟩ := bootMapRegion_total (pagesBase m - KERNBASE) region_pages
    (show PTE_U < 4096 by decide) km enough
  obtain ⟨s2, fl2, run2, km2⟩ := bootMapRegion_total (envsBase m - KERNBASE) region_envs
    (show PTE_U < 4096 by decide) km1 enough
  obtain ⟨s3, fl3, run3, km3⟩ := bootMapRegion_total (m.bootstack - KERNBASE) region_stack
    (show PTE_W < 4096 by decide) km2 enough
  obtain ⟨s4, fl4, run4, km4⟩ := bootMapRegion_total 0 region_kernel
    (show PTE_W < 4096 by decide) km3 enough
  refine ⟨s4, ?_⟩
  unfold memInitMap
  rw [pages, paddr_ok high1, ok_bind, run1, ok_bind, km1.quiet.envsKva, envs, paddr_ok high2,
    ok_bind, km1.quiet.kernPgdir, run2, ok_bind, km2.quiet.bootstack, stack, paddr_ok high3,
    ok_bind, km2.quiet.kernPgdir, run3, ok_bind, km3.quiet.kernPgdir]
  exact run4

end MemInitMap

section Checked
variable {dirs : Dirs} {s s' : State} {fl : List Nat}

theorem selfChecked_books (acc : Accounted dirs none s fl) (checked : SelfChecked s s') :
    ∃ fl', fl.Perm fl' ∧ Accounted dirs none s' fl' ∧ target dirs none s' = target dirs none s ∧
      ∀ i, s'.entry s'.kernPgdir i = s.entry s.kernPgdir i := by
  obtain ⟨fl', list', perm⟩ := checked.reordered fl acc.list
  have quiet : Quiet s s' := checked.rest
  have off_list : ∀ q, q ∉ fl → ∀ i, s'.entry q i = s.entry q i := by
    intro q away i
    unfold State.entry
    rw [checked.contents q fl acc.list away]
  have kern : s.kernPgdir ∉ fl := fun listed => acc.kernApart (acc.managed _ listed)
  have same : target dirs none s' = target dirs none s := by
    refine target_entries quiet.kernPgdir ?_ ?_
    · intro i _
      rw [off_list _ kern]
    · intro q tree i _
      have away : q ∉ fl := fun listed => unused_plain (acc.unused q listed) tree
      rw [off_list q away]
  have steady : Steady s s' :=
    ⟨quiet.npages, quiet.nextfree, quiet.kernPgdir, fun j _ => by rw [off_list _ kern]⟩
  obtain ⟨low, apart, room⟩ := steady_parts acc steady
  refine ⟨fl', perm, ⟨list', perm.nodup_iff.mp acc.nodup, ?_, ?_, ?_, ?_, ?_, low, apart, room⟩,
    same, ?_⟩
  · intro p listed
    exact (managed_steady steady p).mpr (acc.managed p (perm.mem_iff.mpr listed))
  · intro p listed x
    change target dirs none s' x ≠ some p
    rw [same]
    exact acc.unused p (perm.mem_iff.mpr listed) x
  · intro p managed
    rw [checked.counts, same]
    exact acc.counts p ((managed_steady steady p).mp managed)
  · intro x p held
    rw [same] at held
    exact (managed_steady steady p).mpr (acc.targets x p held)
  · intro x y p sx sy hx hy
    change target dirs none s' x = some p at hx
    change target dirs none s' y = some p at hy
    rw [same] at hx hy
    exact acc.apart x y p sx sy hx hy
  · intro i
    rw [quiet.kernPgdir, off_list _ kern]

end Checked

section MemInit
variable (m : Machine)

/-- The state mem_init leaves. -/
structure BootState (s : State) (fl : List Nat) : Prop where
  books : Accounted (fun _ => none) none s fl
  npages : s.npages = m.npages
  nextfree : s.nextfree = bootEnd m
  kernPgdir : s.kernPgdir = kernPage m
  envsKva : s.envsKva = envsBase m
  envs : s.envs = m.envs
  curenv : s.curenv = none
  envFreeList : s.envFreeList = none
  pte : ∀ va, StaticPde (pdx va) → kernPte s va = bootPte m va
  grants : ∀ d, StaticPde d → Present (s.entry s.kernPgdir d) →
    UserBit (s.entry s.kernPgdir d) ∧ Writable (s.entry s.kernPgdir d)
  uvpt : s.entry s.kernPgdir uvptPde = mapEntry (kernPage m) PTE_U
  enough : ∃ all : List Nat, (∀ p, p ∈ all ↔ Managed s p) ∧ all.Nodup ∧ all.length ≤ fl.length + 69

theorem mapping_start {a b : State} {fl : List Nat} (booted : Booted m a)
    (acc : Accounted (fun _ => none) none a fl) (checked : SelfChecked a b) :
    ∃ fl', fl.Perm fl' ∧ KernMapped (fun _ => none) b fl' b fl' (fun _ => 0) ∧ Quiet a b ∧
      b.entry b.kernPgdir uvptPde = mapEntry (kernPage m) PTE_U := by
  obtain ⟨fl', perm, books, _, dir⟩ := selfChecked_books acc checked
  refine ⟨fl', perm, KernMapped.start books ?_, checked.rest, ?_⟩
  · intro d static
    rw [dir, booted.kernPgdir, booted.dir, if_neg static.2.2]
    decide
  · rw [dir, booted.kernPgdir, booted.dir, if_pos rfl]

theorem memInit_ok {s : State} (run : MemInit (powerOn m) s) :
    Fits m ∧ ∃ fl, BootState m s fl := by
  obtain ⟨a, b, c, alloc, checked, mapped, checked'⟩ := run
  obtain ⟨fits, booted, fl, acc, all⟩ := memInitAlloc_ok m alloc
  obtain ⟨fl0, perm0, start, quiet, uvpt⟩ := mapping_start m booted acc checked
  obtain ⟨fl1, km⟩ := memInitMap_ok m (quiet.pagesKva.trans booted.pagesKva)
    (quiet.envsKva.trans booted.envsKva) (quiet.bootstack.trans booted.bootstack) start mapped
  have steady : Steady c (lcr3 c c.kernPgdir) := ⟨rfl, rfl, rfl, fun _ _ => rfl⟩
  have switched : Accounted (fun _ => none) none (lcr3 c c.kernPgdir) fl1 :=
    km.books.keep steady rfl rfl rfl
  obtain ⟨fl', perm, books, _, dir⟩ := selfChecked_books switched checked'
  have quiet' : Quiet (lcr3 c c.kernPgdir) s := checked'.rest
  have kern_dir : ∀ i, s.entry s.kernPgdir i = c.entry c.kernPgdir i := dir
  refine ⟨fits, fl', books, ?_, ?_, ?_, ?_, ?_, ?_, ?_, ?_, ?_, ?_, ?_⟩
  · rw [quiet'.npages]
    exact km.quiet.npages.trans (quiet.npages.trans booted.npages)
  · rw [quiet'.nextfree]
    exact km.quiet.nextfree.trans (quiet.nextfree.trans booted.nextfree)
  · rw [quiet'.kernPgdir]
    exact km.quiet.kernPgdir.trans (quiet.kernPgdir.trans booted.kernPgdir)
  · rw [quiet'.envsKva]
    exact km.quiet.envsKva.trans (quiet.envsKva.trans booted.envsKva)
  · rw [quiet'.envs]
    exact km.quiet.envs.trans (quiet.envs.trans booted.envs)
  · rw [quiet'.curenv]
    exact km.quiet.curenv.trans (quiet.curenv.trans booted.curenv)
  · rw [quiet'.envFreeList]
    exact km.quiet.envFreeList.trans (quiet.envFreeList.trans booted.envFreeList)
  · intro va within
    rw [← km.pte_eq va within]
    unfold kernPte
    rw [kern_dir]
    by_cases present : Present (c.entry c.kernPgdir (pdx va))
    · rw [if_pos present, if_pos present]
      have held : target (fun _ => none) none c (.fixed ⟨pdx va, within.2.1⟩) =
          some (ppn (c.entry c.kernPgdir (pdx va))) := by
        rw [fixed_entry within]
        exact entryPage_some.mpr ⟨present, rfl⟩
      have away : ppn (c.entry c.kernPgdir (pdx va)) ∉ fl1 := busy_of_target km.books held
      have mem := checked'.contents _ fl1 switched.list away
      change word (s.mem _) _ = word (c.mem _) _
      rw [mem]
      rfl
    · rw [if_neg present, if_neg present]
  · intro d within present
    rw [kern_dir] at present ⊢
    exact km.grants d within present
  · rw [kern_dir, km.uvpt]
    exact uvpt
  · refine ⟨fl, ?_, acc.nodup, ?_⟩
    · intro p
      rw [all]
      unfold Managed
      rw [quiet'.npages, quiet'.nextfree]
      change _ ↔ p < c.npages ∧ ¬ bootPage c.nextfree p
      rw [km.quiet.npages, km.quiet.nextfree, quiet.npages, quiet.nextfree]
    · have budget := km.budget
      have used := tablesUsed_le c
      have len0 := perm0.length_eq
      have len1 := perm.length_eq
      omega

theorem selfChecked_refl (s : State) : SelfChecked s s :=
  ⟨fun fl list => ⟨fl, list, List.Perm.refl fl⟩, fun _ _ _ _ => rfl, fun _ _ _ _ => rfl,
    fun _ => rfl, rfl⟩

theorem memInit_total (fits : Fits m) {pages : List Nat} (once : pages.Nodup)
    (free : ∀ p ∈ pages, p < m.npages ∧ ¬ bootPage (bootEnd m) p) (enough : 69 < pages.length) :
    ∃ s, MemInit (powerOn m) s := by
  obtain ⟨a, fl, alloc, booted, acc, all⟩ := memInitAlloc_fits m fits
  have checked := selfChecked_refl a
  obtain ⟨fl0, perm, start, quiet, _⟩ := mapping_start m booted acc checked
  have listed : pages ⊆ fl := by
    intro p within
    rw [all]
    unfold Managed
    rw [booted.npages, booted.nextfree]
    exact free p within
  have long : pages.length ≤ fl.length := (once.subperm listed).length_le
  have same := perm.length_eq
  obtain ⟨c, mapped⟩ := memInitMap_total m (quiet.pagesKva.trans booted.pagesKva)
    (quiet.envsKva.trans booted.envsKva) (quiet.bootstack.trans booted.bootstack) start (by omega)
  exact ⟨lcr3 c c.kernPgdir, a, a, c, alloc, checked, mapped, selfChecked_refl _⟩

end MemInit

end JosStaticMap
