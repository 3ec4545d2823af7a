import Jos.InsertContract

/- boot_map_region on any directory: the tables it makes on the way, what the directory maps
   afterwards, and that regions that do not meet can be mapped in either order. -/
namespace JosRegionMap
open JosLayout FrameWords JosMachine JosPmap JosMmu JosBoot JosAccounting JosPageOps JosMapping
open JosBootPages JosStaticMap JosNewEnv JosRefWrap JosDirRights JosRemaps JosInsertContract IntrusiveList Ledger TableForest
open CountedLoop

/-- What pgdir_walk relies on in a directory: the page tables it names are in memory, each is
    named once, and none of them, nor the directory, is free or is the directory. -/
structure Rooted (s : State) (pgdir : Nat) (fl : List Nat) : Prop where
  list : FreeList s fl
  nodup : fl.Nodup
  inside : ∀ p ∈ fl, p < s.npages
  room : s.npages ≤ 1048576
  busy : pgdir ∉ fl
  dirRoom : pgdir < 1048576
  self : s.entry pgdir uvptPde = mapEntry pgdir PTE_U
  table : ∀ d, d < NPDENTRIES → d ≠ uvptPde → Present (s.entry pgdir d) →
    ppn (s.entry pgdir d) < s.npages ∧ ppn (s.entry pgdir d) ∉ fl ∧ ppn (s.entry pgdir d) ≠ pgdir
  once : ∀ d d', d < NPDENTRIES → d' < NPDENTRIES → d ≠ uvptPde → d' ≠ uvptPde →
    Present (s.entry pgdir d) → Present (s.entry pgdir d') →
    ppn (s.entry pgdir d) = ppn (s.entry pgdir d') → d = d'

def leafEntry (s : State) (pgdir va : Nat) : Nat :=
  if Present (s.entry pgdir (pdx va))
  then s.entry (ppn (s.entry pgdir (pdx va))) (ptx va) else 0

section Rooted
variable {s : State} {pgdir va d t v : Nat} {fl rest : List Nat}

theorem leafEntry_there (present : Present (s.entry pgdir (pdx va))) :
    leafEntry s pgdir va = s.entry (ppn (s.entry pgdir (pdx va))) (ptx va) := if_pos present

theorem leafEntry_absent (absent : ¬ Present (s.entry pgdir (pdx va))) :
    leafEntry s pgdir va = 0 := if_neg absent

theorem walk_leafEntry (s : State) (pgdir va : Nat) : walk s pgdir va =
    if Present (leafEntry s pgdir va)
    then some ⟨s.entry pgdir (pdx va), leafEntry s pgdir va⟩ else none := by
  unfold walk leafEntry
  dsimp only
  by_cases present : Present (s.entry pgdir (pdx va))
  · rw [if_pos present, if_pos present]
  · rw [if_neg present, if_neg present, if_neg (by decide)]

theorem Rooted.hang (rooted : Rooted s pgdir (t :: rest)) (slot : d < NPDENTRIES)
    (other : d ≠ uvptPde) (absent : ¬ Present (s.entry pgdir d)) :
    Rooted (hangTable s pgdir d t) pgdir rest := by
  have inside := rooted.inside t (by simp)
  have room : t < 1048576 := Nat.lt_of_lt_of_le inside rooted.room
  have apart : pgdir ≠ t := fun same => rooted.busy (by simp [same])
  obtain ⟨fresh, nodup⟩ := List.nodup_cons.mp rooted.nodup
  have placed : (hangTable s pgdir d t).entry pgdir d = tableEntry t := hangTable_dir room
  have named : ppn (tableEntry t) = t := by
    rw [tableEntry_eq]
    exact ppn_mapEntry room (by decide)
  have old : ∀ j, j ≠ d → (hangTable s pgdir d t).entry pgdir j = s.entry pgdir j :=
    fun j differ => hangTable_dir_of_ne apart differ
  have table_fresh : ∀ j, j < NPDENTRIES → j ≠ uvptPde → Present (s.entry pgdir j) →
      ppn (s.entry pgdir j) ≠ t := by
    intro j bound high present same
    exact (rooted.table j bound high present).2.1 (by simp [same])
  refine ⟨?_, nodup, ?_, rooted.room, ?_, rooted.dirRoom, ?_, ?_, ?_⟩
  · obtain ⟨_, tail⟩ := chain_cons_head rooted.list
    refine chain_congr tail ?_
    intro q listed
    have differ : q ≠ t := fun same => fresh (same ▸ listed)
    rw [hangTable_pages_of_ne differ]
  · intro p listed
    exact rooted.inside p (by simp [listed])
  · exact fun listed => rooted.busy (by simp [listed])
  · rw [old uvptPde other.symm]
    exact rooted.self
  · intro j bound high present
    by_cases here : j = d
    · subst here
      rw [placed, named]
      exact ⟨inside, fresh, apart.symm⟩
    · rw [old j here] at present ⊢
      obtain ⟨below, away, differ⟩ := rooted.table j bound high present
      exact ⟨below, fun listed => away (by simp [listed]), differ⟩
  · intro i j boundi boundj highi highj presenti presentj same
    by_cases herei : i = d
    · by_cases herej : j = d
      · rw [herei, herej]
      · subst herei
        rw [old j herej] at presentj same
        rw [placed, named] at same
        exact absurd same.symm (table_fresh j boundj highj presentj)
    · rw [old i herei] at presenti same
      by_cases herej : j = d
      · subst herej
        rw [placed, named] at same
        exact absurd same (table_fresh i boundi highi presenti)
      · rw [old j herej] at presentj same
        exact rooted.once i j boundi boundj highi highj presenti presentj same

theorem Rooted.leaf_hang (rooted : Rooted s pgdir (t :: rest))
    (absent : ¬ Present (s.entry pgdir d)) (high : pdx va ≠ uvptPde) :
    leafEntry (hangTable s pgdir d t) pgdir va = leafEntry s pgdir va := by
  have room : t < 1048576 := Nat.lt_of_lt_of_le (rooted.inside t (by simp)) rooted.room
  have apart : pgdir ≠ t := fun same => rooted.busy (by simp [same])
  unfold leafEntry
  by_cases here : pdx va = d
  · have present : Present (tableEntry t) := by
      rw [tableEntry_eq]
      exact present_mapEntry (by decide)
    have named : ppn (tableEntry t) = t := by
      rw [tableEntry_eq]
      exact ppn_mapEntry room (by decide)
    rw [here, hangTable_dir room, if_pos present, if_neg absent, named, hangTable_table apart]
  · rw [hangTable_dir_of_ne apart here]
    by_cases there : Present (s.entry pgdir (pdx va))
    · obtain ⟨_, away, differ⟩ := rooted.table (pdx va) (pdx_lt va) high there
      have fresh : ppn (s.entry pgdir (pdx va)) ≠ t := fun same => away (by simp [same])
      rw [if_pos there, if_pos there, hangTable_entry_of_ne fresh (Or.inl differ)]
    · rw [if_neg there, if_neg there]

theorem Rooted.store (rooted : Rooted s pgdir fl) (slot : d < NPDENTRIES) (other : d ≠ uvptPde)
    (present : Present (s.entry pgdir d)) (i v : Nat) :
    (∀ j, (s.setEntry (ppn (s.entry pgdir d)) i v).entry pgdir j = s.entry pgdir j) ∧
      Rooted (s.setEntry (ppn (s.entry pgdir d)) i v) pgdir fl := by
  have differ := (rooted.table d slot other present).2.2
  have dir : ∀ j, (s.setEntry (ppn (s.entry pgdir d)) i v).entry pgdir j = s.entry pgdir j := by
    intro j
    exact State.entry_setEntry_of_ne _ _ _ _ (Or.inl differ.symm)
  refine ⟨dir, rooted.list, rooted.nodup, rooted.inside, rooted.room, rooted.busy, rooted.dirRoom,
    ?_, ?_, ?_⟩
  · rw [dir]
    exact rooted.self
  · intro j bound high there
    rw [dir] at there ⊢
    exact rooted.table j bound high there
  · intro j k boundj boundk highj highk therej therek same
    rw [dir] at therej therek
    rw [dir, dir] at same
    exact rooted.once j k boundj boundk highj highk therej therek same

theorem Rooted.leaf_store (rooted : Rooted s pgdir fl) (other : pdx va ≠ uvptPde)
    (present : Present (s.entry pgdir (pdx va))) (word : v < WORD) {va' : Nat}
    (high : pdx va' ≠ uvptPde) :
    leafEntry (s.setEntry (ppn (s.entry pgdir (pdx va))) (ptx va) v) pgdir va' =
      setPte (leafEntry s pgdir) va v va' := by
  obtain ⟨dir, _⟩ := rooted.store (pdx_lt va) other present (ptx va) v
  unfold setPte
  by_cases here : pdx va' = pdx va
  · have there : Present (s.entry pgdir (pdx va')) := by
      rw [here]
      exact present
    rw [leafEntry_there (by rw [dir]; exact there), leafEntry_there there, dir, here]
    by_cases slot : ptx va' = ptx va
    · rw [slot, State.entry_setEntry_same _ _ _ _ word, if_pos ⟨rfl, rfl⟩]
    · have elsewhere : ¬ (pdx va = pdx va ∧ ptx va' = ptx va) := fun both => slot both.2
      rw [State.entry_setEntry_of_ne _ _ _ _ (Or.inr slot), if_neg elsewhere]
  · have elsewhere : ¬ (pdx va' = pdx va ∧ ptx va' = ptx va) := fun both => here both.1
    rw [if_neg elsewhere]
    by_cases there : Present (s.entry pgdir (pdx va'))
    · have differ : ppn (s.entry pgdir (pdx va')) ≠ ppn (s.entry pgdir (pdx va)) :=
        fun same => here (rooted.once _ _ (pdx_lt va') (pdx_lt va) high other there present same)
      rw [leafEntry_there (by rw [dir]; exact there), leafEntry_there there, dir,
        State.entry_setEntry_of_ne _ _ _ _ (Or.inl differ)]
    · rw [leafEntry_absent (by rw [dir]; exact there), leafEntry_absent there]

end Rooted

/-- In the middle of boot_map_region: slots are the directory slots it has been through, made the
    pages it has made tables, and pte is what the directory maps. -/
structure Filled (s0 : State) (pgdir : Nat) (fl0 : List Nat) (slots : Finset Nat)
    (pte : Nat → Nat) (made : List Nat) (s : State) (fl : List Nat) : Prop where
  rooted : Rooted s pgdir fl
  quiet : Quiet s0 s
  split : fl0 = made ++ fl
  nodup : fl0.Nodup
  present : ∀ d, d < NPDENTRIES →
    (Present (s.entry pgdir d) ↔ Present (s0.entry pgdir d) ∨ d ∈ slots)
  kept : ∀ d, Present (s0.entry pgdir d) → s.entry pgdir d = s0.entry pgdir d
  grown : ∀ d, ¬ Present (s0.entry pgdir d) → d ∈ slots → ∃ t ∈ made, s.entry pgdir d = tableEntry t
  counted : made.length = (slots.filter fun d => ¬ Present (s0.entry pgdir d)).card
  refs : ∀ p, (s.pages p).ppRef = (s0.pages p).ppRef + if p ∈ made then 1 else 0
  leaf : ∀ va, pdx va ≠ uvptPde → leafEntry s pgdir va = pte va

section Rounds
variable {s0 s : State} {pgdir va d t perm pa i : Nat} {fl0 fl rest made : List Nat}
  {slots : Finset Nat} {pte : Nat → Nat}

theorem Filled.start (rooted : Rooted s pgdir fl) :
    Filled s pgdir fl ∅ (leafEntry s pgdir) [] s fl := by
  refine ⟨rooted, rfl, rfl, rooted.nodup, ?_, fun _ _ => rfl, ?_, rfl, ?_, fun _ _ => rfl⟩
  · intro d _
    simp
  · intro d _ listed
    simp at listed
  · intro p
    simp

theorem Filled.hang (filled : Filled s0 pgdir fl0 slots pte made s (t :: rest))
    (slot : d < NPDENTRIES) (other : d ≠ uvptPde) (absent : ¬ Present (s.entry pgdir d)) :
    Filled s0 pgdir fl0 (insert d slots) pte (made ++ [t]) (hangTable s pgdir d t) rest := by
  have room : t < 1048576 :=
    Nat.lt_of_lt_of_le (filled.rooted.inside t (by simp)) filled.rooted.room
  have apart : pgdir ≠ t := fun same => filled.rooted.busy (by simp [same])
  have placed : (hangTable s pgdir d t).entry pgdir d = tableEntry t := hangTable_dir room
  have old : ∀ j, j ≠ d → (hangTable s pgdir d t).entry pgdir j = s.entry pgdir j :=
    fun j differ => hangTable_dir_of_ne apart differ
  have never : ¬ Present (s0.entry pgdir d) ∧ d ∉ slots := by
    rw [filled.present d slot] at absent
    exact not_or.mp absent
  have once : t ∉ made := by
    have apart := filled.nodup
    rw [filled.split] at apart
    exact fun among => (List.nodup_append.mp apart).2.2 t among t (by simp) rfl
  refine ⟨filled.rooted.hang slot other absent, quiet_trans filled.quiet (hangTable_quiet _ _ _ _),
    ?_, filled.nodup, ?_, ?_, ?_, ?_, ?_, ?_⟩
  · rw [filled.split]
    simp
  · intro j bound
    by_cases here : j = d
    · subst here
      rw [placed, tableEntry_eq]
      exact ⟨fun _ => Or.inr (by simp), fun _ => present_mapEntry (by decide)⟩
    · rw [old j here, filled.present j bound, Finset.mem_insert]
      simp [here]
  · intro j there
    have differ : j ≠ d := fun same => never.1 (same ▸ there)
    rw [old j differ]
    exact filled.kept j there
  · intro j lacked listed
    by_cases here : j = d
    · subst here
      exact ⟨t, by simp, placed⟩
    · rw [Finset.mem_insert] at listed
      obtain ⟨t', among, named⟩ := filled.grown j lacked (listed.resolve_left here)
      rw [old j here]
      exact ⟨t', by simp [among], named⟩
  · have fresh : d ∉ slots.filter fun d => ¬ Present (s0.entry pgdir d) :=
      fun among => never.2 (Finset.mem_filter.mp among).1
    rw [Finset.filter_insert, if_pos never.1, Finset.card_insert_of_notMem fresh,
      List.length_append, filled.counted]
    rfl
  · intro p
    by_cases here : p = t
    · subst here
      have counted : ((hangTable s pgdir d p).pages p).ppRef = (s.pages p).ppRef + 1 := by
        simp [hangTable, State.setEntry, State.setRef, takeFree]
      rw [counted, filled.refs, if_neg once, if_pos (by simp)]
      simp
    · rw [hangTable_pages_of_ne here, filled.refs]
      simp [here]
  · intro va high
    rw [filled.rooted.leaf_hang absent high]
    exact filled.leaf va high

theorem Filled.store (filled : Filled s0 pgdir fl0 slots pte made s fl) {v : Nat}
    (other : pdx va ≠ uvptPde) (there : Present (s.entry pgdir (pdx va))) (word : v < WORD) :
    Filled s0 pgdir fl0 (insert (pdx va) slots) (setPte pte va v) made
      (s.setEntry (ppn (s.entry pgdir (pdx va))) (ptx va) v) fl := by
  obtain ⟨dir, rooted⟩ := filled.rooted.store (pdx_lt va) other there (ptx va) v
  have known := (filled.present (pdx va) (pdx_lt va)).mp there
  refine ⟨rooted, quiet_trans filled.quiet rfl, filled.split, filled.nodup, ?_, ?_, ?_, ?_,
    filled.refs, ?_⟩
  · intro d bound
    rw [dir, filled.present d bound, Finset.mem_insert]
    constructor
    · rintro (before | listed)
      · exact Or.inl before
      · exact Or.inr (Or.inr listed)
    · rintro (before | rfl | listed)
      · exact Or.inl before
      · exact known
      · exact Or.inr listed
  · intro d before
    rw [dir]
    exact filled.kept d before
  · intro d lacked listed
    rw [dir]
    rcases Finset.mem_insert.mp listed with rfl | before
    · exact filled.grown _ lacked (known.resolve_left lacked)
    · exact filled.grown d lacked before
  · rw [filled.counted, Finset.filter_insert]
    split
    · rename_i lacked
      rw [Finset.insert_eq_of_mem (Finset.mem_filter.mpr ⟨known.resolve_left lacked, lacked⟩)]
    · rfl
  · intro va' high
    rw [filled.rooted.leaf_store other there word high]
    unfold setPte
    rw [filled.leaf va' high]

theorem Filled.round (filled : Filled s0 pgdir fl0 slots pte made s fl) (pa : Nat)
    (small : perm < 4096)
    (other : pdx ((va + i) % WORD) ≠ uvptPde)
    (enough : ¬ Present (s.entry pgdir (pdx ((va + i) % WORD))) → fl ≠ []) :
    ∃ s' fl' made', bootMapStep pgdir va pa perm s i = .ok s' ∧
      Filled s0 pgdir fl0 (insert (pdx ((va + i) % WORD)) slots)
        (setPte pte ((va + i) % WORD) ((pa + i) % WORD ||| perm ||| PTE_P)) made' s' fl' := by
  have slot := pdx_lt ((va + i) % WORD)
  have word : (pa + i) % WORD ||| perm ||| PTE_P < WORD :=
    or_perm_lt (Nat.mod_lt _ (by decide)) small
  unfold bootMapStep
  by_cases there : Present (s.entry pgdir (pdx ((va + i) % WORD)))
  · rw [pgdirWalk_present there (filled.rooted.table _ slot other there).1, ok_bind]
    exact ⟨_, fl, made, rfl, filled.store other there word⟩
  · cases fl with
    | nil => exact absurd rfl (enough there)
    | cons t rest =>
      have inside := filled.rooted.inside t (by simp)
      have room : t < 1048576 := Nat.lt_of_lt_of_le inside filled.rooted.room
      have hung := filled.hang slot other there
      have placed : (hangTable s pgdir (pdx ((va + i) % WORD)) t).entry pgdir
          (pdx ((va + i) % WORD)) = tableEntry t := hangTable_dir room
      have present : Present (tableEntry t) := by
        rw [tableEntry_eq]
        exact present_mapEntry (by decide)
      have named : ppn (tableEntry t) = t := by
        rw [tableEntry_eq]
        exact ppn_mapEntry room (by decide)
      have stored := hung.store other (by rw [placed]; exact present) word
      rw [placed, named, Finset.insert_idem] at stored
      rw [pgdirWalk_head (chain_cons_head filled.rooted.list).1 inside room there, ok_bind]
      exact ⟨_, rest, _, rfl, stored⟩

end Rounds

def slotsOf (va n : Nat) : Finset Nat :=
  (Finset.range n).image fun k => pdx ((va + k * PGSIZE) % WORD)

def missing (s : State) (pgdir va size : Nat) : Finset Nat :=
  (slotsOf va (size / PGSIZE)).filter fun d => ¬ Present (s.entry pgdir d)

/-- Pages to map, away from the slot at UVPT, and the physical pages they go to. -/
structure Region (va size pa : Nat) : Prop where
  va_aligned : va % PGSIZE = 0
  size_aligned : size % PGSIZE = 0
  pa_aligned : pa % PGSIZE = 0
  pa_word : pa < WORD
  bound : va + size ≤ WORD
  clear : ∀ a, va ≤ a → a < va + size → pdx a ≠ uvptPde

section Run
variable {s : State} {pgdir va size pa perm : Nat} {fl : List Nat}

theorem slotsOf_succ (va k : Nat) :
    slotsOf va (k + 1) = insert (pdx ((va + k * PGSIZE) % WORD)) (slotsOf va k) := by
  unfold slotsOf
  rw [Finset.range_add_one, Finset.image_insert]

theorem Region.page (region : Region va size pa) {k : Nat} (within : k < size / PGSIZE) :
    va + k * PGSIZE + PGSIZE ≤ WORD ∧ pdx ((va + k * PGSIZE) % WORD) ≠ uvptPde := by
  have bound := region.bound
  have below : k * PGSIZE + PGSIZE ≤ size := by
    simp only [PGSIZE] at within ⊢
    omega
  have word : va + k * PGSIZE < WORD := by
    simp only [PGSIZE, WORD] at below bound ⊢
    omega
  refine ⟨by omega, ?_⟩
  rw [Nat.mod_eq_of_lt word]
  refine region.clear _ (Nat.le_add_right _ _) ?_
  simp only [PGSIZE] at below ⊢
  omega

theorem bootMapRegion_fills (rooted : Rooted s pgdir fl) (region : Region va size pa)
    (small : perm < 4096) (enough : (missing s pgdir va size).card ≤ fl.length) :
    ∃ s' fl' made, bootMapRegion s pgdir va size pa perm = .ok s' ∧
      Filled s pgdir fl (slotsOf va (size / PGSIZE))
        (regionPte (leafEntry s pgdir) va pa perm (size / PGSIZE)) made s' fl' := by
  have rounds : (size + PGSIZE - 1) / PGSIZE = size / PGSIZE := by
    have aligned := region.size_aligned
    simp only [PGSIZE] at aligned ⊢
    omega
  have start : ∃ fl' made, Filled s pgdir fl (slotsOf va 0)
      (regionPte (leafEntry s pgdir) va pa perm 0) made s fl' := by
    rw [regionPte_zero]
    exact ⟨fl, [], Filled.start rooted⟩
  have round : ∀ k a, k < size / PGSIZE →
      (∃ fl' made, Filled s pgdir fl (slotsOf va k)
        (regionPte (leafEntry s pgdir) va pa perm k) made a fl') →
      ∃ b, bootMapStep pgdir va pa perm a (k * PGSIZE) = .ok b ∧
        ∃ fl' made, Filled s pgdir fl (slotsOf va (k + 1))
          (regionPte (leafEntry s pgdir) va pa perm (k + 1)) made b fl' := by
    intro k a within before
    obtain ⟨fl', made, filled⟩ := before
    obtain ⟨bound, other⟩ := region.page within
    have left : ¬ Present (a.entry pgdir (pdx ((va + k * PGSIZE) % WORD))) → fl' ≠ [] := by
      intro absent none_left
      rw [filled.present _ (pdx_lt _)] at absent
      obtain ⟨lacked, fresh⟩ := not_or.mp absent
      -- the tables made so far and this one are among the missing ones
      have part : insert (pdx ((va + k * PGSIZE) % WORD))
          ((slotsOf va k).filter fun d => ¬ Present (s.entry pgdir d)) ⊆ missing s pgdir va size := by
        intro d among
        unfold missing slotsOf
        rw [Finset.mem_filter, Finset.mem_image]
        rcases Finset.mem_insert.mp among with rfl | among
        · exact ⟨⟨k, Finset.mem_range.mpr within, rfl⟩, lacked⟩
        · obtain ⟨listed, lacked'⟩ := Finset.mem_filter.mp among
          obtain ⟨j, below, rfl⟩ := Finset.mem_image.mp listed
          have below' := Finset.mem_range.mp below
          exact ⟨⟨j, Finset.mem_range.mpr (by omega), rfl⟩, lacked'⟩
      have size_le := Finset.card_le_card part
      rw [Finset.card_insert_of_notMem fun among => fresh (Finset.mem_filter.mp among).1,
        ← filled.counted] at size_le
      have total := congrArg List.length filled.split
      rw [none_left, List.append_nil] at total
      omega
    obtain ⟨b, fl'', made', run, next⟩ := filled.round pa small other left
    rw [← slotsOf_succ, regionPte_next region.va_aligned bound] at next
    exact ⟨b, run, fl'', made', next⟩
  obtain ⟨s', run, fl', made, filled⟩ := times_total _ start round
  refine ⟨s', fl', made, ?_, filled⟩
  unfold bootMapRegion
  rw [rounds]
  exact run

end Run

def translate (s : State) (pgdir va : Nat) : Option (Nat × Nat) :=
  (walk s pgdir va).map fun t => (page2pa (Translation.page t) + pgoff va, t.pte % PGSIZE)

/-- Where the directory shows the tables made for the region. -/
def ShowsTable (s : State) (pgdir va size a : Nat) : Prop :=
  pdx a = uvptPde ∧ ptx a ∈ missing s pgdir va size

/-- What boot_map_region has done when it returns. It promises nothing about addresses in spare. -/
structure RegionMapped (spare : Nat → Prop) (s : State) (fl : List Nat)
    (pgdir va size pa perm : Nat) (s' : State) : Prop where
  inside : ∀ i, i < size → translate s' pgdir (va + i) = some ((pa + i) % WORD, perm ||| PTE_P)
  outside : ∀ a, a < WORD → ¬ (va ≤ a ∧ a < va + size) → ¬ spare a →
    walk s' pgdir a = walk s pgdir a
  tables : ∃ made rest, fl = made ++ rest ∧ FreeList s' rest ∧
    made.length = (missing s pgdir va size).card ∧
    (∀ p, p ∈ made → (s'.pages p).ppRef = 1) ∧
    (∀ p, p ∉ made → (s'.pages p).ppRef = (s.pages p).ppRef) ∧
    ∀ a, ShowsTable s pgdir va size a → walk s pgdir a = none ∧
      ∃ t ∈ made, walk s' pgdir a = some ⟨mapEntry pgdir PTE_U, tableEntry t⟩

section Outcome
variable {s s' : State} {pgdir va size pa perm a : Nat} {fl fl' made : List Nat} {pte : Nat → Nat}

theorem regionPte_inside (region : Region va size pa) {i : Nat} (within : i < size) :
    regionPte pte va pa perm (size / PGSIZE) (va + i) =
      mapEntry (pgnum ((pa + i) % WORD)) perm := by
  have bound := region.bound
  have aligned := region.va_aligned
  have whole := region.size_aligned
  have aligned' := region.pa_aligned
  have hit : va / PGSIZE ≤ (va + i) % WORD / PGSIZE ∧
      (va + i) % WORD / PGSIZE < va / PGSIZE + size / PGSIZE := by
    simp only [PGSIZE, WORD] at *
    omega
  have place : (pa + ((va + i) % WORD / PGSIZE - va / PGSIZE) * PGSIZE) % WORD =
      page2pa (pgnum ((pa + i) % WORD)) := by
    rw [pgnum_eq]
    simp only [page2pa, PGSIZE, WORD] at *
    omega
  unfold regionPte mapEntry
  rw [if_pos hit, place]

theorem regionPte_outside (region : Region va size pa) (word : a < WORD)
    (away : ¬ (va ≤ a ∧ a < va + size)) : regionPte pte va pa perm (size / PGSIZE) a = pte a := by
  have aligned := region.va_aligned
  have whole := region.size_aligned
  refine if_neg ?_
  rw [Nat.mod_eq_of_lt word]
  simp only [PGSIZE] at *
  omega

theorem pgnum_lt (word : a < WORD) : pgnum a < 1048576 := by
  rw [pgnum_eq]
  simp only [WORD] at word
  omega

theorem translate_mapEntry {page : Nat} (room : page < 1048576) (small : perm < 4096)
    (leaf : leafEntry s pgdir va = mapEntry page perm) :
    translate s pgdir va = some (page2pa page + pgoff va, perm ||| PTE_P) := by
  have flags : mapEntry page perm % PGSIZE = perm ||| PTE_P := by
    rw [mapEntry_eq, or_low_eq_add page (flags_small small)]
    have low := flags_small small
    simp only [PGSIZE]
    omega
  unfold translate
  rw [walk_leafEntry, leaf, if_pos (present_mapEntry small)]
  simp only [Option.map_some, Translation.page]
  rw [ppn_mapEntry room small, flags]

theorem Rooted.walk_self (rooted : Rooted s pgdir fl) (window : pdx a = uvptPde) :
    walk s pgdir a = if Present (s.entry pgdir (ptx a))
      then some ⟨mapEntry pgdir PTE_U, s.entry pgdir (ptx a)⟩ else none := by
  unfold walk
  dsimp only
  rw [window, rooted.self, if_pos (present_mapEntry (by decide)),
    ppn_mapEntry rooted.dirRoom (by decide)]

theorem Filled.mapped (rooted : Rooted s pgdir fl) (unused : ∀ p ∈ fl, (s.pages p).ppRef = 0)
    (region : Region va size pa) (small : perm < 4096)
    (filled : Filled s pgdir fl (slotsOf va (size / PGSIZE))
      (regionPte (leafEntry s pgdir) va pa perm (size / PGSIZE)) made s' fl') :
    RegionMapped (ShowsTable s pgdir va size) s fl pgdir va size pa perm s' := by
  have here : ∀ d, d < NPDENTRIES → (Present (s'.entry pgdir d) ↔
      Present (s.entry pgdir d) ∨ d ∈ missing s pgdir va size) := by
    intro d bound
    unfold missing
    rw [filled.present d bound, Finset.mem_filter]
    by_cases there : Present (s.entry pgdir d)
    · exact iff_of_true (Or.inl there) (Or.inl there)
    · rw [or_iff_right there, or_iff_right there, and_iff_left there]
  refine ⟨?_, ?_, made, fl', filled.split, filled.rooted.list, filled.counted, ?_, ?_, ?_⟩
  · intro i within
    have clear := region.clear (va + i) (Nat.le_add_right _ _) (by omega)
    have leaf := filled.leaf (va + i) clear
    have word : (pa + i) % WORD < WORD := Nat.mod_lt _ (by decide)
    have offset : page2pa (pgnum ((pa + i) % WORD)) + pgoff (va + i) = (pa + i) % WORD := by
      have aligned := region.va_aligned
      have aligned' := region.pa_aligned
      rw [pgnum_eq, pgoff_eq]
      simp only [page2pa, PGSIZE, WORD] at *
      omega
    rw [regionPte_inside region within] at leaf
    rw [translate_mapEntry (pgnum_lt word) small leaf, offset]
  · intro a word away hidden
    by_cases window : pdx a = uvptPde
    · have slot := ptx_lt a
      have kept := here (ptx a) slot
      have unseen : ptx a ∉ missing s pgdir va size := fun among => hidden ⟨window, among⟩
      rw [rooted.walk_self window, filled.rooted.walk_self window]
      by_cases there : Present (s.entry pgdir (ptx a))
      · rw [filled.kept _ there]
      · rw [if_neg there, if_neg fun now => (kept.mp now).elim there unseen]
    · have leaf := filled.leaf a window
      rw [regionPte_outside region word away] at leaf
      rw [walk_leafEntry, walk_leafEntry, leaf]
      by_cases there : Present (s.entry pgdir (pdx a))
      · rw [filled.kept _ there]
      · rw [leafEntry_absent there, if_neg (by decide), if_neg (by decide)]
  · intro p among
    rw [filled.refs, if_pos among, unused p (by rw [filled.split]; simp [among])]
    rfl
  · intro p away
    rw [filled.refs, if_neg away]
    simp
  · intro a shows
    obtain ⟨window, among⟩ := shows
    obtain ⟨listed, lacked⟩ := Finset.mem_filter.mp among
    obtain ⟨t, fresh, named⟩ := filled.grown _ lacked listed
    have present : Present (tableEntry t) := by
      rw [tableEntry_eq]
      exact present_mapEntry (by decide)
    rw [rooted.walk_self window, filled.rooted.walk_self window, if_neg lacked]
    refine ⟨rfl, t, fresh, ?_⟩
    rw [named, if_pos present]

end Outcome

section Order
variable {dirs : Dirs} {s : State} {fl : List Nat} {pgdir va size pa perm va' size' pa' perm' : Nat}

theorem regionPte_comm (region : Region va size pa) (region' : Region va' size' pa')
    (apart : va + size ≤ va' ∨ va' + size' ≤ va) (pte : Nat → Nat) (a : Nat) :
    regionPte (regionPte pte va pa perm (size / PGSIZE)) va' pa' perm' (size' / PGSIZE) a =
      regionPte (regionPte pte va' pa' perm' (size' / PGSIZE)) va pa perm (size / PGSIZE) a := by
  have aligned := region.va_aligned
  have whole := region.size_aligned
  have aligned' := region'.va_aligned
  have whole' := region'.size_aligned
  unfold regionPte
  by_cases first : va / PGSIZE ≤ a % WORD / PGSIZE ∧
      a % WORD / PGSIZE < va / PGSIZE + size / PGSIZE
  · have second : ¬ (va' / PGSIZE ≤ a % WORD / PGSIZE ∧
        a % WORD / PGSIZE < va' / PGSIZE + size' / PGSIZE) := by
      simp only [PGSIZE] at *
      omega
    rw [if_neg second, if_pos first, if_pos first]
  · rw [if_neg first, if_neg first]

theorem missing_after {s' : State} {fl' made : List Nat} {pte : Nat → Nat}
    (filled : Filled s pgdir fl (slotsOf va (size / PGSIZE)) pte made s' fl')
    (enough : (missing s pgdir va size ∪ missing s pgdir va' size').card ≤ fl.length) :
    (missing s' pgdir va' size').card ≤ fl'.length := by
  have part : missing s' pgdir va' size' ⊆
      missing s pgdir va' size' \ missing s pgdir va size := by
    intro d among
    obtain ⟨listed, lacked⟩ := Finset.mem_filter.mp among
    obtain ⟨k, _, rfl⟩ := Finset.mem_image.mp listed
    rw [filled.present _ (pdx_lt _)] at lacked
    obtain ⟨lacked, fresh⟩ := not_or.mp lacked
    rw [Finset.mem_sdiff]
    exact ⟨Finset.mem_filter.mpr ⟨listed, lacked⟩,
      fun before => fresh (Finset.mem_filter.mp before).1⟩
  have fewer := Finset.card_le_card part
  have both := Finset.card_sdiff_add_card (missing s pgdir va' size') (missing s pgdir va size)
  have counted : made.length = (missing s pgdir va size).card := filled.counted
  have total := congrArg List.length filled.split
  rw [List.length_append] at total
  rw [Finset.union_comm] at enough
  omega

/-- What a directory looks like after some calls of boot_map_region: the tables it had are still
    there, and the tables it has got, in slots, grant everything. -/
structure Extended (s : State) (pgdir : Nat) (slots : Finset Nat) (pte : Nat → Nat) (s' : State) :
    Prop where
  present : ∀ d, d < NPDENTRIES →
    (Present (s'.entry pgdir d) ↔ Present (s.entry pgdir d) ∨ d ∈ slots)
  kept : ∀ d, Present (s.entry pgdir d) → s'.entry pgdir d = s.entry pgdir d
  grown : ∀ d, ¬ Present (s.entry pgdir d) → d ∈ slots → ∃ t, s'.entry pgdir d = tableEntry t
  leaf : ∀ a, pdx a ≠ uvptPde → leafEntry s' pgdir a = pte a
  self : ∃ fl, Rooted s' pgdir fl

theorem two_regions (rooted : Rooted s pgdir fl) (region : Region va size pa)
    (region' : Region va' size' pa') (small : perm < 4096) (small' : perm' < 4096)
    (enough : (missing s pgdir va size ∪ missing s pgdir va' size').card ≤ fl.length) :
    ∃ s1 s2, bootMapRegion s pgdir va size pa perm = .ok s1 ∧
      bootMapRegion s1 pgdir va' size' pa' perm' = .ok s2 ∧
      Extended s pgdir (slotsOf va (size / PGSIZE) ∪ slotsOf va' (size' / PGSIZE))
        (regionPte (regionPte (leafEntry s pgdir) va pa perm (size / PGSIZE)) va' pa' perm'
          (size' / PGSIZE)) s2 := by
  have first : (missing s pgdir va size).card ≤ fl.length :=
    Nat.le_trans (Finset.card_le_card Finset.subset_union_left) enough
  obtain ⟨s1, fl1, made1, run1, filled1⟩ := bootMapRegion_fills rooted region small first
  obtain ⟨s2, fl2, made2, run2, filled2⟩ :=
    bootMapRegion_fills filled1.rooted region' small' (missing_after filled1 enough)
  refine ⟨s1, s2, run1, run2, ?_, ?_, ?_, ?_, fl2, filled2.rooted⟩
  · intro d bound
    rw [filled2.present d bound, filled1.present d bound, Finset.mem_union, or_assoc]
  · intro d there
    have between := filled1.kept d there
    rw [filled2.kept d (by rw [between]; exact there), between]
  · intro d lacked listed
    by_cases early : d ∈ slotsOf va (size / PGSIZE)
    · obtain ⟨t, _, named⟩ := filled1.grown d lacked early
      have there : Present (s1.entry pgdir d) := by
        rw [named, tableEntry_eq]
        exact present_mapEntry (by decide)
      exact ⟨t, by rw [filled2.kept d there, named]⟩
    · have late := (Finset.mem_union.mp listed).resolve_left early
      obtain ⟨k, _, rfl⟩ := Finset.mem_image.mp late
      have lacked1 : ¬ Present (s1.entry pgdir (pdx ((va' + k * PGSIZE) % WORD))) := by
        rw [filled1.present _ (pdx_lt _)]
        exact not_or.mpr ⟨lacked, early⟩
      obtain ⟨t, _, named⟩ := filled2.grown _ lacked1 late
      exact ⟨t, named⟩
  · intro a clear
    rw [filled2.leaf a clear]
    unfold regionPte
    rw [filled1.leaf a clear]
    rfl

theorem extended_same {slots : Finset Nat} {pte pte' : Nat → Nat} {s1 s2 : State} {a : Nat}
    (left : Extended s pgdir slots pte s1) (right : Extended s pgdir slots pte' s2)
    (same : pte a = pte' a) :
    (pdx a ≠ uvptPde → translate s1 pgdir a = translate s2 pgdir a ∧ Unmoved s1 s2 pgdir a) ∧
      (pdx a = uvptPde → (walk s1 pgdir a = none ↔ walk s2 pgdir a = none)) := by
  constructor
  · intro clear
    have leaf1 := left.leaf a clear
    have leaf2 := right.leaf a clear
    rw [← same] at leaf2
    unfold translate Unmoved
    rw [walk_leafEntry, walk_leafEntry, leaf1, leaf2]
    by_cases mapped : Present (pte a)
    · rw [if_pos mapped, if_pos mapped]
      refine ⟨rfl, .some ?_⟩
      by_cases there : Present (s.entry pgdir (pdx a))
      · rw [left.kept _ there, right.kept _ there]
        exact agrees_refl _
      · have listed : pdx a ∈ slots := by
          by_contra away
          have absent : ¬ Present (s1.entry pgdir (pdx a)) := by
            rw [left.present _ (pdx_lt a)]
            exact not_or.mpr ⟨there, away⟩
          rw [leafEntry_absent absent] at leaf1
          rw [← leaf1] at mapped
          exact absurd mapped (by decide)
        obtain ⟨t1, named1⟩ := left.grown _ there listed
        obtain ⟨t2, named2⟩ := right.grown _ there listed
        rw [named1, named2]
        refine ⟨show ppn (pte a) = ppn (pte a) from rfl, ?_, ?_⟩
        · exact ⟨fun both => ⟨tableEntry_writable t2, both.2⟩,
            fun both => ⟨tableEntry_writable t1, both.2⟩⟩
        · exact ⟨fun both => ⟨tableEntry_user t2, both.2⟩,
            fun both => ⟨tableEntry_user t1, both.2⟩⟩
    · rw [if_neg mapped, if_neg mapped]
      exact ⟨rfl, .none⟩
  · intro window
    obtain ⟨_, rooted1⟩ := left.self
    obtain ⟨_, rooted2⟩ := right.self
    have slot := ptx_lt a
    rw [rooted1.walk_self window, rooted2.walk_self window]
    have both : Present (s1.entry pgdir (ptx a)) ↔ Present (s2.entry pgdir (ptx a)) :=
      (left.present _ slot).trans (right.present _ slot).symm
    by_cases there : Present (s1.entry pgdir (ptx a))
    · rw [if_pos there, if_pos (both.mp there)]
      simp
    · rw [if_neg there, if_neg fun now => there (both.mpr now)]

end Order

section Books
variable {dirs : Dirs} {s : State} {fl : List Nat} {pgdir d : Nat}

theorem dir_table (books : Books dirs s fl) (own : Directory dirs s pgdir)
    (bound : d < NPDENTRIES) (other : d ≠ uvptPde) (present : Present (s.entry pgdir d)) :
    ∃ x : PageSlot, x.Structural ∧ (∀ e, x ≠ .root e) ∧
      target dirs none s x = some (ppn (s.entry pgdir d)) ∧
      (x = .fixed ⟨d, bound⟩ ∨ ∃ e, ∃ user : d < userPdes, x = .table e ⟨d, user⟩) := by
  by_cases user : d < userPdes
  · rcases own with rfl | ⟨e, he⟩
    · exact absurd present (entryPage_none.mp (books.acc.kernEmpty d user))
    · refine ⟨.table e ⟨d, user⟩, trivial, by simp, ?_, Or.inr ⟨e, user, rfl⟩⟩
      exact (table_entry he).mpr ⟨present, rfl⟩
  · have static : StaticPde d := ⟨Nat.le_of_not_lt user, bound, other⟩
    have same : s.entry pgdir d = s.entry s.kernPgdir d := by
      rcases own with rfl | ⟨e, he⟩
      · rfl
      · exact (books.shaped e pgdir he).high d static
    refine ⟨.fixed ⟨d, bound⟩, trivial, by simp, ?_, Or.inl rfl⟩
    rw [fixed_entry static, same]
    rw [same] at present
    exact entryPage_some.mpr ⟨present, rfl⟩

theorem books_rooted (books : Books dirs s fl) (own : Directory dirs s pgdir) :
    Rooted s pgdir fl := by
  obtain ⟨self, dirRoom⟩ := dir_uvpt books own
  refine ⟨books.acc.list, books.acc.nodup, fun p listed => (books.acc.managed p listed).1,
    books.acc.room, dir_busy books.acc own, dirRoom, self, ?_, ?_⟩
  · intro d bound other present
    obtain ⟨x, structural, plain, held, _⟩ := dir_table books own bound other present
    refine ⟨(books.acc.targets x _ held).1, busy_of_target books.acc held, ?_⟩
    intro same
    rw [same] at held
    exact table_not_dir books.acc own structural plain held
  · intro d d' bound bound' other other' present present' same
    obtain ⟨x, structural, _, held, kind⟩ := dir_table books own bound other present
    obtain ⟨x', structural', _, held', kind'⟩ := dir_table books own bound' other' present'
    rw [← same] at held'
    have slots := books.acc.apart x x' _ structural structural' held held'
    rcases kind with rfl | ⟨e, user, rfl⟩
    · rcases kind' with rfl | ⟨e', user', rfl⟩
      · simpa using slots
      · cases slots
    · rcases kind' with rfl | ⟨e', user', rfl⟩
      · cases slots
      · cases slots
        rfl

theorem free_unreferenced (acc : Accounted dirs none s fl) :
    ∀ p ∈ fl, (s.pages p).ppRef = 0 := by
  intro p listed
  rw [acc.counts p (acc.managed p listed), free_refs acc listed]
  rfl

end Books

/-- In every state with books in order: boot_map_region maps its region and nothing else, but for
    the page tables it makes, which the directory shows at UVPT; and two regions that do not meet
    can be mapped in either order. -/
theorem boot_map_region_exact {dirs : Dirs} {s : State} {fl : List Nat} {pgdir : Nat}
    (books : Books dirs s fl) (own : Directory dirs s pgdir) :
    (∀ va size pa perm, Region va size pa → perm < PGSIZE →
      (missing s pgdir va size).card ≤ fl.length →
      ∃ s', bootMapRegion s pgdir va size pa perm = .ok s' ∧
        RegionMapped (ShowsTable s pgdir va size) s fl pgdir va size pa perm s') ∧
    ∀ va size pa perm va' size' pa' perm', Region va size pa → Region va' size' pa' →
      perm < PGSIZE → perm' < PGSIZE → va + size ≤ va' ∨ va' + size' ≤ va →
      (missing s pgdir va size ∪ missing s pgdir va' size').card ≤ fl.length →
      ∃ s1 s12 s2 s21, bootMapRegion s pgdir va size pa perm = .ok s1 ∧
        bootMapRegion s1 pgdir va' size' pa' perm' = .ok s12 ∧
        bootMapRegion s pgdir va' size' pa' perm' = .ok s2 ∧
        bootMapRegion s2 pgdir va size pa perm = .ok s21 ∧
        ∀ a, a < WORD →
          (pdx a ≠ uvptPde →
            translate s12 pgdir a = translate s21 pgdir a ∧ Unmoved s12 s21 pgdir a) ∧
          (pdx a = uvptPde → (walk s12 pgdir a = none ↔ walk s21 pgdir a = none)) := by
  have rooted := books_rooted books own
  constructor
  · intro va size pa perm region small enough
    obtain ⟨s', fl', made, run, filled⟩ := bootMapRegion_fills rooted region small enough
    exact ⟨s', run, filled.mapped rooted (free_unreferenced books.acc) region small⟩
  · intro va size pa perm va' size' pa' perm' region region' small small' apart enough
    obtain ⟨s1, s12, run1, run12, left⟩ :=
      two_regions rooted region region' small small' enough
    rw [Finset.union_comm] at enough
    obtain ⟨s2, s21, run2, run21, right⟩ :=
      two_regions rooted region' region small' small enough
    rw [Finset.union_comm] at right
    refine ⟨s1, s12, s2, s21, run1, run12, run2, run21, ?_⟩
    intro a _
    exact extended_same left right (regionPte_comm region region' apart _ a)

section Boot
variable {m : Machine} {s : State} {fl : List Nat}

theorem booted_books (booted : Booted m s) (acc : Accounted (fun _ => none) none s fl) :
    Books (fun _ => none) s fl := by
  have room := (kernPage_room m).1
  refine ⟨acc, ?_, ?_, ?_, ?_⟩
  · intro p
    have few := refs_without_envs acc p
    omega
  · intro e p he
    cases he
  · rw [booted.kernPgdir, booted.dir, if_pos rfl]
  · rw [booted.kernPgdir]
    exact room

theorem slots_upages : slotsOf UPAGES (PTSIZE / PGSIZE) = {956} := by
  unfold slotsOf
  ext d
  rw [Finset.mem_image, Finset.mem_singleton]
  have only : ∀ k, k < 1024 → pdx ((UPAGES + k * PGSIZE) % WORD) = 956 := by
    intro k within
    rw [pdx_eq]
    simp only [UPAGES, UVPT, ULIM, MMIOBASE, MMIOLIM, KSTACKTOP, KERNBASE, PTSIZE, PGSIZE,
      NPTENTRIES, WORD]
    omega
  constructor
  · rintro ⟨k, within, rfl⟩
    exact only k (Finset.mem_range.mp within)
  · rintro rfl
    exact ⟨0, Finset.mem_range.mpr (by decide), only 0 (by decide)⟩

theorem region_upages : Region UPAGES PTSIZE 0 := by
  refine ⟨by decide, by decide, by decide, by decide, by decide, ?_⟩
  intro a low high
  rw [pdx_eq]
  simp only [uvptPde, UPAGES, UVPT, ULIM, MMIOBASE, MMIOLIM, KSTACKTOP, KERNBASE, PTSIZE, PGSIZE,
    NPTENTRIES] at low high ⊢
  omega

theorem smallMachine_booted : ∃ s fl, Books (fun _ => none) s fl ∧
    missing s s.kernPgdir UPAGES PTSIZE = {956} ∧ 1 ≤ fl.length := by
  obtain ⟨s, fl, _, booted, acc, all⟩ := memInitAlloc_fits smallMachine smallMachine_fits
  refine ⟨s, fl, booted_books booted acc, ?_, ?_⟩
  · have lacked : ¬ Present (s.entry s.kernPgdir 956) := by
      rw [booted.kernPgdir, booted.dir, if_neg (by decide)]
      decide
    unfold missing
    rw [slots_upages, Finset.filter_singleton, if_pos lacked]
  · have listed : 413 ∈ fl := by
      rw [all]
      unfold Managed
      rw [booted.npages, booted.nextfree]
      exact JosPageRuns.smallMachine_free (by decide) (by decide)
    exact List.length_pos_of_mem listed

end Boot

theorem boot_map_region_exact_smallMachine : ∃ s fl s',
    bootMapRegion s s.kernPgdir UPAGES PTSIZE 0 PTE_U = .ok s' ∧
      RegionMapped (ShowsTable s s.kernPgdir UPAGES PTSIZE) s fl s.kernPgdir UPAGES PTSIZE 0 PTE_U
        s' := by
  obtain ⟨s, fl, books, lacked, long⟩ := smallMachine_booted
  obtain ⟨s', run, mapped⟩ := (boot_map_region_exact books (Or.inl rfl)).1 UPAGES PTSIZE 0 PTE_U
    region_upages (by decide) (by rw [lacked]; exact long)
  exact ⟨s, fl, s', run, mapped⟩

/-- The first call of boot_map_region in mem_init makes a page table, and the directory shows it
    at UVPT, where it had nothing. -/
theorem boot_map_region_shows_table : ¬ ∀ dirs s fl pgdir va size pa perm, Books dirs s fl →
    Directory dirs s pgdir → Region va size pa → perm < PGSIZE →
    (missing s pgdir va size).card ≤ fl.length →
    ∃ s', bootMapRegion s pgdir va size pa perm = .ok s' ∧
      RegionMapped (fun _ => False) s fl pgdir va size pa perm s' := by
  intro claim
  obtain ⟨s, fl, books, lacked, long⟩ := smallMachine_booted
  obtain ⟨s', run, mapped⟩ := claim _ s fl s.kernPgdir UPAGES PTSIZE 0 PTE_U books (Or.inl rfl)
    region_upages (by decide) (by rw [lacked]; exact long)
  have rooted := books_rooted books (Or.inl rfl)
  have enough : (missing s s.kernPgdir UPAGES PTSIZE).card ≤ fl.length := by
    rw [lacked]
    exact long
  obtain ⟨s1, fl1, made, run1, filled⟩ :=
    bootMapRegion_fills rooted region_upages (show PTE_U < PGSIZE by decide) enough
  rw [run] at run1
  cases run1
  have shows : ShowsTable s s.kernPgdir UPAGES PTSIZE 0xEF7BC000 := by
    unfold ShowsTable
    rw [lacked]
    decide
  have real := filled.mapped rooted (free_unreferenced books.acc) region_upages (by decide)
  obtain ⟨_, _, _, _, _, _, _, shown⟩ := real.tables
  obtain ⟨before, t, _, after⟩ := shown _ shows
  have still := mapped.outside 0xEF7BC000 (by decide) (by decide) id
  rw [before, after] at still
  cases still

end JosRegionMap
