import Jos.Loading

/- What page_insert and page_remove change in what the processor finds: the page they are called
   for, and no other translation in any directory. -/
namespace JosRemaps
open JosLayout FrameWords JosMachine JosPmap JosMmu JosEnv JosBoot JosAccounting JosPageOps
open JosMapping JosEnvSpace JosRegions JosBootPages JosStaticMap JosPageRuns JosRefWrap JosDirRights
open JosUserStores JosLoading IntrusiveList Ledger TableForest CountedLoop

/-- Two translations to the same page with the same rights. -/
structure Agrees (t t' : Translation) : Prop where
  page : Translation.page t = Translation.page t'
  writable : Translation.writable t ↔ Translation.writable t'
  user : Translation.user t ↔ Translation.user t'

def Coherent (s : State) : Prop :=
  ∀ va, va < WORD → ∀ t, s.tlb (pgnum va) = some t →
    ∃ t', walk s s.cr3 va = some t' ∧ Agrees t t'

def Directory (dirs : Dirs) (s : State) (pgdir : Nat) : Prop :=
  pgdir = s.kernPgdir ∨ ∃ e : Fin NENV, dirs e = some pgdir

theorem agrees_refl (t : Translation) : Agrees t t := ⟨rfl, Iff.rfl, Iff.rfl⟩

theorem Agrees.trans {t t' t'' : Translation} (first : Agrees t t') (second : Agrees t' t'') :
    Agrees t t'' :=
  ⟨first.page.trans second.page, first.writable.trans second.writable,
    first.user.trans second.user⟩

theorem same_slots {va va' : Nat} (same : pgnum va = pgnum va') :
    pdx va = pdx va' ∧ ptx va = ptx va' := by
  rw [pgnum_eq, pgnum_eq] at same
  rw [pdx_eq, pdx_eq, ptx_eq, ptx_eq]
  omega

theorem same_page {va va' : Nat} (word : va < WORD) (word' : va' < WORD) (dir : pdx va = pdx va')
    (table : ptx va = ptx va') : pgnum va = pgnum va' := by
  rw [pdx_eq, pdx_eq] at dir
  rw [ptx_eq, ptx_eq] at table
  rw [pgnum_eq, pgnum_eq]
  simp only [WORD] at word word'
  omega

theorem walk_page_same {s : State} {pgdir va va' : Nat} (same : pgnum va = pgnum va') :
    walk s pgdir va = walk s pgdir va' := by
  obtain ⟨dir, table⟩ := same_slots same
  unfold walk
  rw [dir, table]

section Remap
variable {m : Machine} {dirs : Dirs} {s s' : State} {fl : List Nat} {e : Fin NENV}
  {d : Fin userPdes} {pgdir t i va : Nat}

/-- What a call for page va of pgdir may have changed: one entry of a directory, to which
    flags were added, and one of a table; and what the TLB holds for the page. -/
structure Remapped (dirs : Dirs) (fl : List Nat) (e : Fin NENV) (d : Fin userPdes) (i : Nat)
    (pgdir t : Nat) (s s' : State) : Prop where
  table : t ∈ fl ∧ target dirs none s (.table e d) = none ∨ target dirs none s (.table e d) = some t
  kern : s'.kernPgdir = s.kernPgdir
  mem : ∀ q, q ≠ t → q ≠ pgdir → s'.mem q = s.mem q
  dir : ∀ j, j ≠ d.val → s'.entry pgdir j = s.entry pgdir j
  flags : Present (s.entry pgdir d) → ∃ perm, perm < 4096 ∧
    s'.entry pgdir d = s.entry pgdir d ||| perm
  leaf : target dirs none s (.table e d) = some t → ∀ j, j ≠ i → s'.entry t j = s.entry t j

theorem entry_mem {q : Nat} (same : s'.mem q = s.mem q) (j : Nat) :
    s'.entry q j = s.entry q j := by
  unfold State.entry
  rw [same]

theorem walk_entries {c : Nat} (dir : s'.entry c (pdx va) = s.entry c (pdx va))
    (table : Present (s.entry c (pdx va)) → s'.entry (ppn (s.entry c (pdx va))) (ptx va) =
      s.entry (ppn (s.entry c (pdx va))) (ptx va)) :
    walk s' c va = walk s c va := by
  unfold walk
  dsimp only
  rw [dir]
  by_cases present : Present (s.entry c (pdx va))
  · rw [if_pos present, if_pos present, table present]
  · rw [if_neg present, if_neg present]

theorem agrees_flags {x y perm : Nat} (grants : UserBit x ∧ Writable x) :
    Agrees ⟨x, y⟩ ⟨x ||| perm, y⟩ := by
  have user := or_keeps_flag grants.1 perm
  have writable := or_keeps_flag grants.2 perm
  refine ⟨rfl, ?_, ?_⟩
  · exact ⟨fun both => ⟨writable, both.2⟩, fun both => ⟨grants.2, both.2⟩⟩
  · exact ⟨fun both => ⟨user, both.2⟩, fun both => ⟨grants.1, both.2⟩⟩

theorem agrees_self {x y perm : Nat} (word : y < WORD) (small : perm < 4096)
    (grants : UserBit y ∧ Writable y) : Agrees ⟨x, y⟩ ⟨x, y ||| perm⟩ := by
  have user := or_keeps_flag grants.1 perm
  have writable := or_keeps_flag grants.2 perm
  refine ⟨(ppn_or_flags word small).1.symm, ?_, ?_⟩
  · exact ⟨fun both => ⟨both.1, writable⟩, fun both => ⟨both.1, grants.2⟩⟩
  · exact ⟨fun both => ⟨both.1, user⟩, fun both => ⟨both.1, grants.1⟩⟩

theorem Remapped.frames (remapped : Remapped dirs fl e d i pgdir t s s')
    (acc : Accounted dirs none s fl) (he : dirs e = some pgdir) (q : Nat) (kernel : KernFrame s q) :
    s'.mem q = s.mem q := by
  obtain ⟨busy, plain⟩ := kernFrame_apart acc kernel
  apply remapped.mem
  · intro same
    subst same
    rcases remapped.table with ⟨listed, _⟩ | held
    · exact busy listed
    · exact plain (Or.inr ⟨e, d, held⟩)
  · intro same
    subst same
    exact plain (Or.inl ⟨e, he⟩)

theorem Remapped.kernel (remapped : Remapped dirs fl e d i pgdir t s s')
    (acc : Accounted dirs none s fl) (he : dirs e = some pgdir) (word : va < WORD)
    (self : ppn (s.entry s.kernPgdir uvptPde) = s.kernPgdir) :
    walk s' s.kernPgdir va = walk s s.kernPgdir va := by
  have frames := remapped.frames acc he
  have dir := entry_mem (frames _ (Or.inl rfl))
  by_cases user : va < UTOP
  · have absent : ¬ Present (s.entry s.kernPgdir (pdx va)) :=
      entryPage_none.mp (acc.kernEmpty (pdx va) ((pdx_user word).mpr user))
    exact walk_entries (dir _) fun present => absurd present absent
  · rcases high_slot (Nat.le_of_not_lt user) word with static | here
    · exact walk_kernel remapped.kern frames static rfl (by rw [remapped.kern])
    · apply walk_entries (dir _)
      intro _
      rw [here, self]
      exact dir _

theorem Remapped.table_mem (remapped : Remapped dirs fl e d i pgdir t s s')
    (acc : Accounted dirs none s fl) (he : dirs e = some pgdir) {f : Fin NENV} {d' : Fin userPdes}
    {t' : Nat} (held : target dirs none s (.table f d') = some t') (other : f ≠ e ∨ d' ≠ d) :
    s'.mem t' = s.mem t' := by
  apply remapped.mem
  · intro same
    subst same
    rcases remapped.table with ⟨listed, _⟩ | there
    · exact busy_of_target acc held listed
    · obtain ⟨rfl, rfl⟩ := Forest.table_unique acc.apart held there
      simp at other
  · exact (Forest.root_ne_table acc.apart he held).symm

theorem Remapped.static (remapped : Remapped dirs fl e d i pgdir t s s')
    (acc : Accounted dirs none s fl) (he : dirs e = some pgdir) {c : Nat} (shaped : Shaped s c)
    (static : StaticPde (pdx va)) (dir : s'.entry c (pdx va) = s.entry c (pdx va)) :
    walk s' c va = walk s c va := by
  have frames := remapped.frames acc he
  apply walk_kernel remapped.kern frames static (shaped.high _ static)
  rw [dir, kern_entry_frame remapped.kern frames]
  exact shaped.high _ static

theorem Remapped.other (remapped : Remapped dirs fl e d i pgdir t s s')
    (acc : Accounted dirs none s fl) (shaped : AllShaped dirs s) (he : dirs e = some pgdir)
    {f : Fin NENV} {c : Nat} (hf : dirs f = some c) (apart : c ≠ pgdir) (word : va < WORD) :
    walk s' c va = walk s c va := by
  have not_table := (table_apart acc (remapped.table.imp_left And.left)).2 f c hf
  have dir := entry_mem (remapped.mem c not_table apart)
  have room := managed_room acc (root_managed acc hf)
  by_cases user : va < UTOP
  · apply walk_entries (dir _)
    intro present
    have held : target dirs none s (.table f ⟨pdx va, user_slot user⟩) =
        some (ppn (s.entry c (pdx va))) := (table_entry hf).mpr ⟨present, rfl⟩
    have env : f ≠ e := by
      intro same
      subst same
      exact apart (Option.some.inj (hf.symm.trans he))
    exact entry_mem (remapped.table_mem acc he held (Or.inl env)) _
  · rcases high_slot (Nat.le_of_not_lt user) word with static | here
    · exact remapped.static acc he (shaped f c hf) static (dir _)
    · apply walk_entries (dir _)
      intro _
      rw [here, (shaped f c hf).uvpt, ppn_mapEntry room (by decide)]
      exact dir _

/-- The directory itself leads where it led but for the page, with the rights it granted. -/
theorem Remapped.own (remapped : Remapped dirs fl e d i pgdir t s s')
    (acc : Accounted dirs none s fl) (shaped : AllShaped dirs s) (he : dirs e = some pgdir)
    (word : va < WORD) (elsewhere : pdx va ≠ d.val ∨ ptx va ≠ i) {tr : Translation}
    (walked : walk s pgdir va = some tr) :
    ∃ tr', walk s' pgdir va = some tr' ∧ Agrees tr tr' := by
  have own := shaped e pgdir he
  have room := managed_room acc (root_managed acc he)
  have flags : ∀ x, Present (s.entry pgdir x) → x = d.val → ∃ perm, perm < 4096 ∧
      s'.entry pgdir x = s.entry pgdir x ||| perm := by
    intro x present here
    rw [here] at present ⊢
    exact remapped.flags present
  obtain ⟨present, leaf, rfl⟩ := walk_some.mp walked
  by_cases user : va < UTOP
  · have held : target dirs none s (.table e ⟨pdx va, user_slot user⟩) =
        some (ppn (s.entry pgdir (pdx va))) := (table_entry he).mpr ⟨present, rfl⟩
    by_cases here : pdx va = d.val
    · obtain ⟨perm, small, changed⟩ := flags _ present here
      have slot : (⟨pdx va, user_slot user⟩ : Fin userPdes) = d := Fin.ext here
      rw [slot] at held
      have there : t = ppn (s.entry pgdir (pdx va)) := by
        rcases remapped.table with ⟨_, empty⟩ | there
        · rw [empty] at held
          cases held
        · exact Option.some.inj (there.symm.trans held)
      rw [← there] at held
      have kept := remapped.leaf held (ptx va) (elsewhere.resolve_left (not_not.mpr here))
      obtain ⟨named, still, _⟩ := ppn_or_flags (State.entry_lt s pgdir (pdx va)) small
      refine ⟨⟨s.entry pgdir (pdx va) ||| perm, s.entry t (ptx va)⟩, ?_, ?_⟩
      · rw [walk_some, changed, named, ← there, kept]
        rw [← there] at leaf
        exact ⟨still present, leaf, rfl⟩
      · rw [← there]
        exact agrees_flags (own.low _ (user_slot user) present)
    · have dir := remapped.dir (pdx va) here
      have slot : (⟨pdx va, user_slot user⟩ : Fin userPdes) ≠ d := fun same => here (congrArg Fin.val same)
      have table := entry_mem (remapped.table_mem acc he held (Or.inr slot)) (ptx va)
      refine ⟨_, ?_, agrees_refl _⟩
      rw [walk_entries dir fun _ => table]
      exact walked
  · rcases high_slot (Nat.le_of_not_lt user) word with static | here
    · have differ : pdx va ≠ d.val := by
        have small := d.isLt
        have above := static.1
        omega
      refine ⟨_, ?_, agrees_refl _⟩
      rw [remapped.static acc he own static (remapped.dir _ differ)]
      exact walked
    · have differ : pdx va ≠ d.val := by
        have small := d.isLt
        rw [here]
        simp only [uvptPde, userPdes] at small ⊢
        omega
      have self : ppn (s.entry pgdir (pdx va)) = pgdir := by
        rw [here, own.uvpt, ppn_mapEntry room (by decide)]
      rw [self] at leaf ⊢
      have dir := remapped.dir _ differ
      by_cases slot : ptx va = d.val
      · obtain ⟨perm, small, changed⟩ := flags _ leaf slot
        have low : ptx va < userPdes := by rw [slot]; exact d.isLt
        obtain ⟨_, still, _⟩ := ppn_or_flags (State.entry_lt s pgdir (ptx va)) small
        refine ⟨⟨s.entry pgdir (pdx va), s.entry pgdir (ptx va) ||| perm⟩, ?_, ?_⟩
        · rw [walk_some, dir, self, changed]
          exact ⟨present, still leaf, rfl⟩
        · exact agrees_self (State.entry_lt s pgdir (ptx va)) small (own.low _ low leaf)
      · refine ⟨⟨s.entry pgdir (pdx va), s.entry pgdir (ptx va)⟩, ?_, agrees_refl _⟩
        rw [walk_some, dir, self, remapped.dir _ slot]
        exact ⟨present, leaf, rfl⟩

end Remap

section Invalidation
variable {s s' : State} {pgdir va pp perm : Nat}

theorem pageDecref_tlb (s : State) (p : Nat) : (pageDecref s p).tlb = s.tlb := by
  unfold pageDecref pageFree
  dsimp only
  split <;> rfl

theorem pageAlloc_tlb {zero : Bool} {r : Option Nat} (run : pageAlloc s zero = .ok (r, s')) :
    s'.tlb = s.tlb := by
  unfold pageAlloc at run
  cases head : s.pageFreeList with
  | none =>
    rw [head] at run
    cases run
    rfl
  | some p =>
    rw [head] at run
    cases zero with
    | false =>
      cases run
      rfl
    | true =>
      obtain ⟨frame, _, done⟩ := bind_ok.mp run
      cases done
      rfl

theorem pgdirWalk_tlb {create : Bool} {r : Option PtePtr}
    (run : pgdirWalk s pgdir va create = .ok (r, s')) : s'.tlb = s.tlb := by
  by_cases present : Present (s.entry pgdir (pdx va))
  · by_cases room : ppn (s.entry pgdir (pdx va)) < s.npages
    · rw [pgdirWalk_present present room] at run
      cases run
      rfl
    · rw [pgdirWalk_wild present room] at run
      cases run
  · unfold pgdirWalk at run
    rw [if_neg present] at run
    cases create with
    | false =>
      cases run
      rfl
    | true =>
      obtain ⟨⟨page, s1⟩, taken, rest⟩ := bind_ok.mp run
      have same := pageAlloc_tlb taken
      cases page with
      | none =>
        cases rest
        exact same
      | some page =>
        obtain ⟨table, _, done⟩ := bind_ok.mp rest
        cases done
        exact same

theorem pageRemove_tlb (run : pageRemove s pgdir va = .ok s') :
    s' = s ∧ walk s pgdir va = none ∨ s'.tlb = Function.update s.tlb (pgnum va) none := by
  unfold pageRemove at run
  obtain ⟨found, looked, rest⟩ := bind_ok.mp run
  unfold pageLookup at looked
  by_cases present : Present (s.entry pgdir (pdx va))
  · by_cases room : ppn (s.entry pgdir (pdx va)) < s.npages
    · rw [pgdirWalk_present present room] at looked
      change (if ¬ Present (s.entry (ppn (s.entry pgdir (pdx va))) (ptx va)) then _ else _) = _ at looked
      by_cases leaf : Present (s.entry (ppn (s.entry pgdir (pdx va))) (ptx va))
      · rw [if_neg (not_not.mpr leaf)] at looked
        obtain ⟨page, _, done⟩ := bind_ok.mp looked
        cases done
        cases rest
        right
        change Function.update (pageDecref s page).tlb (pgnum va) none = _
        rw [pageDecref_tlb]
      · rw [if_pos leaf] at looked
        cases looked
        cases rest
        left
        refine ⟨rfl, ?_⟩
        unfold walk
        dsimp only
        rw [if_pos present, if_neg leaf]
    · rw [pgdirWalk_wild present room] at looked
      cases looked
  · rw [pgdirWalk_absent present] at looked
    cases looked
    cases rest
    left
    refine ⟨rfl, ?_⟩
    unfold walk
    dsimp only
    rw [if_neg present]

theorem pageInsert_tlb {r : Int} (run : pageInsert s pgdir pp va perm = .ok (r, s')) :
    (∀ v, v ≠ pgnum va → s'.tlb v = s.tlb v) ∧
      (s'.tlb (pgnum va) = none ∨ s'.tlb (pgnum va) = s.tlb (pgnum va) ∧ walk s pgdir va = none) := by
  unfold pageInsert at run
  obtain ⟨⟨found, s1⟩, walked, rest⟩ := bind_ok.mp run
  have same := pgdirWalk_tlb walked
  cases found with
  | none =>
    cases rest
    have absent : walk s pgdir va = none := by
      unfold walk
      dsimp only
      rw [if_neg]
      intro present
      by_cases room : ppn (s.entry pgdir (pdx va)) < s.npages
      · rw [pgdirWalk_present present room] at walked
        cases walked
      · rw [pgdirWalk_wild present room] at walked
        cases walked
    rw [same]
    exact ⟨fun _ _ => rfl, Or.inr ⟨rfl, absent⟩⟩
  | some p =>
    have tlb2 : (s1.setRef pp ((s1.pages pp).ppRef + 1)).tlb = s.tlb := same
    -- a page mapped before was found by the walk, with nothing changed
    have there : walk s pgdir va ≠ none → s1 = s ∧ Present (s1.entry p.table p.idx) := by
      intro mapped
      obtain ⟨t, there⟩ := Option.ne_none_iff_exists'.mp mapped
      obtain ⟨present, entry, _⟩ := walk_some.mp there
      by_cases room : ppn (s.entry pgdir (pdx va)) < s.npages
      · rw [pgdirWalk_present present room] at walked
        cases walked
        exact ⟨rfl, entry⟩
      · rw [pgdirWalk_wild present room] at walked
        cases walked
    have entry : (s1.setRef pp ((s1.pages pp).ppRef + 1)).entry p.table p.idx =
        s1.entry p.table p.idx := rfl
    dsimp only at rest
    rw [entry] at rest
    by_cases leaf : Present (s1.entry p.table p.idx)
    · rw [if_pos leaf] at rest
      obtain ⟨s3, removed, done⟩ := bind_ok.mp rest
      have tlb3 : s'.tlb = s3.tlb := by
        cases done
        rfl
      rw [tlb3, ← tlb2]
      rcases pageRemove_tlb removed with ⟨rfl, empty⟩ | dropped
      · refine ⟨fun _ _ => rfl, Or.inr ⟨rfl, ?_⟩⟩
        by_contra mapped
        obtain ⟨rfl, _⟩ := there mapped
        exact mapped empty
      · rw [dropped]
        refine ⟨fun v other => Function.update_of_ne other _ _, Or.inl ?_⟩
        rw [Function.update_self]
    · rw [if_neg leaf] at rest
      obtain ⟨s3, removed, done⟩ := bind_ok.mp rest
      cases removed
      have tlb3 : s'.tlb = (s1.setRef pp ((s1.pages pp).ppRef + 1)).tlb := by
        cases done
        rfl
      rw [tlb3, tlb2]
      refine ⟨fun _ _ => rfl, Or.inr ⟨rfl, ?_⟩⟩
      by_contra mapped
      exact leaf (there mapped).2

end Invalidation

section Calls
variable {m : Machine} {dirs : Dirs} {s s' s1 : State} {fl fl1 fl' : List Nat} {e : Fin NENV}
  {d : Fin userPdes} {i : Fin NPTENTRIES} {pgdir t va pp perm : Nat}

theorem inserted_remapped (acc : Accounted dirs none s fl) (he : dirs e = some pgdir)
    (small : perm < 4096) (walked : Walked dirs none e d pgdir s fl t s1 fl1)
    (inserted : Inserted dirs e d i pgdir pp perm s t s1 fl1 s' fl') :
    Remapped dirs fl e d i pgdir t s s' := by
  have kern := inserted.quiet
  have table : t ∈ fl ∧ target dirs none s (.table e d) = none ∨
      target dirs none s (.table e d) = some t := by
    rcases walked with ⟨there, _, _⟩ | ⟨empty, _, rfl⟩
    · exact Or.inr there
    · exact Or.inl ⟨by simp, empty⟩
  refine ⟨table, inserted.quiet.kernPgdir, inserted.mem_of_ne, inserted.dir_of_ne, ?_, ?_⟩
  · intro present
    refine ⟨perm, small, ?_⟩
    rw [inserted.dir]
    rcases walked with ⟨_, rfl, _⟩ | ⟨empty, _, _⟩
    · rfl
    · exact absurd present ((table_absent he).mp empty)
  · intro there j other
    rw [inserted.table_of_ne j other]
    rcases walked with ⟨_, rfl, _⟩ | ⟨empty, _, _⟩
    · rfl
    · rw [empty] at there
      cases there

theorem removed_remapped (acc : Accounted dirs none s fl) (he : dirs e = some pgdir)
    (ht : target dirs none s (.table e d) = some t) (i p va : Nat) :
    Remapped dirs fl e d i pgdir t s (clearLeaf s t i p va) := by
  have apart : pgdir ≠ t := Forest.root_ne_table acc.apart he ht
  refine ⟨Or.inr ht, (clearLeaf_quiet s t i p va).kernPgdir, ?_, ?_, ?_, ?_⟩
  · intro q other _
    rw [clearLeaf_mem, Function.update_of_ne other]
  · intro j _
    exact clearLeaf_entry_of_ne (Or.inl apart)
  · intro _
    refine ⟨0, by decide, ?_⟩
    rw [clearLeaf_entry_of_ne (Or.inl apart), Nat.or_zero]
  · intro _ j other
    exact clearLeaf_entry_of_ne (Or.inr other)

theorem walk_tables (acc : Accounted dirs none s fl) (shaped : AllShaped dirs s)
    (self : ppn (s.entry s.kernPgdir uvptPde) = s.kernPgdir) (kern : s'.kernPgdir = s.kernPgdir)
    (same : ∀ q, TablePage dirs s q → s'.mem q = s.mem q) {c : Nat} (dir : Directory dirs s c)
    (word : va < WORD) : walk s' c va = walk s c va := by
  have frames : ∀ q, KernFrame s q → s'.mem q = s.mem q := fun q kernel => same q (Or.inr kernel)
  have dir_mem : s'.mem c = s.mem c := by
    rcases dir with rfl | ⟨f, hf⟩
    · exact frames _ (Or.inl rfl)
    · exact same c (Or.inl (Or.inl ⟨f, hf⟩))
  have entries := entry_mem dir_mem
  by_cases user : va < UTOP
  · apply walk_entries (entries _)
    intro present
    rcases dir with rfl | ⟨f, hf⟩
    · exact absurd present (entryPage_none.mp (acc.kernEmpty (pdx va) (user_slot user)))
    · have held : target dirs none s (.table f ⟨pdx va, user_slot user⟩) =
          some (ppn (s.entry c (pdx va))) := (table_entry hf).mpr ⟨present, rfl⟩
      exact entry_mem (same _ (Or.inl (Or.inr ⟨f, _, held⟩))) _
  · rcases high_slot (Nat.le_of_not_lt user) word with static | here
    · have before : s.entry c (pdx va) = s.entry s.kernPgdir (pdx va) := by
        rcases dir with rfl | ⟨f, hf⟩
        · rfl
        · exact (shaped f c hf).high _ static
      apply walk_kernel kern frames static before
      rw [entries, kern_entry_frame kern frames]
      exact before
    · apply walk_entries (entries _)
      intro _
      have own : ppn (s.entry c (pdx va)) = c := by
        rcases dir with rfl | ⟨f, hf⟩
        · rw [here, self]
        · rw [here, (shaped f c hf).uvpt,
            ppn_mapEntry (managed_room acc (root_managed acc hf)) (by decide)]
      rw [own]
      exact entries _

/-- A call for one page leaves the TLB with what a walk finds. -/
theorem Remapped.coherent {user : pdx va < userPdes}
    (remapped : Remapped dirs fl e ⟨pdx va, user⟩ (ptx va) pgdir t s s')
    (acc : Accounted dirs none s fl) (shaped : AllShaped dirs s) (he : dirs e = some pgdir)
    (self : ppn (s.entry s.kernPgdir uvptPde) = s.kernPgdir) (coherent : Coherent s)
    (dir : Directory dirs s s.cr3) (cr3 : s'.cr3 = s.cr3) (word : va < WORD)
    (others : ∀ v, v ≠ pgnum va → s'.tlb v = s.tlb v)
    (here : s'.tlb (pgnum va) = none ∨
      s'.tlb (pgnum va) = s.tlb (pgnum va) ∧ walk s pgdir va = none) : Coherent s' := by
  intro va' word' t cached
  have before : s.tlb (pgnum va') = some t ∧ (pgnum va' = pgnum va → walk s pgdir va = none) := by
    by_cases same : pgnum va' = pgnum va
    · rw [same] at cached ⊢
      rcases here with dropped | ⟨kept, empty⟩
      · rw [dropped] at cached
        cases cached
      · rw [kept] at cached
        exact ⟨cached, fun _ => empty⟩
    · rw [others _ same] at cached
      exact ⟨cached, fun here => absurd here same⟩
  obtain ⟨t1, walked, agrees⟩ := coherent va' word' t before.1
  rw [cr3]
  rcases dir with kern | ⟨f, hf⟩
  · rw [kern] at walked ⊢
    rw [remapped.kernel acc he word' self]
    exact ⟨t1, walked, agrees⟩
  · by_cases own : s.cr3 = pgdir
    · rw [own] at walked ⊢
      have elsewhere : pdx va' ≠ pdx va ∨ ptx va' ≠ ptx va := by
        by_contra both
        rw [not_or, not_not, not_not] at both
        have same := same_page word' word both.1 both.2
        rw [walk_page_same same, before.2 same] at walked
        cases walked
      obtain ⟨t2, walked', agrees'⟩ := remapped.own acc shaped he word' elsewhere walked
      exact ⟨t2, walked', agrees.trans agrees'⟩
    · rw [remapped.other acc shaped he hf own word']
      exact ⟨t1, walked, agrees⟩

end Calls

end JosRemaps
