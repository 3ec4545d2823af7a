import Jos.Tlb
import Jos.UserMemRights

/- What page_insert promises its callers, in every directory and at every page below UTOP. A page
   table that it makes is itself mapped, by the slot at UVPT. -/
namespace JosInsertContract
open JosLayout FrameWords JosMachine JosPmap JosMmu JosEnv JosBoot JosAccounting JosPageOps
open JosMapping JosEnvSpace JosRegions JosBootPages JosStaticMap JosPageRuns JosRefWrap JosDirRights
open JosUserStores JosLoading JosNewEnv JosRemaps JosTlb IntrusiveList Ledger SlotFill
open TableForest CountedLoop

/-- The books of the allocator, and what directories look like. -/
structure Books (dirs : Dirs) (s : State) (fl : List Nat) : Prop where
  acc : Accounted dirs none s fl
  bounded : Bounded dirs none s
  shaped : AllShaped dirs s
  uvpt : s.entry s.kernPgdir uvptPde = mapEntry s.kernPgdir PTE_U
  kernRoom : s.kernPgdir < 1048576

def CountRoom (dirs : Dirs) (s : State) : Prop := ∀ q, refs (target dirs none s) q < 65535

def Maps (s : State) (pgdir va q : Nat) : Prop :=
  ∃ p, pageLookup s pgdir va = .ok (some (q, p))

/-- The processor finds the same page at va as before, with the same rights, or again none. -/
def Unmoved (s s' : State) (c va : Nat) : Prop :=
  Option.Rel Agrees (walk s c va) (walk s' c va)

/-- The page at UVPT where the directory would show the page table of va, if there is none yet. -/
def NewTable (s : State) (pgdir va c va' : Nat) : Prop :=
  c = pgdir ∧ pdx va' = uvptPde ∧ ptx va' = pdx va ∧ ¬ Present (s.entry pgdir (pdx va))

def NoTable (s : State) (fl : List Nat) (pgdir va : Nat) : Prop :=
  ¬ Present (s.entry pgdir (pdx va)) ∧ fl = []

/-- What page_insert has done when it returns 0. It promises nothing about the pages in spare. -/
structure Mapped (spare : Nat → Nat → Prop) (dirs : Dirs) (s : State) (fl : List Nat)
    (pgdir pp va perm : Nat) (s' : State) : Prop where
  found : ∃ p, pageLookup s' pgdir va = .ok (some (pp, p)) ∧
    s'.entry p.table p.idx = page2pa pp ||| perm ||| PTE_P
  others : ∀ c va', Directory dirs s c → va' < WORD → (c = pgdir → pgnum va' ≠ pgnum va) →
    ¬ spare c va' → Unmoved s s' c va'
  counted : ¬ Maps s pgdir va pp → (s'.pages pp).ppRef.toNat = (s.pages pp).ppRef.toNat + 1
  displaced : ∀ q, Maps s pgdir va q → q ≠ pp →
    (s'.pages q).ppRef.toNat + 1 = (s.pages q).ppRef.toNat ∧
      (OnFreeList s' q ↔ (s.pages q).ppRef.toNat = 1)
  again : Maps s pgdir va pp → (s'.pages pp).ppRef = (s.pages pp).ppRef ∧ FreeList s' fl

/-- page_insert fails exactly for want of a page table, with nothing changed. -/
def Contract (spare : Nat → Nat → Prop) (dirs : Dirs) (s : State) (fl : List Nat)
    (pgdir pp va perm : Nat) : Prop :=
  (NoTable s fl pgdir va ∧ pageInsert s pgdir pp va perm = .ok (-E_NO_MEM, s)) ∨
    (¬ NoTable s fl pgdir va ∧ ∃ s', pageInsert s pgdir pp va perm = .ok (0, s') ∧
      Mapped spare dirs s fl pgdir pp va perm s')

section Frames
variable {dirs : Dirs} {s s' : State} {fl : List Nat} {c pgdir va va' t q : Nat}

theorem unmoved_of_eq (same : walk s' c va = walk s c va) : Unmoved s s' c va := by
  unfold Unmoved
  rw [same]
  cases walk s c va with
  | none => exact .none
  | some t => exact .some (agrees_refl t)

theorem Unmoved.trans {s'' : State} (first : Unmoved s s' c va)
    (second : Unmoved s' s'' c va) : Unmoved s s'' c va := by
  unfold Unmoved at *
  cases before : walk s c va with
  | none =>
    rw [before] at first
    cases between : walk s' c va with
    | none =>
      rw [between] at second
      exact second
    | some t =>
      rw [between] at first
      cases first
  | some t =>
    rw [before] at first
    cases between : walk s' c va with
    | none =>
      rw [between] at first
      cases first
    | some t' =>
      rw [between] at first second
      cases after : walk s'' c va with
      | none =>
        rw [after] at second
        cases second
      | some t'' =>
        rw [after] at second
        cases first with
        | some agrees =>
          cases second with
          | some agrees' => exact .some (agrees.trans agrees')

theorem kern_self (books : Books dirs s fl) : ppn (s.entry s.kernPgdir uvptPde) = s.kernPgdir := by
  rw [books.uvpt, ppn_mapEntry books.kernRoom (by decide)]

theorem dir_uvpt (books : Books dirs s fl) (dir : Directory dirs s c) :
    s.entry c uvptPde = mapEntry c PTE_U ∧ c < 1048576 := by
  rcases dir with rfl | ⟨e, he⟩
  · exact ⟨books.uvpt, books.kernRoom⟩
  · exact ⟨(books.shaped e c he).uvpt, managed_room books.acc (root_managed books.acc he)⟩

theorem self_rights (c : Nat) : UserBit (mapEntry c PTE_U) ∧ ¬ Writable (mapEntry c PTE_U) := by
  unfold UserBit Writable
  rw [mapEntry_and (by decide) (by decide), mapEntry_and (by decide) (by decide)]
  decide

theorem dir_busy (acc : Accounted dirs none s fl) (dir : Directory dirs s c) : c ∉ fl := by
  intro listed
  rcases dir with rfl | ⟨e, he⟩
  · exact acc.kernApart (acc.managed _ listed)
  · exact acc.unused c listed (.root e) he

theorem dir_apart {t : Nat} {rest : List Nat} (acc : Accounted dirs none s (t :: rest))
    (dir : Directory dirs s c) : c ≠ t := by
  rintro rfl
  exact dir_busy acc dir List.mem_cons_self

theorem maps_absent (absent : ¬ Present (s.entry pgdir (pdx va))) : ¬ Maps s pgdir va q := by
  intro found
  obtain ⟨p, found⟩ := found
  unfold pageLookup at found
  rw [pgdirWalk_absent absent] at found
  cases found

theorem walk_uvpt (books : Books dirs s fl) (dir : Directory dirs s c) (slot : pdx va = uvptPde) :
    walk s c va = if Present (s.entry c (ptx va))
      then some ⟨mapEntry c PTE_U, s.entry c (ptx va)⟩ else none := by
  obtain ⟨self, room⟩ := dir_uvpt books dir
  have present : Present (mapEntry c PTE_U) := present_mapEntry (by decide)
  unfold walk
  dsimp only
  rw [slot, self, if_pos present, ppn_mapEntry room (by decide)]

theorem walk_table (books : Books dirs s fl) (dir : Directory dirs s c) (word : va < WORD)
    (present : Present (s.entry c (pdx va))) :
    (∃ x : PageSlot, x.Structural ∧ (∀ e, x ≠ .root e) ∧
        target dirs none s x = some (ppn (s.entry c (pdx va)))) ∨
      (pdx va = uvptPde ∧ ppn (s.entry c (pdx va)) = c) := by
  by_cases user : va < UTOP
  · left
    rcases dir with rfl | ⟨e, he⟩
    · exact absurd present (entryPage_none.mp (books.acc.kernEmpty (pdx va) (user_slot user)))
    · refine ⟨.table e ⟨pdx va, user_slot user⟩, trivial, by simp, ?_⟩
      exact (table_entry he).mpr ⟨present, rfl⟩
  · rcases high_slot (Nat.le_of_not_lt user) word with static | here
    · left
      have same : s.entry c (pdx va) = s.entry s.kernPgdir (pdx va) := by
        rcases dir with rfl | ⟨e, he⟩
        · rfl
        · exact (books.shaped e c he).high _ static
      refine ⟨.fixed ⟨pdx va, static.2.1⟩, trivial, by simp, ?_⟩
      rw [fixed_entry static, same]
      rw [same] at present
      exact entryPage_some.mpr ⟨present, rfl⟩
    · right
      obtain ⟨self, room⟩ := dir_uvpt books dir
      refine ⟨here, ?_⟩
      rw [here, self, ppn_mapEntry room (by decide)]

theorem table_not_dir (acc : Accounted dirs none s fl) (dir : Directory dirs s c) {x : PageSlot}
    (structural : x.Structural) (plain : ∀ e, x ≠ .root e) :
    target dirs none s x ≠ some c := by
  intro held
  rcases dir with rfl | ⟨e, he⟩
  · exact acc.kernApart (acc.targets x _ held)
  · exact plain e (acc.apart x (.root e) c structural trivial held he)

end Frames

section Hung
variable {dirs : Dirs} {s : State} {fl : List Nat} {c pgdir pp perm va va' t : Nat}

theorem hung_others (books : Books dirs s (t :: fl)) (own : Directory dirs s pgdir)
    (absent : ¬ Present (s.entry pgdir (pdx va))) (small : perm < 4096) (wordv : va < WORD)
    (dir : Directory dirs s c) (word : va' < WORD) (other : c = pgdir → pgnum va' ≠ pgnum va)
    (hidden : ¬ NewTable s pgdir va c va') :
    walk (hung s pgdir (pdx va) t (ptx va) pp perm) c va' = walk s c va' := by
  have room := managed_room books.acc (books.acc.managed t (by simp))
  have not_free : ∀ {c}, Directory dirs s c → c ≠ t := by
    intro c dir same
    subst same
    exact dir_busy books.acc dir (by simp)
  by_cases slot : c = pgdir ∧ pdx va' = pdx va
  · obtain ⟨rfl, slot⟩ := slot
    have leaf : ptx va' ≠ ptx va := fun same => other rfl (same_page word wordv slot same)
    have before : walk s c va' = none := by
      unfold walk
      dsimp only
      rw [slot, if_neg absent]
    have after : walk (hung s c (pdx va) t (ptx va) pp perm) c va' = none := by
      obtain ⟨present, named⟩ := entryPage_some.mp (entryPage_flags room small)
      unfold walk
      dsimp only
      rw [slot, hung_dir (not_free own) room small, if_pos present, named,
        hung_table (not_free own) leaf, if_neg (by decide)]
    rw [before, after]
  · have elsewhere : c ≠ pgdir ∨ pdx va' ≠ pdx va := not_and_or.mp slot
    apply walk_entries (hung_entry_of_ne (not_free dir) elsewhere)
    intro present
    rcases walk_table books dir word present with ⟨x, structural, plain, held⟩ | ⟨self, named⟩
    · have busy := busy_of_target books.acc held
      have differ : ppn (s.entry c (pdx va')) ≠ pgdir := by
        intro same
        rw [same] at held
        exact table_not_dir books.acc own structural plain held
      apply hung_entry_of_ne _ (Or.inl differ)
      intro same
      exact busy (by simp [same])
    · rw [named]
      apply hung_entry_of_ne (not_free dir)
      by_cases same : c = pgdir
      · right
        exact fun shown => hidden ⟨same, self, shown, absent⟩
      · exact Or.inl same

theorem hung_shown (books : Books dirs s (t :: fl)) (own : Directory dirs s pgdir)
    (absent : ¬ Present (s.entry pgdir (pdx va))) (small : perm < 4096) (user : va < UTOP)
    (shown : pdx va' = uvptPde ∧ ptx va' = pdx va) :
    walk s pgdir va' = none ∧
      ∃ tr, walk (hung s pgdir (pdx va) t (ptx va) pp perm) pgdir va' = some tr ∧
        Translation.page tr = t ∧ Translation.user tr ∧ ¬ Translation.writable tr := by
  obtain ⟨slot, leaf⟩ := shown
  obtain ⟨self, inside⟩ := dir_uvpt books own
  have room := managed_room books.acc (books.acc.managed t (by simp))
  have apart : pgdir ≠ t := by
    intro same
    subst same
    exact dir_busy books.acc own (by simp)
  have named : ppn (s.entry pgdir uvptPde) = pgdir := by
    rw [self, ppn_mapEntry inside (by decide)]
  have there : Present (s.entry pgdir uvptPde) := by
    rw [self]
    exact present_mapEntry (by decide)
  have other : uvptPde ≠ pdx va := by
    have low := user_slot user
    simp only [uvptPde, userPdes] at low ⊢
    omega
  have still : (hung s pgdir (pdx va) t (ptx va) pp perm).entry pgdir uvptPde =
      s.entry pgdir uvptPde := hung_entry_of_ne apart (Or.inr other)
  obtain ⟨present, page⟩ := entryPage_some.mp (entryPage_flags room small)
  obtain ⟨reads, shut⟩ := self_rights pgdir
  rw [← self] at reads shut
  refine ⟨?_, ⟨s.entry pgdir uvptPde, tableEntry t ||| perm⟩, ?_, page, ⟨reads, ?_⟩, ?_⟩
  · rw [walk_uvpt books own slot, leaf, if_neg absent]
  · rw [walk_some, slot, still, named, leaf, hung_dir apart room small]
    exact ⟨there, present, rfl⟩
  · exact or_keeps_flag (tableEntry_user t) perm
  · exact fun both => shut both.1

theorem hung_mapped (books : Books dirs s (t :: fl)) (few : CountRoom dirs s)
    (own : Directory dirs s pgdir)
    (managed : Managed s pp) (busy : pp ∉ t :: fl) (user : va < UTOP)
    (absent : ¬ Present (s.entry pgdir (pdx va))) (small : perm < 4096) :
    Mapped (NewTable s pgdir va) dirs s (t :: fl) pgdir pp va perm
      (hung s pgdir (pdx va) t (ptx va) pp perm) := by
  have acc := books.acc
  have table := acc.managed t (by simp)
  have room := managed_room acc table
  have room_pp := managed_room acc managed
  have word : va < WORD := Nat.lt_trans user (by decide)
  have apart : pgdir ≠ t := by
    intro same
    subst same
    exact dir_busy acc own (by simp)
  have fresh : pp ≠ t := fun same => busy (by simp [same])
  have nothing : ∀ q, ¬ Maps s pgdir va q := fun q => maps_absent absent
  have dir : entryPage ((hung s pgdir (pdx va) t (ptx va) pp perm).entry pgdir (pdx va)) =
      some t := by
    rw [hung_dir apart room small]
    exact entryPage_flags room small
  have leaf := @hung_leaf s pgdir (pdx va) t (ptx va) pp perm apart room_pp small
  have mapped : entryPage ((hung s pgdir (pdx va) t (ptx va) pp perm).entry t (ptx va)) =
      some pp := by
    rw [leaf]
    exact entryPage_mapped room_pp small
  refine ⟨⟨_, pageLookup_mapped dir table.1 mapped managed.1, leaf⟩, ?_, ?_, ?_, ?_⟩
  · intro c va' dir_c word' other hidden
    exact unmoved_of_eq (hung_others books own absent small word dir_c word' other hidden)
  · intro _
    have once := acc.counts pp managed
    have small_count := few pp
    rw [hung_ref fresh, once, ← count_up]
    simp only [UInt16.toNat_ofNat']
    omega
  · intro q found
    exact absurd found (nothing q)
  · intro found
    exact absurd found (nothing pp)

end Hung

section Replaced
variable {dirs : Dirs} {s s' : State} {fl fl' : List Nat} {e : Fin NENV} {d : Fin userPdes}
  {i : Fin NPTENTRIES} {c pgdir pp perm va va' t q : Nat} {s1 : State} {fl1 : List Nat}

theorem maps_iff (acc : Accounted dirs none s fl) (he : dirs e = some pgdir)
    (user : pdx va < userPdes) :
    Maps s pgdir va q ↔ target dirs none s (leafSlot e va user) = some q := by
  constructor
  · intro found
    obtain ⟨p, found⟩ := found
    rcases pageLookup_spec acc he user with ⟨_, look⟩ | ⟨t, q', _, held, look⟩
    · rw [look] at found
      cases found
    · rw [look] at found
      cases found
      exact held
  · intro held
    rcases pageLookup_spec acc he user with ⟨empty, _⟩ | ⟨t, q', _, held', look⟩
    · rw [empty] at held
      cases held
    · rw [held] at held'
      cases held'
      exact ⟨_, look⟩

theorem own_none (remapped : Remapped dirs fl e d i pgdir t s s') (acc : Accounted dirs none s fl)
    (shaped : AllShaped dirs s) (he : dirs e = some pgdir)
    (ht : target dirs none s (.table e d) = some t) (word : va' < WORD)
    (elsewhere : pdx va' ≠ d.val ∨ ptx va' ≠ i) (empty : walk s pgdir va' = none) :
    walk s' pgdir va' = none := by
  have own := shaped e pgdir he
  obtain ⟨present, named⟩ := (table_entry he).mp ht
  by_cases user : va' < UTOP
  · by_cases here : pdx va' = d.val
    · obtain ⟨perm, small, changed⟩ := remapped.flags present
      obtain ⟨same, still, _⟩ := ppn_or_flags (State.entry_lt s pgdir d) small
      have kept := remapped.leaf ht (ptx va') (elsewhere.resolve_left (not_not.mpr here))
      have absent : ¬ Present (s.entry t (ptx va')) := by
        intro leaf
        unfold walk at empty
        dsimp only at empty
        rw [here, if_pos present, named, if_pos leaf] at empty
        cases empty
      unfold walk
      dsimp only
      rw [here, changed, if_pos (still present), same, named, kept, if_neg absent]
    · rw [walk_entries (remapped.dir _ here), empty]
      intro there
      have held : target dirs none s (.table e ⟨pdx va', user_slot user⟩) =
          some (ppn (s.entry pgdir (pdx va'))) := (table_entry he).mpr ⟨there, rfl⟩
      have slot : (⟨pdx va', user_slot user⟩ : Fin userPdes) ≠ d :=
        fun same => here (congrArg Fin.val same)
      exact entry_mem (remapped.table_mem acc he held (Or.inr slot)) (ptx va')
  · have differ : pdx va' ≠ d.val := by
      have above : ¬ pdx va' < userPdes := fun low => user ((pdx_user word).mp low)
      have small := d.isLt
      omega
    rcases high_slot (Nat.le_of_not_lt user) word with static | here
    · rw [remapped.static acc he own static (remapped.dir _ differ), empty]
    · rw [walk_entries (remapped.dir _ differ), empty]
      intro there
      have room := managed_room acc (root_managed acc he)
      have self : ppn (s.entry pgdir (pdx va')) = pgdir := by
        rw [here, own.uvpt, ppn_mapEntry room (by decide)]
      rw [self]
      apply remapped.dir
      intro slot
      unfold walk at empty
      dsimp only at empty
      rw [if_pos there, self, slot, if_pos present] at empty
      cases empty

theorem remapped_others (books : Books dirs s fl) (he : dirs e = some pgdir)
    (remapped : Remapped dirs fl e d i pgdir t s s')
    (ht : target dirs none s (.table e d) = some t) (dir : Directory dirs s c) (word : va' < WORD)
    (elsewhere : c = pgdir → pdx va' ≠ d.val ∨ ptx va' ≠ i) : Unmoved s s' c va' := by
  have acc := books.acc
  rcases dir with rfl | ⟨f, hf⟩
  · exact unmoved_of_eq (remapped.kernel acc he word (kern_self books))
  · by_cases same : c = pgdir
    · subst same
      unfold Unmoved
      cases before : walk s c va' with
      | none =>
        rw [own_none remapped acc books.shaped he ht word (elsewhere rfl) before]
        exact .none
      | some tr =>
        obtain ⟨tr', after, agrees⟩ := remapped.own acc books.shaped he word (elsewhere rfl) before
        rw [after]
        exact .some agrees
    · exact unmoved_of_eq (remapped.other acc books.shaped he hf same word)

theorem count_refs (acc : Accounted dirs none s fl) (managed : Managed s q)
    (few : refs (target dirs none s) q < 65536) :
    (s.pages q).ppRef.toNat = refs (target dirs none s) q := by
  rw [acc.counts q managed]
  simp only [UInt16.toNat_ofNat']
  omega

theorem displaced_free (acc : Accounted dirs none s fl) (he : dirs e = some pgdir)
    (walked : Walked dirs none e d pgdir s fl t s1 fl1)
    (inserted : Inserted dirs e d i pgdir pp perm s t s1 fl1 s' fl')
    (held : target dirs none s (.leaf e d i) = some q) (differ : q ≠ pp) :
    q ∈ fl' ↔ refs (target dirs none s) q = 1 := by
  have busy := busy_of_target acc held
  have before : ∀ x : PageSlot, x ≠ .hand →
      (target dirs (some pp) s1 x = some q ↔ target dirs none s x = some q) := by
    intro x hand
    rw [target_hand hand dirs (some pp) none, walked.target_eq acc he]
    by_cases here : x = .table e d
    · subst here
      rw [Function.update_self]
      rcases walked with ⟨there, _, _⟩ | ⟨empty, _, rfl⟩
      · rw [there]
      · rw [empty]
        constructor
        · intro same
          cases same
          exact absurd (List.mem_cons_self) busy
        · exact fun never => nomatch never
    · rw [Function.update_of_ne here]
  have cleared := refs_clear (target dirs none s) (.leaf e d i : PageSlot) q
  rw [if_pos held] at cleared
  have last : refs (target dirs none s) q = 1 ↔
      refs (Function.update (target dirs none s) (.leaf e d i) none) q = 0 := by
    omega
  rw [inserted.free_eq, mem_unlink_free, last, refs_zero]
  constructor
  · intro free y
    obtain ⟨_, others⟩ := free.resolve_left fun listed => busy (walked.subset listed)
    by_cases here : y = .leaf e d i
    · subst here
      rw [Function.update_self]
      simp
    · rw [Function.update_of_ne here]
      by_cases hand : y = .hand
      · subst hand
        exact fun never => nomatch never
      · exact fun there => others y here ((before y hand).mpr there)
  · intro others
    right
    refine ⟨(before _ (by simp)).mpr held, ?_⟩
    intro y here
    by_cases hand : y = .hand
    · subst hand
      intro same
      exact differ (Option.some.inj same).symm
    · have empty := others y
      rw [Function.update_of_ne here] at empty
      exact fun there => empty ((before y hand).mp there)

theorem inserted_keeps_free (inserted : Inserted dirs e d i pgdir pp perm s t s1 fl1 s' fl')
    (listed : q ∈ fl1) : q ∈ fl' := by
  rw [inserted.free_eq]
  exact (mem_unlink_free _ _ q).mpr (Or.inl listed)

open Classical in
theorem inserted_length (acc : Accounted dirs none s fl) (he : dirs e = some pgdir)
    (walked : Walked dirs none e d pgdir s fl t s1 fl1)
    (inserted : Inserted dirs e d i pgdir pp perm s t s1 fl1 s' fl')
    (fresh : target dirs none s (.leaf e d i) ≠ some pp) :
    fl'.length + (if target dirs none s (.table e d) = none then 1 else 0) =
      fl.length + (if ∃ q, target dirs none s (.leaf e d i) = some q ∧
        refs (target dirs none s) q = 1 then 1 else 0) := by
  have taken : fl1.length + (if target dirs none s (.table e d) = none then 1 else 0) =
      fl.length := by
    rcases walked with ⟨there, _, rfl⟩ | ⟨empty, _, rfl⟩
    · rw [there, if_neg (by simp)]
      rfl
    · rw [if_pos empty, List.length_cons]
  have now : target dirs (some pp) s1 (.leaf e d i) = target dirs none s (.leaf e d i) := by
    rw [target_hand (by simp) dirs (some pp) none, walked.target_eq acc he,
      Function.update_of_ne (by simp)]
  have given : fl'.length = fl1.length + (if ∃ q, target dirs none s (.leaf e d i) = some q ∧
      refs (target dirs none s) q = 1 then 1 else 0) := by
    have cases_free := unlink_free_or (⟨fl1, target dirs (some pp) s1⟩ : Book PageSlot Nat)
      (.leaf e d i)
    rw [← inserted.free_eq] at cases_free
    dsimp only at cases_free
    rw [now] at cases_free
    rcases cases_free with same | ⟨q, held, longer⟩
    · rw [same, if_neg]
      · rfl
      · intro last
        obtain ⟨q, held, single⟩ := last
        have differ : q ≠ pp := by
          intro eq
          exact fresh (eq ▸ held)
        have listed := (displaced_free acc he walked inserted held differ).mpr single
        rw [same] at listed
        exact busy_of_target acc held (walked.subset listed)
    · have differ : q ≠ pp := by
        intro eq
        exact fresh (eq ▸ held)
      have listed : q ∈ fl' := by simp [longer]
      have single := (displaced_free acc he walked inserted held differ).mp listed
      rw [if_pos ⟨q, held, single⟩, longer, List.length_cons]
  omega

theorem again_free (inserted : Inserted dirs e d i pgdir pp perm s t s fl s' fl')
    (held : target dirs none s (.leaf e d i) = some pp) : fl' = fl := by
  have held' : target dirs (some pp) s (.leaf e d i) = some pp := held
  have counted : refs (Function.update (target dirs (some pp) s) (.leaf e d i) none) pp ≠ 0 := by
    intro zero
    have hand := refs_zero.mp zero .hand
    rw [Function.update_of_ne (by simp)] at hand
    exact hand rfl
  rw [inserted.free_eq]
  exact unlink_free_kept held' counted

theorem again_refs (ht : target dirs none s (.table e d) = some t)
    (inserted : Inserted dirs e d i pgdir pp perm s t s fl s' fl') (q : Nat) :
    refs (target dirs none s') q + (if target dirs none s (.leaf e d i) = some q then 1 else 0) =
      refs (target dirs none s) q + (if pp = q then 1 else 0) := by
  have walked : Walked dirs none e d pgdir s fl t s fl := Or.inl ⟨ht, rfl, rfl⟩
  have moved := inserted_refs walked inserted q
  have old_table : ¬ (target dirs none s (.table e d) = none ∧ t = q) := by
    rw [ht]
    exact fun never => nomatch never.1
  rw [if_neg old_table, Nat.add_zero] at moved
  exact moved

theorem inserted_mapped (books : Books dirs s fl) (few : CountRoom dirs s) (he : dirs e = some pgdir) (user : va < UTOP)
    (managed : Managed s pp) (small : perm < 4096)
    (ht : target dirs none s (.table e ⟨pdx va, user_slot user⟩) = some t)
    (inserted : Inserted dirs e ⟨pdx va, user_slot user⟩ ⟨ptx va, ptx_lt va⟩ pgdir pp perm s t s fl
      s' fl') (spare : Nat → Nat → Prop) : Mapped spare dirs s fl pgdir pp va perm s' := by
  have acc := books.acc
  have word : va < WORD := Nat.lt_trans user (by decide)
  have room := managed_room acc managed
  have walked : Walked dirs none e ⟨pdx va, user_slot user⟩ pgdir s fl t s fl := Or.inl ⟨ht, rfl, rfl⟩
  have refs_eq := again_refs ht inserted
  have same_managed : ∀ q, Managed s q → Managed s' q := fun q before =>
    managed_same inserted.quiet.npages inserted.quiet.nextfree before
  have before : ∀ q, Managed s q → (s.pages q).ppRef.toNat = refs (target dirs none s) q := by
    intro q managed
    exact count_refs acc managed (books.bounded q)
  have after : ∀ q, Managed s q → (s'.pages q).ppRef.toNat = refs (target dirs none s') q := by
    intro q managed
    have room_q := few q
    have moved := refs_eq q
    exact count_refs inserted.books (same_managed q managed) (by split at moved <;> split at moved <;> omega)
  have dir : entryPage (s'.entry pgdir (pdx va)) = some t := by
    obtain ⟨present, named⟩ := (table_entry he).mp ht
    obtain ⟨same, still, _⟩ := ppn_or_flags (State.entry_lt s pgdir (pdx va)) small
    rw [inserted.dir]
    exact entryPage_some.mpr ⟨still present, same.trans named⟩
  have leaf : entryPage (s'.entry t (ptx va)) = some pp := by
    rw [inserted.leaf]
    exact entryPage_mapped room small
  have looks := pageLookup_mapped dir (same_managed t (acc.targets _ t ht)).1 leaf
    (same_managed pp managed).1
  have maps : ∀ q, Maps s pgdir va q ↔
      target dirs none s (leafSlot e va (user_slot user)) = some q :=
    fun q => maps_iff acc he (user_slot user)
  refine ⟨⟨_, looks, inserted.leaf⟩, ?_, ?_, ?_, ?_⟩
  · intro c va' dir_c word' other _
    refine remapped_others books he (inserted_remapped acc he small walked inserted) ht dir_c word' ?_
    intro own
    rw [← not_and_or]
    intro both
    exact other own (same_page word' word both.1 both.2)
  · intro fresh
    rw [maps] at fresh
    have moved := refs_eq pp
    rw [if_neg fresh, if_pos rfl] at moved
    rw [after pp managed, before pp managed]
    omega
  · intro q found differ
    rw [maps] at found
    have held := acc.targets _ q found
    have moved := refs_eq q
    rw [if_pos found, if_neg (Ne.symm differ)] at moved
    rw [after q held, before q held, onFreeList_iff inserted.books.list,
      displaced_free acc he walked inserted found differ]
    exact ⟨by omega, Iff.rfl⟩
  · intro found
    rw [maps] at found
    have moved := refs_eq pp
    rw [if_pos found, if_pos rfl] at moved
    constructor
    · rw [← UInt16.toNat_inj, after pp managed, before pp managed]
      omega
    · have list := inserted.books.list
      rw [again_free inserted found] at list
      exact list

end Replaced

section Calls
variable {dirs : Dirs} {s : State} {fl : List Nat} {pgdir pp perm va : Nat}

theorem insert_contract (books : Books dirs s fl) (few : CountRoom dirs s) (own : Directory dirs s pgdir)
    (held : Allocated s pp) (user : va < UTOP) (small : perm < 4096) :
    Contract (NewTable s pgdir va) dirs s fl pgdir pp va perm := by
  have acc := books.acc
  obtain ⟨managed, busy⟩ := held
  rw [onFreeList_iff acc.list] at busy
  by_cases present : Present (s.entry pgdir (pdx va))
  · right
    refine ⟨fun none_left => none_left.1 present, ?_⟩
    rcases own with rfl | ⟨e, he⟩
    · exact absurd present (entryPage_none.mp (acc.kernEmpty (pdx va) (user_slot user)))
    · have ht : target dirs none s (.table e ⟨pdx va, user_slot user⟩) =
          some (ppn (s.entry pgdir (pdx va))) := (table_entry he).mpr ⟨present, rfl⟩
      rcases pageInsert_spec acc books.bounded he (user_slot user) managed busy small with
        ⟨empty, _, _⟩ | ⟨t, s1, fl1, s', fl', walked, run, inserted⟩
      · rw [empty] at ht
        cases ht
      · rcases walked with ⟨there, rfl, rfl⟩ | ⟨empty, _, _⟩
        · exact ⟨s', run, inserted_mapped books few he user managed small there inserted _⟩
        · rw [empty] at ht
          cases ht
  · cases fl with
    | nil =>
      left
      refine ⟨⟨present, rfl⟩, ?_⟩
      unfold pageInsert
      rw [pgdirWalk_full acc present]
      rfl
    | cons t rest =>
      right
      refine ⟨fun none_left => List.cons_ne_nil t rest none_left.2, ?_⟩
      have table := acc.managed t (by simp)
      have apart := dir_apart acc own
      exact ⟨_, pageInsert_head (chain_cons_head acc.list).1 table.1 (managed_room acc table) apart
        present pp perm, hung_mapped books few own managed busy user present small⟩

theorem insert_others (books : Books dirs s fl) {e : Fin NENV} (he : dirs e = some pgdir)
    (user : va < UTOP) (small : perm < 4096) {t : Nat} {s1 s' : State} {fl1 fl' : List Nat}
    (walked : Walked dirs none e ⟨pdx va, user_slot user⟩ pgdir s fl t s1 fl1)
    (inserted : Inserted dirs e ⟨pdx va, user_slot user⟩ ⟨ptx va, ptx_lt va⟩ pgdir pp perm s t s1 fl1
      s' fl') (run : pageInsert s pgdir pp va perm = .ok (0, s')) {c va' : Nat}
    (dir : Directory dirs s c) (word : va' < WORD) (other : c = pgdir → pgnum va' ≠ pgnum va)
    (hidden : ¬ NewTable s pgdir va c va') : Unmoved s s' c va' := by
  have acc := books.acc
  have wordv : va < WORD := Nat.lt_trans user (by decide)
  have own : Directory dirs s pgdir := Or.inr ⟨e, he⟩
  have remapped := inserted_remapped acc he small walked inserted
  rcases walked with ⟨there, _, _⟩ | ⟨empty, _, listed⟩
  · apply remapped_others books he remapped there dir word
    intro same
    rw [← not_and_or]
    intro both
    exact other same (same_page word wordv both.1 both.2)
  · subst listed
    have absent := (table_absent he).mp empty
    have table := acc.managed t (by simp)
    have apart := dir_apart acc own
    rw [pageInsert_head (chain_cons_head acc.list).1 table.1 (managed_room acc table) apart absent]
      at run
    cases run
    exact unmoved_of_eq (hung_others books own absent small wordv dir word other hidden)

theorem inserted_books (books : Books dirs s fl) (room : refs (target dirs none s) pp < 65535)
    {e : Fin NENV} (he : dirs e = some pgdir) {d : Fin userPdes} {i : Fin NPTENTRIES}
    (small : perm < 4096) {t : Nat} {s1 s' : State} {fl1 fl' : List Nat}
    (walked : Walked dirs none e d pgdir s fl t s1 fl1)
    (inserted : Inserted dirs e d i pgdir pp perm s t s1 fl1 s' fl') : Books dirs s' fl' := by
  have remapped := inserted_remapped books.acc he small walked inserted
  have kern := entry_mem (remapped.frames books.acc he s.kernPgdir (Or.inl rfl))
  refine ⟨inserted.books, ?_, inserted_shaped books.acc books.shaped he walked inserted, ?_, ?_⟩
  · intro q
    have before := books.bounded q
    have moved := inserted_refs walked inserted q
    have bound : refs (target dirs none s) q +
        (if target dirs none s (.table e d) = none ∧ t = q then 1 else 0) +
        (if pp = q then 1 else 0) < 65536 := by
      by_cases new : target dirs none s (.table e d) = none ∧ t = q
      · obtain ⟨empty, same⟩ := new
        subst same
        have listed : t ∈ fl := (walked_table walked).resolve_right (by simp [empty])
        rw [free_refs books.acc listed]
        split <;> split <;> omega
      · rw [if_neg new]
        by_cases here : pp = q
        · subst here
          rw [if_pos rfl]
          omega
        · rw [if_neg here]
          omega
    omega
  · rw [inserted.quiet.kernPgdir, kern]
    exact books.uvpt
  · rw [inserted.quiet.kernPgdir]
    exact books.kernRoom

theorem insert_shown (books : Books dirs s fl) (own : Directory dirs s pgdir) (user : va < UTOP)
    (small : perm < 4096) {va' : Nat} {s' : State} (new : NewTable s pgdir va pgdir va')
    (run : pageInsert s pgdir pp va perm = .ok (0, s')) :
    walk s pgdir va' = none ∧ ∃ t tr, t ∈ fl ∧ walk s' pgdir va' = some tr ∧
      Translation.page tr = t ∧ Translation.user tr ∧ ¬ Translation.writable tr := by
  obtain ⟨_, slot, leaf, absent⟩ := new
  have acc := books.acc
  cases fl with
  | nil =>
    unfold pageInsert at run
    rw [pgdirWalk_full acc absent] at run
    cases run
  | cons t rest =>
    have table := acc.managed t (by simp)
    have apart := dir_apart acc own
    rw [pageInsert_head (chain_cons_head acc.list).1 table.1 (managed_room acc table) apart absent]
      at run
    cases run
    obtain ⟨before, tr, shown⟩ := @hung_shown dirs s rest pgdir pp perm va va' t books own absent
      small user ⟨slot, leaf⟩
    exact ⟨before, t, tr, by simp, shown⟩

theorem reached_books {m : Machine} (reached : Reached m countRoom (fun _ _ => True) dirs s)
    (acc : Accounted dirs none s fl) : Books dirs s fl := by
  obtain ⟨view, uvpt, inside⟩ := reached_uvpt reached
  exact ⟨acc, view.kept.bounded, view.shaped, uvpt, inside⟩

end Calls

/-- In every state with books in order: page_insert keeps its contract, but for the page table that
    it makes, which the directory shows at UVPT. -/
theorem page_insert_contract {dirs : Dirs} {s : State} {fl : List Nat} {pgdir pp va perm : Nat}
    (books : Books dirs s fl) (few : CountRoom dirs s) (own : Directory dirs s pgdir)
    (held : Allocated s pp) (user : va < UTOP) (flags : PermBits perm) :
    Contract (NewTable s pgdir va) dirs s fl pgdir pp va perm ∧
      ∀ va' s', NewTable s pgdir va pgdir va' → pageInsert s pgdir pp va perm = .ok (0, s') →
        walk s pgdir va' = none ∧ ∃ t tr, t ∈ fl ∧ walk s' pgdir va' = some tr ∧
          Translation.page tr = t ∧ Translation.user tr ∧ ¬ Translation.writable tr := by
  have small := permBits_small flags
  refine ⟨insert_contract books few own held user small, ?_⟩
  intro va' s' new run
  exact insert_shown books own user small new run

theorem oneDir_books : ∃ pgdir pp t fl s, Reached smallMachine countRoom (fun _ _ => True)
    (oneDir pgdir) s ∧ Books (oneDir pgdir) s (t :: fl) ∧ CountRoom (oneDir pgdir) s ∧
    Allocated s pp ∧ ¬ Present (s.entry pgdir 0) ∧ 2 ≤ (t :: fl).length := by
  obtain ⟨s0, fl, run, acc, long⟩ := smallMachine_boot
  match fl, acc, long with
  | p :: q :: t :: rest, acc, long =>
    have more : 2 ≤ (t :: rest).length := by
      simp only [List.length_cons] at long ⊢
      omega
    obtain ⟨reached, taken, moved⟩ := @dir_and_page smallMachine countRoom (fun _ _ => True) s0 (t :: rest)
      p q (fun _ _ _ => trivial) (.memInit run) acc
    obtain ⟨s, at_s⟩ : ∃ s, s = takeFree (newDir s0 (0 : Fin NENV) p) q false := ⟨_, rfl⟩
    rw [← at_s] at reached taken moved
    have few : CountRoom (oneDir p) s := by
      intro r
      have start := refs_without_envs acc r
      have one : refs (target (oneDir p) none s) r =
          refs (target (fun _ => none) none s0) r + if p = r then 1 else 0 := by
        rw [moved]
        exact refs_point rfl p r
      split at one <;> omega
    have books := reached_books reached taken
    have table : target (oneDir p) none s (.table 0 ⟨0, by decide⟩) = none := by
      rw [moved, Function.update_of_ne (by simp)]
      rfl
    have absent := (table_absent (oneDir_self p)).mp table
    have once := acc.nodup
    simp only [List.nodup_cons] at once
    have managed : Managed s q := by
      have before := acc.managed q (by simp)
      rw [at_s]
      exact before
    have held : Allocated s q := by
      refine ⟨managed, ?_⟩
      rw [onFreeList_iff taken.list]
      exact once.2.1
    exact ⟨p, q, t, rest, s, reached, books, few, held, absent, more⟩

/-- At address 0 of such an environment, the page that shows the first page table moves. -/
theorem page_insert_shows_table : ¬ ∀ dirs s fl pgdir pp va perm, Books dirs s fl →
    CountRoom dirs s → Directory dirs s pgdir → Allocated s pp → va < UTOP → PermBits perm →
    Contract (fun _ _ => False) dirs s fl pgdir pp va perm := by
  intro claim
  obtain ⟨pgdir, pp, t, fl, s, _, books, few, held, absent, _⟩ := oneDir_books
  have own : Directory (oneDir pgdir) s pgdir := Or.inr ⟨0, oneDir_self pgdir⟩
  have user : 0 < UTOP := by decide
  have slot : pdx UVPT = uvptPde ∧ ptx UVPT = pdx 0 := by decide
  have first : pdx 0 = 0 := by decide
  rw [← first] at absent
  rcases claim _ _ _ _ _ 0 PTE_U books few own held user JosTlb.user_flag with
    ⟨none_left, _⟩ | ⟨_, s', run, mapped⟩
  · exact List.cons_ne_nil t fl none_left.2
  · obtain ⟨before, _, tr, _, after, _⟩ :=
      insert_shown books own user (by decide) ⟨rfl, slot.1, slot.2, absent⟩ run
    have still := mapped.others pgdir UVPT own (by decide) (fun _ => by decide) id
    unfold Unmoved at still
    rw [before, after] at still
    cases still

theorem page_insert_contract_oneDir : ∃ pgdir pp fl, ∃ s : State,
    Contract (NewTable s pgdir 0) (oneDir pgdir) s fl pgdir pp 0 PTE_U := by
  obtain ⟨pgdir, pp, t, fl, s, _, books, few, held, _⟩ := oneDir_books
  have own : Directory (oneDir pgdir) s pgdir := Or.inr ⟨0, oneDir_self pgdir⟩
  exact ⟨pgdir, pp, t :: fl, s,
    (page_insert_contract books few own held (by decide) JosTlb.user_flag).1⟩

end JosInsertContract
