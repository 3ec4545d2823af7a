import Jos.KernelPart
import Jos.Loader

/- Two kernels that differ in what lies in free pages make the same environment, up to the bytes
   that load_icode does not write: those are what the pages held before. -/
namespace JosPageRemains
open JosLayout FrameWords JosMachine JosPmap JosMmu JosEnv JosBoot JosAccounting JosPageOps
open JosMapping JosEnvSpace JosNewEnv JosRegions JosBootPages JosStaticMap JosPageRuns JosEnvTable
open JosDirRights JosUserMemRights JosUserStores JosLoading JosKernelRuns JosEnvFrames JosKernelPart
open JosLoader IntrusiveList Ledger TableForest CountedLoop

/-- Two states that differ in the bytes of free pages and in the registers left in slot e. -/
structure Alike (s t : State) (e : Fin NENV) : Prop where
  rest : t = { s with mem := t.mem, envs := t.envs }
  busy : ∀ q, ¬ OnFreeList s q → t.mem q = s.mem q
  slots : ∀ f, t.envs f = if f = e.val then { s.envs f with envTf := (t.envs f).envTf } else s.envs f

/-- The pages e reads and writes, now or after some page_insert. -/
def Loose (dirs : Dirs) (s : State) (e : Fin NENV) (q : Nat) : Prop :=
  OnFreeList s q ∨ ∃ d i, target dirs none s (.leaf e d i) = some q

def Left (s0 t0 s t : State) (q x : Nat) : Prop :=
  t.mem q x = s.mem q x ∨ (s.mem q x = s0.mem q x ∧ t.mem q x = t0.mem q x)

/-- In the middle of load_icode, in two runs: the same pages are free and the same ones mapped. -/
structure Twin (m : Machine) (dirs : Dirs) (e : Fin NENV) (s0 t0 s t : State) : Prop where
  tidy : Tidy m dirs s
  tidy' : Tidy m dirs t
  books : ∃ fl, Accounted dirs none s fl ∧ Accounted dirs none t fl
  target_eq : target dirs none t = target dirs none s
  left : ∀ q, Loose dirs s e q → ∀ x, x < PGSIZE → Left s0 t0 s t q x

section Rounds
variable {m : Machine} {dirs : Dirs} {s0 t0 s t s' t' s1 t1 : State} {fl fl' fl1 fl2 : List Nat}
  {e : Fin NENV} {d : Fin userPdes} {i : Fin NPTENTRIES} {pgdir a b p q va : Nat}
  {grants grants' : List Grant}

theorem loose_no_table (tidy : Tidy m dirs s) (loose : Loose dirs s e q) : ¬ TablePage dirs s q := by
  rcases loose with free | ⟨d, i, held⟩
  · obtain ⟨fl, acc⟩ := tidy.view.kept.books
    rw [onFreeList_iff acc.list] at free
    intro table
    rcases table with (⟨f, hf⟩ | ⟨f, d, ht⟩) | kernel
    · exact acc.unused q free (.root f) hf
    · exact acc.unused q free (.table f d) ht
    · exact (kernFrame_apart acc kernel).1 free
  · exact tidy.plain held

theorem loose_round (acc : Accounted dirs none s fl) (he : dirs e = some pgdir)
    (round : Round dirs e d i pgdir s fl s') (tidy' : Tidy m dirs s') (loose : Loose dirs s' e q) :
    Loose dirs s e q ∧ s'.mem q = s.mem q := by
  have apart := loose_no_table tidy' loose
  obtain ⟨fl', acc'⟩ := tidy'.view.kept.books
  constructor
  · rcases loose with free | ⟨d', i', held⟩
    · rw [onFreeList_iff acc'.list] at free
      unfold Loose
      rw [onFreeList_iff acc.list]
      rcases round.free acc he acc' free with old | held
      · exact Or.inl old
      · exact Or.inr ⟨d, i, held⟩
    · rcases round.moved acc with same | ⟨p, t, listed, _, moved⟩
      · rw [same] at held
        exact Or.inr ⟨d', i', held⟩
      · rw [moved] at held
        by_cases here : Slot.leaf e d' i' = (Slot.leaf e d i : PageSlot)
        · rw [here, Function.update_self] at held
          cases held
          left
          rw [onFreeList_iff acc.list]
          exact listed
        · rw [Function.update_of_ne here, Function.update_of_ne (by simp)] at held
          exact Or.inr ⟨d', i', held⟩
  · cases round with
    | lost _ _ result =>
      subst result
      rfl
    | @mapped p t rest _ _ _ _ walked inserted =>
      refine (inserted.mem_of_ne q ?_ ?_).trans rfl
      · intro same
        subst same
        apply apart
        refine Or.inl (Or.inr ⟨e, d, ?_⟩)
        rw [inserted.target_eq, Function.update_of_ne (by simp), Function.update_self]
      · intro same
        subst same
        exact apart (Or.inl (Or.inl ⟨e, he⟩))

theorem walked_same (same : target dirs none t = target dirs none s)
    (walked : Walked dirs none e d pgdir s fl a s1 fl1)
    (walked' : Walked dirs none e d pgdir t fl b t1 fl2) : a = b ∧ fl1 = fl2 := by
  rcases walked with ⟨there, _, rfl⟩ | ⟨empty, _, first⟩
  · rcases walked' with ⟨there', _, rfl⟩ | ⟨empty', _, _⟩
    · rw [same, there] at there'
      exact ⟨Option.some.inj there', rfl⟩
    · rw [same, there] at empty'
      cases empty'
  · rcases walked' with ⟨there', _, _⟩ | ⟨_, _, first'⟩
    · rw [same, empty] at there'
      cases there'
    · exact List.cons.inj (first.symm.trans first')

theorem Twin.stepped (twin : Twin m dirs e s0 t0 s t) (he : dirs e = some pgdir)
    (user : pdx va < userPdes) (run : regionAllocStep e va (grants, s) = .ok (grants', s'))
    (run' : regionAllocStep e va (grants, t) = .ok (grants', t'))
    (books : ∃ fl', Accounted dirs none s' fl' ∧ Accounted dirs none t' fl')
    (same : target dirs none t' = target dirs none s') : Twin m dirs e s0 t0 s' t' := by
  obtain ⟨fl, acc, acc'⟩ := twin.books
  have tidy := regionAllocStep_tidy twin.tidy he user run
  have tidy' := regionAllocStep_tidy twin.tidy' he user run'
  refine ⟨tidy, tidy', books, same, ?_⟩
  intro q loose x inside
  have loose' : Loose dirs t' e q := by
    obtain ⟨fl', books, books'⟩ := books
    unfold Loose at loose ⊢
    rw [onFreeList_iff books.list] at loose
    rw [onFreeList_iff books'.list, same]
    exact loose
  obtain ⟨before, mem⟩ := loose_round acc he (regionAllocStep_round twin.tidy acc he user run) tidy loose
  have mem' := (loose_round acc' he (regionAllocStep_round twin.tidy' acc' he user run') tidy' loose').2
  unfold Left
  rw [mem, mem']
  exact twin.left q before x inside

theorem Twin.round (twin : Twin m dirs e s0 t0 s t) (he : dirs e = some pgdir)
    (user : pdx va < userPdes) (run : regionAllocStep e va (grants, s) = .ok (grants', s')) :
    ∃ t', regionAllocStep e va (grants, t) = .ok (grants', t') ∧ Twin m dirs e s0 t0 s' t' := by
  obtain ⟨fl, acc, acc'⟩ := twin.books
  have kept := twin.tidy.view.kept
  have kept' := twin.tidy'.view.kept
  have same := twin.target_eq
  rcases regionAllocStep_spec acc kept.bounded he (kept.known e pgdir he) user grants with
    ⟨_, failed⟩ | ⟨p, rfl, empty, done⟩ | ⟨p, rest, a, s1, fl1, s2, fl2, rfl, walked, done, inserted⟩
  · rw [failed] at run
    cases run
  · rw [done] at run
    cases run
    rcases regionAllocStep_spec acc' kept'.bounded he (kept'.known e pgdir he) user grants with
      ⟨nothing, _⟩ | ⟨p', first, _, done'⟩ | ⟨p', rest, b, t1, fl1, t2, fl2, first, walked', _, _⟩
    · cases nothing
    · cases first
      refine ⟨_, done', twin.stepped he user done done' ⟨[], takeFree_books acc false, takeFree_books acc' false⟩ ?_⟩
      rw [takeFree_target acc', takeFree_target acc]
      exact same
    · cases first
      rcases walked' with ⟨there, _, _⟩ | ⟨_, _, none_left⟩
      · rw [takeFree_target acc', same, empty] at there
        cases there
      · cases none_left
  · rw [done] at run
    cases run
    rcases regionAllocStep_spec acc' kept'.bounded he (kept'.known e pgdir he) user grants with
      ⟨nothing, _⟩ | ⟨p', first, empty, _⟩ | ⟨p', rest', b, t1, fl1', t2, fl2', first, walked', done', inserted'⟩
    · cases nothing
    · cases first
      rcases walked with ⟨there, _, _⟩ | ⟨_, _, none_left⟩
      · rw [takeFree_target acc, ← same, empty] at there
        cases there
      · cases none_left
    · cases first
      have taken : target dirs none (takeFree t p false) = target dirs none (takeFree s p false) := by
        rw [takeFree_target acc', takeFree_target acc]
        exact same
      obtain ⟨rfl, rfl⟩ := walked_same taken walked walked'
      have in_hand : target dirs (some p) t1 = target dirs (some p) s1 := by
        funext x
        by_cases hand : x = .hand
        · subst hand
          rfl
        · rw [target_hand hand dirs (some p) none, target_hand hand dirs (some p) none,
            walked'.target_eq (takeFree_books acc' false) he,
            walked.target_eq (takeFree_books acc false) he, taken]
      have list : fl2' = fl2 := by
        rw [inserted'.free_eq, inserted.free_eq, in_hand]
      have books' := inserted'.books
      rw [list] at books'
      refine ⟨_, done', twin.stepped he user done done' ⟨fl2, inserted.books, books'⟩ ?_⟩
      rw [inserted'.target_eq, inserted.target_eq, taken]

theorem Twin.region (twin : Twin m dirs e s0 t0 s t) (he : dirs e = some pgdir) {len : Nat}
    (below : Below va len) (run : regionAlloc (grants, s) e va len = .ok (grants', s')) :
    ∃ t', regionAlloc (grants, t) e va len = .ok (grants', t') ∧ Twin m dirs e s0 t0 s' t' := by
  rw [regionAlloc_eq] at run ⊢
  have round : ∀ (k : Nat) (a a' b : List Grant × State), k < rounds va len →
      a'.1 = a.1 ∧ Twin m dirs e s0 t0 a.2 a'.2 →
      regionAllocStep e (roundDown va PGSIZE + k * PGSIZE) a = .ok b →
      ∃ b', regionAllocStep e (roundDown va PGSIZE + k * PGSIZE) a' = .ok b' ∧
        b'.1 = b.1 ∧ Twin m dirs e s0 t0 b.2 b'.2 := by
    intro k a a' b within before done
    obtain ⟨same, twins⟩ := before
    obtain ⟨t', done', next⟩ := twins.round he (below_user below within).2 done
    refine ⟨(b.1, t'), ?_, rfl, next⟩
    rw [← done', ← same]
  have start : (grants, t).1 = (grants, s).1 ∧ Twin m dirs e s0 t0 (grants, s).2 (grants, t).2 :=
    ⟨rfl, twin⟩
  obtain ⟨⟨grants'', t'⟩, done, same, next⟩ := times_lockstep
    (fun _ (a a' : List Grant × State) => a'.1 = a.1 ∧ Twin m dirs e s0 t0 a.2 a'.2) start round run
  obtain rfl : grants'' = grants' := same
  exact ⟨t', done, next⟩

theorem page_byte {n x : Nat} (small : n < UTOP / PGSIZE) (inside : x < PGSIZE) :
    n * PGSIZE + x < UTOP ∧ (n * PGSIZE + x) / PGSIZE = n ∧ pgoff (n * PGSIZE + x) = x := by
  refine ⟨?_, ?_, ?_⟩
  · calc n * PGSIZE + x < n * PGSIZE + PGSIZE := Nat.add_lt_add_left inside _
      _ = (n + 1) * PGSIZE := (Nat.succ_mul n PGSIZE).symm
      _ ≤ UTOP / PGSIZE * PGSIZE := Nat.mul_le_mul_right _ small
      _ = UTOP := by decide
  · rw [Nat.add_comm, Nat.add_mul_div_right _ _ (by decide), Nat.div_eq_of_lt inside, Nat.zero_add]
  · rw [pgoff_eq]
    simp only [PGSIZE] at inside ⊢
    omega

theorem leaf_page (e : Fin NENV) (d : Fin userPdes) (i : Fin NPTENTRIES) :
    ∃ n, ∃ small : n < UTOP / PGSIZE, pageSlot e n small = .leaf e d i := by
  have top : UTOP / PGSIZE = userPdes * NPTENTRIES := by decide
  have row : d.val * NPTENTRIES + i.val < userPdes * NPTENTRIES := by
    have d_lt := d.isLt
    have i_lt := i.isLt
    simp only [userPdes, NPTENTRIES] at *
    omega
  refine ⟨d.val * NPTENTRIES + i.val, by rw [top]; exact row, ?_⟩
  have i_lt := i.isLt
  unfold pageSlot
  simp only [Slot.leaf.injEq, true_and, Fin.ext_iff, NPTENTRIES] at i_lt ⊢
  omega

theorem leaf_byte (he : dirs e = some pgdir) {x : Nat} (inside : x < PGSIZE) :
    ∃ va, va < UTOP ∧ ∀ u q, target dirs none u (.leaf e d i) = some q →
      byteAt u pgdir va = some (u.mem q x) := by
  obtain ⟨n, small, slot⟩ := leaf_page e d i
  obtain ⟨user, page, offset⟩ := page_byte small inside
  refine ⟨_, user, ?_⟩
  intro u q held
  have here : leafSlot e (n * PGSIZE + x) (user_slot user) = .leaf e d i := by
    rw [leafSlot_page user, ← slot, pageSlot_inj]
    exact page
  rw [byteAt_target he user, here, held, offset]
  rfl

theorem Twin.stores {f : Nat → UInt8} {v n : Nat} (twin : Twin m dirs e s0 t0 s t)
    (he : dirs e = some pgdir) (cr3 : s.cr3 = pgdir) (cr3' : t.cr3 = pgdir) (low : v ≤ UTOP)
    (run : stores f v n s = .ok s') :
    ∃ t', stores f v n t = .ok t' ∧ Written m dirs e f v n s s' ∧ Written m dirs e f v n t t' ∧
      Twin m dirs e s0 t0 s' t' := by
  have written := stores_ok twin.tidy he cr3 low run
  have mapped : ∀ k, k < n → ∀ user : v + k < UTOP,
      target dirs none t (leafSlot e (v + k) (user_slot user)) ≠ none := by
    intro k inside user empty
    have stored := written.bytes e pgdir (v + k) he user
    rw [if_pos ⟨rfl, Nat.le_add_right v k, by omega⟩, byteAt_target he user,
      written.stored.untouched.target, ← twin.target_eq, empty] at stored
    cases stored
  obtain ⟨t', run', written'⟩ := stores_total twin.tidy' he cr3' written.below mapped (f := f)
  have same := written.stored.untouched.target
  have same' := written'.stored.untouched.target
  obtain ⟨fl, acc, acc'⟩ := twin.books
  have books := written.stored.untouched.books acc
  have books' := written'.stored.untouched.books acc'
  refine ⟨t', run', written, written', written.tidy, written'.tidy, ⟨fl, books, books'⟩, ?_, ?_⟩
  · rw [same', same]
    exact twin.target_eq
  · intro q loose x inside
    have before : Loose dirs s e q := by
      unfold Loose at loose ⊢
      rw [onFreeList_iff books.list, same] at loose
      rw [onFreeList_iff acc.list]
      exact loose
    have left := twin.left q before x inside
    rcases before with free | ⟨d, i, held⟩
    · -- a free page is not stored to
      rw [onFreeList_iff acc.list] at free
      have nobody : ∀ d i, target dirs none s (.leaf e d i) ≠ some q :=
        fun d i => acc.unused q free (.leaf e d i)
      have nobody' : ∀ d i, target dirs none t (.leaf e d i) ≠ some q := by
        rw [twin.target_eq]
        exact nobody
      unfold Left
      rw [written.stored.mem q nobody, written'.stored.mem q nobody']
      exact left
    · obtain ⟨va, user, byte⟩ := leaf_byte (d := d) (i := i) he inside
      have held' : target dirs none t (.leaf e d i) = some q := by
        rw [twin.target_eq]
        exact held
      have after := written.bytes e pgdir va he user
      have after' := written'.bytes e pgdir va he user
      rw [byte s' q (by rw [same]; exact held), byte s q held] at after
      rw [byte t' q (by rw [same']; exact held'), byte t q held'] at after'
      by_cases here : v ≤ va ∧ va < v + n
      · rw [if_pos ⟨rfl, here⟩] at after after'
        exact Or.inl (Option.some.inj (after'.trans after.symm))
      · have outside : ¬ (e = e ∧ v ≤ va ∧ va < v + n) := fun all => here all.2
        rw [if_neg outside] at after after'
        unfold Left
        rw [Option.some.inj after, Option.some.inj after']
        exact left

theorem Twin.same (twin : Twin m dirs e s0 t0 s t) (same : Untouched dirs s s')
    (mem : s'.mem = s.mem) (same' : Untouched dirs t t') (mem' : t'.mem = t.mem) :
    Twin m dirs e s0 t0 s' t' := by
  obtain ⟨fl, acc, acc'⟩ := twin.books
  have books := same.books acc
  refine ⟨same.tidy twin.tidy, same'.tidy twin.tidy', ⟨fl, books, same'.books acc'⟩, ?_, ?_⟩
  · rw [same'.target, same.target]
    exact twin.target_eq
  · intro q loose x inside
    unfold Loose at loose
    rw [onFreeList_iff books.list, ← onFreeList_iff acc.list, same.target] at loose
    unfold Left
    rw [mem, mem']
    exact twin.left q loose x inside

theorem region_sameBytes {len : Nat} (tidy : Tidy m dirs s) (he : dirs e = some pgdir)
    (fits : va + len ≤ UTOP) (below : Below va len)
    (run : regionAlloc (grants, s) e va len = .ok (grants', s')) :
    SameBytes s s' pgdir (pagesOf va len) := by
  rw [regionAlloc_eq] at run
  have round : ∀ (k : Nat) (a b : List Grant × State), k < rounds va len →
      Tidy m dirs a.2 ∧ SameBytes s a.2 pgdir (Finset.Ico (va / PGSIZE) (va / PGSIZE + k)) →
      regionAllocStep e (roundDown va PGSIZE + k * PGSIZE) a = .ok b →
      Tidy m dirs b.2 ∧ SameBytes s b.2 pgdir (Finset.Ico (va / PGSIZE) (va / PGSIZE + (k + 1))) := by
    intro k a b within before done
    obtain ⟨tidy_a, same⟩ := before
    have user := (below_user below within).2
    refine ⟨regionAllocStep_tidy tidy_a he user done, ?_⟩
    rw [next_page, Finset.insert_eq]
    refine same.trans ?_
    intro va' user' other
    obtain ⟨fl, acc⟩ := tidy_a.view.kept.books
    cases regionAllocStep_round tidy_a acc he user done with
    | lost _ _ result =>
      rw [result]
      rfl
    | mapped first walked inserted =>
      subst first
      apply inserted_sameBytes user tidy_a acc he walked inserted user'
      have address : roundDown va PGSIZE + k * PGSIZE = (va / PGSIZE + k) * PGSIZE := by
        rw [roundDown_eq, Nat.add_mul]
      have low : (va / PGSIZE + k) * PGSIZE < UTOP := by
        rw [← address]
        exact Nat.lt_of_lt_of_le (Nat.lt_add_of_pos_right (by decide)) (below_user below within).1
      intro same_slot
      have here : leafSlot e (roundDown va PGSIZE + k * PGSIZE) user =
          leafSlot e ((va / PGSIZE + k) * PGSIZE) (user_slot low) := by
        simp only [address]
      rw [here, leafSlot_page user', leafSlot_page low, pageSlot_inj,
        Nat.mul_div_cancel _ (by decide)] at same_slot
      exact other (Finset.mem_singleton.mpr same_slot)
  have start : Tidy m dirs (grants, s).2 ∧
      SameBytes s (grants, s).2 pgdir (Finset.Ico (va / PGSIZE) (va / PGSIZE + 0)) := by
    refine ⟨tidy, ?_⟩
    rw [Nat.add_zero, Finset.Ico_self]
    exact sameBytes_refl s pgdir ∅
  have done := times_keeps (fun k (got : List Grant × State) => Tidy m dirs got.2 ∧
    SameBytes s got.2 pgdir (Finset.Ico (va / PGSIZE) (va / PGSIZE + k))) start round run
  rw [pagesOf_rounds fits]
  exact done.2

theorem written_sameBytes {f : Nat → UInt8} {n len : Nat} (he : dirs e = some pgdir)
    (written : Written m dirs e f va n s s') (inside : n ≤ len) :
    SameBytes s s' pgdir (pagesOf va len) := by
  intro va' user outside
  have elsewhere : ¬ (e = e ∧ va ≤ va' ∧ va' < va + n) := by
    intro here
    obtain ⟨_, low, high⟩ := here
    obtain ⟨k, rfl⟩ := Nat.exists_eq_add_of_le low
    exact outside (mem_pagesOf (by omega))
  rw [written.bytes e pgdir va' he user, if_neg elsewhere]

variable {binary : Binary} {ph : Nat}

structure TwinSegment (m : Machine) (dirs : Dirs) (e : Fin NENV) (s0 t0 : State) (binary : Binary)
    (pgdir ph : Nat) (s t s' t' : State) : Prop where
  twin : Twin m dirs e s0 t0 s' t'
  quiet : Quiet s s'
  quiet' : Quiet t t'
  others : SameBytes s s' pgdir (pagesOf (binary.pVa ph) (binary.pMemsz ph))
  others' : SameBytes t t' pgdir (pagesOf (binary.pVa ph) (binary.pMemsz ph))
  bytes : ∀ i, i < binary.pMemsz ph →
    byteAt t' pgdir (binary.pVa ph + i) = byteAt s' pgdir (binary.pVa ph + i)

theorem Twin.segment (twin : Twin m dirs e s0 t0 s t) (he : dirs e = some pgdir)
    (cr3 : s.cr3 = pgdir) (cr3' : t.cr3 = pgdir) (low : binary.pVa ph < UTOP)
    (below : Below (binary.pVa ph) (binary.pMemsz ph))
    (fits : binary.pVa ph + binary.pMemsz ph ≤ UTOP) (file : binary.pFilesz ph ≤ binary.pMemsz ph)
    (run : loadSegment e binary ph (grants, s) = .ok (grants', s')) :
    ∃ t', loadSegment e binary ph (grants, t) = .ok (grants', t') ∧
      TwinSegment m dirs e s0 t0 binary pgdir ph s t s' t' := by
  obtain ⟨s1, s2, allocated, cleared, copied⟩ := loadSegment_ok run
  obtain ⟨fl, acc, acc'⟩ := twin.books
  obtain ⟨t1, allocated', twin1⟩ := twin.region he below allocated
  have quiet1 := ((loading_start (e := e) twin.tidy acc).region he below allocated).2
  have quiet1' := ((loading_start (e := e) twin.tidy' acc').region he below allocated').2
  have same1 := region_sameBytes twin.tidy he fits below allocated
  have same1' := region_sameBytes twin.tidy' he fits below allocated'
  rw [memset_eq] at cleared
  obtain ⟨t2, cleared', written2, written2', twin2⟩ := twin1.stores he (quiet1.cr3.trans cr3)
    (quiet1'.cr3.trans cr3') (Nat.le_of_lt low) cleared
  have quiet2 := quiet_trans quiet1 written2.stored.quiet
  have quiet2' := quiet_trans quiet1' written2'.stored.quiet
  rw [memcpy_eq] at copied
  obtain ⟨t3, copied', written3, written3', twin3⟩ := twin2.stores he (quiet2.cr3.trans cr3)
    (quiet2'.cr3.trans cr3') (Nat.le_of_lt low) copied
  refine ⟨t3, loadSegment_run allocated' cleared' copied', twin3,
    quiet_trans quiet2 written3.stored.quiet, quiet_trans quiet2' written3'.stored.quiet, ?_, ?_, ?_⟩
  · have stored := (written_sameBytes he written2 (Nat.le_refl _)).trans (written_sameBytes he written3 file)
    have all := same1.trans stored
    simpa using all
  · have stored := (written_sameBytes he written2' (Nat.le_refl _)).trans
      (written_sameBytes he written3' file)
    have all := same1'.trans stored
    simpa using all
  · intro i inside
    have user : binary.pVa ph + i < UTOP := by omega
    have zero : e = e ∧ binary.pVa ph ≤ binary.pVa ph + i ∧
        binary.pVa ph + i < binary.pVa ph + binary.pMemsz ph := ⟨rfl, by omega, by omega⟩
    rw [written3.bytes e pgdir _ he user, written3'.bytes e pgdir _ he user,
      written2.bytes e pgdir _ he user, written2'.bytes e pgdir _ he user, if_pos zero, if_pos zero]

/-- The first k segments in both runs. -/
structure TwinHeaders (m : Machine) (dirs : Dirs) (e : Fin NENV) (s0 t0 : State) (binary : Binary)
    (pgdir : Nat) (s t : State) (k : Nat) (s' t' : State) : Prop where
  twin : Twin m dirs e s0 t0 s' t'
  quiet : Quiet s s'
  quiet' : Quiet t t'
  bytes : ∀ j, j < k → ∀ i, i < binary.pMemsz (binary.ph j) →
    byteAt t' pgdir (binary.pVa (binary.ph j) + i) = byteAt s' pgdir (binary.pVa (binary.ph j) + i)

theorem TwinHeaders.next {k : Nat} (headers : TwinHeaders m dirs e s0 t0 binary pgdir s t k s' t')
    (wf : WellFormed binary) (he : dirs e = some pgdir) (cr3 : s.cr3 = pgdir) (cr3' : t.cr3 = pgdir)
    (within : k < binary.ePhnum)
    (run : loadSegment e binary (binary.ph k) (grants, s') = .ok (grants', s1)) :
    ∃ t1, loadSegment e binary (binary.ph k) (grants, t') = .ok (grants', t1) ∧
      TwinHeaders m dirs e s0 t0 binary pgdir s t (k + 1) s1 t1 := by
  have stack : USTACKTOP - PGSIZE ≤ UTOP := by decide
  obtain ⟨low, below⟩ := wf.below within
  have fits := Nat.le_trans (wf.fits k within) stack
  obtain ⟨t1, run', segment⟩ := headers.twin.segment he (headers.quiet.cr3.trans cr3)
    (headers.quiet'.cr3.trans cr3') low below fits (wf.file k within) run
  refine ⟨t1, run', segment.twin, quiet_trans headers.quiet segment.quiet,
    quiet_trans headers.quiet' segment.quiet', ?_⟩
  intro j before i inside
  by_cases last : j = k
  · subst last
    exact segment.bytes i inside
  · have earlier : j < k := by omega
    have fits_j := Nat.le_trans (wf.fits j (by omega)) stack
    have outside := Finset.disjoint_right.mp (wf.apart j k earlier within) (mem_pagesOf inside)
    rw [segment.others _ (by omega) outside, segment.others' _ (by omega) outside]
    exact headers.bytes j earlier i inside

theorem Twin.load (twin : Twin m dirs e s0 t0 s t) (he : dirs e = some pgdir) (wf : WellFormed binary)
    (run : loadIcode s e binary = .ok (grants, s')) :
    ∃ t', loadIcode t e binary = .ok (grants, t') ∧ Twin m dirs e s0 t0 s' t' ∧
      ∀ k, k < binary.ePhnum → ∀ i, i < binary.pMemsz (binary.ph k) →
        byteAt t' pgdir (binary.pVa (binary.ph k) + i) =
          byteAt s' pgdir (binary.pVa (binary.ph k) + i) := by
  have known := twin.tidy.view.kept.known e pgdir he
  have known' := twin.tidy'.view.kept.known e pgdir he
  unfold loadIcode at run
  rw [if_neg (not_not.mpr wf.magic)] at run
  obtain ⟨pgdir', dir, run⟩ := bind_ok.mp run
  unfold paddrPgdir at dir
  rw [known] at dir
  cases dir
  obtain ⟨⟨grants1, s1⟩, looped, stack⟩ := bind_ok.mp run
  rw [wf.count] at looped
  have start : (([], lcr3 t pgdir) : List Grant × State).1 = (([], lcr3 s pgdir) : List Grant × State).1 ∧
      TwinHeaders m dirs e s0 t0 binary pgdir (lcr3 s pgdir) (lcr3 t pgdir) 0
        (([], lcr3 s pgdir) : List Grant × State).2 (([], lcr3 t pgdir) : List Grant × State).2 := by
    refine ⟨rfl, twin.same (lcr3_untouched dirs s pgdir) rfl (lcr3_untouched dirs t pgdir) rfl,
      quiet_refl _, quiet_refl _, ?_⟩
    intro j before
    exact absurd before (Nat.not_lt_zero j)
  have round : ∀ (k : Nat) (a a' b : List Grant × State), k < binary.ePhnum →
      a'.1 = a.1 ∧ TwinHeaders m dirs e s0 t0 binary pgdir (lcr3 s pgdir) (lcr3 t pgdir) k a.2 a'.2 →
      loadSegment e binary (binary.ph k) a = .ok b →
      ∃ b', loadSegment e binary (binary.ph k) a' = .ok b' ∧
        b'.1 = b.1 ∧ TwinHeaders m dirs e s0 t0 binary pgdir (lcr3 s pgdir) (lcr3 t pgdir) (k + 1) b.2 b'.2 := by
    intro k a a' b within before done
    obtain ⟨same, headers⟩ := before
    obtain ⟨t1, done', next⟩ := headers.next wf he rfl rfl within done
    refine ⟨(b.1, t1), ?_, rfl, next⟩
    rw [← done', ← same]
  obtain ⟨⟨grants2, t1⟩, looped', same, headers⟩ := times_lockstep
    (fun k (a a' : List Grant × State) => a'.1 = a.1 ∧
      TwinHeaders m dirs e s0 t0 binary pgdir (lcr3 s pgdir) (lcr3 t pgdir) k a.2 a'.2) start round looped
  obtain rfl : grants2 = grants1 := same
  have enter : ∀ u : State, Untouched dirs u (lcr3 (u.setEnv e { u.envs e with
      envTf := { (u.envs e).envTf with tfEip := UInt32.ofNat binary.eEntry } }) u.kernPgdir) :=
    fun u => (entry_untouched dirs u e _).trans (lcr3_untouched _ _ _)
  have twin2 := headers.twin.same (enter s1) rfl (enter t1) rfl
  obtain ⟨t', stack', twin3⟩ := twin2.region he stack_below stack
  have looped_t : times (fun k got => loadSegment e binary (binary.ph k) got) binary.phCount
      ([], lcr3 t pgdir) = .ok (grants2, t1) := by
    rw [wf.count]
    exact looped'
  refine ⟨t', loadIcode_run wf.magic known' looped_t stack', twin3, ?_⟩
  intro k within i inside
  have stack_high : USTACKTOP - PGSIZE ≤ UTOP := by decide
  have fits : USTACKTOP - PGSIZE + PGSIZE ≤ UTOP := by decide
  have below := wf.fits k within
  have user : binary.pVa (binary.ph k) + i < UTOP := by omega
  have outside : (binary.pVa (binary.ph k) + i) / PGSIZE ∉ pagesOf (USTACKTOP - PGSIZE) PGSIZE := by
    rw [stack_pages, Finset.mem_singleton]
    intro here
    have member : (binary.pVa (binary.ph k) + i) / PGSIZE ∈ segmentPages binary binary.ePhnum :=
      Finset.mem_biUnion.mpr ⟨k, Finset.mem_range.mpr within, mem_pagesOf inside⟩
    rw [here] at member
    exact wf.no_stack member
  rw [region_sameBytes twin2.tidy he fits stack_below stack _ user outside,
    region_sameBytes twin2.tidy' he fits stack_below stack' _ user outside]
  exact headers.bytes k within i inside

end Rounds

section Creation
variable {m : Machine} {s t s1 s' : State} {e : Fin NENV} {binary : Binary} {p0 : Nat}
  {grants : List Grant}

theorem Alike.same_slots (alike : Alike s t e) : SameSlots s t := by
  intro f
  rw [alike.slots f]
  by_cases here : f = e.val
  · rw [if_pos here]
    exact ⟨rfl, rfl, rfl, Iff.rfl⟩
  · rw [if_neg here]
    exact ⟨rfl, rfl, rfl, Iff.rfl⟩

theorem Alike.untouched (alike : Alike s t e) (inv : KernelInv m s) : Untouched (dirsOf s) s t := by
  have rest := alike.rest
  refine ⟨by rw [rest], by rw [rest], by rw [rest], by rw [rest], by rw [rest], ?_, ?_⟩
  · intro f p _
    exact (alike.same_slots f).2.2.1
  · intro q table
    apply alike.busy q
    intro free
    exact loose_no_table (e := e) inv.tidy (Or.inl free) table

theorem Alike.inv (alike : Alike s t e) (inv : KernelInv m s) : KernelInv m t := by
  have rest := alike.rest
  refine inv.untouched (alike.untouched inv) (by rw [rest]) (by rw [rest]) alike.same_slots ?_
  intro c current
  rw [rest] at current
  exact alike.same_slots.current (inv.current c current)

theorem Alike.alloc (alike : Alike s t e) (inv : KernelInv m s)
    (fresh : envAlloc s 0 = .ok (0, some e.val, s1)) :
    ∃ t1, envAlloc t 0 = .ok (0, some e.val, t1) ∧ dirsOf t1 = dirsOf s1 ∧
      Twin m (dirsOf s1) e s t s1 t1 ∧ (t1.envs e).envTf = (s1.envs e).envTf := by
  obtain ⟨fl, acc⟩ := inv.tidy.view.kept.books
  have same := alike.untouched inv
  have acc_t : Accounted (dirsOf t) none t fl := by
    rw [alike.same_slots.dirsOf]
    exact same.books acc
  have inv_t := alike.inv inv
  obtain ⟨p, rest, rfl, empty, dirs, books, moved⟩ := fresh_books inv acc fresh
  have head : s.envFreeList = some e.val := by
    cases list : s.envFreeList with
    | none =>
      rw [envAlloc_none list] at fresh
      cases fresh
    | some f =>
      rw [envAlloc_take acc list] at fresh
      exact (Prod.mk.inj (Prod.mk.inj (Except.ok.inj fresh)).2).1
  have head_t : t.envFreeList = some e.val := by
    rw [alike.rest]
    exact head
  have fresh_t := envAlloc_take acc_t head_t 0
  have made : s1 = newEnv s e p 0 := by
    rw [envAlloc_take acc head] at fresh
    exact (Prod.mk.inj (Prod.mk.inj (Except.ok.inj fresh)).2).2.symm
  obtain ⟨p', rest', first, _, dirs_t, books_t, moved_t⟩ := fresh_books inv_t acc_t fresh_t
  cases first
  have dirs_eq : dirsOf (newEnv t e p 0) = dirsOf s1 := by
    rw [dirs_t, dirs, alike.same_slots.dirsOf]
  have targets : target (dirsOf s1) none (newEnv t e p 0) = target (dirsOf s1) none s1 := by
    rw [← dirs_eq, moved_t, dirs_eq, moved, alike.same_slots.dirsOf, same.target]
  have tidy := (alloc_inv inv fresh).tidy
  have tidy_t := (alloc_inv inv_t fresh_t).tidy
  rw [dirs_eq] at books_t tidy_t
  refine ⟨_, fresh_t, dirs_eq, ⟨tidy, tidy_t, ⟨rest, books, books_t⟩, targets, ?_⟩, ?_⟩
  · -- the pages that are still free hold what they held
    intro q loose x _
    have apart : q ≠ p := by
      rintro rfl
      apply loose_no_table tidy loose
      refine Or.inl (Or.inl ⟨e, ?_⟩)
      rw [dirs]
      exact Function.update_self ..
    right
    rw [made]
    exact ⟨congrFun (newEnv_mem_of_ne apart 0) x, congrFun (newEnv_mem_of_ne apart 0) x⟩
  · rw [made, newEnv_envs, newEnv_envs, Function.update_self, Function.update_self]
    rfl

end Creation

/-- The same environment in two runs: registers and mapped pages agree, and every byte that is not
    the same in both is what its page held before. -/
structure SameStart (s t : State) (e : Fin NENV) (binary : Binary) (pgdir : Nat) (s' t' : State) :
    Prop where
  frame : (t'.envs e).envTf = (s'.envs e).envTf
  space : (s'.envs e).envPgdir = some pgdir
  space' : (t'.envs e).envPgdir = some pgdir
  pages : ∀ va, va < UTOP → (walk t' pgdir va).map Translation.page = (walk s' pgdir va).map Translation.page
  segments : ∀ k, k < binary.ePhnum → ∀ i, i < binary.pMemsz (binary.ph k) →
    byteAt t' pgdir (binary.pVa (binary.ph k) + i) = byteAt s' pgdir (binary.pVa (binary.ph k) + i)
  others : ∀ va q, va < UTOP → (walk s' pgdir va).map Translation.page = some q →
    byteAt t' pgdir va = byteAt s' pgdir va ∨
      (byteAt s' pgdir va = some (s.mem q (pgoff va)) ∧ byteAt t' pgdir va = some (t.mem q (pgoff va)))

theorem new_env_alike {m : Machine} {s t s1 s' : State} (reached : Reached m loadsLow s) (e : Fin NENV)
    (alike : Alike s t e) (fresh : envAlloc s 0 = .ok (0, some e.val, s1)) (binary : Binary)
    (wf : WellFormed binary) (p0 : Nat) (grants : List Grant)
    (run : envCreate s p0 binary = .ok (e.val, grants, s')) :
    ∃ pgdir t', envCreate t p0 binary = .ok (e.val, grants, t') ∧
      SameStart s t e binary pgdir s' t' := by
  have inv := reached_inv loadsLow_keeps reached
  obtain ⟨t1, fresh_t, dirs_t, twin, frame⟩ := alike.alloc inv fresh
  obtain ⟨pgdir, he, _⟩ := fresh_env inv fresh
  have took := envCreate_loads fresh run
  obtain ⟨t', took', twin', segments⟩ := twin.load he wf took
  have made : envCreate t p0 binary = .ok (e.val, grants, t') := by
    unfold envCreate
    rw [fresh_t, ok_bind]
    exact bind_ok.mpr ⟨_, took', rfl⟩
  obtain ⟨fl, acc, acc'⟩ := twin.books
  have low : ∀ k, k < binary.phCount → Loadable binary (binary.ph k) :=
    fun k within => wellFormed_loadable wf within
  have loaded := loadIcode_ok twin.tidy acc he low took
  have loaded' := loadIcode_ok twin.tidy' acc' he low took'
  have pages : ∀ va, va < UTOP →
      (walk t' pgdir va).map Translation.page = (walk s' pgdir va).map Translation.page := by
    intro va user
    rw [walk_page he (user_slot user), walk_page he (user_slot user), twin'.target_eq]
  refine ⟨pgdir, t', made, ?_, twin'.tidy.view.kept.known e pgdir he,
    twin'.tidy'.view.kept.known e pgdir he, pages, segments, ?_⟩
  · rw [loaded.rest, loaded'.rest]
    simp only [Function.update_self, frame]
  · intro va q user mapped
    have offset : pgoff va < PGSIZE := by
      rw [pgoff_eq]
      exact Nat.mod_lt va (by decide)
    have held : target (dirsOf s1) none s' (leafSlot e va (user_slot user)) = some q := by
      rw [← walk_page he (user_slot user)]
      exact mapped
    have held' : target (dirsOf s1) none t' (leafSlot e va (user_slot user)) = some q := by
      rw [twin'.target_eq]
      exact held
    rw [byteAt_target he user, byteAt_target he user, held, held']
    rcases twin'.left q (Or.inr ⟨_, _, held⟩) (pgoff va) offset with same | ⟨before, before'⟩
    · exact Or.inl (congrArg some same)
    · exact Or.inr ⟨congrArg some before, congrArg some before'⟩

section SmallMachine
variable {m : Machine} {s : State} {fl : List Nat} {c : UInt8}

def refilled (s : State) (fl : List Nat) (c : UInt8) : State :=
  { s with mem := fun q => if q ∈ fl then fun _ => c else s.mem q }

theorem refilled_checked {a : State} (checked : SelfChecked a s) (list : FreeList s fl) (c : UInt8) :
    SelfChecked a (refilled s fl c) := by
  refine ⟨checked.reordered, ?_, checked.links, checked.counts, ?_⟩
  · intro p fl0 list0 busy
    obtain ⟨fl', list', perm⟩ := checked.reordered fl0 list0
    obtain rfl : fl' = fl := chain_unique list' list
    have outside : p ∉ fl' := fun listed => busy (perm.mem_iff.mpr listed)
    change (if p ∈ fl' then fun _ => c else s.mem p) = a.mem p
    rw [if_neg outside]
    exact checked.contents p fl0 list0 busy
  · have rest := checked.rest
    unfold refilled
    rw [rest]

theorem refilled_boot (run : MemInit (powerOn m) s) (list : FreeList s fl) (c : UInt8) :
    MemInit (powerOn m) (refilled s fl c) := by
  obtain ⟨a, b, d, allocated, first, mapped, last⟩ := run
  exact ⟨a, b, d, allocated, first, mapped, refilled_checked last list c⟩

theorem refilled_init (n : Nat) (s : State) (fl : List Nat) (c : UInt8) :
    envInitLoop n (refilled s fl c) = refilled (envInitLoop n s) fl c := by
  induction n generalizing s with
  | zero => rfl
  | succ n ih => exact ih (envInitStep s n)

theorem refilled_again (s : State) (fl : List Nat) (c b : UInt8) :
    refilled (refilled s fl c) fl b = refilled s fl b := by
  have mem : (refilled (refilled s fl c) fl b).mem = (refilled s fl b).mem := by
    funext r
    by_cases listed : r ∈ fl
    · exact (if_pos listed).trans (if_pos listed).symm
    · exact ((if_neg listed).trans (if_neg listed)).trans (if_neg listed).symm
  calc refilled (refilled s fl c) fl b = { s with mem := (refilled (refilled s fl c) fl b).mem } := rfl
    _ = refilled s fl b := by rw [mem]; rfl

structure Swept (c : UInt8) (p q : Nat) (fl : List Nat) (s : State) : Prop where
  reached : Reached smallMachine loadsLow s
  books : Accounted (dirsOf s) none s (p :: q :: fl)
  fresh : envAlloc s 0 = .ok (0, some (0 : Fin NENV).val, newEnv s (0 : Fin NENV) p 0)
  left : ∀ r, r ∈ p :: q :: fl → s.mem r = fun _ => c
  long : 500 ≤ fl.length

theorem swept : ∃ p q fl s, Swept 0 p q fl s ∧ Swept 1 p q fl (refilled s (p :: q :: fl) 1) := by
  obtain ⟨s, fl, run, acc, long⟩ := smallMachine_boot
  have free := smallMachine_idle run
  match fl, acc, long with
  | p :: q :: rest, acc, long =>
    have made : ∀ c, Swept c p q rest (refilled (envInit s) (p :: q :: rest) c) := by
      intro c
      have run' := refilled_boot run acc.list c
      have same : envInit (refilled s (p :: q :: rest) c) = refilled (envInit s) (p :: q :: rest) c :=
        refilled_init NENV s _ c
      obtain ⟨_, fl', boot'⟩ := memInit_ok smallMachine run'
      obtain rfl : fl' = p :: q :: rest := chain_unique boot'.books.list acc.list
      have free' : ∀ e, e < NENV → ((refilled s (p :: q :: rest) c).envs e).envStatus = ENV_FREE := free
      have books : Accounted (dirsOf (refilled (envInit s) (p :: q :: rest) c)) none
          (refilled (envInit s) (p :: q :: rest) c) (p :: q :: rest) := by
        rw [← same, dirsOf_envInit free']
        exact (envInit_same _).books boot'.books
      have start := envInit_slots free' boot'.envFreeList
      have reached : Reached smallMachine loadsLow (refilled (envInit s) (p :: q :: rest) c) := by
        rw [← same]
        exact Reached.boot run' free'
      have head : (refilled (envInit s) (p :: q :: rest) c).envFreeList = some (0 : Fin NENV).val := by
        rw [← same]
        exact (chain_cons_head start.list).1
      have left : ∀ r, r ∈ p :: q :: rest →
          (refilled (envInit s) (p :: q :: rest) c).mem r = fun _ => c := fun r listed => if_pos listed
      generalize refilled (envInit s) (p :: q :: rest) c = u at reached books head left
      refine ⟨reached, books, envAlloc_take books head 0, left, ?_⟩
      simp only [List.length_cons] at long
      omega
    refine ⟨p, q, rest, _, made 0, ?_⟩
    rw [refilled_again]
    exact made 1

theorem refilled_alike (list : FreeList s fl) (c : UInt8) (e : Fin NENV) :
    Alike s (refilled s fl c) e := by
  refine ⟨rfl, ?_, ?_⟩
  · intro q busy
    rw [onFreeList_iff list] at busy
    exact if_neg busy
  · intro f
    change s.envs f = _
    split <;> rfl

theorem new_env_alike_smallMachine : ∃ s t pgdir s' t', Alike s t 0 ∧
    SameStart s t 0 smallImage pgdir s' t' := by
  obtain ⟨p, q, fl, s, clean, _⟩ := swept
  have long := clean.long
  have inv := reached_inv loadsLow_keeps clean.reached
  have alike := refilled_alike clean.books.list 1 (0 : Fin NENV)
  have inv1 := alloc_inv inv clean.fresh
  obtain ⟨pgdir, he, no_table⟩ := fresh_env inv clean.fresh
  obtain ⟨_, _, first, _, _, books, _⟩ := fresh_books inv clean.books clean.fresh
  cases first
  have cost : (touched smallImage).card + (tablesOf (touched smallImage)).card = 5 := by decide
  obtain ⟨grants, s', took, _⟩ := loadIcode_total inv1.tidy books he no_table smallImage_wellFormed
    (by rw [List.length_cons]; omega)
  have run : envCreate s 0 smallImage = .ok ((0 : Fin NENV).val, grants, s') := by
    unfold envCreate
    rw [clean.fresh, ok_bind]
    exact bind_ok.mpr ⟨_, took, rfl⟩
  obtain ⟨pgdir, t', _, same⟩ := new_env_alike clean.reached 0 alike clean.fresh smallImage
    smallImage_wellFormed 0 grants run
  exact ⟨s, _, pgdir, s', t', alike, same⟩

/-- The stack of a new environment is whatever lay in a free page. -/
theorem swept_stack {p q : Nat} (swept : Swept c p q fl s) :
    ∃ grants s', envCreate s 0 emptyImage = .ok ((0 : Fin NENV).val, grants, s') ∧
      (s'.envs (0 : Fin NENV)).envPgdir = some p ∧ byteAt s' p (USTACKTOP - PGSIZE) = some c := by
  have inv := reached_inv loadsLow_keeps swept.reached
  have inv1 := alloc_inv inv swept.fresh
  obtain ⟨_, _, first, _, dirs, books, _⟩ := fresh_books inv swept.books swept.fresh
  cases first
  have he : dirsOf (newEnv s (0 : Fin NENV) p 0) 0 = some p := by
    rw [dirs, Function.update_self]
  obtain ⟨s1, at_s1⟩ : ∃ s1, s1 = newEnv s (0 : Fin NENV) p 0 := ⟨_, rfl⟩
  rw [← at_s1] at inv1 books he
  obtain ⟨s2, at_s2⟩ : ∃ s2, s2 = lcr3 ((lcr3 s1 p).setEnv (0 : Fin NENV) { s1.envs (0 : Fin NENV) with
    envTf := { (s1.envs (0 : Fin NENV)).envTf with tfEip := UInt32.ofNat emptyImage.eEntry } })
      s1.kernPgdir := ⟨_, rfl⟩
  have same : Untouched (dirsOf s1) s1 s2 := by
    rw [at_s2]
    exact ((lcr3_untouched (dirsOf s1) s1 p).trans
      (entry_untouched (dirsOf s1) (lcr3 s1 p) (0 : Fin NENV) _)).trans (lcr3_untouched _ _ _)
  have tidy := same.tidy inv1.tidy
  have kept := tidy.view.kept
  have books2 := same.books books
  have user : USTACKTOP - PGSIZE < UTOP := by decide
  have once : rounds (USTACKTOP - PGSIZE) PGSIZE = 1 := by decide
  have whole : roundDown (USTACKTOP - PGSIZE) PGSIZE + 0 * PGSIZE = USTACKTOP - PGSIZE := by decide
  have long := swept.long
  rcases regionAllocStep_spec books2 kept.bounded he (kept.known 0 p he) (user_slot user) [] with
    ⟨nothing, _⟩ | ⟨_, last, _, _⟩ | ⟨r, rest, t, s3, fl3, s', fl', first, walked, done, inserted⟩
  · cases nothing
  · rw [(List.cons.inj last).2] at long
    exact absurd long (by decide)
  · obtain ⟨rfl, rfl⟩ := List.cons.inj first
    have stack : regionAlloc ([], s2) (0 : Fin NENV) (USTACKTOP - PGSIZE) PGSIZE =
        .ok ([⟨q, 0⟩], s') := by
      rw [regionAlloc_eq, once]
      refine bind_ok.mpr ⟨_, rfl, ?_⟩
      dsimp only
      rw [whole]
      exact done
    rw [at_s2] at stack
    have took := emptyImage_stack (dirsOf_some.mp he).2 stack
    refine ⟨[⟨q, 0⟩], s', ?_, ?_, ?_⟩
    · unfold envCreate
      rw [swept.fresh, ok_bind, ← at_s1]
      exact bind_ok.mpr ⟨_, took, rfl⟩
    · rw [inserted.quiet.envs]
      exact kept.known 0 p he
    · have tidy' := regionAllocStep_tidy tidy he (user_slot user) done
      have held : target (dirsOf s1) none s' (leafSlot 0 (USTACKTOP - PGSIZE) (user_slot user)) = some q := by
        rw [inserted.target_eq, leafSlot, Function.update_self]
      have mem := (loose_round books2 he (.mapped rfl walked inserted) tidy' (Or.inr ⟨_, _, held⟩)).2
      have before : s2.mem q = s.mem q := by
        have loaded : s2.mem = s1.mem := by
          rw [at_s2]
          rfl
        rw [loaded, at_s1]
        apply newEnv_mem_of_ne
        intro here
        have once := swept.books.nodup
        rw [here] at once
        exact (List.nodup_cons.mp once).1 (by simp)
      rw [byteAt_target he user, held, Option.map_some, mem, before, swept.left q (by simp)]

/-- So two environments that should not differ do. -/
theorem stack_page_differs : ¬ ∀ s t (e : Fin NENV) s1 binary p0 grants s' pgdir,
    Reached smallMachine loadsLow s → Reached smallMachine loadsLow t → Alike s t e →
    envAlloc s 0 = .ok (0, some e.val, s1) → WellFormed binary →
    envCreate s p0 binary = .ok (e.val, grants, s') → (s'.envs e).envPgdir = some pgdir →
    ∃ grants' t', envCreate t p0 binary = .ok (e.val, grants', t') ∧
      ∀ va, va < UTOP → byteAt t' pgdir va = byteAt s' pgdir va := by
  intro claim
  obtain ⟨p, q, fl, s, clean, dirty⟩ := swept
  obtain ⟨grants, s', run, space, byte⟩ := swept_stack clean
  obtain ⟨_, t', run', _, byte'⟩ := swept_stack dirty
  have wf : WellFormed emptyImage :=
    oneSegment_wellFormed (by decide) (by decide) (by decide) (by decide) (by decide) (by decide)
  obtain ⟨_, t'', again, same⟩ := claim s _ 0 _ emptyImage 0 grants s' p clean.reached dirty.reached
    (refilled_alike clean.books.list 1 0) clean.fresh wf run space
  rw [run'] at again
  cases again
  have both := same (USTACKTOP - PGSIZE) (by decide)
  rw [byte, byte'] at both
  exact absurd both (by decide)

end SmallMachine

end JosPageRemains
