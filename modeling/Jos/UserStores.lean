import Jos.DirRights

/- Address spaces whose pages belong to one environment each, and the stores the kernel makes
   through user addresses. -/
namespace JosUserStores
open JosLayout FrameWords JosMachine JosPmap JosMmu JosEnv JosBoot JosAccounting JosPageOps
open JosMapping JosEnvSpace JosNewEnv JosBootPages JosStaticMap JosKernelView JosPageRuns
open JosRefWrap JosDirRights IntrusiveList Ledger TableForest CountedLoop

/-- The directories and page tables, of environments and of the kernel. -/
def TablePage (dirs : Dirs) (s : State) (q : Nat) : Prop := TreePage dirs s q ∨ KernFrame s q

/-- What does not concern pages: the tables are as they were, and so are the counters. -/
structure Untouched (dirs : Dirs) (s s' : State) : Prop where
  pages : s'.pages = s.pages
  list : s'.pageFreeList = s.pageFreeList
  npages : s'.npages = s.npages
  nextfree : s'.nextfree = s.nextfree
  kernPgdir : s'.kernPgdir = s.kernPgdir
  known : ∀ e p, dirs e = some p → (s'.envs e).envPgdir = (s.envs e).envPgdir
  mem : ∀ q, TablePage dirs s q → s'.mem q = s.mem q

def Rights (dirs : Dirs) (s : State) : Prop :=
  ∀ e d i q, target dirs none s (.leaf e d i) = some q →
    ∃ t, target dirs none s (.table e d) = some t ∧ s.entry t i = mapEntry q (PTE_W ||| PTE_U)

structure Tidy (m : Machine) (dirs : Dirs) (s : State) : Prop where
  view : View m dirs s
  single : ∀ q, refs (target dirs none s) q ≤ 1
  rights : Rights dirs s

section Untouched
variable {m : Machine} {dirs : Dirs} {s s' s'' : State} {fl : List Nat}

theorem Untouched.target (same : Untouched dirs s s') :
    target dirs none s' = target dirs none s := by
  apply target_entries same.kernPgdir
  · intro i _
    unfold State.entry
    rw [same.mem _ (Or.inr (Or.inl rfl))]
  · intro q tree i _
    unfold State.entry
    rw [same.mem q (Or.inl tree)]

theorem Untouched.books (same : Untouched dirs s s') (acc : Accounted dirs none s fl) :
    Accounted dirs none s' fl := by
  refine acc.keep ⟨same.npages, same.nextfree, same.kernPgdir, ?_⟩ same.target same.pages same.list
  intro d _
  unfold State.entry
  rw [same.mem _ (Or.inr (Or.inl rfl))]

theorem Untouched.view (same : Untouched dirs s s') (view : View m dirs s) : View m dirs s' := by
  obtain ⟨fl, acc⟩ := view.kept.books
  have frames : ∀ q, KernFrame s q → s'.mem q = s.mem q := fun q kernel => same.mem q (Or.inr kernel)
  refine view.frame ⟨⟨fl, same.books acc⟩, ?_, ?_, shut_frame same.kernPgdir frames view.kept.shut⟩
    ?_ same.kernPgdir frames
  · intro e p he
    rw [same.known e p he]
    exact view.kept.known e p he
  · intro q
    rw [same.target]
    exact view.kept.bounded q
  · exact view.shaped.frame same.kernPgdir (frames _ (Or.inl rfl))
      fun e p he => same.mem p (Or.inl (Or.inl ⟨e, he⟩))

theorem Untouched.tidy (same : Untouched dirs s s') (tidy : Tidy m dirs s) : Tidy m dirs s' := by
  refine ⟨same.view tidy.view, ?_, ?_⟩
  · intro q
    rw [same.target]
    exact tidy.single q
  · intro e d i q held
    rw [same.target] at held ⊢
    obtain ⟨t, ht, entry⟩ := tidy.rights e d i q held
    refine ⟨t, ht, ?_⟩
    unfold State.entry
    rw [same.mem t (Or.inl (Or.inr ⟨e, d, ht⟩))]
    exact entry

theorem Untouched.trans (first : Untouched dirs s s') (second : Untouched dirs s' s'') :
    Untouched dirs s s'' := by
  have still : ∀ q, TablePage dirs s q → TablePage dirs s' q := by
    intro q table
    rcases table with tree | kernel | ⟨d, static, named⟩
    · left
      unfold TreePage at tree ⊢
      rw [first.target]
      exact tree
    · exact Or.inr (Or.inl (kernel.trans first.kernPgdir.symm))
    · refine Or.inr (Or.inr ⟨d, static, ?_⟩)
      rw [kern_entry_frame first.kernPgdir fun q kernel => first.mem q (Or.inr kernel)]
      exact named
  refine ⟨second.pages.trans first.pages, second.list.trans first.list,
    second.npages.trans first.npages, second.nextfree.trans first.nextfree,
    second.kernPgdir.trans first.kernPgdir, ?_, ?_⟩
  · intro e p he
    rw [second.known e p he, first.known e p he]
  · intro q table
    rw [second.mem q (still q table), first.mem q table]

theorem untouched_refl (dirs : Dirs) (s : State) : Untouched dirs s s :=
  ⟨rfl, rfl, rfl, rfl, rfl, fun _ _ _ => rfl, fun _ _ => rfl⟩

end Untouched

section Pages
variable {m : Machine} {dirs : Dirs} {s s' : State} {e : Fin NENV} {pgdir va q : Nat} {b : UInt8}

theorem Tidy.unique (tidy : Tidy m dirs s) {x y : PageSlot}
    (hx : target dirs none s x = some q) (hy : target dirs none s y = some q) : x = y :=
  refs_le_one_unique (tidy.single q) hx hy

theorem Tidy.plain (tidy : Tidy m dirs s) {d : Fin userPdes} {i : Fin NPTENTRIES}
    (held : target dirs none s (.leaf e d i) = some q) : ¬ TablePage dirs s q := by
  obtain ⟨fl, acc⟩ := tidy.view.kept.books
  intro table
  rcases table with (⟨e', he'⟩ | ⟨e', d', ht'⟩) | kernel | ⟨d', static, named⟩
  · have slots := tidy.unique held (show target dirs none s (.root e') = some q from he')
    cases slots
  · have slots := tidy.unique held ht'
    cases slots
  · exact managed_ne_kern acc (acc.targets _ q held) kernel
  · have fixed : target dirs none s (.fixed ⟨d', static.2.1⟩) = some q := by
      rw [fixed_entry static]
      exact named
    have slots := tidy.unique held fixed
    cases slots

theorem walk_page (he : dirs e = some pgdir) (user : pdx va < userPdes) :
    (walk s pgdir va).map Translation.page = target dirs none s (leafSlot e va user) := by
  rw [← mappedAt_target user]
  unfold mappedAt
  rw [he]
  rfl

/-- Where an environment has a page, user code reads and writes it. -/
theorem walk_granted (tidy : Tidy m dirs s) (he : dirs e = some pgdir) (user : pdx va < userPdes)
    {t : Translation} (walked : walk s pgdir va = some t) :
    Translation.user t ∧ Translation.writable t := by
  obtain ⟨pde, pte, same⟩ := walk_some.mp walked
  have page := walk_page (s := s) he user
  rw [walked] at page
  obtain ⟨table, ht, entry⟩ := tidy.rights e ⟨pdx va, user⟩ ⟨ptx va, ptx_lt va⟩ _ page.symm
  obtain ⟨_, named⟩ := (table_entry he).mp ht
  dsimp only at named entry
  subst same
  obtain ⟨pde_user, pde_writable⟩ := ((tidy.view.shaped e pgdir he).low _ user) pde
  refine ⟨⟨pde_user, ?_⟩, pde_writable, ?_⟩
  · dsimp only
    rw [named, entry]
    unfold UserBit
    rw [mapEntry_and (by decide) (by decide)]
    decide
  · dsimp only
    rw [named, entry]
    unfold Writable
    rw [mapEntry_and (by decide) (by decide)]
    decide

theorem walk_writable (tidy : Tidy m dirs s) (he : dirs e = some pgdir) (user : pdx va < userPdes)
    {t : Translation} (walked : walk s pgdir va = some t) : Translation.writable t :=
  (walk_granted tidy he user walked).2

/-- A kernel store below UTOP goes to the page of the environment, or faults. -/
theorem kwrite_user (tidy : Tidy m dirs s) (he : dirs e = some pgdir) (cr3 : s.cr3 = pgdir)
    (user : pdx va < userPdes) (b : UInt8) :
    kwrite s va b = match target dirs none s (leafSlot e va user) with
      | none => .error (.kernelPageFault va)
      | some q => .ok (s.setByte q (pgoff va) b) := by
  have page := walk_page (s := s) he user
  unfold kwrite
  rw [cr3, ← page]
  cases walked : walk s pgdir va with
  | none => rfl
  | some t => exact if_pos (walk_writable tidy he user walked)

theorem kwrite_utop (view : View m dirs s) (he : dirs e = some pgdir) (cr3 : s.cr3 = pgdir)
    (b : UInt8) : kwrite s UTOP b = .error (.kernelPageFault UTOP) := by
  have static : StaticPde (pdx UTOP) := by
    unfold StaticPde
    decide
  unfold kwrite
  rw [cr3]
  cases walked : walk s pgdir UTOP with
  | none => rfl
  | some t =>
    refine if_neg ?_
    intro writable
    obtain ⟨present, pde, pte⟩ : _ ∧ _ ∧ _ := walk_some.mp walked
    have same := (view.shaped e pgdir he).high _ static
    have leaf : t.pte = kernPte s UTOP := by
      rw [pte]
      unfold kernPte
      rw [← same, if_pos present]
    have low : vpn UTOP < ULIM / PGSIZE := by decide
    apply view.readonly static low
    rw [← leaf]
    exact writable.2

theorem setByte_untouched (tidy : Tidy m dirs s) {d : Fin userPdes} {i : Fin NPTENTRIES}
    (held : target dirs none s (.leaf e d i) = some q) (o : Nat) (b : UInt8) :
    Untouched dirs s (s.setByte q o b) := by
  refine ⟨rfl, rfl, rfl, rfl, rfl, fun _ _ _ => rfl, ?_⟩
  intro r table
  have differ : r ≠ q := by
    intro same
    subst same
    exact tidy.plain held table
  simp [State.setByte, differ]

end Pages

def byteAt (s : State) (pgdir va : Nat) : Option UInt8 :=
  (walk s pgdir va).map fun t => s.mem (Translation.page t) (pgoff va)

def stores (f : Nat → UInt8) (v n : Nat) (s : State) : Except Panic State :=
  times (fun k s => kwrite s ((v + k) % WORD) (f k)) n s

structure Stored (dirs : Dirs) (e : Fin NENV) (s s' : State) : Prop where
  rest : s' = { s with mem := s'.mem }
  untouched : Untouched dirs s s'
  mem : ∀ q, (∀ d i, target dirs none s (.leaf e d i) ≠ some q) → s'.mem q = s.mem q

section Stores
variable {m : Machine} {dirs : Dirs} {s s' s'' : State} {e : Fin NENV} {pgdir va q : Nat}
  {f : Nat → UInt8} {v n : Nat}

theorem memset_eq (s : State) (v : Nat) (c : UInt8) (n : Nat) :
    memset s v c n = stores (fun _ => c) v n s := rfl

theorem memcpy_eq (s : State) (v : Nat) (src : Binary) (o n : Nat) :
    memcpy s v src o n = stores (fun k => src.byte ((o + k) % WORD)) v n s := rfl

theorem stored_refl (dirs : Dirs) (e : Fin NENV) (s : State) : Stored dirs e s s :=
  ⟨rfl, untouched_refl dirs s, fun _ _ => rfl⟩

theorem Stored.quiet (stored : Stored dirs e s s') : Quiet s s' := by
  unfold Quiet
  rw [stored.rest]

theorem Stored.trans (first : Stored dirs e s s') (second : Stored dirs e s' s'') :
    Stored dirs e s s'' := by
  refine ⟨?_, first.untouched.trans second.untouched, ?_⟩
  · rw [second.rest, first.rest]
  · intro q other
    have later : ∀ d i, target dirs none s' (.leaf e d i) ≠ some q := by
      intro d i
      rw [first.untouched.target]
      exact other d i
    rw [second.mem q later, first.mem q other]

theorem setByte_stored (tidy : Tidy m dirs s) {d : Fin userPdes} {i : Fin NPTENTRIES}
    (held : target dirs none s (.leaf e d i) = some q) (o : Nat) (b : UInt8) :
    Stored dirs e s (s.setByte q o b) := by
  refine ⟨rfl, setByte_untouched tidy held o b, ?_⟩
  intro r other
  have differ : r ≠ q := by
    intro same
    subst same
    exact other d i held
  simp [State.setByte, differ]

theorem same_address {va va' : Nat} (word : va < WORD) (word' : va' < WORD) (dir : pdx va = pdx va')
    (table : ptx va = ptx va') (offset : pgoff va = pgoff va') : va = va' := by
  rw [pdx_eq, pdx_eq] at dir
  rw [ptx_eq, ptx_eq] at table
  rw [pgoff_eq, pgoff_eq] at offset
  simp only [WORD] at word word'
  omega

theorem Untouched.walk (same : Untouched dirs s s') (he : dirs e = some pgdir)
    (user : pdx va < userPdes) : walk s' pgdir va = walk s pgdir va := by
  have dir : s'.entry pgdir (pdx va) = s.entry pgdir (pdx va) := by
    unfold State.entry
    rw [same.mem pgdir (Or.inl (Or.inl ⟨e, he⟩))]
  unfold JosMmu.walk
  rw [dir]
  by_cases present : Present (s.entry pgdir (pdx va))
  · have ht : TreePage dirs s (ppn (s.entry pgdir (pdx va))) :=
      Or.inr ⟨e, ⟨pdx va, user⟩, (table_entry he).mpr ⟨present, rfl⟩⟩
    have leaf : s'.entry (ppn (s.entry pgdir (pdx va))) (ptx va) =
        s.entry (ppn (s.entry pgdir (pdx va))) (ptx va) :=
      congrArg (fun f => word f (ptx va)) (same.mem _ (Or.inl ht))
    simp only [leaf]
  · simp only [if_neg present]

theorem setByte_byteAt (tidy : Tidy m dirs s) (user : va < UTOP)
    (held : target dirs none s (leafSlot e va (user_slot user)) = some q) (b : UInt8)
    {e' : Fin NENV} {pgdir' va' : Nat} (he' : dirs e' = some pgdir') (user' : va' < UTOP) :
    byteAt (s.setByte q (pgoff va) b) pgdir' va' =
      if e' = e ∧ va' = va then some b else byteAt s pgdir' va' := by
  have same := setByte_untouched tidy held (pgoff va) b
  have page := walk_page (s := s) he' (user_slot user')
  unfold byteAt
  rw [same.walk he' (user_slot user')]
  cases walked : walk s pgdir' va' with
  | none =>
    have elsewhere : ¬ (e' = e ∧ va' = va) := by
      intro here
      obtain ⟨rfl, rfl⟩ := here
      rw [walked, held] at page
      cases page
    rw [if_neg elsewhere]
    rfl
  | some t =>
    rw [walked] at page
    have there : target dirs none s (leafSlot e' va' (user_slot user')) = some (Translation.page t) := page.symm
    simp only [Option.map_some]
    by_cases here : e' = e ∧ va' = va
    · obtain ⟨rfl, rfl⟩ := here
      rw [held] at there
      cases there
      simp [State.setByte]
    · rw [if_neg here]
      congr 1
      by_cases frame : Translation.page t = q
      · have slots : leafSlot e' va' (user_slot user') = leafSlot e va (user_slot user) := by
          rw [frame] at there
          exact tidy.unique there held
        simp only [leafSlot, Slot.leaf.injEq, Fin.mk.injEq] at slots
        have word : UTOP < WORD := by decide
        have offset : pgoff va' ≠ pgoff va := by
          intro offset
          exact here ⟨slots.1, same_address (Nat.lt_trans user' word) (Nat.lt_trans user word)
            slots.2.1 slots.2.2 offset⟩
        rw [frame]
        simp [State.setByte, offset]
      · simp [State.setByte, frame]

/-- What a sequence of stores does when it gets through: it stays below UTOP, and each byte of
    the range ends up as told. -/
structure Written (m : Machine) (dirs : Dirs) (e : Fin NENV) (f : Nat → UInt8) (v n : Nat)
    (s s' : State) : Prop where
  tidy : Tidy m dirs s'
  stored : Stored dirs e s s'
  below : v + n ≤ UTOP
  bytes : ∀ e' pgdir' va', dirs e' = some pgdir' → va' < UTOP →
    byteAt s' pgdir' va' =
      if e' = e ∧ v ≤ va' ∧ va' < v + n then some (f (va' - v)) else byteAt s pgdir' va'

theorem written_start (tidy : Tidy m dirs s) (low : v ≤ UTOP) : Written m dirs e f v 0 s s := by
  refine ⟨tidy, stored_refl dirs e s, low, ?_⟩
  intro e' pgdir' va' _ _
  have outside : ¬ (e' = e ∧ v ≤ va' ∧ va' < v + 0) := by omega
  rw [if_neg outside]

theorem Written.next (written : Written m dirs e f v n s s') (he : dirs e = some pgdir)
    (cr3 : s.cr3 = pgdir) : 
    (∃ a, kwrite s' ((v + n) % WORD) (f n) = .error (.kernelPageFault a) ∧
      (v + n = UTOP ∨ ∃ user : v + n < UTOP,
        target dirs none s (leafSlot e (v + n) (user_slot user)) = none)) ∨
    ∃ s'', kwrite s' ((v + n) % WORD) (f n) = .ok s'' ∧ Written m dirs e f v (n + 1) s s'' := by
  have cr3' : s'.cr3 = pgdir := by
    rw [written.stored.rest]
    exact cr3
  have word : UTOP < WORD := by decide
  have whole : (v + n) % WORD = v + n := Nat.mod_eq_of_lt (Nat.lt_of_le_of_lt written.below word)
  rw [whole]
  rcases Nat.lt_or_eq_of_le written.below with user | top
  · have store := kwrite_user written.tidy he cr3' (user_slot user) (f n)
    rw [written.stored.untouched.target] at store
    cases held : target dirs none s (leafSlot e (v + n) (user_slot user)) with
    | none =>
      rw [held] at store
      exact Or.inl ⟨_, store, Or.inr ⟨user, held⟩⟩
    | some q =>
      right
      rw [held] at store
      have held' : target dirs none s' (leafSlot e (v + n) (user_slot user)) = some q := by
        rw [written.stored.untouched.target]
        exact held
      refine ⟨_, store, (setByte_untouched written.tidy held' _ _).tidy written.tidy,
        written.stored.trans (setByte_stored written.tidy held' _ _), user, ?_⟩
      intro e' pgdir' va' he' user'
      rw [setByte_byteAt written.tidy user held' (f n) he' user',
        written.bytes e' pgdir' va' he' user']
      by_cases last : e' = e ∧ va' = v + n
      · have inside : e' = e ∧ v ≤ va' ∧ va' < v + (n + 1) := by omega
        have index : va' - v = n := by omega
        rw [if_pos last, if_pos inside, index]
      · rw [if_neg last]
        by_cases inside : e' = e ∧ v ≤ va' ∧ va' < v + n
        · have wider : e' = e ∧ v ≤ va' ∧ va' < v + (n + 1) := by omega
          rw [if_pos inside, if_pos wider]
        · have outside : ¬ (e' = e ∧ v ≤ va' ∧ va' < v + (n + 1)) := by
            intro wider
            have same := wider.1
            omega
          rw [if_neg inside, if_neg outside]
  · left
    rw [top]
    exact ⟨UTOP, kwrite_utop written.tidy.view he cr3' (f n), Or.inl rfl⟩

theorem stores_ok (tidy : Tidy m dirs s) (he : dirs e = some pgdir) (cr3 : s.cr3 = pgdir)
    (low : v ≤ UTOP) (run : stores f v n s = .ok s') : Written m dirs e f v n s s' := by
  have round : ∀ k a b, k < n → Written m dirs e f v k s a →
      kwrite a ((v + k) % WORD) (f k) = .ok b → Written m dirs e f v (k + 1) s b := by
    intro k a b _ written done
    rcases written.next he cr3 with ⟨_, failed, _⟩ | ⟨s'', stored, next⟩
    · rw [failed] at done
      cases done
    · rw [stored] at done
      cases done
      exact next
  exact times_keeps (fun k a => Written m dirs e f v k s a) (written_start tidy low) round run

theorem stores_total (tidy : Tidy m dirs s) (he : dirs e = some pgdir) (cr3 : s.cr3 = pgdir)
    (fits : v + n ≤ UTOP) (pages : ∀ k, k < n → ∀ user : v + k < UTOP,
      target dirs none s (leafSlot e (v + k) (user_slot user)) ≠ none) :
    ∃ s', stores f v n s = .ok s' ∧ Written m dirs e f v n s s' := by
  apply times_total (fun k a => Written m dirs e f v k s a)
  · exact written_start tidy (by omega)
  · intro k a small written
    rcases written.next he cr3 with ⟨_, _, top | ⟨user, empty⟩⟩ | done
    · omega
    · exact absurd empty (pages k small user)
    · exact done

end Stores

end JosUserStores
