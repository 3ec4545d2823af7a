import Jos.PageTrials

/- The self-checks of the page allocator and of page_insert get through, and give everything
   back. -/
namespace JosPageChecks
open JosLayout FrameWords JosMachine JosPmap JosBoot JosAccounting JosPageOps JosMapping JosTlb
open JosPageListCheck JosSelfChecks JosPageTrials IntrusiveList CountedLoop WhileLoop

theorem assert_bind {β : Type} {holds : Prop} [Decidable holds] (h : holds)
    (f : Unit → Except Panic β) : (assert holds >>= f) = f () := by
  rw [assert_pos h]
  rfl

/-- Three pages t, p1 and p2 for a check to play with; t is to be the page table. -/
structure Cast (s0 : State) (t p1 p2 : Nat) : Prop where
  first : p1 ≠ t
  second : p2 ≠ t
  apart : p2 ≠ p1
  kern : s0.kernPgdir ∉ [t, p1, p2]
  inside : ∀ p ∈ [t, p1, p2], p < s0.npages
  room : s0.npages ≤ 1048576

def counts (s0 : State) (t p1 p2 : Nat) (r0 r1 r2 : UInt16) : Nat → UInt16 :=
  Function.update (Function.update (Function.update (fun p => (s0.pages p).ppRef) t r0) p1 r1) p2 r2

def slots (dir : Nat → Nat) (d0 d1 : Nat) : Nat → Nat :=
  Function.update (Function.update dir 0 d0) 1 d1

def leaves (e0 e1 : Nat) : Nat → Nat := slots (fun _ => 0) e0 e1

namespace Cast
variable {s0 : State} {t p1 p2 : Nat} (cast : Cast s0 t p1 p2) {r0 r1 r2 n : UInt16}
include cast

theorem stage : Stage s0 [t, p1, p2] t :=
  ⟨List.mem_cons_self, cast.kern, cast.inside, cast.room⟩

theorem nodup : [t, p1, p2].Nodup := by
  simp only [List.nodup_cons, List.mem_cons, List.not_mem_nil, or_false, not_or, List.nodup_nil,
    not_false_iff, and_true]
  exact ⟨⟨Ne.symm cast.first, Ne.symm cast.second⟩, Ne.symm cast.apart⟩

theorem counts_t : counts s0 t p1 p2 r0 r1 r2 t = r0 := by
  simp [counts, cast.first.symm, cast.second.symm]

theorem counts_p1 : counts s0 t p1 p2 r0 r1 r2 p1 = r1 := by
  simp [counts, cast.apart.symm]

omit cast in
theorem counts_p2 : counts s0 t p1 p2 r0 r1 r2 p2 = r2 := by
  simp [counts]

theorem set_t : Function.update (counts s0 t p1 p2 r0 r1 r2) t n = counts s0 t p1 p2 n r1 r2 := by
  unfold counts
  rw [Function.update_comm cast.second, Function.update_comm cast.first, Function.update_idem]

theorem set_p1 : Function.update (counts s0 t p1 p2 r0 r1 r2) p1 n = counts s0 t p1 p2 r0 n r2 := by
  unfold counts
  rw [Function.update_comm cast.apart, Function.update_idem]

omit cast in
theorem set_p2 : Function.update (counts s0 t p1 p2 r0 r1 r2) p2 n = counts s0 t p1 p2 r0 r1 n := by
  unfold counts
  rw [Function.update_idem]

end Cast

section Slots
variable {dir : Nat → Nat} {d0 d1 x : Nat}

@[simp] theorem slots_first : slots dir d0 d1 0 = d0 := by simp [slots]

@[simp] theorem slots_second : slots dir d0 d1 1 = d1 := by simp [slots]

@[simp] theorem slots_set_first : Function.update (slots dir d0 d1) 0 x = slots dir x d1 := by
  unfold slots
  rw [Function.update_comm (by decide), Function.update_idem]

@[simp] theorem slots_set_second : Function.update (slots dir d0 d1) 1 x = slots dir d0 x := by
  unfold slots
  rw [Function.update_idem]

theorem leaves_none : (fun _ => 0) = leaves 0 0 := by
  funext i
  unfold leaves slots
  rw [Function.update_apply, Function.update_apply]
  split
  · rfl
  · split <;> rfl

end Slots

/-- What the checks have made of s0. -/
abbrev At (s0 : State) (t p1 p2 : Nat) (fl : List Nat) (r0 r1 r2 : UInt16) (d0 d1 : Nat)
    (table : Nat → Nat) (data : Nat → Frame) (s : State) : Prop :=
  Sight s0 [t, p1, p2] t fl (counts s0 t p1 p2 r0 r1 r2)
    (slots (s0.entry s0.kernPgdir) d0 d1) table data s

section Parts
variable {s0 s s' : State} {t p1 p2 : Nat} {fl : List Nat} {r0 r1 r2 : UInt16} {d0 d1 e0 e1 : Nat}
  {table : Nat → Nat} {data : Nat → Frame} {p va perm : Nat}

theorem assertInsert_ok (run : pageInsert s s.kernPgdir p va perm = .ok (0, s')) :
    assertInsert s p va perm = .ok s' := by
  unfold assertInsert
  rw [run, ok_bind]
  exact assert_bind rfl _

theorem assertNoInsert_ok (run : pageInsert s s.kernPgdir p va perm = .ok (-E_NO_MEM, s)) :
    assertNoInsert s p va perm = .ok s := by
  unfold assertNoInsert
  rw [run, ok_bind]
  exact assert_bind (by decide) _

theorem pageLookup_bare (bare : entryPage (s.entry s.kernPgdir (pdx va)) = none) :
    pageLookup s s.kernPgdir va = .ok none := by
  unfold pageLookup
  rw [pgdirWalk_absent (entryPage_none.mp bare)]
  rfl

theorem tableEntry_or (t : Nat) {perm : Nat} (granted : PTE_U ||| PTE_W ||| PTE_P ||| perm =
    PTE_U ||| PTE_W ||| PTE_P) : tableEntry t ||| perm = tableEntry t := by
  unfold tableEntry
  rw [Nat.or_assoc (page2pa t), Nat.or_assoc (page2pa t), Nat.or_assoc (page2pa t), granted]

theorem entryPage_table (room : t < 1048576) : entryPage (tableEntry t) = some t := by
  rw [tableEntry_eq]
  exact entryPage_mapEntry room (by decide)

variable (cast : Cast s0 t p1 p2)
include cast

theorem Cast.room_of (mine : p ∈ [t, p1, p2]) : p < 1048576 :=
  Nat.lt_of_lt_of_le (cast.inside p mine) cast.room

theorem checkFirstInsert_ok (v : At s0 t p1 p2 [] 0 0 0 0 0 table data s) :
    ∃ s', checkFirstInsert s t p1 = .ok s' ∧
      At s0 t p1 p2 [] 1 1 0 (tableEntry t) 0 (leaves (mapEntry p1 PTE_W) 0) data s' := by
  have mine : t ∈ [t, p1, p2] := List.mem_cons_self
  have mine1 : p1 ∈ [t, p1, p2] := by simp
  have room : t < 1048576 := cast.room_of mine
  have room1 : p1 < 1048576 := cast.room_of mine1
  have bare : entryPage (slots (s0.entry s0.kernPgdir) 0 0 (pdx 0)) = none := entryPage_zero
  have bare_now : entryPage (s.entry s.kernPgdir (pdx 0)) = none := by
    rw [v.kernPgdir, v.dir]
    exact bare
  have lent := v.free mine (List.not_mem_nil)
  obtain ⟨s1, insert, v1⟩ := lent.insert_hangs cast.stage bare mine1 cast.first
    (show PTE_W < 4096 by decide)
  have after : At s0 t p1 p2 [] 1 1 0 (tableEntry t) 0 (leaves (mapEntry p1 PTE_W) 0) data s1 := by
    refine v1.congr ?_ ?_ ?_ rfl
    · rw [cast.counts_t, cast.counts_p1, cast.set_t, cast.set_p1]
      rfl
    · rw [tableEntry_or t (by decide)]
      exact slots_set_first
    · rw [leaves_none]
      exact slots_set_first
  have there : entryPage (slots (s0.entry s0.kernPgdir) (tableEntry t) 0 (pdx 0)) = some t :=
    entryPage_table room
  have leaf : entryPage (leaves (mapEntry p1 PTE_W) 0 (ptx 0)) = some p1 :=
    entryPage_mapEntry room1 (by decide)
  have address : pteAddr (s1.entry s1.kernPgdir 0) = page2pa t := by
    rw [pteAddr_eq, after.kernPgdir, after.dir]
    exact congrArg page2pa (entryPage_some.mp there).2
  refine ⟨s1, ?_, after⟩
  unfold checkFirstInsert
  rw [pageLookup_bare bare_now, ok_bind, assert_bind rfl,
    assertNoInsert_ok (v.insert_fails bare p1 PTE_W), ok_bind, assertInsert_ok insert, ok_bind,
    assert_bind address, after.va2pa cast.stage there leaf, ok_bind,
    after.hasRef cast.counts_p1, ok_bind, after.hasRef cast.counts_t, ok_bind]

omit cast in
theorem leaves_second : leaves e0 e1 (ptx PGSIZE) = e1 := slots_second

theorem there_second (d1 : Nat) {va : Nat} (first : pdx va = 0) :
    entryPage (slots (s0.entry s0.kernPgdir) (tableEntry t) d1 (pdx va)) = some t := by
  rw [first, slots_first]
  exact entryPage_table (cast.room_of List.mem_cons_self)

theorem insert_second (v : At s0 t p1 p2 fl r0 r1 r2 (tableEntry t) d1 (leaves e0 e1) data s)
    {q : Nat} (leaf : entryPage e1 = some q) (mine : p ∈ [t, p1, p2]) (also : q ∈ [t, p1, p2])
    (busy : q ∉ fl) (small : perm < 4096) (granted : PTE_U ||| PTE_W ||| PTE_P ||| perm =
      PTE_U ||| PTE_W ||| PTE_P) :
    ∃ s', pageInsert s s.kernPgdir p PGSIZE perm = .ok (0, s') ∧
      Sight s0 [t, p1, p2] t
        (released (Function.update (counts s0 t p1 p2 r0 r1 r2) p
          (counts s0 t p1 p2 r0 r1 r2 p + 1)) fl q)
        (Function.update (Function.update (counts s0 t p1 p2 r0 r1 r2) p
          (counts s0 t p1 p2 r0 r1 r2 p + 1)) q
          (Function.update (counts s0 t p1 p2 r0 r1 r2) p
            (counts s0 t p1 p2 r0 r1 r2 p + 1) q - 1))
        (slots (s0.entry s0.kernPgdir) (tableEntry t) d1) (leaves e0 (mapEntry p perm)) data s' := by
  have leaf_now : entryPage (leaves e0 e1 (ptx PGSIZE)) = some q := by
    rw [leaves_second]
    exact leaf
  obtain ⟨s1, insert, v1⟩ := v.insert_over cast.stage (there_second cast _ (show pdx PGSIZE = 0 by decide))
    leaf_now mine also busy small
  refine ⟨s1, insert, v1.congr rfl ?_ slots_set_second rfl⟩
  have same : slots (s0.entry s0.kernPgdir) (tableEntry t) d1 (pdx PGSIZE) ||| perm = tableEntry t := by
    rw [show pdx PGSIZE = 0 by decide, slots_first]
    exact tableEntry_or t granted
  rw [same]
  exact slots_set_first

theorem insert_again (v : At s0 t p1 p2 [] r0 r1 r2 (tableEntry t) d1 (leaves e0 e1) data s)
    (leaf : entryPage e1 = some p) (mine : p ∈ [t, p1, p2])
    (held : counts s0 t p1 p2 r0 r1 r2 p ≠ 0) (small : perm < 4096)
    (granted : PTE_U ||| PTE_W ||| PTE_P ||| perm = PTE_U ||| PTE_W ||| PTE_P) :
    ∃ s', assertInsert s p PGSIZE perm = .ok s' ∧
      At s0 t p1 p2 [] r0 r1 r2 (tableEntry t) d1 (leaves e0 (mapEntry p perm)) data s' := by
  obtain ⟨s1, insert, v1⟩ := insert_second cast v leaf mine mine List.not_mem_nil
    small granted
  have back : counts s0 t p1 p2 r0 r1 r2 p + 1 - 1 =
      counts s0 t p1 p2 r0 r1 r2 p := by grind
  refine ⟨s1, assertInsert_ok insert, ?_⟩
  rw [Function.update_self, Function.update_idem, back, Function.update_eq_self, released,
    Function.update_self, back, if_neg held] at v1
  exact v1

theorem checkSecondInsert_ok
    (v : At s0 t p1 p2 [] 1 1 0 (tableEntry t) 0 (leaves e0 0) data s) :
    ∃ s', checkSecondInsert s p2 = .ok s' ∧
      At s0 t p1 p2 [] 1 1 1 (tableEntry t) 0 (leaves e0 (mapEntry p2 PTE_W)) data s' := by
  have mine2 : p2 ∈ [t, p1, p2] := by simp
  have room2 : p2 < 1048576 := cast.room_of mine2
  have leaf : entryPage (mapEntry p2 PTE_W) = some p2 := entryPage_mapEntry room2 (by decide)
  have there := there_second cast 0 (show pdx PGSIZE = 0 by decide)
  have none : entryPage (leaves e0 0 (ptx PGSIZE)) = none := by
    rw [leaves_second]
    exact entryPage_zero
  obtain ⟨s1, insert, v1⟩ := v.insert_fresh cast.stage there none mine2 (show PTE_W < 4096 by decide)
  have once : At s0 t p1 p2 [] 1 1 1 (tableEntry t) 0 (leaves e0 (mapEntry p2 PTE_W)) data s1 := by
    refine v1.congr ?_ ?_ slots_set_second rfl
    · rw [Cast.counts_p2, Cast.set_p2]
      rfl
    · rw [show pdx PGSIZE = 0 by decide, slots_first, tableEntry_or t (by decide)]
      exact slots_set_first
  have mapped : entryPage (leaves e0 (mapEntry p2 PTE_W) (ptx PGSIZE)) = some p2 := by
    rw [leaves_second]
    exact leaf
  obtain ⟨s2, again, v2⟩ := insert_again cast once leaf mine2 (by rw [Cast.counts_p2]; decide)
    (show PTE_W < 4096 by decide) (by decide)
  refine ⟨s2, ?_, v2⟩
  unfold checkSecondInsert
  rw [assertInsert_ok insert, ok_bind, once.va2pa cast.stage there mapped, ok_bind,
    once.hasRef Cast.counts_p2, ok_bind, once.noPage, ok_bind, again, ok_bind,
    v2.va2pa cast.stage there mapped, ok_bind, v2.hasRef Cast.counts_p2, ok_bind, v2.noPage]

omit cast in
theorem mapEntry_flag (p : Nat) {perm f : Nat} (small : perm < 4096) (flag : f < 4096) :
    mapEntry p perm &&& f = 0 ↔ (perm ||| PTE_P) &&& f = 0 := by
  rw [mapEntry_and small flag]

theorem checkPerms_ok
    (v : At s0 t p1 p2 [] 1 1 1 (tableEntry t) 0 (leaves e0 (mapEntry p2 PTE_W)) data s) :
    ∃ s', checkPerms s p2 = .ok s' ∧
      At s0 t p1 p2 [] 1 1 1 (tableEntry t) 0 (leaves e0 (mapEntry p2 PTE_W)) data s' := by
  have mine2 : p2 ∈ [t, p1, p2] := by simp
  have room2 : p2 < 1048576 := cast.room_of mine2
  have there := there_second cast 0 (show pdx PGSIZE = 0 by decide)
  obtain ⟨dir_page, within⟩ := v.dirPage cast.stage there
  obtain ⟨_, named⟩ := entryPage_some.mp dir_page
  have table : kaddr s (pteAddr (s.entry s.kernPgdir (pdx PGSIZE))) = .ok t := by
    rw [kaddr_entry (named ▸ within), named]
  have leaf : ∀ {perm : Nat}, perm < 4096 → entryPage (mapEntry p2 perm) = some p2 :=
    fun small => entryPage_mapEntry room2 small
  have held : counts s0 t p1 p2 1 1 1 p2 ≠ 0 := by
    rw [Cast.counts_p2]
    decide
  obtain ⟨s1, insert1, v1⟩ := insert_again cast v (leaf (by decide)) mine2 held
    (show PTE_W ||| PTE_U < 4096 by decide) (by decide)
  obtain ⟨s2, insert2, v2⟩ := insert_again cast v1 (leaf (by decide)) mine2 held
    (show PTE_W < 4096 by decide) (by decide)
  have mapped : entryPage (leaves e0 (mapEntry p2 (PTE_W ||| PTE_U)) (ptx PGSIZE)) = some p2 := by
    rw [leaves_second]
    exact leaf (by decide)
  have user : UserBit (mapEntry p2 (PTE_W ||| PTE_U)) := by
    unfold UserBit
    rw [ne_eq, mapEntry_flag p2 (by decide) (by decide)]
    decide
  have dir_user : UserBit (s1.entry s1.kernPgdir 0) := by
    rw [v1.kernPgdir, v1.dir, slots_first]
    exact tableEntry_user t
  have writable : Writable (mapEntry p2 PTE_W) := by
    unfold Writable
    rw [ne_eq, mapEntry_flag p2 (by decide) (by decide)]
    decide
  have kernel : ¬ UserBit (mapEntry p2 PTE_W) := by
    rw [UserBit, not_not, mapEntry_flag p2 (by decide) (by decide)]
    decide
  refine ⟨s2, ?_, v2⟩
  unfold checkPerms
  rw [table, ok_bind, v.walk cast.stage there false, ok_bind]
  dsimp only
  rw [assert_bind rfl, insert1, ok_bind,
    v1.va2pa cast.stage there mapped, ok_bind, v1.hasRef Cast.counts_p2, ok_bind,
    v1.walked cast.stage there, ok_bind, leaves_second, assert_bind user, assert_bind dir_user,
    insert2, ok_bind, v2.walked cast.stage there, ok_bind, leaves_second, assert_bind writable,
    assert_bind kernel]

theorem assertTake_ok (v : At s0 t p1 p2 (p :: fl) r0 r1 r2 d0 d1 table data s)
    (mine : p ∈ [t, p1, p2]) :
    ∃ s', assertTake s p = .ok s' ∧ At s0 t p1 p2 fl r0 r1 r2 d0 d1 table data s' := by
  refine ⟨_, ?_, (v.take cast.stage mine).2⟩
  unfold assertTake
  rw [v.taken cast.stage mine, ok_bind]
  exact assert_bind rfl _

theorem checkReplace_ok (v : At s0 t p1 p2 [] 1 1 1 (tableEntry t) 0
    (leaves (mapEntry p1 PTE_W) (mapEntry p2 PTE_W)) data s) :
    ∃ s', checkReplace s t p1 p2 = .ok s' ∧ At s0 t p1 p2 [] 1 2 0 (tableEntry t) 0
      (leaves (mapEntry p1 PTE_W) (mapEntry p1 PTE_W)) data s' := by
  have mine1 : p1 ∈ [t, p1, p2] := by simp
  have mine2 : p2 ∈ [t, p1, p2] := by simp
  have room1 : p1 < 1048576 := cast.room_of mine1
  have there1 := there_second cast 0 (show pdx 0 = 0 by decide)
  have there := there_second cast 0 (show pdx PGSIZE = 0 by decide)
  have bare : entryPage (slots (s0.entry s0.kernPgdir) (tableEntry t) 0 (pdx PTSIZE)) = none := by
    rw [show pdx PTSIZE = 1 by decide, slots_second]
    exact entryPage_zero
  have leaf1 : entryPage (mapEntry p1 PTE_W) = some p1 := entryPage_mapEntry room1 (by decide)
  have leaf2 : entryPage (mapEntry p2 PTE_W) = some p2 :=
    entryPage_mapEntry (cast.room_of mine2) (by decide)
  obtain ⟨s1, insert, v1⟩ := insert_second cast v leaf2 mine1 mine2 List.not_mem_nil
    (show PTE_W < 4096 by decide) (by decide)
  have swapped : At s0 t p1 p2 [p2] 1 2 0 (tableEntry t) 0
      (leaves (mapEntry p1 PTE_W) (mapEntry p1 PTE_W)) data s1 := by
    rw [cast.counts_p1, cast.set_p1, Cast.counts_p2, Cast.set_p2, released, Cast.counts_p2,
      if_pos (by decide)] at v1
    exact v1
  have kernel : ¬ UserBit (mapEntry p1 PTE_W) := by
    rw [UserBit, not_not, mapEntry_flag p1 (by decide) (by decide)]
    decide
  have second : entryPage (leaves (mapEntry p1 PTE_W) (mapEntry p1 PTE_W) (ptx PGSIZE)) = some p1 := by
    rw [leaves_second]
    exact leaf1
  obtain ⟨s2, take, v2⟩ := assertTake_ok cast swapped mine2
  refine ⟨s2, ?_, v2⟩
  unfold checkReplace
  rw [assertNoInsert_ok (v.insert_fails bare t PTE_W), ok_bind, assertInsert_ok insert, ok_bind,
    swapped.walked cast.stage there, ok_bind, leaves_second, assert_bind kernel,
    swapped.va2pa cast.stage there1 leaf1, ok_bind, swapped.va2pa cast.stage there second, ok_bind,
    swapped.hasRef cast.counts_p1, ok_bind, swapped.hasRef Cast.counts_p2, ok_bind, take]

theorem checkUnmap_ok (v : At s0 t p1 p2 [] 1 2 0 (tableEntry t) 0
    (leaves (mapEntry p1 PTE_W) (mapEntry p1 PTE_W)) data s) :
    ∃ s', checkUnmap s p1 p2 = .ok s' ∧
      At s0 t p1 p2 [] 1 0 0 (tableEntry t) 0 (leaves 0 0) data s' := by
  have mine1 : p1 ∈ [t, p1, p2] := by simp
  have room1 : p1 < 1048576 := cast.room_of mine1
  have there1 := there_second cast 0 (show pdx 0 = 0 by decide)
  have there := there_second cast 0 (show pdx PGSIZE = 0 by decide)
  have leaf : ∀ {perm : Nat}, perm < 4096 → entryPage (mapEntry p1 perm) = some p1 :=
    fun small => entryPage_mapEntry room1 small
  have second : ∀ {e0 perm : Nat}, perm < 4096 →
      entryPage (leaves e0 (mapEntry p1 perm) (ptx PGSIZE)) = some p1 := by
    intro e0 perm small
    rw [leaves_second]
    exact leaf small
  -- the mapping at 0 goes
  obtain ⟨s1, remove1, w1⟩ := v.remove cast.stage there1
    (show entryPage (leaves (mapEntry p1 PTE_W) (mapEntry p1 PTE_W) (ptx 0)) = some p1 from
      leaf (by decide)) mine1 List.not_mem_nil
  have v1 : At s0 t p1 p2 [] 1 1 0 (tableEntry t) 0 (leaves 0 (mapEntry p1 PTE_W)) data s1 := by
    rw [released, cast.counts_p1, if_neg (by decide), cast.set_p1] at w1
    exact w1.congr rfl rfl slots_set_first rfl
  -- the one at PGSIZE loses its permissions
  have held : counts s0 t p1 p2 1 1 0 p1 ≠ 0 := by
    rw [cast.counts_p1]
    decide
  obtain ⟨s2, insert, v2⟩ := insert_again cast v1 (leaf (by decide)) mine1 held
    (show 0 < 4096 by decide) (by decide)
  have counted : (s2.pages p1).ppRef ≠ 0 := by
    rw [v2.refs]
    exact held
  -- and goes too
  obtain ⟨s3, remove2, w3⟩ := v2.remove cast.stage there (second (by decide)) mine1
    List.not_mem_nil
  have v3 : At s0 t p1 p2 [p1] 1 0 0 (tableEntry t) 0 (leaves 0 0) data s3 := by
    rw [released, cast.counts_p1, if_pos (by decide), cast.set_p1] at w3
    exact w3.congr rfl rfl slots_set_second rfl
  obtain ⟨s4, take, v4⟩ := assertTake_ok cast v3 mine1
  have gone : entryPage (leaves 0 0 (ptx PGSIZE)) = none := by
    rw [leaves_second]
    exact entryPage_zero
  refine ⟨s4, ?_, v4⟩
  unfold checkUnmap
  rw [remove1, ok_bind, v1.va2pa_unmapped cast.stage there1 entryPage_zero, ok_bind,
    v1.va2pa cast.stage there (second (by decide)), ok_bind, v1.hasRef cast.counts_p1, ok_bind,
    v1.hasRef Cast.counts_p2, ok_bind, insert, ok_bind, assert_bind counted,
    assert_bind (v2.plain p1 mine1 List.not_mem_nil), remove2, ok_bind,
    v3.va2pa_unmapped cast.stage there1 entryPage_zero, ok_bind,
    v3.va2pa_unmapped cast.stage there gone, ok_bind, v3.hasRef cast.counts_p1, ok_bind,
    v3.hasRef Cast.counts_p2, ok_bind, take, ok_bind, v4.noPage]

theorem takeBack_ok {i : Nat} {ref : Nat → UInt16} {dir : Nat → Nat}
    (v : Sight s0 [t, p1, p2] t fl ref dir table data s) :
    Sight s0 [t, p1, p2] t fl (Function.update ref t 0) (Function.update dir i 0) table data
      (takeBack s t i) := by
  unfold takeBack
  rw [v.kernPgdir]
  exact (v.setDir cast.stage i (show 0 < WORD by decide)).setRef t 0

theorem fillPage_ok {ref : Nat → UInt16} {dir : Nat → Nat} (c : UInt8)
    (v : Sight s0 [t, p1, p2] t fl ref dir table data s) :
    ∃ s', fillPage s t c = .ok s' ∧
      Sight s0 [t, p1, p2] t fl ref dir (word fun _ => c) data s' := by
  refine ⟨_, ?_, v.fillTable cast.stage fun _ => c⟩
  unfold fillPage
  rw [page2kva_ok (v.inside cast.stage List.mem_cons_self)]
  rfl

theorem checkWalks_ok
    (v : At s0 t p1 p2 [] 1 0 0 (tableEntry t) 0 (leaves 0 0) data s) :
    ∃ s', checkWalks s t = .ok s' ∧ At s0 t p1 p2 [] 0 0 0 0 0 (leaves 0 0) data s' := by
  have mine : t ∈ [t, p1, p2] := List.mem_cons_self
  have there : entryPage (slots (s0.entry s0.kernPgdir) (tableEntry t) 0 0) = some t := by
    rw [slots_first]
    exact entryPage_table (cast.room_of mine)
  have address : pteAddr (s.entry s.kernPgdir 0) = page2pa t := by
    rw [pteAddr_eq, v.kernPgdir, v.dir, (entryPage_some.mp there).2]
  have counted : assertRef (s.setEntry s.kernPgdir 0 0) t 1 = .ok () := v.hasRef cast.counts_t
  -- t is taken back and becomes the table of slot 1
  have back1 : At s0 t p1 p2 [] 0 0 0 0 0 (leaves 0 0) data (takeBack s t 0) :=
    (takeBack_ok cast v).congr cast.set_t slots_set_first rfl rfl
  obtain ⟨s1, walk1, w1⟩ := (back1.free mine List.not_mem_nil).walk_hangs
    cast.stage (PGSIZE * NPDENTRIES + PGSIZE) entryPage_zero
  have v1 : At s0 t p1 p2 [] 1 0 0 0 (tableEntry t) (leaves 0 0) data s1 := by
    refine w1.congr ?_ slots_set_second leaves_none rfl
    rw [cast.counts_t, cast.set_t]
    rfl
  have there1 : entryPage (slots (s0.entry s0.kernPgdir) 0 (tableEntry t)
      (pdx (PGSIZE * NPDENTRIES + PGSIZE))) = some t := by
    rw [show pdx (PGSIZE * NPDENTRIES + PGSIZE) = 1 by decide, slots_second]
    exact entryPage_table (cast.room_of mine)
  obtain ⟨dir_page, within⟩ := v1.dirPage cast.stage there1
  obtain ⟨_, named⟩ := entryPage_some.mp dir_page
  have found : kaddr s1 (pteAddr (s1.entry s1.kernPgdir (pdx (PGSIZE * NPDENTRIES + PGSIZE)))) =
      .ok t := by
    rw [kaddr_entry (named ▸ within), named]
  -- it is filled with ones and becomes the table of slot 0
  have back2 : At s0 t p1 p2 [] 0 0 0 0 0 (leaves 0 0) data
      (takeBack s1 t (pdx (PGSIZE * NPDENTRIES + PGSIZE))) :=
    (takeBack_ok cast v1).congr cast.set_t slots_set_second rfl rfl
  obtain ⟨s2, fill, v2⟩ := fillPage_ok cast 0xFF back2
  obtain ⟨s3, walk2, w3⟩ := (v2.free mine List.not_mem_nil).walk_hangs cast.stage 0
    entryPage_zero
  have v3 : At s0 t p1 p2 [] 1 0 0 (tableEntry t) 0 (leaves 0 0) data s3 := by
    refine w3.congr ?_ slots_set_first leaves_none rfl
    rw [cast.counts_t, cast.set_t]
    rfl
  have walk3 : pgdirWalk (pageFree s2 t) s2.kernPgdir 0 true = .ok (some ⟨t, ptx 0⟩, s3) := walk2
  have clear : ∀ i < NPTENTRIES, ¬ Present (s3.entry t i) := by
    intro i _
    rw [v3.table, ← leaves_none]
    exact (show ¬ Present 0 by decide)
  refine ⟨takeBack s3 t 0, ?_, (takeBack_ok cast v3).congr cast.set_t slots_set_first rfl rfl⟩
  unfold checkWalks
  rw [assert_bind address, counted, ok_bind]
  dsimp only
  rw [walk1, ok_bind]
  dsimp only
  rw [found, ok_bind, assert_bind rfl, fill, ok_bind, walk3, ok_bind]
  dsimp only
  rw [page2kva_ok (v3.inside cast.stage mine), ok_bind, assert_bind clear]

end Parts

/-- An allocator whose free pages are not in use, and a kern_pgdir whose first two slots are
    empty. -/
structure Checkable (s : State) (fl : List Nat) : Prop where
  list : FreeList s fl
  nodup : fl.Nodup
  inside : ∀ p ∈ fl, p < s.npages
  unused : ∀ p ∈ fl, (s.pages p).ppRef = 0
  kern : s.kernPgdir ∉ fl
  room : s.npages < 1048576
  bare : s.entry s.kernPgdir 0 = 0 ∧ s.entry s.kernPgdir 1 = 0

section Whole
variable {s0 s s' : State} {t p1 p2 : Nat} {rest fl : List Nat} {table : Nat → Nat}
  {data : Nat → Frame}

theorem Checkable.cast (start : Checkable s0 (t :: p1 :: p2 :: rest)) : Cast s0 t p1 p2 := by
  have nodup := start.nodup
  have listed : ∀ p ∈ [t, p1, p2], p ∈ t :: p1 :: p2 :: rest := by
    intro p mine
    exact List.mem_append_left rest mine
  simp only [List.nodup_cons, List.mem_cons, not_or] at nodup
  obtain ⟨⟨first, second, _⟩, ⟨apart, _⟩, _⟩ := nodup
  exact ⟨Ne.symm first, Ne.symm second, Ne.symm apart, fun mine => start.kern (listed _ mine),
    fun p mine => start.inside p (listed p mine), Nat.le_of_lt start.room⟩

theorem Checkable.others (start : Checkable s0 (t :: p1 :: p2 :: rest)) :
    rest.Nodup ∧ ∀ p ∈ [t, p1, p2], p ∉ rest := by
  have split : ([t, p1, p2] ++ rest).Nodup := start.nodup
  obtain ⟨_, nodup, apart⟩ := List.nodup_append.mp split
  exact ⟨nodup, fun p mine listed => apart p mine p listed rfl⟩

theorem Checkable.sight (start : Checkable s0 (t :: p1 :: p2 :: rest)) :
    At s0 t p1 p2 (t :: p1 :: p2 :: rest) 0 0 0 0 0 (s0.entry t) s0.mem s0 := by
  refine ⟨rfl, start.list, start.nodup, ?_, fun _ _ => rfl, ?_, ?_, fun _ => rfl, fun _ _ _ => rfl⟩
  · intro p mine away
    exact absurd (List.mem_append_left rest mine) away
  · intro p
    have zero : p ∈ [t, p1, p2] → (s0.pages p).ppRef = 0 :=
      fun mine => start.unused p (List.mem_append_left rest mine)
    unfold counts
    rw [Function.update_apply, Function.update_apply, Function.update_apply]
    split
    · rename_i same
      exact zero (by simp [same])
    · split
      · rename_i same
        exact zero (by simp [same])
      · split
        · rename_i same
          exact zero (by simp [same])
        · rfl
  · intro i
    unfold slots
    rw [Function.update_apply, Function.update_apply]
    split
    · rename_i same
      rw [same, start.bare.2]
    · split
      · rename_i same
        rw [same, start.bare.1]
      · rfl

theorem takeThree_ok (cast : Cast s0 t p1 p2) {r0 r1 r2 : UInt16} {d0 d1 a b c : Nat}
    (v : At s0 t p1 p2 (a :: b :: c :: fl) r0 r1 r2 d0 d1 table data s)
    (mine : ∀ p ∈ [a, b, c], p ∈ [t, p1, p2]) :
    ∃ s', takeThree s = .ok (a, b, c, s') ∧ At s0 t p1 p2 fl r0 r1 r2 d0 d1 table data s' := by
  have mine0 := mine a List.mem_cons_self
  have mine1 := mine b (by simp)
  have mine2 := mine c (by simp)
  have v1 := (v.take cast.stage mine0).2
  have v2 := (v1.take cast.stage mine1).2
  refine ⟨_, ?_, (v2.take cast.stage mine2).2⟩
  unfold takeThree
  rw [v.taken cast.stage mine0, ok_bind]
  dsimp only
  rw [v1.taken cast.stage mine1, ok_bind]
  dsimp only
  rw [v2.taken cast.stage mine2]
  rfl

theorem freeThree (v : At s0 t p1 p2 fl 0 0 0 0 0 table data s) {a b c : Nat}
    (apart : [a, b, c].Nodup) (mine : ∀ p ∈ [a, b, c], p ∈ [t, p1, p2])
    (busy : ∀ p ∈ [t, p1, p2], p ∉ fl) :
    At s0 t p1 p2 (c :: b :: a :: fl) 0 0 0 0 0 table data (pageFree (pageFree (pageFree s a) b) c) := by
  simp only [List.nodup_cons, List.mem_cons, List.not_mem_nil, or_false, not_or] at apart
  obtain ⟨⟨ab, ac⟩, bc, _⟩ := apart
  have mine0 := mine a List.mem_cons_self
  have mine1 := mine b (by simp)
  have mine2 := mine c (by simp)
  have free0 := v.free mine0 (busy a mine0)
  have free1 := free0.free mine1 (by
    simp only [List.mem_cons, not_or]
    exact ⟨Ne.symm ab, busy b mine1⟩)
  exact free1.free mine2 (by
    simp only [List.mem_cons, not_or]
    exact ⟨Ne.symm bc, Ne.symm ac, busy c mine2⟩)

theorem assertApart_ok (cast : Cast s0 t p1 p2) : assertApart t p1 p2 = .ok () := by
  unfold assertApart
  rw [assert_bind cast.first]
  exact assert_pos ⟨cast.apart, cast.second⟩

theorem frame_ext {f g : Frame} (same : ∀ i, word f i = word g i) : f = g := by
  funext o
  have here := same (o / 4)
  have bound : ∀ (h : Frame) (k : Nat), (h k).toNat < 256 := fun h k => (h k).toNat_lt
  have f0 := bound f (4 * (o / 4))
  have f1 := bound f (4 * (o / 4) + 1)
  have f2 := bound f (4 * (o / 4) + 2)
  have f3 := bound f (4 * (o / 4) + 3)
  have g0 := bound g (4 * (o / 4))
  have g1 := bound g (4 * (o / 4) + 1)
  have g2 := bound g (4 * (o / 4) + 2)
  have g3 := bound g (4 * (o / 4) + 3)
  simp only [word] at here
  have place : o = 4 * (o / 4) ∨ o = 4 * (o / 4) + 1 ∨ o = 4 * (o / 4) + 2 ∨ o = 4 * (o / 4) + 3 := by
    omega
  apply UInt8.toNat_inj.mp
  rcases place with at0 | at1 | at2 | at3
  · rw [at0]
    omega
  · rw [at1]
    omega
  · rw [at2]
    omega
  · rw [at3]
    omega

/-- A self-check has given back the pages lent to it: only the order of the free list and the
    contents of these pages may have changed. -/
structure GivenBack (s0 s : State) (lent : List Nat) : Prop extends SelfChecked s0 s where
  elsewhere : ∀ p, p ∉ lent → s.mem p = s0.mem p

theorem givenBack_of (start : Checkable s0 (t :: p1 :: p2 :: rest))
    (v : At s0 t p1 p2 fl 0 0 0 0 0 table data s) (perm : (t :: p1 :: p2 :: rest).Perm fl)
    (same : ∀ p, p ∉ [t, p1, p2] → data p = s0.mem p) : GivenBack s0 s [t, p1, p2] := by
  have only : ∀ xs, FreeList s0 xs → xs = t :: p1 :: p2 :: rest :=
    fun xs list => chain_unique list start.list
  have refs : ∀ p, (s.pages p).ppRef = (s0.pages p).ppRef := by
    intro p
    rw [v.refs, start.sight.refs]
  have elsewhere : ∀ p, p ∉ [t, p1, p2] → s.mem p = s0.mem p := by
    intro p busy
    have table : p ≠ t := fun here => busy (here ▸ List.mem_cons_self)
    by_cases kern : p = s0.kernPgdir
    · subst kern
      apply frame_ext
      intro i
      exact (v.dir i).trans (start.sight.dir i).symm
    · rw [v.data p kern table, same p busy]
  refine ⟨⟨?_, ?_, ?_, refs, v.quiet⟩, elsewhere⟩
  · intro xs list
    rw [only xs list]
    exact ⟨fl, v.list, perm⟩
  · intro p xs list away
    rw [only xs list] at away
    exact elsewhere p fun mine => away (List.mem_append_left rest mine)
  · intro p xs list away
    rw [only xs list] at away
    have busy : p ∉ [t, p1, p2] := fun mine => away (List.mem_append_left rest mine)
    have link := v.links p busy
    have ref := refs p
    cases here : s.pages p
    cases there : s0.pages p
    rw [here, there] at link ref
    dsimp only at link ref
    rw [link, ref]

theorem checkPage_ok (start : Checkable s0 (t :: p1 :: p2 :: rest)) :
    ∃ s', checkPage s0 = .ok s' ∧ FreeList s' (p2 :: p1 :: t :: rest) ∧
      GivenBack s0 s' [t, p1, p2] := by
  have cast := start.cast
  obtain ⟨nodup, others⟩ := start.others
  obtain ⟨s1, take, v1⟩ := takeThree_ok cast start.sight fun _ mine => mine
  have hidden := v1.hide others
  obtain ⟨s2, run2, v2⟩ := checkFirstInsert_ok cast hidden
  obtain ⟨s3, run3, v3⟩ := checkSecondInsert_ok cast v2
  obtain ⟨s4, run4, v4⟩ := checkPerms_ok cast v3
  obtain ⟨s5, run5, v5⟩ := checkReplace_ok cast v4
  obtain ⟨s6, run6, v6⟩ := checkUnmap_ok cast v5
  obtain ⟨s7, run7, v7⟩ := checkWalks_ok cast v6
  have tail : Chain (fun p => (s0.pages p).ppLink) s1.pageFreeList rest := by
    refine chain_congr v1.list ?_
    intro p listed
    exact (v1.links p fun mine => others p mine listed).symm
  have given := v7.unhide nodup tail others
  have freed := freeThree given cast.nodup (fun _ mine => mine) others
  refine ⟨_, ?_, freed.list, givenBack_of start freed ?_ fun _ _ => rfl⟩
  · unfold checkPage
    rw [take, ok_bind]
    dsimp only
    rw [assertApart_ok cast, ok_bind, hidden.noPage, ok_bind, run2, ok_bind, run3, ok_bind, run4,
      ok_bind, run5, ok_bind, run6, ok_bind, run7, ok_bind]
  · have swap : [t, p1, p2].Perm [p2, p1, t] := (List.reverse_perm [t, p1, p2]).symm
    exact swap.append_right rest

theorem takeThree_short (list : FreeList s fl) (nodup : fl.Nodup) (inside : ∀ p ∈ fl, p < s.npages)
    (short : fl.length < 3) : takeThree s = .error .assertion := by
  have none_left : ∀ a : State, FreeList a [] → takePage a false = .error .assertion := by
    intro a empty
    unfold takePage pageAlloc
    rw [chain_nil_head empty]
    rfl
  have one : ∀ (a : State) (p : Nat) (xs : List Nat), FreeList a (p :: xs) → p ∉ xs → p < a.npages →
      takePage a false = .ok (p, takeFree a p false) ∧ FreeList (takeFree a p false) xs := by
    intro a p xs front fresh within
    obtain ⟨head, tail⟩ := chain_cons_head front
    refine ⟨?_, chain_congr tail fun q listed => ?_⟩
    · unfold takePage
      rw [pageAlloc_head head within]
      rfl
    · have differ : q ≠ p := fun same => fresh (same ▸ listed)
      rw [takeFree_links false differ]
  unfold takeThree
  match fl, list, nodup, inside, short with
  | [], list, _, _, _ =>
    rw [none_left s list]
    rfl
  | [p], list, _, inside, _ =>
    obtain ⟨run, left⟩ := one s p [] list List.not_mem_nil (inside p List.mem_cons_self)
    rw [run, ok_bind]
    dsimp only
    rw [none_left _ left]
    rfl
  | [p, q], list, nodup, inside, _ =>
    obtain ⟨run, left⟩ := one s p [q] list (List.nodup_cons.mp nodup).1
      (inside p List.mem_cons_self)
    obtain ⟨run', left'⟩ := one _ q [] left List.not_mem_nil (inside q (by simp))
    rw [run, ok_bind]
    dsimp only
    rw [run', ok_bind]
    dsimp only
    rw [none_left _ left']
    rfl

theorem count_loop {fuel : Nat} {head : Option Nat} {n : Nat}
    (list : Chain (fun p => (s.pages p).ppLink) head fl) (enough : fl.length < fuel) :
    loop (countRound s) fuel (head, n) = .ok (some (none, n + fl.length)) := by
  induction fl generalizing fuel head n with
  | nil =>
    obtain ⟨fuel, rfl⟩ := Nat.exists_eq_succ_of_ne_zero (Nat.ne_of_gt enough)
    rw [chain_nil_head list]
    exact loop_done rfl
  | cons p rest ih =>
    obtain ⟨rfl, tail⟩ := chain_cons_head list
    obtain ⟨fuel, rfl⟩ := Nat.exists_eq_succ_of_ne_zero (Nat.ne_of_gt (Nat.zero_lt_of_lt enough))
    have step : countRound s (some p, n) = pure (some ((s.pages p).ppLink, n + 1)) := rfl
    rw [loop_next step, ih tail (by simp only [List.length_cons] at enough; omega), List.length_cons,
      Nat.add_assoc, Nat.add_comm 1]

theorem countFree_ok {fuel : Nat} (list : FreeList s fl) (enough : fl.length < fuel) :
    countFree fuel s = .ok fl.length := by
  unfold countFree
  rw [count_loop list enough]
  change Except.ok (0 + fl.length) = _
  rw [Nat.zero_add]

theorem page_address (cast : Cast s0 t p1 p2) (size : s.npages = s0.npages)
    (room : s0.npages < 1048576) {p : Nat} (mine : p ∈ [t, p1, p2]) :
    page2pa p < s.npages * PGSIZE % WORD := by
  have inside := cast.inside p mine
  rw [size, Nat.mod_eq_of_lt (by simp only [PGSIZE, WORD]; omega)]
  simp only [page2pa, PGSIZE]
  omega

theorem refill (cast : Cast s0 t p1 p2) (v : At s0 t p1 p2 [] 0 0 0 0 0 table s0.mem s) {a : Nat}
    (mine : a ∈ [t, p1, p2]) (other : a ≠ t) :
    ∃ s1 s2, fillPage s a 1 = .ok s1 ∧ takePage (pageFree s1 a) true = .ok (a, s2) ∧
      s2.mem a = zeroFrame ∧
      At s0 t p1 p2 [] 0 0 0 0 0 table (Function.update s0.mem a zeroFrame) s2 := by
  have kern : a ≠ s0.kernPgdir := fun same => cast.kern (same ▸ mine)
  have filled := v.setFrame kern other fun _ => 1
  have lent := filled.free mine List.not_mem_nil
  have back := ((lent.take cast.stage mine).2).setFrame kern other zeroFrame
  rw [Function.update_idem] at back
  refine ⟨s.setFrame a fun _ => 1, takeFree (pageFree (s.setFrame a fun _ => 1) a) a true, ?_, ?_, ?_, back⟩
  · unfold fillPage
    rw [page2kva_ok (v.inside cast.stage mine)]
    rfl
  · unfold takePage
    rw [pageAlloc_head (chain_cons_head lent.list).1 (lent.inside cast.stage mine) true]
    rfl
  · rw [takeFree_mem, if_pos rfl, Function.update_self]

theorem checkPageAllocPages_ok (start : Checkable s0 (t :: p1 :: p2 :: rest)) :
    ∃ s', checkPageAllocPages s0 = .ok s' ∧ FreeList s' (t :: p1 :: p2 :: rest) ∧
      GivenBack s0 s' [t, p1, p2] := by
  have cast := start.cast
  obtain ⟨nodup, others⟩ := start.others
  have mine2 : p2 ∈ [t, p1, p2] := by simp
  obtain ⟨s1, take, v1⟩ := takeThree_ok cast start.sight fun _ mine => mine
  have address : ∀ p ∈ [t, p1, p2], page2pa p < s1.npages * PGSIZE % WORD :=
    fun p mine => page_address cast v1.quiet.npages start.room mine
  have hidden := v1.hide others
  -- the three pages are given back and taken again, the last one first
  have back := freeThree hidden cast.nodup (fun _ mine => mine) fun _ _ => List.not_mem_nil
  have turned : ∀ p ∈ [p2, p1, t], p ∈ [t, p1, p2] := by
    intro p mine
    exact List.mem_reverse.mp mine
  obtain ⟨s2, again, v2⟩ := takeThree_ok cast back turned
  have apart : assertApart p2 p1 t = .ok () := by
    unfold assertApart
    rw [assert_bind (Ne.symm cast.apart)]
    exact assert_pos ⟨Ne.symm cast.first, Ne.symm cast.second⟩
  obtain ⟨s3, s4, fill, realloc, clear, v4⟩ := refill cast v2 mine2 cast.second
  have zero : ∀ i < PGSIZE, s4.mem p2 i = 0 := by
    intro i _
    rw [clear]
    rfl
  have tail : Chain (fun p => (s0.pages p).ppLink) s1.pageFreeList rest := by
    refine chain_congr v1.list ?_
    intro p listed
    exact (v1.links p fun mine => others p mine listed).symm
  have given := v4.unhide nodup tail others
  have freed := freeThree given (List.nodup_reverse.mpr cast.nodup) turned others
  refine ⟨_, ?_, freed.list, givenBack_of start freed (List.Perm.refl _) ?_⟩
  · unfold checkPageAllocPages
    rw [take, ok_bind]
    dsimp only
    rw [assertApart_ok cast, ok_bind, assert_bind (address t (by simp)),
      assert_bind (address p1 (by simp)), assert_bind (address p2 mine2), hidden.noPage, ok_bind,
      again, ok_bind]
    dsimp only
    rw [apart, ok_bind, v2.noPage, ok_bind, fill, ok_bind, realloc, ok_bind]
    dsimp only
    rw [assert_bind rfl, page2kva_ok (v4.inside cast.stage mine2), ok_bind, assert_bind zero]
  · intro p away
    have differ : p ≠ p2 := fun same => away (same ▸ mine2)
    rw [Function.update_of_ne differ]

/-- check_page passes on any allocator with three free pages to lend, and leaves them on the free
    list the other way round; with fewer its first assertions stop it. -/
theorem check_page_passes (start : Checkable s0 fl) :
    (3 ≤ fl.length → ∃ s', checkPage s0 = .ok s' ∧
      FreeList s' ((fl.take 3).reverse ++ fl.drop 3) ∧ GivenBack s0 s' (fl.take 3)) ∧
    (fl.length < 3 → checkPage s0 = .error .assertion) := by
  refine ⟨fun long => ?_, fun short => ?_⟩
  · match fl, start, long with
    | t :: p1 :: p2 :: rest, start, _ => exact checkPage_ok start
  · unfold checkPage
    rw [takeThree_short start.list start.nodup start.inside short]
    rfl

def threeFree : State := { powerOn smallMachine with
  pages := fun p => ⟨if p < 3 then some (p + 1) else none, 0⟩
  pageFreeList := some 1
  kernPgdir := 5 }

theorem threeFree_checkable : Checkable threeFree [1, 2, 3] where
  list := .cons 1 _ (.cons 2 _ (.cons 3 _ .nil))
  nodup := by decide
  inside := by decide
  unused := by decide
  kern := by decide
  room := by decide
  bare := by decide

theorem check_page_passes_threeFree :
    ∃ s', checkPage threeFree = .ok s' ∧ FreeList s' [3, 2, 1] ∧
      GivenBack threeFree s' [1, 2, 3] :=
  (check_page_passes threeFree_checkable).1 (by decide)

end Whole

end JosPageChecks
