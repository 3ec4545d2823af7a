import Jos.PageChecks

/- The self-check that reads and writes through kern_pgdir once it is installed, while the
   processor keeps every translation it has used. -/
namespace JosInstalledChecks
open JosLayout FrameWords JosMachine JosPmap JosMmu JosBoot JosAccounting JosPageOps JosMapping
open JosTlb JosRemaps JosPageListCheck JosSelfChecks JosPageTrials JosPageChecks IntrusiveList
open CountedLoop

section Access
variable {s0 s s' : State} {t p1 p2 p q : Nat} {fl : List Nat} {r0 r1 r2 : UInt16} {d1 e0 v : Nat}
  {data : Nat → Frame} {perm : Nat} {a b c : Nat}

theorem takePage_tlb {zero : Bool} (run : takePage s zero = .ok (p, s')) : s'.tlb = s.tlb := by
  unfold takePage at run
  obtain ⟨⟨found, s1⟩, alloc, rest⟩ := bind_ok.mp run
  cases found with
  | none => cases rest
  | some pp =>
    cases rest
    exact pageAlloc_tlb alloc

theorem takeThree_tlb (run : takeThree s = .ok (a, b, c, s')) : s'.tlb = s.tlb := by
  unfold takeThree at run
  obtain ⟨⟨_, s1⟩, take1, run⟩ := bind_ok.mp run
  obtain ⟨⟨_, s2⟩, take2, run⟩ := bind_ok.mp run
  obtain ⟨⟨_, s3⟩, take3, run⟩ := bind_ok.mp run
  cases run
  rw [takePage_tlb take3, takePage_tlb take2, takePage_tlb take1]

theorem keepTlb {own : List Nat} {ref : Nat → UInt16} {dir table : Nat → Nat}
    (sight : Sight s0 own t fl ref dir table data s) (tlb : Nat → Option Translation) :
    Sight s0 own t fl ref dir table data { s with tlb := tlb } :=
  ⟨quiet_trans sight.quiet rfl, sight.list, sight.nodup, sight.plain, sight.links, sight.refs,
    sight.dir, sight.table, sight.data⟩

def mappedBy (t p : Nat) : Translation := ⟨tableEntry t, mapEntry p PTE_W⟩

/-- The processor has nothing for PGSIZE, or what is mapped there. -/
def Fresh (t p : Nat) (s : State) : Prop :=
  s.tlb (pgnum PGSIZE) = none ∨ s.tlb (pgnum PGSIZE) = some (mappedBy t p)

variable (cast : Cast s0 t p1 p2)
include cast

theorem walk_second (sight : At s0 t p1 p2 fl r0 r1 r2 (tableEntry t) d1
    (leaves e0 (mapEntry p PTE_W)) data s) (mine : p ∈ [t, p1, p2]) :
    walk s s.kernPgdir PGSIZE = some (mappedBy t p) := by
  have there := there_second cast d1 (show pdx PGSIZE = 0 by decide)
  obtain ⟨dir, _⟩ := sight.dirPage cast.stage there
  have leaf : entryPage (s.entry t (ptx PGSIZE)) = some p := by
    rw [sight.table, leaves_second]
    exact entryPage_mapEntry (cast.room_of mine) (by decide)
  rw [walk_entryPage dir leaf, sight.table, leaves_second, sight.kernPgdir, sight.dir]
  exact congrArg some (congrArg (fun d => Translation.mk d _) slots_first)

theorem translation_second (installed : s.cr3 = s.kernPgdir) (fresh : Fresh t p s)
    (sight : At s0 t p1 p2 fl r0 r1 r2 (tableEntry t) d1 (leaves e0 (mapEntry p PTE_W)) data s)
    (mine : p ∈ [t, p1, p2]) :
    ∃ s', translation s PGSIZE = .ok (mappedBy t p, s') ∧
      s' = { s with tlb := s'.tlb } ∧ Fresh t p s' := by
  unfold translation
  rcases fresh with nothing | held
  · have walked : walk s s.cr3 PGSIZE = some (mappedBy t p) := by
      rw [installed]
      exact walk_second cast sight mine
    rw [nothing, walked]
    exact ⟨_, rfl, rfl, Or.inr (Function.update_self (pgnum PGSIZE) (some (mappedBy t p)) s.tlb)⟩
  · rw [held]
    exact ⟨s, rfl, rfl, Or.inr held⟩

omit cast in
theorem page_mappedBy (room : p < 1048576) : Translation.page (mappedBy t p) = p :=
  ppn_mapEntry room (by decide)

theorem loadWord_second (installed : s.cr3 = s.kernPgdir) (fresh : Fresh t p s)
    (sight : At s0 t p1 p2 fl r0 r1 r2 (tableEntry t) d1 (leaves e0 (mapEntry p PTE_W)) data s)
    (mine : p ∈ [t, p1, p2]) (kern : p ≠ s0.kernPgdir) (other : p ≠ t)
    (held : word (data p) 0 = v) :
    ∃ s', assertWord s PGSIZE v = .ok s' ∧ s' = { s with tlb := s'.tlb } ∧ Fresh t p s' := by
  obtain ⟨s1, found, only, fresh1⟩ := translation_second cast installed fresh sight mine
  have stored : s1.entry p (pgoff PGSIZE / 4) = v := by
    rw [only]
    change word (s.mem p) 0 = v
    rw [sight.data p kern other]
    exact held
  refine ⟨s1, ?_, only, fresh1⟩
  unfold assertWord loadWord
  rw [found, ok_bind]
  dsimp only
  rw [ok_bind, page_mappedBy (cast.room_of mine)]
  exact assert_bind stored _

theorem storeWord_second (installed : s.cr3 = s.kernPgdir) (fresh : Fresh t p s)
    (sight : At s0 t p1 p2 fl r0 r1 r2 (tableEntry t) d1 (leaves e0 (mapEntry p PTE_W)) data s)
    (mine : p ∈ [t, p1, p2]) (v : Nat) :
    ∃ s1 : State, storeWord s PGSIZE v = .ok (s1.setEntry p 0 v) ∧ s1 = { s with tlb := s1.tlb } := by
  obtain ⟨s1, found, only, _⟩ := translation_second cast installed fresh sight mine
  have writable : Translation.writable (mappedBy t p) := by
    refine ⟨tableEntry_writable t, ?_⟩
    unfold Writable mappedBy
    rw [ne_eq, mapEntry_flag p (by decide) (by decide)]
    decide
  refine ⟨s1, ?_, only⟩
  unfold storeWord
  rw [found, ok_bind]
  dsimp only
  rw [if_pos writable, page_mappedBy (cast.room_of mine)]
  rfl

end Access

section Installed
variable {s0 s s' : State} {t p1 p2 p : Nat} {rest fl : List Nat} {data : Nat → Frame}

theorem fillOther_ok {r0 r1 r2 : UInt16} {d0 d1 : Nat} {table : Nat → Nat} (cast : Cast s0 t p1 p2)
    (sight : At s0 t p1 p2 fl r0 r1 r2 d0 d1 table data s) (mine : p ∈ [t, p1, p2]) (other : p ≠ t)
    (c : UInt8) :
    fillPage s p c = .ok (s.setFrame p fun _ => c) ∧
      At s0 t p1 p2 fl r0 r1 r2 d0 d1 table (Function.update data p fun _ => c)
        (s.setFrame p fun _ => c) := by
  refine ⟨?_, sight.setFrame (fun same => cast.kern (same ▸ mine)) other _⟩
  unfold fillPage
  rw [page2kva_ok (sight.inside cast.stage mine)]
  rfl

def filled (s0 : State) (p1 p2 : Nat) : Nat → Frame :=
  Function.update (Function.update s0.mem p1 fun _ => 1) p2 fun _ => 2

theorem first_mapping (cast : Cast s0 t p1 p2)
    (sight : At s0 t p1 p2 (t :: fl) 0 0 0 0 0 (s0.entry t) (filled s0 p1 p2) s)
    (installed : s0.cr3 = s0.kernPgdir) (flushed : s.tlb (pgnum PGSIZE) = none) :
    ∃ s1 s2, pageInsert s s.kernPgdir p1 PGSIZE PTE_W = .ok (0, s1) ∧
      assertRef s1 p1 1 = .ok () ∧ assertWord s1 PGSIZE 0x01010101 = .ok s2 ∧
      At s0 t p1 p2 fl 1 1 0 (tableEntry t) 0 (leaves 0 (mapEntry p1 PTE_W)) (filled s0 p1 p2) s2 := by
  have mine1 : p1 ∈ [t, p1, p2] := by simp
  have bare : entryPage (slots (s0.entry s0.kernPgdir) 0 0 (pdx PGSIZE)) = none := by
    rw [show pdx PGSIZE = 0 by decide, slots_first]
    exact entryPage_zero
  obtain ⟨s1, insert, w1⟩ := sight.insert_hangs cast.stage bare mine1 cast.first
    (show PTE_W < 4096 by decide)
  have v1 : At s0 t p1 p2 fl 1 1 0 (tableEntry t) 0 (leaves 0 (mapEntry p1 PTE_W))
      (filled s0 p1 p2) s1 := by
    refine w1.congr ?_ ?_ ?_ rfl
    · rw [cast.counts_t, cast.counts_p1, cast.set_t, cast.set_p1]
      rfl
    · rw [show pdx PGSIZE = 0 by decide, tableEntry_or t (by decide)]
      exact slots_set_first
    · rw [leaves_none]
      exact slots_set_second
  have fresh : Fresh t p1 s1 := by
    left
    rcases (pageInsert_tlb insert).2 with gone | same
    · exact gone
    · rw [same.1]
      exact flushed
  have cr3 : s1.cr3 = s1.kernPgdir := by
    rw [v1.quiet]
    exact installed
  have ones : word (filled s0 p1 p2 p1) 0 = 0x01010101 := by
    unfold filled
    rw [Function.update_of_ne (Ne.symm cast.apart), Function.update_self]
    rfl
  obtain ⟨s2, load, only, _⟩ := loadWord_second cast cr3 fresh v1 mine1
    (fun same => cast.kern (same ▸ mine1)) cast.first ones
  refine ⟨s1, s2, insert, v1.hasRef cast.counts_p1, load, ?_⟩
  rw [only]
  exact keepTlb v1 s2.tlb

theorem second_mapping (cast : Cast s0 t p1 p2) (busy1 : p1 ∉ fl) (busy2 : p2 ∉ fl)
    (sight : At s0 t p1 p2 fl 1 1 0 (tableEntry t) 0 (leaves 0 (mapEntry p1 PTE_W))
      (filled s0 p1 p2) s) (installed : s0.cr3 = s0.kernPgdir) :
    ∃ s1 s2 s3 s4 data, pageInsert s s.kernPgdir p2 PGSIZE PTE_W = .ok (0, s1) ∧
      assertWord s1 PGSIZE 0x02020202 = .ok s2 ∧ assertRef s2 p2 1 = .ok () ∧
      assertRef s2 p1 0 = .ok () ∧ storeWord s2 PGSIZE 0x03030303 = .ok s3 ∧
      page2kva s3 p2 = .ok p2 ∧ s3.entry p2 0 = 0x03030303 ∧
      pageRemove s3 s3.kernPgdir PGSIZE = .ok s4 ∧ (∀ p, p ∉ [t, p1, p2] → data p = s0.mem p) ∧
      At s0 t p1 p2 (p2 :: p1 :: fl) 1 0 0 (tableEntry t) 0 (leaves 0 0) data s4 := by
  have mine1 : p1 ∈ [t, p1, p2] := by simp
  have mine2 : p2 ∈ [t, p1, p2] := by simp
  have kern2 : p2 ≠ s0.kernPgdir := fun same => cast.kern (same ▸ mine2)
  have there := there_second cast 0 (show pdx PGSIZE = 0 by decide)
  have leaf1 : entryPage (mapEntry p1 PTE_W) = some p1 :=
    entryPage_mapEntry (cast.room_of mine1) (by decide)
  have leaf2 : entryPage (mapEntry p2 PTE_W) = some p2 :=
    entryPage_mapEntry (cast.room_of mine2) (by decide)
  obtain ⟨s1, insert, w1⟩ := insert_second cast sight leaf1 mine2 mine1 busy1
    (show PTE_W < 4096 by decide) (by decide)
  have v1 : At s0 t p1 p2 (p1 :: fl) 1 0 1 (tableEntry t) 0 (leaves 0 (mapEntry p2 PTE_W))
      (filled s0 p1 p2) s1 := by
    rw [Cast.counts_p2, Cast.set_p2, cast.counts_p1, cast.set_p1, released, cast.counts_p1,
      if_pos (by decide)] at w1
    exact w1
  -- what the processor held for p1 is gone
  have fresh : Fresh t p2 s1 := by
    left
    rcases (pageInsert_tlb insert).2 with gone | same
    · exact gone
    · rw [walk_second cast sight mine1] at same
      cases same.2
  have cr3 : s1.cr3 = s1.kernPgdir := by
    rw [v1.quiet]
    exact installed
  have twos : word (filled s0 p1 p2 p2) 0 = 0x02020202 := by
    unfold filled
    rw [Function.update_self]
    rfl
  obtain ⟨s2, load, only2, fresh2⟩ := loadWord_second cast cr3 fresh v1 mine2 kern2 cast.second twos
  have v2 : At s0 t p1 p2 (p1 :: fl) 1 0 1 (tableEntry t) 0 (leaves 0 (mapEntry p2 PTE_W))
      (filled s0 p1 p2) s2 := by
    rw [only2]
    exact keepTlb v1 s2.tlb
  have cr3' : s2.cr3 = s2.kernPgdir := by
    rw [v2.quiet]
    exact installed
  obtain ⟨a, store, only3⟩ := storeWord_second cast cr3' fresh2 v2 mine2 0x03030303
  have va : At s0 t p1 p2 (p1 :: fl) 1 0 1 (tableEntry t) 0 (leaves 0 (mapEntry p2 PTE_W))
      (filled s0 p1 p2) a := by
    rw [only3]
    exact keepTlb v2 a.tlb
  have v3 := va.setFrame kern2 cast.second (setWord (a.mem p2) 0 0x03030303)
  have second : entryPage (leaves 0 (mapEntry p2 PTE_W) (ptx PGSIZE)) = some p2 := by
    rw [leaves_second]
    exact leaf2
  obtain ⟨s4, remove, w4⟩ := v3.remove cast.stage there second mine2 (by
    simp only [List.mem_cons, not_or]
    exact ⟨cast.apart, busy2⟩)
  refine ⟨s1, s2, a.setEntry p2 0 0x03030303, s4,
    Function.update (filled s0 p1 p2) p2 (setWord (a.mem p2) 0 0x03030303), insert, load,
    v2.hasRef Cast.counts_p2, v2.hasRef cast.counts_p1, store, page2kva_ok (v3.inside cast.stage mine2),
    State.entry_setEntry_same _ _ _ _ (by decide), remove, ?_, ?_⟩
  · intro p away
    have other1 : p ≠ p1 := fun same => away (same ▸ mine1)
    have other2 : p ≠ p2 := fun same => away (same ▸ mine2)
    unfold filled
    rw [Function.update_of_ne other2, Function.update_of_ne other2, Function.update_of_ne other1]
  · rw [Cast.counts_p2, Cast.set_p2, released, Cast.counts_p2, if_pos (by decide)] at w4
    exact w4.congr rfl rfl slots_set_second rfl

theorem checkPageInstalledPgdir_ok (start : Checkable s0 (t :: p1 :: p2 :: rest))
    (installed : s0.cr3 = s0.kernPgdir) (flushed : s0.tlb (pgnum PGSIZE) = none) :
    ∃ s', checkPageInstalledPgdir s0 = .ok s' ∧ FreeList s' (t :: p2 :: p1 :: rest) ∧
      GivenBack s0 s' [t, p1, p2] := by
  have cast := start.cast
  obtain ⟨_, others⟩ := start.others
  have mine1 : p1 ∈ [t, p1, p2] := by simp
  have mine2 : p2 ∈ [t, p1, p2] := by simp
  -- p1 is full of ones and p2 of twos
  obtain ⟨s1, take, v1⟩ := takeThree_ok cast start.sight fun _ mine => mine
  have lent := v1.free List.mem_cons_self (others t List.mem_cons_self)
  obtain ⟨fill1, v2⟩ := fillOther_ok cast lent mine1 cast.first 1
  obtain ⟨fill2, v3⟩ := fillOther_ok cast v2 mine2 cast.second 2
  have tlb3 : (((pageFree s1 t).setFrame p1 fun _ => 1).setFrame p2 fun _ => 2).tlb
      (pgnum PGSIZE) = none := by
    change s1.tlb (pgnum PGSIZE) = none
    rw [takeThree_tlb take]
    exact flushed
  obtain ⟨s4, s5, insert1, ref1, load1, v5⟩ := first_mapping cast v3 installed tlb3
  obtain ⟨s6, s7, s8, s9, data, insert2, load2, ref2, ref3, store, kva, stored, remove, same, v9⟩ :=
    second_mapping cast (others p1 mine1) (others p2 mine2) v5 installed
  have dir : s9.entry s9.kernPgdir 0 = tableEntry t := by
    rw [v9.kernPgdir, v9.dir, slots_first]
  have address : pteAddr (s9.entry s9.kernPgdir 0) = page2pa t := by
    rw [dir, pteAddr_eq, tableEntry_eq, ppn_mapEntry (cast.room_of List.mem_cons_self) (by decide)]
  have counted : assertRef (s9.setEntry s9.kernPgdir 0 0) t 1 = .ok () := v9.hasRef cast.counts_t
  have back : At s0 t p1 p2 (p2 :: p1 :: rest) 0 0 0 0 0 (leaves 0 0) data (takeBack s9 t 0) :=
    (takeBack_ok cast v9).congr cast.set_t slots_set_first rfl rfl
  have freed := back.free List.mem_cons_self (by
    simp only [List.mem_cons, not_or]
    exact ⟨Ne.symm cast.second, Ne.symm cast.first, others t List.mem_cons_self⟩)
  refine ⟨_, ?_, freed.list, givenBack_of start freed ?_ same⟩
  · unfold checkPageInstalledPgdir
    rw [take, ok_bind]
    dsimp only
    rw [fill1, ok_bind, fill2, ok_bind, insert1, ok_bind]
    dsimp only
    rw [ref1, ok_bind, load1, ok_bind, insert2, ok_bind]
    dsimp only
    rw [load2, ok_bind, ref2, ok_bind, ref3, ok_bind, store, ok_bind, kva, ok_bind,
      assert_bind stored, remove, ok_bind, v9.hasRef Cast.counts_p2, ok_bind, assert_bind address,
      counted, ok_bind]
  · have swap : [t, p1, p2].Perm [t, p2, p1] := .cons t (.swap p2 p1 [])
    exact swap.append_right rest

/-- check_page_installed_pgdir passes where kern_pgdir is loaded, the TLB holds nothing of its page
    and three pages are free. -/
theorem check_page_installed_pgdir_passes {fl : List Nat} (start : Checkable s0 fl)
    (installed : s0.cr3 = s0.kernPgdir) (flushed : s0.tlb (pgnum PGSIZE) = none) :
    (3 ≤ fl.length → ∃ s', checkPageInstalledPgdir s0 = .ok s' ∧
      FreeList s' (fl.take 1 ++ ((fl.take 3).drop 1).reverse ++ fl.drop 3) ∧
      GivenBack s0 s' (fl.take 3)) ∧
    (fl.length < 3 → checkPageInstalledPgdir s0 = .error .assertion) := by
  refine ⟨fun long => ?_, fun short => ?_⟩
  · match fl, start, long with
    | t :: p1 :: p2 :: rest, start, _ => exact checkPageInstalledPgdir_ok start installed flushed
  · unfold checkPageInstalledPgdir
    rw [takeThree_short start.list start.nodup start.inside short]
    rfl

theorem check_page_installed_pgdir_passes_threeFree :
    ∃ s', checkPageInstalledPgdir (lcr3 threeFree threeFree.kernPgdir) = .ok s' ∧
      FreeList s' [1, 3, 2] ∧ GivenBack (lcr3 threeFree threeFree.kernPgdir) s' [1, 2, 3] := by
  have start : Checkable (lcr3 threeFree threeFree.kernPgdir) [1, 2, 3] :=
    { threeFree_checkable with }
  exact (check_page_installed_pgdir_passes start rfl rfl).1 (by decide)

end Installed

end JosInstalledChecks
