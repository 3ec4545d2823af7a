import Jos.PageListCheck
import Jos.BootPages
import Mathlib.Order.Interval.Finset.Nat

/- check_page_free_list on the lists mem_init gives it: its loops end, and the assertion about the
   two counts is the only one that can fail. page_init leaves a list that falls. -/
namespace JosFreeListChecks
open JosLayout FrameWords JosMachine JosPmap JosBoot JosAccounting JosBootPages JosPageListCheck
open IntrusiveList CountedLoop WhileLoop

section Loops
variable {s t : State} {fl : List Nat} {fuel lim pp : Nat} {head : Option Nat}

def lowMemory (pp : Nat) : Bool := decide (page2pa pp < EXTPHYSMEM)

/-- Where boot_alloc has stopped: page-aligned, and above the kernel. -/
structure Marked (s : State) : Prop where
  aligned : s.nextfree % PGSIZE = 0
  high : KERNBASE + EXTPHYSMEM < s.nextfree
  word : s.nextfree < WORD

theorem marked_pages (marked : Marked s) :
    s.nextfree = kernelPages s.nextfree * PGSIZE + KERNBASE ∧
      EXTPHYSMEM / PGSIZE < kernelPages s.nextfree := by
  obtain ⟨aligned, high, word⟩ := marked
  unfold kernelPages
  simp only [KERNBASE, EXTPHYSMEM, PGSIZE, WORD] at *
  omega

theorem sane_ok (marked : Marked s) (managed : Managed s pp) : sane s s.nextfree pp = .ok true := by
  obtain ⟨inside, free⟩ := managed
  obtain ⟨mark, above⟩ := marked_pages marked
  unfold bootPage at free
  simp only [not_or, not_and, Nat.not_lt] at free
  obtain ⟨zero, hole, extended⟩ := free
  have apart : page2pa pp ≠ 0 ∧ page2pa pp ≠ IOPHYSMEM ∧ page2pa pp ≠ EXTPHYSMEM - PGSIZE ∧
      page2pa pp ≠ EXTPHYSMEM := by
    simp only [page2pa, IOPHYSMEM, EXTPHYSMEM, PGSIZE] at *
    omega
  unfold sane
  rw [if_pos ⟨inside, apart⟩]
  split
  · rfl
  · rename_i high
    rw [page2kva_ok inside, orPanic_value, ok_bind]
    have beyond : pp * PGSIZE + KERNBASE ≥ s.nextfree := by
      simp only [page2pa, EXTPHYSMEM, PGSIZE] at *
      omega
    rw [decide_eq_true beyond]

theorem inspect_loop (marked : Marked s) (base ext : Nat)
    (list : Chain (fun p => (s.pages p).ppLink) head fl) (managed : ∀ p ∈ fl, Managed s p)
    (enough : fl.length < fuel) :
    loop (inspectRound s s.nextfree) fuel (head, base, ext) =
      .ok (some (none, base + fl.countP lowMemory, ext + fl.countP fun p => !lowMemory p)) := by
  induction fl generalizing fuel head base ext with
  | nil =>
    obtain ⟨fuel, rfl⟩ := Nat.exists_eq_succ_of_ne_zero (Nat.ne_of_gt enough)
    rw [chain_nil_head list]
    exact loop_done rfl
  | cons p rest ih =>
    obtain ⟨fuel, rfl⟩ := Nat.exists_eq_succ_of_ne_zero (Nat.ne_of_gt (Nat.zero_lt_of_lt enough))
    obtain ⟨rfl, tail⟩ := chain_cons_head list
    have managed' : ∀ q ∈ rest, Managed s q := fun q listed => managed q (List.mem_cons_of_mem p listed)
    have enough' : rest.length < fuel := Nat.lt_of_succ_lt_succ enough
    have fine := sane_ok marked (managed p List.mem_cons_self)
    by_cases low : page2pa p < EXTPHYSMEM
    · have flag : lowMemory p = true := decide_eq_true low
      have step : inspectRound s s.nextfree (some p, base, ext) =
          .ok (some ((s.pages p).ppLink, base + 1, ext)) := by
        unfold inspectRound
        dsimp only
        rw [fine, ok_bind, if_pos rfl, if_pos low]
      rw [loop_next step, ih _ _ tail managed' enough', List.countP_cons_of_pos flag,
        List.countP_cons_of_neg (by simp [flag]), Nat.add_right_comm, Nat.add_assoc]
    · have flag : lowMemory p = false := decide_eq_false low
      have step : inspectRound s s.nextfree (some p, base, ext) =
          .ok (some ((s.pages p).ppLink, base, ext + 1)) := by
        unfold inspectRound
        dsimp only
        rw [fine, ok_bind, if_pos rfl, if_neg low]
      rw [loop_next step, ih _ _ tail managed' enough', List.countP_cons_of_neg (by simp [flag]),
        List.countP_cons_of_pos (by simp [flag]), Nat.add_right_comm, Nat.add_assoc]

theorem scribbleBelow_total (lim : Nat) (inside : pp < t.npages) : ∃ t', scribbleBelow lim t pp = .ok t' ∧
    t'.pages = t.pages ∧ t'.npages = t.npages := by
  unfold scribbleBelow
  split
  · rw [page2kva_ok inside, orPanic_value, ok_bind]
    exact ⟨_, rfl, rfl, rfl⟩
  · exact ⟨t, rfl, rfl, rfl⟩

theorem scribble_loop (lim : Nat) (list : Chain (fun p => (t.pages p).ppLink) head fl)
    (inside : ∀ p ∈ fl, p < t.npages) (enough : fl.length < fuel) :
    ∃ t', loop (scribbleRound lim) fuel (head, t) = .ok (some (none, t')) := by
  induction fl generalizing fuel head t with
  | nil =>
    obtain ⟨fuel, rfl⟩ := Nat.exists_eq_succ_of_ne_zero (Nat.ne_of_gt enough)
    rw [chain_nil_head list]
    exact ⟨t, loop_done rfl⟩
  | cons p rest ih =>
    obtain ⟨fuel, rfl⟩ := Nat.exists_eq_succ_of_ne_zero (Nat.ne_of_gt (Nat.zero_lt_of_lt enough))
    obtain ⟨rfl, tail⟩ := chain_cons_head list
    obtain ⟨t1, wrote, pages, npages⟩ := scribbleBelow_total lim (inside p List.mem_cons_self)
    have step : scribbleRound lim (some p, t) = .ok (some ((t1.pages p).ppLink, t1)) := by
      unfold scribbleRound
      dsimp only
      rw [wrote]
      rfl
    have tail1 : Chain (fun q => (t1.pages q).ppLink) (t1.pages p).ppLink rest := by
      rw [pages]
      exact tail
    have inside1 : ∀ q ∈ rest, q < t1.npages := by
      intro q listed
      rw [npages]
      exact inside q (List.mem_cons_of_mem p listed)
    rw [loop_next step]
    exact ih tail1 inside1 (Nat.lt_of_succ_lt_succ enough)

/-- check_page_free_list returns or fails its last assertion, as the list has pages on both sides of
    1MB or not. -/
theorem checkPageFreeList_outcome (marked : Marked s) (list : FreeList s fl) (once : fl.Nodup)
    (managed : ∀ p ∈ fl, Managed s p) (some_page : fl ≠ []) (enough : fl.length < fuel)
    (pp12 : Bool → Option Nat) (onlyLowMemory : Bool) :
    ∃ s', checkPageFreeList fuel pp12 s onlyLowMemory =
      if (∃ p ∈ fl, page2pa p < EXTPHYSMEM) ∧ (∃ p ∈ fl, ¬ page2pa p < EXTPHYSMEM) then .ok s'
      else .error (.panic .assertion) := by
  have relinked : ∃ s1 fl1, (if onlyLowMemory then lowFirst fuel pp12 s else some s) = some s1 ∧
      FreeList s1 fl1 ∧ fl.Perm fl1 ∧
      s1 = { s with pages := s1.pages, pageFreeList := s1.pageFreeList } := by
    cases onlyLowMemory with
    | true =>
      obtain ⟨s1, run, list1, _, _, quiet⟩ := lowFirst_spec pp12 list once enough
      exact ⟨s1, _, run, list1, lowPagesFirst_perm fl, quiet⟩
    | false => exact ⟨s, fl, rfl, list, List.Perm.refl fl, rfl⟩
  obtain ⟨s1, fl1, linked, list1, perm, quiet1⟩ := relinked
  have inside1 : ∀ p ∈ fl1, p < s1.npages := by
    intro p listed
    rw [quiet1]
    exact (managed p (perm.mem_iff.mpr listed)).1
  have enough1 : fl1.length < fuel := perm.length_eq ▸ enough
  obtain ⟨s2, wrote⟩ := scribble_loop (if onlyLowMemory then 1 else NPDENTRIES) list1 inside1
    enough1
  have quiet2 := (scribbled list1 wrote).1
  have kept : s2.nextfree = s.nextfree ∧ s2.npages = s.npages := by
    rw [quiet2, quiet1]
    exact ⟨rfl, rfl⟩
  have marked2 : Marked s2 := by
    refine ⟨?_, ?_, ?_⟩
    all_goals rw [kept.1]
    · exact marked.aligned
    · exact marked.high
    · exact marked.word
  have managed2 : ∀ p ∈ fl1, Managed s2 p := by
    intro p listed
    unfold Managed
    rw [kept.1, kept.2]
    exact managed p (perm.mem_iff.mpr listed)
  have list2 : Chain (fun p => (s2.pages p).ppLink) s2.pageFreeList fl1 := by
    rw [quiet2]
    exact list1
  have started : s2.nextfree ≠ 0 := Nat.ne_of_gt (Nat.zero_lt_of_lt marked2.high)
  have inspected := inspect_loop marked2 0 0 list2 managed2 enough1
  have first := JosBootPages.bootAlloc_zero started
  have counted : (0 + fl1.countP lowMemory > 0 ∧ (0 + fl1.countP fun p => !lowMemory p) > 0) ↔
      (∃ p ∈ fl, page2pa p < EXTPHYSMEM) ∧ ∃ p ∈ fl, ¬ page2pa p < EXTPHYSMEM := by
    rw [← perm.countP_eq, ← perm.countP_eq, Nat.zero_add, Nat.zero_add, gt_iff_lt, gt_iff_lt,
      List.countP_pos_iff, List.countP_pos_iff]
    simp [lowMemory]
  have head : s.pageFreeList ≠ none := by
    intro empty
    unfold FreeList at list
    rw [empty] at list
    exact some_page (chain_none.mp list)
  refine ⟨s2, ?_⟩
  unfold checkPageFreeList
  dsimp only
  rw [if_neg head, linked, orUnfinished_some, ok_bind, wrote, ok_bind, orUnfinished_some, ok_bind]
  dsimp only
  rw [first, orPanic_value, ok_bind]
  dsimp only
  rw [inspected, ok_bind, orUnfinished_some, ok_bind]
  exact if_congr counted rfl rfl

theorem scribble_spares {lim : Nat} {p : Option Nat}
    (run : loop (scribbleRound lim) fuel (head, t) = .ok (some (p, s))) {q : Nat}
    (above : ¬ pdx (page2pa q) < lim) : s.mem q = t.mem q := by
  have done := loop_ok (fun (a : Option Nat × State) => a.2.mem q = t.mem q) rfl ?_ run
  · exact done.1
  · rintro ⟨head, a⟩ b before round
    cases head with
    | none => cases round
    | some pp =>
      unfold scribbleRound at round
      obtain ⟨a', wrote, round⟩ := bind_ok.mp round
      cases round
      refine Eq.trans ?_ before
      by_cases same : q = pp
      · subst same
        unfold scribbleBelow at wrote
        rw [if_neg above] at wrote
        cases wrote
        rfl
      · exact (scribbleBelow_ok wrote).2 q same

theorem checkPageFreeList_spares {pp12 : Bool → Option Nat} (list : FreeList s fl) (once : fl.Nodup)
    (enough : fl.length < fuel) (run : checkPageFreeList fuel pp12 s true = .ok t) {q : Nat}
    (above : ¬ pdx (page2pa q) < 1) : t.mem q = s.mem q := by
  obtain ⟨s1, linked, _, _, _, quiet1⟩ := lowFirst_spec pp12 list once enough
  have same : s1.mem = s.mem := by rw [quiet1]
  unfold checkPageFreeList at run
  dsimp only at run
  split at run
  · cases run
  · rw [if_pos rfl, linked, orUnfinished_some, ok_bind] at run
    obtain ⟨scribbles, wrote, run⟩ := bind_ok.mp run
    cases scribbles with
    | none => cases run
    | some end1 =>
      obtain ⟨p, s2⟩ := end1
      obtain ⟨first_free, first, _⟩ := JosPageListCheck.bootAlloc_zero s2
      have spared := scribble_spares wrote above
      rw [orUnfinished_some, ok_bind] at run
      dsimp only at run
      rw [first, orPanic_value, ok_bind] at run
      obtain ⟨inspected, _, run⟩ := bind_ok.mp run
      cases inspected with
      | none => cases run
      | some end2 =>
        rw [orUnfinished_some, ok_bind] at run
        split at run
        · cases run
          rw [← same]
          exact spared
        · cases run

end Loops

section Order
variable {s s0 : State} {fl : List Nat}

theorem pageInit_falls (started : s0.nextfree ≠ 0) (empty : s0.pageFreeList = none)
    (run : pageInit s0 = .ok s) :
    (∃ fl, FreeList s fl ∧ fl.Pairwise (· > ·)) ∧ s.mem = s0.mem := by
  unfold pageInit at run
  have start : ∃ fl, FreeList (markUsed s0 0) fl ∧ fl.Pairwise (· > ·) ∧ ∀ p ∈ fl, p ≤ 0 := by
    refine ⟨[], ?_, List.Pairwise.nil, by simp⟩
    unfold FreeList markUsed
    rw [State.setInfo_pageFreeList, empty]
    exact .nil
  have done := times_keeps (fun k s => (∃ fl, FreeList s fl ∧ fl.Pairwise (· > ·) ∧ ∀ p ∈ fl, p ≤ k) ∧
    s.nextfree ≠ 0 ∧ s.mem = s0.mem) ⟨start, started, rfl⟩ ?_ run
  · obtain ⟨⟨fl, list, falls, _⟩, _, mem⟩ := done
    exact ⟨⟨fl, list, falls⟩, mem⟩
  · intro k a b _ before step
    obtain ⟨⟨fl, list, falls, bound⟩, going, mem⟩ := before
    have fresh : k + 1 ∉ fl := fun listed => absurd (bound _ listed) (by omega)
    rw [pageInitStep_eq going (Nat.succ_ne_zero k)] at step
    cases step
    unfold initOne
    split
    · refine ⟨⟨fl, ?_, falls, fun p listed => Nat.le_succ_of_le (bound p listed)⟩, going, mem⟩
      refine chain_congr list ?_
      intro q listed
      have differ : q ≠ k + 1 := fun same => fresh (same ▸ listed)
      simp [markUsed, differ]
    · refine ⟨⟨(k + 1) :: fl, ?_, ?_, ?_⟩, going, mem⟩
      · refine .cons _ fl ?_
        simp only [markFree, State.setInfo_pages, Function.update_self]
        refine chain_congr list ?_
        intro q listed
        have differ : q ≠ k + 1 := fun same => fresh (same ▸ listed)
        simp [differ]
      · exact List.pairwise_cons.mpr ⟨fun p listed => Nat.lt_succ_of_le (bound p listed), falls⟩
      · intro p listed
        rcases List.mem_cons.mp listed with rfl | old
        · exact Nat.le_refl _
        · exact Nat.le_succ_of_le (bound p old)

/-- In a falling list the large elements come first. -/
theorem drop_reaches (falls : fl.Pairwise (· > ·)) (n k : Nat) :
    (∃ p ∈ fl.drop n, k ≤ p) ↔ n < fl.countP fun p => decide (k ≤ p) := by
  induction fl generalizing n with
  | nil => simp
  | cons p rest ih =>
    obtain ⟨first, falls⟩ := List.pairwise_cons.mp falls
    cases n with
    | zero =>
      rw [List.drop_zero, List.countP_pos_iff]
      simp
    | succ n =>
      rw [List.drop_succ_cons, ih falls]
      by_cases large : k ≤ p
      · rw [List.countP_cons_of_pos (by simpa using large)]
        exact (Nat.succ_lt_succ_iff).symm
      · have small : rest.countP (fun q => decide (k ≤ q)) = 0 := by
          rw [List.countP_eq_zero]
          intro q listed reach
          have below := first q listed
          exact large (Nat.le_trans (of_decide_eq_true reach) (Nat.le_of_lt below))
        rw [List.countP_cons_of_neg (by simpa using large), small]
        omega

theorem countP_range (once : fl.Nodup) {lo hi : Nat} {keep : Nat → Bool}
    (holds : ∀ p, p ∈ fl ∧ keep p = true ↔ lo ≤ p ∧ p < hi) : fl.countP keep = hi - lo := by
  have same : (fl.filter keep).toFinset = Finset.Ico lo hi := by
    ext p
    rw [List.mem_toFinset, List.mem_filter, Finset.mem_Ico]
    exact holds p
  rw [List.countP_eq_length_filter, ← List.toFinset_card_of_nodup (once.filter keep), same,
    Nat.card_Ico]

end Order

end JosFreeListChecks
