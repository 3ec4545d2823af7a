import Jos.Boot
import Jos.TableForest

/- The books of the page allocator. The directories of the environments that are set up are
   ghost state, dirs; hand is the page page_insert has counted and not yet mapped. From these
   and the tables in memory comes who refers to which page; pp_ref and the free list have to
   agree with it. -/
namespace JosAccounting
open JosLayout FrameWords JosMachine JosPmap IntrusiveList Ledger TableForest

abbrev Dirs : Type := Fin NENV → Option Nat

/-- The slots that refer to pages: directories, page tables and mappings of environments below
    UTOP, and page tables of kern_pgdir from UTOP on. -/
abbrev PageSlot : Type := Slot NENV userPdes NPTENTRIES NPDENTRIES

def entryPage (x : Nat) : Option Nat := if Present x then some (ppn x) else none

def forest (dirs : Dirs) (hand : Option Nat) (s : State) :
    Forest NENV userPdes NPTENTRIES NPDENTRIES where
  root := dirs
  entry p i := entryPage (s.entry p i)
  fixed k :=
    if userPdes ≤ k.val ∧ k.val ≠ uvptPde then entryPage (s.entry s.kernPgdir k) else none
  hand := hand

abbrev target (dirs : Dirs) (hand : Option Nat) (s : State) : PageSlot → Option Nat :=
  (forest dirs hand s).target

/-- The pages page_init handed to the allocator. -/
def Managed (s : State) (p : Nat) : Prop := p < s.npages ∧ ¬ bootPage s.nextfree p

structure Accounted (dirs : Dirs) (hand : Option Nat) (s : State) (fl : List Nat) : Prop where
  list : FreeList s fl
  nodup : fl.Nodup
  managed : ∀ p ∈ fl, Managed s p
  unused : ∀ p ∈ fl, (forest dirs hand s).Unused p
  counts : ∀ p, Managed s p → (s.pages p).ppRef = UInt16.ofNat (refs (target dirs hand s) p)
  targets : ∀ x p, target dirs hand s x = some p → Managed s p
  apart : (forest dirs hand s).Apart
  kernEmpty : ∀ d, d < userPdes → entryPage (s.entry s.kernPgdir d) = none
  kernApart : ¬ Managed s s.kernPgdir
  room : s.npages ≤ 1048576

def Bounded (dirs : Dirs) (hand : Option Nat) (s : State) : Prop :=
  ∀ p, refs (target dirs hand s) p < 65536

def Quiet (s s' : State) : Prop :=
  s' = { s with
    mem := s'.mem, pages := s'.pages, pageFreeList := s'.pageFreeList, tlb := s'.tlb }

/-- What the books need to stay: the pages under management, and kern_pgdir below UTOP. -/
structure Steady (s s' : State) : Prop where
  npages : s'.npages = s.npages
  nextfree : s'.nextfree = s.nextfree
  kernPgdir : s'.kernPgdir = s.kernPgdir
  kernLow : ∀ d, d < userPdes →
    entryPage (s'.entry s.kernPgdir d) = entryPage (s.entry s.kernPgdir d)

section Frames
variable {s s' s'' : State}

theorem quiet_refl (s : State) : Quiet s s := rfl

theorem quiet_trans (first : Quiet s s') (second : Quiet s' s'') : Quiet s s'' := by
  unfold Quiet at first second ⊢
  rw [second, first]

theorem Quiet.npages (quiet : Quiet s s') : s'.npages = s.npages := by rw [quiet]
theorem Quiet.nextfree (quiet : Quiet s s') : s'.nextfree = s.nextfree := by rw [quiet]
theorem Quiet.bootstack (quiet : Quiet s s') : s'.bootstack = s.bootstack := by rw [quiet]
theorem Quiet.kernPgdir (quiet : Quiet s s') : s'.kernPgdir = s.kernPgdir := by rw [quiet]
theorem Quiet.pagesKva (quiet : Quiet s s') : s'.pagesKva = s.pagesKva := by rw [quiet]
theorem Quiet.envsKva (quiet : Quiet s s') : s'.envsKva = s.envsKva := by rw [quiet]
theorem Quiet.envs (quiet : Quiet s s') : s'.envs = s.envs := by rw [quiet]
theorem Quiet.envFreeList (quiet : Quiet s s') : s'.envFreeList = s.envFreeList := by rw [quiet]
theorem Quiet.curenv (quiet : Quiet s s') : s'.curenv = s.curenv := by rw [quiet]
theorem Quiet.cr3 (quiet : Quiet s s') : s'.cr3 = s.cr3 := by rw [quiet]

theorem managed_steady (steady : Steady s s') (p : Nat) : Managed s' p ↔ Managed s p := by
  unfold Managed
  rw [steady.npages, steady.nextfree]

end Frames

section Counts

theorem count_up (n : Nat) : UInt16.ofNat (n + 1) = UInt16.ofNat n + 1 := UInt16.ofNat_add n 1

theorem count_down (n : Nat) : UInt16.ofNat (n + 1) - 1 = UInt16.ofNat n := by
  rw [count_up]
  exact UInt16.add_sub_cancel _ _

theorem count_zero {n : Nat} (small : n < 65536) : UInt16.ofNat n = 0 ↔ n = 0 := by
  constructor
  · intro zero
    have value := congrArg UInt16.toNat zero
    simp only [UInt16.toNat_ofNat', UInt16.toNat_zero] at value
    omega
  · rintro rfl
    rfl

end Counts

section Books
variable {dirs dirs' : Dirs} {hand hand' : Option Nat} {s s' : State} {fl : List Nat}
  {x : PageSlot} {p : Nat}

theorem busy_of_target (acc : Accounted dirs hand s fl) (held : target dirs hand s x = some p) :
    p ∉ fl := fun listed => acc.unused p listed x held

theorem free_refs (acc : Accounted dirs hand s fl) (listed : p ∈ fl) :
    refs (target dirs hand s) p = 0 := refs_zero.mpr (acc.unused p listed)

theorem book_sound (acc : Accounted dirs hand s fl) : Sound (⟨fl, target dirs hand s⟩ : Book PageSlot Nat) :=
  ⟨acc.nodup, acc.unused⟩

theorem steady_parts (acc : Accounted dirs hand s fl) (steady : Steady s s') :
    (∀ d, d < userPdes → entryPage (s'.entry s'.kernPgdir d) = none) ∧
      ¬ Managed s' s'.kernPgdir ∧ s'.npages ≤ 1048576 := by
  refine ⟨?_, ?_, ?_⟩
  · intro d low
    rw [steady.kernPgdir, steady.kernLow d low]
    exact acc.kernEmpty d low
  · rw [managed_steady steady, steady.kernPgdir]
    exact acc.kernApart
  · rw [steady.npages]
    exact acc.room

theorem Accounted.keep (acc : Accounted dirs hand s fl) (steady : Steady s s')
    (same : target dirs' hand' s' = target dirs hand s) (pages : s'.pages = s.pages)
    (list : s'.pageFreeList = s.pageFreeList) : Accounted dirs' hand' s' fl := by
  obtain ⟨empty, kern, room⟩ := steady_parts acc steady
  refine ⟨?_, acc.nodup, ?_, ?_, ?_, ?_, ?_, empty, kern, room⟩
  · unfold FreeList
    rw [pages, list]
    exact acc.list
  · intro q listed
    exact (managed_steady steady q).mpr (acc.managed q listed)
  · intro q listed y
    change target dirs' hand' s' y ≠ some q
    rw [same]
    exact acc.unused q listed y
  · intro q managed
    rw [pages, same]
    exact acc.counts q ((managed_steady steady q).mp managed)
  · intro y q held
    rw [same] at held
    exact (managed_steady steady q).mpr (acc.targets y q held)
  · intro y z q sy sz hy hz
    change target dirs' hand' s' y = some q at hy
    change target dirs' hand' s' z = some q at hz
    rw [same] at hy hz
    exact acc.apart y z q sy sz hy hz

theorem Accounted.link (acc : Accounted dirs hand s fl) (steady : Steady s s')
    (empty : target dirs hand s x = none) (managed : Managed s p) (busy : p ∉ fl)
    (fresh : x.Structural → (forest dirs hand s).Unused p)
    (moved : target dirs' hand' s' = Function.update (target dirs hand s) x (some p))
    (pages : s'.pages = (s.setRef p ((s.pages p).ppRef + 1)).pages)
    (list : s'.pageFreeList = s.pageFreeList) : Accounted dirs' hand' s' fl := by
  obtain ⟨low, kern, room⟩ := steady_parts acc steady
  refine ⟨?_, acc.nodup, ?_, ?_, ?_, ?_, ?_, low, kern, room⟩
  · unfold FreeList
    rw [list]
    refine chain_congr acc.list ?_
    intro q listed
    have differ : q ≠ p := fun same => busy (same ▸ listed)
    simp [pages, State.setRef, differ]
  · intro q listed
    exact (managed_steady steady q).mpr (acc.managed q listed)
  · intro q listed y
    change target dirs' hand' s' y ≠ some q
    rw [moved]
    by_cases here : y = x
    · subst here
      rw [Function.update_self]
      intro same
      cases same
      exact busy listed
    · rw [Function.update_of_ne here]
      exact acc.unused q listed y
  · intro q managed_q
    have before := acc.counts q ((managed_steady steady q).mp managed_q)
    rw [moved, refs_point empty]
    by_cases same : p = q
    · subst same
      rw [if_pos rfl, count_up, ← before, pages]
      simp [State.setRef]
    · rw [if_neg same, Nat.add_zero, ← before, pages]
      simp [State.setRef, Ne.symm same]
  · intro y q held
    rw [moved] at held
    by_cases here : y = x
    · subst here
      rw [Function.update_self] at held
      cases held
      exact (managed_steady steady p).mpr managed
    · rw [Function.update_of_ne here] at held
      exact (managed_steady steady q).mpr (acc.targets y q held)
  · refine Forest.apart_update acc.apart moved ?_
    intro structural t same
    cases same
    exact fresh structural

theorem pageDecref_links (s : State) (p q : Nat) (differ : q ≠ p) :
    (pageDecref s p).pages q = s.pages q := by
  unfold pageDecref pageFree
  dsimp only
  split <;> simp [State.setRef, differ]

theorem pageDecref_ref (s : State) (p : Nat) :
    ((pageDecref s p).pages p).ppRef = (s.pages p).ppRef - 1 := by
  unfold pageDecref pageFree
  dsimp only
  split <;> simp [State.setRef]

theorem pageDecref_last {s : State} {p : Nat} (last : (s.pages p).ppRef - 1 = 0) :
    pageDecref s p = pageFree (s.setRef p ((s.pages p).ppRef - 1)) p := by
  have zero : ((s.setRef p ((s.pages p).ppRef - 1)).pages p).ppRef = 0 := by
    simpa [State.setRef] using last
  exact if_pos zero

theorem pageDecref_more {s : State} {p : Nat} (more : (s.pages p).ppRef - 1 ≠ 0) :
    pageDecref s p = s.setRef p ((s.pages p).ppRef - 1) := by
  have nonzero : ((s.setRef p ((s.pages p).ppRef - 1)).pages p).ppRef ≠ 0 := by
    simpa [State.setRef] using more
  exact if_neg nonzero

theorem pageDecref_setEntry (s : State) (q i v p : Nat) :
    pageDecref (s.setEntry q i v) p = (pageDecref s p).setEntry q i v := by
  by_cases last : (s.pages p).ppRef - 1 = 0
  · have last' : ((s.setEntry q i v).pages p).ppRef - 1 = 0 := last
    rw [pageDecref_last last, pageDecref_last last']
    rfl
  · have more : ((s.setEntry q i v).pages p).ppRef - 1 ≠ 0 := last
    rw [pageDecref_more last, pageDecref_more more]
    rfl

theorem pageDecref_setEnv (s : State) (e p : Nat) (v : Env) :
    pageDecref (s.setEnv e v) p = (pageDecref s p).setEnv e v := by
  by_cases last : (s.pages p).ppRef - 1 = 0
  · have last' : ((s.setEnv e v).pages p).ppRef - 1 = 0 := last
    rw [pageDecref_last last, pageDecref_last last']
    rfl
  · have more : ((s.setEnv e v).pages p).ppRef - 1 ≠ 0 := last
    rw [pageDecref_more last, pageDecref_more more]
    rfl

theorem pageDecref_envs (s : State) (p : Nat) :
    (pageDecref s p).envs = s.envs ∧ (pageDecref s p).envFreeList = s.envFreeList := by
  unfold pageDecref pageFree
  dsimp only
  split <;> exact ⟨rfl, rfl⟩

/-- Emptying a slot and counting its page down: the page goes to the free list exactly when
    this was its last reference. -/
theorem Accounted.unlink (acc : Accounted dirs hand s fl) (steady : Steady s s')
    (held : target dirs hand s x = some p) (bound : refs (target dirs hand s) p ≤ 65536)
    (moved : target dirs' hand' s' = Function.update (target dirs hand s) x none)
    (pages : s'.pages = (pageDecref s p).pages)
    (list : s'.pageFreeList = (pageDecref s p).pageFreeList) :
    Accounted dirs' hand' s' (unlink ⟨fl, target dirs hand s⟩ x).free := by
  obtain ⟨low, kern, room⟩ := steady_parts acc steady
  have sound := unlink_sound (book_sound acc) x
  have same_target : target dirs' hand' s' = (Ledger.unlink ⟨fl, target dirs hand s⟩ x).target := by
    rw [unlink_target, moved]
  have one_less : refs (Function.update (target dirs hand s) x none) p + 1 =
      refs (target dirs hand s) p := by
    have := refs_clear (target dirs hand s) x p
    rwa [if_pos held] at this
  have managed : Managed s p := acc.targets x p held
  have counted : (s.pages p).ppRef - 1 =
      UInt16.ofNat (refs (Function.update (target dirs hand s) x none) p) := by
    rw [acc.counts p managed, ← one_less, count_down]
  refine ⟨?_, sound.nodup, ?_, ?_, ?_, ?_, ?_, low, kern, room⟩
  · have freed : (Ledger.unlink ⟨fl, target dirs hand s⟩ x).free =
        if refs (Function.update (target dirs hand s) x none) p = 0 then p :: fl else fl := by
      simp [Ledger.unlink, held]
    have busy : p ∉ fl := busy_of_target acc held
    unfold FreeList
    rw [freed, pages, list]
    unfold pageDecref pageFree
    simp only [State.setRef, State.setInfo_pages, Function.update_self, counted,
      count_zero (show refs (Function.update (target dirs hand s) x none) p < 65536 by omega)]
    split
    · refine .cons p fl ?_
      simp only [Function.update_self, State.setInfo_pageFreeList]
      refine chain_congr acc.list ?_
      intro q listed
      have differ : q ≠ p := fun same => busy (same ▸ listed)
      simp [differ]
    · refine chain_congr acc.list ?_
      intro q listed
      have differ : q ≠ p := fun same => busy (same ▸ listed)
      simp [differ]
  · intro q listed
    rw [managed_steady steady]
    rcases (mem_unlink_free _ x q).mp listed with old | ⟨here, _⟩
    · exact acc.managed q old
    · exact acc.targets x q here
  · intro q listed y
    change target dirs' hand' s' y ≠ some q
    rw [same_target]
    exact sound.unused q listed y
  · intro q managed_q
    have before := acc.counts q ((managed_steady steady q).mp managed_q)
    rw [moved, pages]
    by_cases same : q = p
    · subst same
      rw [pageDecref_ref, counted]
    · have others := refs_clear (target dirs hand s) x q
      have elsewhere : target dirs hand s x ≠ some q := by
        rw [held]
        intro eq
        cases eq
        exact same rfl
      rw [if_neg elsewhere, Nat.add_zero] at others
      rw [pageDecref_links s p q same, others, before]
  · intro y q there
    rw [moved] at there
    by_cases here : y = x
    · subst here
      rw [Function.update_self] at there
      cases there
    · rw [Function.update_of_ne here] at there
      exact (managed_steady steady q).mpr (acc.targets y q there)
  · exact Forest.apart_update acc.apart moved (by simp)

theorem Accounted.drop (acc : Accounted dirs (some p) s fl) (steady : Steady s s')
    {e : Fin NENV} {d : Fin userPdes} {i : Fin NPTENTRIES}
    (empty : target dirs (some p) s (.leaf e d i) = none)
    (moved : target dirs none s' =
      Function.update (target dirs none s) (.leaf e d i) (some p))
    (pages : s'.pages = s.pages) (list : s'.pageFreeList = s.pageFreeList) :
    Accounted dirs none s' fl := by
  obtain ⟨low, kern, room⟩ := steady_parts acc steady
  have laid : target dirs none s = Function.update (target dirs (some p) s) .hand none :=
    Forest.target_setHand rfl rfl rfl
  have counts_same : ∀ q, refs (target dirs none s') q = refs (target dirs (some p) s) q := by
    intro q
    have differ : (Slot.hand : PageSlot) ≠ .leaf e d i := by simp
    have held : target dirs (some p) s .hand = some p := rfl
    rw [moved, laid]
    exact refs_move differ held empty q
  have referred : ∀ y q, target dirs none s' y = some q →
      ∃ z, target dirs (some p) s z = some q := by
    intro y q held
    have positive := refs_pos.mpr ⟨y, held⟩
    rw [counts_same] at positive
    exact refs_pos.mp positive
  refine ⟨?_, acc.nodup, ?_, ?_, ?_, ?_, ?_, low, kern, room⟩
  · unfold FreeList
    rw [pages, list]
    exact acc.list
  · intro q listed
    exact (managed_steady steady q).mpr (acc.managed q listed)
  · intro q listed y held
    obtain ⟨z, before⟩ := referred y q held
    exact acc.unused q listed z before
  · intro q managed
    rw [pages, counts_same]
    exact acc.counts q ((managed_steady steady q).mp managed)
  · intro y q held
    obtain ⟨z, before⟩ := referred y q held
    exact (managed_steady steady q).mpr (acc.targets z q before)
  · have between : (forest dirs none s).Apart :=
      Forest.apart_update acc.apart laid fun structural => absurd structural (by simp [Slot.Structural])
    exact Forest.apart_update between moved fun structural =>
      absurd structural (by simp [Slot.Structural])

end Books

end JosAccounting
