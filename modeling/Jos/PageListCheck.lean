import Jos.Boot
import Jos.TailSplit

/- check_page_free_list of kern/pmap.c: it moves the pages with low addresses to the front of the
   free list, scribbles on those it can reach, and asserts that no page is listed that should not
   be. -/
namespace JosPageListCheck
open JosLayout FrameWords JosMachine JosPmap JosBoot CountedLoop WhileLoop IntrusiveList TailSplit

def pagetype (pdxLimit pp : Nat) : Bool := decide (pdx (page2pa pp) ≥ pdxLimit)

/-- pp1 and pp2, which hold what their stack slots happened to hold, and the pp_link fields. -/
def cells (s : State) (pp12 : Bool → Option Nat) : Cell Nat → Option Nat
  | .head upper => pp12 upper
  | .link pp => (s.pages pp).ppLink

/-- The block under if (only_low_memory), with tp[0] = &pp1 and tp[1] = &pp2. It does not end on a
    list that is not one. -/
def lowFirst (fuel : Nat) (pp12 : Bool → Option Nat) (s : State) : Option State :=
  match loop (m := Id) (split (pagetype 1)) fuel (s.pageFreeList, ⟨cells s pp12, .head⟩) with
  | none => none
  | some (_, w) => some { s with
      pages := fun pp => { s.pages pp with ppLink := w.join (.link pp) }
      pageFreeList := w.join (.head false) }

inductive CheckStop where
  | nullList            -- "'page_free_list' is a null pointer!"
  | panic (p : Panic)
  | unfinished
  deriving DecidableEq

instance : Coe Panic CheckStop := ⟨.panic⟩

def orUnfinished {α : Type} : Option α → Except CheckStop α
  | none => .error .unfinished
  | some a => .ok a

theorem orUnfinished_some {α : Type} (a : α) : orUnfinished (some a) = .ok a := rfl

def scribble (f : Frame) : Frame := fun o => if o < 128 then 0x97 else f o

def scribbleBelow (pdxLimit : Nat) (s : State) (pp : Nat) : Except CheckStop State :=
  if pdx (page2pa pp) < pdxLimit then do
    let frame ← orPanic (page2kva s pp)
    .ok (s.setFrame frame (scribble (s.mem frame)))
  else .ok s

def scribbleRound (pdxLimit : Nat) : Option Nat × State → Except CheckStop (Option (Option Nat × State))
  | (none, _) => .ok none
  | (some pp, s) => do
    let s ← scribbleBelow pdxLimit s pp
    .ok (some ((s.pages pp).ppLink, s))

def sane (s : State) (firstFreePage pp : Nat) : Except CheckStop Bool :=
  if pp < s.npages ∧ page2pa pp ≠ 0 ∧ page2pa pp ≠ IOPHYSMEM ∧
      page2pa pp ≠ EXTPHYSMEM - PGSIZE ∧ page2pa pp ≠ EXTPHYSMEM then
    if page2pa pp < EXTPHYSMEM then .ok true
    else do
      let kva ← orPanic (page2kva s pp)
      .ok (decide (kva * PGSIZE + KERNBASE ≥ firstFreePage))
  else .ok false

def inspectRound (s : State) (firstFreePage : Nat) :
    Option Nat × Nat × Nat → Except CheckStop (Option (Option Nat × Nat × Nat))
  | (none, _, _) => .ok none
  | (some pp, nfreeBasemem, nfreeExtmem) => do
    if ← sane s firstFreePage pp then
      if page2pa pp < EXTPHYSMEM then
        .ok (some ((s.pages pp).ppLink, nfreeBasemem + 1, nfreeExtmem))
      else .ok (some ((s.pages pp).ppLink, nfreeBasemem, nfreeExtmem + 1))
    else .error (.panic .assertion)

def checkPageFreeList (fuel : Nat) (pp12 : Bool → Option Nat) (s : State) (onlyLowMemory : Bool) :
    Except CheckStop State := do
  let pdxLimit := if onlyLowMemory then 1 else NPDENTRIES
  if s.pageFreeList = none then .error .nullList
  else
    let s ← orUnfinished (if onlyLowMemory then lowFirst fuel pp12 s else some s)
    let scribbled ← loop (scribbleRound pdxLimit) fuel (s.pageFreeList, s)
    let (_, s) ← orUnfinished scribbled
    let (firstFreePage, s) ← orPanic (bootAlloc s 0)
    let inspected ← loop (inspectRound s firstFreePage) fuel (s.pageFreeList, 0, 0)
    let (_, nfreeBasemem, nfreeExtmem) ← orUnfinished inspected
    if nfreeBasemem > 0 ∧ nfreeExtmem > 0 then .ok s else .error (.panic .assertion)

section Order
variable {s : State} {fl : List Nat} {fuel : Nat}

def lowPagesFirst (fl : List Nat) : List Nat :=
  fl.filter (fun pp => decide (pdx (page2pa pp) < 1)) ++
    fl.filter fun pp => !decide (pdx (page2pa pp) < 1)

theorem lowPagesFirst_perm (fl : List Nat) : fl.Perm (lowPagesFirst fl) :=
  (List.filter_append_perm _ fl).symm

/-- The relinking, on any list: the low pages come first, both groups keep their order, and no
    other field of any page is touched. -/
theorem lowFirst_spec (pp12 : Bool → Option Nat) (list : FreeList s fl) (once : fl.Nodup)
    (enough : fl.length < fuel) :
    ∃ s', lowFirst fuel pp12 s = some s' ∧ FreeList s' (lowPagesFirst fl) ∧
      (∀ pp, (s'.pages pp).ppRef = (s.pages pp).ppRef) ∧
      (∀ pp, pp ∉ fl → s'.pages pp = s.pages pp) ∧
      s' = { s with pages := s'.pages, pageFreeList := s'.pageFreeList } := by
  have links : Chain (fun pp => cells s pp12 (.link pp)) s.pageFreeList fl := list
  obtain ⟨w, run, joined, frame⟩ := split_join (pagetype 1) links once enough
  have low : (fun pp => !pagetype 1 pp) = fun pp => decide (pdx (page2pa pp) < 1) := by
    funext pp
    unfold pagetype
    rw [← decide_not]
    exact decide_eq_decide.mpr Nat.not_le
  have high : pagetype 1 = fun pp => !decide (pdx (page2pa pp) < 1) := by
    funext pp
    rw [← congrFun low pp, Bool.not_not]
  refine ⟨{ s with
    pages := fun pp => { s.pages pp with ppLink := w.join (.link pp) }
    pageFreeList := w.join (.head false) }, ?_, ?_, fun _ => rfl, ?_, rfl⟩
  · unfold lowFirst
    rw [run]
  · unfold lowPagesFirst
    rw [← low, ← high]
    exact joined
  · intro pp away
    have same := frame pp away
    change ({ s.pages pp with ppLink := w.join (.link pp) } : PageInfo) = s.pages pp
    rw [same]
    rfl

theorem scribbleBelow_ok {pdxLimit pp : Nat} {a b : State}
    (run : scribbleBelow pdxLimit a pp = .ok b) :
    b = { a with mem := b.mem } ∧ ∀ q, q ≠ pp → b.mem q = a.mem q := by
  unfold scribbleBelow at run
  split at run
  · obtain ⟨frame, named, stored⟩ := bind_ok.mp run
    cases stored
    refine ⟨rfl, fun q differ => ?_⟩
    have self : frame = pp := by
      unfold page2kva kaddr at named
      rw [pgnum_page2pa] at named
      split at named
      · cases named
      · cases named
        rfl
    rw [State.setFrame_mem, Function.update_of_ne (self ▸ differ)]
  · cases run
    exact ⟨rfl, fun _ _ => rfl⟩

theorem scribbled {pdxLimit : Nat} {p : Option Nat} {t : State} (list : FreeList s fl)
    (run : loop (scribbleRound pdxLimit) fuel (s.pageFreeList, s) = .ok (some (p, t))) :
    t = { s with mem := t.mem } ∧ ∀ q, q ∉ fl → t.mem q = s.mem q := by
  have start : s = { s with mem := s.mem } ∧ (∀ q, q ∉ fl → s.mem q = s.mem q) ∧
      ∃ rest, rest ⊆ fl ∧ Chain (fun q => (s.pages q).ppLink) s.pageFreeList rest :=
    ⟨rfl, fun _ _ => rfl, fl, List.Subset.refl fl, list⟩
  have done := loop_ok (fun (a : Option Nat × State) => a.2 = { s with mem := a.2.mem } ∧
    (∀ q, q ∉ fl → a.2.mem q = s.mem q) ∧
    ∃ rest, rest ⊆ fl ∧ Chain (fun q => (s.pages q).ppLink) a.1 rest) start ?_ run
  · exact ⟨done.1.1, done.1.2.1⟩
  · rintro ⟨head, a⟩ b before round
    obtain ⟨quiet, frame, rest, part, chain⟩ := before
    dsimp only at quiet frame chain
    cases head with
    | none => cases round
    | some pp =>
      obtain ⟨rest', rfl, tail⟩ := chain_some.mp chain
      have listed : pp ∈ fl := part (by simp)
      unfold scribbleRound at round
      obtain ⟨a', wrote, round⟩ := bind_ok.mp round
      cases round
      obtain ⟨quiet', frame'⟩ := scribbleBelow_ok wrote
      have links : (a'.pages pp).ppLink = (s.pages pp).ppLink := by
        rw [quiet', quiet]
      refine ⟨?_, ?_, rest', fun q among => part (by simp [among]), ?_⟩
      · dsimp only
        rw [quiet', quiet]
      · intro q away
        have differ : q ≠ pp := fun same => away (same ▸ listed)
        exact (frame' q differ).trans (frame q away)
      · dsimp only
        rw [links]
        exact tail

theorem bootAlloc_zero (s : State) : ∃ n, bootAlloc s 0 = .ok (n, { s with nextfree := n }) ∧
    (s.nextfree ≠ 0 → n = s.nextfree) := by
  unfold bootAlloc
  by_cases down : s.nextfree = 0
  · rw [if_pos down]
    exact ⟨_, rfl, fun up => absurd down up⟩
  · rw [if_neg down]
    exact ⟨_, rfl, fun _ => rfl⟩

/-- What a call that returns has done: the free list is in the order lowFirst gives it, or as it
    was, and only the contents of listed pages have changed besides. -/
theorem checkPageFreeList_ok {pp12 : Bool → Option Nat} {onlyLowMemory : Bool} {s' : State}
    (list : FreeList s fl) (once : fl.Nodup) (enough : fl.length < fuel)
    (run : checkPageFreeList fuel pp12 s onlyLowMemory = .ok s') :
    FreeList s' (if onlyLowMemory then lowPagesFirst fl else fl) ∧
      (∀ pp, (s'.pages pp).ppRef = (s.pages pp).ppRef) ∧
      (∀ pp, pp ∉ fl → s'.pages pp = s.pages pp ∧ s'.mem pp = s.mem pp) ∧
      (s.nextfree ≠ 0 →
        s' = { s with mem := s'.mem, pages := s'.pages, pageFreeList := s'.pageFreeList }) := by
  have relinked : ∃ s1, (if onlyLowMemory then lowFirst fuel pp12 s else some s) = some s1 ∧
      FreeList s1 (if onlyLowMemory then lowPagesFirst fl else fl) ∧
      (∀ pp, (s1.pages pp).ppRef = (s.pages pp).ppRef) ∧
      (∀ pp, pp ∉ fl → s1.pages pp = s.pages pp) ∧
      s1 = { s with pages := s1.pages, pageFreeList := s1.pageFreeList } := by
    cases onlyLowMemory with
    | true => exact lowFirst_spec pp12 list once enough
    | false => exact ⟨s, rfl, list, fun _ => rfl, fun _ _ => rfl, rfl⟩
  obtain ⟨s1, linked, list1, refs1, links1, quiet1⟩ := relinked
  unfold checkPageFreeList at run
  dsimp only at run
  split at run
  · cases run
  · rw [linked, orUnfinished_some, ok_bind] at run
    obtain ⟨scribbles, wrote, run⟩ := bind_ok.mp run
    cases scribbles with
    | none => cases run
    | some end1 =>
      obtain ⟨p, s2⟩ := end1
      obtain ⟨quiet2, frame2⟩ := scribbled list1 wrote
      obtain ⟨first_free, first, up⟩ := bootAlloc_zero s2
      rw [orUnfinished_some, ok_bind] at run
      dsimp only at run
      rw [first, orPanic_value, ok_bind] at run
      obtain ⟨inspected, _, run⟩ := bind_ok.mp run
      cases inspected with
      | none => cases run
      | some end2 =>
        rw [orUnfinished_some, ok_bind] at run
        split at run
        · cases run
          have listed : ∀ pp, pp ∈ (if onlyLowMemory then lowPagesFirst fl else fl) ↔ pp ∈ fl := by
            intro pp
            cases onlyLowMemory with
            | true => exact (lowPagesFirst_perm fl).mem_iff.symm
            | false => exact Iff.rfl
          refine ⟨?_, ?_, ?_, ?_⟩
          · rw [quiet2]
            exact list1
          · intro pp
            rw [quiet2]
            exact refs1 pp
          · intro pp away
            refine ⟨?_, ?_⟩
            · rw [quiet2]
              exact links1 pp away
            · change s2.mem pp = s.mem pp
              rw [frame2 pp fun among => away ((listed pp).mp among), quiet1]
          · intro started
            rw [quiet2, quiet1] at up
            rw [quiet2, quiet1, up started]
        · cases run

theorem checkPageFreeList_selfChecked {pp12 : Bool → Option Nat} {onlyLowMemory : Bool} {s' : State}
    (list : FreeList s fl) (once : fl.Nodup) (enough : fl.length < fuel) (up : s.nextfree ≠ 0)
    (run : checkPageFreeList fuel pp12 s onlyLowMemory = .ok s') : SelfChecked s s' := by
  obtain ⟨list', refs, off_list, quiet⟩ := checkPageFreeList_ok list once enough run
  have same : ∀ xs, FreeList s xs → xs = fl := fun xs other => chain_unique other list
  refine ⟨?_, ?_, ?_, refs, ?_⟩
  · intro xs other
    rw [same xs other]
    refine ⟨_, list', ?_⟩
    cases onlyLowMemory with
    | true => exact lowPagesFirst_perm fl
    | false => exact List.Perm.refl fl
  · intro pp xs other away
    exact (off_list pp (same xs other ▸ away)).2
  · intro pp xs other away
    exact (off_list pp (same xs other ▸ away)).1
  · rw [quiet up]

end Order

/-- check_page_free_list(1) keeps every page: the relinking always ends, with the pages below 4MB
    first and each group in its old order, and a call that returns leaves that list. -/
theorem low_pages_first {s : State} {fl : List Nat} {fuel : Nat} (list : FreeList s fl)
    (once : fl.Nodup) (enough : fl.length < fuel) (pp12 : Bool → Option Nat) :
    ∃ low high, (low ++ high).Perm fl ∧ low.Sublist fl ∧ high.Sublist fl ∧
      (∀ pp ∈ low, pdx (page2pa pp) < 1) ∧ (∀ pp ∈ high, ¬ pdx (page2pa pp) < 1) ∧
      (∃ s', lowFirst fuel pp12 s = some s' ∧ FreeList s' (low ++ high)) ∧
      ∀ s', checkPageFreeList fuel pp12 s true = .ok s' → FreeList s' (low ++ high) := by
  obtain ⟨s', run, list', _⟩ := lowFirst_spec pp12 list once enough
  refine ⟨_, _, (lowPagesFirst_perm fl).symm, List.filter_sublist, List.filter_sublist, ?_, ?_,
    ⟨s', run, list'⟩, fun _ run => (checkPageFreeList_ok list once enough run).1⟩
  · intro pp among
    exact of_decide_eq_true (List.mem_filter.mp among).2
  · intro pp among below
    have kept := (List.mem_filter.mp among).2
    rw [decide_eq_true below] at kept
    cases kept

def twoPages : State :=
  { powerOn smallMachine with
    pages := fun pp => if pp = 2048 then ⟨some 1, 0⟩ else ⟨none, 0⟩
    pageFreeList := some 2048 }

theorem low_pages_first_twoPages : ∃ low high : List Nat, (low ++ high).Perm [2048, 1] ∧
    ∃ s', lowFirst 3 (fun _ => some 7) twoPages = some s' ∧ FreeList s' (low ++ high) := by
  have list : FreeList twoPages [2048, 1] := .cons _ _ (.cons _ _ .nil)
  obtain ⟨low, high, same, _, _, _, _, done, _⟩ :=
    low_pages_first list (by decide) (show [2048, 1].length < 3 by decide) fun _ => some 7
  exact ⟨low, high, same, done⟩

end JosPageListCheck
