import Mathlib.Data.Fintype.Basic
import Mathlib.Data.Finset.Card
import Mathlib.Algebra.Order.BigOperators.Group.Finset
import Mathlib.Data.Fintype.BigOperators

/- Reference-counted storage in the abstract. Finitely many slots each refer to at most one
   page; a page nobody refers to may lie on the free list. What a counter has to show is
   the number of slots that refer to its page. -/
namespace Ledger
variable {Slot Page : Type} [Fintype Slot] [DecidableEq Page]

def refs (target : Slot → Option Page) (p : Page) : Nat :=
  (Finset.univ.filter fun x => target x = some p).card

theorem refs_pos {target : Slot → Option Page} {p : Page} :
    0 < refs target p ↔ ∃ x, target x = some p := by
  simp [refs, Finset.card_pos, Finset.filter_nonempty_iff]

theorem refs_zero {target : Slot → Option Page} {p : Page} :
    refs target p = 0 ↔ ∀ x, target x ≠ some p := by
  simp [refs, Finset.filter_eq_empty_iff]

theorem refs_le_one_unique {target : Slot → Option Page} {p : Page} (single : refs target p ≤ 1)
    {x y : Slot} (hx : target x = some p) (hy : target y = some p) : x = y := by
  refine Finset.card_le_one.mp single x ?_ y ?_
  · simp [hx]
  · simp [hy]

theorem refs_le_one {target : Slot → Option Page} {p : Page}
    (unique : ∀ x y, target x = some p → target y = some p → x = y) : refs target p ≤ 1 := by
  refine Finset.card_le_one.mpr ?_
  intro x hx y hy
  simp only [Finset.mem_filter, Finset.mem_univ, true_and] at hx hy
  exact unique x y hx hy

section Changes
variable [DecidableEq Slot]

theorem refs_clear (target : Slot → Option Page) (x : Slot) (p : Page) :
    refs (Function.update target x none) p + (if target x = some p then 1 else 0) =
      refs target p := by
  have split : (Finset.univ.filter fun y => target y = some p) =
      (Finset.univ.filter fun y => Function.update target x none y = some p) ∪
        (if target x = some p then {x} else ∅) := by
    ext y
    by_cases same : y = x
    · subst y
      split <;> simp_all
    · split <;> simp [same]
  have apart : Disjoint (Finset.univ.filter fun y => Function.update target x none y = some p)
      (if target x = some p then {x} else ∅) := by
    split <;> simp
  simp only [refs, split, Finset.card_union_of_disjoint apart]
  split <;> simp

theorem refs_point {target : Slot → Option Page} {x : Slot} (empty : target x = none)
    (q p : Page) :
    refs (Function.update target x (some q)) p = refs target p + (if q = p then 1 else 0) := by
  have back := refs_clear (Function.update target x (some q)) x p
  have restored : Function.update target x none = target := by
    rw [← empty, Function.update_eq_self]
  simp only [Function.update_self, Function.update_idem, restored, Option.some.injEq] at back
  exact back.symm

theorem refs_point_le {target : Slot → Option Page} {x : Slot} (empty : target x = none) {q : Page}
    (unused : refs target q = 0) {bound : Nat} (positive : 1 ≤ bound)
    (few : ∀ p, refs target p ≤ bound) (p : Page) :
    refs (Function.update target x (some q)) p ≤ bound := by
  rw [refs_point empty]
  by_cases same : q = p
  · subst same
    rw [unused, if_pos rfl]
    exact positive
  · rw [if_neg same, Nat.add_zero]
    exact few p

theorem refs_move {target : Slot → Option Page} {x y : Slot} (differ : x ≠ y) {q : Page}
    (from_x : target x = some q) (empty : target y = none) (p : Page) :
    refs (Function.update (Function.update target x none) y (some q)) p = refs target p := by
  have still : Function.update target x none y = none := by
    rw [Function.update_of_ne differ.symm, empty]
  have added := refs_point still q p
  have cleared := refs_clear target x p
  simp only [from_x, Option.some.injEq] at cleared
  omega

/-- The abstract state: the free pages, in order, and what every slot refers to. -/
structure Book (Slot Page : Type) where
  free : List Page
  target : Slot → Option Page

structure Sound (b : Book Slot Page) : Prop where
  nodup : b.free.Nodup
  unused : ∀ p ∈ b.free, ∀ x, b.target x ≠ some p

/-- Clear a slot, and give its page back when this was the last reference. -/
def unlink (b : Book Slot Page) (x : Slot) : Book Slot Page :=
  match b.target x with
  | none => b
  | some p =>
    let target := Function.update b.target x none
    ⟨if refs target p = 0 then p :: b.free else b.free, target⟩

def unlinkAll (b : Book Slot Page) (xs : List Slot) : Book Slot Page :=
  xs.foldl unlink b

theorem unlink_target (b : Book Slot Page) (x : Slot) :
    (unlink b x).target = Function.update b.target x none := by
  unfold unlink
  split
  · rename_i empty
    rw [← empty, Function.update_eq_self]
  · rfl

theorem refs_unlink_le (b : Book Slot Page) (x : Slot) (p : Page) :
    refs (unlink b x).target p ≤ refs b.target p := by
  have cleared := refs_clear b.target x p
  rw [unlink_target]
  omega

theorem unlinkAll_append (b : Book Slot Page) (xs ys : List Slot) :
    unlinkAll b (xs ++ ys) = unlinkAll (unlinkAll b xs) ys := List.foldl_append

theorem unlinkAll_snoc (b : Book Slot Page) (xs : List Slot) (x : Slot) :
    unlinkAll b (xs ++ [x]) = unlink (unlinkAll b xs) x := unlinkAll_append b xs [x]

theorem refs_unlinkAll_le (b : Book Slot Page) (xs : List Slot) (p : Page) :
    refs (unlinkAll b xs).target p ≤ refs b.target p := by
  induction xs generalizing b with
  | nil => exact Nat.le_refl _
  | cons x xs ih => exact Nat.le_trans (ih (unlink b x)) (refs_unlink_le b x p)

theorem unlink_empty {b : Book Slot Page} {x : Slot} (empty : b.target x = none) :
    unlink b x = b := by
  simp [unlink, empty]

theorem unlink_free_or (b : Book Slot Page) (x : Slot) : (unlink b x).free = b.free ∨
    ∃ q, b.target x = some q ∧ (unlink b x).free = q :: b.free := by
  cases held : b.target x with
  | none =>
    left
    rw [unlink_empty held]
  | some q =>
    by_cases last : refs (Function.update b.target x none) q = 0
    · right
      exact ⟨q, rfl, by simp [unlink, held, last]⟩
    · left
      simp [unlink, held, last]

theorem unlink_free_kept {b : Book Slot Page} {x : Slot} {p : Page} (held : b.target x = some p)
    (more : refs (Function.update b.target x none) p ≠ 0) : (unlink b x).free = b.free := by
  simp [unlink, held, more]

/-- A page becomes free exactly when the cleared slot held its only reference. -/
theorem mem_unlink_free (b : Book Slot Page) (x : Slot) (p : Page) :
    p ∈ (unlink b x).free ↔
      p ∈ b.free ∨ (b.target x = some p ∧ ∀ y, y ≠ x → b.target y ≠ some p) := by
  unfold unlink
  split
  · rename_i empty
    simp [empty]
  · rename_i q held
    have others : refs (Function.update b.target x none) q = 0 ↔
        ∀ y, y ≠ x → b.target y ≠ some q := by
      rw [refs_zero]
      constructor
      · intro none_left y differ
        simpa [Function.update_of_ne differ] using none_left y
      · intro alone y
        by_cases same : y = x
        · simp [same]
        · simpa [Function.update_of_ne same] using alone y same
    simp only [others, held, Option.some.injEq]
    split
    · rename_i alone
      simp only [List.mem_cons]
      constructor
      · rintro (rfl | old)
        · exact Or.inr ⟨rfl, alone⟩
        · exact Or.inl old
      · rintro (old | ⟨rfl, _⟩)
        · exact Or.inr old
        · exact Or.inl rfl
    · rename_i shared
      constructor
      · exact Or.inl
      · rintro (old | ⟨rfl, alone⟩)
        · exact old
        · exact absurd alone shared

theorem unlink_sound {b : Book Slot Page} (sound : Sound b) (x : Slot) : Sound (unlink b x) := by
  constructor
  · unfold unlink
    split
    · exact sound.nodup
    · rename_i p held
      dsimp only
      split
      · refine List.nodup_cons.mpr ⟨?_, sound.nodup⟩
        intro listed
        exact sound.unused p listed x held
      · exact sound.nodup
  · intro p listed y
    rw [unlink_target]
    by_cases same : y = x
    · simp [same]
    · rw [Function.update_of_ne same]
      rcases (mem_unlink_free b x p).mp listed with old | ⟨_, alone⟩
      · exact sound.unused p old y
      · exact alone y same

theorem unlinkAll_target (b : Book Slot Page) (xs : List Slot) (y : Slot) :
    (unlinkAll b xs).target y = if y ∈ xs then none else b.target y := by
  induction xs generalizing b with
  | nil => simp [unlinkAll]
  | cons x xs ih =>
    have step := ih (unlink b x)
    simp only [unlinkAll, List.foldl_cons, unlink_target] at step ⊢
    rw [step]
    by_cases same : y = x
    · subst y
      simp
    · simp [same]

/-- Clearing a list of slots frees what only those slots referred to. -/
theorem mem_unlinkAll_free (b : Book Slot Page) (xs : List Slot) (p : Page) :
    p ∈ (unlinkAll b xs).free ↔
      p ∈ b.free ∨ ((∃ x ∈ xs, b.target x = some p) ∧ ∀ y, b.target y = some p → y ∈ xs) := by
  induction xs generalizing b with
  | nil => simp [unlinkAll]
  | cons x xs ih =>
    have step := ih (unlink b x)
    simp only [unlinkAll, List.foldl_cons] at step ⊢
    rw [step, mem_unlink_free, unlink_target]
    constructor
    · rintro ((old | ⟨held, alone⟩) | ⟨⟨z, hz, later⟩, all⟩)
      · exact Or.inl old
      · refine Or.inr ⟨⟨x, by simp, held⟩, ?_⟩
        intro y hy
        by_cases same : y = x
        · simp [same]
        · exact absurd hy (alone y same)
      · have differ : z ≠ x := by
          rintro rfl
          simp at later
        rw [Function.update_of_ne differ] at later
        refine Or.inr ⟨⟨z, by simp [hz], later⟩, ?_⟩
        intro y hy
        by_cases same : y = x
        · simp [same]
        · exact List.mem_cons_of_mem x (all y (by rw [Function.update_of_ne same]; exact hy))
    · rintro (old | ⟨⟨z, hz, held⟩, all⟩)
      · exact Or.inl (Or.inl old)
      · by_cases elsewhere : ∃ y, y ≠ x ∧ b.target y = some p
        · obtain ⟨y, differ, hy⟩ := elsewhere
          have listed : y ∈ xs := by
            have := all y hy
            simpa [differ] using this
          refine Or.inr ⟨⟨y, listed, by rw [Function.update_of_ne differ]; exact hy⟩, ?_⟩
          intro w hw
          by_cases same : w = x
          · subst w
            simp at hw
          · rw [Function.update_of_ne same] at hw
            have := all w hw
            simpa [same] using this
        · push Not at elsewhere
          have here : z = x := by
            by_contra differ
            exact elsewhere z differ held
          subst z
          exact Or.inl (Or.inr ⟨held, elsewhere⟩)

theorem refs_unlinkAll (b : Book Slot Page) (xs : List Slot) (once : xs.Nodup) (p : Page) :
    refs (unlinkAll b xs).target p + (xs.filter fun x => decide (b.target x = some p)).length =
      refs b.target p := by
  induction xs generalizing b with
  | nil => simp [unlinkAll]
  | cons x xs ih =>
    obtain ⟨fresh, rest⟩ := List.nodup_cons.mp once
    have step := ih (unlink b x) rest
    have later : (xs.filter fun y => decide ((unlink b x).target y = some p)) =
        xs.filter fun y => decide (b.target y = some p) := by
      apply List.filter_congr
      intro y hy
      have differ : y ≠ x := by
        rintro rfl
        exact fresh hy
      rw [unlink_target, Function.update_of_ne differ]
    rw [later] at step
    have first := refs_clear b.target x p
    rw [← unlink_target] at first
    simp only [unlinkAll, List.foldl_cons] at step ⊢
    by_cases held : b.target x = some p
    · simp only [held, decide_true, List.filter_cons_of_pos, List.length_cons, if_true] at first ⊢
      omega
    · simp only [held, decide_false, if_false, Bool.false_eq_true, not_false_eq_true,
        List.filter_cons_of_neg] at first ⊢
      omega

theorem unlinkAll_freed (b : Book Slot Page) (xs : List Slot) (once : xs.Nodup) (p : Page) :
    p ∈ (unlinkAll b xs).free ↔ p ∈ b.free ∨
      ((xs.filter fun x => decide (b.target x = some p)).length ≠ 0 ∧
        (xs.filter fun x => decide (b.target x = some p)).length = refs b.target p) := by
  have left := refs_unlinkAll b xs once p
  have some_cleared : (xs.filter fun x => decide (b.target x = some p)).length ≠ 0 ↔
      ∃ x ∈ xs, b.target x = some p := by
    simp [List.length_eq_zero_iff]
  have all_cleared : refs (unlinkAll b xs).target p = 0 ↔ ∀ y, b.target y = some p → y ∈ xs := by
    rw [refs_zero]
    constructor
    · intro none_left y held
      by_contra outside
      have still := none_left y
      rw [unlinkAll_target, if_neg outside] at still
      exact still held
    · intro all y held
      rw [unlinkAll_target] at held
      split at held
      · cases held
      · rename_i outside
        exact outside (all y held)
  rw [mem_unlinkAll_free, ← some_cleared, ← all_cleared]
  constructor
  · intro either
    rcases either with old | ⟨cleared, none_left⟩
    · exact Or.inl old
    · exact Or.inr ⟨cleared, by omega⟩
  · intro either
    rcases either with old | ⟨cleared, all⟩
    · exact Or.inl old
    · exact Or.inr ⟨cleared, by omega⟩

end Changes

end Ledger
