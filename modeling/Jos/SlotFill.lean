import Jos.Ledger

/- Slots that are filled in order, each with an unused item. Beside every slot stands another one,
   its table, that has to hold something first; slots can share it. -/
namespace SlotFill
open Ledger
variable {Slot Page : Type} [Fintype Slot] [DecidableEq Page]

/-- The first k slots are filled, each with an item that nothing else refers to; their tables hold
    what they held, or something that nothing else refers to; and the rest is as it was. -/
structure Filled (T0 T : Slot → Option Page) (leaf tab : Nat → Slot) (k : Nat)
    (page : Nat → Page) : Prop where
  holds : ∀ j, j < k → T (leaf j) = some (page j)
  single : ∀ j, j < k → refs T (page j) = 1
  tables : ∀ j, j < k → T (tab j) ≠ none
  old : ∀ x, (∀ j, j < k → x ≠ leaf j) → T0 x ≠ none → T x = T0 x
  new : ∀ x q, (∀ j, j < k → x ≠ leaf j) → T0 x = none → T x = some q →
    refs T q = 1 ∧ ∃ j, j < k ∧ x = tab j

section Rounds
variable {T0 T : Slot → Option Page} {leaf tab : Nat → Slot} {k : Nat} {page : Nat → Page}

theorem Filled.start (T0 : Slot → Option Page) (leaf tab : Nat → Slot) (page : Nat → Page) :
    Filled T0 T0 leaf tab 0 page := by
  refine ⟨fun j less => absurd less (Nat.not_lt_zero j), fun j less => absurd less (Nat.not_lt_zero j),
    fun j less => absurd less (Nat.not_lt_zero j), fun _ _ _ => rfl, ?_⟩
  intro x q _ empty held
  rw [empty] at held
  cases held

theorem Filled.next_leaf (filled : Filled T0 T leaf tab k page)
    (once : ∀ j, j < k → leaf k ≠ leaf j) (apart : ∀ j, leaf k ≠ tab j) :
    T (leaf k) = T0 (leaf k) := by
  by_cases empty : T0 (leaf k) = none
  · rw [empty]
    cases held : T (leaf k) with
    | none => rfl
    | some q =>
      obtain ⟨_, j, _, same⟩ := filled.new (leaf k) q once empty held
      exact absurd same (apart j)
  · exact filled.old (leaf k) once empty

theorem Filled.next_table (filled : Filled T0 T leaf tab k page)
    (apart : ∀ i j, leaf i ≠ tab j) :
    T (tab k) = none ↔ T0 (tab k) = none ∧ ∀ j, j < k → tab j ≠ tab k := by
  have plain : ∀ j, j < k → tab k ≠ leaf j := fun j _ => (apart j k).symm
  constructor
  · intro empty
    constructor
    · by_contra held
      rw [filled.old (tab k) plain held] at empty
      exact held empty
    · intro j less same
      apply filled.tables j less
      rw [same]
      exact empty
  · intro missing
    obtain ⟨empty, first⟩ := missing
    cases held : T (tab k) with
    | none => rfl
    | some q =>
      obtain ⟨_, j, less, same⟩ := filled.new (tab k) q plain empty held
      exact absurd same.symm (first j less)

theorem Filled.next_last (filled : Filled T0 T leaf tab k page)
    (once : ∀ j, j < k → leaf k ≠ leaf j) (apart : ∀ i j, leaf i ≠ tab j) {q : Page}
    (held : T0 (leaf k) = some q) :
    refs T q = 1 ↔ ∀ x, T0 x = some q → ∃ j, j ≤ k ∧ x = leaf j := by
  have now : T (leaf k) = some q := (filled.next_leaf once (apart k)).trans held
  constructor
  · intro alone x there
    by_cases before : ∃ j, j < k ∧ x = leaf j
    · obtain ⟨j, less, same⟩ := before
      exact ⟨j, Nat.le_of_lt less, same⟩
    · simp only [not_exists, not_and] at before
      have still := filled.old x before (by simp [there])
      rw [there] at still
      exact ⟨k, Nat.le_refl k, refs_le_one_unique (Nat.le_of_eq alone) still now⟩
  · intro only
    have positive := refs_pos.mpr ⟨leaf k, now⟩
    suffices most : refs T q ≤ 1 by omega
    -- whoever refers to q now does so in the slot k
    have here : ∀ x, T x = some q → x = leaf k := by
      intro x there
      by_cases before : ∃ j, j < k ∧ x = leaf j
      · obtain ⟨j, less, rfl⟩ := before
        have same := filled.holds j less
        rw [there] at same
        cases same
        exact refs_le_one_unique (Nat.le_of_eq (filled.single j less)) there now
      · simp only [not_exists, not_and] at before
        by_cases empty : T0 x = none
        · obtain ⟨single, _⟩ := filled.new x q before empty there
          exact refs_le_one_unique (Nat.le_of_eq single) there now
        · rw [filled.old x before empty] at there
          obtain ⟨j, order, same⟩ := only x there
          rcases Nat.lt_or_eq_of_le order with less | equal
          · exact absurd same (before j less)
          · rw [same, equal]
    apply refs_le_one
    intro x y hx hy
    rw [here x hx, here y hy]

variable [DecidableEq Slot]

theorem refs_fill {x y : Slot} (apart : x ≠ y) {p t : Page}
    (table : T y = some t ∨ T y = none) (q : Page) :
    refs (Function.update (Function.update T y (some t)) x (some p)) q +
        (if T x = some q then 1 else 0) =
      refs T q + (if T y = none ∧ t = q then 1 else 0) + (if p = q then 1 else 0) := by
  have linked : refs (Function.update T y (some t)) q =
      refs T q + (if T y = none ∧ t = q then 1 else 0) := by
    rcases table with there | empty
    · rw [← there, Function.update_eq_self, there, if_neg (by simp), Nat.add_zero]
    · rw [refs_point empty]
      simp only [empty, true_and]
  have leaf : Function.update T y (some t) x = T x := Function.update_of_ne apart _ _
  have cleared := refs_clear (Function.update T y (some t)) x q
  have filled := @refs_point Slot Page _ _ _ (Function.update (Function.update T y (some t)) x none) x
    (Function.update_self _ _ _) p q
  rw [Function.update_idem] at filled
  rw [leaf] at cleared
  omega

section Fill
variable {x y z : Slot} {p q t : Page} (apart : x ≠ y) (unused : refs T p = 0)
  (table : T y = some t ∨ T y = none ∧ refs T t = 0)
include apart unused table

theorem refs_fill_other (other : z ≠ x) (held : T z = some q) (single : refs T q = 1) :
    refs (Function.update (Function.update T y (some t)) x (some p)) q = 1 := by
  have moved := refs_fill apart (p := p) (table.imp_right And.left) q
  have not_here : T x ≠ some q :=
    fun here => other (refs_le_one_unique (Nat.le_of_eq single) held here)
  have not_new : ¬ (T y = none ∧ t = q) := by
    intro both
    rcases table with there | ⟨_, free⟩
    · rw [there] at both
      cases both.1
    · rw [both.2, single] at free
      cases free
  have not_p : p ≠ q := by
    intro same
    rw [same, single] at unused
    cases unused
  rw [if_neg not_here, if_neg not_new, if_neg not_p] at moved
  omega

theorem refs_fill_item (differ : p ≠ t) :
    refs (Function.update (Function.update T y (some t)) x (some p)) p = 1 := by
  have moved := refs_fill apart (p := p) (table.imp_right And.left) p
  have not_here : T x ≠ some p := refs_zero.mp unused x
  have not_new : ¬ (T y = none ∧ t = p) := fun both => differ both.2.symm
  rw [if_neg not_here, if_neg not_new, if_pos rfl] at moved
  omega

omit unused in
theorem refs_fill_table (differ : p ≠ t) (missing : T y = none) (free : refs T t = 0) :
    refs (Function.update (Function.update T y (some t)) x (some p)) t = 1 := by
  have moved := refs_fill apart (p := p) (table.imp_right And.left) t
  have not_here : T x ≠ some t := refs_zero.mp free x
  rw [if_neg not_here, if_pos ⟨missing, rfl⟩, if_neg differ, free] at moved
  omega

end Fill

/-- Filling the next slot. -/
theorem Filled.step (filled : Filled T0 T leaf tab k page) (once : ∀ j, j < k → leaf k ≠ leaf j)
    (apart : ∀ i j, leaf i ≠ tab j) {p t : Page} (unused : refs T p = 0) (differ : p ≠ t)
    (table : T (tab k) = some t ∨ T (tab k) = none ∧ refs T t = 0) :
    Filled T0 (Function.update (Function.update T (tab k) (some t)) (leaf k) (some p)) leaf tab
      (k + 1) (Function.update page k p) := by
  have elsewhere : ∀ x, x ≠ leaf k → x ≠ tab k →
      Function.update (Function.update T (tab k) (some t)) (leaf k) (some p) x = T x := by
    intro x here there
    rw [Function.update_of_ne here, Function.update_of_ne there]
  have at_table : Function.update (Function.update T (tab k) (some t)) (leaf k) (some p) (tab k) =
      some t := by
    rw [Function.update_of_ne (apart k k).symm, Function.update_self]
  -- an item with one reference elsewhere keeps it
  have keeps : ∀ x q, x ≠ leaf k → T x = some q → refs T q = 1 →
      refs (Function.update (Function.update T (tab k) (some t)) (leaf k) (some p)) q = 1 :=
    fun x q other held single => refs_fill_other (apart k k) unused table other held single
  refine ⟨?_, ?_, ?_, ?_, ?_⟩
  · intro j less
    by_cases here : j = k
    · subst here
      rw [Function.update_self, Function.update_self]
    · have before : j < k := by omega
      rw [elsewhere _ (once j before).symm (apart j k), Function.update_of_ne here]
      exact filled.holds j before
  · intro j less
    by_cases here : j = k
    · subst here
      rw [Function.update_self]
      exact refs_fill_item (apart j j) unused table differ
    · have before : j < k := by omega
      rw [Function.update_of_ne here]
      exact keeps (leaf j) (page j) (once j before).symm (filled.holds j before) (filled.single j before)
  · intro j less
    by_cases same : tab j = tab k
    · rw [same, at_table]
      simp
    · have before : j < k := by
        have differ : j ≠ k := fun eq => same (congrArg tab eq)
        omega
      rw [elsewhere _ (apart k j).symm same]
      exact filled.tables j before
  · intro x other held
    have before : ∀ j, j < k → x ≠ leaf j := fun j less => other j (by omega)
    have still := filled.old x before held
    by_cases at_tab : x = tab k
    · subst at_tab
      rw [at_table, ← still]
      rcases table with there | ⟨empty, _⟩
      · exact there.symm
      · rw [empty] at still
        exact absurd still.symm held
    · rw [elsewhere x (other k (by omega)) at_tab]
      exact still
  · intro x q other empty held
    have before : ∀ j, j < k → x ≠ leaf j := fun j less => other j (by omega)
    by_cases at_tab : x = tab k
    · subst at_tab
      rw [at_table] at held
      cases held
      refine ⟨?_, k, by omega, rfl⟩
      rcases table with there | ⟨missing, free⟩
      · exact keeps (tab k) t (apart k k).symm there (filled.new (tab k) t before empty there).1
      · exact refs_fill_table (apart k k) (.inr ⟨missing, free⟩) differ missing free
    · rw [elsewhere x (other k (by omega)) at_tab] at held
      obtain ⟨single, j, less, same⟩ := filled.new x q before empty held
      exact ⟨keeps x q (other k (by omega)) held single, j, by omega, same⟩

end Rounds

end SlotFill
