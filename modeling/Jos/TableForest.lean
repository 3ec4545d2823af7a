import Jos.Ledger
import Mathlib.Tactic.DeriveFintype

/- Two-level trees of tables in one memory: a root names a directory, an entry of a directory
   names a table, an entry of a table names a page. The pages referred to are counted by the
   slots that refer to them, of which there are finitely many. -/
namespace TableForest
open Ledger

/-- Directories have T slots and tables L. Besides the trees, F slots hold a page each that
    serves some other purpose, and at most one page is in hand. -/
structure Forest (R T L F : Nat) where
  root : Fin R → Option Nat
  entry : Nat → Nat → Option Nat
  fixed : Fin F → Option Nat
  hand : Option Nat

inductive Slot (R T L F : Nat) where
  | hand
  | root (r : Fin R)
  | table (r : Fin R) (d : Fin T)
  | leaf (r : Fin R) (d : Fin T) (i : Fin L)
  | fixed (k : Fin F)
  deriving DecidableEq, Fintype

variable {R T L F : Nat}

namespace Slot

def Structural : Slot R T L F → Prop
  | .hand => False
  | .root _ => True
  | .table _ _ => True
  | .leaf _ _ _ => False
  | .fixed _ => True

end Slot

namespace Forest

def table (f : Forest R T L F) (r : Fin R) (d : Fin T) : Option Nat :=
  (f.root r).bind fun p => f.entry p d

def target (f : Forest R T L F) : Slot R T L F → Option Nat
  | .hand => f.hand
  | .root r => f.root r
  | .table r d => f.table r d
  | .leaf r d i => (f.table r d).bind fun t => f.entry t i
  | .fixed k => f.fixed k

/-- No page is a directory or table, or kept out of the trees, in two ways. -/
def Apart (f : Forest R T L F) : Prop :=
  ∀ x y p, x.Structural → y.Structural → f.target x = some p → f.target y = some p → x = y

def Unused (f : Forest R T L F) (p : Nat) : Prop := ∀ x, f.target x ≠ some p

section Pages
variable {f : Forest R T L F}

theorem root_ne_table (apart : f.Apart) {r r' : Fin R} {d : Fin T} {p t : Nat}
    (hr : f.root r = some p) (ht : f.table r' d = some t) : p ≠ t := by
  intro same
  subst same
  have slots := apart (.root r) (.table r' d) p trivial trivial hr ht
  cases slots

theorem root_unique (apart : f.Apart) {r r' : Fin R} {p : Nat}
    (hr : f.root r = some p) (hr' : f.root r' = some p) : r = r' := by
  have slots := apart (.root r) (.root r') p trivial trivial hr hr'
  cases slots
  rfl

theorem table_unique (apart : f.Apart) {r r' : Fin R} {d d' : Fin T} {t : Nat}
    (ht : f.table r d = some t) (ht' : f.table r' d' = some t) : r = r' ∧ d = d' := by
  have slots := apart (.table r d) (.table r' d') t trivial trivial ht ht'
  cases slots
  exact ⟨rfl, rfl⟩

end Pages

section Changes
variable {f f' : Forest R T L F}

theorem target_congr (roots : f'.root = f.root) (fixed : f'.fixed = f.fixed)
    (hand : f'.hand = f.hand)
    (dirs : ∀ r p, f.root r = some p → ∀ d : Fin T, f'.entry p d = f.entry p d)
    (tables : ∀ r d t, f.table r d = some t → ∀ i : Fin L, f'.entry t i = f.entry t i) :
    f'.target = f.target := by
  have same_table : ∀ r d, f'.table r d = f.table r d := by
    intro r d
    unfold table
    rw [roots]
    cases hr : f.root r with
    | none => rfl
    | some p => exact dirs r p hr d
  funext x
  cases x with
  | hand => exact hand
  | root r => exact congrFun roots r
  | table r d => exact same_table r d
  | leaf r d i =>
    simp only [target]
    rw [same_table]
    cases ht : f.table r d with
    | none => rfl
    | some t => exact tables r d t ht i
  | fixed k => exact congrFun fixed k

theorem target_setLeaf (apart : f.Apart) {r : Fin R} {d : Fin T} {i : Fin L} {t : Nat}
    {v : Option Nat} (ht : f.table r d = some t)
    (roots : f'.root = f.root) (fixed : f'.fixed = f.fixed) (hand : f'.hand = f.hand)
    (written : f'.entry t i = v)
    (others : ∀ q j, q ≠ t ∨ j ≠ i.val → f'.entry q j = f.entry q j) :
    f'.target = Function.update f.target (.leaf r d i) v := by
  have same_table : ∀ r d, f'.table r d = f.table r d := by
    intro r' d'
    unfold table
    rw [roots]
    cases hr : f.root r' with
    | none => rfl
    | some p => exact others p d' (Or.inl (root_ne_table apart hr ht))
  funext x
  cases x with
  | hand => simpa [target] using hand
  | root r' => simpa [target] using congrFun roots r'
  | table r' d' => simpa [target] using same_table r' d'
  | fixed k => simpa [target] using congrFun fixed k
  | leaf r' d' i' =>
    by_cases here : Slot.leaf r' d' i' = (Slot.leaf r d i : Slot R T L F)
    · rw [here, Function.update_self]
      simp only [target]
      rw [same_table, ht]
      exact written
    · rw [Function.update_of_ne here]
      simp only [target]
      rw [same_table]
      cases ht' : f.table r' d' with
      | none => rfl
      | some t' =>
        apply others
        by_cases same : t' = t
        · right
          intro index
          subst same
          obtain ⟨rfl, rfl⟩ := table_unique apart ht ht'
          exact here (by rw [Fin.ext index])
        · exact Or.inl same

theorem table_elsewhere (apart : f.Apart) {r : Fin R} {d : Fin T} {p : Nat} (hr : f.root r = some p)
    (roots : f'.root = f.root)
    (others : ∀ r' q (j : Nat), f.root r' = some q → q ≠ p ∨ j ≠ d.val → f'.entry q j = f.entry q j) :
    ∀ r' d', Slot.table r' d' ≠ (Slot.table r d : Slot R T L F) → f'.table r' d' = f.table r' d' := by
  intro r' d' differ
  unfold table
  rw [roots]
  cases hq : f.root r' with
  | none => rfl
  | some q =>
    apply others r' q d' hq
    by_cases same : q = p
    · right
      intro index
      subst same
      have rows := root_unique apart hr hq
      subst rows
      exact differ (by rw [Fin.ext index])
    · exact Or.inl same

/-- Hanging an empty table that nobody uses into a directory adds this table and nothing else. -/
theorem target_attachTable (apart : f.Apart) {r : Fin R} {d : Fin T} {p t : Nat}
    (hr : f.root r = some p) (empty : f.table r d = none) (fresh : f.Unused t)
    (roots : f'.root = f.root) (fixed : f'.fixed = f.fixed) (hand : f'.hand = f.hand)
    (written : f'.entry p d = some t) (cleared : ∀ i : Fin L, f'.entry t i = none)
    (others : ∀ q j, q ≠ t → q ≠ p ∨ j ≠ d.val → f'.entry q j = f.entry q j) :
    f'.target = Function.update f.target (.table r d) (some t) := by
  have root_fresh : ∀ r' q, f.root r' = some q → q ≠ t := by
    intro r' q hq same
    subst same
    exact fresh (.root r') hq
  have same_table := table_elsewhere apart hr roots
    (fun r' q j hq elsewhere => others q j (root_fresh r' q hq) elsewhere)
  have new_table : f'.table r d = some t := by
    unfold table
    rw [roots, hr]
    exact written
  funext x
  cases x with
  | hand => simpa [target] using hand
  | root r' => simpa [target] using congrFun roots r'
  | fixed k => simpa [target] using congrFun fixed k
  | table r' d' =>
    by_cases here : Slot.table r' d' = (Slot.table r d : Slot R T L F)
    · rw [here, Function.update_self]
      exact new_table
    · rw [Function.update_of_ne here]
      exact same_table r' d' here
  | leaf r' d' i =>
    rw [Function.update_of_ne (by simp)]
    simp only [target]
    by_cases here : Slot.table r' d' = (Slot.table r d : Slot R T L F)
    · cases here
      rw [new_table, empty]
      exact cleared i
    · rw [same_table r' d' here]
      cases ht : f.table r' d' with
      | none => rfl
      | some t' =>
        have used : t' ≠ t := by
          intro same
          subst same
          exact fresh (.table r' d') ht
        exact others t' i used (Or.inl (root_ne_table apart hr ht).symm)

theorem target_detachTable (apart : f.Apart) {r : Fin R} {d : Fin T} {p : Nat}
    (hr : f.root r = some p) (vacant : ∀ i, f.target (.leaf r d i) = none)
    (roots : f'.root = f.root) (fixed : f'.fixed = f.fixed) (hand : f'.hand = f.hand)
    (written : f'.entry p d = none)
    (others : ∀ q j, q ≠ p ∨ j ≠ d.val → f'.entry q j = f.entry q j) :
    f'.target = Function.update f.target (.table r d) none := by
  have same_table := table_elsewhere apart hr roots (fun _ q j _ elsewhere => others q j elsewhere)
  have no_table : f'.table r d = none := by
    unfold table
    rw [roots, hr]
    exact written
  funext x
  cases x with
  | hand => simpa [target] using hand
  | root r' => simpa [target] using congrFun roots r'
  | fixed k => simpa [target] using congrFun fixed k
  | table r' d' =>
    by_cases here : Slot.table r' d' = (Slot.table r d : Slot R T L F)
    · rw [here, Function.update_self]
      exact no_table
    · rw [Function.update_of_ne here]
      exact same_table r' d' here
  | leaf r' d' i =>
    rw [Function.update_of_ne (by simp)]
    by_cases here : Slot.table r' d' = (Slot.table r d : Slot R T L F)
    · cases here
      rw [vacant i]
      simp only [target]
      rw [no_table]
      rfl
    · simp only [target]
      rw [same_table r' d' here]
      cases ht' : f.table r' d' with
      | none => rfl
      | some t' => exact others t' i (Or.inl (root_ne_table apart hr ht').symm)

theorem target_attachRoot {r : Fin R} {p : Nat}
    (empty : f.root r = none) (fresh : f.Unused p)
    (roots : f'.root = Function.update f.root r (some p)) (fixed : f'.fixed = f.fixed)
    (hand : f'.hand = f.hand) (cleared : ∀ d : Fin T, f'.entry p d = none)
    (others : ∀ q j, q ≠ p → f'.entry q j = f.entry q j) :
    f'.target = Function.update f.target (.root r) (some p) := by
  have same_table : ∀ r' d, f'.table r' d = f.table r' d := by
    intro r' d
    unfold table
    rw [roots]
    by_cases here : r' = r
    · subst here
      rw [Function.update_self, empty]
      exact cleared d
    · rw [Function.update_of_ne here]
      cases hq : f.root r' with
      | none => rfl
      | some q =>
        have used : q ≠ p := by
          intro same
          subst same
          exact fresh (.root r') hq
        exact others q d used
  funext x
  cases x with
  | hand => simpa [target] using hand
  | root r' =>
    by_cases here : r' = r
    · subst here
      rw [Function.update_self]
      simp [target, roots]
    · rw [Function.update_of_ne (by simpa using here)]
      simp [target, roots, here]
  | fixed k => simpa [target] using congrFun fixed k
  | table r' d => simpa [target] using same_table r' d
  | leaf r' d i =>
    rw [Function.update_of_ne (by simp)]
    simp only [target]
    rw [same_table]
    cases ht : f.table r' d with
    | none => rfl
    | some t =>
      have used : t ≠ p := by
        intro same
        subst same
        exact fresh (.table r' d) ht
      exact others t i used

theorem target_detachRoot {r : Fin R} (vacant : ∀ d, f.table r d = none)
    (roots : f'.root = Function.update f.root r none) (fixed : f'.fixed = f.fixed)
    (hand : f'.hand = f.hand) (entries : f'.entry = f.entry) :
    f'.target = Function.update f.target (.root r) none := by
  have same_table : ∀ r' d, f'.table r' d = f.table r' d := by
    intro r' d
    by_cases here : r' = r
    · subst here
      rw [vacant d]
      simp [table, roots]
    · simp [table, roots, here, entries]
  funext x
  cases x with
  | hand => simpa [target] using hand
  | root r' =>
    by_cases here : r' = r
    · subst here
      simp [target, roots]
    · simp [target, roots, here]
  | fixed k => simpa [target] using congrFun fixed k
  | table r' d => simpa [target] using same_table r' d
  | leaf r' d i => simp [target, same_table, entries]

theorem target_setFixed {k : Fin F} {t : Nat} (fresh : f.Unused t)
    (roots : f'.root = f.root) (fixed : f'.fixed = Function.update f.fixed k (some t))
    (hand : f'.hand = f.hand)
    (dirs : ∀ r p, f.root r = some p → p ≠ t → ∀ d : Fin T, f'.entry p d = f.entry p d)
    (tables : ∀ r d p, f.table r d = some p → p ≠ t → ∀ i : Fin L, f'.entry p i = f.entry p i) :
    f'.target = Function.update f.target (.fixed k) (some t) := by
  have same : (⟨f'.root, f'.entry, f.fixed, f'.hand⟩ : Forest R T L F).target = f.target := by
    refine target_congr roots rfl hand ?_ ?_
    · intro r p hr
      exact dirs r p hr fun same => fresh (.root r) (same ▸ hr)
    · intro r d p hp
      exact tables r d p hp fun same => fresh (.table r d) (same ▸ hp)
  funext x
  have at_x := congrFun same x
  cases x with
  | fixed k' =>
    by_cases here : k' = k
    · subst here
      simp [target, fixed]
    · simp [target, fixed, here]
  | hand => simpa [target] using at_x
  | root r => simpa [target] using at_x
  | table r d => simpa [target, table] using at_x
  | leaf r d i => simpa [target, table] using at_x

theorem target_setHand (roots : f'.root = f.root) (fixed : f'.fixed = f.fixed)
    (entries : f'.entry = f.entry) :
    f'.target = Function.update f.target .hand f'.hand := by
  funext x
  cases x <;> simp [target, table, roots, fixed, entries]

/-- Pages stay apart when one slot changes, if a structural slot changes to an unused page. -/
theorem apart_update (apart : f.Apart) {x : Slot R T L F} {v : Option Nat}
    (moved : f'.target = Function.update f.target x v)
    (fresh : x.Structural → ∀ t, v = some t → f.Unused t) : f'.Apart := by
  intro y z p sy sz hy hz
  rw [moved] at hy hz
  by_cases at_y : y = x
  · subst at_y
    by_cases at_z : z = y
    · exact at_z.symm
    · rw [Function.update_self] at hy
      rw [Function.update_of_ne at_z] at hz
      exact absurd hz (fresh sy p hy z)
  · rw [Function.update_of_ne at_y] at hy
    by_cases at_z : z = x
    · subst at_z
      rw [Function.update_self] at hz
      exact absurd hy (fresh sz p hz y)
    · rw [Function.update_of_ne at_z] at hz
      exact apart y z p sy sz hy hz

end Changes

section Counting

def slotKinds : Slot R T L F ≃
    Unit ⊕ Fin R ⊕ (Fin R × Fin T) ⊕ (Fin R × Fin T × Fin L) ⊕ Fin F where
  toFun
    | .hand => .inl ()
    | .root r => .inr (.inl r)
    | .table r d => .inr (.inr (.inl (r, d)))
    | .leaf r d i => .inr (.inr (.inr (.inl (r, d, i))))
    | .fixed k => .inr (.inr (.inr (.inr k)))
  invFun
    | .inl _ => .hand
    | .inr (.inl r) => .root r
    | .inr (.inr (.inl x)) => .table x.1 x.2
    | .inr (.inr (.inr (.inl x))) => .leaf x.1 x.2.1 x.2.2
    | .inr (.inr (.inr (.inr k))) => .fixed k
  left_inv x := by cases x <;> rfl
  right_inv x := by
    rcases x with _ | _ | _ | _ | _ <;> rfl

def leafRefs (f : Forest R T L F) (p : Nat) : Nat :=
  (Finset.univ.filter fun x : Fin R × Fin T × Fin L =>
    f.target (.leaf x.1 x.2.1 x.2.2) = some p).card

def tableRefs (f : Forest R T L F) (p : Nat) : Nat :=
  (Finset.univ.filter fun x : Fin R × Fin T => f.table x.1 x.2 = some p).card

def rootRefs (f : Forest R T L F) (p : Nat) : Nat :=
  (Finset.univ.filter fun r => f.root r = some p).card

def fixedRefs (f : Forest R T L F) (p : Nat) : Nat :=
  (Finset.univ.filter fun k => f.fixed k = some p).card

def fixedUsed (f : Forest R T L F) : Nat := (Finset.univ.filter fun k => f.fixed k ≠ none).card

theorem fixedUsed_point {f f' : Forest R T L F} {k : Fin F} {t : Nat} (empty : f.fixed k = none)
    (fixed : f'.fixed = Function.update f.fixed k (some t)) : f'.fixedUsed = f.fixedUsed + 1 := by
  have grown : (Finset.univ.filter fun k' => f'.fixed k' ≠ none) =
      insert k (Finset.univ.filter fun k' => f.fixed k' ≠ none) := by
    ext k'
    rw [fixed]
    by_cases same : k' = k
    · subst same
      simp
    · simp [same]
  unfold fixedUsed
  rw [grown, Finset.card_insert_of_notMem (by simp [empty])]

theorem refs_by_kind (f : Forest R T L F) (p : Nat) :
    refs f.target p = (if f.hand = some p then 1 else 0) + f.rootRefs p + f.tableRefs p +
      f.leafRefs p + f.fixedRefs p := by
  unfold refs leafRefs tableRefs rootRefs fixedRefs
  simp only [Finset.card_filter]
  rw [← Equiv.sum_comp slotKinds.symm]
  simp only [Fintype.sum_sum_type, slotKinds, Equiv.coe_fn_symm_mk, Finset.univ_unique,
    Finset.sum_singleton, Nat.add_assoc]
  rfl

def slotOf (r : Fin R) : Unit ⊕ Fin T ⊕ (Fin T × Fin L) → Slot R T L F
  | .inl _ => .root r
  | .inr (.inl d) => .table r d
  | .inr (.inr x) => .leaf r x.1 x.2

theorem slotOf_injective (r : Fin R) :
    Function.Injective (slotOf r : _ → Slot R T L F) := by
  intro x y same
  rcases x with _ | _ | ⟨d, i⟩ <;> rcases y with _ | _ | ⟨d', i'⟩ <;> cases same <;> rfl

def refsOf (f : Forest R T L F) (r : Fin R) (p : Nat) : Nat :=
  (Finset.univ.filter fun y => f.target (slotOf r y) = some p).card

theorem refsOf_by_kind (f : Forest R T L F) (r : Fin R) (p : Nat) :
    f.refsOf r p = (if f.root r = some p then 1 else 0) +
      (Finset.univ.filter fun d => f.table r d = some p).card +
      (Finset.univ.filter fun x : Fin T × Fin L => f.target (.leaf r x.1 x.2) = some p).card := by
  unfold refsOf
  simp only [Finset.card_filter, Fintype.sum_sum_type, Finset.univ_unique, Finset.sum_singleton,
    Nat.add_assoc]
  rfl

theorem refsOf_list (f : Forest R T L F) (r : Fin R) (p : Nat) {xs : List (Slot R T L F)}
    (once : xs.Nodup) (all : ∀ x, x ∈ xs ↔ ∃ y, slotOf r y = x) :
    (xs.filter fun x => decide (f.target x = some p)).length = f.refsOf r p := by
  rw [← List.toFinset_card_of_nodup (once.filter _)]
  unfold refsOf
  rw [← Finset.card_image_of_injective _ (slotOf_injective (F := F) r)]
  congr 1
  ext x
  simp only [List.mem_toFinset, List.mem_filter, decide_eq_true_eq, Finset.mem_image,
    Finset.mem_filter, Finset.mem_univ, true_and, all]
  constructor
  · intro both
    obtain ⟨⟨y, rfl⟩, held⟩ := both
    exact ⟨y, held, rfl⟩
  · intro one
    obtain ⟨y, held, rfl⟩ := one
    exact ⟨⟨y, rfl⟩, held⟩

end Counting

end Forest

end TableForest
