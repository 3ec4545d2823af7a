import Mathlib.Logic.Function.Basic
import Mathlib.Data.List.Nodup

/- Lists threaded through a link field of their own elements, read from a head pointer. -/
namespace IntrusiveList
variable {α : Type}

/-- xs is what a reader meets who follows next from head until the null pointer. -/
inductive Chain (next : α → Option α) : Option α → List α → Prop where
  | nil : Chain next none []
  | cons (a : α) (rest : List α) (tail : Chain next (next a) rest) :
      Chain next (some a) (a :: rest)

theorem chain_none {next : α → Option α} {xs : List α} : Chain next none xs ↔ xs = [] := by
  constructor
  · intro h
    cases h
    rfl
  · rintro rfl
    exact .nil

theorem chain_some {next : α → Option α} {a : α} {xs : List α} :
    Chain next (some a) xs ↔ ∃ rest, xs = a :: rest ∧ Chain next (next a) rest := by
  constructor
  · intro h
    cases h with
    | cons a rest tail => exact ⟨rest, rfl, tail⟩
  · rintro ⟨rest, rfl, tail⟩
    exact .cons a rest tail

theorem chain_nil_head {next : α → Option α} {head : Option α} (h : Chain next head []) :
    head = none := by
  cases h
  rfl

theorem chain_cons_head {next : α → Option α} {head : Option α} {a : α} {rest : List α}
    (h : Chain next head (a :: rest)) : head = some a ∧ Chain next (next a) rest := by
  cases h with
  | cons _ _ tail => exact ⟨rfl, tail⟩

theorem chain_unique {next : α → Option α} {head : Option α} {xs ys : List α}
    (hx : Chain next head xs) (hy : Chain next head ys) : xs = ys := by
  induction hx generalizing ys with
  | nil => exact (chain_none.mp hy).symm
  | cons a rest _ ih =>
    obtain ⟨rest', rfl, tail⟩ := chain_some.mp hy
    rw [ih tail]

theorem chain_congr {next next' : α → Option α} {head : Option α} {xs : List α}
    (h : Chain next head xs) (same : ∀ a ∈ xs, next' a = next a) : Chain next' head xs := by
  induction h with
  | nil => exact .nil
  | cons a rest tail ih =>
    refine .cons a rest ?_
    rw [same a (by simp)]
    exact ih (fun b hb => same b (by simp [hb]))

theorem chain_push [DecidableEq α] {next : α → Option α} {head : Option α} {xs : List α} {a : α}
    (h : Chain next head xs) (fresh : a ∉ xs) :
    Chain (Function.update next a head) (some a) (a :: xs) := by
  refine .cons a xs ?_
  rw [Function.update_self]
  refine chain_congr h ?_
  intro b hb
  have differ : b ≠ a := by
    rintro rfl
    exact fresh hb
  exact Function.update_of_ne differ _ _

end IntrusiveList
