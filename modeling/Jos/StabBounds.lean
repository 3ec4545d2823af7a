import Jos.EventLog
import Jos.StabSearch

/- stab_binsearch on any table, sorted or not: which entries it reads, and how far it moves its two
   results. The reads are kept in a log. -/
namespace JosStabBounds
open JosKdebug JosStabSearch BackScan WhileLoop EventLog Logged

section Reads
variable (tab : Int → Stab) (type : Int)

def nType (i : Int) : Logged Int UInt8 := event i (some (tab i).nType)

def nValue (i : Int) : Logged Int UInt32 := event i (some (tab i).nValue)

def search (fuel : Nat) (left right : Int) (addr : UInt32) : Logged Int (Option (Int × Int)) :=
  stabBinsearch (nType tab) (nValue tab) fuel left right type addr

def Between (L R i : Int) : Prop := L ≤ i ∧ i ≤ R

theorem isType_result (i : Int) : (isType (nType tab) type i).result =
    some (isType (m := Id) (fun i => (tab i).nType) type i) := rfl

theorem step_result (q : Search) :
    (binsearchStep (nType tab) (nValue tab) type q).result = some (JosStabSearch.round tab type q) := by
  unfold JosStabSearch.round binsearchStep
  by_cases more : q.l ≤ q.r
  · have scan := back_result (isType_result tab type) (middle q.l q.r - q.l + 1).toNat (middle q.l q.r)
    rw [if_pos more, if_pos more]
    dsimp only
    rw [bind_result scan]
    split
    case isTrue below => exact congrArg some (if_pos below).symm
    case isFalse found => exact congrArg some (if_neg found).symm
  · rw [if_neg more, if_neg more]
    rfl

theorem search_result (fuel : Nat) (left right : Int) (addr : UInt32) :
    (search tab type fuel left right addr).result = some (binsearchIn tab type fuel left right addr) := by
  have looped := loop_result (step_result tab type) fuel ⟨left, right, left, right, false, addr⟩
  rw [binsearchIn_eq]
  unfold search stabBinsearch
  rw [bind_result looped]
  cases loop (m := Id) (JosStabSearch.round tab type) fuel ⟨left, right, left, right, false, addr⟩ with
  | none => rfl
  | some q =>
    unfold finish
    dsimp only [Option.map_some]
    by_cases met : q.anyMatches
    · have scan := back_result (isType_result tab type) (q.right - q.left).toNat q.right
      rw [if_pos met, if_pos met, bind_result scan]
      rfl
    · rw [if_neg met, if_neg met]
      rfl

end Reads

section Bounds
variable {tab : Int → Stab} {type L R : Int} {q q' : Search} {addr : UInt32} {fuel : Nat}

theorem isType_reads (i : Int) (inside : Between L R i) : Only (Between L R) (isType (nType tab) type i) := by
  intro e member
  rw [List.mem_singleton.mp member]
  exact inside

theorem step_reads (from_zero : 0 ≤ L) (small : R < 1073741824) (within : Within tab type L R q) :
    Only (Between L R) (binsearchStep (nType tab) (nValue tab) type q) := by
  have low := within.low
  have high := within.high
  unfold binsearchStep
  by_cases more : q.l ≤ q.r
  · have mid := middle_eq (by omega) more (by omega)
    rw [if_pos more, mid]
    dsimp only
    refine only_bind (only_back _ _ fun j after before => isType_reads j ⟨by omega, by omega⟩) ?_
    intro k ends
    rw [back_result (isType_result tab type)] at ends
    have highest : k ≤ (q.l + q.r) / 2 := by
      rcases back_spec (isType_stops tab type) (Option.some.inj ends) with found | ⟨bottom, _⟩
      · exact found.high
      · omega
    split
    case isTrue below => exact fun e member => by cases member
    case isFalse found =>
      refine only_bind ?_ fun v _ e member => by cases member
      intro e member
      rw [List.mem_singleton.mp member]
      exact ⟨by omega, by omega⟩
  · rw [if_neg more]
    exact fun e member => by cases member

structure Held (L R : Int) (q : Search) : Prop where
  low : L ≤ q.left
  unmet : q.anyMatches = false → q.left = L
  met : q.anyMatches = true → q.left ≤ R

theorem held_start (L R : Int) (addr : UInt32) : Held L R ⟨L, R, L, R, false, addr⟩ :=
  ⟨Int.le_refl L, fun _ => rfl, fun met => Bool.noConfusion met⟩

theorem held_next (within : Within tab type L R q) (held : Held L R q) (more : q.l ≤ q.r)
    (round : Round tab type q q') : Held L R q' := by
  have low := within.low
  have high := within.high
  have left : q.left ≤ R := by
    cases met : q.anyMatches with
    | false =>
      have start := held.unmet met
      omega
    | true => exact held.met met
  cases round with
  | absent none_here => exact ⟨held.low, held.unmet, held.met⟩
  | low found small =>
    have := found.low
    have := found.high
    exact ⟨by dsimp only; omega, fun unmet => Bool.noConfusion unmet, fun _ => by dsimp only; omega⟩
  | high found big => exact ⟨held.low, fun unmet => Bool.noConfusion unmet, fun _ => left⟩
  | exact found same =>
    have := found.low
    have := found.high
    exact ⟨by dsimp only; omega, fun unmet => Bool.noConfusion unmet, fun _ => by dsimp only; omega⟩

theorem search_reads (from_zero : 0 ≤ L) (small : R < 1073741824) (fuel : Nat) :
    Only (Between L R) (search tab type fuel L R addr) := by
  have keeps : ∀ q q', Within tab type L R q ∧ Held L R q →
      (binsearchStep (nType tab) (nValue tab) type q).result = some (some q') →
        Within tab type L R q' ∧ Held L R q' := by
    rintro q q' ⟨within, held⟩ next
    rw [step_result] at next
    obtain ⟨more, round⟩ := within_round from_zero small within (Option.some.inj next)
    exact ⟨within_next within more round, held_next within held more round⟩
  obtain ⟨events, ends⟩ := only_loop fuel (fun q => Within tab type L R q ∧ Held L R q)
    ⟨within_start, held_start L R addr⟩ (fun q held => step_reads from_zero small held.1) keeps
  unfold search stabBinsearch
  refine only_bind events ?_
  intro out looped
  cases out with
  | none => exact fun e member => by cases member
  | some q =>
    obtain ⟨⟨within, held⟩, _⟩ := ends q looped
    have low := held.low
    have right := within.right
    have high := within.high
    dsimp only
    split
    · refine only_bind (only_back _ _ fun j after before => isType_reads j ⟨by omega, by omega⟩) ?_
      exact fun l _ e member => by cases member
    · exact fun e member => by cases member

theorem finish_bounds (order : L ≤ R + 1) (within : Within tab type L R q) (held : Held L R q) :
    ∃ left right, finish tab type q = (left, right) ∧
      (L - 1 ≤ left ∧ (left ≤ R ∨ L = R + 1 ∧ left = L)) ∧ L - 1 ≤ right ∧ right ≤ R := by
  have right := within.right
  have high := within.high
  have bottom : L - 1 ≤ q.r := by
    by_cases last : q.r < R
    · have := (within.next last).1
      omega
    · omega
  cases met : q.anyMatches with
  | false =>
    have start := held.unmet met
    have unmoved : finish tab type q = (q.left, q.left - 1) := by
      unfold finish
      rw [met]
      rfl
    refine ⟨q.left, q.left - 1, unmoved, ⟨by omega, ?_⟩, by omega, by omega⟩
    omega
  | true =>
    have low := held.low
    have inside := held.met met
    obtain ⟨i, ends, crossed, apart⟩ := finish_met tab type met
    refine ⟨i, q.right, ends, ?_, by omega, by omega⟩
    by_cases order : q.right < q.left
    · have here := crossed order
      exact ⟨by omega, Or.inl (by omega)⟩
    · rcases apart (by omega) with found | ⟨here, _⟩
      · have := found.low
        have := found.high
        exact ⟨by omega, Or.inl (by omega)⟩
      · exact ⟨by omega, Or.inl (by omega)⟩

end Bounds

/-- On any table the search returns, reads entries of its range only, and leaves its results in the
    range or just below it; over an empty range it leaves left as it was. -/
theorem search_bounded (tab : Int → Stab) (type L R : Int) (addr : UInt32) (from_zero : 0 ≤ L)
    (order : L ≤ R + 1) (small : R < 1073741824) :
    (∀ fuel, ∀ i ∈ (search tab type fuel L R addr).log, L ≤ i ∧ i ≤ R) ∧
    ∀ fuel, 2 * (R + 1 - L).toNat + 1 < fuel →
      ∃ left right, (search tab type fuel L R addr).result = some (some (left, right)) ∧
        (L - 1 ≤ left ∧ (left ≤ R ∨ L = R + 1 ∧ left = L)) ∧ L - 1 ≤ right ∧ right ≤ R := by
  refine ⟨search_reads from_zero small, ?_⟩
  intro fuel enough
  obtain ⟨q, run, within, held, _⟩ := binsearchIn_total from_zero small (Held L R) (held_start L R addr)
    (fun q q' within held more round => held_next within held more round) enough
  obtain ⟨left, right, ends, bounds⟩ := finish_bounds order within held
  refine ⟨left, right, ?_, bounds⟩
  rw [search_result, run, ends]
def unsortedStabs (i : Int) : Stab := ⟨0, 0x44, 0, if i % 2 = 0 then 0xFFFFFFFF else 5⟩

/-- At the last address addr++ gives 0. -/
theorem search_bounded_wraps : ∃ left right,
    (search unsortedStabs N_SLINE 10 0 3 0xFFFFFFFF).result = some (some (left, right)) ∧
      ((0 : Int) - 1 ≤ left ∧ (left ≤ 3 ∨ (0 : Int) = 3 + 1 ∧ left = 0)) ∧ (0 : Int) - 1 ≤ right ∧ right ≤ 3 :=
  (search_bounded unsortedStabs N_SLINE 0 3 0xFFFFFFFF (by decide) (by decide) (by decide)).2 10
    (by decide)

/-- Over the empty range from 0 to -1 left stays 0. -/
theorem search_unbounded : ¬ ∀ (tab : Int → Stab) (type L R : Int) (addr : UInt32),
    0 ≤ L → L ≤ R + 1 → R < 1073741824 → ∃ bound, ∀ fuel, bound < fuel →
      (∀ i ∈ (search tab type fuel L R addr).log, L ≤ i ∧ i ≤ R) ∧
      ∃ left right, (search tab type fuel L R addr).result = some (some (left, right)) ∧
        (L - 1 ≤ left ∧ left ≤ R) ∧ L - 1 ≤ right ∧ right ≤ R := by
  intro claim
  obtain ⟨bound, runs⟩ := claim unsortedStabs N_SLINE 0 (-1) 0 (by decide) (by decide) (by decide)
  obtain ⟨_, left, right, run, inside, _⟩ := runs (bound + 1) (Nat.lt_succ_self bound)
  have empty : (search unsortedStabs N_SLINE (bound + 1) 0 (-1) 0).result = some (some (0, -1)) := rfl
  rw [empty] at run
  cases run
  exact absurd inside.2 (by decide)

end JosStabBounds
