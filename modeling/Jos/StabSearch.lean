import Jos.Kdebug

/- stab_binsearch on a table of stabs: its rounds, that it returns, and what it shows where there is
   nothing to find. -/
namespace JosStabSearch
open JosLayout JosKdebug BackScan WhileLoop

section Table
variable (tab : Int → Stab) (type : Int)

/-- stab_binsearch, on a table every entry of which can be read. -/
def binsearchIn (fuel : Nat) (left right : Int) (addr : UInt32) : Option (Int × Int) :=
  stabBinsearch (m := Id) (fun i => (tab i).nType) (fun i => (tab i).nValue) fuel left right type addr

def Of (i : Int) : Prop := ((tab i).nType.toNat : Int) = type

instance (i : Int) : Decidable (Of tab type i) := inferInstanceAs (Decidable (_ = _))

theorem isType_stops (i : Int) : isType (m := Id) (fun i => (tab i).nType) type i = true ↔ Of tab type i :=
  decide_eq_true_iff

def value (i : Int) : Nat := (tab i).nValue.toNat

def Rising (L R : Int) : Prop :=
  ∀ i j, L ≤ i → i < j → j ≤ R → Of tab type i → Of tab type j → value tab i < value tab j

def round (q : Search) : Option Search :=
  binsearchStep (m := Id) (fun i => (tab i).nType) (fun i => (tab i).nValue) type q

def finish (q : Search) : Int × Int :=
  if q.anyMatches then
    (back (m := Id) (isType (fun i => (tab i).nType) type) (q.right - q.left).toNat q.right, q.right)
  else (q.left, q.left - 1)

theorem binsearchIn_eq (fuel : Nat) (left right : Int) (addr : UInt32) :
    binsearchIn tab type fuel left right addr =
      (loop (m := Id) (round tab type) fuel ⟨left, right, left, right, false, addr⟩).map
        (finish tab type) := by
  obtain ⟨x, looped⟩ : ∃ x, loop (m := Id) (round tab type) fuel
      ⟨left, right, left, right, false, addr⟩ = x := ⟨_, rfl⟩
  have run : loop (m := Id) (binsearchStep (fun i => (tab i).nType) (fun i => (tab i).nValue) type) fuel
      ⟨left, right, left, right, false, addr⟩ = x := looped
  rw [looped]
  unfold binsearchIn stabBinsearch
  rw [run]
  cases x with
  | none => rfl
  | some q =>
    change (if q.anyMatches then _ else _) = some (finish tab type q)
    unfold finish
    by_cases met : q.anyMatches
    · rw [if_pos met, if_pos met]
      rfl
    · rw [if_neg met, if_neg met]
      rfl

end Table

section Round
variable {tab : Int → Stab} {type : Int} {q q' : Search}

inductive Round (tab : Int → Stab) (type : Int) (q : Search) : Search → Prop
  | absent (none_here : ∀ j, q.l ≤ j → j ≤ (q.l + q.r) / 2 → ¬ Of tab type j) :
      Round tab type q { q with l := (q.l + q.r) / 2 + 1 }
  | low {k : Int} (found : Latest (Of tab type) q.l ((q.l + q.r) / 2) k)
      (small : value tab k < q.addr.toNat) :
      Round tab type q { q with anyMatches := true, left := k, l := (q.l + q.r) / 2 + 1 }
  | high {k : Int} (found : Latest (Of tab type) q.l ((q.l + q.r) / 2) k)
      (big : q.addr.toNat < value tab k) :
      Round tab type q { q with anyMatches := true, right := k - 1, r := k - 1 }
  | exact {k : Int} (found : Latest (Of tab type) q.l ((q.l + q.r) / 2) k)
      (same : value tab k = q.addr.toNat) :
      Round tab type q { q with anyMatches := true, left := k, l := k, addr := q.addr + 1 }

theorem round_done : round tab type q = none ↔ q.r < q.l := by
  unfold round binsearchStep
  by_cases more : q.l ≤ q.r
  · rw [if_pos more]
    constructor
    · intro ends
      obtain ⟨k, scan⟩ : ∃ k : Int, back (m := Id) (isType (fun i => (tab i).nType) type)
          (middle q.l q.r - q.l + 1).toNat (middle q.l q.r) = k := ⟨_, rfl⟩
      have ends : (if k < q.l then some { q with l := middle q.l q.r + 1 }
          else some (probe q (middle q.l q.r) k (tab k).nValue)) = none := by
        rw [← scan]
        exact ends
      split at ends
      · cases ends
      · cases ends
    · omega
  · rw [if_neg more]
    exact ⟨fun _ => by omega, fun _ => rfl⟩

theorem round_next (low : 0 ≤ q.l) (small : q.l + q.r < 2147483648)
    (next : round tab type q = some q') : q.l ≤ q.r ∧ Round tab type q q' := by
  have more : q.l ≤ q.r := by
    by_contra done
    rw [round_done.mpr (by omega)] at next
    cases next
  refine ⟨more, ?_⟩
  unfold round binsearchStep at next
  rw [if_pos more, middle_eq low more small] at next
  obtain ⟨k, scan⟩ : ∃ k : Int, back (m := Id) (isType (fun i => (tab i).nType) type)
      ((q.l + q.r) / 2 - q.l + 1).toNat ((q.l + q.r) / 2) = k := ⟨_, rfl⟩
  have next : (if k < q.l then some { q with l := (q.l + q.r) / 2 + 1 }
      else some (probe q ((q.l + q.r) / 2) k (tab k).nValue)) = some q' := by
    rw [← scan]
    exact next
  have lowest : (q.l + q.r) / 2 - (((q.l + q.r) / 2 - q.l + 1).toNat : Int) = q.l - 1 := by omega
  rcases back_spec (isType_stops tab type) scan with found | ⟨below, none_here⟩
  · rw [lowest, Int.sub_add_cancel] at found
    have from_l := found.low
    rw [if_neg (by omega)] at next
    cases next
    unfold probe
    dsimp only
    by_cases less : (tab k).nValue < q.addr
    · rw [if_pos less]
      exact .low found (UInt32.lt_iff_toNat_lt.mp less)
    · rw [if_neg less]
      by_cases greater : (tab k).nValue > q.addr
      · rw [if_pos greater]
        exact .high found (UInt32.lt_iff_toNat_lt.mp greater)
      · rw [if_neg greater]
        have ge : ¬ (tab k).nValue.toNat < q.addr.toNat := fun h => less (UInt32.lt_iff_toNat_lt.mpr h)
        have le : ¬ q.addr.toNat < (tab k).nValue.toNat := fun h =>
          greater (UInt32.lt_iff_toNat_lt.mpr h)
        exact .exact found (by unfold value; omega)
  · rw [lowest] at below
    rw [if_pos (by omega)] at next
    cases next
    exact .absent fun j after bound => none_here j (by omega) bound

end Round

def InSpace (L R : Int) : Prop := 0 ≤ L ∧ (R + 1) * STABSIZE ≤ WORD

/-- The part of the invariant that every run keeps: the range that is left, and the entry after it. -/
structure Within (tab : Int → Stab) (type L R : Int) (q : Search) : Prop where
  right : q.right = q.r
  low : L ≤ q.l
  gap : q.l ≤ q.r + 1 ∨ q.l = L
  high : q.r ≤ R
  next : q.r < R → L ≤ q.r + 1 ∧ Of tab type (q.r + 1)

section Within
variable {tab : Int → Stab} {type L R : Int} {q q' : Search} {addr : UInt32}

theorem within_start : Within tab type L R ⟨L, R, L, R, false, addr⟩ :=
  ⟨rfl, Int.le_refl L, Or.inr rfl, Int.le_refl R, fun more => absurd more (Int.lt_irrefl R)⟩

theorem within_next (within : Within tab type L R q) (more : q.l ≤ q.r)
    (round : Round tab type q q') : Within tab type L R q' := by
  obtain ⟨right, low, gap, high, next⟩ := within
  cases round with
  | absent none_here => exact ⟨right, by dsimp only; omega, Or.inl (by dsimp only; omega), high, next⟩
  | low found small => exact ⟨right, by dsimp only; omega, Or.inl (by dsimp only; omega), high, next⟩
  | high found big =>
    have := found.low
    have := found.high
    refine ⟨rfl, low, Or.inl (by dsimp only; omega), by dsimp only; omega, fun _ => ?_⟩
    dsimp only
    rw [Int.sub_add_cancel]
    exact ⟨by omega, found.here⟩
  | exact found same =>
    have := found.low
    have := found.high
    exact ⟨right, by dsimp only; omega, Or.inl (by dsimp only; omega), high, next⟩

def fresh (tab : Int → Stab) (type : Int) (q : Search) : Nat :=
  if Of tab type q.l ∧ (tab q.l).nValue + 1 = q.addr then 0 else 1

theorem fresh_le : fresh tab type q ≤ 1 := by
  unfold fresh
  split
  · exact Nat.zero_le 1
  · exact Nat.le_refl 1

def togo (tab : Int → Stab) (type : Int) (q : Search) : Nat :=
  2 * (q.r + 1 - q.l).toNat + fresh tab type q

theorem togo_next (more : q.l ≤ q.r) (round : Round tab type q q') :
    togo tab type q' < togo tab type q := by
  have flag : fresh tab type q' ≤ 1 := fresh_le
  unfold togo
  cases round with
  | absent none_here =>
    dsimp only at flag ⊢
    omega
  | low found small =>
    dsimp only at flag ⊢
    omega
  | high found big =>
    have := found.low
    have := found.high
    dsimp only at flag ⊢
    omega
  | @exact k found same =>
    have := found.low
    have := found.high
    have met : Of tab type k ∧ (tab k).nValue + 1 = q.addr + 1 :=
      ⟨found.here, by rw [UInt32.toNat_inj.mp same]⟩
    have just_met : fresh tab type ⟨k, q.r, k, q.right, true, q.addr + 1⟩ = 0 := if_pos met
    dsimp only
    rw [just_met]
    by_cases again : k = q.l
    · -- the entry at l can not be met twice in a row: addr has moved on
      have moved : ¬ (Of tab type q.l ∧ (tab q.l).nValue + 1 = q.addr) := by
        rintro ⟨_, before⟩
        have twice : (tab q.l).nValue.toNat = ((tab q.l).nValue + 1).toNat := by
          rw [before, ← same, again]
          rfl
        have one : (1 : UInt32).toNat = 1 := rfl
        rw [UInt32.toNat_add, one] at twice
        omega
      have first : fresh tab type q = 1 := if_neg moved
      omega
    · omega

theorem start_enough {fuel : Nat} (enough : 2 * (R + 1 - L).toNat + 1 < fuel) :
    togo tab type ⟨L, R, L, R, false, addr⟩ < fuel := by
  have flag : fresh tab type ⟨L, R, L, R, false, addr⟩ ≤ 1 := fresh_le
  unfold togo
  dsimp only
  omega

theorem inSpace_small (space : InSpace L R) : 0 ≤ L ∧ R < 1073741824 := by
  obtain ⟨from_zero, ends⟩ := space
  simp only [STABSIZE, WORD] at ends
  exact ⟨from_zero, by omega⟩

/-- The rounds that the loop makes between 0 and 2^30 go one of the ways of Round. -/
theorem within_round (from_zero : 0 ≤ L) (small : R < 1073741824) (within : Within tab type L R q)
    (next : JosStabSearch.round tab type q = some q') : q.l ≤ q.r ∧ Round tab type q q' := by
  have low := within.low
  have high := within.high
  have more : q.l ≤ q.r := by
    by_contra done
    rw [round_done.mpr (by omega)] at next
    cases next
  exact round_next (by omega) (by omega) next

theorem binsearchIn_total {fuel : Nat} (from_zero : 0 ≤ L) (small : R < 1073741824) (I : Search → Prop)
    (start : I ⟨L, R, L, R, false, addr⟩)
    (keeps : ∀ q q', Within tab type L R q → I q → q.l ≤ q.r → Round tab type q q' → I q')
    (enough : 2 * (R + 1 - L).toNat + 1 < fuel) :
    ∃ q, binsearchIn tab type fuel L R addr = some (finish tab type q) ∧
      Within tab type L R q ∧ I q ∧ q.r < q.l := by
  have keeps' : ∀ a b, Within tab type L R a ∧ I a → JosStabSearch.round tab type a = some b →
      (Within tab type L R b ∧ I b) ∧ togo tab type b < togo tab type a := by
    rintro a b ⟨within, held⟩ next
    obtain ⟨more, round⟩ := within_round from_zero small within next
    exact ⟨⟨within_next within more round, keeps a b within held more round⟩, togo_next more round⟩
  obtain ⟨q, run, ⟨within, held⟩, done⟩ := loop_total (fun q => Within tab type L R q ∧ I q)
    (togo tab type) ⟨within_start, start⟩ keeps' (start_enough enough)
  refine ⟨q, ?_, within, held, round_done.mp done⟩
  rw [binsearchIn_eq, run]
  rfl

theorem finish_met (tab : Int → Stab) (type : Int) (met : q.anyMatches = true) : ∃ i, finish tab type q = (i, q.right) ∧
    (q.right < q.left → i = q.right) ∧
    (q.left ≤ q.right → Latest (Of tab type) (q.left + 1) q.right i ∨
      i = q.left ∧ ∀ j, q.left < j → j ≤ q.right → ¬ Of tab type j) := by
  obtain ⟨i, scan⟩ : ∃ i : Int, back (m := Id) (isType (fun i => (tab i).nType) type)
      (q.right - q.left).toNat q.right = i := ⟨_, rfl⟩
  refine ⟨i, ?_, ?_, ?_⟩
  · unfold finish
    rw [if_pos met, scan]
  · intro crossed
    have none_left : (q.right - q.left).toNat = 0 := by omega
    rw [none_left] at scan
    exact scan.symm
  · intro apart
    have lowest : q.right - ((q.right - q.left).toNat : Int) = q.left := by omega
    have ends := back_spec (isType_stops tab type) scan
    rw [lowest] at ends
    rcases ends with found | ⟨bottom, none_there⟩
    · exact Or.inl found
    · refine Or.inr ⟨bottom, fun j after bound => none_there j (by omega) bound⟩

end Within

section Absence
variable {tab : Int → Stab} {type L R : Int} {q q' : Search} {addr : UInt32} {fuel : Nat}

structure NothingBelow (tab : Int → Stab) (type L R : Int) (addr : UInt32) (q : Search) : Prop where
  addr : q.addr = addr
  left : q.left = L
  none_passed : ∀ j, L ≤ j → j < q.l → ¬ Of tab type j
  met : q.anyMatches = true ↔ q.r < R

theorem nothingBelow_next (all_above : ∀ i, L ≤ i → i ≤ R → Of tab type i → addr.toNat < value tab i)
    (within : Within tab type L R q) (held : NothingBelow tab type L R addr q) (more : q.l ≤ q.r)
    (round : Round tab type q q') : NothingBelow tab type L R addr q' := by
  obtain ⟨same_addr, left, none_passed, met⟩ := held
  have low := within.low
  have high := within.high
  cases round with
  | absent none_here =>
    refine ⟨same_addr, left, ?_, met⟩
    intro j from_start bound
    dsimp only at bound
    by_cases before : j < q.l
    · exact none_passed j from_start before
    · exact none_here j (by omega) (by omega)
  | @low k found small =>
    have := found.low
    have := found.high
    have := all_above k (by omega) (by omega) found.here
    rw [same_addr] at small
    omega
  | high found big =>
    have := found.high
    exact ⟨same_addr, left, none_passed, iff_of_true rfl (by dsimp only; omega)⟩
  | @exact k found same =>
    have := found.low
    have := found.high
    have := all_above k (by omega) (by omega) found.here
    rw [same_addr] at same
    omega

/-- With every entry of the type above addr, left > right only if there is no such entry at all. -/
theorem absence_shown_iff (space : InSpace L R)
    (all_above : ∀ i, L ≤ i → i ≤ R → Of tab type i → addr.toNat < value tab i)
    (enough : 2 * (R + 1 - L).toNat + 1 < fuel) :
    ∃ left right, binsearchIn tab type fuel L R addr = some (left, right) ∧
      (left > right ↔ ∀ i, L ≤ i → i ≤ R → ¬ Of tab type i) := by
  have start : NothingBelow tab type L R addr ⟨L, R, L, R, false, addr⟩ :=
    ⟨rfl, rfl, fun j from_start before => by dsimp only at before; omega,
      iff_of_false Bool.false_ne_true (Int.lt_irrefl R)⟩
  obtain ⟨from_zero, small⟩ := inSpace_small space
  obtain ⟨q, run, within, held, done⟩ := binsearchIn_total from_zero small (NothingBelow tab type L R addr)
    start (fun q q' within held more round => nothingBelow_next all_above within held more round)
    enough
  have right := within.right
  have left := held.left
  cases met : q.anyMatches with
  | false =>
    have unmoved : ¬ q.r < R := fun moved => by
      rw [held.met.mpr moved] at met
      cases met
    have high := within.high
    refine ⟨q.left, q.left - 1, ?_, iff_of_true (by omega) ?_⟩
    · rw [run]
      unfold finish
      rw [met]
      rfl
    · exact fun i low bound => held.none_passed i low (by omega)
  | true =>
    have moved : q.r < R := held.met.mp met
    have gap := within.gap
    obtain ⟨i, ends, crossed, apart⟩ := finish_met tab type met
    have bounded : i ≤ q.right := by
      by_cases h : q.right < q.left
      · exact Int.le_of_eq (crossed h)
      · rcases apart (by omega) with found | ⟨bottom, _⟩
        · exact found.high
        · omega
    refine ⟨i, q.right, by rw [run, ends], iff_of_false (by omega) ?_⟩
    intro none_here
    obtain ⟨inside, here⟩ := within.next moved
    exact none_here (q.r + 1) inside (by omega) here

def oneStab (type : UInt8) (addr : UInt32) (i : Int) : Stab :=
  if i = 0 then ⟨1, type, 0, addr⟩ else ⟨0, 0, 0, 0⟩

theorem absence_shown_iff_otherType :
    ∃ left right, binsearchIn (oneStab 0x24 16) N_SO 4 0 0 8 = some (left, right) ∧
      (left > right ↔ ∀ i, 0 ≤ i → i ≤ 0 → ¬ Of (oneStab 0x24 16) N_SO i) :=
  absence_shown_iff ⟨by decide, by decide⟩
    (fun i low high here => by
      obtain rfl : i = 0 := by omega
      exact absurd here (by decide))
    (by decide)

/-- An entry above addr that is the first of its type at L: left and right end up equal. -/
theorem absence_unreported : ¬ ∀ (tab : Int → Stab) (type L R : Int) (addr : UInt32) (fuel : Nat),
    InSpace L R → Rising tab type L R →
    (∀ i, L ≤ i → i ≤ R → Of tab type i → addr.toNat < value tab i) →
    2 * (R + 1 - L).toNat + 1 < fuel →
    ∃ left right, binsearchIn tab type fuel L R addr = some (left, right) ∧ left > right := by
  intro claim
  have rising : Rising (oneStab 0x64 16) N_SO 0 0 := by
    intro i j low before high
    omega
  have all_above : ∀ i, 0 ≤ i → i ≤ 0 → Of (oneStab 0x64 16) N_SO i →
      (8 : UInt32).toNat < value (oneStab 0x64 16) i := by
    intro i low high here
    obtain rfl : i = 0 := by omega
    decide
  obtain ⟨left, right, run, crossed⟩ :=
    claim (oneStab 0x64 16) N_SO 0 0 8 4 ⟨by decide, by decide⟩ rising all_above (by decide)
  have ends : binsearchIn (oneStab 0x64 16) N_SO 4 0 0 8 = some (-1, -1) := by decide
  rw [ends] at run
  cases run
  exact absurd crossed (by decide)

end Absence

end JosStabSearch
