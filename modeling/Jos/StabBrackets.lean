import Jos.StabSearch
import Mathlib.Logic.Relation

/- stab_binsearch on a table with an entry to find: the search that goes on after an exact match,
   for the address after it, and where it ends. -/
namespace JosStabBrackets
open JosLayout JosKdebug JosStabSearch BackScan

/-- left is the last entry of the type with an address up to a, and right is just before the next
    entry of the type, or R if there is none. -/
def Brackets (tab : Int → Stab) (type L R : Int) (a : Nat) (left right : Int) : Prop :=
  Latest (fun i => Of tab type i ∧ value tab i ≤ a) L R left ∧
    ((∃ n, left < n ∧ n ≤ R ∧ Of tab type n ∧ (∀ j, left < j → j < n → ¬ Of tab type j) ∧
        right = n - 1) ∨
      (∀ j, left < j → j ≤ R → ¬ Of tab type j) ∧ right = R)

/-- One step of a plain search for a, from the range (l, r), that does not meet a itself. -/
inductive Halving (tab : Int → Stab) (type : Int) (a : Nat) : Int × Int → Int × Int → Prop
  | absent {l r : Int} (more : l ≤ r) (none_here : ∀ j, l ≤ j → j ≤ (l + r) / 2 → ¬ Of tab type j) :
      Halving tab type a (l, r) ((l + r) / 2 + 1, r)
  | low {l r k : Int} (found : Latest (Of tab type) l ((l + r) / 2) k) (small : value tab k < a) :
      Halving tab type a (l, r) ((l + r) / 2 + 1, r)
  | high {l r k : Int} (found : Latest (Of tab type) l ((l + r) / 2) k) (big : a < value tab k) :
      Halving tab type a (l, r) (l, k - 1)

def Meets (tab : Int → Stab) (type : Int) (L R : Int) (a : Nat) (k r : Int) : Prop :=
  ∃ l, Relation.ReflTransGen (Halving tab type a) (L, R) (l, r) ∧
    Latest (Of tab type) l ((l + r) / 2) k ∧ value tab k = a

/-- After meeting a at k the search goes on for a + 1, and comes to another entry: a + 1 is 0, or
    the entry with a + 1 is still in the range. It does no harm if that entry is the next in the
    table and holds the last address of all. -/
def Slips (tab : Int → Stab) (type : Int) (L R : Int) (a : Nat) : Prop :=
  ∃ k r, Meets tab type L R a k r ∧
    (a + 1 = WORD ∨ ∃ n, k < n ∧ n ≤ r ∧ Of tab type n ∧ value tab n = a + 1 ∧
      ¬ (n = k + 1 ∧ a + 2 = WORD))

section Path
variable {tab : Int → Stab} {type L R : Int} {a : Nat} {k k' r r' : Int}

theorem halving_unique : Relator.RightUnique (Halving tab type a) := by
  intro x y z first second
  cases first with
  | absent more none_here =>
    cases second with
    | absent => rfl
    | low found small => rfl
    | high found big => exact absurd found.here (none_here _ found.low found.high)
  | low found small =>
    cases second with
    | absent => rfl
    | low => rfl
    | high found' big =>
      obtain rfl := found.unique found'
      omega
  | high found big =>
    cases second with
    | absent more none_here => exact absurd found.here (none_here _ found.low found.high)
    | low found' small =>
      obtain rfl := found.unique found'
      omega
    | high found' big' =>
      obtain rfl := found.unique found'
      rfl

theorem halving_stops {l : Int} {x : Int × Int} (found : Latest (Of tab type) l ((l + r) / 2) k)
    (same : value tab k = a) : ¬ Halving tab type a (l, r) x := by
  intro step
  cases step with
  | absent more none_here => exact none_here k found.low found.high found.here
  | low found' small =>
    obtain rfl := found.unique found'
    omega
  | high found' big =>
    obtain rfl := found.unique found'
    omega

theorem meets_unique (first : Meets tab type L R a k r) (second : Meets tab type L R a k' r') :
    k = k' ∧ r = r' := by
  obtain ⟨l, path, found, same⟩ := first
  obtain ⟨l', path', found', same'⟩ := second
  have equal : (l, r) = (l', r') := by
    rcases Relation.ReflTransGen.total_of_right_unique halving_unique path path' with onward | onward
    · cases onward.cases_head with
      | inl same_place => exact same_place
      | inr more => exact absurd more.choose_spec.1 (halving_stops found same)
    · cases onward.cases_head with
      | inl same_place => exact same_place.symm
      | inr more => exact absurd more.choose_spec.1 (halving_stops found' same')
  cases equal
  exact ⟨found.unique found', rfl⟩

theorem ended_unmet {l : Int} (path : Relation.ReflTransGen (Halving tab type a) (L, R) (l, r))
    (done : r < l) : ¬ Meets tab type L R a k r' := by
  rintro ⟨l', path', found, same⟩
  have some_left : l' ≤ r' := by
    have := found.low
    have := found.high
    omega
  rcases Relation.ReflTransGen.total_of_right_unique halving_unique path path' with onward | onward
  · rcases onward.cases_head with same_place | ⟨x, step, _⟩
    · cases same_place
      omega
    · cases step with
      | absent more none_here => omega
      | low found' small =>
        have := found'.low
        have := found'.high
        omega
      | high found' big =>
        have := found'.low
        have := found'.high
        omega
  · rcases onward.cases_head with same_place | ⟨x, step, _⟩
    · cases same_place
      omega
    · exact halving_stops found same step

end Path

/-- The search so far: what is before the range is too small, what is after it too big, and left
    is the last entry before the range, or the entry just met at its start. -/
structure Closing (tab : Int → Stab) (type L R : Int) (a : Nat) (q : Search) : Prop where
  below : ∀ j, L ≤ j → j < q.l → Of tab type j → value tab j < q.addr.toNat
  above : ∀ j, q.r < j → j ≤ R → Of tab type j → a < value tab j
  nearest : (∀ j, L ≤ j → j < q.l → ¬ Of tab type j) ∨
    (q.anyMatches = true ∧ L ≤ q.left ∧ (q.left < q.l ∨ q.left = q.l ∧ q.l ≤ q.r) ∧
      Of tab type q.left ∧ value tab q.left < q.addr.toNat ∧
      ∀ j, q.left < j → j < q.l → ¬ Of tab type j)

section Closing
variable {tab : Int → Stab} {type L R m : Int} {a : Nat} {q q' : Search}

theorem closing_absent (closing : Closing tab type L R a q) (more : q.l ≤ q.r)
    (none_here : ∀ j, q.l ≤ j → j ≤ (q.l + q.r) / 2 → ¬ Of tab type j) :
    Closing tab type L R a { q with l := (q.l + q.r) / 2 + 1 } := by
  obtain ⟨below, above, nearest⟩ := closing
  refine ⟨?_, above, ?_⟩
  · intro j from_start bound here
    dsimp only at bound ⊢
    by_cases before : j < q.l
    · exact below j from_start before here
    · exact absurd here (none_here j (by omega) (by omega))
  · rcases nearest with none_passed | ⟨met, from_start, place, here, small, none_between⟩
    · left
      intro j from_start bound
      dsimp only at bound
      by_cases before : j < q.l
      · exact none_passed j from_start before
      · exact none_here j (by omega) (by omega)
    · right
      have before_l : q.left < q.l := by
        rcases place with before | ⟨same, _⟩
        · exact before
        · exact absurd here (none_here q.left (by omega) (by omega))
      refine ⟨met, from_start, Or.inl (by dsimp only; omega), here, small, ?_⟩
      intro j after bound
      dsimp only at after bound
      by_cases before : j < q.l
      · exact none_between j after before
      · exact none_here j (by omega) (by omega)

theorem closing_next (rising : Rising tab type L R) (within : Within tab type L R q)
    (closing : Closing tab type L R a q) (sought : a ≤ q.addr.toNat) (more : q.l ≤ q.r)
    (round : Round tab type q q') (kept : q'.addr = q.addr) : Closing tab type L R a q' := by
  obtain ⟨below, above, nearest⟩ := closing
  have low := within.low
  have high := within.high
  cases round with
  | absent none_here => exact closing_absent ⟨below, above, nearest⟩ more none_here
  | @low k found small =>
    have k_low := found.low
    have k_high := found.high
    have k_here := found.here
    refine ⟨?_, above, Or.inr ⟨rfl, by dsimp only; omega, Or.inl (by dsimp only; omega), k_here, small, ?_⟩⟩
    · intro j from_start bound here
      dsimp only at bound ⊢
      have not_later : j ≤ k := found.le (by omega) here
      by_cases same : j = k
      · exact same ▸ small
      · exact Nat.lt_trans (rising j k from_start (by omega) (by omega) here k_here) small
    · intro j after bound
      dsimp only at after bound
      exact found.none_after j after (by omega)
  | @high k found big =>
    have k_low := found.low
    have k_high := found.high
    have k_here := found.here
    refine ⟨below, ?_, ?_⟩
    · intro j after bound here
      dsimp only at after
      by_cases same : j = k
      · rw [same]
        omega
      · have := rising k j (by omega) (by omega) bound k_here here
        omega
    · rcases nearest with none_passed | ⟨met, from_start, place, here, small, none_between⟩
      · exact Or.inl none_passed
      · refine Or.inr ⟨rfl, from_start, ?_, here, small, none_between⟩
        rcases place with before | ⟨same, _⟩
        · exact Or.inl before
        · refine Or.inr ⟨same, ?_⟩
          have other : k ≠ q.left := fun again => by
            rw [again] at big
            omega
          dsimp only
          omega
  | exact found same =>
    have moved : (q.addr + 1).toNat = q.addr.toNat := congrArg UInt32.toNat kept
    have one : (1 : UInt32).toNat = 1 := rfl
    rw [UInt32.toNat_add, one] at moved
    have := q.addr.toNat_lt
    omega

theorem closing_brackets (within : Within tab type L R q) (closing : Closing tab type L R a q)
    (sought : q.addr.toNat ≤ a + 1)
    (home : Latest (fun i => Of tab type i ∧ value tab i ≤ a) L R m) (done : q.r < q.l) :
    Brackets tab type L R a (finish tab type q).1 (finish tab type q).2 := by
  obtain ⟨m_here, m_small⟩ := home.here
  have passed : m < q.l := by
    by_contra ahead
    have := closing.above m (by omega) home.high m_here
    omega
  have in_range := home.low
  rcases closing.nearest with none_passed | ⟨met, from_start, place, here, small, none_between⟩
  · exact absurd m_here (none_passed m in_range passed)
  · have high := within.high
    have gap := within.gap
    have before : q.left < q.l := by
      rcases place with before | ⟨_, inside⟩
      · exact before
      · omega
    have left_home : q.left = m := by
      have not_later : q.left ≤ m := home.le (by omega) ⟨here, by omega⟩
      by_contra other
      exact none_between m (by omega) passed m_here
    obtain ⟨i, ends, _, apart⟩ := finish_met tab type met
    have right := within.right
    have found_left : i = q.left := by
      rcases apart (by omega) with found | ⟨bottom, _⟩
      · have := found.low
        have := found.high
        exact absurd found.here (none_between i (by omega) (by omega))
      · exact bottom
    rw [ends, found_left, left_home, right]
    refine ⟨home, ?_⟩
    by_cases moved : q.r < R
    · obtain ⟨_, next⟩ := within.next moved
      refine Or.inl ⟨q.r + 1, by omega, by omega, next, ?_, by omega⟩
      exact fun j after bound => none_between j (by omega) (by omega)
    · refine Or.inr ⟨fun j after bound => none_between j (by omega) (by omega), by omega⟩

end Closing

inductive Stage (tab : Int → Stab) (type L R : Int) (a : Nat) (m : Int) (q : Search) : Prop
  -- a has not been met
  | seeking (closing : Closing tab type L R a q) (addr : q.addr.toNat = a)
      (path : Relation.ReflTransGen (Halving tab type a) (L, R) (q.l, q.r))
  -- a has been met, and a + 1 is not to be met
  | settled (closing : Closing tab type L R a q) (addr : q.addr.toNat = a + 1)
      (none_more : ∀ j, q.l ≤ j → j ≤ q.r → Of tab type j → value tab j ≠ a + 1)
      (fine : ¬ Slips tab type L R a)
  -- a has been met, and a + 1 is going to be, at n
  | lured (n : Int) (after : m < n) (low : q.l ≤ n) (high : n ≤ q.r) (here : Of tab type n)
      (same : value tab n = a + 1) (addr : q.addr.toNat = a + 1)
      (slips : Slips tab type L R a ↔ ¬ (n = m + 1 ∧ a + 2 = WORD))
  -- a + 1 has been met too
  | astray (n : Int) (after : m < n) (met : q.anyMatches = true) (left : n ≤ q.left)
      (right : n ≤ q.right) (low : n ≤ q.l) (past : q.l = n → value tab n < q.addr.toNat)
      (slips : Slips tab type L R a)
  -- the last address of all has been met at k, and the search goes on for 0
  | wrapped (k : Int) (addr : q.addr.toNat = 0) (met : q.anyMatches = true) (left : q.left = k)
      (low : q.l = k) (here : Of tab type k) (last : value tab k + 1 = WORD) (bound : k ≤ R)
      (right : k ≤ q.r ∧ (∀ j, k < j → j ≤ q.r → ¬ Of tab type j) ∨ q.r = k - 1)
      (slips : k = m ∧ Slips tab type L R a ∨ m < k ∧ (Slips tab type L R a ↔ k ≠ m + 1))

section Stage
variable {tab : Int → Stab} {type L R m : Int} {a : Nat} {q q' : Search}

theorem rising_eq (rising : Rising tab type L R) {i j : Int} (i_low : L ≤ i) (i_high : i ≤ R)
    (j_low : L ≤ j) (j_high : j ≤ R) (i_here : Of tab type i) (j_here : Of tab type j)
    (same : value tab i = value tab j) : i = j := by
  rcases Int.lt_trichotomy i j with before | equal | after
  · have := rising i j i_low before j_high i_here j_here
    omega
  · exact equal
  · have := rising j i j_low after i_high j_here i_here
    omega

theorem next_addr (addr : UInt32) : (addr + 1).toNat = (addr.toNat + 1) % WORD := by
  rw [UInt32.toNat_add]
  rfl

theorem last_is_last (rising : Rising tab type L R) {k : Int} (low : L ≤ k) (here : Of tab type k)
    (last : value tab k + 1 = WORD) : ∀ j, k < j → j ≤ R → ¬ Of tab type j := by
  intro j after bound j_here
  have more := rising k j low after bound here j_here
  have small : value tab j < WORD := (tab j).nValue.toNat_lt
  omega

theorem seeking_exact (rising : Rising tab type L R) (within : Within tab type L R q)
    (home : Latest (fun i => Of tab type i ∧ value tab i ≤ a) L R m)
    (closing : Closing tab type L R a q) (addr : q.addr.toNat = a)
    (path : Relation.ReflTransGen (Halving tab type a) (L, R) (q.l, q.r)) {k : Int}
    (found : Latest (Of tab type) q.l ((q.l + q.r) / 2) k) (same : value tab k = q.addr.toNat) :
    Stage tab type L R a m { q with anyMatches := true, left := k, l := k, addr := q.addr + 1 } := by
  have k_low := found.low
  have k_high := found.high
  have here := found.here
  have low := within.low
  have high := within.high
  rw [addr] at same
  obtain rfl : k = m := by
    have not_later : k ≤ m := home.le (by omega) ⟨here, Nat.le_of_eq same⟩
    by_contra other
    have more := rising k m (by omega) (by omega) home.high here home.here.1
    have := home.here.2
    omega
  have meets : Meets tab type L R a k q.r := ⟨q.l, path, found, same⟩
  have next := next_addr q.addr
  rw [addr] at next
  have a_word : a < WORD := same ▸ (tab k).nValue.toNat_lt
  by_cases wraps : a + 1 = WORD
  · have last : value tab k + 1 = WORD := by omega
    refine .wrapped k ?_ rfl rfl rfl here last (by omega) (Or.inl ⟨by dsimp only; omega, ?_⟩)
      (Or.inl ⟨rfl, k, q.r, meets, Or.inl wraps⟩)
    · rw [next, wraps, Nat.mod_self]
    · exact fun j after bound => last_is_last rising (by omega) here last j after (by
        dsimp only at bound
        omega)
  · rw [Nat.mod_eq_of_lt (by omega)] at next
    by_cases more : ∃ n, k < n ∧ n ≤ q.r ∧ Of tab type n ∧ value tab n = a + 1
    · obtain ⟨n, after, bound, n_here, n_same⟩ := more
      refine .lured n after (Int.le_of_lt after) bound n_here n_same next ?_
      constructor
      · rintro ⟨k', r', meets', wraps' | ⟨n', after', bound', n'_here, n'_same, harm⟩⟩
        · exact absurd wraps' wraps
        · obtain ⟨rfl, rfl⟩ := meets_unique meets meets'
          obtain rfl := rising_eq rising (by omega) (by omega) (by omega) (by omega) n_here n'_here
            (n_same.trans n'_same.symm)
          exact harm
      · exact fun harm => ⟨k, q.r, meets, Or.inr ⟨n, after, bound, n_here, n_same, harm⟩⟩
    · have none_there : ∀ j, k ≤ j → j ≤ q.r → Of tab type j → value tab j ≠ a + 1 := by
        intro j from_k bound j_here j_same
        by_cases first : j = k
        · rw [first] at j_same
          omega
        · exact more ⟨j, by omega, bound, j_here, j_same⟩
      refine .settled ⟨?_, closing.above, Or.inr ⟨rfl, ?_, ?_, here, ?_, ?_⟩⟩ next none_there ?_
      · intro j from_start before j_here
        dsimp only at before ⊢
        rw [next]
        have := rising j k from_start before (by omega) j_here here
        omega
      · dsimp only
        omega
      · exact Or.inr ⟨rfl, by dsimp only; omega⟩
      · dsimp only
        rw [next]
        omega
      · exact fun j after before => absurd after (by dsimp only at before ⊢; omega)
      · rintro ⟨k', r', meets', wraps' | ⟨n, after, bound, n_here, n_same, _⟩⟩
        · exact wraps wraps'
        · obtain ⟨rfl, rfl⟩ := meets_unique meets meets'
          exact more ⟨n, after, bound, n_here, n_same⟩

theorem seeking_next (rising : Rising tab type L R) (within : Within tab type L R q)
    (home : Latest (fun i => Of tab type i ∧ value tab i ≤ a) L R m)
    (closing : Closing tab type L R a q) (addr : q.addr.toNat = a)
    (path : Relation.ReflTransGen (Halving tab type a) (L, R) (q.l, q.r)) (more : q.l ≤ q.r)
    (round : Round tab type q q') : Stage tab type L R a m q' := by
  have sought : a ≤ q.addr.toNat := Nat.le_of_eq addr.symm
  have goes_on : q'.addr = q.addr → Closing tab type L R a q' :=
    closing_next rising within closing sought more round
  cases round with
  | absent none_here => exact .seeking (goes_on rfl) addr (path.tail (.absent more none_here))
  | low found small =>
    rw [addr] at small
    exact .seeking (goes_on rfl) addr (path.tail (.low found small))
  | high found big =>
    rw [addr] at big
    exact .seeking (goes_on rfl) addr (path.tail (.high found big))
  | exact found same => exact seeking_exact rising within home closing addr path found same

theorem settled_next (rising : Rising tab type L R) (within : Within tab type L R q)
    (closing : Closing tab type L R a q) (addr : q.addr.toNat = a + 1)
    (none_more : ∀ j, q.l ≤ j → j ≤ q.r → Of tab type j → value tab j ≠ a + 1)
    (fine : ¬ Slips tab type L R a) (more : q.l ≤ q.r) (round : Round tab type q q') :
    Stage tab type L R a m q' := by
  have sought : a ≤ q.addr.toNat := by omega
  have goes_on : q'.addr = q.addr → Closing tab type L R a q' :=
    closing_next rising within closing sought more round
  cases round with
  | absent none_here =>
    exact .settled (goes_on rfl) addr (fun j low => none_more j (by dsimp only at low; omega)) fine
  | low found small =>
    exact .settled (goes_on rfl) addr (fun j low => none_more j (by dsimp only at low; omega)) fine
  | high found big =>
    have := found.high
    exact .settled (goes_on rfl) addr
      (fun j low high => none_more j low (by dsimp only at high; omega)) fine
  | @exact k found same =>
    have := found.low
    have := found.high
    exact absurd (same.trans addr) (none_more k (by omega) (by omega) found.here)

theorem lured_next (rising : Rising tab type L R) (within : Within tab type L R q) {n : Int}
    (after : m < n) (low : q.l ≤ n) (high : n ≤ q.r) (here : Of tab type n)
    (same : value tab n = a + 1) (addr : q.addr.toNat = a + 1)
    (slips : Slips tab type L R a ↔ ¬ (n = m + 1 ∧ a + 2 = WORD))
    (round : Round tab type q q') : Stage tab type L R a m q' := by
  have from_start := within.low
  have to_end := within.high
  cases round with
  | absent none_here =>
    refine .lured n after ?_ high here same addr slips
    dsimp only
    by_contra early
    exact none_here n low (by omega) here
  | @low k found small =>
    refine .lured n after ?_ high here same addr slips
    dsimp only
    by_contra early
    have not_later : n ≤ k := found.le (by omega) here
    have := found.high
    by_cases equal : n = k
    · rw [← equal] at small
      omega
    · have := rising n k (by omega) (by omega) (by omega) here found.here
      omega
  | @high k found big =>
    refine .lured n after low ?_ here same addr slips
    dsimp only
    have := found.low
    by_contra late
    by_cases equal : n = k
    · rw [← equal] at big
      omega
    · have := rising k n (by omega) (by omega) (by omega) found.here here
      omega
  | @exact k found k_same =>
    have := found.low
    have := found.high
    obtain rfl : k = n := rising_eq rising (by omega) (by omega) (by omega) (by omega) found.here here
      (by omega)
    have next := next_addr q.addr
    rw [addr] at next
    have small : value tab k < WORD := (tab k).nValue.toNat_lt
    have right := within.right
    by_cases wraps : a + 2 = WORD
    · have last : value tab k + 1 = WORD := by omega
      refine .wrapped k ?_ rfl rfl rfl here last (by omega) (Or.inl ⟨high, ?_⟩)
        (Or.inr ⟨after, slips.trans (by simp [wraps])⟩)
      · rw [next, wraps, Nat.mod_self]
      · exact fun j later bound => last_is_last rising (by omega) here last j later (by
          dsimp only at bound
          omega)
    · rw [Nat.mod_eq_of_lt (by omega)] at next
      refine .astray k after rfl (Int.le_refl k) (by dsimp only; omega) (Int.le_refl k) ?_
        (slips.mpr fun harmless => wraps harmless.2)
      intro _
      rw [next]
      omega

theorem astray_next {n : Int} (after : m < n)
    (met : q.anyMatches = true) (left : n ≤ q.left) (right : n ≤ q.right) (low : n ≤ q.l)
    (past : q.l = n → value tab n < q.addr.toNat) (slips : Slips tab type L R a)
    (more : q.l ≤ q.r) (round : Round tab type q q') : Stage tab type L R a m q' := by
  have later : ∀ k, q.l ≤ k → q.addr.toNat ≤ value tab k → n < k := by
    intro k k_low big
    by_contra early
    obtain rfl : k = n := by omega
    have := past (by omega)
    omega
  cases round with
  | absent none_here =>
    exact .astray n after met left right (by dsimp only; omega)
      (fun equal => absurd equal (by dsimp only; omega)) slips
  | low found small =>
    have := found.low
    have := found.high
    exact .astray n after rfl (by dsimp only; omega) right (by dsimp only; omega)
      (fun equal => absurd equal (by dsimp only; omega)) slips
  | high found big =>
    have := later _ found.low (Nat.le_of_lt big)
    exact .astray n after rfl left (by dsimp only; omega) low past slips
  | exact found same =>
    have := later _ found.low (Nat.le_of_eq same.symm)
    exact .astray n after rfl (by dsimp only; omega) right (by dsimp only; omega)
      (fun equal => absurd equal (by dsimp only; omega)) slips

theorem wrapped_next {k : Int} (addr : q.addr.toNat = 0)
    (left : q.left = k) (low : q.l = k) (here : Of tab type k) (last : value tab k + 1 = WORD)
    (bound : k ≤ R) (right : k ≤ q.r ∧ (∀ j, k < j → j ≤ q.r → ¬ Of tab type j) ∨ q.r = k - 1)
    (slips : k = m ∧ Slips tab type L R a ∨ m < k ∧ (Slips tab type L R a ↔ k ≠ m + 1))
    (more : q.l ≤ q.r) (round : Round tab type q q') : Stage tab type L R a m q' := by
  have none_after : ∀ j, k < j → j ≤ q.r → ¬ Of tab type j := by
    rcases right with ⟨_, none_after⟩ | crossed
    · exact none_after
    · omega
  have only : ∀ j, Latest (Of tab type) q.l ((q.l + q.r) / 2) j → j = k := by
    intro j found
    have := found.low
    have := found.high
    by_contra other
    exact none_after j (by omega) (by omega) found.here
  cases round with
  | absent none_here => exact absurd here (none_here k (by omega) (by omega))
  | low found small => omega
  | high found big =>
    obtain rfl := only _ found
    exact .wrapped _ addr rfl left low here last bound (Or.inr rfl) slips
  | exact found same =>
    obtain rfl := only _ found
    rw [same, addr] at last
    exact absurd last (by decide)

theorem stage_next (rising : Rising tab type L R) (within : Within tab type L R q)
    (home : Latest (fun i => Of tab type i ∧ value tab i ≤ a) L R m)
    (stage : Stage tab type L R a m q) (more : q.l ≤ q.r) (round : Round tab type q q') :
    Stage tab type L R a m q' := by
  cases stage with
  | seeking closing addr path => exact seeking_next rising within home closing addr path more round
  | settled closing addr none_more fine =>
    exact settled_next rising within closing addr none_more fine more round
  | lured n after low high here same addr slips =>
    exact lured_next rising within after low high here same addr slips round
  | astray n after met left right low past slips =>
    exact astray_next after met left right low past slips more round
  | wrapped k addr met left low here last bound right slips =>
    exact wrapped_next addr left low here last bound right slips more round

theorem stage_end (within : Within tab type L R q)
    (home : Latest (fun i => Of tab type i ∧ value tab i ≤ a) L R m)
    (stage : Stage tab type L R a m q) (done : q.r < q.l) :
    Brackets tab type L R a (finish tab type q).1 (finish tab type q).2 ↔
      ¬ Slips tab type L R a := by
  have q_right := within.right
  cases stage with
  | seeking closing addr path =>
    have found := closing_brackets within closing (by omega) home done
    refine iff_of_true found ?_
    rintro ⟨k, r, meets, _⟩
    exact ended_unmet path done meets
  | settled closing addr none_more fine =>
    exact iff_of_true (closing_brackets within closing (by omega) home done) fine
  | lured n after low high => omega
  | astray n after met left right low past slips =>
    refine iff_of_false ?_ (not_not.mpr slips)
    rintro ⟨found, _⟩
    obtain ⟨i, ends, crossed, apart⟩ := finish_met tab type met
    rw [ends] at found
    have astray : n ≤ i := by
      by_cases order : q.right < q.left
      · rw [crossed order]
        exact right
      · rcases apart (by omega) with later | ⟨bottom, _⟩
        · have := later.low
          omega
        · omega
    have := found.unique home
    omega
  | wrapped k addr met left low here last bound right slips =>
    obtain ⟨i, ends, crossed, _⟩ := finish_met tab type met
    have r_before : q.r = k - 1 := by
      rcases right with ⟨inside, _⟩ | before
      · omega
      · exact before
    have i_before : i = k - 1 := by
      rw [crossed (by omega)]
      omega
    rw [ends, i_before, q_right, r_before]
    rcases slips with ⟨same, slips⟩ | ⟨after, slips⟩
    · refine iff_of_false ?_ (not_not.mpr slips)
      rintro ⟨found, _⟩
      have := found.unique home
      omega
    · rw [slips, not_not]
      constructor
      · rintro ⟨found, _⟩
        have := found.unique home
        omega
      · intro next
        have same : k - 1 = m := by omega
        rw [same]
        refine ⟨home, Or.inl ⟨k, after, bound, here, ?_, by omega⟩⟩
        intro j above below
        omega

end Stage

section Presence
variable {tab : Int → Stab} {type L R : Int} {addr : UInt32} {fuel : Nat}

/-- With an entry up to addr, stab_binsearch brackets addr exactly when the search does not slip on
    from addr to the entry with the address after it. -/
theorem brackets_iff (space : InSpace L R) (rising : Rising tab type L R)
    (some_entry : ∃ i, L ≤ i ∧ i ≤ R ∧ Of tab type i ∧ value tab i ≤ addr.toNat)
    (enough : 2 * (R + 1 - L).toNat + 1 < fuel) :
    ∃ left right, binsearchIn tab type fuel L R addr = some (left, right) ∧
      (Brackets tab type L R addr.toNat left right ↔ ¬ Slips tab type L R addr.toNat) := by
  obtain ⟨m, home⟩ := latest_exists some_entry
  have closing : Closing tab type L R addr.toNat ⟨L, R, L, R, false, addr⟩ := by
    refine ⟨?_, ?_, Or.inl ?_⟩
    · exact fun j low before => absurd low (Int.not_le.mpr before)
    · exact fun j after high => absurd high (Int.not_le.mpr after)
    · exact fun j low before => absurd low (Int.not_le.mpr before)
  have start : Stage tab type L R addr.toNat m ⟨L, R, L, R, false, addr⟩ :=
    .seeking closing rfl .refl
  obtain ⟨from_zero, small⟩ := inSpace_small space
  obtain ⟨q, run, within, stage, done⟩ := binsearchIn_total from_zero small (Stage tab type L R addr.toNat m)
    start (fun q q' within stage more round => stage_next rising within home stage more round) enough
  exact ⟨_, _, run, stage_end within home stage done⟩

def someLines (i : Int) : Stab :=
  if i = 0 then ⟨0, 0x44, 1, 0⟩
  else if i = 1 then ⟨0, 0x44, 2, 1⟩
  else if i = 2 then ⟨0, 0x80, 0, 3⟩
  else if i = 3 then ⟨0, 0x44, 3, 6⟩
  else ⟨0, 0, 0, 0⟩

theorem someLines_rising : Rising someLines N_SLINE 0 3 := by
  intro i j low before high i_here j_here
  have i_cases : i = 0 ∨ i = 1 ∨ i = 2 := by omega
  have j_cases : j = 1 ∨ j = 2 ∨ j = 3 := by omega
  rcases i_cases with rfl | rfl | rfl
  · rcases j_cases with rfl | rfl | rfl
    · decide
    · exact absurd j_here (by decide)
    · decide
  · rcases j_cases with rfl | rfl | rfl
    · omega
    · exact absurd j_here (by decide)
    · decide
  · exact absurd i_here (by decide)

theorem brackets_iff_someLines : ∃ left right,
    binsearchIn someLines N_SLINE 10 0 3 4 = some (left, right) ∧
      (Brackets someLines N_SLINE 0 3 4 left right ↔ ¬ Slips someLines N_SLINE 0 3 4) :=
  brackets_iff ⟨by decide, by decide⟩ someLines_rising ⟨0, by decide, by decide, by decide, by decide⟩
    (by decide)

theorem brackets_missed : ¬ ∀ (tab : Int → Stab) (type L R : Int) (addr : UInt32) (fuel : Nat),
    InSpace L R → Rising tab type L R →
    (∃ i, L ≤ i ∧ i ≤ R ∧ Of tab type i ∧ value tab i ≤ addr.toNat) →
    2 * (R + 1 - L).toNat + 1 < fuel →
    ∃ left right, binsearchIn tab type fuel L R addr = some (left, right) ∧
      Brackets tab type L R addr.toNat left right := by
  intro claim
  have rising : Rising someLines N_SLINE 0 1 :=
    fun i j low before high => someLines_rising i j low before (by omega)
  obtain ⟨left, right, run, found, _⟩ := claim someLines N_SLINE 0 1 0 6 ⟨by decide, by decide⟩
    rising ⟨0, by decide, by decide, by decide, by decide⟩ (by decide)
  have ends : binsearchIn someLines N_SLINE 6 0 1 0 = some (1, 1) := by decide
  rw [ends] at run
  cases run
  exact absurd found.here.2 (by decide)

end Presence

end JosStabBrackets
