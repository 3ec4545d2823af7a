import Jos.BootPages

/- Memory before the page allocator: what boot_alloc hands out over a sequence of requests, and which
   pages page_init frees. -/
namespace JosBootMemory
open JosLayout FrameWords JosMachine JosPmap JosBoot JosBootPages CountedLoop

def bootAllocs : List UInt32 → State → Except Panic (List Nat × State)
  | [], s => .ok ([], s)
  | n :: rest, s => do
    let (chunk, s) ← bootAlloc s n.toNat
    let (chunks, s) ← bootAllocs rest s
    .ok (chunk :: chunks, s)

def memEnd (s : State) : Nat := KERNBASE + s.npages * PGSIZE

def firstFree (s : State) : Nat := (s.kernEnd + 4095) / 4096 * 4096

/-- What an allocator that counts without wrapping hands out from next on, unless a request does not
    fit below limit. -/
def chunks (limit : Nat) : Nat → List UInt32 → Option (List Nat)
  | _, [] => some []
  | next, n :: rest =>
    if next + wholePages n.toNat ≤ limit then
      (chunks limit (next + wholePages n.toNat) rest).map (next :: ·)
    else none

/-- boot_alloc hands out these chunks, and panics if there are none. -/
def Right (s : State) (next : Nat) (requests : List UInt32) : Prop :=
  match chunks (memEnd s) next requests with
  | some addrs => ∃ s', bootAllocs requests s = .ok (addrs.map (· % WORD), s')
  | none => bootAllocs requests s = .error .outOfMemory

def CorrectFrom (s : State) (next : Nat) (requests : List UInt32) : Prop :=
  ∀ given later, requests = given ++ later → Right s next given

def Correct (s : State) (requests : List UInt32) : Prop := CorrectFrom s (firstFree s) requests

def NoWrap (limit : Nat) : Nat → List UInt32 → Prop
  | _, [] => True
  | next, n :: rest => next + wholePages n.toNat < WORD ∧
      (next + wholePages n.toNat ≤ limit → NoWrap limit (next + wholePages n.toNat) rest)

/-- With exactly 256MB: the first request for memory does not fit, or takes all there is and is
    followed by none or by one for another amount. -/
def AtTop (first : Nat) : List UInt32 → Prop
  | [] => True
  | n :: rest =>
    if n.toNat = 0 then AtTop first rest
    else WORD < first + wholePages n.toNat ∧ first + wholePages n.toNat < 2 * WORD ∨
      first + wholePages n.toNat = WORD ∧
        ∀ m ∈ rest.head?, m.toNat ≠ 0 ∧ first + wholePages m.toNat ≠ WORD

theorem wholePages_ge (n : Nat) : n ≤ wholePages n := by
  unfold wholePages
  omega

theorem wholePages_zero : wholePages 0 = 0 := rfl

theorem wholePages_positive {n : Nat} (some_bytes : n ≠ 0) : 4096 ≤ wholePages n := by
  unfold wholePages
  omega

theorem wholePages_word (n : UInt32) : wholePages n.toNat ≤ 4294967296 := by
  have := n.toNat_lt
  unfold wholePages
  omega

theorem wholePages_aligned {next : Nat} (aligned : next % 4096 = 0) (n : Nat) :
    (next + wholePages n) % 4096 = 0 := by
  unfold wholePages
  omega

theorem chunks_sound {limit next : Nat} {requests : List UInt32} {addrs : List Nat}
    (aligned : next % 4096 = 0) (given : chunks limit next requests = some addrs) :
    addrs.length = requests.length ∧
      (∀ c ∈ addrs.zip requests, c.1 % 4096 = 0 ∧ next ≤ c.1 ∧ c.1 + c.2.toNat ≤ limit) ∧
      (addrs.zip requests).Pairwise fun c d => c.1 + c.2.toNat ≤ d.1 := by
  induction requests generalizing next addrs with
  | nil =>
    cases given
    simp
  | cons n rest ih =>
    unfold chunks at given
    split at given
    · rename_i fits
      obtain ⟨later, tail, rfl⟩ := Option.map_eq_some_iff.mp given
      have page := wholePages_aligned aligned n.toNat
      obtain ⟨length, bounds, apart⟩ := ih page tail
      have enough := wholePages_ge n.toNat
      refine ⟨by simp [length], ?_, ?_⟩
      · intro c member
        rw [List.zip_cons_cons, List.mem_cons] at member
        obtain rfl | old := member
        · exact ⟨aligned, Nat.le_refl _, by dsimp only; omega⟩
        · obtain ⟨even, above, below⟩ := bounds c old
          exact ⟨even, by omega, below⟩
      · rw [List.zip_cons_cons, List.pairwise_cons]
        refine ⟨?_, apart⟩
        intro c member
        have above := (bounds c member).2.1
        dsimp only
        omega
    · cases given

/- One request. -/
theorem roundUp_next {c n : Nat} (aligned : c % 4096 = 0) :
    roundUp ((c + n) % WORD) PGSIZE = (c + wholePages n) % WORD := by
  simp only [roundUp, roundDown_eq, wholePages, WORD, PGSIZE]
  omega

theorem roundUp_first (s : State) : roundUp s.kernEnd PGSIZE = firstFree s % WORD := by
  simp only [roundUp, roundDown_eq, firstFree, WORD, PGSIZE]
  omega

theorem bootAlloc_none (s : State) : ∃ s', bootAlloc s 0 = .ok (bootNext s, s') ∧
    bootNext s' = bootNext s ∧ s'.npages = s.npages ∧ s'.kernEnd = s.kernEnd := by
  unfold bootAlloc bootNext
  by_cases start : s.nextfree = 0
  · refine ⟨{ s with nextfree := roundUp s.kernEnd PGSIZE }, by simp [start], ?_, rfl, rfl⟩
    rw [if_pos start]
    dsimp only
    split <;> rfl
  · exact ⟨s, by simp [start], rfl, rfl, rfl⟩

theorem bootAlloc_some {s : State} {n : Nat} (some_bytes : n ≠ 0) (aligned : bootNext s % 4096 = 0) :
    bootAlloc s n = if (bootNext s + wholePages n) % WORD > memEnd s % WORD then .error .outOfMemory
      else .ok (bootNext s, { s with nextfree := (bootNext s + wholePages n) % WORD }) := by
  rw [bootAlloc_eq some_bytes, roundUp_next aligned]
  rfl

/- A run is as good as its first request and the run after it. -/
section FirstRequest
variable {s s' : State} {next r : Nat} {n : UInt32} {rest : List UInt32}

theorem right_nil (s : State) (next : Nat) : Right s next [] := ⟨s, rfl⟩

theorem bootAllocs_error {e : Panic} (panics : bootAlloc s n.toNat = .error e) :
    bootAllocs (n :: rest) s = .error e := by
  unfold bootAllocs
  rw [panics]
  rfl

theorem bootAllocs_ok (run : bootAlloc s n.toNat = .ok (r, s')) :
    bootAllocs (n :: rest) s = (bootAllocs rest s').map fun later => (r :: later.1, later.2) := by
  rw [bootAllocs, run, ok_bind]
  dsimp only
  cases bootAllocs rest s' <;> rfl

theorem correct_refused (large : ¬ next + wholePages n.toNat ≤ memEnd s)
    (panics : bootAlloc s n.toNat = .error .outOfMemory) : CorrectFrom s next (n :: rest) := by
  intro given later split
  cases given with
  | nil => exact right_nil s next
  | cons m more =>
    obtain ⟨rfl, _⟩ := List.cons.inj split
    have none : chunks (memEnd s) next (n :: more) = none := if_neg large
    unfold Right
    rw [none]
    exact bootAllocs_error panics

theorem correct_given (fits : next + wholePages n.toNat ≤ memEnd s)
    (run : bootAlloc s n.toNat = .ok (next % WORD, s')) (same : memEnd s' = memEnd s) :
    CorrectFrom s next (n :: rest) ↔ CorrectFrom s' (next + wholePages n.toNat) rest := by
  have step : ∀ given, Right s next (n :: given) ↔ Right s' (next + wholePages n.toNat) given := by
    intro given
    unfold Right
    rw [chunks, if_pos fits, same, bootAllocs_ok run]
    cases chunks (memEnd s) (next + wholePages n.toNat) given with
    | none => cases bootAllocs given s' <;> simp [Except.map]
    | some addrs =>
      cases bootAllocs given s' with
      | error e => simp [Except.map]
      | ok later =>
        obtain ⟨more, last⟩ := later
        simp [Except.map]
  constructor
  · intro correct given later split
    exact (step given).mp (correct (n :: given) later (by rw [split]; rfl))
  · intro correct given later split
    cases given with
    | nil => exact right_nil s next
    | cons m more =>
      obtain ⟨rfl, tail⟩ := List.cons.inj split
      exact (step more).mpr (correct more later tail)

/- The first request alone already goes wrong. -/
theorem wrong_panic (fits : next + wholePages n.toNat ≤ memEnd s) {e : Panic}
    (panics : bootAlloc s n.toNat = .error e) : ¬ CorrectFrom s next (n :: rest) := by
  intro correct
  have right := correct [n] rest rfl
  have given : chunks (memEnd s) next [n] = some [next] := by rw [chunks, if_pos fits]; rfl
  unfold Right at right
  rw [given] at right
  obtain ⟨s', run⟩ := right
  rw [bootAllocs_error panics] at run
  cases run

theorem wrong_grant (large : ¬ next + wholePages n.toNat ≤ memEnd s)
    (run : bootAlloc s n.toNat = .ok (r, s')) : ¬ CorrectFrom s next (n :: rest) := by
  intro correct
  have right := correct [n] rest rfl
  have none : chunks (memEnd s) next [n] = none := if_neg large
  unfold Right at right
  rw [none, bootAllocs_ok run] at right
  cases right

theorem wrong_place (fits : next + wholePages n.toNat ≤ memEnd s)
    (run : bootAlloc s n.toNat = .ok (r, s')) (elsewhere : r ≠ next % WORD) :
    ¬ CorrectFrom s next (n :: rest) := by
  intro correct
  have right := correct [n] rest rfl
  have given : chunks (memEnd s) next [n] = some [next] := by rw [chunks, if_pos fits]; rfl
  unfold Right at right
  rw [given, bootAllocs_ok run] at right
  obtain ⟨last, same⟩ := right
  obtain ⟨place, _⟩ := Prod.mk.inj (Except.ok.inj same)
  exact elsewhere (List.cons.inj place).1

end FirstRequest

section BelowTop
variable {s : State} {next n : Nat} {requests : List UInt32}

theorem bootAlloc_fit (low : memEnd s < WORD) (here : bootNext s = next) (aligned : next % 4096 = 0)
    (positive : 0 < next) (fits : next + wholePages n ≤ memEnd s) :
    ∃ s', bootAlloc s n = .ok (next, s') ∧ bootNext s' = next + wholePages n ∧ memEnd s' = memEnd s := by
  by_cases zero : n = 0
  · obtain ⟨s', run, next', npages, kernEnd⟩ := bootAlloc_none s
    refine ⟨s', ?_, ?_, by unfold memEnd; rw [npages]⟩
    · rw [zero, run, here]
    · rw [next', here, zero, wholePages_zero]
      rfl
  · have limit : memEnd s % WORD = memEnd s := Nat.mod_eq_of_lt low
    have sum : (next + wholePages n) % WORD = next + wholePages n :=
      Nat.mod_eq_of_lt (Nat.lt_of_le_of_lt fits low)
    refine ⟨{ s with nextfree := next + wholePages n }, ?_, ?_, rfl⟩
    · rw [bootAlloc_some zero (here ▸ aligned), here, limit, sum, if_neg (by omega)]
    · exact if_neg (by dsimp only; omega)

theorem bootAlloc_panics (low : memEnd s < WORD) (here : bootNext s = next) (aligned : next % 4096 = 0)
    (large : ¬ next + wholePages n ≤ memEnd s) (inside : next ≤ memEnd s)
    (word : next + wholePages n < WORD) : bootAlloc s n = .error .outOfMemory := by
  have some_bytes : n ≠ 0 := by
    rintro rfl
    exact large inside
  have limit : memEnd s % WORD = memEnd s := Nat.mod_eq_of_lt low
  rw [bootAlloc_some some_bytes (here ▸ aligned), here, limit, Nat.mod_eq_of_lt word, if_pos (by omega)]

theorem bootAlloc_wraps (n : UInt32) (low : memEnd s < WORD) (here : bootNext s = next)
    (aligned : next % 4096 = 0) (inside : next ≤ memEnd s) (wraps : ¬ next + wholePages n.toNat < WORD) :
    ∃ s', bootAlloc s n.toNat = .ok (next, s') := by
  have some_bytes : n.toNat ≠ 0 := by
    intro zero
    rw [zero] at wraps
    exact wraps (Nat.lt_of_le_of_lt inside low)
  have limit : memEnd s % WORD = memEnd s := Nat.mod_eq_of_lt low
  have large := wholePages_word n
  have word : memEnd s < 4294967296 := low
  have wraps' : ¬ next + wholePages n.toNat < 4294967296 := wraps
  have sum : (next + wholePages n.toNat) % WORD = next + wholePages n.toNat - 4294967296 := by
    change (next + wholePages n.toNat) % 4294967296 = _
    omega
  refine ⟨{ s with nextfree := next + wholePages n.toNat - 4294967296 }, ?_⟩
  rw [bootAlloc_some some_bytes (here ▸ aligned), here, limit, sum, if_neg (by omega)]

theorem below_top (low : memEnd s < WORD) (here : bootNext s = next) (aligned : next % 4096 = 0)
    (positive : 0 < next) (inside : next ≤ memEnd s) :
    CorrectFrom s next requests ↔ NoWrap (memEnd s) next requests := by
  induction requests generalizing s next with
  | nil =>
    refine iff_of_true ?_ trivial
    intro given later split
    obtain ⟨rfl, _⟩ := List.append_eq_nil_iff.mp split.symm
    exact right_nil s next
  | cons n rest ih =>
    have word : next % WORD = next := Nat.mod_eq_of_lt (Nat.lt_of_le_of_lt inside low)
    unfold NoWrap
    by_cases fits : next + wholePages n.toNat ≤ memEnd s
    · obtain ⟨s', run, next', same⟩ := bootAlloc_fit low here aligned positive fits
      have page := wholePages_aligned aligned n.toNat
      have positive' : 0 < next + wholePages n.toNat := Nat.lt_of_lt_of_le positive (Nat.le_add_right _ _)
      have run' : bootAlloc s n.toNat = .ok (next % WORD, s') := by rw [word, run]
      have tail := ih (by rw [same]; exact low) next' page positive' (by rw [same]; exact fits)
      rw [same] at tail
      refine (correct_given fits run' same).trans (tail.trans ?_)
      exact ⟨fun rest => ⟨Nat.lt_of_le_of_lt fits low, fun _ => rest⟩, fun both => both.2 fits⟩
    · by_cases small : next + wholePages n.toNat < WORD
      · refine iff_of_true ?_ ⟨small, fun fit => absurd fit fits⟩
        exact correct_refused fits (bootAlloc_panics low here aligned fits inside small)
      · refine iff_of_false ?_ fun both => small both.1
        obtain ⟨s', run⟩ := bootAlloc_wraps n low here aligned inside small
        exact wrong_grant fits run

end BelowTop

/- Exactly 256MB: the limit is 2^32 and reads as 0. -/
section AtTop
variable {s : State} {next : Nat} {requests : List UInt32}

theorem bootAlloc_top {n : Nat} (full : memEnd s = WORD) (some_bytes : n ≠ 0)
    (aligned : bootNext s % 4096 = 0) : bootAlloc s n =
      if (bootNext s + wholePages n) % WORD = 0 then .ok (bootNext s, { s with nextfree := 0 })
      else .error .outOfMemory := by
  have limit : memEnd s % WORD = 0 := by rw [full, Nat.mod_self]
  rw [bootAlloc_some some_bytes aligned, limit]
  by_cases zero : (bootNext s + wholePages n) % WORD = 0
  · rw [if_pos zero, zero, if_neg (Nat.lt_irrefl 0)]
  · rw [if_neg zero, if_pos (Nat.pos_of_ne_zero zero)]

theorem zero_request (full : memEnd s = WORD) (here : bootNext s = next % WORD) (inside : next ≤ WORD)
    {n : UInt32} (zero : n.toNat = 0) : ∃ s', bootNext s' = next % WORD ∧ memEnd s' = WORD ∧
      s'.kernEnd = s.kernEnd ∧ (CorrectFrom s next (n :: requests) ↔ CorrectFrom s' next requests) := by
  obtain ⟨s', run, next', npages, kernEnd⟩ := bootAlloc_none s
  have same : memEnd s' = memEnd s := by unfold memEnd; rw [npages]
  have none : next + wholePages n.toNat = next := by rw [zero, wholePages_zero]; rfl
  have fits : next + wholePages n.toNat ≤ memEnd s := by rw [none, full]; exact inside
  refine ⟨s', by rw [next', here], by rw [same, full], kernEnd, ?_⟩
  have step := @correct_given s s' next n requests fits (by rw [zero, run, here]) same
  rw [none] at step
  exact step

theorem correct_nil (s : State) (next : Nat) : CorrectFrom s next [] := by
  intro given later split
  obtain ⟨rfl, _⟩ := List.append_eq_nil_iff.mp split.symm
  exact right_nil s next

theorem after_full {first : Nat} (full : memEnd s = WORD) (aligned : first % 4096 = 0)
    (here : bootNext s = first) (positive : 0 < first) (low : first < WORD) :
    CorrectFrom s WORD requests ↔
      ∀ m ∈ requests.head?, m.toNat ≠ 0 ∧ first + wholePages m.toNat ≠ WORD := by
  cases requests with
  | nil => exact iff_of_true (correct_nil s WORD) (by simp)
  | cons m rest =>
    have only : (∀ k ∈ (m :: rest).head?, k.toNat ≠ 0 ∧ first + wholePages k.toNat ≠ WORD) ↔
        m.toNat ≠ 0 ∧ first + wholePages m.toNat ≠ WORD := by
      simp only [List.head?_cons, Option.mem_some_iff, forall_eq']
    rw [only]
    by_cases zero : m.toNat = 0
    · refine iff_of_false ?_ fun both => both.1 zero
      obtain ⟨s', run, _⟩ := bootAlloc_none s
      have fits : WORD + wholePages m.toNat ≤ memEnd s := by rw [zero, full]; exact Nat.le_refl _
      refine wrong_place fits (by rw [zero, run, here]) ?_
      rw [Nat.mod_self]
      omega
    · have large : ¬ WORD + wholePages m.toNat ≤ memEnd s := by
        have := wholePages_positive zero
        rw [full]
        omega
      have top := bootAlloc_top full zero (here ▸ aligned)
      have bound := wholePages_word m
      rw [here] at top
      by_cases all : first + wholePages m.toNat = WORD
      · refine iff_of_false ?_ fun both => both.2 all
        rw [all, if_pos (Nat.mod_self _)] at top
        exact wrong_grant large top
      · refine iff_of_true ?_ ⟨zero, all⟩
        rw [if_neg] at top
        · exact correct_refused large top
        · change (first + wholePages m.toNat) % 4294967296 ≠ 0
          change first + wholePages m.toNat ≠ 4294967296 at all
          change first < 4294967296 at low
          omega

theorem at_top {first : Nat} (full : memEnd s = WORD) (start : firstFree s = first)
    (here : bootNext s = first % WORD) (positive : 0 < first) (inside : first ≤ WORD) :
    CorrectFrom s first requests ↔ AtTop first requests := by
  have aligned : first % 4096 = 0 := by
    rw [← start]
    unfold firstFree
    omega
  have aligned' : bootNext s % 4096 = 0 := by
    rw [here]
    change first % 4294967296 % 4096 = 0
    omega
  induction requests generalizing s with
  | nil => exact iff_of_true (correct_nil s first) trivial
  | cons n rest ih =>
    unfold AtTop
    by_cases zero : n.toNat = 0
    · rw [if_pos zero]
      obtain ⟨s', next', full', kernEnd, step⟩ := @zero_request s first rest full here inside n zero
      exact step.trans (ih full' (by rw [← start]; unfold firstFree; rw [kernEnd]) next'
        (by rw [next', ← here]; exact aligned'))
    · rw [if_neg zero]
      have top := bootAlloc_top full zero aligned'
      have bound : wholePages n.toNat ≤ 4294967296 := wholePages_word n
      have some_bytes := wholePages_positive zero
      have inside' : first ≤ 4294967296 := inside
      have sum : (bootNext s + wholePages n.toNat) % WORD = (first + wholePages n.toNat) % 4294967296 := by
        rw [here]
        change (first % 4294967296 + wholePages n.toNat) % 4294967296 = _
        omega
      rw [sum] at top
      change CorrectFrom s first (n :: rest) ↔
        4294967296 < first + wholePages n.toNat ∧ first + wholePages n.toNat < 2 * 4294967296 ∨
          first + wholePages n.toNat = 4294967296 ∧ _
      obtain small | exact_fit | beyond | twice : first + wholePages n.toNat < 4294967296 ∨
          first + wholePages n.toNat = 4294967296 ∨
          (4294967296 < first + wholePages n.toNat ∧ first + wholePages n.toNat < 2 * 4294967296) ∨
          first + wholePages n.toNat = 2 * 4294967296 := by omega
      · rw [if_neg (by omega)] at top
        exact iff_of_false (wrong_panic (by rw [full]; change _ ≤ 4294967296; omega) top) (by omega)
      · have low : first < 4294967296 := by omega
        have word : first % WORD = first := Nat.mod_eq_of_lt low
        obtain ⟨s', at_s'⟩ : ∃ s', s' = { s with nextfree := 0 } := ⟨_, rfl⟩
        have again : bootNext s' = first := by
          rw [at_s']
          change roundUp s.kernEnd PGSIZE = first
          rw [roundUp_first, start, word]
        have same : memEnd s' = memEnd s := by rw [at_s']; rfl
        rw [exact_fit, Nat.mod_self, if_pos rfl, ← at_s', here] at top
        have fits : first + wholePages n.toNat ≤ memEnd s := by rw [full, exact_fit]
        have step := @correct_given s s' first n rest fits top same
        rw [exact_fit] at step
        have next := @after_full s' rest first (by rw [same, full]) aligned again positive low
        refine (step.trans next).trans ?_
        constructor
        · exact fun next => Or.inr ⟨exact_fit, next⟩
        · rintro (beyond | fit)
          · omega
          · exact fit.2
      · rw [if_neg (by omega)] at top
        exact iff_of_true (correct_refused (by rw [full]; change ¬ _ ≤ 4294967296; omega) top) (.inl beyond)
      · rw [twice, if_pos (by decide)] at top
        exact iff_of_false (wrong_grant (by rw [full]; change ¬ _ ≤ 4294967296; omega) top) (by omega)

end AtTop

/-- boot_alloc, from its first call on. -/
theorem boot_alloc_iff (s : State) (requests : List UInt32) (fresh : s.nextfree = 0)
    (machine : s.npages ≤ 65536) (linked : 0 < s.kernEnd) (inside : s.kernEnd < memEnd s) :
    (∀ given addrs, chunks (memEnd s) (firstFree s) given = some addrs →
        addrs.length = given.length ∧
        (∀ c ∈ addrs.zip given, c.1 % PGSIZE = 0 ∧ firstFree s ≤ c.1 ∧ c.1 + c.2.toNat ≤ memEnd s) ∧
        (addrs.zip given).Pairwise fun c d => c.1 + c.2.toNat ≤ d.1) ∧
      (Correct s requests ↔ if s.npages < 65536 then NoWrap (memEnd s) (firstFree s) requests
        else AtTop (firstFree s) requests) := by
  have aligned : firstFree s % 4096 = 0 := by
    unfold firstFree
    omega
  have here : bootNext s = firstFree s % WORD := by
    unfold bootNext
    rw [if_pos fresh, roundUp_first]
  have top : memEnd s = 4026531840 + s.npages * 4096 := rfl
  have first : firstFree s = (s.kernEnd + 4095) / 4096 * 4096 := rfl
  refine ⟨fun given addrs handed => chunks_sound aligned handed, ?_⟩
  unfold Correct
  split
  · rename_i low
    have limit : memEnd s < 4294967296 := by omega
    have below : firstFree s ≤ memEnd s := by omega
    have word : firstFree s % WORD = firstFree s := Nat.mod_eq_of_lt (Nat.lt_of_le_of_lt below limit)
    exact below_top limit (here.trans word) aligned (by omega) below
  · rename_i large
    have full : memEnd s = 4294967296 := by omega
    exact at_top full rfl here (by omega) (by change firstFree s ≤ 4294967296; omega)

theorem boot_alloc_iff_smallMachine :
    Correct (powerOn smallMachine) [4096, 0, 0x800000] := by
  have iff := (boot_alloc_iff (powerOn smallMachine) [4096, 0, 0x800000] rfl (by decide) (by decide)
    (by decide)).2
  rw [if_pos (by decide)] at iff
  refine iff.mpr ⟨by decide, fun _ => ⟨by decide, fun _ => ⟨by decide, fun fits => ?_⟩⟩⟩
  exact absurd fits (by decide)

def fullMachine : State := { powerOn smallMachine with npages := 65536 }

/-- One page is there, and boot_alloc panics. -/
theorem boot_alloc_refuses :
    fullMachine.npages * PGSIZE = WORD - KERNBASE ∧
      chunks (memEnd fullMachine) (firstFree fullMachine) [4096] = some [0xF0182000] ∧
      bootAlloc fullMachine 4096 = .error .outOfMemory ∧ ¬ Correct fullMachine [4096] := by
  have fits : firstFree fullMachine + wholePages (4096 : UInt32).toNat ≤ memEnd fullMachine := by decide
  have panics : bootAlloc fullMachine (4096 : UInt32).toNat = .error .outOfMemory := by
    rw [bootAlloc_top (by decide) (by decide) (by decide)]
    exact if_neg (by decide)
  exact ⟨by decide, by decide, panics, wrong_panic fits panics⟩

/-- The sizes i386_detect_memory computes from what the CMOS reports, in kilobytes and, above 16MB,
    in units of 64 of them: npages and npages_basemem. -/
def i386DetectMemory (basemem extmem ext16 : Nat) : Nat × Nat :=
  let ext16mem := ext16 * 64
  let totalmem :=
    if ext16mem ≠ 0 then 16 * 1024 + ext16mem
    else if extmem ≠ 0 then 1 * 1024 + extmem
    else basemem
  (totalmem / (PGSIZE / 1024), basemem / (PGSIZE / 1024))

/-- After page_init the free list is exactly the usable pages: base memory but for page 0, and what
    lies above the end of boot-time allocation. -/
def FreesUsable (npagesBasemem nextfree : Nat) (s : State) : Prop :=
  ∃ fl, FreeList s fl ∧ fl.Nodup ∧ (∀ p ∈ fl, (s.pages p).ppRef = 0) ∧
    ∀ i, i ∈ fl ↔ 1 ≤ i ∧ i < npagesBasemem ∨ kernelPages nextfree ≤ i ∧ i < s.npages

section PageInit
variable {s : State}

theorem freeList_unique {fl fl' : List Nat} (list : FreeList s fl) (list' : FreeList s fl') : fl = fl' :=
  IntrusiveList.chain_unique list list'

theorem kernelPages_between (low : KERNBASE + EXTPHYSMEM ≤ s.nextfree) (high : s.nextfree ≤ memEnd s)
    (word : s.nextfree < WORD) : 256 ≤ kernelPages s.nextfree ∧ kernelPages s.nextfree ≤ s.npages := by
  have pages : kernelPages s.nextfree = (s.nextfree + 4294967296 - 4026531840) % 4294967296 / 4096 := rfl
  have top : memEnd s = 4026531840 + s.npages * 4096 := rfl
  change 4026531840 + 1048576 ≤ s.nextfree at low
  change s.nextfree < 4294967296 at word
  omega

theorem page_init_frees (started : s.nextfree ≠ 0) (empty : s.pageFreeList = none)
    (low : KERNBASE + EXTPHYSMEM ≤ s.nextfree) (high : s.nextfree ≤ memEnd s) (word : s.nextfree < WORD) :
    ∃ s', pageInit s = .ok s' ∧ FreesUsable (IOPHYSMEM / PGSIZE) s.nextfree s' := by
  obtain ⟨s', fl, run, done⟩ := pageInit_spec started empty
  refine ⟨s', run, fl, done.list, done.nodup, done.zero, ?_⟩
  obtain ⟨above, below⟩ := kernelPages_between low high word
  have npages : s'.npages = s.npages := done.quiet.npages
  intro i
  rw [done.free i, npages]
  change i ≤ s.npages - 1 ∧ ¬ (i = 0 ∨ (160 ≤ i ∧ i < 256) ∨ (256 ≤ i ∧ i < kernelPages s.nextfree)) ↔
    1 ≤ i ∧ i < 160 ∨ kernelPages s.nextfree ≤ i ∧ i < s.npages
  omega

theorem frees_whole {npagesBasemem nextfree : Nat} (base : npagesBasemem ≤ IOPHYSMEM / PGSIZE)
    (above : 256 ≤ kernelPages nextfree) (usable : FreesUsable npagesBasemem nextfree s)
    (frees : FreesUsable (IOPHYSMEM / PGSIZE) nextfree s) : npagesBasemem = IOPHYSMEM / PGSIZE := by
  obtain ⟨fl, list, _, _, member⟩ := usable
  obtain ⟨fl', list', _, _, member'⟩ := frees
  obtain rfl := freeList_unique list list'
  have last : (1 ≤ 159 ∧ 159 < npagesBasemem ∨ kernelPages nextfree ≤ 159 ∧ 159 < s.npages) ↔
      (1 ≤ 159 ∧ 159 < 160 ∨ kernelPages nextfree ≤ 159 ∧ 159 < s.npages) :=
    (member 159).symm.trans (member' 159)
  change npagesBasemem ≤ 160 at base
  change npagesBasemem = 160
  omega

end PageInit

/-- page_init frees exactly the usable pages if and only if base memory is the whole 640K. -/
theorem page_init_iff (s : State) (npagesBasemem : Nat) (empty : s.pageFreeList = none)
    (base : npagesBasemem ≤ IOPHYSMEM / PGSIZE) (low : KERNBASE + EXTPHYSMEM ≤ s.nextfree)
    (high : s.nextfree ≤ memEnd s) (word : s.nextfree < WORD) :
    ∃ s', pageInit s = .ok s' ∧
      (FreesUsable npagesBasemem s.nextfree s' ↔ npagesBasemem = IOPHYSMEM / PGSIZE) := by
  have started : s.nextfree ≠ 0 := by
    change 4026531840 + 1048576 ≤ s.nextfree at low
    omega
  obtain ⟨s', run, frees⟩ := page_init_frees started empty low high word
  refine ⟨s', run, ?_⟩
  constructor
  · intro usable
    exact frees_whole base (kernelPages_between low high word).1 usable frees
  · rintro rfl
    exact frees

def bootedMachine : State := { powerOn smallMachine with nextfree := 0xF0200000 }

theorem page_init_iff_bootedMachine :
    ∃ s', pageInit bootedMachine = .ok s' ∧ FreesUsable 160 bootedMachine.nextfree s' := by
  obtain ⟨s', run, iff⟩ :=
    page_init_iff bootedMachine 160 rfl (by decide) (by decide) (by decide) (by decide)
  exact ⟨s', run, iff.mpr rfl⟩

/-- A machine that reports 512K of base memory and 3MB of extended memory: pages 128 to 159 do not
    exist and are freed. -/
theorem page_init_frees_missing : i386DetectMemory 512 3072 0 = (bootedMachine.npages, 128) ∧
    ∃ s', pageInit bootedMachine = .ok s' ∧ ¬ FreesUsable 128 bootedMachine.nextfree s' := by
  obtain ⟨s', run, frees⟩ :=
    @page_init_frees bootedMachine (by decide) rfl (by decide) (by decide) (by decide)
  refine ⟨by decide, s', run, ?_⟩
  intro usable
  exact absurd (frees_whole (by decide) (by decide) usable frees) (by decide)

end JosBootMemory
