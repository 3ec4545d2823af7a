import Jos.Debuginfo
import Jos.UserMemCheck
import Jos.Cputs
import Mathlib.Tactic.Linarith

/- What debuginfo_eip reads for an address below ULIM, against the ranges user_mem_check has
   accepted: of the table of stabs only the first entry is ever checked. -/
namespace JosStabReads
open JosLayout JosMachine JosPmap JosKdebug JosDebuginfo BackScan WhileLoop EventLog Logged
open JosPrintfmt (wrap wrap_bounds)

def Inside (a len va n : Nat) : Prop := va ≤ a ∧ a + len ≤ va + n

instance (a len va n : Nat) : Decidable (Inside a len va n) := inferInstanceAs (Decidable (_ ∧ _))

def Covered (before : List Event) : Event → Prop
  | .checked _ _ _ => True
  | .read a len => ∃ va n, .checked va n 0 ∈ before ∧ Inside a len va n

/-- Every read is covered, and after a range that is not accepted a negative value is returned. -/
def Safe (run : Run (Int × Eipdebuginfo × State)) : Prop :=
  Justified Covered run.log ∧
    ∀ va n r, .checked va n r ∈ run.log → r ≠ 0 → ∃ out, run.result = some out ∧ out.1 < 0

def Accepts (s : State) (va len : Nat) : Prop :=
  ∃ s', userMemCheck s s.curenv va len PTE_U = .ok (0, s')

/-- The tables at USTABDATA get past all that debuginfo_eip checks. -/
structure Opens (s : State) (t : UserStabData) : Prop where
  pointers : Accepts s USTABDATA 16
  there : structAt s USTABDATA = some t
  first : Accepts s t.stabs.toNat STABSIZE
  strings : Accepts s t.stabstr.toNat (t.stabstrEnd - t.stabstr).toNat
  some_string : t.stabstr < t.stabstrEnd
  ends : byteAt s (t.stabstrEnd - 1).toNat = some 0

def lastStab (t : UserStabData) : Int := wrap (stabCount t - 1)

def FirstRead (s : State) (t : UserStabData) : Prop :=
  ∃ type, byteAt s (entryAt t.stabs 0 + 4) = some type ∧
    ((type.toNat : Int) = N_SO → ∃ v, wordAt s (entryAt t.stabs 0 + 8) = some v)

def LooksOn (s : State) (t : UserStabData) (addr : UInt32) : Prop :=
  2 ≤ lastStab t ∨ lastStab t = 1 ∧ FirstRead s t ∨
    lastStab t = 0 ∧ ∃ type v, byteAt s (entryAt t.stabs 0 + 4) = some type ∧
      (type.toNat : Int) = N_SO ∧ wordAt s (entryAt t.stabs 0 + 8) = some v ∧ addr < v

/-- The entries next looked at do not happen to lie among the pointers or in the string table. -/
def Apart (t : UserStabData) : Prop :=
  ∀ i : Int, i = -1 ∨ i = 1 ∨ i = lastStab t / 2 →
    ¬ Inside (entryAt t.stabs i) STABSIZE USTABDATA 16 ∧
      ¬ Inside (entryAt t.stabs i) STABSIZE t.stabstr.toNat (t.stabstrEnd - t.stabstr).toNat

section Entries
variable {stabs : UInt32} {i : Int}

theorem entryAt_zero : entryAt stabs 0 = stabs.toNat := by
  have small := stabs.toNat_lt
  unfold entryAt
  rw [Int.mul_zero, Int.add_zero]
  simp only [WORD]
  omega

/-- 3 has an inverse modulo 2^30, so 12 * i is a multiple of 2^32 only if i is one of 2^30. -/
theorem twelve_times {j : Int} (times : 12 * i = 4294967296 * j) (low : -1 ≤ i)
    (high : i < 1073741824) : i = 0 := by
  have multiple : i = 1073741824 * (715827883 * j - 2 * i) := by linarith
  generalize 715827883 * j - 2 * i = k at multiple
  clear times
  omega

theorem entryAt_other (other : i ≠ 0) (low : -1 ≤ i) (high : i < 1073741824) :
    entryAt stabs i ≠ stabs.toNat := by
  intro same
  change ((stabs.toNat + 12 * i) % 4294967296).toNat = stabs.toNat at same
  have split := Int.emod_add_mul_ediv (stabs.toNat + 12 * i) 4294967296
  have rest : (stabs.toNat + 12 * i) % 4294967296 = stabs.toNat := by
    have nonneg : 0 ≤ (stabs.toNat + 12 * i) % 4294967296 :=
      Int.emod_nonneg (stabs.toNat + 12 * i) (show (4294967296 : Int) ≠ 0 by decide)
    exact (Int.toNat_of_nonneg nonneg).symm.trans (congrArg Int.ofNat same)
  rw [rest] at split
  have times : 12 * i = 4294967296 * ((stabs.toNat + 12 * i) / 4294967296) := by
    linarith only [split]
  exact other (twelve_times times low high)

end Entries

section Search
variable {s : State} {stabs : UInt32} {type : Int} {q : Search} {fuel : Nat}

theorem round_reads (more : q.l ≤ q.r) (low : q.l ≤ middle q.l q.r) :
    [Event.read (entryAt stabs (middle q.l q.r)) STABSIZE] <+:
      (binsearchStep (nType s stabs) (nValue s stabs) type q).log := by
  obtain ⟨n, some_left⟩ : ∃ n, (middle q.l q.r - q.l + 1).toNat = n + 1 :=
    ⟨(middle q.l q.r - q.l).toNat, by omega⟩
  unfold binsearchStep
  rw [if_pos more]
  dsimp only
  rw [some_left]
  refine List.IsPrefix.trans ?_ (log_bind _ _)
  unfold back
  refine List.IsPrefix.trans ?_ (log_bind _ _)
  exact log_bind (nType s stabs (middle q.l q.r)) _

theorem search_reads {t : UserStabData} {left right : Int} {addr : UInt32} (more : left ≤ right)
    (low : left ≤ middle left right) :
    [Event.read (entryAt t.stabs (middle left right)) STABSIZE] <+:
      (search s t (fuel + 1) left right type addr).log := by
  unfold search stabBinsearch
  refine List.IsPrefix.trans ?_ (log_bind _ _)
  refine List.IsPrefix.trans ?_ (log_bind _ _)
  unfold loop
  refine List.IsPrefix.trans ?_ (log_bind _ _)
  exact round_reads (q := ⟨left, right, left, right, false, addr⟩) more low

theorem single_round (more : q.l ≤ q.r) (mid : middle q.l q.r = q.l) :
    binsearchStep (nType s stabs) (nValue s stabs) type q = (do
      let k ← nType s stabs q.l
      if (k.toNat : Int) = type then do
        let v ← nValue s stabs q.l
        pure (some (probe q q.l q.l v))
      else pure (some { q with l := q.l + 1 })) := by
  have one : (q.l - q.l + 1).toNat = 1 := by omega
  unfold binsearchStep
  rw [if_pos more]
  dsimp only
  rw [mid, one]
  unfold back isType
  simp only [bind_assoc, pure_bind, decide_eq_true_eq]
  refine congrArg _ (funext fun k => ?_)
  by_cases found : (k.toNat : Int) = type
  · simp [found]
  · simp [found, back]

end Search

section Held
variable {s : State} {t : UserStabData} {addr : UInt32} {q q' : Search} {fuel : Nat}

def FirstOnly (t : UserStabData) (e : Event) : Prop := e = .read (entryAt t.stabs 0) STABSIZE

structure AtFirst (t : UserStabData) (addr : UInt32) (q : Search) : Prop where
  r : q.r = lastStab t
  right : q.right = lastStab t
  left : q.left = 0
  low : 0 ≤ q.l
  stuck : lastStab t = 1 → q.l = 0
  addr : q.addr = addr ∨ q.addr = addr + 1
  met : q.anyMatches = true → lastStab t = 0

theorem held_small (held : ¬ LooksOn s t addr) : lastStab t ≤ 1 := by
  by_contra more
  exact held (Or.inl (by omega))

theorem held_single (held : ¬ LooksOn s t addr) (first : AtFirst t addr q) (more : q.l ≤ q.r) :
    q.l = 0 ∧ middle q.l q.r = q.l := by
  have small := held_small held
  have low := first.low
  have r := first.r
  have stuck := first.stuck
  have at_zero : q.l = 0 := by omega
  refine ⟨at_zero, ?_⟩
  obtain zero | one : q.r = 0 ∨ q.r = 1 := by omega
  · rw [at_zero, zero]
    rfl
  · rw [at_zero, one]
    rfl

theorem held_events (held : ¬ LooksOn s t addr) (first : AtFirst t addr q) :
    Only (FirstOnly t) (binsearchStep (nType s t.stabs) (nValue s t.stabs) N_SO q) := by
  by_cases more : q.l ≤ q.r
  · obtain ⟨at_zero, mid⟩ := held_single held first more
    rw [single_round more mid, at_zero]
    refine only_bind (fun e member => List.mem_singleton.mp member) ?_
    intro type _
    split
    · refine only_bind (fun e member => List.mem_singleton.mp member) ?_
      exact fun v _ e member => by cases member
    · exact fun e member => by cases member
  · unfold binsearchStep
    rw [if_neg more]
    exact fun e member => by cases member

theorem next_above (user : addr.toNat < ULIM) {v : UInt32} (below : ¬ addr < v) : v < addr + 1 := by
  have small : addr.toNat + 1 < 4294967296 := by
    simp only [ULIM, MMIOBASE, MMIOLIM, KSTACKTOP, KERNBASE, PTSIZE, PGSIZE, NPTENTRIES] at user
    omega
  have least : v.toNat ≤ addr.toNat := Nat.le_of_not_lt fun h => below (UInt32.lt_iff_toNat_lt.mpr h)
  rw [UInt32.lt_iff_toNat_lt, UInt32.toNat_add, show (1 : UInt32).toNat = 1 from rfl,
    Nat.mod_eq_of_lt small]
  omega

theorem held_keeps (user : addr.toNat < ULIM) (held : ¬ LooksOn s t addr)
    (first : AtFirst t addr q)
    (next : (binsearchStep (nType s t.stabs) (nValue s t.stabs) N_SO q).result = some (some q')) :
    AtFirst t addr q' := by
  by_cases more : q.l ≤ q.r
  · obtain ⟨at_zero, mid⟩ := held_single held first more
    rw [single_round more mid, at_zero] at next
    obtain ⟨type, type_read, next⟩ := result_bind next
    have here : lastStab t = 0 := by
      have small := held_small held
      have r := first.r
      have not_one : lastStab t ≠ 1 := by
        intro one
        refine held (Or.inr (Or.inl ⟨one, type, type_read, fun found => ?_⟩))
        rw [if_pos found] at next
        obtain ⟨v, v_read, _⟩ := result_bind next
        exact ⟨v, v_read⟩
      omega
    by_cases found : (type.toNat : Int) = N_SO
    · rw [if_pos found] at next
      obtain ⟨v, v_read, next⟩ := result_bind next
      cases next
      have below : ¬ addr < v := fun above =>
        held (Or.inr (Or.inr ⟨here, type, v, type_read, found, v_read, above⟩))
      unfold probe
      dsimp only
      by_cases less : v < q.addr
      · rw [if_pos less]
        exact ⟨first.r, first.right, rfl, by dsimp only; omega, by omega, first.addr, fun _ => here⟩
      · rcases first.addr with same | same
        · rw [if_neg less, same, if_neg below]
          exact ⟨first.r, first.right, rfl, Int.le_refl 0, fun _ => rfl, Or.inr rfl, fun _ => here⟩
        · rw [same] at less
          exact absurd (next_above user below) less
    · rw [if_neg found] at next
      cases next
      exact ⟨first.r, first.right, first.left, by dsimp only; omega, by omega, first.addr, first.met⟩
  · unfold binsearchStep at next
    rw [if_neg more] at next
    cases next

/-- Held back, the first search reads the first entry at most, and finds no file. -/
theorem held_search (fuel : Nat) (user : addr.toNat < ULIM) (held : ¬ LooksOn s t addr) :
    Only (FirstOnly t) (search s t fuel 0 (lastStab t) N_SO addr) ∧
      ∀ region, (search s t fuel 0 (lastStab t) N_SO addr).result = some region → region.1 = 0 := by
  have start : AtFirst t addr ⟨0, lastStab t, 0, lastStab t, false, addr⟩ :=
    ⟨rfl, rfl, rfl, Int.le_refl 0, fun _ => rfl, Or.inl rfl, fun met => by cases met⟩
  obtain ⟨events, ends⟩ := only_loop fuel (AtFirst t addr) start
    (fun a first => held_events held first)
    (fun a b first next => held_keeps user held first next)
  have none_left : ∀ q, AtFirst t addr q → q.anyMatches = true → (q.right - q.left).toNat = 0 := by
    intro q first met
    have here := first.met met
    have right := first.right
    have left := first.left
    omega
  unfold search stabBinsearch
  constructor
  · refine only_bind (only_bind events ?_) ?_
    · intro found looped
      cases found with
      | none => exact fun e member => by cases member
      | some q =>
        cases met : q.anyMatches with
        | true =>
          simp only [met, if_true, none_left q (ends q looped).1 met]
          exact fun e member => by cases member
        | false =>
          simp only [met]
          exact fun e member => by cases member
    · intro region _
      cases region with
      | none => exact fun e member => by cases member
      | some region => exact fun e member => by cases member
  · intro region run
    obtain ⟨found, searched, run⟩ := result_bind run
    obtain ⟨looped, loop_result, searched⟩ := result_bind searched
    cases looped with
    | none =>
      cases searched
      cases run
    | some q =>
      have first := (ends q loop_result).1
      cases met : q.anyMatches with
      | true =>
        simp only [met, if_true, none_left q first met] at searched
        cases searched
        cases run
        have here := first.met met
        exact first.right.trans here
      | false =>
        simp only [met] at searched
        cases searched
        cases run
        exact first.left

theorem held_lookUp (fuel : Nat) (info : Eipdebuginfo) (user : addr.toNat < ULIM)
    (held : ¬ LooksOn s t addr) :
    Only (FirstOnly t) (lookUp s t fuel addr info) ∧
      ∀ out, (lookUp s t fuel addr info).result = some out → out.1 = -1 := by
  obtain ⟨events, no_file⟩ := held_search fuel user held
  unfold lookUp
  constructor
  · refine only_bind events ?_
    rintro ⟨lfile, rfile⟩ searched
    have zero : lfile = 0 := no_file (lfile, rfile) searched
    dsimp only
    rw [if_pos zero]
    exact fun e member => by cases member
  · intro out run
    obtain ⟨⟨lfile, rfile⟩, searched, run⟩ := result_bind run
    have zero : lfile = 0 := no_file (lfile, rfile) searched
    dsimp only at run
    rw [if_pos zero] at run
    cases run
    rfl

end Held

section Beyond
variable {s : State} {t : UserStabData} {addr : UInt32} {fuel : Nat}

structure Beyond (t : UserStabData) (i : Int) : Prop where
  place : i = -1 ∨ i = 1 ∨ i = lastStab t / 2
  other : i ≠ 0
  low : -1 ≤ i
  high : i < 1073741824

def GoesTo (t : UserStabData) (i : Int) (log : List Event) : Prop :=
  ∃ n, List.replicate n (Event.read (entryAt t.stabs 0) STABSIZE) ++
    [Event.read (entryAt t.stabs i) STABSIZE] <+: log

theorem goesTo_bind {α β : Type} {x : Run α} {f : α → Run β} {i : Int} (goes : GoesTo t i x.log) :
    GoesTo t i (x >>= f).log := by
  obtain ⟨n, reads⟩ := goes
  exact ⟨n, reads.trans (log_bind x f)⟩

theorem goesTo_first {α β : Type} {a : α} {f : α → Run β} {i : Int} (goes : GoesTo t i (f a).log) :
    GoesTo t i (event (.read (entryAt t.stabs 0) STABSIZE) (some a) >>= f).log := by
  obtain ⟨n, rest, reads⟩ := goes
  refine ⟨n + 1, rest, ?_⟩
  rw [event_some, ← reads, List.replicate_succ]
  rfl

theorem goesTo_here {i : Int} {log : List Event}
    (reads : [Event.read (entryAt t.stabs i) STABSIZE] <+: log) : GoesTo t i log := ⟨0, reads⟩

def rounds (s : State) (t : UserStabData) (fuel : Nat) (q : Search) : Run (Option Search) :=
  loop (binsearchStep (nType s t.stabs) (nValue s t.stabs) N_SO) fuel q

theorem rounds_next (fuel : Nat) (q : Search) : rounds s t (fuel + 1) q =
    binsearchStep (nType s t.stabs) (nValue s t.stabs) N_SO q >>= fun next =>
      match next with
      | none => pure (some q)
      | some q' => rounds s t fuel q' := by
  conv => lhs; unfold rounds loop
  refine congrArg _ (funext fun next => ?_)
  cases next with
  | none => rfl
  | some q' => rfl

theorem rounds_second {q : Search} (fuel : Nat) (low : q.l = 1) (high : q.r = 1) :
    GoesTo t 1 (rounds s t (fuel + 1) q).log := by
  have mid : middle q.l q.r = 1 := by
    rw [low, high]
    rfl
  have reads : [Event.read (entryAt t.stabs (middle q.l q.r)) STABSIZE] <+:
      (binsearchStep (nType s t.stabs) (nValue s t.stabs) N_SO q).log :=
    round_reads (by omega) (by omega)
  rw [mid] at reads
  unfold rounds loop
  exact goesTo_here (reads.trans (log_bind _ _))

def FirstFile (s : State) (t : UserStabData) (v : UInt32) : Prop :=
  ∃ type, byteAt s (entryAt t.stabs 0 + 4) = some type ∧ (type.toNat : Int) = N_SO ∧
    wordAt s (entryAt t.stabs 0 + 8) = some v

theorem round_file {q : Search} {v : UInt32} (file : FirstFile s t v) (low : q.l = 0)
    (high : q.r = 0 ∨ q.r = 1) :
    binsearchStep (nType s t.stabs) (nValue s t.stabs) N_SO q =
      ⟨[.read (entryAt t.stabs 0) STABSIZE, .read (entryAt t.stabs 0) STABSIZE],
        some (some (probe q 0 0 v))⟩ := by
  obtain ⟨type, type_read, found, v_read⟩ := file
  have mid : middle q.l q.r = q.l := by
    rcases high with high | high
    · rw [low, high]
      rfl
    · rw [low, high]
      rfl
  rw [single_round (by omega) mid, low]
  unfold nType nValue
  rw [type_read, v_read, event_some, if_pos found, event_some]
  rfl

theorem search_above {v : UInt32} (few : lastStab t = 0 ∨ lastStab t = 1) (file : FirstFile s t v)
    (above : addr < v) : search s t (fuel + 2) 0 (lastStab t) N_SO addr =
      ⟨[.read (entryAt t.stabs 0) STABSIZE, .read (entryAt t.stabs 0) STABSIZE], some (-1, -1)⟩ := by
  have moved : probe ⟨0, lastStab t, 0, lastStab t, false, addr⟩ 0 0 v = ⟨0, -1, 0, -1, true, addr⟩ := by
    have not_less : ¬ v < addr := fun less =>
      Nat.lt_asymm (UInt32.lt_iff_toNat_lt.mp less) (UInt32.lt_iff_toNat_lt.mp above)
    unfold probe
    dsimp only
    rw [if_neg not_less, if_pos above]
    rfl
  have looped : rounds s t (fuel + 2) ⟨0, lastStab t, 0, lastStab t, false, addr⟩ =
      ⟨[.read (entryAt t.stabs 0) STABSIZE, .read (entryAt t.stabs 0) STABSIZE],
        some (some ⟨0, -1, 0, -1, true, addr⟩)⟩ := by
    rw [rounds_next, round_file file rfl few, moved, bind_some rfl]
    rfl
  unfold rounds at looped
  unfold search stabBinsearch
  rw [looped, bind_some rfl]
  rfl

theorem rounds_file {v : UInt32} (user : addr.toNat < ULIM) (file : FirstFile s t v)
    (below : ¬ addr < v) (two : lastStab t = 1) :
    GoesTo t 1 (rounds s t (fuel + 3) ⟨0, lastStab t, 0, lastStab t, false, addr⟩).log := by
  have after_file : ∀ {n q}, q.l = 0 → q.r = 1 → GoesTo t 1 (rounds s t n (probe q 0 0 v)).log →
      GoesTo t 1 (rounds s t (n + 1) q).log := by
    rintro n q low high ⟨k, rest, reads⟩
    refine ⟨k + 2, rest, ?_⟩
    rw [rounds_next, round_file file low (Or.inr high), bind_some rfl, ← reads, List.replicate_succ,
      List.replicate_succ]
    rfl
  have less_ends : ∀ {n q}, q.l = 0 → q.r = 1 → v < q.addr →
      GoesTo t 1 (rounds s t (n + 2) q).log := by
    intro n q low high less
    refine after_file low high ?_
    unfold probe
    dsimp only
    rw [if_pos less]
    exact rounds_second n rfl high
  by_cases less : v < addr
  · exact less_ends (n := fuel + 1) rfl two less
  · refine after_file rfl two ?_
    unfold probe
    dsimp only
    rw [if_neg less, if_neg below]
    exact less_ends (n := fuel) rfl two (next_above user below)

/-- What is looked at next, in every case. -/
theorem lookUp_beyond (fuel : Nat) (info : Eipdebuginfo) (user : addr.toNat < ULIM)
    (on : LooksOn s t addr) :
    ∃ i, Beyond t i ∧ GoesTo t i (lookUp s t (fuel + 3) addr info).log := by
  have bound : lastStab t < 2147483648 := (wrap_bounds _).2
  have from_search : ∀ {i}, GoesTo t i (search s t (fuel + 3) 0 (lastStab t) N_SO addr).log →
      GoesTo t i (lookUp s t (fuel + 3) addr info).log := goesTo_bind
  have from_rounds : ∀ {i},
      GoesTo t i (rounds s t (fuel + 3) ⟨0, lastStab t, 0, lastStab t, false, addr⟩).log →
      GoesTo t i (lookUp s t (fuel + 3) addr info).log :=
    fun goes => from_search (goesTo_bind (goesTo_bind goes))
  have from_above : ∀ {v}, lastStab t = 0 ∨ lastStab t = 1 → FirstFile s t v → addr < v →
      GoesTo t (-1) (lookUp s t (fuel + 3) addr info).log := by
    intro v few file above
    have reads : [Event.read (entryAt t.stabs (middle (-1) (-1))) STABSIZE] <+:
        (search s t (fuel + 2 + 1) (-1) (-1) N_FUN addr).log :=
      search_reads (Int.le_refl _) (by decide)
    have mid : middle (-1) (-1) = -1 := by decide
    rw [mid] at reads
    unfold lookUp
    rw [show wrap (stabCount t - 1) = lastStab t from rfl, search_above few file above, bind_some rfl]
    dsimp only
    rw [if_neg (by decide)]
    obtain ⟨rest, reads⟩ := reads.trans (log_bind _ _)
    refine ⟨2, rest, ?_⟩
    rw [← reads]
    rfl
  have before : Beyond t (-1) := ⟨Or.inl rfl, by decide, by decide, by decide⟩
  have second : Beyond t 1 := ⟨Or.inr (Or.inl rfl), by decide, by decide, by decide⟩
  rcases on with many | ⟨two, type, type_read, value_read⟩ | ⟨one, type, v, type_read, found, v_read, above⟩
  · have half : middle 0 (lastStab t) = lastStab t / 2 := by
      rw [middle_eq (Int.le_refl 0) (by omega) (by omega), Int.zero_add]
    have reads : [Event.read (entryAt t.stabs (middle 0 (lastStab t))) STABSIZE] <+:
        (search s t (fuel + 2 + 1) 0 (lastStab t) N_SO addr).log :=
      search_reads (by omega) (by omega)
    rw [half] at reads
    exact ⟨lastStab t / 2, ⟨Or.inr (Or.inr rfl), by omega, by omega, by omega⟩,
      from_search (goesTo_here reads)⟩
  · by_cases found : (type.toNat : Int) = N_SO
    · obtain ⟨v, v_read⟩ := value_read found
      have file : FirstFile s t v := ⟨type, type_read, found, v_read⟩
      by_cases above : addr < v
      · exact ⟨-1, before, from_above (Or.inr two) file above⟩
      · refine ⟨1, second, from_rounds ?_⟩
        exact rounds_file user file above two
    · refine ⟨1, second, from_rounds ?_⟩
      have mid : middle 0 (lastStab t) = 0 := by
        rw [two]
        rfl
      have more : (0 : Int) ≤ lastStab t := by omega
      rw [rounds_next, single_round (q := ⟨0, lastStab t, 0, lastStab t, false, addr⟩) more mid]
      unfold nType
      rw [type_read, bind_assoc]
      refine goesTo_first ?_
      rw [if_neg found, pure_bind]
      exact rounds_second (fuel + 1) rfl two
  · exact ⟨-1, before, from_above (Or.inl one) ⟨type, type_read, found, v_read⟩ above⟩

end Beyond

section Checks
variable {s : State} {log : List Event} {va n a len : Nat} {r : Int}

theorem check_cases (s : State) (va len : Nat) :
    (Accepts s va len ∧ check s va len = event (.checked va len 0) (some (true, s))) ∨
      ¬ Accepts s va len ∧ (check s va len = stop ∨
        ∃ r s', r ≠ 0 ∧ check s va len = event (.checked va len r) (some (false, s'))) := by
  unfold check
  cases run : userMemCheck s s.curenv va len PTE_U with
  | error panic =>
    refine Or.inr ⟨?_, Or.inl rfl⟩
    rintro ⟨s', accepted⟩
    rw [run] at accepted
    cases accepted
  | ok out =>
    obtain ⟨r, s'⟩ := out
    by_cases zero : r = 0
    · subst zero
      left
      refine ⟨⟨s', run⟩, ?_⟩
      rcases JosCputs.loop_keeps_state run with ⟨_, same⟩ | fault
      · rw [same]
        rfl
      · exact absurd fault (by decide)
    · refine Or.inr ⟨?_, Or.inr ⟨r, s', zero, ?_⟩⟩
      · rintro ⟨s'', accepted⟩
        rw [run] at accepted
        cases accepted
        exact zero rfl
      · dsimp only
        rw [decide_eq_false zero]

theorem justified_checked (justified : Justified Covered log) :
    Justified Covered (log ++ [Event.checked va n r]) := justified_concat.mpr ⟨justified, trivial⟩

theorem justified_read (justified : Justified Covered log) (accepted : .checked va n 0 ∈ log)
    (inside : Inside a len va n) : Justified Covered (log ++ [Event.read a len]) :=
  justified_concat.mpr ⟨justified, va, n, accepted, inside⟩

def opening (t : UserStabData) : List Event :=
  [.checked USTABDATA 16 0, .read USTABDATA 16, .checked t.stabs.toNat STABSIZE 0,
    .checked t.stabstr.toNat (t.stabstrEnd - t.stabstr).toNat 0,
    .read ((t.stabstrEnd - 1).toNat % WORD) 1]

theorem pointers_justified :
    Justified Covered [.checked USTABDATA 16 0, .read USTABDATA 16] :=
  justified_read (show Justified Covered [.checked USTABDATA 16 0] from justified_checked justified_nil)
    (List.mem_singleton.mpr rfl) ⟨Nat.le_refl _, Nat.le_refl _⟩

theorem tables_justified (t : UserStabData) : Justified Covered
    [.checked USTABDATA 16 0, .read USTABDATA 16, .checked t.stabs.toNat STABSIZE 0,
      .checked t.stabstr.toNat (t.stabstrEnd - t.stabstr).toNat 0] :=
  justified_checked (justified_checked pointers_justified)

def AllAccepted (log : List Event) : Prop := ∀ va n r, .checked va n r ∈ log → r = 0

theorem opening_accepted (t : UserStabData) {log : List Event} (part : log <+: opening t) :
    AllAccepted log := by
  intro va n r member
  have within : Event.checked va n r ∈ opening t := part.subset member
  simp only [opening, List.mem_cons, Event.checked.injEq, reduceCtorEq, List.not_mem_nil, or_false,
    false_or] at within
  rcases within with ⟨_, _, zero⟩ | ⟨_, _, zero⟩ | ⟨_, _, zero⟩
  · exact zero
  · exact zero
  · exact zero

theorem opening_justified {t : UserStabData} (some_string : t.stabstr < t.stabstrEnd) :
    Justified Covered (opening t) := by
  have accepted : Event.checked t.stabstr.toNat (t.stabstrEnd - t.stabstr).toNat 0 ∈
      [.checked USTABDATA 16 0, .read USTABDATA 16, .checked t.stabs.toNat STABSIZE 0,
        .checked t.stabstr.toNat (t.stabstrEnd - t.stabstr).toNat 0] := by simp
  refine justified_read (tables_justified t) accepted ?_
  have order := UInt32.lt_iff_toNat_lt.mp some_string
  have one : (1 : UInt32) ≤ t.stabstrEnd := by
    rw [UInt32.le_iff_toNat_le]
    change 1 ≤ t.stabstrEnd.toNat
    omega
  have small := (t.stabstrEnd - 1).toNat_lt
  have last : (t.stabstrEnd - 1).toNat = t.stabstrEnd.toNat - 1 := UInt32.toNat_sub_of_le _ _ one
  have size : (t.stabstrEnd - t.stabstr).toNat = t.stabstrEnd.toNat - t.stabstr.toNat :=
    UInt32.toNat_sub_of_le _ _ (UInt32.le_iff_toNat_le.mpr (Nat.le_of_lt order))
  unfold Inside
  rw [size, Nat.mod_eq_of_lt small, last]
  omega

end Checks

section Main
variable {kernel : UserStabData} {fuel : Nat} {s : State} {addr : UInt32} {t : UserStabData}

theorem accepts_check {va len : Nat} (accepted : Accepts s va len) :
    check s va len = event (.checked va len 0) (some (true, s)) := by
  rcases check_cases s va len with ⟨_, passes⟩ | ⟨refused, _⟩
  · exact passes
  · exact absurd accepted refused

theorem findStabs_opens (user : addr.toNat < ULIM) (opens : Opens s t) :
    findStabs kernel s addr = ⟨[.checked USTABDATA 16 0, .read USTABDATA 16,
      .checked t.stabs.toNat STABSIZE 0,
      .checked t.stabstr.toNat (t.stabstrEnd - t.stabstr).toNat 0], some (some t, s)⟩ := by
  unfold findStabs
  rw [if_neg (Nat.not_le.mpr user), accepts_check opens.pointers, event_some]
  dsimp only
  rw [opens.there, event_some, accepts_check opens.first, event_some]
  dsimp only
  rw [accepts_check opens.strings, event_some]
  rfl

theorem validStrings_opens (opens : Opens s t) :
    validStrings s t = ⟨[.read ((t.stabstrEnd - 1).toNat % WORD) 1], some true⟩ := by
  have order : ¬ t.stabstrEnd ≤ t.stabstr := by
    have := UInt32.lt_iff_toNat_lt.mp opens.some_string
    rw [UInt32.le_iff_toNat_le]
    omega
  unfold validStrings strByte
  rw [if_neg order, opens.ends, event_some]
  rfl

theorem debuginfoEip_opens (user : addr.toNat < ULIM) (opens : Opens s t) :
    debuginfoEip kernel fuel s addr =
      ⟨opening t ++ (lookUp s t fuel addr (unknownInfo addr)).log,
        (lookUp s t fuel addr (unknownInfo addr)).result.map fun out => (out.1, out.2, s)⟩ := by
  unfold debuginfoEip
  rw [findStabs_opens user opens, bind_some rfl]
  dsimp only
  rw [validStrings_opens opens, bind_some rfl]
  dsimp only
  rw [if_pos rfl]
  cases next : (lookUp s t fuel addr (unknownInfo addr)).result with
  | none =>
    rw [bind_none next]
    rfl
  | some out =>
    rw [bind_some next]
    refine congrArg₂ Logged.mk ?_ rfl
    change _ ++ ([_] ++ (_ ++ [])) = _
    rw [List.append_nil]
    rfl

theorem safe_ended {log : List Event} {out : Option (Int × Eipdebuginfo × State)}
    (justified : Justified Covered log)
    (ends : AllAccepted log ∨ ∃ info s', out = some (-1, info, s')) :
    Safe ⟨log, out⟩ := by
  refine ⟨justified, fun va n r member nonzero => ?_⟩
  rcases ends with none_refused | ⟨info, s', rfl⟩
  · exact absurd (none_refused va n r member) nonzero
  · exact ⟨_, rfl, show (-1 : Int) < 0 by decide⟩

theorem findStabs_cases (kernel : UserStabData) (s : State) (user : addr.toNat < ULIM) :
    (∃ log s', findStabs kernel s addr = ⟨log, some (none, s')⟩ ∧ Justified Covered log) ∨
      (∃ log, findStabs kernel s addr = ⟨log, none⟩ ∧ Justified Covered log ∧ AllAccepted log) ∨
      ∃ t, findStabs kernel s addr = ⟨[.checked USTABDATA 16 0, .read USTABDATA 16,
          .checked t.stabs.toNat STABSIZE 0,
          .checked t.stabstr.toNat (t.stabstrEnd - t.stabstr).toNat 0], some (some t, s)⟩ ∧
        Accepts s USTABDATA 16 ∧ structAt s USTABDATA = some t ∧ Accepts s t.stabs.toNat STABSIZE ∧
        Accepts s t.stabstr.toNat (t.stabstrEnd - t.stabstr).toNat := by
  unfold findStabs
  rw [if_neg (Nat.not_le.mpr user)]
  rcases check_cases s USTABDATA 16 with ⟨pointers, passes⟩ | ⟨_, stops | ⟨r, s', _, refuses⟩⟩
  · rw [passes, event_some]
    dsimp only
    cases there : structAt s USTABDATA with
    | none =>
      rw [event_none]
      exact Or.inr (Or.inl ⟨_, rfl, pointers_justified, opening_accepted ⟨0, 0, 0, 0⟩ ⟨_, rfl⟩⟩)
    | some t =>
      rw [event_some]
      rcases check_cases s t.stabs.toNat STABSIZE with ⟨first, passes⟩ | ⟨_, stops | ⟨r, s', _, refuses⟩⟩
      · rw [passes, event_some]
        dsimp only
        rcases check_cases s t.stabstr.toNat (t.stabstrEnd - t.stabstr).toNat with
          ⟨strings, passes⟩ | ⟨_, stops | ⟨r, s', _, refuses⟩⟩
        · rw [passes, event_some]
          exact Or.inr (Or.inr ⟨t, rfl, pointers, rfl, first, strings⟩)
        · rw [stops, stop_bind]
          exact Or.inr (Or.inl ⟨_, rfl, justified_checked pointers_justified,
            opening_accepted t ⟨_, rfl⟩⟩)
        · rw [refuses, event_some]
          exact Or.inl ⟨_, s', rfl, justified_checked (justified_checked pointers_justified)⟩
      · rw [stops, stop_bind]
        exact Or.inr (Or.inl ⟨_, rfl, pointers_justified, opening_accepted t ⟨_, rfl⟩⟩)
      · rw [refuses, event_some]
        exact Or.inl ⟨_, s', rfl, justified_checked pointers_justified⟩
  · rw [stops]
    exact Or.inr (Or.inl ⟨_, rfl, justified_nil, fun va n r member => by cases member⟩)
  · rw [refuses, event_some]
    exact Or.inl ⟨_, s', rfl, justified_checked justified_nil⟩

theorem debuginfoEip_shut (user : addr.toNat < ULIM) (shut : ∀ t, ¬ Opens s t) :
    Safe (debuginfoEip kernel fuel s addr) := by
  unfold debuginfoEip
  rcases findStabs_cases kernel s user with
    ⟨log, s', found, justified⟩ | ⟨log, found, justified, none_refused⟩ |
      ⟨t, found, pointers, there, first, strings⟩
  · rw [found, bind_some rfl]
    refine safe_ended ?_ (Or.inr ⟨_, _, rfl⟩)
    exact (List.append_nil log).symm ▸ justified
  · rw [found, bind_none rfl]
    exact safe_ended justified (Or.inl none_refused)
  · rw [found, bind_some rfl]
    dsimp only
    unfold validStrings strByte
    by_cases order : t.stabstrEnd ≤ t.stabstr
    · rw [if_pos order, pure_bind, if_neg Bool.false_ne_true]
      exact safe_ended (tables_justified t) (Or.inr ⟨_, _, rfl⟩)
    · have some_string : t.stabstr < t.stabstrEnd := by
        rw [UInt32.lt_iff_toNat_lt]
        rw [UInt32.le_iff_toNat_le] at order
        omega
      rw [if_neg order, bind_assoc]
      cases last : byteAt s (t.stabstrEnd - 1).toNat with
      | none =>
        rw [event_none]
        exact safe_ended (opening_justified some_string) (Or.inl (opening_accepted t ⟨[], rfl⟩))
      | some b =>
        have not_nul : b ≠ 0 := fun nul =>
          shut t ⟨pointers, there, first, strings, some_string, nul ▸ last⟩
        rw [event_some, pure_bind, decide_eq_false not_nul, if_neg Bool.false_ne_true]
        exact safe_ended (opening_justified some_string) (Or.inr ⟨_, _, rfl⟩)

theorem debuginfoEip_held (user : addr.toNat < ULIM)
    (held : ¬ ∃ t, Opens s t ∧ LooksOn s t addr) : Safe (debuginfoEip kernel fuel s addr) := by
  by_cases shut : ∀ t, ¬ Opens s t
  · exact debuginfoEip_shut user shut
  · obtain ⟨t, opens⟩ := not_forall_not.mp shut
    have held : ¬ LooksOn s t addr := fun on => held ⟨t, opens, on⟩
    obtain ⟨events, negative⟩ := held_lookUp fuel (unknownInfo addr) user held
    rw [debuginfoEip_opens user opens]
    constructor
    · refine justified_append (opening_justified opens.some_string) ?_
      intro e member between
      rw [show e = .read (entryAt t.stabs 0) STABSIZE from events e member, entryAt_zero]
      exact ⟨t.stabs.toNat, STABSIZE, by simp [opening], Nat.le_refl _, Nat.le_refl _⟩
    · intro va n r member nonzero
      rcases List.mem_append.mp member with early | late
      · exact absurd (opening_accepted t (List.prefix_refl _) va n r early) nonzero
      · cases events _ late

/-- Past the first entry, and outside the other ranges, it reads what it has not checked. -/
theorem debuginfoEip_unsafe (user : addr.toNat < ULIM) (opens : Opens s t) (apart : Apart t)
    (on : LooksOn s t addr) : ¬ Safe (debuginfoEip kernel (fuel + 3) s addr) := by
  rintro ⟨justified, _⟩
  obtain ⟨i, beyond, n, reads⟩ := lookUp_beyond fuel (unknownInfo addr) user on
  rw [debuginfoEip_opens user opens] at justified
  have part : opening t ++ List.replicate n (Event.read (entryAt t.stabs 0) STABSIZE) ++
      [Event.read (entryAt t.stabs i) STABSIZE] <+:
        opening t ++ (lookUp s t (fuel + 3) addr (unknownInfo addr)).log := by
    rw [List.append_assoc]
    exact List.prefix_append_right_inj _ |>.mpr reads
  obtain ⟨va, len, accepted, inside⟩ := (justified_concat.mp (justified_part justified part)).2
  obtain ⟨not_pointers, not_strings⟩ := apart i beyond.place
  rcases List.mem_append.mp accepted with early | late
  · simp [opening] at early
    rcases early with ⟨rfl, rfl⟩ | ⟨rfl, rfl⟩ | ⟨rfl, rfl⟩
    · exact not_pointers inside
    · have same : entryAt t.stabs i = t.stabs.toNat := by
        obtain ⟨low, high⟩ := inside
        omega
      exact entryAt_other beyond.other beyond.low beyond.high same
    · exact not_strings inside
  · exact absurd (List.eq_of_mem_replicate late) (by simp)

/-- debuginfo_eip reads only what it has checked if it does not look past the first entry; if it
    does, and the next entries do not lie in another range that it has checked, it does not. -/
theorem reads_checked_iff (kernel : UserStabData) (fuel : Nat) (s : State) (addr : UInt32)
    (user : addr.toNat < ULIM) (enough : 3 ≤ fuel) :
    ((¬ ∃ t, Opens s t ∧ LooksOn s t addr) → Safe (debuginfoEip kernel fuel s addr)) ∧
      ((∀ t, Opens s t → Apart t) →
        (Safe (debuginfoEip kernel fuel s addr) ↔ ¬ ∃ t, Opens s t ∧ LooksOn s t addr)) := by
  obtain ⟨n, rfl⟩ := Nat.exists_eq_add_of_le' enough
  refine ⟨debuginfoEip_held user, fun apart => ⟨?_, debuginfoEip_held user⟩⟩
  rintro safe ⟨t, opens, on⟩
  exact debuginfoEip_unsafe user opens (apart t opens) on safe

/-- Tables that begin in the page at USTABDATA; 2^20 entries, by the pointers. -/
def manyStabs : UserStabData := ⟨0x200040, 0xE00040, 0x200020, 0x200024⟩

def stabPage : State :=
  let s := { JosUserMemCheck.emptySpace with curenv := some 0, cr3 := 1000 }
  let s := s.setEntry 1000 0 (page2pa 1001 ||| PTE_U ||| PTE_W ||| PTE_P)
  let s := s.setEntry 1001 512 (page2pa 1002 ||| PTE_U ||| PTE_W ||| PTE_P)
  let s := s.setEntry 1002 0 manyStabs.stabs.toNat
  let s := s.setEntry 1002 1 manyStabs.stabEnd.toNat
  let s := s.setEntry 1002 2 manyStabs.stabstr.toNat
  s.setEntry 1002 3 manyStabs.stabstrEnd.toNat

theorem stabPage_opens : Opens stabPage manyStabs where
  pointers := ⟨stabPage, rfl⟩
  there := rfl
  first := ⟨stabPage, rfl⟩
  strings := ⟨stabPage, rfl⟩
  some_string := by decide
  ends := rfl

/-- One entry, an N_SO entry of 0x800000. -/
def oneEntry : UserStabData := ⟨0x200040, 0x20004C, 0x200020, 0x200024⟩

def oneEntryPage : State :=
  let s := stabPage.setEntry 1002 1 oneEntry.stabEnd.toNat
  let s := s.setEntry 1002 17 0x64
  s.setEntry 1002 18 0x800000

theorem oneEntryPage_opens : Opens oneEntryPage oneEntry where
  pointers := ⟨oneEntryPage, rfl⟩
  there := rfl
  first := ⟨oneEntryPage, rfl⟩
  strings := ⟨oneEntryPage, rfl⟩
  some_string := by decide
  ends := rfl

theorem reads_checked_iff_oneEntry : Opens oneEntryPage oneEntry ∧
    Event.read 0x200040 STABSIZE ∈ (debuginfoEip oneEntry 3 oneEntryPage 0x800020).log ∧
    Safe (debuginfoEip oneEntry 3 oneEntryPage 0x800020) := by
  refine ⟨oneEntryPage_opens, by decide,
    (reads_checked_iff oneEntry 3 oneEntryPage 0x800020 (by decide) (by decide)).1 ?_⟩
  rintro ⟨t, opens, on⟩
  obtain rfl : oneEntry = t := Option.some.inj (oneEntryPage_opens.there.symm.trans opens.there)
  have last : lastStab oneEntry = 0 := by decide
  rcases on with many | ⟨two, _⟩ | ⟨_, type, v, _, _, at_v, above⟩
  · omega
  · omega
  · have value : wordAt oneEntryPage (entryAt oneEntry.stabs 0 + 8) = some 0x800000 := rfl
    rw [value] at at_v
    cases at_v
    exact absurd above (by decide)

/-- The search begins in the middle of the table, at an address that is not mapped. -/
theorem debuginfo_reads_unchecked : ¬ ∀ (kernel : UserStabData) (fuel : Nat) (s : State) (addr : UInt32),
    addr.toNat < ULIM → Safe (debuginfoEip kernel fuel s addr) := by
  intro claim
  have apart : Apart manyStabs := by
    have half : lastStab manyStabs / 2 = 524287 := by decide
    intro i place
    rw [half] at place
    rcases place with rfl | rfl | rfl
    · decide
    · decide
    · decide
  have on : LooksOn stabPage manyStabs 0x800020 := Or.inl (by decide)
  exact debuginfoEip_unsafe (by decide) stabPage_opens apart on (claim manyStabs 3 stabPage _ (by decide))

end Main

end JosStabReads
