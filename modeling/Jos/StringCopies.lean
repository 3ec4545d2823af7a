import Jos.Debuginfo
import Jos.StringMoves
import Jos.StringOrder

/- The functions of lib/string.c that copy a string, and those that look for a byte. -/
namespace JosStringCopies
open JosLayout JosPrintfmt JosStringMoves JosStringOrder

def strlenLoop (mem : Mem) : (bound : Nat) → (s : Nat) → (n : Int) → Option Int
  | 0, _, _ => none
  | bound + 1, s, n => if mem s ≠ 0 then strlenLoop mem bound ((s + 1) % WORD) (wrap (n + 1)) else some n

def strlen (bound s : Nat) (mem : Mem) : Option Int := strlenLoop mem bound s 0

def strcpyLoop : (bound : Nat) → (dst src : Nat) → Mem → Option Mem
  | 0, _, _, _ => none
  | bound + 1, dst, src, mem =>
    let c := mem src
    let mem := Function.update mem dst c
    if c ≠ 0 then strcpyLoop bound ((dst + 1) % WORD) ((src + 1) % WORD) mem else some mem

def strcpy (bound dst src : Nat) (mem : Mem) : Option (Nat × Mem) :=
  (strcpyLoop bound dst src mem).map fun mem => (dst, mem)

def strcat (bound dst src : Nat) (mem : Mem) : Option (Nat × Mem) := do
  let len ← strlen bound dst mem
  let (_, mem) ← strcpy bound ((dst + len) % WORD).toNat src mem
  some (dst, mem)

def strncpyLoop : (size : Nat) → (dst src : Nat) → Mem → Mem
  | 0, _, _, mem => mem
  | size + 1, dst, src, mem =>
    let mem := Function.update mem dst (mem src)
    strncpyLoop size ((dst + 1) % WORD) (if mem src ≠ 0 then (src + 1) % WORD else src) mem

def strncpy (dst src size : Nat) (mem : Mem) : Nat × Mem := (dst, strncpyLoop size dst src mem)

/-- while (--size > 0 && *src != '\0') *dst++ = *src++; where size is one more than left. -/
def strlcpyLoop : (left : Nat) → (dst src : Nat) → Mem → Nat × Mem
  | 0, dst, _, mem => (dst, mem)
  | left + 1, dst, src, mem =>
    if mem src ≠ 0 then
      strlcpyLoop left ((dst + 1) % WORD) ((src + 1) % WORD) (Function.update mem dst (mem src))
    else (dst, mem)

def strlcpy (dst src size : Nat) (mem : Mem) : Nat × Mem :=
  if size > 0 then
    let (last, mem) := strlcpyLoop (size - 1) dst src mem
    ((last + WORD - dst) % WORD, Function.update mem last 0)
  else (0, mem)

/-- The null pointer where the string has no c; the NUL at its end is no character of it. -/
def strchr (mem : Mem) (c : UInt8) : (bound : Nat) → (s : Nat) → Option Nat
  | 0, _ => none
  | bound + 1, s =>
    if mem s ≠ 0 then if mem s = c then some s else strchr mem c bound ((s + 1) % WORD)
    else some 0

def strfind (mem : Mem) (c : UInt8) : (bound : Nat) → (s : Nat) → Option Nat
  | 0, _ => none
  | bound + 1, s =>
    if mem s ≠ 0 then if mem s = c then some s else strfind mem c bound ((s + 1) % WORD)
    else some s

def memfindLoop (mem : Mem) (c : UInt8) (ends : Nat) : (n : Nat) → (s : Nat) → Nat
  | 0, s => s
  | n + 1, s => if s < ends then if mem s = c then s else memfindLoop mem c ends n ((s + 1) % WORD) else s

def memfind (mem : Mem) (s : Nat) (c : BitVec 32) (n : Nat) : Nat :=
  memfindLoop mem (UInt8.ofNat c.toNat) ((s + n) % WORD) n s

/-- A copy to dst would run into its own source, of n characters and a NUL. -/
def RunsInto (src n dst : Nat) : Prop := src < dst ∧ dst ≤ src + n

instance (src n dst : Nat) : Decidable (RunsInto src n dst) := inferInstanceAs (Decidable (_ ∧ _))

section Strings
variable {mem mem' : Mem} {dst src p : Nat} {s : List UInt8}

theorem string_kept (at_p : CString mem p s) (inside : p + s.length < WORD)
    (same : ∀ x, p ≤ x → x ≤ p + s.length → mem' x = mem x) : CString mem' p s := by
  induction at_p with
  | @nul p ends =>
    have here := same p (Nat.le_refl p) (Nat.le_add_right p 0)
    exact .nul (here.trans ends)
  | @char p c s here nonzero later ih =>
    rw [List.length_cons] at inside same
    have next : (p + 1) % WORD = p + 1 := Nat.mod_eq_of_lt (by omega)
    rw [next] at ih
    have kept := same p (Nat.le_refl p) (Nat.le_add_right p _)
    refine .char (kept.trans here) nonzero ?_
    rw [next]
    exact ih (by omega) fun x low high => same x (by omega) (by omega)

theorem string_nonzero (at_p : CString mem p s) : ∀ c ∈ s, c ≠ 0 := by
  rintro c listed rfl
  exact absurd (string_positive at_p 0 listed) (by decide)

theorem string_cells (inside : p + s.length < WORD) (nonzero : ∀ c ∈ s, c ≠ 0)
    (cells : ∀ i, i ≤ s.length → mem (p + i) = s.getD i 0) : CString mem p s := by
  induction s generalizing p with
  | nil => exact .nul (cells 0 (Nat.le_refl 0))
  | cons c s ih =>
    rw [List.length_cons] at inside
    have next : (p + 1) % WORD = p + 1 := Nat.mod_eq_of_lt (by omega)
    refine .char (cells 0 (Nat.zero_le _)) (nonzero c List.mem_cons_self) ?_
    rw [next]
    refine ih (by omega) (fun x listed => nonzero x (List.mem_cons_of_mem c listed)) ?_
    intro i bound
    rw [Nat.add_assoc, Nat.add_comm 1 i]
    exact cells (i + 1) (Nat.succ_le_succ bound)

theorem getD_zeros (s : List UInt8) (k i : Nat) : (s ++ List.replicate k 0).getD i 0 = s.getD i 0 := by
  by_cases inside : i < s.length
  · exact List.getD_append s _ 0 i inside
  · have past : s.length ≤ i := Nat.le_of_not_lt inside
    rw [List.getD_append_right s _ 0 i past, List.getD_eq_default s 0 past]
    by_cases zero : i - s.length < k
    · exact List.getD_replicate 0 zero
    · exact List.getD_eq_default _ 0 (by rw [List.length_replicate]; exact Nat.le_of_not_lt zero)

theorem put_string (k : Nat) (inside : p + s.length < WORD) (nonzero : ∀ c ∈ s, c ≠ 0)
    (fits : p + s.length + (k + 1) ≤ WORD) : CString (put mem p (s ++ List.replicate (k + 1) 0)) p s := by
  refine string_cells inside nonzero fun i bound => ?_
  have size : (s ++ List.replicate (k + 1) (0 : UInt8)).length = s.length + (k + 1) := by
    rw [List.length_append, List.length_replicate]
  rw [put_getD mem p _ (by rw [size]; omega) (p + i), if_pos ⟨by omega, by rw [size]; omega⟩,
    Nat.add_sub_cancel_left]
  exact getD_zeros s (k + 1) i

theorem put_outside {bs : List UInt8} (fits : p + bs.length ≤ WORD) {x : Nat}
    (outside : x < p ∨ p + bs.length ≤ x) : put mem p bs x = mem x := by
  rw [put_getD mem p bs fits, if_neg (by omega)]

theorem source_left (c : UInt8) (later : CString mem (src + 1) s) (src_fits : src + (s.length + 1) < WORD)
    (apart : ¬ RunsInto src (s.length + 1) dst) : CString (Function.update mem dst c) (src + 1) s := by
  unfold RunsInto at apart
  refine string_kept later (by omega) fun x low high => ?_
  exact Function.update_of_ne (by omega) _ _

theorem strcpyLoop_apart (at_src : CString mem src s) (src_fits : src + s.length < WORD)
    (dst_fits : dst + s.length < WORD) (apart : ¬ RunsInto src s.length dst) (bound : Nat) :
    strcpyLoop bound dst src mem = if s.length < bound then some (put mem dst (s ++ [0])) else none := by
  induction s generalizing mem dst src bound with
  | nil =>
    cases bound with
    | zero => rfl
    | succ bound =>
      cases at_src with
      | nul ends =>
        unfold strcpyLoop
        dsimp only
        rw [ends, if_neg (fun zero => zero rfl), List.length_nil, if_pos (Nat.zero_lt_succ bound)]
        rfl
  | cons c s ih =>
    cases bound with
    | zero => rfl
    | succ bound =>
      rw [List.length_cons] at src_fits dst_fits apart
      cases at_src with
      | char here nonzero later =>
        have src_next : (src + 1) % WORD = src + 1 := Nat.mod_eq_of_lt (by omega)
        have dst_next : (dst + 1) % WORD = dst + 1 := Nat.mod_eq_of_lt (by omega)
        rw [src_next] at later
        have rest := source_left c later src_fits apart
        unfold RunsInto at apart ih
        have run := ih rest (by omega) (by omega : dst + 1 + s.length < WORD) (by omega) bound
        have copied : put mem dst (c :: s ++ [0]) = put (Function.update mem dst c) (dst + 1) (s ++ [0]) := by
          rw [List.cons_append]
          conv => lhs; unfold put
          rw [dst_next]
        unfold strcpyLoop
        dsimp only
        rw [here, if_pos nonzero, src_next, dst_next, run, copied, List.length_cons]
        simp only [Nat.add_lt_add_iff_right]

theorem strcpyLoop_runs (distance : Nat) (positive : 0 < distance) (small : distance < WORD)
    (ahead : ∀ j, j < distance → mem ((src + j) % WORD) ≠ 0) (bound : Nat) (word : src < WORD) :
    strcpyLoop bound ((src + distance) % WORD) src mem = none := by
  induction bound generalizing mem src with
  | zero => rfl
  | succ bound ih =>
    have here : mem src ≠ 0 := by
      have first := ahead 0 positive
      rwa [Nat.add_zero, Nat.mod_eq_of_lt word] at first
    have src_next : (src + 1) % WORD < WORD := Nat.mod_lt _ (by decide)
    have dst_next : ((src + distance) % WORD + 1) % WORD = ((src + 1) % WORD + distance) % WORD := by
      simp only [WORD]
      omega
    unfold strcpyLoop
    dsimp only
    rw [if_pos here, dst_next]
    refine ih ?_ src_next
    intro j inside
    by_cases last : j + 1 = distance
    · have written : ((src + 1) % WORD + j) % WORD = (src + distance) % WORD := by
        simp only [WORD]
        omega
      rw [written, Function.update_self]
      exact here
    · have before : ((src + 1) % WORD + j) % WORD = (src + (j + 1)) % WORD := by
        simp only [WORD]
        omega
      have other : (src + (j + 1)) % WORD ≠ (src + distance) % WORD := by
        simp only [WORD] at small word ⊢
        omega
      rw [before, Function.update_of_ne other]
      exact ahead (j + 1) (by omega)

theorem string_before_nul (at_p : CString mem p s) (inside : p + s.length < WORD) {j : Nat} (early : j < s.length) :
    mem ((p + j) % WORD) ≠ 0 := by
  induction at_p generalizing j with
  | nul ends => exact absurd early (Nat.not_lt_zero j)
  | @char p c s here nonzero later ih =>
    rw [List.length_cons] at inside early
    cases j with
    | zero =>
      rw [Nat.add_zero, Nat.mod_eq_of_lt (by omega), here]
      exact nonzero
    | succ j =>
      have next : (p + 1) % WORD = p + 1 := Nat.mod_eq_of_lt (by omega)
      rw [next] at ih
      have place : p + (j + 1) = p + 1 + j := by omega
      rw [place]
      exact ih (by omega) (by omega)

end Strings

section Unbounded
variable {mem : Mem} {dst src p : Nat} {s t : List UInt8}

/-- strcpy ends exactly where it does not run into its own source, and then it has copied. -/
theorem strcpyLoop_ends (at_src : CString mem src s) (src_fits : src + s.length < WORD)
    (dst_fits : dst + s.length < WORD) (bound : Nat) : strcpyLoop bound dst src mem =
      if RunsInto src s.length dst then none
      else if s.length < bound then some (put mem dst (s ++ [0])) else none := by
  by_cases into : RunsInto src s.length dst
  · obtain ⟨low, high⟩ := into
    have runs := strcpyLoop_runs (dst - src) (by omega) (by omega)
      (fun j early => string_before_nul at_src src_fits (by omega)) bound (by omega)
    have place : (src + (dst - src)) % WORD = dst := by
      rw [Nat.add_sub_cancel' (Nat.le_of_lt low), Nat.mod_eq_of_lt (by omega)]
    rw [place] at runs
    rw [runs, if_pos ⟨low, high⟩]
  · rw [if_neg into, strcpyLoop_apart at_src src_fits dst_fits into bound]

theorem strlenLoop_counts (at_p : CString mem p s) (n : Int) (bound : Nat) :
    strlenLoop mem bound p (wrap n) = if s.length < bound then some (wrap (n + s.length)) else none := by
  induction at_p generalizing bound n with
  | nul ends =>
    cases bound with
    | zero => rfl
    | succ bound =>
      unfold strlenLoop
      rw [if_neg (fun more => more ends), List.length_nil, if_pos (Nat.zero_lt_succ bound), Int.natCast_zero,
        Int.add_zero]
  | @char p c s here nonzero later ih =>
    cases bound with
    | zero => rfl
    | succ bound =>
      have counted : wrap (wrap n + 1) = wrap (n + 1) := by
        unfold wrap
        exact Int.bmod_add_bmod
      have total : n + 1 + (s.length : Int) = n + ((c :: s).length : Nat) := by
        rw [List.length_cons]
        omega
      unfold strlenLoop
      rw [if_pos (by rw [here]; exact nonzero), counted, ih (n + 1) bound, total, List.length_cons]
      simp only [Nat.add_lt_add_iff_right]

theorem strlen_counts (at_p : CString mem p s) (bound : Nat) :
    strlen bound p mem = if s.length < bound then some (wrap s.length) else none := by
  have zero : wrap 0 = 0 := by decide
  have counted := strlenLoop_counts at_p 0 bound
  rw [zero, Int.zero_add] at counted
  exact counted

theorem put_after (at_dst : CString mem dst t) (nonzero : ∀ c ∈ s, c ≠ 0)
    (inside : dst + t.length + s.length < WORD) :
    CString (put mem (dst + t.length) (s ++ [0])) dst (t ++ s) := by
  have size : (s ++ [(0 : UInt8)]).length = s.length + 1 := List.length_append
  have same : ∀ x, x < dst + t.length → put mem (dst + t.length) (s ++ [0]) x = mem x :=
    fun x before => put_outside (by rw [size]; omega) (Or.inl before)
  have last : CString (put mem (dst + t.length) (s ++ [0])) (dst + t.length) s :=
    put_string 0 inside nonzero (by omega)
  generalize put mem (dst + t.length) (s ++ [0]) = after at same last
  induction at_dst with
  | nul ends => exact last
  | @char p c t here nonzero' later ih =>
    rw [List.length_cons] at inside same last
    have next : (p + 1) % WORD = p + 1 := Nat.mod_eq_of_lt (by omega)
    have place : p + 1 + t.length = p + (t.length + 1) := by omega
    have first := same p (by omega)
    rw [next, place] at ih
    refine .char (first.trans here) nonzero' ?_
    rw [next]
    exact ih inside same last

/-- The string t ++ s at dst, of which t was there before, and all other memory as it was. -/
structure Appended (mem after : Mem) (dst : Nat) (t s : List UInt8) : Prop where
  string : CString after dst (t ++ s)
  frame : ∀ x, x < dst + t.length ∨ dst + t.length + s.length < x → after x = mem x

theorem put_appended (string : CString (put mem (dst + t.length) (s ++ [0])) dst (t ++ s))
    (inside : dst + t.length + s.length < WORD) :
    Appended mem (put mem (dst + t.length) (s ++ [0])) dst t s where
  string := string
  frame x outside := by
    have size : (s ++ [(0 : UInt8)]).length = s.length + 1 := List.length_append
    exact put_outside (by rw [size]; omega) (by rw [size]; omega)

theorem strcat_place (dst n : Nat) (inside : dst + n < WORD) :
    (((dst : Int) + wrap n) % WORD).toNat = dst + n := by
  unfold wrap
  simp only [WORD] at inside ⊢
  rw [Int.bmod_def]
  split <;> omega

/-- strcpy, and strcat for a string that is at dst, never come to an end where the copy runs into the
    string that it reads; elsewhere they end, return dst and append s to what is there. -/
theorem unbounded_copies (at_src : CString mem src s) (src_fits : src + s.length < WORD)
    (at_dst : CString mem dst t) (fits : dst + t.length + s.length < WORD) :
    (if RunsInto src s.length dst then ∀ bound, strcpy bound dst src mem = none
      else ∃ after, (∀ bound, s.length < bound → strcpy bound dst src mem = some (dst, after)) ∧
        Appended mem after dst [] s) ∧
    (if RunsInto src s.length (dst + t.length) then ∀ bound, strcat bound dst src mem = none
      else ∃ after, (∀ bound, s.length < bound → t.length < bound →
          strcat bound dst src mem = some (dst, after)) ∧ Appended mem after dst t s) := by
  have nonzero := string_nonzero at_src
  constructor
  · have small : dst + s.length < WORD := by omega
    have ends := strcpyLoop_ends at_src src_fits small
    by_cases into : RunsInto src s.length dst
    · rw [if_pos into]
      intro bound
      unfold strcpy
      rw [ends bound, if_pos into]
      rfl
    · have copied : Appended mem (put mem dst (s ++ [0])) dst [] s :=
        @put_appended mem dst s [] (put_string 0 small nonzero small) small
      rw [if_neg into]
      refine ⟨put mem dst (s ++ [0]), fun bound enough => ?_, copied⟩
      unfold strcpy
      rw [ends bound, if_neg into, if_pos enough]
      rfl
  · have ends := strcpyLoop_ends at_src src_fits fits
    have place := strcat_place dst t.length (by omega)
    by_cases into : RunsInto src s.length (dst + t.length)
    · rw [if_pos into]
      intro bound
      unfold strcat
      rw [strlen_counts at_dst]
      by_cases enough : t.length < bound
      · unfold strcpy
        rw [if_pos enough, Option.bind_eq_bind, Option.bind_some, place, ends bound, if_pos into]
        rfl
      · rw [if_neg enough]
        rfl
    · rw [if_neg into]
      refine ⟨put mem (dst + t.length) (s ++ [0]), fun bound enough enough' => ?_,
        put_appended (put_after at_dst nonzero fits) fits⟩
      unfold strcat strcpy
      rw [strlen_counts at_dst, if_pos enough', Option.bind_eq_bind, Option.bind_some, place, ends bound,
        if_neg into, if_pos enough]
      rfl

def twoStrings : Mem := fun a => if a = 16 then 0x61 else if a = 17 then 0x62 else if a = 32 then 0x63 else 0

theorem twoStrings_ab : CString twoStrings 16 [0x61, 0x62] :=
  .char rfl (by decide) (.char rfl (by decide) (.nul rfl))

theorem twoStrings_c : CString twoStrings 32 [0x63] := .char rfl (by decide) (.nul rfl)

theorem unbounded_copies_twoStrings :
    (∃ after, (∀ bound, 2 < bound → 1 < bound → strcat bound 32 16 twoStrings = some (32, after)) ∧
      Appended twoStrings after 32 [0x63] [0x61, 0x62]) ∧ ∀ bound, strcat bound 16 16 twoStrings = none :=
  ⟨(unbounded_copies twoStrings_ab (by decide) twoStrings_c (by decide)).2,
    (unbounded_copies twoStrings_ab (by decide) twoStrings_ab (by decide)).2⟩

end Unbounded

section Bounded
variable {mem : Mem} {dst src size left : Nat} {s : List UInt8}

def padded (size : Nat) (s : List UInt8) : List UInt8 := s.take size ++ List.replicate (size - s.length) 0

theorem padded_length (size : Nat) (s : List UInt8) : (padded size s).length = size := by
  unfold padded
  rw [List.length_append, List.length_take, List.length_replicate]
  omega

theorem source_same (mem : Mem) (dst src : Nat) : Function.update mem dst (mem src) src = mem src := by
  by_cases here : src = dst
  · rw [here, Function.update_self]
  · rw [Function.update_of_ne here]

theorem strncpyLoop_pads (at_src : CString mem src s) (src_fits : src + s.length < WORD)
    (dst_fits : dst + size ≤ WORD) (apart : ¬ RunsInto src s.length dst) :
    strncpyLoop size dst src mem = put mem dst (padded size s) := by
  induction size generalizing mem dst src s with
  | zero => rw [List.eq_nil_of_length_eq_zero (padded_length 0 s)]; rfl
  | succ size ih =>
    have next_fits : (dst + 1) % WORD + size ≤ WORD := by
      simp only [WORD] at dst_fits ⊢
      omega
    cases at_src with
    | nul ends =>
      have same := source_same mem dst src
      have pads : padded (size + 1) [] = 0 :: padded size [] := by
        unfold padded
        rw [List.take_nil, List.take_nil]
        rfl
      rw [ends] at same
      unfold strncpyLoop
      dsimp only
      rw [ends, if_neg (fun more => more same), ih (.nul same) src_fits next_fits, pads]
      · rfl
      · rintro ⟨low, high⟩
        exact absurd low (Nat.not_lt.mpr high)
    | @char _ c s here nonzero later =>
      rw [List.length_cons] at src_fits apart
      have src_next : (src + 1) % WORD = src + 1 := Nat.mod_eq_of_lt (by omega)
      rw [src_next] at later
      have rest := source_left c later src_fits apart
      have pads : padded (size + 1) (c :: s) = c :: padded size s := by
        unfold padded
        rw [List.take_succ_cons, List.length_cons, Nat.add_sub_add_right]
        rfl
      have same := source_same mem dst src
      rw [here] at same
      unfold strncpyLoop
      dsimp only
      rw [here, if_pos (by rw [same]; exact nonzero), src_next, ih rest (by omega) next_fits, pads]
      · rfl
      · unfold RunsInto at apart ⊢
        simp only [WORD] at dst_fits ⊢
        omega

theorem strlcpyLoop_cuts (at_src : CString mem src s) (src_fits : src + s.length < WORD)
    (dst_fits : dst + left < WORD) (apart : ¬ RunsInto src s.length dst) :
    strlcpyLoop left dst src mem = (dst + (s.take left).length, put mem dst (s.take left)) := by
  induction left generalizing mem dst src s with
  | zero => rfl
  | succ left ih =>
    cases at_src with
    | nul ends =>
      unfold strlcpyLoop
      rw [if_neg (fun more => more ends)]
      rfl
    | @char _ c s here nonzero later =>
      rw [List.length_cons] at src_fits apart
      have src_next : (src + 1) % WORD = src + 1 := Nat.mod_eq_of_lt (by omega)
      have dst_next : (dst + 1) % WORD = dst + 1 := Nat.mod_eq_of_lt (by omega)
      rw [src_next] at later
      have rest := source_left c later src_fits apart
      unfold RunsInto at apart ih
      have run := ih rest (by omega) (by omega : dst + 1 + left < WORD) (by omega)
      unfold strlcpyLoop
      rw [here, if_pos nonzero, src_next, dst_next, run, List.take_succ_cons, List.length_cons, Nat.add_assoc,
        Nat.add_comm 1]
      conv => rhs; unfold put
      rw [dst_next]

theorem put_last (mem : Mem) (fits : dst + s.length < WORD) (b : UInt8) :
    put mem dst (s ++ [b]) = Function.update (put mem dst s) (dst + s.length) b := by
  cases s with
  | nil => rfl
  | cons c s =>
    rw [List.length_cons] at fits ⊢
    rw [put_append, Nat.mod_eq_of_lt fits]
    rfl

theorem strlcpy_cuts (at_src : CString mem src s) (src_fits : src + s.length < WORD)
    (dst_fits : dst + size ≤ WORD) (apart : ¬ RunsInto src s.length dst) (some_room : 0 < size) :
    strlcpy dst src size mem = ((s.take (size - 1)).length, put mem dst (s.take (size - 1) ++ [0])) := by
  have short := List.length_take_le (size - 1) s
  have run := strlcpyLoop_cuts at_src src_fits (by omega : dst + (size - 1) < WORD) apart
  have count : (dst + (s.take (size - 1)).length + WORD - dst) % WORD = (s.take (size - 1)).length := by
    rw [Nat.add_assoc, Nat.add_sub_cancel_left, Nat.add_mod_right]
    exact Nat.mod_eq_of_lt (by omega)
  unfold strlcpy
  rw [if_pos some_room, run]
  dsimp only
  rw [count, put_last mem (by omega)]

theorem padded_cell (size : Nat) (s : List UInt8) {i : Nat} (inside : i < size) :
    (padded size s).getD i 0 = s.getD i 0 := by
  unfold padded
  rw [getD_zeros, List.getD_eq_getElem?_getD, List.getElem?_take_of_lt inside, List.getD_eq_getElem?_getD]

/-- strncpy and strlcpy write nothing but the size bytes at dst. strncpy leaves s there and NULs behind
    it, which is a string if s is shorter than size; else none of the bytes is a NUL. What strlcpy
    leaves is a string unless size is 0, cut where it has to be, and its length is returned. -/
theorem bounded_copies (at_src : CString mem src s) (src_fits : src + s.length < WORD)
    (dst_fits : dst + size ≤ WORD) (apart : ¬ RunsInto src s.length dst) :
    (∃ after, strncpy dst src size mem = (dst, after) ∧ (s.length < size → CString after dst s) ∧
      (∀ i, i < s.length → i < size → after (dst + i) = s.getD i 0) ∧
      (∀ i, s.length ≤ i → i < size → after (dst + i) = 0) ∧
      (size ≤ s.length → ∀ i, i < size → after (dst + i) ≠ 0) ∧
      ∀ x, x < dst ∨ dst + size ≤ x → after x = mem x) ∧
    ∃ after, strlcpy dst src size mem = (min (size - 1) s.length, after) ∧
      (0 < size → CString after dst (s.take (size - 1))) ∧
      ∀ x, x < dst ∨ dst + size ≤ x → after x = mem x := by
  have nonzero := string_nonzero at_src
  have length := padded_length size s
  constructor
  · have cells : ∀ i, i < size → put mem dst (padded size s) (dst + i) = s.getD i 0 := by
      intro i inside
      rw [put_getD mem dst _ (by rw [length]; exact dst_fits), length, if_pos ⟨by omega, by omega⟩,
        Nat.add_sub_cancel_left, padded_cell size s inside]
    refine ⟨put mem dst (padded size s), ?_, fun shorter => ?_, fun i _ inside => cells i inside,
      fun i past inside => ?_, fun longer i inside => ?_, fun x outside => ?_⟩
    · unfold strncpy
      rw [strncpyLoop_pads at_src src_fits dst_fits apart]
    · exact string_cells (by omega) nonzero fun i bound => cells i (by omega)
    · rw [cells i inside]
      exact List.getD_eq_default s 0 past
    · have char : s.getD i 0 ∈ s := by
        rw [List.getD_eq_getElem s 0 (by omega)]
        exact List.getElem_mem _
      rw [cells i inside]
      exact nonzero _ char
    · exact put_outside (by rw [length]; exact dst_fits) (by rw [length]; exact outside)
  · by_cases some_room : 0 < size
    · have shorter : (s.take (size - 1)).length = min (size - 1) s.length := List.length_take
      have all : (s.take (size - 1) ++ [(0 : UInt8)]).length = min (size - 1) s.length + 1 := by
        rw [List.length_append, shorter]
        rfl
      refine ⟨put mem dst (s.take (size - 1) ++ [0]), ?_, fun _ => ?_, fun x outside => ?_⟩
      · rw [strlcpy_cuts at_src src_fits dst_fits apart some_room, shorter]
      · exact put_string 0 (by omega) (fun c listed => nonzero c (List.mem_of_mem_take listed)) (by omega)
      · exact put_outside (by rw [all]; omega) (by rw [all]; omega)
    · obtain rfl : size = 0 := Nat.eq_zero_of_not_pos some_room
      exact ⟨mem, by rw [Nat.zero_min]; rfl, fun more => absurd more some_room, fun _ _ => rfl⟩

theorem bounded_copies_twoStrings :
    (∃ after, strncpy 32 16 2 twoStrings = (32, after) ∧ ∀ i, i < 2 → after (32 + i) ≠ 0) ∧
      (∃ after, strncpy 32 16 5 twoStrings = (32, after) ∧ CString after 32 [0x61, 0x62] ∧
        after 36 = 0) ∧
      ∃ after, strlcpy 32 16 2 twoStrings = (1, after) ∧ CString after 32 [0x61] := by
  have ⟨⟨after, copied, _, _, _, full, _⟩, after', cut, string, _⟩ := @bounded_copies twoStrings 32 16 2
    [0x61, 0x62] twoStrings_ab (by decide) (by decide) (by decide)
  have ⟨⟨after5, copied5, whole, _, zeros, _⟩, _⟩ := @bounded_copies twoStrings 32 16 5
    [0x61, 0x62] twoStrings_ab (by decide) (by decide) (by decide)
  exact ⟨⟨after, copied, full (Nat.le_refl 2)⟩, ⟨after5, copied5, whole (by decide),
    zeros 4 (by decide) (by decide)⟩, after', cut, string (by decide)⟩

end Bounded

section Scans
variable {mem : Mem} {p bound : Nat} {s : List UInt8}

theorem scans_stop (at_p : CString mem p s) (inside : p + s.length < WORD) (enough : s.length < bound)
    (c : UInt8) : strfind mem c bound p = some (p + s.idxOf c) ∧
      strchr mem c bound p = some (if c ∈ s then p + s.idxOf c else 0) := by
  induction at_p generalizing bound with
  | nul ends =>
    obtain ⟨bound, rfl⟩ := Nat.exists_eq_add_one_of_ne_zero (Nat.ne_of_gt enough)
    unfold strfind strchr
    rw [if_neg (fun more => more ends), if_neg (fun more => more ends), if_neg List.not_mem_nil]
    exact ⟨rfl, rfl⟩
  | @char p b s here nonzero later ih =>
    obtain ⟨bound, rfl⟩ := Nat.exists_eq_add_one_of_ne_zero (Nat.ne_of_gt (Nat.zero_lt_of_lt enough))
    rw [List.length_cons] at inside enough
    have next : (p + 1) % WORD = p + 1 := Nat.mod_eq_of_lt (by omega)
    have more : mem p ≠ 0 := by
      rw [here]
      exact nonzero
    rw [next] at ih
    unfold strfind strchr
    rw [if_pos more, if_pos more, here, next]
    by_cases found : b = c
    · rw [if_pos found, if_pos found, found, List.idxOf_cons_self, if_pos List.mem_cons_self]
      exact ⟨rfl, rfl⟩
    · obtain ⟨stops, finds⟩ := ih (by omega) (Nat.lt_of_succ_lt_succ enough)
      have place : p + 1 + s.idxOf c = p + (b :: s).idxOf c := by
        rw [List.idxOf_cons_ne s found]
        omega
      have listed : c ∈ b :: s ↔ c ∈ s := by
        rw [List.mem_cons]
        exact or_iff_right (Ne.symm found)
      rw [if_neg found, if_neg found, stops, finds, place]
      simp only [listed]
      exact ⟨trivial, trivial⟩

theorem strchr_constant (at_p : CString mem p s) (inside : p + s.length < WORD)
    (enough : s.length < bound) (c : UInt8) :
    strchr mem c bound p = some ((JosRuncmd.strchr s c).elim 0 (p + ·)) := by
  have first : JosRuncmd.strchr s c = if c ∈ s then some (s.idxOf c) else none := by
    clear at_p inside enough
    induction s with
    | nil => rfl
    | cons b s ih =>
      unfold JosRuncmd.strchr
      by_cases found : b = c
      · rw [if_pos found, found, if_pos List.mem_cons_self, List.idxOf_cons_self]
      · rw [if_neg found, ih, List.idxOf_cons_ne s found]
        simp only [List.mem_cons, Ne.symm found, false_or]
        split <;> rfl
  rw [(scans_stop at_p inside enough c).2, first]
  split <;> rfl

theorem strfind_loop {s : JosMachine.State} {c : UInt8} {p fuel : Nat} {r : Option Nat}
    (shown : ∀ q b, JosDebuginfo.byteAt s q = some b → mem q = b)
    (run : (WhileLoop.loop (JosDebuginfo.strfindStep s c) fuel p).result = some r) :
    strfind mem c fuel p = r := by
  induction fuel generalizing p with
  | zero => exact Option.some.inj run
  | succ fuel ih =>
    unfold strfind
    cases here : JosDebuginfo.byteAt s p with
    | none =>
      unfold WhileLoop.loop JosDebuginfo.strfindStep JosDebuginfo.strByte at run
      rw [here] at run
      cases run
    | some b =>
      have step : (JosDebuginfo.strfindStep s c p).result =
          some (if b = 0 ∨ b = c then none else some ((p + 1) % WORD)) := by
        unfold JosDebuginfo.strfindStep JosDebuginfo.strByte
        rw [here, EventLog.Logged.event_some]
        dsimp only
        split <;> rfl
      unfold WhileLoop.loop at run
      rw [EventLog.bind_result step] at run
      rw [shown p b here]
      by_cases nul : b = 0
      · rw [if_pos (Or.inl nul)] at run
        rw [if_neg (not_not.mpr nul)]
        exact Option.some.inj run
      · rw [if_pos nul]
        by_cases found : b = c
        · rw [if_pos (Or.inr found)] at run
          rw [if_pos found]
          exact Option.some.inj run
        · rw [if_neg (not_or.mpr ⟨nul, found⟩)] at run
          rw [if_neg found]
          exact ih run

theorem load_first (mem : Mem) (p n : Nat) (word : p < WORD) :
    JosStringMoves.load mem p (n + 1) = mem p :: JosStringMoves.load mem (p + 1) n := by
  unfold JosStringMoves.load
  rw [List.range_succ_eq_map, List.map_cons, List.map_map, Nat.add_zero, Nat.mod_eq_of_lt word]
  refine congrArg _ (List.map_congr_left fun k _ => ?_)
  rw [Function.comp_apply, Nat.succ_eq_add_one, Nat.add_comm k 1, Nat.add_assoc]

theorem memfind_stops {n : Nat} (fits : p + n < WORD) (c : BitVec 32) :
    memfind mem p c n = p + (JosStringMoves.load mem p n).idxOf (UInt8.ofNat c.toNat) := by
  unfold memfind
  rw [Nat.mod_eq_of_lt fits]
  generalize UInt8.ofNat c.toNat = b
  induction n generalizing p with
  | zero => rfl
  | succ n ih =>
    have next : (p + 1) % WORD = p + 1 := Nat.mod_eq_of_lt (by omega)
    have ends : p + (n + 1) = p + 1 + n := by omega
    unfold memfindLoop
    rw [load_first mem p n (by omega), if_pos (by omega), next]
    by_cases found : mem p = b
    · rw [if_pos found, found, List.idxOf_cons_self]
      rfl
    · rw [if_neg found, List.idxOf_cons_ne _ found, ends, ih (by omega)]
      omega

end Scans

end JosStringCopies
