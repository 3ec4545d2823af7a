import Jos.FirstDifference
import Jos.Runcmd

/- strcmp, strncmp and memcmp of lib/string.c: one order on strings, the lexicographic one on
   unsigned bytes. -/
namespace JosStringOrder
open JosLayout JosPrintfmt JosPrintfChars JosStrtol FirstDifference

/-- The loop compares chars, which are signed; what is returned is the difference of unsigned chars.
    none if it goes on for more than bound characters. -/
def strcmp (mem : Mem) : (bound : Nat) → Nat → Nat → Option Int
  | 0, _, _ => none
  | bound + 1, p, q =>
    if mem p ≠ 0 ∧ signed (mem p) = signed (mem q) then strcmp mem bound ((p + 1) % WORD) ((q + 1) % WORD)
    else some ((mem p).toNat - (mem q).toNat)

def strncmp (mem : Mem) : (n : Nat) → Nat → Nat → Int
  | 0, _, _ => 0
  | n + 1, p, q =>
    if mem p ≠ 0 ∧ signed (mem p) = signed (mem q) then strncmp mem n ((p + 1) % WORD) ((q + 1) % WORD)
    else (mem p).toNat - (mem q).toNat

def memcmp (mem : Mem) : (n : Nat) → Nat → Nat → Int
  | 0, _, _ => 0
  | n + 1, s1, s2 =>
    if mem s1 ≠ mem s2 then (mem s1).toNat - (mem s2).toNat
    else memcmp mem n ((s1 + 1) % WORD) ((s2 + 1) % WORD)

inductive CString (mem : Mem) : Nat → List UInt8 → Prop
  | nul {p : Nat} (ends : mem p = 0) : CString mem p []
  | char {p : Nat} {c : UInt8} {s : List UInt8} (here : mem p = c) (nonzero : c ≠ 0)
      (later : CString mem ((p + 1) % WORD) s) : CString mem p (c :: s)

def unsigned (c : UInt8) : Int := c.toNat

def Compares (mem : Mem) (p q : Nat) (d : Int) : Prop :=
  ∃ least, ∀ bound, least < bound → strcmp mem bound p q = some d

theorem signed_inj {b c : UInt8} : signed b = signed c ↔ b = c := by
  constructor
  · intro same
    rw [← lowByte_signed b, same, lowByte_signed]
  · exact congrArg signed

theorem unsigned_inj {b c : UInt8} : unsigned b = unsigned c ↔ b = c := by
  unfold unsigned
  rw [Int.natCast_inj, UInt8.toNat_inj]

theorem unsigned_strings {s t : List UInt8} : s.map unsigned = t.map unsigned ↔ s = t :=
  (List.map_injective_iff.mpr fun _ _ same => unsigned_inj.mp same).eq_iff

section Strings
variable {mem : Mem} {p q : Nat} {s t : List UInt8}

theorem string_positive (at_p : CString mem p s) : ∀ c ∈ s, 0 < unsigned c := by
  induction at_p with
  | nul ends => simp
  | char here nonzero later ih =>
    intro c listed
    rcases List.mem_cons.mp listed with rfl | rest
    · have positive : c.toNat ≠ 0 := fun zero => nonzero (UInt8.toNat_inj.mp zero)
      unfold unsigned
      omega
    · exact ih c rest

inductive Heads (mem : Mem) (p q : Nat) : List UInt8 → List UInt8 → Prop
  | next {c : UInt8} {s t : List UInt8} (at_p : mem p = c) (at_q : mem q = c) (nonzero : c ≠ 0)
      (p_later : CString mem ((p + 1) % WORD) s) (q_later : CString mem ((q + 1) % WORD) t) :
      Heads mem p q (c :: s) (c :: t)
  | last {s t : List UInt8} (stops : ¬ (mem p ≠ 0 ∧ signed (mem p) = signed (mem q)))
      (empty : mem p = mem q → s = [])
      (ends : ∀ n, difference unsigned (s.take (n + 1)) (t.take (n + 1)) = (mem p).toNat - (mem q).toNat) :
      Heads mem p q s t

theorem heads (at_p : CString mem p s) (at_q : CString mem q t) : Heads mem p q s t := by
  cases at_p with
  | nul p_ends =>
    refine .last (fun goes_on => goes_on.1 p_ends) (fun _ => rfl) ?_
    intro n
    cases at_q with
    | nul q_ends =>
      rw [p_ends, q_ends]
      rfl
    | char q_here nonzero later =>
      rw [p_ends, q_here]
      rfl
  | @char _ c s p_here nonzero p_later =>
    cases at_q with
    | nul q_ends =>
      have apart : mem p ≠ mem q := by
        rw [p_here, q_ends]
        exact nonzero
      refine .last (fun goes_on => apart (signed_inj.mp goes_on.2)) (fun same => absurd same apart) ?_
      intro n
      rw [p_here, q_ends]
      rfl
    | @char _ d t q_here _ q_later =>
      by_cases same : c = d
      · subst same
        exact .next p_here q_here nonzero p_later q_later
      · have apart : mem p ≠ mem q := by
          rw [p_here, q_here]
          exact same
        refine .last (fun goes_on => apart (signed_inj.mp goes_on.2)) (fun equal => absurd equal apart) ?_
        intro n
        rw [p_here, q_here]
        exact difference_apart (fun equal => same (unsigned_inj.mp equal)) _ _

theorem uncut {d : Int} (ends : ∀ n, difference unsigned (s.take (n + 1)) (t.take (n + 1)) = d) :
    difference unsigned s t = d := by
  have whole := ends (s.length + t.length)
  rw [List.take_of_length_le (by omega), List.take_of_length_le (by omega)] at whole
  exact whole

theorem strcmp_difference (at_p : CString mem p s) (at_q : CString mem q t) (bound : Nat)
    (enough : min s.length t.length < bound) : strcmp mem bound p q = some (difference unsigned s t) := by
  induction bound generalizing p q s t with
  | zero => cases enough
  | succ bound ih =>
    unfold strcmp
    cases heads at_p at_q with
    | next p_here q_here nonzero p_later q_later =>
      rw [p_here, q_here, if_pos ⟨nonzero, rfl⟩, difference_same rfl]
      rw [List.length_cons, List.length_cons] at enough
      exact ih p_later q_later (by omega)
    | last stops empty ends =>
      rw [if_neg stops, uncut ends]

theorem strncmp_difference (at_p : CString mem p s) (at_q : CString mem q t) (n : Nat) :
    strncmp mem n p q = difference unsigned (s.take n) (t.take n) := by
  induction n generalizing p q s t with
  | zero => rfl
  | succ n ih =>
    unfold strncmp
    cases heads at_p at_q with
    | next p_here q_here nonzero p_later q_later =>
      rw [p_here, q_here, if_pos ⟨nonzero, rfl⟩, List.take_succ_cons, List.take_succ_cons, difference_same rfl]
      exact ih p_later q_later
    | last stops empty ends =>
      rw [if_neg stops, ends n]

theorem memcmp_difference (at_p : CString mem p s) (at_q : CString mem q t) (k : Nat)
    (shorter : min s.length t.length = k) : memcmp mem (k + 1) p q = difference unsigned s t := by
  induction k generalizing p q s t with
  | zero =>
    unfold memcmp
    cases heads at_p at_q with
    | next p_here q_here nonzero p_later q_later =>
      rw [List.length_cons, List.length_cons] at shorter
      omega
    | last stops empty ends =>
      rw [uncut ends]
      by_cases same : mem p = mem q
      · rw [if_neg (not_not.mpr same), same, Int.sub_self]
        rfl
      · rw [if_pos same]
  | succ k ih =>
    unfold memcmp
    cases heads at_p at_q with
    | next p_here q_here nonzero p_later q_later =>
      rw [List.length_cons, List.length_cons] at shorter
      rw [p_here, q_here, if_neg (not_not.mpr rfl), difference_same rfl]
      exact ih p_later q_later (by omega)
    | last stops empty ends =>
      by_cases same : mem p = mem q
      · rw [empty same, List.length_nil] at shorter
        omega
      · rw [if_pos same, uncut ends]

theorem compares (at_p : CString mem p s) (at_q : CString mem q t) :
    Compares mem p q (difference unsigned s t) :=
  ⟨min s.length t.length, fun bound enough => strcmp_difference at_p at_q bound enough⟩

theorem strcmp_constant (at_p : CString mem p s) (at_q : CString mem q t) :
    Compares mem p q (JosRuncmd.strcmp mem p t) := by
  have same : JosRuncmd.strcmp mem p t = difference unsigned s t := by
    induction at_q generalizing p s with
    | nul ends =>
      unfold JosRuncmd.strcmp
      cases at_p with
      | nul p_ends =>
        rw [p_ends]
        rfl
      | char p_here nonzero later =>
        rw [p_here]
        rfl
    | @char _ c _ q_here q_nonzero later ih =>
      unfold JosRuncmd.strcmp
      cases at_p with
      | nul p_ends =>
        rw [if_neg (fun goes_on => goes_on.1 p_ends), p_ends]
        rfl
      | @char _ b _ p_here nonzero p_later =>
        rw [p_here]
        by_cases same : b = c
        · rw [if_pos ⟨nonzero, same⟩, same, difference_same rfl]
          exact ih p_later
        · rw [if_neg (fun goes_on => same goes_on.2),
            difference_apart (fun equal => same (unsigned_inj.mp equal))]
          rfl
  rw [same]
  exact compares at_p at_q

end Strings

/-- The signs of comparing s with t, t with s, t with u and s with u. -/
structure OneOrder (s t : List UInt8) (st ts tu su : Int) : Prop where
  equal : st = 0 ↔ s = t
  below : st < 0 ↔ s.map unsigned < t.map unsigned
  above : 0 < st ↔ t.map unsigned < s.map unsigned
  antisymmetric : ts.sign = -st.sign
  transitive : st ≤ 0 → tu ≤ 0 → su ≤ 0
  strict_left : st < 0 → tu ≤ 0 → su < 0
  strict_right : st ≤ 0 → tu < 0 → su < 0

theorem oneOrder {s t u : List UInt8} (s_positive : ∀ c ∈ s, 0 < unsigned c) (t_positive : ∀ c ∈ t, 0 < unsigned c)
    (u_positive : ∀ c ∈ u, 0 < unsigned c) : OneOrder s t (difference unsigned s t) (difference unsigned t s)
      (difference unsigned t u) (difference unsigned s u) where
  equal := (difference_zero_iff s_positive t_positive).trans unsigned_strings
  below := difference_neg_iff s_positive t_positive
  above := difference_pos_iff s_positive t_positive
  antisymmetric := by rw [difference_swap s t, Int.sign_neg]
  transitive first second := by
    rw [difference_nonpos_iff s_positive t_positive] at first
    rw [difference_nonpos_iff t_positive u_positive] at second
    exact (difference_nonpos_iff s_positive u_positive).mpr (first.trans second)
  strict_left first second := by
    rw [difference_neg_iff s_positive t_positive] at first
    rw [difference_nonpos_iff t_positive u_positive] at second
    exact (difference_neg_iff s_positive u_positive).mpr (first.trans_le second)
  strict_right first second := by
    rw [difference_nonpos_iff s_positive t_positive] at first
    rw [difference_neg_iff t_positive u_positive] at second
    exact (difference_neg_iff s_positive u_positive).mpr (first.trans_lt second)

/-- strcmp is the lexicographic order on unsigned bytes; strncmp is strcmp on the strings cut to n
    bytes, wherever these are; memcmp up to the NUL of the shorter string is strcmp. -/
theorem strings_ordered {mem : Mem} {p q r : Nat} {s t u : List UInt8} (at_p : CString mem p s)
    (at_q : CString mem q t) (at_r : CString mem r u) :
    (∃ pq qp qr pr, (Compares mem p q pq ∧ Compares mem q p qp ∧ Compares mem q r qr ∧ Compares mem p r pr) ∧
      OneOrder s t pq qp qr pr ∧ memcmp mem (min s.length t.length + 1) p q = pq) ∧
    ∀ n mem' p' q', CString mem' p' (s.take n) → CString mem' q' (t.take n) →
      Compares mem' p' q' (strncmp mem n p q) := by
  constructor
  · have order := oneOrder (string_positive at_p) (string_positive at_q) (string_positive at_r)
    exact ⟨_, _, _, _, ⟨compares at_p at_q, compares at_q at_p, compares at_q at_r, compares at_p at_r⟩, order,
      memcmp_difference at_p at_q _ rfl⟩
  · intro n mem' p' q' at_p' at_q'
    rw [strncmp_difference at_p at_q]
    exact compares at_p' at_q'

def someBytes : Mem := fun a => [0x80, 0, 0x7f].getD a 0

theorem strings_ordered_high :
    (∃ pq qp qr pr, (Compares someBytes 0 2 pq ∧ Compares someBytes 2 0 qp ∧ Compares someBytes 2 1 qr ∧
        Compares someBytes 0 1 pr) ∧
      OneOrder [0x80] [0x7f] pq qp qr pr ∧ memcmp someBytes (min 1 1 + 1) 0 2 = pq) ∧
    ∀ n mem' p' q', CString mem' p' (List.take n [0x80]) → CString mem' q' (List.take n [0x7f]) →
      Compares mem' p' q' (strncmp someBytes n 0 2) :=
  strings_ordered (.char rfl (by decide) (.nul rfl)) (.char rfl (by decide) (.nul rfl))
    (show CString someBytes 1 [] from .nul rfl)

end JosStringOrder
