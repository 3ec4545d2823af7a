import Jos.PrintfFields

/- The scanner of vprintfmt against the directive as it is written in the format. -/
namespace JosPrintfDirectives
open JosLayout JosPrintfmt JosPrintfFields Numerals

inductive Limit where
  | absent
  | digits (ds : List Nat) (some_digit : ds ≠ []) (decimal : ∀ d ∈ ds, d < 10)
      (fits : readFrom 10 0 ds < 2147483648)
  | star

namespace Limit

def chars : Limit → List UInt8
  | absent => []
  | digits ds _ _ _ => byte '.' :: ds.map digitByte
  | star => [byte '.', byte '*']

def value (args : Nat → Arg) (ap : Nat) : Limit → Int
  | absent => -1
  | digits ds _ _ _ => (readFrom 10 0 ds : Nat)
  | star => asInt (args ap)

def after (ap : Nat) : Limit → Nat
  | absent => ap
  | digits _ _ _ _ => ap
  | star => ap + 1

def padc (before : Int) : Limit → Int
  | absent => before
  | digits ds _ _ _ => if ds.head? = some 0 then '0'.toNat else before
  | star => before

def width (before : Int) : Limit → Int
  | absent => before
  | digits _ _ _ _ => if before < 0 then 0 else before
  | star => if before < 0 then 0 else before

def taken (args : Nat → Arg) (ap : Nat) : Limit → Int
  | absent => -1
  | digits ds _ _ _ => if readFrom 10 0 ds = 0 then -1 else (readFrom 10 0 ds : Nat)
  | star => asInt (args ap)

/-- The digits do not begin with '0', or the padding is by '0' and another digit follows. -/
def Clear (padc : Int) : Limit → Prop
  | digits ds _ _ _ => ds.head? ≠ some 0 ∨ padc = '0'.toNat ∧ readFrom 10 0 ds ≠ 0
  | _ => True

end Limit

structure Written where
  flag : Flag
  width : Width
  limit : Limit
  longs : Nat
  conv : UInt8
  ends : ¬ goesOn conv

namespace Written

def chars (f : Written) : List UInt8 :=
  f.flag.chars ++ (f.width.chars ++ (f.limit.chars ++ (List.replicate f.longs (byte 'l') ++ [f.conv])))

end Written

/-- The scanner has reached the conversion character, with everything as it is written. -/
structure ReadAs (args : Nat → Arg) (ap : Nat) (f : Written) (rest : List UInt8) (d : Directive) :
    Prop where
  padc : d.spec.padc = f.flag.padc
  width : d.spec.width = f.width.value args ap ∨ f.width = .absent ∧ d.spec.width = 0
  precision : d.spec.precision = f.limit.value args (f.width.after ap)
  lflag : d.spec.lflag = f.longs
  position : d.ap = f.limit.after (f.width.after ap)
  conv : d.conv = f.conv
  rest : d.rest = rest

section Scan
variable {args : Nat → Arg} {sp : Spec} {ap : Nat} {c : UInt8} {fmt : List UInt8}

theorem scan_zero (sp : Spec) (ap : Nat) (fmt : List UInt8) :
    scan args none sp ap (digitByte 0 :: fmt) = scan args none { sp with padc := '0'.toNat } ap fmt := by
  conv => lhs; unfold scan
  rfl

theorem readFrom_zero (ds : List Nat) : readFrom 10 0 (0 :: ds) = readFrom 10 0 ds := rfl

theorem scan_limit_digits (ds : List Nat) (decimal : ∀ d ∈ ds, d < 10)
    (fits : readFrom 10 0 ds < 2147483648) (wide : 0 ≤ sp.width) (unset : sp.precision = -1)
    (other : ¬ isDigit c) :
    scan args none sp ap (ds.map digitByte ++ c :: fmt) =
      scan args none { sp with
        padc := if ds.head? = some 0 then '0'.toNat else sp.padc
        precision := if readFrom 10 0 ds = 0 then -1 else (readFrom 10 0 ds : Nat) } ap (c :: fmt) := by
  induction ds generalizing sp with
  | nil =>
    rw [← unset]
    rfl
  | cons d ds ih =>
    have later : ∀ e ∈ ds, e < 10 := fun e listed => decimal e (List.mem_cons_of_mem d listed)
    by_cases zero : d = 0
    · subst zero
      rw [readFrom_zero] at fits ⊢
      have rest := @ih { sp with padc := '0'.toNat } later fits wide unset
      rw [List.map_cons, List.cons_append, scan_zero, rest]
      have same : (if ds.head? = some 0 then ('0'.toNat : Int) else '0'.toNat) = '0'.toNat := ite_self _
      dsimp only
      rw [same]
      rfl
    · have value : readFrom 10 0 (d :: ds) = readFrom 10 d ds := by
        change readFrom 10 (0 * 10 + d) ds = _
        rw [Nat.zero_mul, Nat.zero_add]
      have positive : 0 < readFrom 10 d ds :=
        Nat.lt_of_lt_of_le (Nat.pos_of_ne_zero zero) (readFrom_ge (by decide) d ds)
      have head : (d :: ds).head? ≠ some 0 := by
        intro same
        exact zero (Option.some.inj same)
      rw [value] at fits ⊢
      rw [scan_number (Nat.pos_of_ne_zero zero) decimal fits other, if_neg head,
        if_neg (Nat.ne_of_gt positive)]
      have kept : sp.flush (some (readFrom 10 d ds : Nat)) =
          { sp with precision := (readFrom 10 d ds : Nat) } :=
        if_neg (Int.not_lt.mpr wide)
      rw [kept]

theorem scan_limit (limit : Limit) (unset : sp.precision = -1) (other : ¬ isDigit c) :
    scan args none sp ap (limit.chars ++ c :: fmt) =
      scan args none { sp with
        padc := limit.padc sp.padc
        width := limit.width sp.width
        precision := limit.taken args ap } (limit.after ap) (c :: fmt) := by
  have wide : 0 ≤ if sp.width < 0 then 0 else sp.width := by
    split
    · exact Int.le_refl 0
    · omega
  cases limit with
  | absent =>
    unfold Limit.taken
    rw [← unset]
    rfl
  | star =>
    have taken : Spec.processPrecision
        { sp with width := if sp.width < 0 then 0 else sp.width, precision := asInt (args ap) } =
          { sp with width := if sp.width < 0 then 0 else sp.width, precision := asInt (args ap) } :=
      if_neg (Int.not_lt.mpr wide)
    unfold Limit.chars
    rw [List.cons_append, scan_dot, List.singleton_append, scan_star, taken]
    rfl
  | digits ds some_digit decimal fits =>
    have read := @scan_limit_digits args { sp with width := if sp.width < 0 then 0 else sp.width } ap c fmt
      ds decimal fits wide unset other
    unfold Limit.chars
    rw [List.cons_append, scan_dot, read]
    rfl

theorem limit_clear (args : Nat → Arg) (ap : Nat) (limit : Limit) (padc : Int) :
    limit.padc padc = padc ∧ limit.taken args ap = limit.value args ap ↔ limit.Clear padc := by
  cases limit with
  | absent => exact iff_of_true ⟨rfl, rfl⟩ trivial
  | star => exact iff_of_true ⟨rfl, rfl⟩ trivial
  | digits ds some_digit decimal fits =>
    unfold Limit.padc Limit.taken Limit.value Limit.Clear
    dsimp only
    have value : (if readFrom 10 0 ds = 0 then -1 else ((readFrom 10 0 ds : Nat) : Int)) =
        (readFrom 10 0 ds : Nat) ↔ readFrom 10 0 ds ≠ 0 := by
      split
      · omega
      · omega
    rw [value]
    by_cases zero : ds.head? = some 0
    · rw [if_pos zero]
      constructor
      · exact fun both => Or.inr ⟨both.1.symm, both.2⟩
      · intro either
        obtain ⟨pad, nonzero⟩ := either.resolve_left (fun other => other zero)
        exact ⟨pad.symm, nonzero⟩
    · rw [if_neg zero]
      refine iff_of_true ⟨rfl, ?_⟩ (Or.inl zero)
      cases ds with
      | nil => exact absurd rfl some_digit
      | cons d ds =>
        have positive : 0 < d := Nat.pos_of_ne_zero fun same => zero (congrArg some same)
        have more : 0 * 10 + d ≤ readFrom 10 0 (d :: ds) := readFrom_ge (by decide) (0 * 10 + d) ds
        omega

theorem scan_written (f : Written) (args : Nat → Arg) (ap : Nat) (rest : List UInt8) :
    scan args none Spec.start ap (f.chars ++ rest) =
      ⟨⟨f.limit.padc f.flag.padc, f.limit.width (f.width.value args ap),
        f.limit.taken args (f.width.after ap), f.longs, false⟩,
        f.limit.after (f.width.after ap), f.conv, rest⟩ := by
  have letter : ¬ isDigit f.conv := fun digit => f.ends (Or.inr (Or.inl digit))
  have first : ∃ c fmt, List.replicate f.longs (byte 'l') ++ f.conv :: rest = c :: fmt ∧ ¬ isDigit c := by
    cases f.longs with
    | zero => exact ⟨_, _, rfl, letter⟩
    | succ n => exact ⟨_, _, rfl, by decide⟩
  obtain ⟨c, fmt, same, other⟩ := first
  have second : ∃ c' fmt', f.limit.chars ++ c :: fmt = c' :: fmt' ∧ ¬ isDigit c' := by
    cases f.limit with
    | absent => exact ⟨_, _, rfl, other⟩
    | digits ds some_digit decimal fits => exact ⟨_, _, rfl, by decide⟩
    | star => exact ⟨_, _, rfl, by decide⟩
  obtain ⟨c', fmt', same', other'⟩ := second
  have split : f.chars ++ rest = f.flag.chars ++ (f.width.chars ++ c' :: fmt') := by
    unfold Written.chars
    rw [← same', ← same]
    simp only [List.append_assoc, List.singleton_append]
  rw [split, scan_flag, scan_width f.width rfl rfl other', ← same', scan_limit f.limit rfl other, ← same,
    scan_longs, scan_ends _ _ f.ends]
  simp only [Spec.start, Nat.zero_add]

end Scan

/-- A directive is read as it is written exactly when its precision is clear. -/
theorem directive_read_iff (f : Written) (args : Nat → Arg) (ap : Nat) (rest : List UInt8)
    (given : f.width = .star → 0 ≤ asInt (args ap)) :
    ReadAs args ap f rest (scan args none Spec.start ap (f.chars ++ rest)) ↔
      f.limit.Clear f.flag.padc := by
  have low : f.width = .absent ∨ 0 ≤ f.width.value args ap := by
    cases width : f.width with
    | absent => exact Or.inl rfl
    | digits w positive fits => exact Or.inr (Int.natCast_nonneg w)
    | star => exact Or.inr (given width)
  have width : f.limit.width (f.width.value args ap) = f.width.value args ap ∨
      f.width = .absent ∧ f.limit.width (f.width.value args ap) = 0 := by
    cases low with
    | inl absent =>
      rw [absent]
      cases f.limit with
      | absent => exact Or.inl rfl
      | digits ds some_digit decimal fits => exact Or.inr ⟨rfl, rfl⟩
      | star => exact Or.inr ⟨rfl, rfl⟩
    | inr present =>
      left
      cases f.limit with
      | absent => rfl
      | digits ds some_digit decimal fits => exact if_neg (Int.not_lt.mpr present)
      | star => exact if_neg (Int.not_lt.mpr present)
  rw [scan_written, ← limit_clear args (f.width.after ap)]
  constructor
  · exact fun read => ⟨read.padc, read.precision⟩
  · exact fun both => ⟨both.1, width, both.2, rfl, rfl, rfl, rfl⟩

def starred : Written := ⟨.zero, .star, .star, 2, byte 'd', by decide⟩

theorem directive_read_iff_starred :
    ReadAs (argList [.word 7, .word 3] fun _ => .word 0) 0 starred []
      (scan (argList [.word 7, .word 3] fun _ => .word 0) none Spec.start 0 (starred.chars ++ [])) :=
  (directive_read_iff starred _ 0 [] fun _ => by decide).mpr trivial

def nothing : Written := ⟨.none, .absent, .digits [0] (by decide) (by decide) (by decide), 0, byte 's', by decide⟩

/-- The precision 0 of %.0s is taken for the flag, and the whole string is printed. -/
theorem directive_misread : ¬ ∀ (f : Written) (args : Nat → Arg) (ap : Nat) (rest : List UInt8),
    (f.width = .star → 0 ≤ asInt (args ap)) →
    ReadAs args ap f rest (scan args none Spec.start ap (f.chars ++ rest)) := by
  intro claim
  have read := claim nothing (fun _ => .word 0) 0 [] (fun star => by cases star)
  exact absurd read.precision (by decide)

end JosPrintfDirectives
