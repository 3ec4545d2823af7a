import Jos.Numerals
import Jos.PrintfChars

/- The numeric conversions of vprintfmt: how their directives are read, and what they print
   against the field the directive asks for. -/
namespace JosPrintfFields
open JosLayout JosPrintfmt JosPrintfChars Numerals

def byte (c : Char) : UInt8 := UInt8.ofNat c.toNat

theorem percent_opens : ¬ (byte '%').toNat ≠ '%'.toNat := by decide

def digitByte (d : Nat) : UInt8 := UInt8.ofNat ('0'.toNat + d)

inductive Flag where
  | none
  | zero
  | minus
  deriving DecidableEq

namespace Flag

def chars : Flag → List UInt8
  | none => []
  | zero => [byte '0']
  | minus => [byte '-']

def padc : Flag → Int
  | none => ' '.toNat
  | zero => '0'.toNat
  | minus => '-'.toNat

end Flag

/-- A width given by digits does not begin with '0', which is a flag. -/
inductive Width where
  | absent
  | digits (w : Nat) (positive : 0 < w) (fits : w < 2147483648)
  | star

namespace Width

def chars : Width → List UInt8
  | absent => []
  | digits w _ _ => (numeral 10 w).map digitByte
  | star => [byte '*']

def value (args : Nat → Arg) (ap : Nat) : Width → Int
  | absent => -1
  | digits w _ _ => w
  | star => asInt (args ap)

def after (ap : Nat) : Width → Nat
  | absent => ap
  | digits _ _ _ => ap
  | star => ap + 1

end Width

section Scan
variable {args : Nat → Arg} {sp : Spec} {ap : Nat} {c : UInt8} {fmt : List UInt8}

theorem scan_flag (flag : Flag) (fmt : List UInt8) :
    scan args none Spec.start ap (flag.chars ++ fmt) =
      scan args none { Spec.start with padc := flag.padc } ap fmt := by
  cases flag with
  | none => rfl
  | zero =>
    conv => lhs; unfold Flag.chars; rw [List.singleton_append]; unfold scan
    rfl
  | minus =>
    conv => lhs; unfold Flag.chars; rw [List.singleton_append]; unfold scan
    rfl

theorem digitByte_toNat {d : Nat} (small : d < 10) : (digitByte d).toNat = 48 + d := by
  unfold digitByte
  rw [UInt8.toNat_ofNat', show '0'.toNat = 48 from rfl]
  omega

theorem digitByte_digit {d : Nat} (small : d < 10) : isDigit (digitByte d) := by
  unfold isDigit
  rw [digitByte_toNat small, show '0'.toNat = 48 from rfl, show '9'.toNat = 57 from rfl]
  omega

theorem scan_digits (v : Nat) (ds : List Nat) (digits : ∀ d ∈ ds, d < 10)
    (fits : readFrom 10 v ds < 2147483648) :
    scan args (some v) sp ap (ds.map digitByte ++ fmt) =
      scan args (some (readFrom 10 v ds : Nat)) sp ap fmt := by
  induction ds generalizing v with
  | nil => rfl
  | cons d ds ih =>
    have small : d < 10 := digits d List.mem_cons_self
    have bound : v * 10 + d < 2147483648 :=
      Nat.lt_of_le_of_lt (readFrom_ge (by decide) (v * 10 + d) ds) fits
    have value : wrap ((v : Int) * 10 + (digitByte d).toNat - '0'.toNat) = (v * 10 + d : Nat) := by
      rw [digitByte_toNat small, show ('0'.toNat : Int) = 48 from rfl]
      rw [wrap_small (by omega) (by omega)]
      omega
    rw [List.map_cons, List.cons_append]
    conv => lhs; unfold scan
    rw [if_pos ⟨rfl, digitByte_digit small⟩, Option.map_some, value]
    exact ih (v * 10 + d) (fun x listed => digits x (List.mem_cons_of_mem d listed)) fits

theorem scan_number_end (v : Int) (other : ¬ isDigit c) :
    scan args (some v) sp ap (c :: fmt) = scan args none (sp.flush (some v)) ap (c :: fmt) := by
  have outside : ¬ ((none : Option Int).isSome = true ∧ isDigit c) := fun both => other both.2
  have inside : ¬ ((some v).isSome = true ∧ isDigit c) := fun both => other both.2
  conv => lhs; unfold scan; rw [if_neg inside]
  conv => rhs; unfold scan; rw [if_neg outside]
  rfl

theorem scan_ends (sp : Spec) (ap : Nat) (ends : ¬ goesOn c) :
    scan args none sp ap (c :: fmt) = ⟨sp, ap, c, fmt⟩ := by
  cases scan_round args none sp ap c fmt with
  | inl goes_on => exact absurd goes_on.1 ends
  | inr stops => exact stops.2

theorem scan_escape {c : UInt8} (args : Nat → Arg) (num : Option Int) (sp : Spec) (ap : Nat) (esc rest : List UInt8)
    (plain : ∀ x ∈ esc, goesOn x) (ends : ¬ goesOn c) :
    ∃ sp', scan args num sp ap (esc ++ c :: rest) = ⟨sp', ap + stars esc, c, rest⟩ := by
  induction esc generalizing num sp ap with
  | nil =>
    rcases scan_round args num sp ap c rest with ⟨goes_on, _⟩ | ⟨_, stops⟩
    · exact absurd goes_on ends
    · exact ⟨_, stops⟩
  | cons x esc ih =>
    rcases scan_round args num sp ap x (esc ++ c :: rest) with ⟨_, num', sp', goes_on, _⟩ | ⟨stops, _⟩
    · obtain ⟨sp'', found⟩ := ih num' sp' (ap + stars [x]) fun y listed =>
        plain y (List.mem_cons_of_mem x listed)
      refine ⟨sp'', ?_⟩
      rw [List.cons_append, goes_on, found, stars_cons x esc, Nat.add_assoc]
    · exact absurd (plain x List.mem_cons_self) stops

theorem scan_unended (args : Nat → Arg) (num : Option Int) (sp : Spec) (ap : Nat) (esc : List UInt8)
    (plain : ∀ x ∈ esc, goesOn x) :
    ∃ sp', scan args num sp ap esc = ⟨sp', ap + stars esc, 0, []⟩ := by
  induction esc generalizing num sp ap with
  | nil => exact ⟨_, rfl⟩
  | cons x esc ih =>
    rcases scan_round args num sp ap x esc with ⟨_, num', sp', goes_on, _⟩ | ⟨stops, _⟩
    · obtain ⟨sp'', found⟩ := ih num' sp' (ap + stars [x]) fun y listed =>
        plain y (List.mem_cons_of_mem x listed)
      refine ⟨sp'', ?_⟩
      rw [goes_on, found, stars_cons x esc, Nat.add_assoc]
    · exact absurd (plain x List.mem_cons_self) stops

theorem scan_star (sp : Spec) (ap : Nat) (fmt : List UInt8) :
    scan args none sp ap (byte '*' :: fmt) =
      scan args none { sp with precision := asInt (args ap) }.processPrecision (ap + 1) fmt := by
  conv => lhs; unfold scan
  rfl

theorem scan_dot (sp : Spec) (ap : Nat) (fmt : List UInt8) :
    scan args none sp ap (byte '.' :: fmt) =
      scan args none { sp with width := if sp.width < 0 then 0 else sp.width } ap fmt := by
  have same : (if sp.width < 0 then { sp with width := 0 } else sp) =
      { sp with width := if sp.width < 0 then 0 else sp.width } := by
    by_cases missing : sp.width < 0
    · rw [if_pos missing, if_pos missing]
    · rw [if_neg missing, if_neg missing]
  conv => lhs; unfold scan
  rw [← same]
  rfl

/-- A number that does not begin with '0' is the precision, and then perhaps the width. -/
theorem scan_number {d : Nat} {ds : List Nat} (nonzero : 0 < d) (digits : ∀ e ∈ d :: ds, e < 10)
    (fits : readFrom 10 d ds < 2147483648) (other : ¬ isDigit c) :
    scan args none sp ap ((d :: ds).map digitByte ++ c :: fmt) =
      scan args none (sp.flush (some (readFrom 10 d ds : Nat))) ap (c :: fmt) := by
  have first : d < 10 := digits d List.mem_cons_self
  have value := digitByte_toNat first
  have opens : scan args none sp ap (digitByte d :: (ds.map digitByte ++ c :: fmt)) =
      scan args (some d) sp ap (ds.map digitByte ++ c :: fmt) := by
    conv => lhs; unfold scan
    rw [if_neg (by simp)]
    dsimp only
    rw [if_neg (by rw [value]; change 48 + d ≠ 45; omega),
      if_neg (by rw [value]; change 48 + d ≠ 48; omega), if_pos (digitByte_digit first), value]
    change scan args (some ((48 + d : Nat) - (48 : Int))) sp ap _ = _
    rw [show ((48 + d : Nat) - (48 : Int)) = d by omega]
  rw [List.map_cons, List.cons_append, opens,
    scan_digits d ds (fun x listed => digits x (List.mem_cons_of_mem d listed)) fits,
    scan_number_end _ other]

theorem scan_width (width : Width) (unset : sp.width = -1) (unset' : sp.precision = -1)
    (other : ¬ isDigit c) : scan args none sp ap (width.chars ++ c :: fmt) =
      scan args none { sp with width := width.value args ap } (width.after ap) (c :: fmt) := by
  cases width with
  | absent =>
    unfold Width.value
    rw [← unset]
    rfl
  | star =>
    have taken : ({ sp with precision := asInt (args ap) } : Spec).processPrecision =
        { sp with width := asInt (args ap) } := by
      unfold Spec.processPrecision
      dsimp only
      rw [unset, if_pos (by decide), unset']
    unfold Width.chars Width.value Width.after
    rw [List.singleton_append, scan_star, taken]
  | digits w positive fits =>
    have ten : 1 < 10 := by decide
    obtain ⟨d, ds, split, nonzero⟩ := numeral_head ten w positive
    have small := numeral_lt ten w
    have back := readFrom_numeral ten w
    rw [split] at small back
    have rest : readFrom 10 d ds = w := by
      rw [← back]
      change _ = readFrom 10 (0 * 10 + d) ds
      rw [Nat.zero_mul, Nat.zero_add]
    have ends : sp.flush (some (w : Int)) = { sp with width := w } := by
      unfold Spec.flush Spec.processPrecision
      dsimp only
      rw [unset, if_pos (by decide), unset']
    change scan args none sp ap ((numeral 10 w).map digitByte ++ c :: fmt) =
      scan args none { sp with width := (w : Int) } ap (c :: fmt)
    rw [split, scan_number nonzero small (by rw [rest]; exact fits) other, rest, ends]

theorem scan_longs (longs : Nat) (sp : Spec) (fmt : List UInt8) :
    scan args none sp ap (List.replicate longs (byte 'l') ++ fmt) =
      scan args none { sp with lflag := sp.lflag + longs } ap fmt := by
  induction longs generalizing sp with
  | zero => rfl
  | succ longs ih =>
    have one : scan args none sp ap (byte 'l' :: (List.replicate longs (byte 'l') ++ fmt)) =
        scan args none { sp with lflag := sp.lflag + 1 } ap (List.replicate longs (byte 'l') ++ fmt) := by
      conv => lhs; unfold scan
      rfl
    rw [List.replicate_succ, List.cons_append, one, ih]
    simp only [Nat.add_assoc, Nat.add_comm 1 longs]

end Scan

section Number

def emits (cs : List Int) : Trace := ⟨cs.map .putch, none⟩

theorem emits_append (cs ds : List Int) : (emits cs).andThen (emits ds) = emits (cs ++ ds) := by
  unfold Trace.andThen emits
  rw [List.map_append]

theorem putches_emits (cs : List Int) : putches (emits cs) = cs := by
  unfold putches emits
  induction cs with
  | nil => rfl
  | cons c cs ih =>
    rw [List.map_cons, List.filterMap_cons]
    exact congrArg (c :: ·) ih

theorem emits_inj {cs ds : List Int} {v : Trace} :
    (emits cs).andThen v = (emits ds).andThen v ↔ cs = ds := by
  constructor
  · intro same
    have events := congrArg Trace.events same
    have inj : Function.Injective Event.putch := fun a b equal => by cases equal; rfl
    exact (List.map_injective_iff.mpr inj) (List.append_cancel_right events)
  · rintro rfl
    rfl

def digitsOf (base n : Nat) : List Int := (numeral base n).map digitChar

theorem printnum_emits {base : Nat} (two : 1 < base) (num : Nat) (width padc : Int)
    (low : -2147483648 ≤ width - (digitsOf base num).length) (high : width < 2147483648) :
    printnum num base width padc =
      emits (List.replicate (width - (digitsOf base num).length).toNat padc ++ digitsOf base num) := by
  induction num using numeral_induct two generalizing width with
  | small n small =>
    have one : digitsOf base n = [digitChar n] := by
      unfold digitsOf
      rw [numeral_small small]
      rfl
    rw [one] at low ⊢
    have kept : wrap (width - 1) = width - 1 := wrap_small low (by omega)
    unfold printnum
    rw [dif_pos (Or.inr small), Nat.mod_eq_of_lt small]
    unfold padBefore
    rw [kept]
    have pad : Trace.pad padc (width - 1).toNat = emits (List.replicate (width - 1).toNat padc) := by
      unfold Trace.pad emits
      rw [List.map_replicate]
    rw [pad]
    exact emits_append _ [digitChar n]
  | large n large ih =>
    have more : digitsOf base n = digitsOf base (n / base) ++ [digitChar (n % base)] := by
      unfold digitsOf
      rw [numeral_step two large, List.map_append]
      rfl
    have some_digit : 0 < (digitsOf base (n / base)).length := by
      unfold digitsOf
      rw [List.length_map]
      exact numeral_length_pos two _
    rw [more, List.length_append] at low ⊢
    simp only [List.length_singleton] at low ⊢
    have kept : wrap (width - 1) = width - 1 := wrap_small (by omega) (by omega)
    have not_small : ¬ (base < 2 ∨ n < base) := by omega
    unfold printnum
    rw [dif_neg not_small, kept, ih (width - 1) (by omega) (by omega)]
    have same : width - 1 - ((digitsOf base (n / base)).length : Int) =
        width - ((digitsOf base (n / base)).length + 1 : Nat) := by omega
    rw [same, ← List.append_assoc]
    exact emits_append _ [digitChar (n % base)]

end Number

inductive Conv where
  | d
  | u
  | x
  deriving DecidableEq

namespace Conv

def char : Conv → UInt8
  | d => byte 'd'
  | u => byte 'u'
  | x => byte 'x'

def base : Conv → Nat
  | d => 10
  | u => 10
  | x => 16

theorem base_two (c : Conv) : 1 < c.base := by
  cases c with
  | d => decide
  | u => decide
  | x => decide

theorem base_hex (c : Conv) : c.base ≤ 16 := by
  cases c with
  | d => decide
  | u => decide
  | x => decide

def value (args : Nat → Arg) (ap longs : Nat) : Conv → Int
  | d => (getint args ap longs).1
  | u => (getuint args ap longs).1
  | x => (getuint args ap longs).1

end Conv

/-- A numeric conversion, as the format has it. -/
structure Field where
  flag : Flag
  width : Width
  longs : Nat
  conv : Conv

namespace Field
variable (f : Field) (args : Nat → Arg) (ap : Nat)

def format : List UInt8 :=
  byte '%' :: (f.flag.chars ++ (f.width.chars ++ (List.replicate f.longs (byte 'l') ++ [f.conv.char])))

def asked : Int := f.width.value args ap

def value : Int := f.conv.value args (f.width.after ap) f.longs

def after : Nat := f.width.after ap + if f.longs ≥ 2 then 2 else 1

def digits : List Int := digitsOf f.conv.base (f.value args ap).natAbs

end Field

def sign (v : Int) : List Int := if v < 0 then [('-'.toNat : Int)] else []

/-- The field a flag asks for: the signed numeral with what fills it up to the width w. -/
def padded (flag : Flag) (w : Int) (sign digits : List Int) : List Int :=
  let fill := (w - (sign.length + digits.length : Nat)).toNat
  match flag with
  | .none => List.replicate fill (' '.toNat : Int) ++ (sign ++ digits)
  | .zero => sign ++ (List.replicate fill ('0'.toNat : Int) ++ digits)
  | .minus => (sign ++ digits) ++ List.replicate fill (' '.toNat : Int)

/-- The field as it is printed: the sign first, and it takes nothing off the width; then the flag's
    character as often as digits are missing, always on the left. -/
def written (flag : Flag) (w : Int) (sign digits : List Int) : List Int :=
  sign ++ (List.replicate (w - digits.length).toNat flag.padc ++ digits)

section Field
variable {rd : Nat → Option UInt8} {bound : Nat} {nested : Int → Trace} {args : Nat → Arg} {ap : Nat}

theorem scan_field (args : Nat → Arg) (ap : Nat) (f : Field) (rest : List UInt8) :
    scan args none Spec.start ap (f.flag.chars ++
      (f.width.chars ++ (List.replicate f.longs (byte 'l') ++ f.conv.char :: rest))) =
      ⟨⟨f.flag.padc, f.asked args ap, -1, f.longs, false⟩, f.width.after ap, f.conv.char, rest⟩ := by
  have plain : ∀ sp ap, scan args none sp ap (f.conv.char :: rest) = ⟨sp, ap, f.conv.char, rest⟩ := by
    intro sp ap
    unfold scan
    cases f.conv with
    | d => rfl
    | u => rfl
    | x => rfl
  have letter : ¬ isDigit f.conv.char := by
    cases f.conv with
    | d => decide
    | u => decide
    | x => decide
  have long : ¬ isDigit (byte 'l') := by decide
  rw [scan_flag]
  have begins : ∃ c fmt, List.replicate f.longs (byte 'l') ++ f.conv.char :: rest = c :: fmt ∧
      ¬ isDigit c := by
    cases f.longs with
    | zero => exact ⟨_, _, rfl, letter⟩
    | succ n => exact ⟨_, _, rfl, long⟩
  obtain ⟨c, fmt, same, other⟩ := begins
  rw [same, scan_width f.width rfl rfl other, ← same, scan_longs, plain]
  simp only [Spec.start, Nat.zero_add]
  rfl

theorem asLong_lt (a : Arg) : asLong a < 4294967296 := by
  cases a with
  | word w => exact Nat.mod_lt w (by decide)
  | const s => exact show 0 < 4294967296 by decide

theorem getuint_lt (args : Nat → Arg) (ap longs : Nat) : (getuint args ap longs).1 < 2 ^ 64 := by
  have low := asLong_lt (args ap)
  have high := asLong_lt (args (ap + 1))
  unfold getuint
  split
  · simp only [WORD]
    omega
  · dsimp only
    omega

theorem asInt_bounds (a : Arg) : -2147483648 ≤ asInt a ∧ asInt a < 2147483648 := by
  cases a with
  | word w => exact wrap_bounds w
  | const s => exact show -2147483648 ≤ (0 : Int) ∧ (0 : Int) < 2147483648 by decide

theorem getint_bounds (args : Nat → Arg) (ap longs : Nat) :
    -2 ^ 63 ≤ (getint args ap longs).1 ∧ (getint args ap longs).1 < 2 ^ 63 := by
  unfold getint
  split
  · dsimp only
    rw [Int.bmod_def]
    split
    · omega
    · omega
  · have bounds := asInt_bounds (args ap)
    dsimp only
    omega

theorem digits_length_le (args : Nat → Arg) (ap : Nat) (f : Field) : (f.digits args ap).length ≤ 20 := by
  have ten : 2 ^ 64 ≤ 10 ^ 20 := by decide
  have sixteen : 2 ^ 64 ≤ 16 ^ 20 := by decide
  have signed := getint_bounds args (f.width.after ap) f.longs
  have unsigned := getuint_lt args (f.width.after ap) f.longs
  unfold Field.digits digitsOf
  rw [List.length_map]
  unfold Field.value
  cases f.conv with
  | d =>
    apply numeral_length_le (by decide)
    change (getint args (f.width.after ap) f.longs).1.natAbs < 10 ^ 20
    omega
  | u =>
    apply numeral_length_le (by decide)
    change ((getuint args (f.width.after ap) f.longs).1 : Int).natAbs < 10 ^ 20
    omega
  | x =>
    apply numeral_length_le (by decide)
    change ((getuint args (f.width.after ap) f.longs).1 : Int).natAbs < 16 ^ 20
    omega

theorem value_lt (args : Nat → Arg) (ap : Nat) (width : Width) : width.value args ap < 2147483648 := by
  cases width with
  | absent => exact show (-1 : Int) < 2147483648 by decide
  | digits w positive fits =>
    change (w : Int) < 2147483648
    omega
  | star => exact (asInt_bounds (args ap)).2

theorem getint_after (args : Nat → Arg) (ap longs : Nat) :
    getint args ap longs = ((getint args ap longs).1, ap + if longs ≥ 2 then 2 else 1) := by
  unfold getint
  by_cases long : longs ≥ 2
  · simp only [if_pos long]
  · simp only [if_neg long]

theorem getuint_after (args : Nat → Arg) (ap longs : Nat) :
    getuint args ap longs = ((getuint args ap longs).1, ap + if longs ≥ 2 then 2 else 1) := by
  unfold getuint
  by_cases long : longs ≥ 2
  · simp only [if_pos long]
  · simp only [if_neg long]

theorem signed_emits {v : Int} (p : Nat → Trace) {cs : List Int} (number : p v.natAbs = emits cs) :
    (if v < 0 then (Trace.emit '-'.toNat).andThen (p (-v).toNat) else p v.toNat) =
      emits (sign v ++ cs) := by
  have dash : Trace.emit '-'.toNat = emits [('-'.toNat : Int)] := rfl
  unfold sign
  by_cases negative : v < 0
  · have same : (-v).toNat = v.natAbs := by omega
    rw [if_pos negative, if_pos negative, same, number, dash, emits_append]
  · have same : v.toNat = v.natAbs := by omega
    rw [if_neg negative, if_neg negative, same, number]
    rfl

theorem unsigned_sign (n : Nat) : sign (n : Int) = [] := if_neg (by omega)

theorem convert_field (f : Field) (rest : List UInt8) (given : -1 ≤ f.asked args ap) :
    convert rd bound nested args
        ⟨⟨f.flag.padc, f.asked args ap, -1, f.longs, false⟩, f.width.after ap, f.conv.char, rest⟩ =
      some (emits (written f.flag (f.asked args ap) (sign (f.value args ap)) (f.digits args ap)),
        f.after ap) := by
  have few := digits_length_le args ap f
  have high : f.asked args ap < 2147483648 := value_lt args ap f.width
  have number : ∀ base num, 1 < base → digitsOf base num = f.digits args ap →
      printnum num base (f.asked args ap) f.flag.padc =
        emits (List.replicate (f.asked args ap - (f.digits args ap).length).toNat f.flag.padc ++
          f.digits args ap) := by
    intro base num two same
    rw [← same] at few ⊢
    exact printnum_emits two num _ _ (by omega) high
  obtain ⟨flag, width, longs, conv⟩ := f
  cases conv with
  | d =>
    have printed := signed_emits
      (fun num => printnum num 10 (Field.asked ⟨flag, width, longs, .d⟩ args ap) flag.padc)
      (number 10 (getint args (width.after ap) longs).1.natAbs (by decide) rfl)
    have letter : (byte 'd').toNat = 'd'.toNat := by decide
    by_cases negative : (getint args (width.after ap) longs).1 < 0
    · rw [if_pos negative] at printed
      refine (convert_found (.negative letter negative)).trans ?_
      dsimp only
      rw [printed, getint_after]
      rfl
    · rw [if_neg negative] at printed
      refine (convert_found (.signed letter negative)).trans ?_
      dsimp only
      rw [printed, getint_after]
      rfl
  | u =>
    have printed := number 10 (getuint args (width.after ap) longs).1 (by decide) rfl
    have letter : (byte 'u').toNat = 'u'.toNat := by decide
    refine (convert_found (.unsigned letter)).trans ?_
    dsimp only
    rw [printed, getuint_after]
    unfold written
    rw [show sign (Field.value ⟨flag, width, longs, .u⟩ args ap) = [] from unsigned_sign _]
    rfl
  | x =>
    have printed := number 16 (getuint args (width.after ap) longs).1 (by decide) rfl
    have letter : (byte 'x').toNat = 'x'.toNat := by decide
    refine (convert_found (.hex letter)).trans ?_
    dsimp only
    rw [printed, getuint_after]
    unfold written
    rw [show sign (Field.value ⟨flag, width, longs, .x⟩ args ap) = [] from unsigned_sign _]
    rfl

theorem loop_field (f : Field) (rest : List UInt8) (given : -1 ≤ f.asked args ap) :
    vprintfmtLoop rd bound nested args ap (f.format ++ rest) =
      (emits (written f.flag (f.asked args ap) (sign (f.value args ap)) (f.digits args ap))).andThen
        (vprintfmtLoop rd bound nested args (f.after ap) rest) := by
  have split : f.format ++ rest = byte '%' :: (f.flag.chars ++
      (f.width.chars ++ (List.replicate f.longs (byte 'l') ++ f.conv.char :: rest))) := by
    unfold Field.format
    simp
  have scanned := scan_field args ap f rest
  have found : convert rd bound nested args _ = _ := convert_field f rest given
  rw [← scanned] at found
  rw [split, loop_escape percent_opens found, scanned]

end Field

section Padding
variable {w v : Int} {digits : List Int}

theorem fill_none (fits : w ≤ digits.length) :
    (w - digits.length).toNat = 0 ∧ (w - ((sign v).length + digits.length : Nat)).toNat = 0 := by
  constructor
  · omega
  · omega

theorem written_iff (flag : Flag) (some_digit : 0 < digits.length)
    (no_minus : ∀ c ∈ digits, c ≠ ('-'.toNat : Int)) :
    written flag w (sign v) digits = padded flag w (sign v) digits ↔
      w ≤ digits.length ∨ 0 ≤ v ∧ flag ≠ .minus := by
  by_cases fits : w ≤ digits.length
  · obtain ⟨none_left, none_asked⟩ := fill_none (v := v) fits
    refine iff_of_true ?_ (Or.inl fits)
    unfold written padded
    rw [none_left, none_asked]
    cases flag with
    | none => rfl
    | zero => rfl
    | minus => exact (List.append_nil _).symm
  · by_cases negative : v < 0
    · refine iff_of_false (fun same => ?_) (by omega)
      have lengths := congrArg List.length same
      have one : (sign v).length = 1 := by
        unfold sign
        rw [if_pos negative]
        rfl
      unfold written padded at lengths
      cases flag with
      | none =>
        simp only [List.length_append, List.length_replicate, one] at lengths
        omega
      | zero =>
        simp only [List.length_append, List.length_replicate, one] at lengths
        omega
      | minus =>
        simp only [List.length_append, List.length_replicate, one] at lengths
        omega
    · have none_signed : sign v = [] := if_neg negative
      have same_fill : w - (([] : List Int).length + digits.length : Nat) = w - digits.length := by
        rw [List.length_nil, Nat.zero_add]
      unfold written padded
      rw [none_signed, same_fill]
      cases flag with
      | none => exact iff_of_true rfl (Or.inr ⟨by omega, by decide⟩)
      | zero => exact iff_of_true rfl (Or.inr ⟨by omega, by decide⟩)
      | minus =>
        refine iff_of_false (fun same => ?_) (by simp [fits])
        obtain ⟨n, more⟩ : ∃ n, (w - digits.length).toNat = n + 1 :=
          ⟨(w - digits.length).toNat - 1, by omega⟩
        rw [more, List.replicate_succ] at same
        cases digits with
        | nil => cases some_digit
        | cons d ds =>
          have heads : Flag.minus.padc = d := (List.cons.inj same).1
          exact no_minus d List.mem_cons_self heads.symm

end Padding

section Main
variable {rd : Nat → Option UInt8} {bound : Nat} {nested : Int → Trace} {args : Nat → Arg} {ap : Nat}

theorem digit_not_minus (f : Field) : ∀ c ∈ f.digits args ap, c ≠ ('-'.toNat : Int) := by
  intro c listed
  obtain ⟨d, at_d, rfl⟩ := List.mem_map.mp listed
  have small : d < 16 := Nat.lt_of_lt_of_le (numeral_lt f.conv.base_two _ d at_d) f.conv.base_hex
  have digit : ∀ d, d < 16 → digitChar d ≠ ('-'.toNat : Int) := by decide
  exact digit d small

/-- A numeric conversion prints the field it is asked for exactly when the digits need no fill, or
    the number is not negative and the flag is not '-'. -/
theorem field_width_iff (f : Field) (rest : List UInt8) (given : -1 ≤ f.asked args ap) :
    vprintfmtLoop rd bound nested args ap (f.format ++ rest) =
        (emits (padded f.flag (f.asked args ap) (sign (f.value args ap)) (f.digits args ap))).andThen
          (vprintfmtLoop rd bound nested args (f.after ap) rest) ↔
      f.asked args ap ≤ (f.digits args ap).length ∨ 0 ≤ f.value args ap ∧ f.flag ≠ .minus := by
  have some_digit : 0 < (f.digits args ap).length := by
    unfold Field.digits digitsOf
    rw [List.length_map]
    exact numeral_length_pos f.conv.base_two _
  rw [loop_field f rest given, emits_inj]
  exact written_iff f.flag some_digit (digit_not_minus f)

def fiveWide : Field := ⟨.none, .digits 5 (by decide) (by decide), 0, .d⟩

def oneArg (w : Nat) : Nat → Arg := argList [.word w] fun _ => .word 0

theorem field_width_iff_fiveWide :
    vprintfmtLoop (fun _ => none) 0 (fun _ => Trace.done) (oneArg 42) 0 (fiveWide.format ++ []) =
      (emits (padded fiveWide.flag (fiveWide.asked (oneArg 42) 0)
        (sign (fiveWide.value (oneArg 42) 0)) (fiveWide.digits (oneArg 42) 0))).andThen
        (vprintfmtLoop (fun _ => none) 0 (fun _ => Trace.done) (oneArg 42) (fiveWide.after 0) []) :=
  (field_width_iff fiveWide [] (show -1 ≤ fiveWide.asked (oneArg 42) 0 by decide)).mpr
    (Or.inr ⟨by decide, by decide⟩)

/-- %5d of -42 puts the minus before the blanks, and prints six characters. -/
theorem field_width_missed : ¬ ∀ (rd : Nat → Option UInt8) (bound : Nat) (nested : Int → Trace)
    (args : Nat → Arg) (ap : Nat) (f : Field) (rest : List UInt8), 0 ≤ f.asked args ap →
    vprintfmtLoop rd bound nested args ap (f.format ++ rest) =
      (emits (padded f.flag (f.asked args ap) (sign (f.value args ap)) (f.digits args ap))).andThen
        (vprintfmtLoop rd bound nested args (f.after ap) rest) := by
  intro claim
  have same := claim (fun _ => none) 0 (fun _ => Trace.done) (oneArg 0xFFFFFFD6) 0 fiveWide [] (by decide)
  rw [loop_field fiveWide [] (by decide), emits_inj] at same
  have value : fiveWide.value (oneArg 0xFFFFFFD6) 0 = -42 := by decide
  have two : numeral 10 42 = [4, 2] := by
    rw [numeral_step (by decide) (by decide), numeral_small (by decide)]
    rfl
  have digits : fiveWide.digits (oneArg 0xFFFFFFD6) 0 = [digitChar 4, digitChar 2] := by
    unfold Field.digits
    rw [value]
    exact congrArg (List.map digitChar) two
  have asked : fiveWide.asked (oneArg 0xFFFFFFD6) 0 = 5 := by decide
  rw [value, digits, asked] at same
  exact absurd same (by decide)

end Main

end JosPrintfFields
