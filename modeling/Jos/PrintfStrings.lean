import Jos.PrintfFields

/- Case 's' of vprintfmt: a string, cut off at the precision and padded to the width. -/
namespace JosPrintfStrings
open JosLayout JosPrintfmt JosPrintfChars JosPrintfFields

def Printable (c : UInt8) : Prop := ' '.toNat ≤ c.toNat ∧ c.toNat ≤ '~'.toNat

instance (c : UInt8) : Decidable (Printable c) := inferInstanceAs (Decidable (_ ∧ _))

/-- The memory has the characters of s from the address a on, and then a NUL. -/
inductive TextAt (rd : Nat → Option UInt8) : Nat → List UInt8 → Prop where
  | nul {a : Nat} (ends : rd a = some 0) : TextAt rd a []
  | char {a : Nat} {c : UInt8} {s : List UInt8} (here : rd a = some c) (printable : Printable c)
      (later : TextAt rd ((a + 1) % WORD) s) : TextAt rd a (c :: s)

def cut (precision : Int) (s : List UInt8) : List UInt8 :=
  if precision < 0 then s else s.take precision.toNat

def shown (s : List UInt8) : List Int := s.map fun c => (c.toNat : Int)

structure Prints (t : Trace) (cs : List Int) : Prop where
  ended : t.stop = none
  chars : putches t = cs

section Prints
variable {t v : Trace} {cs ds : List Int}

theorem prints_andThen (first : Prints t cs) (second : Prints v ds) :
    Prints (t.andThen v) (cs ++ ds) := by
  obtain ⟨chars, stop⟩ := putches_andThen v first.ended
  constructor
  · rw [stop]
    exact second.ended
  · rw [chars, first.chars, second.chars]

theorem prints_emit (c : Int) : Prints (Trace.emit c) [c] := ⟨rfl, rfl⟩

theorem prints_pad (c : Int) (n : Nat) : Prints (Trace.pad c n) (List.replicate n c) :=
  ⟨rfl, putches_pad c n⟩

theorem prints_emits (cs : List Int) : Prints (emits cs) cs := ⟨rfl, putches_emits cs⟩

theorem prints_printed {ε : Type} (halted : Stop → ε) (prints : Prints t cs) :
    printed halted t = .ok cs := by
  unfold printed Trace.ended
  rw [prints.ended, prints.chars]
  rfl

end Prints

section Literal
variable {rd : Nat → Option UInt8} {bound : Nat} {nested : Int → Trace} {args : Nat → Arg}

theorem emits_andThen (cs ds : List Int) (t : Trace) :
    (emits (cs ++ ds)).andThen t = (emits cs).andThen ((emits ds).andThen t) := by
  unfold emits Trace.andThen
  rw [List.map_append, List.append_assoc]

theorem loop_literals (ap : Nat) (text rest : List UInt8) (plain : ∀ c ∈ text, c.toNat ≠ '%'.toNat) :
    vprintfmtLoop rd bound nested args ap (text ++ rest) =
      (emits (shown text)).andThen (vprintfmtLoop rd bound nested args ap rest) := by
  induction text with
  | nil => rfl
  | cons c text ih =>
    have later := ih fun x listed => plain x (List.mem_cons_of_mem c listed)
    rw [List.cons_append, loop_literal (plain c List.mem_cons_self), later]
    exact (emits_andThen [(c.toNat : Int)] (shown text) _).symm

end Literal

section Text
variable {rd : Nat → Option UInt8} {a bound : Nat} {p : Arg} {c : UInt8} {s : List UInt8} {precision width : Int}

inductive StringAt (rd : Nat → Option UInt8) : Arg → List UInt8 → Prop where
  | nul {p : Arg} (ends : (load rd p).1 = .ok 0) : StringAt rd p []
  | char {p : Arg} {c : UInt8} {s : List UInt8} (here : (load rd p).1 = .ok c) (nonzero : c ≠ 0)
      (later : StringAt rd (next p) s) : StringAt rd p (c :: s)

theorem printable_nonzero (printable : Printable c) : c ≠ 0 := by
  rintro rfl
  exact absurd printable.1 (by decide)

theorem printable_shown (printable : Printable c) : putString.shown false c = c.toNat := by
  have ascii : c.toNat < 128 := Nat.lt_of_le_of_lt printable.2 (by decide)
  unfold putString.shown signed
  rw [if_neg (by simp), if_pos ascii]

theorem load_char (here : rd a = some c) (word : a < WORD) :
    load rd (.word a) = (.ok c, [.read a]) := by
  unfold load
  dsimp only
  rw [Nat.mod_eq_of_lt word, here]

theorem text_string (text : TextAt rd a s) (word : a < WORD) : StringAt rd (.word a) s := by
  induction text with
  | nul ends => exact .nul (congrArg Prod.fst (load_char ends word))
  | char here printable later ih =>
    exact .char (congrArg Prod.fst (load_char here word)) (printable_nonzero printable)
      (ih (Nat.mod_lt _ (by decide)))

theorem load_split {r : Except Stop UInt8} (loaded : (load rd p).1 = r) :
    ∃ events, load rd p = (r, events) ∧ Prints ⟨events, none⟩ [] := by
  refine ⟨(load rd p).2, by rw [← loaded], rfl, ?_⟩
  cases p with
  | word w =>
    unfold load
    dsimp only
    cases rd (w % WORD) with
    | none => rfl
    | some b => rfl
  | const chars =>
    cases chars with
    | nil => rfl
    | cons c rest => rfl

theorem cut_cons (positive : 0 < precision) (c : UInt8) (s : List UInt8) :
    cut precision (c :: s) = c :: cut (precision - 1) s := by
  obtain ⟨n, rfl⟩ : ∃ n : Nat, precision = n + 1 := ⟨(precision - 1).toNat, by omega⟩
  unfold cut
  rw [if_neg (by omega), if_neg (by omega)]
  have more : ((n : Int) + 1).toNat = n + 1 := by omega
  have less : ((n : Int) + 1 - 1).toNat = n := by omega
  rw [more, less, List.take_succ_cons]

theorem strnlen_string (string : StringAt rd p s) (size n : Nat) (enough : s.length < bound) :
    Prints (strnlen rd bound p size n).1 [] ∧ (strnlen rd bound p size n).2 = n + min size s.length := by
  induction string generalizing bound size n with
  | nul ends =>
    obtain ⟨b, rfl⟩ := Nat.exists_eq_add_one_of_ne_zero (Nat.ne_of_gt (Nat.zero_lt_of_lt enough))
    obtain ⟨events, loaded, quiet⟩ := load_split ends
    unfold strnlen
    by_cases none_left : size = 0
    · rw [if_pos none_left]
      exact ⟨⟨rfl, rfl⟩, by simp⟩
    · rw [if_neg none_left, loaded]
      exact ⟨quiet, by simp⟩
  | @char p c s here nonzero later ih =>
    obtain ⟨b, rfl⟩ := Nat.exists_eq_add_one_of_ne_zero (Nat.ne_of_gt (Nat.zero_lt_of_lt enough))
    obtain ⟨events, loaded, quiet⟩ := load_split here
    unfold strnlen
    by_cases none_left : size = 0
    · rw [if_pos none_left]
      refine ⟨⟨rfl, rfl⟩, ?_⟩
      rw [none_left, Nat.zero_min]
      rfl
    · obtain ⟨rest, count⟩ := ih (size - 1) (n + 1) (Nat.lt_of_succ_lt_succ enough)
      rw [if_neg none_left, loaded]
      dsimp only
      rw [if_neg nonzero]
      refine ⟨prints_andThen quiet rest, ?_⟩
      change (strnlen rd b (next p) (size - 1) (n + 1)).2 = _
      rw [count, List.length_cons]
      omega

theorem cut_shorter (within : precision ≠ 0) (c : UInt8) (s : List UInt8) :
    cut precision (c :: s) = c :: cut (if precision < 0 then precision else precision - 1) s := by
  by_cases unlimited : precision < 0
  · rw [if_pos unlimited]
    unfold cut
    rw [if_pos unlimited, if_pos unlimited]
  · rw [if_neg unlimited]
    exact cut_cons (by omega) c s

theorem putString_string {altflag : Bool} (string : StringAt rd p s) (precision width : Int)
    (int : wrap width = width) (enough : s.length < bound) :
    Prints (putString rd altflag bound p precision width)
      ((cut precision s).map (putString.shown altflag) ++
        List.replicate (wrap (width - (cut precision s).length)).toNat (' '.toNat : Int)) := by
  induction string generalizing bound precision width with
  | @nul p ends =>
    obtain ⟨b, rfl⟩ := Nat.exists_eq_add_one_of_ne_zero (Nat.ne_of_gt (Nat.zero_lt_of_lt enough))
    obtain ⟨events, loaded, quiet⟩ := load_split ends
    have empty : cut precision [] = [] := by
      unfold cut
      split
      · rfl
      · exact List.take_nil
    unfold putString
    rw [loaded, empty]
    dsimp only
    rw [if_pos rfl, List.length_nil, Int.natCast_zero, Int.sub_zero, int]
    exact prints_andThen quiet (prints_pad _ _)
  | @char p c s here nonzero later ih =>
    obtain ⟨b, rfl⟩ := Nat.exists_eq_add_one_of_ne_zero (Nat.ne_of_gt (Nat.zero_lt_of_lt enough))
    obtain ⟨events, loaded, quiet⟩ := load_split here
    by_cases within : precision ≠ 0
    · have rest := ih (if precision < 0 then precision else precision - 1) (wrap (width - 1))
        (wrap_wrap _) (Nat.lt_of_succ_lt_succ enough)
      have same : wrap (wrap (width - 1) -
          (cut (if precision < 0 then precision else precision - 1) s).length) =
            wrap (width - (cut precision (c :: s)).length) := by
        rw [cut_shorter within, List.length_cons]
        unfold wrap
        rw [Int.bmod_sub_bmod]
        congr 1
        omega
      have round : putString rd altflag (b + 1) p precision width =
          ((Trace.mk events none).andThen (Trace.emit (putString.shown altflag c))).andThen
            (putString rd altflag b (next p)
              (if precision < 0 then precision else precision - 1) (wrap (width - 1))) := by
        conv => lhs; unfold putString
        rw [loaded]
        dsimp only
        rw [if_neg nonzero]
        by_cases unlimited : precision < 0
        · rw [if_pos unlimited, if_pos unlimited]
        · rw [if_neg unlimited, if_neg unlimited, if_pos (by omega)]
      have shows : (cut precision (c :: s)).map (putString.shown altflag) =
          ([] ++ [putString.shown altflag c]) ++
            (cut (if precision < 0 then precision else precision - 1) s).map (putString.shown altflag) := by
        rw [cut_shorter within]
        rfl
      rw [same] at rest
      rw [round, shows, List.append_assoc]
      exact prints_andThen (prints_andThen quiet (prints_emit _)) rest
    · have zero : precision = 0 := by omega
      have empty : cut 0 (c :: s) = [] := rfl
      unfold putString
      rw [loaded, zero, empty]
      dsimp only
      rw [if_neg nonzero, if_neg (by decide), if_neg (by decide), List.length_nil, Int.natCast_zero,
        Int.sub_zero, int]
      exact prints_andThen quiet (prints_pad _ _)

theorem text_shown (text : TextAt rd a s) (precision : Int) :
    (cut precision s).map (putString.shown false) = shown (cut precision s) := by
  have all : ∀ c ∈ s, Printable c := by
    induction text with
    | nul ends => simp
    | char here printable later ih =>
      intro x listed
      cases listed with
      | head => exact printable
      | tail _ inner => exact ih x inner
  have part : cut precision s ⊆ s := by
    unfold cut
    split
    · exact List.Subset.refl s
    · exact List.take_subset _ s
  exact List.map_congr_left fun c listed => printable_shown (all c (part listed))

end Text

section Convert
variable {rd : Nat → Option UInt8} {a bound : Nat} {s : List UInt8} {width precision : Int}

theorem text_drop (text : TextAt rd a s) (word : a < WORD) (n : Nat) (inside : n ≤ s.length) :
    TextAt rd ((a + n) % WORD) (s.drop n) := by
  induction text generalizing n with
  | @nul a ends =>
    obtain rfl : n = 0 := Nat.le_zero.mp inside
    rw [Nat.add_zero, Nat.mod_eq_of_lt word]
    exact .nul ends
  | @char a c s here printable later ih =>
    cases n with
    | zero =>
      rw [Nat.add_zero, Nat.mod_eq_of_lt word]
      exact .char here printable later
    | succ n =>
      have rest := ih (Nat.mod_lt _ (by decide)) n (Nat.le_of_succ_le_succ inside)
      rw [Nat.mod_add_mod, Nat.add_assoc, Nat.add_comm 1 n] at rest
      exact rest

/-- A string is shorter than the address space: past that its characters would come round again. -/
theorem text_length (text : TextAt rd a s) (word : a < WORD) : s.length < WORD := by
  by_cases short : s.length < WORD
  · exact short
  · exfalso
    have last := text_drop text word s.length (Nat.le_refl _)
    have again := text_drop text word (s.length - WORD) (Nat.sub_le _ _)
    have same : (a + (s.length - WORD)) % WORD = (a + s.length) % WORD := by
      conv => rhs; rw [show a + s.length = a + (s.length - WORD) + WORD by omega]
      exact (Nat.add_mod_right _ _).symm
    rw [List.drop_length] at last
    rw [same] at again
    have some_char : 0 < (s.drop (s.length - WORD)).length := by
      rw [List.length_drop]
      simp only [WORD] at short ⊢
      omega
    cases last with
    | nul ends =>
      cases again_drop : s.drop (s.length - WORD) with
      | nil =>
        rw [again_drop] at some_char
        cases some_char
      | cons c rest =>
        rw [again_drop] at again
        cases again with
        | char here printable later =>
          rw [ends] at here
          cases here
          exact printable_nonzero printable rfl

theorem cut_length (low : -1 ≤ precision) (high : precision < 2147483648) (short : s.length < WORD) :
    min (precision % WORD).toNat s.length = (cut precision s).length := by
  simp only [WORD] at short ⊢
  unfold cut
  by_cases unlimited : precision < 0
  · obtain rfl : precision = -1 := by omega
    rw [if_pos unlimited]
    have size : ((-1 : Int) % (4294967296 : Nat)).toNat = 4294967295 := rfl
    rw [size]
    omega
  · rw [if_neg unlimited, List.length_take]
    have size : (precision % (4294967296 : Nat)).toNat = precision.toNat := by omega
    rw [size]

/-- What %s prints: the width is lessened by the length before the fill on the left, and once more
    by each character printed. -/
def printed (flag : Flag) (width : Int) (cs : List Int) : List Int :=
  if width > 0 ∧ flag ≠ .minus then
    List.replicate (wrap (width - cs.length)).toNat flag.padc ++
      (cs ++ List.replicate (wrap (min (wrap (width - cs.length)) 0 - cs.length)).toNat (' '.toNat : Int))
  else cs ++ List.replicate (wrap (width - cs.length)).toNat (' '.toNat : Int)

theorem convString_text (text : TextAt rd a s) (word : a < WORD) (nonnull : a ≠ 0)
    (enough : s.length < bound) (flag : Flag) (lflag : Nat) (int : wrap width = width)
    (low : -1 ≤ precision) (high : precision < 2147483648) :
    Prints (convString rd bound ⟨flag.padc, width, precision, lflag, false⟩ (.word a))
      (printed flag width (shown (cut precision s))) := by
  have pointer : (if Arg.word a = .word 0 then Arg.const (chars "(null)") else .word a) = .word a := by
    rw [if_neg (fun null => nonnull (Arg.word.inj null))]
  have dash : flag.padc ≠ '-'.toNat ↔ flag ≠ .minus := by
    cases flag with
    | none => decide
    | zero => decide
    | minus => decide
  have length : (shown (cut precision s)).length = (cut precision s).length := List.length_map _
  have string := text_string text word
  have body : ∀ width, wrap width = width → Prints (putString rd false bound (.word a) precision width)
      (shown (cut precision s) ++
        List.replicate (wrap (width - (cut precision s).length)).toNat (' '.toNat : Int)) := by
    intro width int
    rw [← text_shown text]
    exact putString_string string precision width int enough
  obtain ⟨quiet, count⟩ := strnlen_string string (precision % WORD).toNat 0 enough
  rw [Nat.zero_add, cut_length low high (text_length text word)] at count
  unfold convString printed
  rw [pointer, length]
  dsimp only
  by_cases left : width > 0 ∧ flag ≠ .minus
  · have at_most : wrap (min (wrap (width - (cut precision s).length)) 0) =
        min (wrap (width - (cut precision s).length)) 0 := by
      have bounds := wrap_bounds (width - (cut precision s).length)
      exact wrap_small (by omega) (by omega)
    rw [if_pos ⟨left.1, dash.mpr left.2⟩, if_pos left, count]
    exact prints_andThen (prints_andThen quiet (prints_pad _ _))
      (body _ at_most)
  · rw [if_neg (fun both => left ⟨both.1, dash.mp both.2⟩), if_neg left]
    exact body width int

end Convert

section Law
variable {flag : Flag} {w : Int} {cs : List Int}

/-- The width counter does not wrap around to a positive value, for m characters printed in a
    field of width w. -/
def Steady (flag : Flag) (w : Int) (m : Nat) : Prop :=
  if w > 0 ∧ flag ≠ .minus then
    m - w ≤ 2147483648 ∧ (2 * m - w ≤ 2147483648 ∨ 4294967296 ≤ 2 * m - w)
  else m - w ≤ 2147483648 ∨ m - w = 4294967296

instance (flag : Flag) (w : Int) (m : Nat) : Decidable (Steady flag w m) :=
  inferInstanceAs (Decidable (ite _ _ _))

theorem padded_left (left : flag ≠ .minus) :
    padded flag w [] cs = List.replicate (w - cs.length).toNat flag.padc ++ cs := by
  unfold padded
  rw [List.length_nil, Nat.zero_add]
  cases flag with
  | none => rfl
  | zero => rfl
  | minus => exact absurd rfl left

theorem padded_right (right : ¬ (w > 0 ∧ flag ≠ .minus)) :
    padded flag w [] cs = cs ++ List.replicate (w - cs.length).toNat (' '.toNat : Int) := by
  by_cases left : flag = .minus
  · rw [left]
    unfold padded
    rw [List.length_nil, Nat.zero_add]
    rfl
  · have no_fill : (w - cs.length).toNat = 0 := by
      have narrow : ¬ w > 0 := fun wide => right ⟨wide, left⟩
      omega
    rw [padded_left left, no_fill]
    exact (List.append_nil cs).symm

theorem wrap_width (low : -1 ≤ w) (high : w < 2147483648) {m : Nat} (short : m < WORD) :
    (w - m < -2147483648 ∧ wrap (w - m) = w - m + 4294967296 ∨
      -2147483648 ≤ w - m ∧ wrap (w - m) = w - m) ∧
    (min (wrap (w - m)) 0 - m < -2147483648 ∧
        wrap (min (wrap (w - m)) 0 - m) = min (wrap (w - m)) 0 - m + 4294967296 ∨
      -2147483648 ≤ min (wrap (w - m)) 0 - m ∧
        wrap (min (wrap (w - m)) 0 - m) = min (wrap (w - m)) 0 - m) := by
  have either : ∀ z, -6442450944 ≤ z → z < 2147483648 →
      z < -2147483648 ∧ wrap z = z + 4294967296 ∨ -2147483648 ≤ z ∧ wrap z = z := by
    intro z above below
    by_cases wraps : z < -2147483648
    · exact Or.inl ⟨wraps, wrap_below above wraps⟩
    · exact Or.inr ⟨by omega, wrap_small (by omega) below⟩
  have bounds := wrap_bounds (w - m)
  simp only [WORD] at short
  exact ⟨either _ (by omega) (by omega), either _ (by omega) (by omega)⟩

theorem printed_iff (low : -1 ≤ w) (high : w < 2147483648) (short : cs.length < WORD) :
    printed flag w cs = padded flag w [] cs ↔ Steady flag w cs.length := by
  obtain ⟨first, second⟩ := wrap_width low high short
  simp only [WORD] at short
  unfold printed Steady
  by_cases left : w > 0 ∧ flag ≠ .minus
  · rw [if_pos left, if_pos left, padded_left left.2]
    constructor
    · intro same
      have lengths := congrArg List.length same
      simp only [List.length_append, List.length_replicate] at lengths
      omega
    · rintro ⟨before, after⟩
      have fill : wrap (w - cs.length) = w - cs.length := by omega
      have none_after : (wrap (min (wrap (w - cs.length)) 0 - cs.length)).toNat = 0 := by omega
      rw [none_after, fill, List.replicate_zero, List.append_nil]
  · rw [if_neg left, if_neg left, padded_right left]
    constructor
    · intro same
      have lengths := congrArg List.length same
      simp only [List.length_append, List.length_replicate] at lengths
      omega
    · intro steady
      have fill : (wrap (w - cs.length)).toNat = (w - cs.length).toNat := by omega
      rw [fill]

end Law

/-- A precision, as the format has it: none, a '.' alone, or a '.' and a star. -/
inductive Precision where
  | absent
  | dot
  | star

namespace Precision

def chars : Precision → List UInt8
  | absent => []
  | dot => [byte '.']
  | star => [byte '.', byte '*']

def width (w : Int) : Precision → Int
  | absent => w
  | dot => if w < 0 then 0 else w
  | star => if w < 0 then 0 else w

def value (args : Nat → Arg) (ap : Nat) : Precision → Int
  | absent => -1
  | dot => -1
  | star => asInt (args ap)

def after (ap : Nat) : Precision → Nat
  | absent => ap
  | dot => ap
  | star => ap + 1

end Precision

structure StringField where
  flag : Flag
  width : Width
  precision : Precision

namespace StringField
variable (f : StringField) (args : Nat → Arg) (ap : Nat)

def format : List UInt8 :=
  byte '%' :: (f.flag.chars ++ (f.width.chars ++ (f.precision.chars ++ [byte 's'])))

def asked : Int := f.precision.width (f.width.value args ap)

def limit : Int := f.precision.value args (f.width.after ap)

def position : Nat := f.precision.after (f.width.after ap)

end StringField

section Scan
variable {args : Nat → Arg} {ap : Nat} {sp : Spec}

theorem scan_precision (precision : Precision) (unset : sp.precision = -1) (rest : List UInt8) :
    scan args none sp ap (precision.chars ++ byte 's' :: rest) =
      ⟨{ sp with width := precision.width sp.width, precision := precision.value args ap },
        precision.after ap, byte 's', rest⟩ := by
  have ends : ∀ sp ap, scan args none sp ap (byte 's' :: rest) = ⟨sp, ap, byte 's', rest⟩ := by
    intro sp ap
    unfold scan
    rfl
  cases precision with
  | absent =>
    unfold Precision.chars Precision.width Precision.value
    dsimp only
    rw [List.nil_append, ends, ← unset]
    rfl
  | dot =>
    unfold Precision.chars Precision.width Precision.value
    dsimp only
    rw [List.singleton_append, scan_dot, ends, ← unset]
    rfl
  | star =>
    have wide : ¬ (if sp.width < 0 then 0 else sp.width) < 0 := by
      split
      · decide
      · assumption
    have taken : Spec.processPrecision
        { sp with width := if sp.width < 0 then 0 else sp.width, precision := asInt (args ap) } =
          { sp with width := if sp.width < 0 then 0 else sp.width, precision := asInt (args ap) } :=
      if_neg wide
    unfold Precision.chars Precision.width Precision.value
    dsimp only
    rw [List.cons_append, scan_dot, List.singleton_append, scan_star, taken, ends]
    rfl

theorem scan_string (f : StringField) (args : Nat → Arg) (ap : Nat) (rest : List UInt8) :
    scan args none Spec.start ap
        (f.flag.chars ++ (f.width.chars ++ (f.precision.chars ++ byte 's' :: rest))) =
      ⟨⟨f.flag.padc, f.asked args ap, f.limit args ap, 0, false⟩, f.position ap, byte 's', rest⟩ := by
  have begins : ∃ c fmt, f.precision.chars ++ byte 's' :: rest = c :: fmt ∧ ¬ isDigit c := by
    cases f.precision with
    | absent => exact ⟨_, _, rfl, by decide⟩
    | dot => exact ⟨_, _, rfl, by decide⟩
    | star => exact ⟨_, _, rfl, by decide⟩
  obtain ⟨c, fmt, same, other⟩ := begins
  rw [scan_flag, same, scan_width f.width rfl rfl other, ← same, scan_precision f.precision rfl]
  rfl

end Scan

section Plain
variable {rd : Nat → Option UInt8} {bound : Nat} {nested : Int → Trace} {args : Nat → Arg} {ap : Nat}
  {p : Arg} {s : List UInt8}

theorem convert_string {d : Directive} (string : d.conv.toNat = 's'.toNat) :
    convert rd bound nested args d = some (convString rd bound d.spec (args d.ap), d.ap + 1) :=
  convert_found (.string string)

theorem loop_plain_string (given : args ap = p) (nonnull : p ≠ .word 0) (string : StringAt rd p s)
    (enough : s.length < bound) (rest : List UInt8) :
    ∃ t, Prints t (s.map signed ++ List.replicate (wrap (-1 - s.length)).toNat (' '.toNat : Int)) ∧
      vprintfmtLoop rd bound nested args ap (byte '%' :: byte 's' :: rest) =
        t.andThen (vprintfmtLoop rd bound nested args (ap + 1) rest) := by
  have scanned : scan args none Spec.start ap (byte 's' :: rest) = ⟨Spec.start, ap, byte 's', rest⟩ :=
    scan_ends Spec.start ap (by decide)
  have found : convert rd bound nested args (scan args none Spec.start ap (byte 's' :: rest)) =
      some (putString rd false bound p (-1) (-1), ap + 1) := by
    have narrow : ¬ (Spec.start.width > 0 ∧ Spec.start.padc ≠ '-'.toNat) := by decide
    rw [scanned, convert_string rfl]
    unfold convString
    dsimp only
    rw [if_neg narrow, given, if_neg nonnull]
    rfl
  have prints : Prints (putString rd false bound p (-1) (-1)) _ :=
    putString_string string (-1) (-1) rfl enough
  have whole : cut (-1) s = s := if_pos (by decide)
  rw [whole] at prints
  refine ⟨_, prints, ?_⟩
  rw [loop_escape percent_opens found, scanned]

end Plain

section Main
variable {rd : Nat → Option UInt8} {bound : Nat} {nested : Int → Trace} {args : Nat → Arg} {ap a : Nat}
  {s : List UInt8}

theorem asked_bounds (f : StringField) (given : -1 ≤ f.width.value args ap) :
    -1 ≤ f.asked args ap ∧ f.asked args ap < 2147483648 := by
  have high := value_lt args ap f.width
  unfold StringField.asked Precision.width
  cases f.precision with
  | absent => exact ⟨given, high⟩
  | dot =>
    dsimp only
    split
    · omega
    · omega
  | star =>
    dsimp only
    split
    · omega
    · omega

theorem limit_lt (args : Nat → Arg) (ap : Nat) (f : StringField) : f.limit args ap < 2147483648 := by
  unfold StringField.limit
  cases f.precision with
  | absent => exact show (-1 : Int) < 2147483648 by decide
  | dot => exact show (-1 : Int) < 2147483648 by decide
  | star => exact (asInt_bounds (args (f.width.after ap))).2

theorem loop_string (f : StringField) (rest : List UInt8) (width : -1 ≤ f.width.value args ap)
    (precision : -1 ≤ f.limit args ap) (pointer : args (f.position ap) = .word a) (nonnull : a ≠ 0)
    (word : a < WORD) (text : TextAt rd a s) (enough : s.length < bound) :
    ∃ t, Prints t (printed f.flag (f.asked args ap) (shown (cut (f.limit args ap) s))) ∧
      vprintfmtLoop rd bound nested args ap (f.format ++ rest) =
        t.andThen (vprintfmtLoop rd bound nested args (f.position ap + 1) rest) := by
  obtain ⟨low, high⟩ := asked_bounds f width
  have split : f.format ++ rest = byte '%' ::
      (f.flag.chars ++ (f.width.chars ++ (f.precision.chars ++ byte 's' :: rest))) := by
    unfold StringField.format
    simp
  have scanned := scan_string f args ap rest
  have found : convert rd bound nested args
      ⟨⟨f.flag.padc, f.asked args ap, f.limit args ap, 0, false⟩, f.position ap, byte 's', rest⟩ =
      some (convString rd bound ⟨f.flag.padc, f.asked args ap, f.limit args ap, 0, false⟩ (.word a),
        f.position ap + 1) := by
    rw [convert_string rfl, pointer]
  rw [← scanned] at found
  refine ⟨_, convString_text text word nonnull enough f.flag 0 (wrap_small (by omega) high) precision
    (limit_lt args ap f), ?_⟩
  rw [split, loop_escape percent_opens found, scanned]

theorem putches_string (f : StringField) (rest : List UInt8) (width : -1 ≤ f.width.value args ap)
    (precision : -1 ≤ f.limit args ap) (pointer : args (f.position ap) = .word a) (nonnull : a ≠ 0)
    (word : a < WORD) (text : TextAt rd a s) (enough : s.length < bound) :
    putches (vprintfmtLoop rd bound nested args ap (f.format ++ rest)) =
        padded f.flag (f.asked args ap) [] (shown (cut (f.limit args ap) s)) ++
          putches (vprintfmtLoop rd bound nested args (f.position ap + 1) rest) ↔
      Steady f.flag (f.asked args ap) (cut (f.limit args ap) s).length := by
  obtain ⟨low, high⟩ := asked_bounds f width
  obtain ⟨t, prints, loop⟩ := loop_string f rest width precision pointer nonnull word text enough
  have length : (shown (cut (f.limit args ap) s)).length = (cut (f.limit args ap) s).length :=
    List.length_map _
  have short : (shown (cut (f.limit args ap) s)).length < WORD := by
    have whole := text_length text word
    have some_of := cut_length precision (limit_lt args ap f) whole
    rw [length, ← some_of]
    exact Nat.lt_of_le_of_lt (Nat.min_le_right _ _) whole
  obtain ⟨chars, _⟩ := putches_andThen
    (vprintfmtLoop rd bound nested args (f.position ap + 1) rest) prints.ended
  rw [loop, chars, prints.chars, List.append_left_inj, printed_iff low high short, length]

/-- %s comes to its end, and prints the first characters of its string, as many as the precision
    lets through, padded to the width, exactly when the width counter does not wrap around. -/
theorem string_field_iff (f : StringField) (rest : List UInt8) (width : -1 ≤ f.width.value args ap)
    (precision : -1 ≤ f.limit args ap) (pointer : args (f.position ap) = .word a) (nonnull : a ≠ 0)
    (word : a < WORD) (text : TextAt rd a s) (enough : s.length < bound) :
    (vprintfmtLoop rd bound nested args ap (f.format ++ rest)).stop =
        (vprintfmtLoop rd bound nested args (f.position ap + 1) rest).stop ∧
      (putches (vprintfmtLoop rd bound nested args ap (f.format ++ rest)) =
          padded f.flag (f.asked args ap) [] (shown (cut (f.limit args ap) s)) ++
            putches (vprintfmtLoop rd bound nested args (f.position ap + 1) rest) ↔
        Steady f.flag (f.asked args ap) (cut (f.limit args ap) s).length) := by
  constructor
  · obtain ⟨t, prints, loop⟩ := loop_string f rest width precision pointer nonnull word text enough
    rw [loop]
    exact (putches_andThen _ prints.ended).2
  · exact putches_string f rest width precision pointer nonnull word text enough

def letters (n : Nat) (a : Nat) : Option UInt8 := if a < 4096 + n then some (byte 'A') else some 0

theorem text_letters (n : Nat) : ∀ k, k ≤ n → 4096 + n < WORD →
    TextAt (letters n) (4096 + (n - k)) (List.replicate k (byte 'A')) := by
  intro k
  induction k with
  | zero =>
    intro _ _
    exact .nul (if_neg (by omega))
  | succ k ih =>
    intro few space
    have later := ih (by omega) space
    have next : (4096 + (n - (k + 1)) + 1) % WORD = 4096 + (n - k) := by
      rw [Nat.mod_eq_of_lt (by omega)]
      omega
    rw [← next] at later
    exact .char (if_pos (by omega)) ⟨by decide, by decide⟩ later

def everything : StringField := ⟨.minus, .star, .star⟩

def someArgs : Nat → Arg := argList [.word 5, .word 2, .word 4096] fun _ => .word 0

theorem string_field_iff_everything :
    putches (vprintfmtLoop (letters 3) 4 (fun _ => Trace.done) someArgs 0 (everything.format ++ [])) =
      padded .minus 5 [] (shown [byte 'A', byte 'A']) ++
        putches (vprintfmtLoop (letters 3) 4 (fun _ => Trace.done) someArgs 3 []) := by
  have width : -1 ≤ everything.width.value someArgs 0 := by decide
  have precision : -1 ≤ everything.limit someArgs 0 := by decide
  have pointer : someArgs (everything.position 0) = .word 4096 := rfl
  have text := text_letters 3 3 (Nat.le_refl 3) (by decide)
  have enough : (List.replicate 3 (byte 'A')).length < 4 := by decide
  exact (string_field_iff everything [] width precision pointer (by decide) (by decide) text
    enough).2.mpr (by decide)

def starred : StringField := ⟨.none, .star, .absent⟩

def starredArgs : Nat → Arg := argList [.word 1, .word 4096] fun _ => .word 0

/-- %*s with width 1 and a string of 2^30 + 1 characters: the counter goes below -2^31 while these
    are printed, and 2^31 - 1 blanks follow them. -/
theorem string_field_missed : ¬ ∀ (rd : Nat → Option UInt8) (bound : Nat) (nested : Int → Trace)
    (args : Nat → Arg) (ap : Nat) (f : StringField) (rest : List UInt8) (a : Nat) (s : List UInt8),
    -1 ≤ f.width.value args ap → -1 ≤ f.limit args ap → args (f.position ap) = .word a → a ≠ 0 →
    a < WORD → TextAt rd a s → s.length < bound →
    putches (vprintfmtLoop rd bound nested args ap (f.format ++ rest)) =
      padded f.flag (f.asked args ap) [] (shown (cut (f.limit args ap) s)) ++
        putches (vprintfmtLoop rd bound nested args (f.position ap + 1) rest) := by
  intro claim
  obtain ⟨n, long⟩ : ∃ n : Nat, n = 1073741825 := ⟨_, rfl⟩
  have width : -1 ≤ starred.width.value starredArgs 0 := by decide
  have precision : -1 ≤ starred.limit starredArgs 0 := by decide
  have pointer : starredArgs (starred.position 0) = .word 4096 := rfl
  have text := text_letters n n (Nat.le_refl n) (by simp only [WORD]; omega)
  rw [Nat.sub_self] at text
  have enough : (List.replicate n (byte 'A')).length < n + 1 := by
    rw [List.length_replicate]
    exact Nat.lt_succ_self n
  have same := claim (letters n) (n + 1) (fun _ => Trace.done) starredArgs 0 starred [] 4096 _ width
    precision pointer (by decide) (by decide) text enough
  rw [putches_string starred [] width precision pointer (by decide) (by decide) text enough] at same
  have asked : starred.asked starredArgs 0 = 1 := by decide
  have whole : cut (starred.limit starredArgs 0) (List.replicate n (byte 'A')) =
      List.replicate n (byte 'A') := if_pos (by decide)
  rw [asked, whole, List.length_replicate] at same
  unfold Steady at same
  rw [if_pos (by decide)] at same
  omega

end Main

end JosPrintfStrings
