import Jos.PrintfStrings

/- What cprintf prints, from the pieces its format is made of. -/
namespace JosPrintfPieces
open JosLayout JosPrintfmt JosPrintfChars JosPrintfFields JosPrintfStrings

/-- A piece of a format, with its arguments: plain text, a numeric conversion without an l, %s, %.*s,
    or %p. -/
inductive Piece where
  | text (cs : List UInt8)
  | number (flag : Flag) (width : Width) (conv : Conv) (w : Nat)
  | string (p : Arg) (s : List UInt8)
  | clipped (n : Nat) (p : Arg) (s : List UInt8)
  | pointer (w : Nat)

namespace Piece

def format : Piece → List UInt8
  | text cs => cs
  | number flag width conv _ => Field.format ⟨flag, width, 0, conv⟩
  | string _ _ => [byte '%', byte 's']
  | clipped _ _ _ => [byte '%', byte '.', byte '*', byte 's']
  | pointer _ => [byte '%', byte 'p']

def args : Piece → List Arg
  | text _ => []
  | number _ _ _ w => [.word w]
  | string p _ => [p]
  | clipped n p _ => [.word n, p]
  | pointer w => [.word w]

def output : Piece → List Int
  | text cs => shown cs
  | number flag width conv w =>
    let v := conv.value (fun _ => .word w) 0 0
    written flag (width.value (fun _ => .word w) 0) (sign v) (digitsOf conv.base v.natAbs)
  | string _ s => s.map signed
  | clipped n _ s => (s.take n).map signed
  | pointer w => shown (chars "0x") ++ digitsOf 16 (w % WORD)

/-- The text is no directive, no argument gives a width, a string is there to be read, and the number of
    its characters to print is an int. -/
def Fine (rd : Nat → Option UInt8) (bound : Nat) : Piece → Prop
  | text cs => ∀ c ∈ cs, c.toNat ≠ '%'.toNat
  | number _ width _ _ => width ≠ .star
  | string p s => p ≠ .word 0 ∧ StringAt rd p s ∧ s.length < bound ∧ s.length < 2147483648
  | clipped n p s => p ≠ .word 0 ∧ StringAt rd p s ∧ s.length < bound ∧ s.length < 2147483648 ∧ n < 2147483648
  | pointer _ => True

end Piece

def hexDigits (w v : Nat) : List Int :=
  List.replicate (w - (digitsOf 16 v).length) ('0'.toNat : Int) ++ digitsOf 16 v

section Pieces
variable {rd : Nat → Option UInt8} {bound : Nat} {nested : Int → Trace} {args : Nat → Arg} {ap : Nat}

theorem string_const {s : List UInt8} (nonzero : ∀ c ∈ s, c ≠ 0) : StringAt rd (.const s) s := by
  induction s with
  | nil => exact .nul rfl
  | cons c s ih =>
    exact .char rfl (nonzero c List.mem_cons_self) (ih fun x listed => nonzero x (List.mem_cons_of_mem c listed))

theorem loop_pointer {w : Nat} (given : args ap = .word w) (rest : List UInt8) :
    vprintfmtLoop rd bound nested args ap (byte '%' :: byte 'p' :: rest) =
      (emits (shown (chars "0x") ++ digitsOf 16 (w % WORD))).andThen
        (vprintfmtLoop rd bound nested args (ap + 1) rest) := by
  have scanned : scan args none Spec.start ap (byte 'p' :: rest) = ⟨Spec.start, ap, byte 'p', rest⟩ :=
    scan_ends Spec.start ap (by decide)
  have few : (digitsOf 16 (w % WORD)).length ≤ 20 := by
    have small : w % WORD < 16 ^ (7 + 1) := Nat.mod_lt w (by decide)
    unfold digitsOf
    rw [List.length_map]
    exact Nat.le_trans (Numerals.numeral_length_le (by decide) _ 7 small) (by decide)
  have digits := @printnum_emits 16 (by decide) (w % WORD) (-1) ' '.toNat (by omega) (by decide)
  have none_left : ((-1 : Int) - (digitsOf 16 (w % WORD)).length).toNat = 0 := by omega
  rw [none_left, List.replicate_zero, List.nil_append] at digits
  have found : convert rd bound nested args (scan args none Spec.start ap (byte 'p' :: rest)) =
      some ((emits (shown (chars "0x"))).andThen (emits (digitsOf 16 (w % WORD))), ap + 1) := by
    rw [scanned, ← digits]
    unfold convert
    dsimp only
    rw [given]
    rfl
  rw [loop_escape percent_opens found, scanned, emits_append]

theorem loop_clipped {n : Nat} {p : Arg} {s : List UInt8} (limit : args ap = .word n)
    (given : args (ap + 1) = p) (nonnull : p ≠ .word 0) (string : StringAt rd p s)
    (enough : s.length < bound) (short : s.length < 2147483648) (int : n < 2147483648)
    (rest : List UInt8) :
    ∃ t, Prints t ((s.take n).map signed) ∧
      vprintfmtLoop rd bound nested args ap (byte '%' :: byte '.' :: byte '*' :: byte 's' :: rest) =
        t.andThen (vprintfmtLoop rd bound nested args (ap + 2) rest) := by
  have precision : asInt (args ap) = n := by
    rw [limit]
    exact wrap_small (by omega) (by omega)
  have scanned := scan_string ⟨.none, .absent, .star⟩ args ap rest
  change scan args none Spec.start ap (byte '.' :: byte '*' :: byte 's' :: rest) =
    ⟨⟨Flag.padc .none, 0, asInt (args ap), 0, false⟩, ap + 1, byte 's', rest⟩ at scanned
  have found : convert rd bound nested args
      (scan args none Spec.start ap (byte '.' :: byte '*' :: byte 's' :: rest)) =
        some (putString rd false bound p n 0, ap + 2) := by
    rw [scanned, precision, convert_string rfl]
    unfold convString
    dsimp only
    rw [if_neg (fun wide => absurd wide.1 (Int.lt_irrefl 0)), given, if_neg nonnull]
  have prints : Prints (putString rd false bound p n 0) _ := putString_string string n 0 rfl enough
  have some_of : cut n s = s.take n := by
    unfold cut
    rw [if_neg (by omega)]
    rfl
  have none_left : (wrap (0 - ((s.take n).length : Int))).toNat = 0 := by
    have fewer : (s.take n).length ≤ s.length := List.length_take_le' n s
    rw [wrap_small (by omega) (by omega)]
    omega
  rw [some_of, none_left, List.replicate_zero, List.append_nil] at prints
  refine ⟨_, prints, ?_⟩
  rw [loop_escape percent_opens found, scanned]

theorem loop_piece (p : Piece) (fine : p.Fine rd bound)
    (given : ∀ k a, p.args[k]? = some a → args (ap + k) = a) (rest : List UInt8) : ∃ t, Prints t p.output ∧
      vprintfmtLoop rd bound nested args ap (p.format ++ rest) =
        t.andThen (vprintfmtLoop rd bound nested args (ap + p.args.length) rest) := by
  cases p with
  | text cs => exact ⟨_, prints_emits _, loop_literals ap cs rest fine⟩
  | number flag width conv w =>
    have word : args ap = .word w := given 0 _ rfl
    obtain ⟨asked, after⟩ : width.value args ap = width.value (fun _ => .word w) 0 ∧ width.after ap = ap := by
      cases width with
      | absent => exact ⟨rfl, rfl⟩
      | digits k _ _ => exact ⟨rfl, rfl⟩
      | star => exact absurd rfl fine
    have value : conv.value args ap 0 = conv.value (fun _ => .word w) 0 0 := by
      cases conv with
      | d => simp [Conv.value, getint, word]
      | u => simp [Conv.value, getuint, word]
      | x => simp [Conv.value, getuint, word]
    have wide : -1 ≤ width.value args ap := by
      cases width with
      | absent => exact Int.le_refl _
      | digits k _ _ =>
        change (-1 : Int) ≤ k
        omega
      | star => exact absurd rfl fine
    have run := @loop_field rd bound nested args ap ⟨flag, width, 0, conv⟩ rest wide
    unfold Field.digits Field.value Field.asked Field.after at run
    rw [after, value, asked] at run
    exact ⟨_, prints_emits _, run⟩
  | string p s =>
    obtain ⟨nonnull, string, enough, short⟩ := fine
    obtain ⟨t, prints, run⟩ := @loop_plain_string rd bound nested args ap p s (given 0 p rfl) nonnull string
      enough rest
    have none_left : (wrap (-1 - (s.length : Int))).toNat = 0 := by
      rw [wrap_small (by omega) (by omega)]
      omega
    rw [none_left, List.replicate_zero, List.append_nil] at prints
    exact ⟨t, prints, run⟩
  | clipped n p s =>
    obtain ⟨nonnull, string, enough, short, int⟩ := fine
    exact loop_clipped (given 0 _ rfl) (given 1 _ rfl) nonnull string enough short int rest
  | pointer w => exact ⟨_, prints_emits _, loop_pointer (given 0 _ rfl) rest⟩

theorem loop_pieces (ps : List Piece) (fine : ∀ p ∈ ps, p.Fine rd bound)
    (given : ∀ k a, (ps.flatMap Piece.args)[k]? = some a → args (ap + k) = a) :
    Prints (vprintfmtLoop rd bound nested args ap (ps.flatMap Piece.format)) (ps.flatMap Piece.output) := by
  induction ps generalizing ap with
  | nil =>
    rw [List.flatMap_nil, loop_nil]
    exact ⟨rfl, rfl⟩
  | cons p ps ih =>
    rw [List.flatMap_cons] at given
    have first : ∀ k a, p.args[k]? = some a → args (ap + k) = a := by
      intro k a found
      apply given
      rw [List.getElem?_append_left (List.getElem?_eq_some_iff.mp found).1, found]
    have later : ∀ k a, (ps.flatMap Piece.args)[k]? = some a → args (ap + p.args.length + k) = a := by
      intro k a found
      rw [Nat.add_assoc]
      apply given
      rw [List.getElem?_append_right (Nat.le_add_right _ _), Nat.add_sub_cancel_left, found]
    obtain ⟨t, prints, run⟩ := loop_piece p (fine p List.mem_cons_self) first (ps.flatMap Piece.format)
    rw [List.flatMap_cons, List.flatMap_cons, run]
    exact prints_andThen prints (ih (fun q listed => fine q (List.mem_cons_of_mem p listed)) later)

/-- A call of cprintf whose format and arguments are those of the pieces. -/
theorem cprintf_pieces {fmt : List UInt8} {given : List Arg} (beyond : Nat → Arg) (ps : List Piece)
    (format : fmt = ps.flatMap Piece.format) (arguments : given = ps.flatMap Piece.args)
    (fine : ∀ p ∈ ps, p.Fine rd bound) :
    Prints (vprintfmt rd bound fmt (argList given beyond)) (ps.flatMap Piece.output) := by
  subst format arguments
  apply loop_pieces ps fine
  intro k a found
  unfold argList
  rw [Nat.zero_add, List.getD_eq_getElem?_getD, found]
  rfl

end Pieces

def decimalText (w : Nat) : List Int :=
  let v := asInt (.word w)
  sign v ++ digitsOf 10 v.natAbs

theorem decimalText_output (w : Nat) : Piece.output (.number .none .absent .d w) = decimalText w := by
  have value : Conv.value (fun _ => .word w) 0 0 .d = asInt (.word w) := by
    simp [Conv.value, getint]
  have no_fill : ∀ ds : List Int, (Width.value (fun _ => .word w) 0 .absent - ds.length).toNat = 0 := by
    intro ds
    have unasked : Width.value (fun _ => .word w) 0 .absent = -1 := rfl
    omega
  unfold Piece.output decimalText
  dsimp only
  rw [value]
  unfold written
  rw [no_fill, List.replicate_zero, List.nil_append]
  rfl

end JosPrintfPieces
