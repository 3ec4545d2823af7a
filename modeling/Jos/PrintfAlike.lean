import Jos.PrintfStrings
import Jos.Crt

/- One text printed in two ways by vprintfmt, as its format and by %s, and the cells that cga_putc
   makes of the two. -/
namespace JosPrintfAlike
open JosLayout JosPrintfmt JosPrintfChars JosPrintfFields JosPrintfStrings

def doubled (text : List UInt8) : List UInt8 :=
  text.flatMap fun c => if c = byte '%' then [byte '%', byte '%'] else [c]

def typed (depth : Nat) (cs : List Int) (crt : JosCrt.Crt) : Except JosCrt.Fault JosCrt.Crt :=
  cs.foldlM (fun crt c => JosCrt.cgaPutc depth (BitVec.ofInt 32 c) crt) crt

section Format
variable {rd : Nat → Option UInt8} {bound : Nat} {nested : Int → Trace} {args : Nat → Arg} {ap : Nat}

theorem loop_percent (rest : List UInt8) :
    vprintfmtLoop rd bound nested args ap (byte '%' :: byte '%' :: rest) =
      (Trace.emit '%'.toNat).andThen (vprintfmtLoop rd bound nested args ap rest) := by
  have scanned : scan args none Spec.start ap (byte '%' :: rest) = ⟨Spec.start, ap, byte '%', rest⟩ :=
    scan_ends Spec.start ap (by decide)
  have found : convert rd bound nested args (scan args none Spec.start ap (byte '%' :: rest)) =
      some (Trace.emit '%'.toNat, ap) := by
    rw [scanned]
    rfl
  rw [loop_escape (by decide) found, scanned]

theorem loop_doubled (text : List UInt8) :
    vprintfmtLoop rd bound nested args ap (doubled text) = emits (shown text) := by
  induction text with
  | nil => exact loop_nil ap
  | cons c text ih =>
    have step : vprintfmtLoop rd bound nested args ap (doubled (c :: text)) =
        (Trace.emit c.toNat).andThen (vprintfmtLoop rd bound nested args ap (doubled text)) := by
      unfold doubled
      rw [List.flatMap_cons]
      by_cases percent : c = byte '%'
      · rw [if_pos percent, percent]
        exact loop_percent (doubled text)
      · have literal : c.toNat ≠ '%'.toNat := fun same => percent (UInt8.toNat_inj.mp same)
        rw [if_neg percent]
        exact loop_literal literal
    rw [step, ih]
    exact emits_append [(c.toNat : Int)] (shown text)

end Format

section Text
variable {text : List UInt8}

theorem signed_shown : text.map signed = shown text ↔ ∀ c ∈ text, c.toNat < 128 := by
  unfold shown
  rw [List.map_inj_left]
  refine forall₂_congr fun c _ => ?_
  unfold signed
  split
  · exact ⟨fun _ => by assumption, fun _ => rfl⟩
  · constructor
    · intro same
      omega
    · intro ascii
      contradiction

theorem no_fill (n : Nat) : (wrap (-1 - (n : Int))).toNat = 0 ↔ (n + 1) % WORD ≤ 2147483648 := by
  rw [Int.toNat_eq_zero]
  unfold wrap
  rw [Int.bmod_def]
  simp only [WORD]
  split
  · omega
  · omega

end Text

/-- The text as a format and the text as the argument of %s: the same calls of putch, and so the
    same screen from the same screen. -/
structure Alike (rd : Nat → Option UInt8) (bound : Nat) (text : List UInt8) (p : Arg) : Prop where
  ended : (vprintfmt rd bound (doubled text) fun _ => p).stop = none ∧
    (vprintfmt rd bound [byte '%', byte 's'] fun _ => p).stop = none
  ints : putches (vprintfmt rd bound (doubled text) fun _ => p) =
    putches (vprintfmt rd bound [byte '%', byte 's'] fun _ => p)
  cells : ∀ depth crt, typed depth (putches (vprintfmt rd bound (doubled text) fun _ => p)) crt =
    typed depth (putches (vprintfmt rd bound [byte '%', byte 's'] fun _ => p)) crt

section Main
variable {rd : Nat → Option UInt8} {bound : Nat} {text : List UInt8} {p : Arg}

theorem plain_string (string : StringAt rd p text) (nonnull : p ≠ .word 0) (enough : text.length < bound) :
    Prints (vprintfmt rd bound [byte '%', byte 's'] fun _ => p)
      (text.map signed ++ List.replicate (wrap (-1 - text.length)).toNat (' '.toNat : Int)) := by
  obtain ⟨t, prints, run⟩ : ∃ t, Prints t _ ∧
      vprintfmtLoop rd bound (convError rd bound) (fun _ => p) 0 [byte '%', byte 's'] = t.andThen _ :=
    loop_plain_string rfl nonnull string enough []
  unfold vprintfmt
  rw [run, loop_nil, Trace.andThen_done]
  exact prints

/-- A text prints alike both ways exactly when it is ASCII and the width counter of the %s does not
    come round to a positive number. -/
theorem alike_iff (string : StringAt rd p text) (nonnull : p ≠ .word 0) (enough : text.length < bound) :
    Alike rd bound text p ↔ (∀ c ∈ text, c.toNat < 128) ∧ (text.length + 1) % WORD ≤ 2147483648 := by
  have format : vprintfmt rd bound (doubled text) (fun _ => p) = emits (shown text) := loop_doubled text
  have argument := plain_string string nonnull enough
  have same : shown text = text.map signed ++ List.replicate (wrap (-1 - text.length)).toNat (' '.toNat : Int) ↔
      (∀ c ∈ text, c.toNat < 128) ∧ (text.length + 1) % WORD ≤ 2147483648 := by
    rw [← signed_shown, ← no_fill]
    constructor
    · intro whole
      have lengths := congrArg List.length whole
      unfold shown at lengths
      simp only [List.length_append, List.length_map, List.length_replicate] at lengths
      have none_left : (wrap (-1 - (text.length : Int))).toNat = 0 := by omega
      rw [none_left, List.replicate_zero, List.append_nil] at whole
      exact ⟨whole.symm, none_left⟩
    · rintro ⟨ascii, none_left⟩
      rw [none_left, List.replicate_zero, List.append_nil, ascii]
  rw [← same]
  constructor
  · intro alike
    have ints := alike.ints
    rw [format, putches_emits, argument.chars] at ints
    exact ints
  · intro ints
    have stream : putches (vprintfmt rd bound (doubled text) fun _ => p) =
        putches (vprintfmt rd bound [byte '%', byte 's'] fun _ => p) := by
      rw [format, putches_emits, argument.chars]
      exact ints
    refine ⟨⟨?_, argument.ended⟩, stream, ?_⟩
    · rw [format]
      rfl
    · intro depth crt
      rw [stream]

theorem alike_iff_percent : Alike (fun _ => none) 5 [byte '1', byte '0', byte '0', byte '%']
    (.const [byte '1', byte '0', byte '0', byte '%']) := by
  have string : StringAt (fun _ => none) (.const [byte '1', byte '0', byte '0', byte '%'])
      [byte '1', byte '0', byte '0', byte '%'] :=
    .char rfl (by decide) (.char rfl (by decide) (.char rfl (by decide) (.char rfl (by decide) (.nul rfl))))
  exact (alike_iff string (fun null => by cases null) (by decide)).mpr ⟨by decide, by decide⟩

/-- The byte 0x80, and the cell it makes on a blank screen: the attribute is white on black where it
    stands in the format, and 0xFF where %s prints it. -/
theorem alike_high : (¬ ∀ (rd : Nat → Option UInt8) (bound : Nat) (text : List UInt8) (p : Arg),
      StringAt rd p text → p ≠ .word 0 → text.length < bound → Alike rd bound text p) ∧
    (typed 1 [128] ⟨fun _ => JosCrt.blank, 0, 0x3D4, []⟩).map (fun crt => crt.buf 0) = .ok 0x0780 ∧
    (typed 1 [-128] ⟨fun _ => JosCrt.blank, 0, 0x3D4, []⟩).map (fun crt => crt.buf 0) = .ok 0xFF80 := by
  refine ⟨fun claim => ?_, rfl, rfl⟩
  have string : StringAt (fun _ => none) (.const [0x80]) [0x80] := .char rfl (by decide) (.nul rfl)
  have nonnull : Arg.const [0x80] ≠ .word 0 := fun null => by cases null
  have alike := claim (fun _ => none) 2 [0x80] (.const [0x80]) string nonnull (by decide)
  have ascii := ((alike_iff string nonnull (by decide)).mp alike).1 0x80 List.mem_cons_self
  exact absurd ascii (by decide)

end Main

end JosPrintfAlike
