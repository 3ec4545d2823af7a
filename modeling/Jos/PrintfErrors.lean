import Jos.PrintfStrings

/- Case 'e' of vprintfmt: the message of an error code, or its number. -/
namespace JosPrintfErrors
open JosLayout JosPrintfmt JosPrintfChars JosPrintfFields JosPrintfStrings Numerals

def message (n : Nat) : List Int :=
  match errorString.getD n none with
  | some p => shown (chars p)
  | none => shown (chars "error ") ++ digitsOf 10 n

section Messages
variable {rd : Nat → Option UInt8} {bound : Nat}

theorem const_string (s : List UInt8) (nonzero : ∀ c ∈ s, c ≠ 0) : StringAt rd (.const s) s := by
  induction s with
  | nil => exact .nul rfl
  | cons c s ih =>
    exact .char rfl (nonzero c List.mem_cons_self) (ih fun x listed => nonzero x (List.mem_cons_of_mem c listed))

theorem prints_number {n : Nat} (small : n < 2147483648) (nested : Int → Trace) (args : Nat → Arg)
    (given : args 0 = .word ((n : Int) % WORD).toNat) :
    Prints (vprintfmtLoop rd bound nested args 0 (chars "error %d"))
      (shown (chars "error ") ++ digitsOf 10 n) := by
  let f : Field := ⟨.none, .absent, 0, .d⟩
  have text : chars "error %d" = chars "error " ++ (f.format ++ []) := rfl
  have value : f.value args 0 = n := by
    change (getint args 0 0).1 = n
    unfold getint
    rw [if_neg (by decide), given]
    dsimp only [asInt]
    have kept : ((((n : Int) % WORD).toNat : Nat) : Int) = n := by
      simp only [WORD]
      omega
    rw [kept]
    exact wrap_small (by omega) (by omega)
  have printed : written f.flag (f.asked args 0) (sign (f.value args 0)) (f.digits args 0) =
      digitsOf 10 n := by
    have digits : f.digits args 0 = digitsOf 10 n := by
      unfold Field.digits
      rw [value]
      rfl
    have no_fill : (f.asked args 0 - ((digitsOf 10 n).length : Int)).toNat = 0 := by
      change (-1 - ((digitsOf 10 n).length : Int)).toNat = 0
      omega
    unfold written
    rw [digits, value, unsigned_sign, no_fill]
    rfl
  rw [text, loop_literals 0 (chars "error ") _ (by decide), loop_field f [] (Int.le_refl (-1)),
    printed, loop_nil, Trace.andThen_done]
  exact prints_andThen (prints_emits _) (prints_emits _)

theorem prints_message {p : List UInt8} (ascii : ∀ c ∈ p, Printable c) (enough : p.length < bound)
    (short : p.length < 2147483648) (nested : Int → Trace) (args : Nat → Arg) (given : args 0 = .const p) :
    Prints (vprintfmtLoop rd bound nested args 0 (chars "%s")) (shown p) := by
  have nonnull : Arg.const p ≠ .word 0 := fun same => by cases same
  have string : StringAt rd (.const p) p := const_string p fun c listed => printable_nonzero (ascii c listed)
  obtain ⟨t, prints, run⟩ : ∃ t, Prints t _ ∧
      vprintfmtLoop rd bound nested args 0 [byte '%', byte 's'] = t.andThen _ :=
    loop_plain_string given nonnull string enough []
  have no_fill : (wrap (-1 - (p.length : Int))).toNat = 0 := by
    rw [wrap_small (by omega) (by omega)]
    omega
  have same : p.map signed = shown p :=
    List.map_congr_left fun c listed => by
      have small : c.toNat < 128 := Nat.lt_of_le_of_lt (ascii c listed).2 (by decide)
      exact if_pos small
  rw [no_fill, same, List.replicate_zero, List.append_nil] at prints
  have text : chars "%s" = [byte '%', byte 's'] := rfl
  rw [text, run, loop_nil, Trace.andThen_done]
  exact prints

theorem messages_printable : ∀ p ∈ errorString.filterMap id,
    (∀ c ∈ chars p, Printable c) ∧ (chars p).length < 20 := by
  decide

theorem prints_argument (n : Nat) (small : n < 2147483648) :
    Prints (vprintfmtLoop rd bound (fun _ => Trace.done)
        (argList [.word ((n : Int) % WORD).toNat] fun _ => .word 0) 0 (chars "error %d"))
      (shown (chars "error ") ++ digitsOf 10 n) :=
  prints_number small _ _ rfl

theorem convError_prints {err : Int} (int : wrap err = err) (other : err ≠ -2147483648)
    (enough : 20 ≤ bound) : Prints (convError rd bound err) (message err.natAbs) := by
  have bounds := wrap_bounds err
  rw [int] at bounds
  obtain ⟨n, absolute⟩ : ∃ n, err.natAbs = n := ⟨_, rfl⟩
  have small : n < 2147483648 := by omega
  have normal : (if err < 0 then wrap (-err) else err) = n := by
    split
    · rw [wrap_small (by omega) (by omega)]
      omega
    · omega
  have forward : ¬ (n : Int) < 0 := by omega
  unfold convError
  rw [normal, absolute]
  dsimp only
  rw [if_neg forward, Int.toNat_natCast]
  cases entry : errorString.getD n none with
  | none =>
    have text : message n = shown (chars "error ") ++ digitsOf 10 n := by
      unfold message
      rw [entry]
    rw [text]
    split
    · exact prints_argument n small
    · exact prints_argument n small
  | some p =>
    have text : message n = shown (chars p) := by
      unfold message
      rw [entry]
    have inside : n < errorString.length := by
      by_contra outside
      rw [List.getD_eq_default _ _ (Nat.le_of_not_lt outside)] at entry
      cases entry
    have listed : some p ∈ errorString := by
      rw [List.getD_eq_getElem _ _ inside] at entry
      exact entry ▸ List.getElem_mem inside
    obtain ⟨ascii, short⟩ := messages_printable p (List.mem_filterMap.mpr ⟨some p, listed, rfl⟩)
    have within : ¬ (n : Int) ≥ errorString.length := by omega
    rw [text, if_neg within]
    exact prints_message ascii (by omega) (by omega) _ _ rfl

theorem convError_least :
    convError rd bound (-2147483648) = ⟨[], some (.wildIndex (-2147483648))⟩ := by
  unfold convError
  dsimp only
  rw [if_neg (by decide), if_pos (by decide)]
  rfl

/-- What the conversion of an error code is to do: it looks up no message outside the table, and
    prints the text of the absolute value, for the code and for its negation. -/
structure PrintsCode (rd : Nat → Option UInt8) (bound : Nat) (err : Int) : Prop where
  inside : ∀ i, (convError rd bound err).stop ≠ some (.wildIndex i)
  text : putches (convError rd bound err) = message err.natAbs
  negation : putches (convError rd bound (wrap (-err))) = putches (convError rd bound err)

theorem printsCode_iff {err : Int} (int : wrap err = err) (enough : 20 ≤ bound) :
    PrintsCode rd bound err ↔ err ≠ -2147483648 := by
  constructor
  · rintro code rfl
    have outside := code.inside (-2147483648)
    rw [convError_least] at outside
    exact outside rfl
  · intro other
    have bounds := wrap_bounds err
    rw [int] at bounds
    have negative : wrap (-err) = -err := wrap_small (by omega) (by omega)
    have prints : Prints (convError rd bound err) (message err.natAbs) :=
      convError_prints int other enough
    have opposite : Prints (convError rd bound (-err)) (message (-err).natAbs) :=
      convError_prints negative (by omega) enough
    rw [Int.natAbs_neg] at opposite
    constructor
    · intro i wild
      rw [prints.ended] at wild
      cases wild
    · exact prints.chars
    · rw [negative, opposite.chars, prints.chars]

end Messages

section Main
variable {rd : Nat → Option UInt8} {bound : Nat} {args : Nat → Arg} {ap : Nat} {esc : List UInt8}

/-- A conversion by %e, whatever stands between its '%' and its 'e', does all this exactly when its
    code is not the least int. -/
theorem error_code_iff (plain : ∀ c ∈ esc, goesOn c) (rest : List UInt8) (enough : 20 ≤ bound) :
    vprintfmtLoop rd bound (convError rd bound) args ap (byte '%' :: (esc ++ byte 'e' :: rest)) =
        (convError rd bound (asInt (args (ap + stars esc)))).andThen
          (vprintfmtLoop rd bound (convError rd bound) args (ap + stars esc + 1) rest) ∧
      (PrintsCode rd bound (asInt (args (ap + stars esc))) ↔
        asInt (args (ap + stars esc)) ≠ -2147483648) := by
  have ends : ¬ goesOn (byte 'e') := by decide
  obtain ⟨sp, scanned⟩ := scan_escape args none Spec.start ap esc rest plain ends
  have found : convert rd bound (convError rd bound) args
      (scan args none Spec.start ap (esc ++ byte 'e' :: rest)) =
        some (convError rd bound (asInt (args (ap + stars esc))), ap + stars esc + 1) := by
    have letter : (byte 'e').toNat = 'e'.toNat := by decide
    rw [scanned, convert_found (.error letter)]
  constructor
  · rw [loop_escape percent_opens found, scanned]
  · have bounds := asInt_bounds (args (ap + stars esc))
    exact printsCode_iff (wrap_small bounds.1 bounds.2) enough

theorem error_code_iff_noMem : PrintsCode (fun _ => none) 20 (asInt (.word 4294967292)) := by
  have plain : ∀ c ∈ [byte '-', byte '5'], goesOn c := by decide
  have law : vprintfmtLoop _ _ _ (fun _ => .word 4294967292) 0 _ = _ ∧
      (PrintsCode (fun _ => none) 20 (asInt (.word 4294967292)) ↔ _) :=
    error_code_iff plain [] (Nat.le_refl 20)
  exact law.2.mpr (by decide)

/-- %e with the least int goes by an index 2^31 entries before the table. -/
theorem error_code_wild : ¬ ∀ (rd : Nat → Option UInt8) (bound : Nat) (args : Nat → Arg) (ap : Nat),
    20 ≤ bound → PrintsCode rd bound (asInt (args ap)) := by
  intro claim
  have code := claim (fun _ => none) 20 (fun _ => .word 2147483648) 0 (Nat.le_refl 20)
  exact (printsCode_iff rfl (Nat.le_refl 20)).mp code rfl

end Main

end JosPrintfErrors
