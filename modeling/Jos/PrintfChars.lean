import Jos.Printfmt

/- Which characters vprintfmt hands to putch. Only the conversion %c can produce one whose low
   eight bits are 0. -/
namespace JosPrintfChars
open JosLayout JosPrintfmt

def putches (t : Trace) : List Int :=
  t.events.filterMap fun
    | .putch c => some c
    | .read _ => none

def printed {ε : Type} (halted : Stop → ε) (t : Trace) : Except ε (List Int) := do
  t.ended halted
  .ok (putches t)

def lowByte (c : Int) : UInt8 := UInt8.ofNat (c % 256).toNat

section Traces
variable {t v : Trace}

theorem putches_andThen (v : Trace) (goes : t.stop = none) :
    putches (t.andThen v) = putches t ++ putches v ∧ (t.andThen v).stop = v.stop := by
  unfold Trace.andThen putches
  rw [goes]
  exact ⟨List.filterMap_append, rfl⟩

theorem putches_pad (c : Int) (n : Nat) : putches (Trace.pad c n) = List.replicate n c := by
  unfold putches Trace.pad
  induction n with
  | zero => rfl
  | succ n ih =>
    simp only [List.replicate_succ, List.filterMap_cons]
    rw [ih]

theorem lowByte_signed (b : UInt8) : lowByte (signed b) = b := by
  have small := b.toNat_lt
  rw [← UInt8.toNat_inj]
  unfold lowByte signed
  rw [UInt8.toNat_ofNat']
  split <;> omega

end Traces

/-- No character of the trace has its low eight bits 0. -/
def Solid (t : Trace) : Prop := ∀ c ∈ putches t, lowByte c ≠ 0

section Solid
variable {t v : Trace} {rd : Nat → Option UInt8}

theorem solid_done : Solid Trace.done := by
  intro c listed
  cases listed

theorem solid_emit {c : Int} : Solid (Trace.emit c) ↔ lowByte c ≠ 0 := by
  simp [Solid, putches, Trace.emit]

theorem solid_reads {events : List Event} {stop : Option Stop}
    (reads : ∀ e ∈ events, ∃ a, e = .read a) : Solid ⟨events, stop⟩ := by
  intro c listed
  obtain ⟨e, at_e, found⟩ := List.mem_filterMap.mp listed
  obtain ⟨a, rfl⟩ := reads e at_e
  cases found

theorem solid_andThen (first : Solid t) (second : Solid v) : Solid (t.andThen v) := by
  unfold Trace.andThen
  split
  · exact first
  · intro c listed
    unfold putches at listed
    rw [List.filterMap_append, List.mem_append] at listed
    rcases listed with left | right
    · exact first c left
    · exact second c right

theorem solid_pad {c : Int} (solid : lowByte c ≠ 0) (n : Nat) : Solid (Trace.pad c n) := by
  intro d listed
  rw [putches_pad] at listed
  rw [List.eq_of_mem_replicate listed]
  exact solid

theorem digitChar_solid {d : Nat} (small : d < 16) : lowByte (digitChar d) ≠ 0 := by
  revert d
  decide

theorem printnum_solid {base : Nat} (two : 2 ≤ base) (hex : base ≤ 16) {padc : Int}
    (solid : lowByte padc ≠ 0) (num : Nat) (width : Int) :
    Solid (printnum num base width padc) := by
  have digit : ∀ n, lowByte (digitChar (n % base)) ≠ 0 := by
    intro n
    exact digitChar_solid (Nat.lt_of_lt_of_le (Nat.mod_lt n (by omega)) hex)
  induction num, width using printnum.induct base with
  | case1 num width small =>
    unfold printnum
    rw [dif_pos small]
    exact solid_andThen (solid_pad solid _) (solid_emit.mpr (digit num))
  | case2 num width large ih =>
    unfold printnum
    rw [dif_neg large]
    exact solid_andThen ih (solid_emit.mpr (digit num))

theorem load_reads (rd : Nat → Option UInt8) (p : Arg) : ∀ e ∈ (load rd p).2, ∃ a, e = .read a := by
  intro e listed
  unfold load at listed
  split at listed
  · rename_i w
    cases found : rd (w % WORD) with
    | none =>
      rw [found] at listed
      exact ⟨w % WORD, List.mem_singleton.mp listed⟩
    | some b =>
      rw [found] at listed
      exact ⟨w % WORD, List.mem_singleton.mp listed⟩
  · cases listed
  · cases listed

theorem strnlen_solid (bound size n : Nat) (p : Arg) : Solid (strnlen rd bound p size n).1 := by
  induction bound generalizing p size n with
  | zero => exact solid_reads (by simp)
  | succ bound ih =>
    unfold strnlen
    split
    · exact solid_done
    · have reads := load_reads rd p
      split
      · rename_i e events found
        rw [found] at reads
        exact solid_reads reads
      · rename_i c events found
        rw [found] at reads
        split
        · exact solid_reads reads
        · exact solid_andThen (solid_reads reads) (ih _ _ _)

theorem space_solid : lowByte ' '.toNat ≠ 0 := by decide

theorem shown_solid (altflag : Bool) {c : UInt8} (some_char : c ≠ 0) :
    lowByte (putString.shown altflag c) ≠ 0 := by
  unfold putString.shown
  split
  · decide
  · rw [lowByte_signed]
    exact some_char

theorem putString_solid (altflag : Bool) (bound : Nat) (p : Arg) (precision width : Int) :
    Solid (putString rd altflag bound p precision width) := by
  induction bound generalizing p precision width with
  | zero => exact solid_reads (by simp)
  | succ bound ih =>
    have reads := load_reads rd p
    unfold putString
    split
    · rename_i e events found
      rw [found] at reads
      exact solid_reads reads
    · rename_i c events found
      rw [found] at reads
      have loaded : Solid ⟨events, none⟩ := solid_reads reads
      split
      · exact solid_andThen loaded (solid_pad space_solid _)
      · rename_i some_char
        have shown := solid_emit.mpr (shown_solid altflag some_char)
        split
        · exact solid_andThen (solid_andThen loaded shown) (ih _ _ _)
        · split
          · exact solid_andThen (solid_andThen loaded shown) (ih _ _ _)
          · exact solid_andThen loaded (solid_pad space_solid _)

end Solid

section Scan
variable (args : Nat → Arg)

theorem scan_padc (num : Option Int) (sp : Spec) (ap : Nat) (fmt : List UInt8)
    (solid : lowByte sp.padc ≠ 0) : lowByte (scan args num sp ap fmt).spec.padc ≠ 0 := by
  induction fmt generalizing num sp ap with
  | nil =>
    unfold scan
    rw [flush_padc]
    exact solid
  | cons c fmt ih =>
    rcases scan_round args num sp ap c fmt with ⟨_, num', sp', goes_on, same | minus | zero⟩ | ⟨_, ends⟩
    · rw [goes_on]
      exact ih num' sp' _ (same ▸ solid)
    · rw [goes_on]
      apply ih
      rw [minus]
      decide
    · rw [goes_on]
      apply ih
      rw [zero]
      decide
    · rw [ends, flush_padc]
      exact solid

theorem scan_conv_mem (num : Option Int) (sp : Spec) (ap : Nat) (fmt : List UInt8) :
    (scan args num sp ap fmt).conv = 0 ∨ (scan args num sp ap fmt).conv ∈ fmt := by
  induction fmt generalizing num sp ap with
  | nil => exact Or.inl rfl
  | cons c fmt ih =>
    rcases scan_round args num sp ap c fmt with ⟨_, num', sp', goes_on, _⟩ | ⟨_, ends⟩
    · rw [goes_on]
      exact (ih num' sp' _).imp_right (List.mem_cons_of_mem c)
    · rw [ends]
      exact Or.inr List.mem_cons_self

theorem scan_rest_mem (num : Option Int) (sp : Spec) (ap : Nat) (fmt : List UInt8) :
    (scan args num sp ap fmt).rest ⊆ fmt := by
  induction fmt generalizing num sp ap with
  | nil => simp [scan]
  | cons c fmt ih =>
    rcases scan_round args num sp ap c fmt with ⟨_, num', sp', goes_on, _⟩ | ⟨_, ends⟩
    · rw [goes_on]
      exact List.Subset.trans (ih num' sp' _) (List.subset_cons_self c fmt)
    · rw [ends]
      exact List.subset_cons_self c fmt

end Scan

/-- The conversion prints, with %c, an argument whose low eight bits are 0. -/
def nulChar (args : Nat → Arg) (d : Directive) : Prop :=
  d.conv.toNat = 'c'.toNat ∧ lowByte (asInt (args d.ap)) = 0

/-- The position after the arguments of a conversion; none is the default case. -/
def argsAfter (args : Nat → Arg) (d : Directive) : Option Nat :=
  (convert (fun _ => none) 0 (fun _ => Trace.done) args d).map Prod.snd

def printsNul (args : Nat → Arg) (ap : Nat) : List UInt8 → Prop
  | [] => False
  | c :: fmt =>
    if c.toNat ≠ '%'.toNat then printsNul args ap fmt
    else
      let d := scan args none Spec.start ap fmt
      match argsAfter args d with
      | some after => nulChar args d ∨ printsNul args after d.rest
      | none => printsNul args d.ap fmt
termination_by fmt => fmt.length
decreasing_by
  all_goals simp only [List.length_cons]
  · omega
  · have := scan_rest_length args none Spec.start ap fmt
    omega
  · omega

/-- The conversions: the letter of each, what it prints and the position after its arguments. -/
inductive Conversion (rd : Nat → Option UInt8) (bound : Nat) (nested : Int → Trace) (args : Nat → Arg)
    (d : Directive) : Trace → Nat → Prop
  | char (letter : d.conv.toNat = 'c'.toNat) :
    Conversion rd bound nested args d (Trace.emit (asInt (args d.ap))) (d.ap + 1)
  | error (letter : d.conv.toNat = 'e'.toNat) :
    Conversion rd bound nested args d (nested (asInt (args d.ap))) (d.ap + 1)
  | string (letter : d.conv.toNat = 's'.toNat) :
    Conversion rd bound nested args d (convString rd bound d.spec (args d.ap)) (d.ap + 1)
  | negative (letter : d.conv.toNat = 'd'.toNat) (below : (getint args d.ap d.spec.lflag).1 < 0) :
    Conversion rd bound nested args d
      ((Trace.emit '-'.toNat).andThen
        (printnum (-(getint args d.ap d.spec.lflag).1).toNat 10 d.spec.width d.spec.padc))
      (getint args d.ap d.spec.lflag).2
  | signed (letter : d.conv.toNat = 'd'.toNat) (above : ¬ (getint args d.ap d.spec.lflag).1 < 0) :
    Conversion rd bound nested args d
      (printnum (getint args d.ap d.spec.lflag).1.toNat 10 d.spec.width d.spec.padc)
      (getint args d.ap d.spec.lflag).2
  | unsigned (letter : d.conv.toNat = 'u'.toNat) :
    Conversion rd bound nested args d
      (printnum (getuint args d.ap d.spec.lflag).1 10 d.spec.width d.spec.padc)
      (getuint args d.ap d.spec.lflag).2
  | octal (letter : d.conv.toNat = 'o'.toNat) :
    Conversion rd bound nested args d
      (((Trace.emit 'X'.toNat).andThen (Trace.emit 'X'.toNat)).andThen (Trace.emit 'X'.toNat)) d.ap
  | pointer (letter : d.conv.toNat = 'p'.toNat) :
    Conversion rd bound nested args d
      (((Trace.emit '0'.toNat).andThen (Trace.emit 'x'.toNat)).andThen
        (printnum (asLong (args d.ap)) 16 d.spec.width d.spec.padc)) (d.ap + 1)
  | hex (letter : d.conv.toNat = 'x'.toNat) :
    Conversion rd bound nested args d
      (printnum (getuint args d.ap d.spec.lflag).1 16 d.spec.width d.spec.padc)
      (getuint args d.ap d.spec.lflag).2
  | percent (letter : d.conv.toNat = '%'.toNat) :
    Conversion rd bound nested args d (Trace.emit '%'.toNat) d.ap

section Convert
variable {rd : Nat → Option UInt8} {bound : Nat} {nested : Int → Trace} {args : Nat → Arg}
  {d : Directive}

theorem convert_cases {t : Trace} {after : Nat} (found : convert rd bound nested args d = some (t, after)) :
    Conversion rd bound nested args d t after := by
  unfold convert at found
  dsimp only at found
  by_cases char : d.conv.toNat = 'c'.toNat
  · rw [if_pos char] at found
    cases found
    exact .char char
  by_cases error : d.conv.toNat = 'e'.toNat
  · rw [if_neg char, if_pos error] at found
    cases found
    exact .error error
  by_cases string : d.conv.toNat = 's'.toNat
  · rw [if_neg char, if_neg error, if_pos string] at found
    cases found
    exact .string string
  rw [if_neg char, if_neg error, if_neg string] at found
  by_cases decimal : d.conv.toNat = 'd'.toNat
  · rw [if_pos decimal] at found
    split at found
    case isTrue below =>
      cases found
      exact .negative decimal below
    case isFalse above =>
      cases found
      exact .signed decimal above
  by_cases unsigned : d.conv.toNat = 'u'.toNat
  · rw [if_neg decimal, if_pos unsigned] at found
    cases found
    exact .unsigned unsigned
  by_cases octal : d.conv.toNat = 'o'.toNat
  · rw [if_neg decimal, if_neg unsigned, if_pos octal] at found
    cases found
    exact .octal octal
  rw [if_neg decimal, if_neg unsigned, if_neg octal] at found
  by_cases pointer : d.conv.toNat = 'p'.toNat
  · rw [if_pos pointer] at found
    cases found
    exact .pointer pointer
  by_cases hex : d.conv.toNat = 'x'.toNat
  · rw [if_neg pointer, if_pos hex] at found
    cases found
    exact .hex hex
  by_cases percent : d.conv.toNat = '%'.toNat
  · rw [if_neg pointer, if_neg hex, if_pos percent] at found
    cases found
    exact .percent percent
  · rw [if_neg pointer, if_neg hex, if_neg percent] at found
    cases found

theorem convert_found {t : Trace} {after : Nat} (conversion : Conversion rd bound nested args d t after) :
    convert rd bound nested args d = some (t, after) := by
  unfold convert
  dsimp only
  cases conversion with
  | char letter => rw [if_pos letter]
  | error letter => rw [letter, if_neg (by decide), if_pos rfl]
  | string letter => rw [letter, if_neg (by decide), if_neg (by decide), if_pos rfl]
  | negative letter below =>
    rw [letter, if_neg (by decide), if_neg (by decide), if_neg (by decide), if_pos rfl, if_pos below]
  | signed letter above =>
    rw [letter, if_neg (by decide), if_neg (by decide), if_neg (by decide), if_pos rfl, if_neg above]
  | unsigned letter =>
    rw [letter, if_neg (by decide), if_neg (by decide), if_neg (by decide), if_neg (by decide), if_pos rfl]
  | octal letter =>
    rw [letter, if_neg (by decide), if_neg (by decide), if_neg (by decide), if_neg (by decide),
      if_neg (by decide), if_pos rfl]
  | pointer letter =>
    rw [letter, if_neg (by decide), if_neg (by decide), if_neg (by decide), if_neg (by decide),
      if_neg (by decide), if_neg (by decide), if_pos rfl]
  | hex letter =>
    rw [letter, if_neg (by decide), if_neg (by decide), if_neg (by decide), if_neg (by decide),
      if_neg (by decide), if_neg (by decide), if_neg (by decide), if_pos rfl]
  | percent letter =>
    rw [letter, if_neg (by decide), if_neg (by decide), if_neg (by decide), if_neg (by decide),
      if_neg (by decide), if_neg (by decide), if_neg (by decide), if_neg (by decide), if_pos rfl]

theorem convert_after : (convert rd bound nested args d).map Prod.snd = argsAfter args d := by
  unfold argsAfter convert
  simp only [apply_ite (Option.map Prod.snd)]
  rfl

theorem after_some {t : Trace} {after : Nat} (found : convert rd bound nested args d = some (t, after)) :
    argsAfter args d = some after := by
  rw [← convert_after, found]
  rfl

theorem after_none (missing : convert rd bound nested args d = none) : argsAfter args d = none := by
  rw [← convert_after, missing]
  rfl

theorem convString_solid {sp : Spec} (solid : lowByte sp.padc ≠ 0) (arg : Arg) :
    Solid (convString rd bound sp arg) := by
  unfold convString
  dsimp only
  split
  · exact solid_andThen (solid_andThen (strnlen_solid _ _ _ _) (solid_pad solid _))
      (putString_solid _ _ _ _ _)
  · exact putString_solid _ _ _ _ _

/-- What a conversion prints is solid, but for %c with such an argument. -/
theorem convert_solid (padc : lowByte d.spec.padc ≠ 0) (inner : ∀ err, Solid (nested err))
    {t : Trace} {after : Nat} (found : convert rd bound nested args d = some (t, after)) :
    Solid t ↔ ¬ nulChar args d := by
  have number : ∀ num base width, 2 ≤ base → base ≤ 16 → Solid (printnum num base width d.spec.padc) :=
    fun num base width two hex => printnum_solid two hex padc num width
  have emit : ∀ c : Char, lowByte (c.toNat : Int) ≠ 0 → Solid (Trace.emit c.toNat) :=
    fun c solid => solid_emit.mpr solid
  have other : ∀ c : Char, d.conv.toNat = c.toNat → c.toNat ≠ 'c'.toNat → Solid t →
      (Solid t ↔ ¬ nulChar args d) :=
    fun c letter differs solid => ⟨fun _ bad => differs (letter.symm.trans bad.1), fun _ => solid⟩
  cases convert_cases found with
  | char letter =>
    rw [solid_emit]
    exact ⟨fun solid bad => solid bad.2, fun good zero => good ⟨letter, zero⟩⟩
  | error letter => exact other 'e' letter (by decide) (inner _)
  | string letter => exact other 's' letter (by decide) (convString_solid padc _)
  | negative letter below =>
    exact other 'd' letter (by decide)
      (solid_andThen (emit '-' (by decide)) (number _ 10 _ (by decide) (by decide)))
  | signed letter above => exact other 'd' letter (by decide) (number _ 10 _ (by decide) (by decide))
  | unsigned letter => exact other 'u' letter (by decide) (number _ 10 _ (by decide) (by decide))
  | octal letter =>
    exact other 'o' letter (by decide)
      (solid_andThen (solid_andThen (emit 'X' (by decide)) (emit 'X' (by decide))) (emit 'X' (by decide)))
  | pointer letter =>
    exact other 'p' letter (by decide)
      (solid_andThen (solid_andThen (emit '0' (by decide)) (emit 'x' (by decide)))
        (number _ 16 _ (by decide) (by decide)))
  | hex letter => exact other 'x' letter (by decide) (number _ 16 _ (by decide) (by decide))
  | percent letter => exact other '%' letter (by decide) (emit '%' (by decide))

theorem andThen_solid {t v : Trace} (ended : (t.andThen v).stop = none) :
    v.stop = none ∧ (Solid (t.andThen v) ↔ Solid t ∧ Solid v) := by
  have goes : t.stop = none := by
    unfold Trace.andThen at ended
    cases stop : t.stop with
    | none => rfl
    | some e =>
      rw [stop] at ended
      dsimp only at ended
      rw [stop] at ended
      cases ended
  obtain ⟨joined, last⟩ := putches_andThen v goes
  rw [last] at ended
  refine ⟨ended, ?_⟩
  unfold Solid
  rw [joined]
  constructor
  · intro both
    exact ⟨fun c listed => both c (List.mem_append_left _ listed),
      fun c listed => both c (List.mem_append_right _ listed)⟩
  · intro each c listed
    rcases List.mem_append.mp listed with left | right
    · exact each.1 c left
    · exact each.2 c right

theorem literal_solid {c : UInt8} (some_char : c ≠ 0) : Solid (Trace.emit c.toNat) := by
  rw [solid_emit]
  unfold lowByte
  intro zero
  apply some_char
  rw [← UInt8.toNat_inj] at zero ⊢
  rw [UInt8.toNat_ofNat'] at zero
  have small := c.toNat_lt
  simp only [UInt8.toNat_zero] at zero ⊢
  omega

theorem percent_solid : Solid (Trace.emit '%'.toNat) := solid_emit.mpr (by decide)

theorem start_padc : lowByte Spec.start.padc ≠ 0 := by decide

theorem printsNul_literal {ap : Nat} {c : UInt8} {fmt : List UInt8}
    (literal : c.toNat ≠ '%'.toNat) : printsNul args ap (c :: fmt) ↔ printsNul args ap fmt := by
  rw [printsNul, if_pos literal]

theorem printsNul_escape {ap after : Nat} {c : UInt8} {fmt : List UInt8} {t : Trace}
    (escape : ¬ c.toNat ≠ '%'.toNat)
    (found : convert rd bound nested args (scan args none Spec.start ap fmt) = some (t, after)) :
    printsNul args ap (c :: fmt) ↔ nulChar args (scan args none Spec.start ap fmt) ∨
      printsNul args after (scan args none Spec.start ap fmt).rest := by
  rw [printsNul, if_neg escape]
  simp only [after_some found]

theorem printsNul_unknown {ap : Nat} {c : UInt8} {fmt : List UInt8}
    (escape : ¬ c.toNat ≠ '%'.toNat)
    (missing : convert rd bound nested args (scan args none Spec.start ap fmt) = none) :
    printsNul args ap (c :: fmt) ↔
      printsNul args (scan args none Spec.start ap fmt).ap fmt := by
  rw [printsNul, if_neg escape]
  simp only [after_none missing]

theorem loop_nil (ap : Nat) : vprintfmtLoop rd bound nested args ap [] = Trace.done := by
  rw [vprintfmtLoop]

theorem loop_literal {ap : Nat} {c : UInt8} {fmt : List UInt8} (literal : c.toNat ≠ '%'.toNat) :
    vprintfmtLoop rd bound nested args ap (c :: fmt) =
      (Trace.emit c.toNat).andThen (vprintfmtLoop rd bound nested args ap fmt) := by
  rw [vprintfmtLoop, if_pos literal]

theorem loop_escape {ap after : Nat} {c : UInt8} {fmt : List UInt8} {t : Trace}
    (escape : ¬ c.toNat ≠ '%'.toNat)
    (found : convert rd bound nested args (scan args none Spec.start ap fmt) = some (t, after)) :
    vprintfmtLoop rd bound nested args ap (c :: fmt) = t.andThen (vprintfmtLoop rd bound nested
      args after (scan args none Spec.start ap fmt).rest) := by
  rw [vprintfmtLoop, if_neg escape]
  simp only [found]

theorem loop_unknown {ap : Nat} {c : UInt8} {fmt : List UInt8}
    (escape : ¬ c.toNat ≠ '%'.toNat)
    (missing : convert rd bound nested args (scan args none Spec.start ap fmt) = none) :
    vprintfmtLoop rd bound nested args ap (c :: fmt) = (Trace.emit '%'.toNat).andThen
      (vprintfmtLoop rd bound nested args (scan args none Spec.start ap fmt).ap fmt) := by
  rw [vprintfmtLoop, if_neg escape]
  simp only [missing]

theorem loop_solid (inner : ∀ err, Solid (nested err)) (ap : Nat) (fmt : List UInt8)
    (text : ∀ c ∈ fmt, c ≠ 0) (none_nul : ¬ printsNul args ap fmt) :
    Solid (vprintfmtLoop rd bound nested args ap fmt) := by
  induction ap, fmt using vprintfmtLoop.induct rd bound nested args with
  | case1 ap =>
    unfold vprintfmtLoop
    exact solid_done
  | case2 ap c fmt literal ih =>
    rw [printsNul_literal literal] at none_nul
    rw [loop_literal literal]
    exact solid_andThen (literal_solid (text c (by simp)))
      (ih (fun x listed => text x (by simp [listed])) none_nul)
  | case3 ap c fmt escape d t after found ih =>
    rw [printsNul_escape escape found, not_or] at none_nul
    have padc := scan_padc args none Spec.start ap fmt start_padc
    have rest := scan_rest_mem args none Spec.start ap fmt
    rw [loop_escape escape found]
    exact solid_andThen ((convert_solid padc inner found).mpr none_nul.1)
      (ih (fun x listed => text x (List.mem_cons_of_mem c (rest listed))) none_nul.2)
  | case4 ap c fmt escape d missing ih =>
    rw [printsNul_unknown escape missing] at none_nul
    rw [loop_unknown escape missing]
    exact solid_andThen percent_solid (ih (fun x listed => text x (by simp [listed])) none_nul)

theorem loop_hollow (inner : ∀ err, Solid (nested err)) (ap : Nat) (fmt : List UInt8)
    (ended : (vprintfmtLoop rd bound nested args ap fmt).stop = none)
    (solid : Solid (vprintfmtLoop rd bound nested args ap fmt)) : ¬ printsNul args ap fmt := by
  induction ap, fmt using vprintfmtLoop.induct rd bound nested args with
  | case1 ap => simp [printsNul]
  | case2 ap c fmt literal ih =>
    rw [printsNul_literal literal]
    rw [loop_literal literal] at ended solid
    obtain ⟨ended', both⟩ := andThen_solid ended
    exact ih ended' (both.mp solid).2
  | case3 ap c fmt escape d t after found ih =>
    rw [printsNul_escape escape found, not_or]
    have padc := scan_padc args none Spec.start ap fmt start_padc
    rw [loop_escape escape found] at ended solid
    obtain ⟨ended', both⟩ := andThen_solid ended
    have parts := both.mp solid
    exact ⟨(convert_solid padc inner found).mp parts.1, ih ended' parts.2⟩
  | case4 ap c fmt escape d missing ih =>
    rw [printsNul_unknown escape missing]
    rw [loop_unknown escape missing] at ended solid
    obtain ⟨ended', both⟩ := andThen_solid ended
    exact ih ended' (both.mp solid).2

theorem printsNul_letter {ap : Nat} {fmt : List UInt8} (nul : printsNul args ap fmt) :
    ∃ x ∈ fmt, x.toNat = 'c'.toNat := by
  induction ap, fmt using vprintfmtLoop.induct (fun _ => none) 0 (fun _ => Trace.done) args with
  | case1 ap => simp [printsNul] at nul
  | case2 ap c fmt literal ih =>
    rw [printsNul_literal literal] at nul
    obtain ⟨x, listed, letter⟩ := ih nul
    exact ⟨x, List.mem_cons_of_mem c listed, letter⟩
  | case3 ap c fmt escape d t after found ih =>
    rw [printsNul_escape escape found] at nul
    rcases nul with here | later
    · rcases scan_conv_mem args none Spec.start ap fmt with zero | listed
      · have letter := here.1
        rw [zero] at letter
        exact absurd letter (by decide)
      · exact ⟨_, List.mem_cons_of_mem c listed, here.1⟩
    · obtain ⟨x, listed, letter⟩ := ih later
      exact ⟨x, List.mem_cons_of_mem c (scan_rest_mem args none Spec.start ap fmt listed), letter⟩
  | case4 ap c fmt escape d missing ih =>
    rw [printsNul_unknown escape missing] at nul
    obtain ⟨x, listed, letter⟩ := ih nul
    exact ⟨x, List.mem_cons_of_mem c listed, letter⟩

theorem convError_solid (err : Int) : Solid (convError rd bound err) := by
  have plain : ∀ s, ((chars s).all fun c => c != 0 && c.toNat != 'c'.toNat) = true →
      ∀ args : Nat → Arg,
        Solid (vprintfmtLoop rd bound (fun _ => Trace.done) args 0 (chars s)) := by
    intro s letters args
    simp only [List.all_eq_true, Bool.and_eq_true, bne_iff_ne] at letters
    apply loop_solid (fun _ => solid_done) 0 (chars s) fun c listed => (letters c listed).1
    intro nul
    obtain ⟨x, at_x, letter⟩ := printsNul_letter nul
    exact (letters x at_x).2 letter
  unfold convError
  dsimp only
  generalize (if err < 0 then wrap (-err) else err) = code
  split
  · exact plain _ (by decide) _
  · split
    · exact solid_reads (by simp)
    · split
      · exact plain _ (by decide) _
      · exact plain _ (by decide) _

end Convert

/-- The characters of a completed vprintfmt are all solid exactly when no %c prints an argument
    whose low eight bits are 0. -/
theorem vprintfmt_solid {rd : Nat → Option UInt8} {bound : Nat} {fmt : List UInt8}
    {args : Nat → Arg} (text : ∀ c ∈ fmt, c ≠ 0)
    (ended : (vprintfmt rd bound fmt args).stop = none) :
    Solid (vprintfmt rd bound fmt args) ↔ ¬ printsNul args 0 fmt :=
  ⟨loop_hollow convError_solid 0 fmt ended, loop_solid convError_solid 0 fmt text⟩

end JosPrintfChars
