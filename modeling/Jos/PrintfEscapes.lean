import Jos.PrintfPointer
import Jos.PrintfErrors

/- Any format at all: vprintfmt comes to its end, and prints what it does not know as it stands. -/
namespace JosPrintfEscapes
open JosLayout JosPrintfmt JosPrintfChars JosPrintfFields JosPrintfStrings JosPrintfPointer
  JosPrintfErrors CountedLoop

section Literal
variable {rd : Nat → Option UInt8} {chars : Nat} {nested : Int → Trace} {args : Nat → Arg}

theorem loop_verbatim {c : UInt8} (ap : Nat) (esc rest : List UInt8) (plain : ∀ x ∈ esc, goesOn x)
    (ends : ¬ goesOn c) (other : ¬ known c) :
    vprintfmtLoop rd chars nested args ap (byte '%' :: (esc ++ c :: rest)) =
      (emits (shown (byte '%' :: (esc ++ [c])))).andThen
        (vprintfmtLoop rd chars nested args (ap + stars esc) rest) := by
  obtain ⟨sp, found⟩ := scan_escape args none Spec.start ap esc rest plain ends
  have missing : convert rd chars nested args (scan args none Spec.start ap (esc ++ c :: rest)) = none := by
    apply convert_unknown
    rw [found]
    exact other
  have text : ∀ x ∈ esc ++ [c], x.toNat ≠ '%'.toNat := by
    intro x listed
    cases List.mem_append.mp listed with
    | inl inside => exact goesOn_not_percent (plain x inside)
    | inr last =>
      rw [List.mem_singleton.mp last]
      exact fun percent => other (Or.inr (Or.inr (Or.inr (Or.inr (Or.inr (Or.inr (Or.inr
        (Or.inr percent))))))))
  have whole : esc ++ c :: rest = (esc ++ [c]) ++ rest := by simp
  rw [loop_unknown percent_opens missing, found, whole, loop_literals _ _ _ text]
  exact (emits_andThen [((byte '%').toNat : Int)] (shown (esc ++ [c])) _).symm

theorem loop_unended (ap : Nat) (esc : List UInt8) (plain : ∀ x ∈ esc, goesOn x) :
    vprintfmtLoop rd chars nested args ap (byte '%' :: esc) = emits (shown (byte '%' :: esc)) := by
  obtain ⟨sp, found⟩ := scan_unended args none Spec.start ap esc plain
  have missing : convert rd chars nested args (scan args none Spec.start ap esc) = none := by
    apply convert_unknown
    rw [found]
    exact show ¬ known 0 by decide
  have text : vprintfmtLoop rd chars nested args (ap + stars esc) (esc ++ []) = _ :=
    loop_literals (ap + stars esc) esc [] fun x listed => goesOn_not_percent (plain x listed)
  rw [loop_nil, Trace.andThen_done, List.append_nil] at text
  rw [loop_unknown percent_opens missing, found, text]
  exact emits_append [((byte '%').toNat : Int)] (shown esc)

end Literal

section Shift
variable {rd : Nat → Option UInt8} {chars : Nat} {nested : Int → Trace} (args : Nat → Arg) (k : Nat)

def later (i : Nat) : Arg := args (k + i)

/-- A directive over these arguments, as one over all of them. -/
def among (d : Directive) : Directive := { d with ap := k + d.ap }

theorem scan_later (num : Option Int) (sp : Spec) (ap : Nat) (fmt : List UInt8) :
    scan args num sp (k + ap) fmt = among k (scan (later args k) num sp ap fmt) := by
  induction fmt generalizing num sp ap with
  | nil => rfl
  | cons c fmt ih =>
    rw [scan, scan]
    dsimp only
    simp only [apply_ite (among k), ← ih]
    rfl

theorem getint_later (ap longs : Nat) :
    getint args (k + ap) longs = ((getint (later args k) ap longs).1, k + (getint (later args k) ap longs).2) := by
  unfold getint later
  split
  · simp only [Nat.add_assoc]
  · simp only [Nat.add_assoc]

theorem getuint_later (ap longs : Nat) :
    getuint args (k + ap) longs =
      ((getuint (later args k) ap longs).1, k + (getuint (later args k) ap longs).2) := by
  unfold getuint later
  split
  · simp only [Nat.add_assoc]
  · simp only [Nat.add_assoc]

theorem convert_later (d : Directive) :
    convert rd chars nested args (among k d) =
      (convert rd chars nested (later args k) d).map fun r => (r.1, k + r.2) := by
  unfold convert among
  dsimp only
  rw [getint_later, getuint_later]
  simp only [apply_ite (Option.map _)]
  rfl

theorem loop_later (ap : Nat) (fmt : List UInt8) :
    vprintfmtLoop rd chars nested args (k + ap) fmt =
      vprintfmtLoop rd chars nested (later args k) ap fmt := by
  induction ap, fmt using vprintfmtLoop.induct rd chars nested (later args k) with
  | case1 ap => rw [loop_nil, loop_nil]
  | case2 ap c fmt literal ih => rw [loop_literal literal, loop_literal literal, ih]
  | case3 ap c fmt escape d t after found ih =>
    have there : convert rd chars nested args (scan args none Spec.start (k + ap) fmt) =
        some (t, k + after) := by
      rw [scan_later, convert_later, found]
      rfl
    rw [loop_escape escape there, loop_escape escape found, scan_later]
    exact congrArg t.andThen ih
  | case4 ap c fmt escape d missing ih =>
    have there : convert rd chars nested args (scan args none Spec.start (k + ap) fmt) = none := by
      rw [scan_later, convert_later, missing]
      rfl
    rw [loop_unknown escape there, loop_unknown escape missing, scan_later]
    exact congrArg (Trace.emit '%'.toNat).andThen ih

end Shift

def everyDirective (P : Directive → Prop) (args : Nat → Arg) (ap : Nat) : List UInt8 → Prop
  | [] => True
  | c :: fmt =>
    if c.toNat ≠ '%'.toNat then everyDirective P args ap fmt
    else
      let d := scan args none Spec.start ap fmt
      match argsAfter args d with
      | some after => P d ∧ everyDirective P args after d.rest
      | none => everyDirective P args d.ap fmt
termination_by fmt => fmt.length
decreasing_by
  all_goals simp only [List.length_cons]
  · omega
  · have := scan_rest_length args none Spec.start ap fmt
    omega
  · omega

def Points (rd : Nat → Option UInt8) (chars : Nat) (p : Arg) : Prop :=
  p = .word 0 ∨ ∃ s, StringAt rd p s ∧ s.length < chars

section Ends
variable {rd : Nat → Option UInt8} {chars : Nat} {nested : Int → Trace} {args : Nat → Arg}

theorem andThen_ends {t u : Trace} : (t.andThen u).stop = none ↔ t.stop = none ∧ u.stop = none := by
  unfold Trace.andThen
  cases ended : t.stop with
  | none => simp
  | some e => simp [ended]

theorem printnum_ends (num base : Nat) (width padc : Int) : (printnum num base width padc).stop = none := by
  induction num, width using printnum.induct base with
  | case1 num width small =>
    unfold printnum
    rw [dif_pos small]
    exact andThen_ends.mpr ⟨rfl, rfl⟩
  | case2 num width large ih =>
    unfold printnum
    rw [dif_neg large]
    exact andThen_ends.mpr ⟨ih, rfl⟩

theorem putString_ends {altflag : Bool} {p : Arg} {s : List UInt8} (string : StringAt rd p s)
    (precision width : Int) (enough : s.length < chars) :
    (putString rd altflag chars p precision width).stop = none := by
  induction string generalizing chars precision width with
  | nul ends =>
    obtain ⟨b, rfl⟩ := Nat.exists_eq_add_one_of_ne_zero (Nat.ne_of_gt (Nat.zero_lt_of_lt enough))
    obtain ⟨events, loaded, quiet⟩ := load_split ends
    unfold putString
    rw [loaded]
    dsimp only
    rw [if_pos rfl]
    exact andThen_ends.mpr ⟨rfl, rfl⟩
  | char here nonzero more ih =>
    obtain ⟨b, rfl⟩ := Nat.exists_eq_add_one_of_ne_zero (Nat.ne_of_gt (Nat.zero_lt_of_lt enough))
    obtain ⟨events, loaded, quiet⟩ := load_split here
    unfold putString
    rw [loaded]
    dsimp only
    rw [if_neg nonzero]
    have one : (Trace.mk events none).stop = none := rfl
    split
    · exact andThen_ends.mpr ⟨andThen_ends.mpr ⟨one, rfl⟩, ih _ _ (Nat.lt_of_succ_lt_succ enough)⟩
    · split
      · exact andThen_ends.mpr ⟨andThen_ends.mpr ⟨one, rfl⟩, ih _ _ (Nat.lt_of_succ_lt_succ enough)⟩
      · exact andThen_ends.mpr ⟨one, rfl⟩

theorem convString_ends (sp : Spec) {p : Arg} (points : Points rd chars p) (enough : 20 ≤ chars) :
    (convString rd chars sp p).stop = none := by
  obtain ⟨s, string, short⟩ : ∃ s, StringAt rd
      (if p = .word 0 then .const (JosPrintfmt.chars "(null)") else p) s ∧ s.length < chars := by
    rcases points with null | ⟨s, string, short⟩
    · rw [if_pos null]
      have six : (JosPrintfmt.chars "(null)").length = 6 := rfl
      exact ⟨_, const_string _ (by decide), by omega⟩
    · by_cases null : p = .word 0
      · rw [if_pos null]
        have six : (JosPrintfmt.chars "(null)").length = 6 := rfl
        exact ⟨_, const_string _ (by decide), by omega⟩
      · rw [if_neg null]
        exact ⟨s, string, short⟩
  unfold convString
  dsimp only
  split
  · exact andThen_ends.mpr
      ⟨andThen_ends.mpr ⟨(strnlen_string string _ _ short).1.ended, rfl⟩, putString_ends string _ _ short⟩
  · exact putString_ends string _ _ short

theorem convert_ends {d : Directive} {t : Trace} {after : Nat}
    (points : d.conv.toNat = 's'.toNat → Points rd chars (args d.ap)) (enough : 20 ≤ chars)
    (found : convert rd chars (convError rd chars) args d = some (t, after)) :
    t.stop = none ↔ (d.conv.toNat = 'e'.toNat → asInt (args d.ap) ≠ -2147483648) := by
  have number : ∀ num base, (printnum num base d.spec.width d.spec.padc).stop = none :=
    fun num base => printnum_ends num base _ _
  have other : ∀ c : Char, d.conv.toNat = c.toNat → c.toNat ≠ 'e'.toNat → t.stop = none →
      (t.stop = none ↔ (d.conv.toNat = 'e'.toNat → asInt (args d.ap) ≠ -2147483648)) :=
    fun c letter differs ended => ⟨fun _ code => absurd (letter.symm.trans code) differs, fun _ => ended⟩
  cases convert_cases found with
  | char letter => exact other 'c' letter (by decide) rfl
  | error letter =>
    have bounds := asInt_bounds (args d.ap)
    constructor
    · rintro ended - least
      rw [least, convError_least] at ended
      cases ended
    · intro above
      exact (convError_prints (wrap_small bounds.1 bounds.2) (above letter) enough).ended
  | string letter => exact other 's' letter (by decide) (convString_ends d.spec (points letter) enough)
  | negative letter below => exact other 'd' letter (by decide) (andThen_ends.mpr ⟨rfl, number _ _⟩)
  | signed letter above => exact other 'd' letter (by decide) (number _ _)
  | unsigned letter => exact other 'u' letter (by decide) (number _ _)
  | octal letter => exact other 'o' letter (by decide) rfl
  | pointer letter => exact other 'p' letter (by decide) (andThen_ends.mpr ⟨rfl, number _ _⟩)
  | hex letter => exact other 'x' letter (by decide) (number _ _)
  | percent letter => exact other '%' letter (by decide) rfl

section Every
variable {P : Directive → Prop} {ap : Nat} {c : UInt8} {fmt : List UInt8}

theorem every_literal (literal : c.toNat ≠ '%'.toNat) :
    everyDirective P args ap (c :: fmt) ↔ everyDirective P args ap fmt := by
  rw [everyDirective, if_pos literal]

theorem every_escape {t : Trace} {after : Nat} (escape : ¬ c.toNat ≠ '%'.toNat)
    (found : convert rd chars nested args (scan args none Spec.start ap fmt) = some (t, after)) :
    everyDirective P args ap (c :: fmt) ↔ P (scan args none Spec.start ap fmt) ∧
      everyDirective P args after (scan args none Spec.start ap fmt).rest := by
  rw [everyDirective, if_neg escape]
  simp only [after_some found]

theorem every_unknown (escape : ¬ c.toNat ≠ '%'.toNat)
    (missing : convert rd chars nested args (scan args none Spec.start ap fmt) = none) :
    everyDirective P args ap (c :: fmt) ↔
      everyDirective P args (scan args none Spec.start ap fmt).ap fmt := by
  rw [everyDirective, if_neg escape]
  simp only [after_none missing]

end Every

theorem loop_ends_iff (enough : 20 ≤ chars) (ap : Nat) (fmt : List UInt8)
    (points : everyDirective (fun d => d.conv.toNat = 's'.toNat → Points rd chars (args d.ap)) args ap fmt) :
    (vprintfmtLoop rd chars (convError rd chars) args ap fmt).stop = none ↔
      everyDirective (fun d => d.conv.toNat = 'e'.toNat → asInt (args d.ap) ≠ -2147483648) args ap fmt := by
  induction ap, fmt using vprintfmtLoop.induct rd chars (convError rd chars) args with
  | case1 ap =>
    rw [loop_nil, everyDirective]
    exact ⟨fun _ => trivial, fun _ => rfl⟩
  | case2 ap c fmt literal ih =>
    rw [loop_literal literal, every_literal literal, andThen_ends, ih ((every_literal literal).mp points)]
    exact ⟨And.right, fun all => ⟨rfl, all⟩⟩
  | case3 ap c fmt escape d t after found ih =>
    obtain ⟨here, more⟩ := (every_escape escape found).mp points
    rw [loop_escape escape found, every_escape escape found, andThen_ends, ih more]
    exact and_congr_left fun _ => convert_ends here enough found
  | case4 ap c fmt escape d missing ih =>
    have more := (every_unknown escape missing).mp points
    rw [loop_unknown escape missing, every_unknown escape missing, andThen_ends, ih more]
    exact ⟨And.right, fun all => ⟨rfl, all⟩⟩

end Ends

section Main
variable {rd : Nat → Option UInt8} {chars : Nat} {s : List UInt8}

/-- What vprintfmt does with a format, whatever its arguments. The run over its pointer comes to its
    end without a load outside the format and its NUL, in whatever number of rounds above this
    bound; the run it goes through is cut short by nothing but a %s or a %e argument; and the rewind
    from the end of an escape stops where the escape opened. -/
structure Survives (rd : Nat → Option UInt8) (chars : Nat) (s : List UInt8) (args : Nat → Arg) : Prop where
  returns : ∀ bound, 2 * s.length + 2 < bound →
    vprintfmtAt s rd chars (convError rd chars) args bound 0 0 = .ok (vprintfmt rd chars s args)
  ends : everyDirective (fun d => d.conv.toNat = 's'.toNat → Points rd chars (args d.ap)) args 0 s →
    ((vprintfmt rd chars s args).stop = none ↔
      everyDirective (fun d => d.conv.toNat = 'e'.toNat → asInt (args d.ap) ≠ -2147483648) args 0 s)
  rewinds : ∀ i esc rest bound, s.drop i = byte '%' :: (esc ++ rest) → (∀ x ∈ esc, goesOn x) →
    esc.length < bound → rewind s bound (i + 1 + esc.length) = .ok (i + 1)

theorem survives (nonzero : ∀ c ∈ s, c ≠ 0) (enough : 20 ≤ chars) (args : Nat → Arg) :
    Survives rd chars s args where
  returns bound rounds := vprintfmtAt_loop nonzero 0 s 0 bound rfl (Nat.zero_le _) rounds
  ends points := loop_ends_iff enough 0 s points
  rewinds _ esc _ _ here plain rounds :=
    rewind_opens rfl here (fun x listed => goesOn_not_percent (plain x listed)) esc.length
      (Nat.le_refl _) rounds

/-- vprintfmt comes to the end of every format. An escape that it does not know is printed as it
    stands, also one that the format ends in; what follows is printed as if it stood alone, with the
    arguments that are left. -/
theorem every_format (nonzero : ∀ c ∈ s, c ≠ 0) (enough : 20 ≤ chars) (args : Nat → Arg) :
    Survives rd chars s args ∧ ∀ ap esc, (∀ x ∈ esc, goesOn x) →
      vprintfmtLoop rd chars (convError rd chars) args ap (byte '%' :: esc) =
        emits (shown (byte '%' :: esc)) ∧
      ∀ c rest, ¬ goesOn c → ¬ known c →
        vprintfmtLoop rd chars (convError rd chars) args ap (byte '%' :: (esc ++ c :: rest)) =
          (emits (shown (byte '%' :: (esc ++ [c])))).andThen
            (vprintfmt rd chars rest (later args (ap + stars esc))) := by
  refine ⟨survives nonzero enough args, fun ap esc plain => ⟨loop_unended ap esc plain, ?_⟩⟩
  intro c rest ends other
  rw [loop_verbatim ap esc rest plain ends other]
  exact congrArg _ (loop_later args (ap + stars esc) 0 rest)

theorem every_format_mixed :
    Survives (fun _ => none) 20 [byte '%', byte '-', byte '*', byte 'y', byte '%', byte 'd', byte '%', byte 'l']
      (argList [.word 5, .word 7] fun _ => .word 0) :=
  (every_format (by decide) (Nat.le_refl 20) _).1

end Main

end JosPrintfEscapes
