import Jos.CountedLoop
import Jos.PrintfStrings

/- vprintfmt on its format pointer, which the default case moves back. -/
namespace JosPrintfPointer
open JosLayout JosPrintfmt JosPrintfChars JosPrintfFields JosPrintfStrings CountedLoop

/-- Why a run does not return: a load outside the format and its NUL, or more rounds of one loop
    than the bound. -/
inductive Halt where
  | outside
  | rounds
  deriving DecidableEq

section Pointer
variable (s : List UInt8)

def fetch (i : Nat) : Except Halt UInt8 :=
  match (s ++ [0])[i]? with
  | some c => .ok c
  | none => .error .outside

def digitLoop : (bound : Nat) → (precision : Int) → (ch : UInt8) → (fmt : Nat) → Except Halt (Int × Nat)
  | 0, _, _, _ => .error .rounds
  | bound + 1, precision, ch, fmt => do
    let precision := wrap (precision * 10 + ch.toNat - '0'.toNat)
    let ch ← fetch s fmt
    if isDigit ch then digitLoop bound precision ch (fmt + 1) else .ok (precision, fmt)

/-- From reswitch to the character that is converted by: the variables, the position in the
    arguments, the character, and fmt. -/
def scanner (args : Nat → Arg) : (bound : Nat) → Spec → (ap fmt : Nat) → Except Halt (Spec × Nat × UInt8 × Nat)
  | 0, _, _, _ => .error .rounds
  | bound + 1, sp, ap, fmt => do
    let ch ← fetch s fmt
    let fmt := fmt + 1
    if ch.toNat = '-'.toNat then scanner args bound { sp with padc := '-'.toNat } ap fmt
    else if ch.toNat = '0'.toNat then scanner args bound { sp with padc := '0'.toNat } ap fmt
    else if isDigit ch then do
      let (precision, fmt) ← digitLoop s bound 0 ch fmt
      scanner args bound { sp with precision := precision }.processPrecision ap fmt
    else if ch.toNat = '*'.toNat then
      scanner args bound { sp with precision := asInt (args ap) }.processPrecision (ap + 1) fmt
    else if ch.toNat = '.'.toNat then
      scanner args bound (if sp.width < 0 then { sp with width := 0 } else sp) ap fmt
    else if ch.toNat = '#'.toNat then scanner args bound { sp with altflag := true } ap fmt
    else if ch.toNat = 'l'.toNat then scanner args bound { sp with lflag := sp.lflag + 1 } ap fmt
    else .ok (sp, ap, ch, fmt)

def fetchBefore : Nat → Except Halt UInt8
  | 0 => .error .outside
  | i + 1 => fetch s i

def rewind : (bound : Nat) → (fmt : Nat) → Except Halt Nat
  | 0, _ => .error .rounds
  | bound + 1, fmt => do
    let ch ← fetchBefore s fmt
    if ch.toNat = '%'.toNat then .ok fmt else rewind bound (fmt - 1)

def vprintfmtAt (rd : Nat → Option UInt8) (chars : Nat) (nested : Int → Trace) (args : Nat → Arg) :
    (bound : Nat) → (ap fmt : Nat) → Except Halt Trace
  | 0, _, _ => .error .rounds
  | bound + 1, ap, fmt => do
    let ch ← fetch s fmt
    let fmt := fmt + 1
    if ch.toNat ≠ '%'.toNat then
      if ch = 0 then .ok Trace.done
      else do
        let rest ← vprintfmtAt rd chars nested args bound ap fmt
        .ok ((Trace.emit ch.toNat).andThen rest)
    else do
      let (sp, ap, ch, fmt) ← scanner s args bound Spec.start ap fmt
      match convert rd chars nested args ⟨sp, ap, ch, []⟩ with
      | some (t, ap) => do
        let rest ← vprintfmtAt rd chars nested args bound ap fmt
        .ok (t.andThen rest)
      | none => do
        let fmt ← rewind s bound (fmt - 1)
        let rest ← vprintfmtAt rd chars nested args bound ap fmt
        .ok ((Trace.emit '%'.toNat).andThen rest)

end Pointer

section Fetch
variable {s fmt : List UInt8} {i : Nat} {c : UInt8}

theorem fetch_drop (here : s.drop i = fmt) {k : Nat} (inside : k < fmt.length) :
    fetch s (i + k) = .ok fmt[k] := by
  subst here
  have small : i + k < s.length := by
    rw [List.length_drop] at inside
    omega
  unfold fetch
  rw [List.getElem?_append_left small, List.getElem?_eq_getElem small, List.getElem_drop]

theorem fetch_char (here : s.drop i = c :: fmt) : fetch s i = .ok c :=
  fetch_drop here (Nat.zero_lt_succ fmt.length)

theorem fetch_end (s : List UInt8) : fetch s s.length = .ok 0 := by
  unfold fetch
  rw [List.getElem?_append_right (Nat.le_refl _), Nat.sub_self]
  rfl

theorem drop_next (here : s.drop i = c :: fmt) : s.drop (i + 1) = fmt := by
  rw [← List.drop_drop, here]
  rfl

theorem drop_more {esc : List UInt8} (here : s.drop i = esc ++ fmt) : s.drop (i + esc.length) = fmt := by
  rw [← List.drop_drop, here, List.drop_left]

theorem drop_inside (here : s.drop i = c :: fmt) : i < s.length := by
  by_cases inside : i < s.length
  · exact inside
  · rw [List.drop_eq_nil_of_le (Nat.le_of_not_lt inside)] at here
    cases here

theorem drop_end (here : s.drop i = []) (inside : i ≤ s.length) : i = s.length :=
  Nat.le_antisymm inside (List.drop_eq_nil_iff.mp here)

end Fetch

section Scanner
variable {s fmt : List UInt8} {args : Nat → Arg} {sp : Spec} {ap i bound : Nat}

theorem digitLoop_scan (here : s.drop i = fmt) (inside : i ≤ s.length) (enough : fmt.length < bound)
    (precision : Int) (ch : UInt8) : ∃ p ds rest, digitLoop s bound precision ch i = .ok (p, i + ds.length) ∧
      fmt = ds ++ rest ∧ (∀ c ∈ ds, goesOn c) ∧
      scan args (some (wrap (precision * 10 + ch.toNat - '0'.toNat))) sp ap fmt =
        scan args none { sp with precision := p }.processPrecision ap rest := by
  induction fmt generalizing i bound precision ch with
  | nil =>
    obtain ⟨b, rfl⟩ := Nat.exists_eq_add_one_of_ne_zero (Nat.ne_of_gt (Nat.zero_lt_of_lt enough))
    refine ⟨_, [], [], ?_, rfl, by simp, rfl⟩
    unfold digitLoop
    rw [drop_end here inside, fetch_end, ok_bind, if_neg (by decide)]
    rfl
  | cons c fmt ih =>
    obtain ⟨b, rfl⟩ := Nat.exists_eq_add_one_of_ne_zero (Nat.ne_of_gt (Nat.zero_lt_of_lt enough))
    by_cases digit : isDigit c
    · obtain ⟨p, ds, rest, run, split, plain, same⟩ := ih (drop_next here) (drop_inside here)
        (Nat.lt_of_succ_lt_succ enough) (wrap (precision * 10 + ch.toNat - '0'.toNat)) c
      refine ⟨p, c :: ds, rest, ?_, congrArg (c :: ·) split, ?_, ?_⟩
      · unfold digitLoop
        rw [fetch_char here, ok_bind, if_pos digit, run, List.length_cons, Nat.add_assoc,
          Nat.add_comm 1 ds.length]
      · intro x listed
        cases listed with
        | head => exact Or.inr (Or.inl digit)
        | tail _ later => exact plain x later
      · rw [scan, if_pos ⟨rfl, digit⟩]
        exact same
    · refine ⟨_, [], c :: fmt, ?_, rfl, by simp, scan_number_end _ digit⟩
      unfold digitLoop
      rw [fetch_char here, ok_bind, if_neg digit]
      rfl

/-- Where the scanner is when it reaches the conversion, after the characters esc: just after it,
    which may be just after the NUL. -/
structure Reached (s : List UInt8) (i : Nat) (esc : List UInt8) (d : Directive) : Prop where
  plain : ∀ c ∈ esc, goesOn c
  here : s.drop i = esc ++ s.drop (i + esc.length)
  inside : i + esc.length ≤ s.length
  conv : s.drop (i + esc.length) = d.conv :: d.rest ∨ i + esc.length = s.length ∧ d.conv = 0 ∧ d.rest = []

theorem Reached.more {esc ds : List UInt8} {d : Directive} (reached : Reached s (i + ds.length) esc d)
    (here : s.drop i = ds ++ s.drop (i + ds.length)) (plain : ∀ c ∈ ds, goesOn c) :
    Reached s i (ds ++ esc) d := by
  have length : i + (ds ++ esc).length = i + ds.length + esc.length := by
    rw [List.length_append, Nat.add_assoc]
  constructor
  · intro c listed
    cases List.mem_append.mp listed with
    | inl first => exact plain c first
    | inr later => exact reached.plain c later
  · rw [length, List.append_assoc, ← reached.here]
    exact here
  · rw [length]
    exact reached.inside
  · rw [length]
    exact reached.conv

theorem scanner_round (args : Nat → Arg) (sp : Spec) (ap bound : Nat) {c : UInt8}
    (here : s.drop i = c :: fmt) (enough : fmt.length < bound) :
    (goesOn c ∧ ∃ sp' ap' ds rest, fmt = ds ++ rest ∧ (∀ x ∈ ds, goesOn x) ∧
      scanner s args (bound + 1) sp ap i = scanner s args bound sp' ap' (i + 1 + ds.length) ∧
      scan args none sp ap (c :: fmt) = scan args none sp' ap' rest) ∨
    (¬ goesOn c ∧ scanner s args (bound + 1) sp ap i = .ok (sp, ap, c, i + 1)) := by
  have plain : ∀ sp' ap', scan args none sp ap (c :: fmt) = scan args none sp' ap' fmt →
      scanner s args (bound + 1) sp ap i = scanner s args bound sp' ap' (i + 1) →
      ∃ sp' ap' ds rest, fmt = ds ++ rest ∧ (∀ x ∈ ds, goesOn x) ∧
        scanner s args (bound + 1) sp ap i = scanner s args bound sp' ap' (i + 1 + ds.length) ∧
        scan args none sp ap (c :: fmt) = scan args none sp' ap' rest :=
    fun sp' ap' same step => ⟨sp', ap', [], fmt, rfl, by simp, step, same⟩
  have outside : ¬ ((none : Option Int).isSome = true ∧ isDigit c) := by simp
  have opened := scanner.eq_2 s args sp ap i bound
  have round := scan.eq_2 args none sp ap c fmt
  rw [fetch_char here, ok_bind] at opened
  rw [if_neg outside] at round
  dsimp only [Spec.flush] at opened round
  by_cases minus : c.toNat = '-'.toNat
  · rw [if_pos minus] at opened round
    exact Or.inl ⟨Or.inl minus, plain _ _ round opened⟩
  rw [if_neg minus] at opened round
  by_cases zero : c.toNat = '0'.toNat
  · have digit : isDigit c := by
      unfold isDigit
      rw [zero]
      decide
    rw [if_pos zero] at opened round
    exact Or.inl ⟨Or.inr (Or.inl digit), plain _ _ round opened⟩
  rw [if_neg zero] at opened round
  by_cases digit : isDigit c
  · obtain ⟨p, ds, rest, run, split, later, same⟩ :=
      digitLoop_scan (drop_next here) (drop_inside here) enough 0 c
    have first : wrap (0 * 10 + (c.toNat : Int) - ('0'.toNat : Int)) = (c.toNat : Int) - '0'.toNat := by
      have small := c.toNat_lt
      rw [Int.zero_mul, Int.zero_add]
      exact wrap_small (by change -2147483648 ≤ (c.toNat : Int) - 48; omega)
        (by change (c.toNat : Int) - 48 < 2147483648; omega)
    rw [first] at same
    rw [if_pos digit, run, ok_bind] at opened
    rw [if_pos digit, same] at round
    exact Or.inl ⟨Or.inr (Or.inl digit), _, _, ds, rest, split, later, opened, round⟩
  rw [if_neg digit] at opened round
  by_cases star : c.toNat = '*'.toNat
  · rw [if_pos star] at opened round
    exact Or.inl ⟨Or.inr (Or.inr (Or.inl star)), plain _ _ round opened⟩
  rw [if_neg star] at opened round
  by_cases dot : c.toNat = '.'.toNat
  · rw [if_pos dot] at opened round
    exact Or.inl ⟨Or.inr (Or.inr (Or.inr (Or.inl dot))), plain _ _ round opened⟩
  rw [if_neg dot] at opened round
  by_cases alt : c.toNat = '#'.toNat
  · rw [if_pos alt] at opened round
    exact Or.inl ⟨Or.inr (Or.inr (Or.inr (Or.inr (Or.inl alt)))), plain _ _ round opened⟩
  rw [if_neg alt] at opened round
  by_cases long : c.toNat = 'l'.toNat
  · rw [if_pos long] at opened round
    exact Or.inl ⟨Or.inr (Or.inr (Or.inr (Or.inr (Or.inr long)))), plain _ _ round opened⟩
  rw [if_neg long] at opened
  refine Or.inr ⟨?_, opened⟩
  rintro (h | h | h | h | h | h)
  · exact minus h
  · exact digit h
  · exact star h
  · exact dot h
  · exact alt h
  · exact long h

theorem scanner_end (none_left : s.drop i = []) (inside : i ≤ s.length) (sp : Spec) (ap : Nat) :
    Reached s i [] (scan args none sp ap (s.drop i)) ∧
      scanner s args (bound + 1) sp ap i =
        .ok ((scan args none sp ap (s.drop i)).spec, (scan args none sp ap (s.drop i)).ap,
          (scan args none sp ap (s.drop i)).conv, i + 1) := by
  constructor
  · rw [none_left]
    exact ⟨by simp, rfl, inside, Or.inr ⟨drop_end none_left inside, rfl, rfl⟩⟩
  · rw [none_left, scanner, drop_end none_left inside, fetch_end, ok_bind]
    rfl

theorem scanner_scan (args : Nat → Arg) (n : Nat) : ∀ (i bound : Nat) (sp : Spec) (ap : Nat),
    (s.drop i).length ≤ n → i ≤ s.length → n + 1 < bound →
    ∃ esc, Reached s i esc (scan args none sp ap (s.drop i)) ∧ scanner s args bound sp ap i =
      .ok ((scan args none sp ap (s.drop i)).spec, (scan args none sp ap (s.drop i)).ap,
        (scan args none sp ap (s.drop i)).conv, i + esc.length + 1) := by
  induction n with
  | zero =>
    intro i bound sp ap few inside enough
    obtain ⟨b, rfl⟩ := Nat.exists_eq_add_one_of_ne_zero (Nat.ne_of_gt (Nat.zero_lt_of_lt enough))
    exact ⟨[], scanner_end (List.length_eq_zero_iff.mp (Nat.le_zero.mp few)) inside sp ap⟩
  | succ n ih =>
    intro i bound sp ap few inside enough
    obtain ⟨b, rfl⟩ := Nat.exists_eq_add_one_of_ne_zero (Nat.ne_of_gt (Nat.zero_lt_of_lt enough))
    cases here : s.drop i with
    | nil =>
      rw [← here]
      exact ⟨[], scanner_end here inside sp ap⟩
    | cons c fmt =>
      have length := congrArg List.length here
      rw [List.length_cons] at length
      rcases scanner_round args sp ap b here (by omega) with
        ⟨goes_on, sp', ap', ds, rest, split, later, step, same⟩ | ⟨ends, step⟩
      · have there : s.drop (i + (c :: ds).length) = rest := by
          apply drop_more
          rw [here, split]
          rfl
        have place : i + 1 + ds.length = i + (c :: ds).length := by
          rw [List.length_cons]
          omega
        have total : fmt.length = ds.length + rest.length := by
          rw [split, List.length_append]
        have shorter := drop_inside here
        obtain ⟨esc, reached, run⟩ := ih (i + (c :: ds).length) b sp' ap'
          (by rw [there]; omega) (by rw [List.length_cons]; rw [List.length_drop] at length; omega) (by omega)
        rw [there] at reached run
        refine ⟨(c :: ds) ++ esc, ?_, ?_⟩
        · rw [same]
          apply reached.more
          · rw [there, here, split]
            rfl
          · intro x listed
            cases listed with
            | head => exact goes_on
            | tail _ inner => exact later x inner
        · rw [step, place, run, same, List.length_append, Nat.add_assoc i]
      · refine ⟨[], ?_, ?_⟩
        · rw [scan_ends sp ap ends]
          exact ⟨by simp, by simp, inside, Or.inl here⟩
        · rw [step, scan_ends sp ap ends]
          rfl

theorem scanner_escape (args : Nat → Arg) (ap : Nat) {c : UInt8} {fmt : List UInt8} {b : Nat}
    (here : s.drop i = c :: fmt) (enough : 2 * s.length + 2 < b + 1 + i) :
    ∃ esc, Reached s (i + 1) esc (scan args none Spec.start ap fmt) ∧ scanner s args b Spec.start ap (i + 1) =
      .ok ((scan args none Spec.start ap fmt).spec, (scan args none Spec.start ap fmt).ap,
        (scan args none Spec.start ap fmt).conv, i + 1 + esc.length + 1) := by
  have next := drop_next here
  have length := congrArg List.length next
  rw [List.length_drop] at length
  have shorter := drop_inside here
  obtain ⟨esc, found⟩ := scanner_scan args fmt.length (i + 1) b Spec.start ap
    (Nat.le_of_eq (congrArg List.length next)) shorter (by omega)
  rw [next] at found
  exact ⟨esc, found⟩

/-- The rewind stops at the '%' that opened the escape. -/
theorem rewind_opens {c : UInt8} {esc rest : List UInt8} (opened : c.toNat = '%'.toNat)
    (here : s.drop i = c :: (esc ++ rest)) (plain : ∀ x ∈ esc, x.toNat ≠ '%'.toNat) (k : Nat)
    (inside : k ≤ esc.length) (enough : k < bound) : rewind s bound (i + 1 + k) = .ok (i + 1) := by
  induction k generalizing bound with
  | zero =>
    obtain ⟨b, rfl⟩ := Nat.exists_eq_add_one_of_ne_zero (Nat.ne_of_gt enough)
    have before : fetchBefore s (i + 1 + 0) = .ok c := fetch_char here
    unfold rewind
    rw [before, ok_bind, if_pos opened]
  | succ k ih =>
    obtain ⟨b, rfl⟩ := Nat.exists_eq_add_one_of_ne_zero (Nat.ne_of_gt (Nat.zero_lt_of_lt enough))
    have small : k < (esc ++ rest).length := by
      rw [List.length_append]
      omega
    have before : fetchBefore s (i + 1 + (k + 1)) = .ok esc[k] := by
      have found := fetch_drop (drop_next here) small
      rw [List.getElem_append_left inside] at found
      exact found
    have back : i + 1 + (k + 1) - 1 = i + 1 + k := rfl
    unfold rewind
    rw [before, ok_bind, if_neg (plain _ (List.getElem_mem inside)), back]
    exact ih (by omega) (by omega)

end Scanner

section Run
variable {s : List UInt8} {rd : Nat → Option UInt8} {chars : Nat} {nested : Int → Trace} {args : Nat → Arg}

def known (c : UInt8) : Prop :=
  c.toNat = 'c'.toNat ∨ c.toNat = 'e'.toNat ∨ c.toNat = 's'.toNat ∨ c.toNat = 'd'.toNat ∨
    c.toNat = 'u'.toNat ∨ c.toNat = 'o'.toNat ∨ c.toNat = 'p'.toNat ∨ c.toNat = 'x'.toNat ∨
    c.toNat = '%'.toNat

instance (c : UInt8) : Decidable (known c) := inferInstanceAs (Decidable (_ ∨ _))

theorem convert_unknown {d : Directive} (other : ¬ known d.conv) :
    convert rd chars nested args d = none := by
  unfold known at other
  simp only [not_or] at other
  obtain ⟨c, e, s, d, u, o, p, x, percent⟩ := other
  unfold convert
  dsimp only
  rw [if_neg c, if_neg e, if_neg s, if_neg d, if_neg u, if_neg o, if_neg p, if_neg x, if_neg percent]

theorem goesOn_not_percent {c : UInt8} (goes_on : goesOn c) : c.toNat ≠ '%'.toNat := by
  intro percent
  unfold goesOn isDigit at goes_on
  rw [percent] at goes_on
  exact absurd goes_on (by decide)

/-- vprintfmt on its pointer prints what it prints on the characters of its format, and loads
    nothing outside them and their NUL. -/
theorem vprintfmtAt_loop (nonzero : ∀ c ∈ s, c ≠ 0) (ap : Nat) (fmt : List UInt8) :
    ∀ i bound, s.drop i = fmt → i ≤ s.length → 2 * s.length + 2 < bound + i →
      vprintfmtAt s rd chars nested args bound ap i = .ok (vprintfmtLoop rd chars nested args ap fmt) := by
  induction ap, fmt using vprintfmtLoop.induct rd chars nested args with
  | case1 ap =>
    intro i bound here inside enough
    obtain ⟨b, rfl⟩ : ∃ b, bound = b + 1 := ⟨bound - 1, by omega⟩
    rw [vprintfmtAt, drop_end here inside, fetch_end, ok_bind, if_pos (by decide), if_pos rfl,
      vprintfmtLoop]
  | case2 ap c fmt literal ih =>
    intro i bound here inside enough
    obtain ⟨b, rfl⟩ : ∃ b, bound = b + 1 := ⟨bound - 1, by omega⟩
    have some_char : c ≠ 0 := nonzero c (List.mem_of_mem_drop (here ▸ List.mem_cons_self))
    have rest := ih (i + 1) b (drop_next here) (drop_inside here) (by omega)
    rw [vprintfmtAt, fetch_char here, ok_bind, if_pos literal, if_neg some_char, rest,
      loop_literal literal]
    rfl
  | case3 ap c fmt escape d t after found ih =>
    intro i bound here inside enough
    obtain ⟨b, rfl⟩ : ∃ b, bound = b + 1 := ⟨bound - 1, by omega⟩
    have next := drop_next here
    have shorter := drop_inside here
    obtain ⟨esc, reached, run⟩ := scanner_escape args ap here enough
    have letter : known d.conv := by
      by_contra other
      rw [convert_unknown other] at found
      cases found
    have some_char : d.conv ≠ 0 := by
      intro nul
      rw [nul] at letter
      exact absurd letter (by decide)
    have rest := drop_next (reached.conv.resolve_right fun ended => some_char ended.2.1)
    have inside' : i + 1 + esc.length + 1 ≤ s.length :=
      drop_inside (reached.conv.resolve_right fun ended => some_char ended.2.1)
    have same : convert rd chars nested args ⟨d.spec, d.ap, d.conv, []⟩ = some (t, after) := found
    have later := ih (i + 1 + esc.length + 1) b rest inside' (by omega)
    rw [vprintfmtAt, fetch_char here, ok_bind, if_neg escape, run, ok_bind]
    dsimp only
    rw [same]
    dsimp only
    rw [later, ok_bind, loop_escape escape found]
  | case4 ap c fmt escape d missing ih =>
    intro i bound here inside enough
    obtain ⟨b, rfl⟩ : ∃ b, bound = b + 1 := ⟨bound - 1, by omega⟩
    have next := drop_next here
    have shorter := drop_inside here
    obtain ⟨esc, reached, run⟩ := scanner_escape args ap here enough
    have percent : c.toNat = '%'.toNat := Decidable.not_not.mp escape
    have opening : s.drop i = c :: (esc ++ s.drop (i + 1 + esc.length)) := by
      rw [here, ← reached.here, next]
    have few := reached.inside
    have back : rewind s b (i + 1 + esc.length) = .ok (i + 1) := rewind_opens percent opening
      (fun x listed => goesOn_not_percent (reached.plain x listed)) esc.length (Nat.le_refl _) (by omega)
    have same : convert rd chars nested args ⟨d.spec, d.ap, d.conv, []⟩ = none := missing
    have later := ih (i + 1) b next shorter (by omega)
    rw [vprintfmtAt, fetch_char here, ok_bind, if_neg escape, run, ok_bind]
    dsimp only
    rw [same]
    dsimp only
    rw [Nat.add_sub_cancel, back, ok_bind, later, ok_bind, loop_unknown escape missing]

end Run

end JosPrintfPointer
