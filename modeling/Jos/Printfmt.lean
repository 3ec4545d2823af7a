import Jos.Layout

/- lib/printfmt.c. Output is a trace: the characters handed to putch, and the loads made through
   the string pointers of the arguments, in order. The format is given without its NUL. -/
namespace JosPrintfmt
open JosLayout

def wrap (z : Int) : Int := z.bmod 4294967296

theorem wrap_bounds (z : Int) : -2147483648 ≤ wrap z ∧ wrap z < 2147483648 := by
  unfold wrap
  rw [Int.bmod_def]
  split
  · omega
  · omega

theorem wrap_small {z : Int} (low : -2147483648 ≤ z) (high : z < 2147483648) : wrap z = z := by
  unfold wrap
  rw [Int.bmod_def]
  split
  · omega
  · omega

theorem wrap_below {z : Int} (low : -6442450944 ≤ z) (high : z < -2147483648) :
    wrap z = z + 4294967296 := by
  unfold wrap
  rw [Int.bmod_def]
  split
  · omega
  · omega

theorem wrap_wrap (z : Int) : wrap (wrap z) = wrap z := Int.bmod_bmod

/-- One word of a va_list, or the address of a string constant of the program. -/
inductive Arg where
  | word (w : Nat)
  | const (chars : List UInt8)
  deriving DecidableEq

inductive Event where
  | read (a : Nat)
  | putch (c : Int)
  deriving DecidableEq

/-- Why a trace ends early: a load that faults, an index outside error_string, or the bound put
    on the number of characters of one string. -/
inductive Stop where
  | fault (a : Nat)
  | wildIndex (i : Int)
  | bound
  deriving DecidableEq

structure Trace where
  events : List Event
  stop : Option Stop

namespace Trace

def ended {ε : Type} (halted : Stop → ε) (t : Trace) : Except ε Unit :=
  match t.stop with
  | none => .ok ()
  | some e => .error (halted e)

def done : Trace := ⟨[], none⟩
def emit (c : Int) : Trace := ⟨[.putch c], none⟩
def pad (c : Int) (n : Nat) : Trace := ⟨List.replicate n (.putch c), none⟩

def andThen (t u : Trace) : Trace :=
  match t.stop with
  | some _ => t
  | none => ⟨t.events ++ u.events, u.stop⟩

@[simp] theorem andThen_done (t : Trace) : t.andThen done = t := by
  unfold andThen
  cases t with
  | mk events stop =>
    cases stop with
    | none => simp [done]
    | some e => rfl

end Trace

def errorString : List (Option String) :=
  [none, some "unspecified error", some "bad environment", some "invalid parameter",
    some "out of memory", some "out of environments", some "segmentation fault"]

def chars (s : String) : List UInt8 := s.toUTF8.data.toList

-- byte by byte along the list, not over all the values of a byte
instance decidableChars (cs : List UInt8) (P : UInt8 → Prop) [DecidablePred P] : Decidable (∀ c ∈ cs, P c) :=
  List.decidableBAll P cs

def digitChar (d : Nat) : Int := ((chars "0123456789abcdef").getD d 0).toNat

def signed (b : UInt8) : Int := if b.toNat < 128 then b.toNat else (b.toNat : Int) - 256

def asInt : Arg → Int
  | .word w => wrap w
  | .const _ => 0

def asLong : Arg → Nat
  | .word w => w % WORD
  | .const _ => 0

section Number

def padBefore (width : Int) (padc : Int) : Trace := Trace.pad padc (wrap (width - 1)).toNat

def printnum (num base : Nat) (width padc : Int) : Trace :=
  if _small : base < 2 ∨ num < base then
    (padBefore width padc).andThen (Trace.emit (digitChar (num % base)))
  else
    (printnum (num / base) base (wrap (width - 1)) padc).andThen
      (Trace.emit (digitChar (num % base)))
termination_by num
decreasing_by
  simp only [not_or, Nat.not_lt] at _small
  exact Nat.div_lt_self (by omega) (by omega)

def getuint (args : Nat → Arg) (ap lflag : Nat) : Nat × Nat :=
  if lflag ≥ 2 then (asLong (args ap) + WORD * asLong (args (ap + 1)), ap + 2)
  else (asLong (args ap), ap + 1)

def getint (args : Nat → Arg) (ap lflag : Nat) : Int × Nat :=
  if lflag ≥ 2 then
    (Int.bmod (asLong (args ap) + WORD * asLong (args (ap + 1))) (2 ^ 64), ap + 2)
  else (asInt (args ap), ap + 1)

end Number

section Text
variable (rd : Nat → Option UInt8)

def load : Arg → Except Stop UInt8 × List Event
  | .word w =>
    match rd (w % WORD) with
    | none => (.error (.fault (w % WORD)), [.read (w % WORD)])
    | some b => (.ok b, [.read (w % WORD)])
  | .const [] => (.ok 0, [])
  | .const (c :: _) => (.ok c, [])

def next : Arg → Arg
  | .word w => .word ((w + 1) % WORD)
  | .const s => .const s.tail

def strnlen : (bound : Nat) → Arg → (size : Nat) → Nat → Trace × Nat
  | 0, _, _, n => (⟨[], some .bound⟩, n)
  | bound + 1, p, size, n =>
    if size = 0 then (Trace.done, n)
    else
      match load rd p with
      | (.error e, events) => (⟨events, some e⟩, n)
      | (.ok c, events) =>
        if c = 0 then (⟨events, none⟩, n)
        else
          let rest := strnlen bound (next p) (size - 1) (n + 1)
          ((Trace.mk events none).andThen rest.1, rest.2)

/-- The second for loop of case 's', for at most bound characters, then the third. Its test
    loads the character before it looks at the precision. -/
def putString (altflag : Bool) : (bound : Nat) → Arg → (precision width : Int) → Trace
  | 0, _, _, _ => ⟨[], some .bound⟩
  | bound + 1, p, precision, width =>
    match load rd p with
    | (.error e, events) => ⟨events, some e⟩
    | (.ok c, events) =>
      if c = 0 then (Trace.mk events none).andThen (Trace.pad ' '.toNat width.toNat)
      else if precision < 0 then
        ((Trace.mk events none).andThen (Trace.emit (shown c))).andThen
          (putString altflag bound (next p) precision (wrap (width - 1)))
      else if precision - 1 ≥ 0 then
        ((Trace.mk events none).andThen (Trace.emit (shown c))).andThen
          (putString altflag bound (next p) (precision - 1) (wrap (width - 1)))
      else (Trace.mk events none).andThen (Trace.pad ' '.toNat width.toNat)
where
  shown (c : UInt8) : Int :=
    if altflag ∧ (signed c < ' '.toNat ∨ signed c > '~'.toNat) then '?'.toNat else signed c

end Text

structure Spec where
  padc : Int
  width : Int
  precision : Int
  lflag : Nat
  altflag : Bool
  deriving DecidableEq

def Spec.start : Spec := ⟨' '.toNat, -1, -1, 0, false⟩

def Spec.processPrecision (sp : Spec) : Spec :=
  if sp.width < 0 then { sp with width := sp.precision, precision := -1 } else sp

/-- The digits read so far, if the scanner is inside a number, are the precision. -/
def Spec.flush (num : Option Int) (sp : Spec) : Spec :=
  match num with
  | none => sp
  | some p => { sp with precision := p }.processPrecision

def isDigit (c : UInt8) : Prop := '0'.toNat ≤ c.toNat ∧ c.toNat ≤ '9'.toNat

instance (c : UInt8) : Decidable (isDigit c) := inferInstanceAs (Decidable (_ ∧ _))

structure Directive where
  spec : Spec
  ap : Nat
  conv : UInt8
  rest : List UInt8

/-- From the label reswitch on, up to the character that is neither a flag, a width, a
    precision nor an l. num is the value of the number the scanner is in. -/
def scan (args : Nat → Arg) (num : Option Int) (sp : Spec) (ap : Nat) : List UInt8 → Directive
  | [] => ⟨sp.flush num, ap, 0, []⟩
  | c :: fmt =>
    if num.isSome ∧ isDigit c then
      scan args (num.map fun p => wrap (p * 10 + c.toNat - '0'.toNat)) sp ap fmt
    else
      let sp := sp.flush num
      if c.toNat = '-'.toNat then scan args none { sp with padc := '-'.toNat } ap fmt
      else if c.toNat = '0'.toNat then scan args none { sp with padc := '0'.toNat } ap fmt
      else if isDigit c then scan args (some (c.toNat - '0'.toNat)) sp ap fmt
      else if c.toNat = '*'.toNat then
        scan args none { sp with precision := asInt (args ap) }.processPrecision (ap + 1) fmt
      else if c.toNat = '.'.toNat then
        scan args none (if sp.width < 0 then { sp with width := 0 } else sp) ap fmt
      else if c.toNat = '#'.toNat then scan args none { sp with altflag := true } ap fmt
      else if c.toNat = 'l'.toNat then scan args none { sp with lflag := sp.lflag + 1 } ap fmt
      else ⟨sp, ap, c, fmt⟩

@[simp] theorem processPrecision_padc (sp : Spec) : sp.processPrecision.padc = sp.padc := by
  unfold Spec.processPrecision
  split
  · rfl
  · rfl

@[simp] theorem flush_padc (num : Option Int) (sp : Spec) : (sp.flush num).padc = sp.padc := by
  unfold Spec.flush
  cases num with
  | none => rfl
  | some p => exact processPrecision_padc _

def goesOn (c : UInt8) : Prop :=
  c.toNat = '-'.toNat ∨ isDigit c ∨ c.toNat = '*'.toNat ∨ c.toNat = '.'.toNat ∨ c.toNat = '#'.toNat ∨
    c.toNat = 'l'.toNat

instance (c : UInt8) : Decidable (goesOn c) := inferInstanceAs (Decidable (_ ∨ _))

def stars (fmt : List UInt8) : Nat := fmt.countP fun c => c.toNat = '*'.toNat

theorem stars_cons (c : UInt8) (fmt : List UInt8) :
    stars (c :: fmt) = stars [c] + stars fmt := by
  unfold stars
  rw [← List.singleton_append, List.countP_append]

theorem stars_star {c : UInt8} (star : c.toNat = '*'.toNat) : stars [c] = 1 := by
  unfold stars
  rw [List.countP_cons, List.countP_nil, if_pos (decide_eq_true star)]

theorem stars_other {c : UInt8} (other : c.toNat ≠ '*'.toNat) : stars [c] = 0 := by
  unfold stars
  rw [List.countP_cons, List.countP_nil, if_neg (by simpa using other)]

theorem digit_not_star {c : UInt8} (digit : isDigit c) : c.toNat ≠ '*'.toNat := by
  intro star
  unfold isDigit at digit
  rw [star] at digit
  exact absurd digit.1 (by decide)

theorem scan_round (args : Nat → Arg) (num : Option Int) (sp : Spec) (ap : Nat) (c : UInt8)
    (fmt : List UInt8) :
    (goesOn c ∧ ∃ num' sp', scan args num sp ap (c :: fmt) = scan args num' sp' (ap + stars [c]) fmt ∧
      (sp'.padc = sp.padc ∨ sp'.padc = '-'.toNat ∨ sp'.padc = '0'.toNat)) ∨
    (¬ goesOn c ∧ scan args num sp ap (c :: fmt) = ⟨sp.flush num, ap, c, fmt⟩) := by
  rw [scan]
  by_cases digit : num.isSome ∧ isDigit c
  · rw [if_pos digit, stars_other (digit_not_star digit.2)]
    exact Or.inl ⟨Or.inr (Or.inl digit.2), _, _, rfl, Or.inl rfl⟩
  · rw [if_neg digit]
    dsimp only
    have kept := flush_padc num sp
    by_cases star : c.toNat = '*'.toNat
    · have not_minus : ¬ c.toNat = '-'.toNat := by
        rw [star]
        decide
      have not_zero : ¬ c.toNat = '0'.toNat := by
        rw [star]
        decide
      have not_width : ¬ isDigit c := fun digit => digit_not_star digit star
      rw [if_neg not_minus, if_neg not_zero, if_neg not_width, if_pos star, stars_star star]
      exact Or.inl ⟨Or.inr (Or.inr (Or.inl star)), _, _, rfl,
        Or.inl ((processPrecision_padc _).trans kept)⟩
    rw [stars_other star]
    by_cases minus : c.toNat = '-'.toNat
    · rw [if_pos minus]
      exact Or.inl ⟨Or.inl minus, _, _, rfl, Or.inr (Or.inl rfl)⟩
    by_cases zero : c.toNat = '0'.toNat
    · have digit : isDigit c := by
        unfold isDigit
        rw [zero]
        decide
      rw [if_neg minus, if_pos zero]
      exact Or.inl ⟨Or.inr (Or.inl digit), _, _, rfl, Or.inr (Or.inr rfl)⟩
    by_cases width : isDigit c
    · rw [if_neg minus, if_neg zero, if_pos width]
      exact Or.inl ⟨Or.inr (Or.inl width), _, _, rfl, Or.inl kept⟩
    by_cases dot : c.toNat = '.'.toNat
    · rw [if_neg minus, if_neg zero, if_neg width, if_neg star, if_pos dot]
      refine Or.inl ⟨Or.inr (Or.inr (Or.inr (Or.inl dot))), _, _, rfl, Or.inl ?_⟩
      split
      · exact kept
      · exact kept
    by_cases alt : c.toNat = '#'.toNat
    · rw [if_neg minus, if_neg zero, if_neg width, if_neg star, if_neg dot, if_pos alt]
      exact Or.inl ⟨Or.inr (Or.inr (Or.inr (Or.inr (Or.inl alt)))), _, _, rfl, Or.inl kept⟩
    by_cases long : c.toNat = 'l'.toNat
    · rw [if_neg minus, if_neg zero, if_neg width, if_neg star, if_neg dot, if_neg alt, if_pos long]
      exact Or.inl ⟨Or.inr (Or.inr (Or.inr (Or.inr (Or.inr long)))), _, _, rfl, Or.inl kept⟩
    · rw [if_neg minus, if_neg zero, if_neg width, if_neg star, if_neg dot, if_neg alt, if_neg long]
      refine Or.inr ⟨?_, rfl⟩
      rintro (h | h | h | h | h | h)
      · exact minus h
      · exact width h
      · exact star h
      · exact dot h
      · exact alt h
      · exact long h

theorem scan_rest_length (args : Nat → Arg) (num : Option Int) (sp : Spec) (ap : Nat)
    (fmt : List UInt8) : (scan args num sp ap fmt).rest.length ≤ fmt.length := by
  induction fmt generalizing num sp ap with
  | nil => simp [scan]
  | cons c fmt ih =>
    rcases scan_round args num sp ap c fmt with ⟨_, num', sp', goes_on, _⟩ | ⟨_, ends⟩
    · rw [goes_on]
      exact Nat.le_succ_of_le (ih num' sp' _)
    · rw [ends]
      exact Nat.le_succ fmt.length

def convString (rd : Nat → Option UInt8) (bound : Nat) (sp : Spec) (arg : Arg) : Trace :=
  let p := if arg = .word 0 then .const (chars "(null)") else arg
  if sp.width > 0 ∧ sp.padc ≠ '-'.toNat then
    let len := strnlen rd bound p (sp.precision % WORD).toNat 0
    let width := wrap (sp.width - len.2)
    (len.1.andThen (Trace.pad sp.padc width.toNat)).andThen
      (putString rd sp.altflag bound p sp.precision (min width 0))
  else putString rd sp.altflag bound p sp.precision sp.width

/-- The conversion itself and the position after its arguments; none is the default case. -/
def convert (rd : Nat → Option UInt8) (bound : Nat) (nested : Int → Trace) (args : Nat → Arg)
    (d : Directive) : Option (Trace × Nat) :=
  let sp := d.spec
  let c := d.conv.toNat
  if c = 'c'.toNat then some (Trace.emit (asInt (args d.ap)), d.ap + 1)
  else if c = 'e'.toNat then some (nested (asInt (args d.ap)), d.ap + 1)
  else if c = 's'.toNat then some (convString rd bound sp (args d.ap), d.ap + 1)
  else if c = 'd'.toNat then
    let (num, ap) := getint args d.ap sp.lflag
    if num < 0 then
      some ((Trace.emit '-'.toNat).andThen (printnum (-num).toNat 10 sp.width sp.padc), ap)
    else some (printnum num.toNat 10 sp.width sp.padc, ap)
  else if c = 'u'.toNat then
    let (num, ap) := getuint args d.ap sp.lflag
    some (printnum num 10 sp.width sp.padc, ap)
  else if c = 'o'.toNat then
    some (((Trace.emit 'X'.toNat).andThen (Trace.emit 'X'.toNat)).andThen (Trace.emit 'X'.toNat), d.ap)
  else if c = 'p'.toNat then
    some (((Trace.emit '0'.toNat).andThen (Trace.emit 'x'.toNat)).andThen
      (printnum (asLong (args d.ap)) 16 sp.width sp.padc), d.ap + 1)
  else if c = 'x'.toNat then
    let (num, ap) := getuint args d.ap sp.lflag
    some (printnum num 16 sp.width sp.padc, ap)
  else if c = '%'.toNat then some (Trace.emit '%'.toNat, d.ap)
  else none

/-- The outer loop of vprintfmt. In the default case the format pointer goes back to just after
    the '%' that opened the escape; the arguments its stars took stay taken. -/
def vprintfmtLoop (rd : Nat → Option UInt8) (bound : Nat) (nested : Int → Trace)
    (args : Nat → Arg) (ap : Nat) : List UInt8 → Trace
  | [] => Trace.done
  | c :: fmt =>
    if c.toNat ≠ '%'.toNat then
      (Trace.emit c.toNat).andThen (vprintfmtLoop rd bound nested args ap fmt)
    else
      let d := scan args none Spec.start ap fmt
      match convert rd bound nested args d with
      | some (t, after) => t.andThen (vprintfmtLoop rd bound nested args after d.rest)
      | none => (Trace.emit '%'.toNat).andThen (vprintfmtLoop rd bound nested args d.ap fmt)
termination_by fmt => fmt.length
decreasing_by
  all_goals simp only [List.length_cons]
  · omega
  · have := scan_rest_length args none Spec.start ap fmt
    omega
  · omega

/-- The argument list that starts with these words; what follows them is whatever lies there. -/
def argList (given : List Arg) (beyond : Nat → Arg) (i : Nat) : Arg := given.getD i (beyond i)

def convError (rd : Nat → Option UInt8) (bound : Nat) (err : Int) : Trace :=
  let err := if err < 0 then wrap (-err) else err
  let print (fmt : String) (arg : Arg) : Trace :=
    vprintfmtLoop rd bound (fun _ => Trace.done) (argList [arg] fun _ => .word 0) 0 (chars fmt)
  if err ≥ errorString.length then print "error %d" (.word (err % WORD).toNat)
  else if err < 0 then ⟨[], some (.wildIndex err)⟩
  else
    match errorString.getD err.toNat none with
    | none => print "error %d" (.word (err % WORD).toNat)
    | some p => print "%s" (.const (chars p))

def vprintfmt (rd : Nat → Option UInt8) (bound : Nat) (fmt : List UInt8) (args : Nat → Arg) : Trace :=
  vprintfmtLoop rd bound (convError rd bound) args 0 fmt

def cprintf (rd : Nat → Option UInt8) (bound : Nat) (fmt : String) (given : List Arg) : Trace :=
  vprintfmt rd bound (chars fmt) (argList given fun _ => .word 0)

end JosPrintfmt
