import Jos.UserPrintf
import Jos.PrintfEscapes

/- What vcprintf returns, in the kernel and in a user program. -/
namespace JosPrintCount
open JosLayout JosPrintfmt JosPrintfChars JosPrintfFields JosPrintfStrings JosPrintfErrors JosPrintfEscapes

structure Kernel where
  console : List Int
  cells : Nat → Int

def postIncrement (cells : Nat → Int) (p : Nat) : Int × Nat := (cells p, (p + 4) % WORD)

/-- putch of kern/printf.c, and its own cnt when it returns: in *cnt++ the ++ belongs to the
    pointer. -/
def putch (cnt : Nat) (k : Kernel) (ch : Int) : Kernel × Nat :=
  let k := { k with console := k.console ++ [ch] }
  let (_, cnt) := postIncrement k.cells cnt
  (k, cnt)

def kernelVcprintf (cnt : Nat) (cells : Nat → Int) (rd : Nat → Option UInt8) (bound : Nat)
    (fmt : List UInt8) (ap : Nat → Arg) : Option (Int × List Int) :=
  let t := vprintfmt rd bound fmt ap
  match t.stop with
  | some _ => none
  | none =>
    let k := (putches t).foldl (fun k ch => (putch cnt k ch).1) ⟨[], Function.update cells cnt 0⟩
    some (k.cells cnt, k.console)

def userVcprintf (u : JosUserPrintf.Caller) (rd : Nat → Option UInt8) (bound : Nat) (fmt : List UInt8)
    (ap : Nat → Arg) : Option (Int × List UInt8) :=
  let t := vprintfmt rd bound fmt ap
  match t.stop with
  | some _ => none
  | none =>
    match JosUserPrintf.vcprintf u (putches t) with
    | .error _ => none
    | .ok (cnt, out) => some (wrap cnt, out)

/-- A %s that prints nothing: no width to fill, and no character or none let through. -/
def PrintsNothing (rd : Nat → Option UInt8) (sp : Spec) (p : Arg) : Prop :=
  sp.width ≤ 0 ∧ (sp.precision = 0 ∨ (load rd (if p = .word 0 then .const (chars "(null)") else p)).1 = .ok 0)

def silent (rd : Nat → Option UInt8) (args : Nat → Arg) (ap : Nat) : List UInt8 → Prop
  | [] => True
  | c :: fmt =>
    let d := scan args none Spec.start ap fmt
    c.toNat = '%'.toNat ∧ (d.conv.toNat = 's'.toNat ∧ PrintsNothing rd d.spec (args d.ap)) ∧
      silent rd args (d.ap + 1) d.rest
termination_by fmt => fmt.length
decreasing_by
  have := scan_rest_length args none Spec.start ap fmt
  simp only [List.length_cons]
  omega

section Ints
variable {args : Nat → Arg}

def Ints (sp : Spec) : Prop := wrap sp.width = sp.width ∧ wrap sp.precision = sp.precision

theorem ints_processPrecision {sp : Spec} (ints : Ints sp) : Ints sp.processPrecision := by
  unfold Spec.processPrecision
  split
  · exact ⟨ints.2, rfl⟩
  · exact ints

theorem ints_flush {sp : Spec} (ints : Ints sp) {num : Option Int} (int : ∀ p ∈ num, wrap p = p) :
    Ints (sp.flush num) := by
  unfold Spec.flush
  cases num with
  | none => exact ints
  | some p => exact ints_processPrecision ⟨ints.1, int p rfl⟩

theorem scan_ints (num : Option Int) (sp : Spec) (ap : Nat) (fmt : List UInt8) (ints : Ints sp)
    (int : ∀ p ∈ num, wrap p = p) : Ints (scan args num sp ap fmt).spec := by
  induction fmt generalizing num sp ap with
  | nil => exact ints_flush ints int
  | cons c fmt ih =>
    have flushed := ints_flush ints int
    have star : wrap (asInt (args ap)) = asInt (args ap) :=
      wrap_small (asInt_bounds (args ap)).1 (asInt_bounds (args ap)).2
    have digit : wrap ((c.toNat : Int) - '0'.toNat) = (c.toNat : Int) - '0'.toNat := by
      have small := c.toNat_lt
      have zero : ('0'.toNat : Int) = 48 := rfl
      rw [zero]
      exact wrap_small (by omega) (by omega)
    have no_num : ∀ p ∈ (none : Option Int), wrap p = p := by simp
    rw [scan]
    dsimp only
    have pick : ∀ (c : Prop) [Decidable c] (a b : Directive), Ints a.spec → Ints b.spec →
        Ints (if c then a else b).spec := by
      intro c _ a b first second
      split
      · exact first
      · exact second
    refine pick _ _ _ ?_ (pick _ _ _ ?_ (pick _ _ _ ?_ (pick _ _ _ ?_ (pick _ _ _ ?_ (pick _ _ _ ?_
      (pick _ _ _ ?_ (pick _ _ _ ?_ ?_)))))))
    · apply ih _ _ _ ints
      intro p listed
      obtain ⟨q, _, rfl⟩ := Option.map_eq_some_iff.mp listed
      exact wrap_wrap _
    · exact ih _ _ _ flushed no_num
    · exact ih _ _ _ flushed no_num
    · apply ih _ _ _ flushed
      rintro p ⟨⟩
      exact digit
    · exact ih _ _ _ (ints_processPrecision ⟨flushed.1, star⟩) no_num
    · split
      · exact ih _ _ _ ⟨rfl, flushed.2⟩ no_num
      · exact ih _ _ _ flushed no_num
    · exact ih _ _ _ flushed no_num
    · exact ih _ _ _ flushed no_num
    · exact flushed

end Ints

section Silent
variable {rd : Nat → Option UInt8} {bound : Nat} {nested : Int → Trace} {args : Nat → Arg} {t u : Trace}

theorem andThen_silent (ended : (t.andThen u).stop = none) :
    putches (t.andThen u) = [] ↔ putches t = [] ∧ putches u = [] := by
  rw [(putches_andThen u (andThen_ends.mp ended).1).1, List.append_eq_nil_iff]

theorem pad_silent (c w : Int) : putches (Trace.pad c w.toNat) = [] ↔ w ≤ 0 := by
  rw [putches_pad, List.replicate_eq_nil_iff]
  exact Int.toNat_eq_zero

theorem emit_loud (c : Int) : putches (Trace.emit c) ≠ [] := List.cons_ne_nil c []

theorem printnum_loud (num base : Nat) (width padc : Int) : putches (printnum num base width padc) ≠ [] := by
  intro silent
  have ended := printnum_ends num base width padc
  unfold printnum at silent ended
  split at silent
  · rename_i small
    rw [dif_pos small] at ended
    exact emit_loud _ ((andThen_silent ended).mp silent).2
  · rename_i large
    rw [dif_neg large] at ended
    exact emit_loud _ ((andThen_silent ended).mp silent).2

theorem putString_silent {altflag : Bool} {p : Arg} {precision width : Int}
    (ended : (putString rd altflag bound p precision width).stop = none) :
    putches (putString rd altflag bound p precision width) = [] ↔
      width ≤ 0 ∧ (precision = 0 ∨ (load rd p).1 = .ok 0) := by
  cases bound with
  | zero => cases ended
  | succ bound =>
    cases loaded : (load rd p).1 with
    | error e =>
      have whole : load rd p = (.error e, (load rd p).2) := by rw [← loaded]
      unfold putString at ended
      rw [whole] at ended
      cases ended
    | ok c =>
      obtain ⟨events, whole, quiet⟩ := load_split loaded
      have pads : ∀ w : Int, putches ((Trace.mk events none).andThen (Trace.pad (' '.toNat : Int) w.toNat)) = [] ↔
          w ≤ 0 := by
        intro w
        rw [andThen_silent rfl, pad_silent]
        exact ⟨And.right, fun low => ⟨quiet.chars, low⟩⟩
      have shows : ∀ (x : Int) (v : Trace),
          ((((Trace.mk events none).andThen (Trace.emit x)).andThen v).stop = none) →
          putches (((Trace.mk events none).andThen (Trace.emit x)).andThen v) ≠ [] := by
        intro x v ended silent
        exact emit_loud x ((andThen_silent rfl).mp ((andThen_silent ended).mp silent).1).2
      unfold putString at ended ⊢
      rw [whole] at ended ⊢
      dsimp only at ended ⊢
      split_ifs at ended ⊢ with nul unlimited within
      · rw [pads, nul]
        simp
      · have other : ¬ (precision = 0 ∨ (Except.ok c : Except Stop UInt8) = .ok 0) := by
          rintro (zero | same)
          · omega
          · exact nul (Except.ok.inj same)
        exact ⟨fun silent => absurd silent (shows _ _ ended), fun both => absurd both.2 other⟩
      · have other : ¬ (precision = 0 ∨ (Except.ok c : Except Stop UInt8) = .ok 0) := by
          rintro (zero | same)
          · omega
          · exact nul (Except.ok.inj same)
        exact ⟨fun silent => absurd silent (shows _ _ ended), fun both => absurd both.2 other⟩
      · have zero : precision = 0 := by omega
        rw [pads, zero]
        simp

theorem strnlen_none {p : Arg} {size n : Nat} (nothing : size = 0 ∨ (load rd p).1 = .ok 0) :
    (strnlen rd bound p size n).2 = n := by
  cases bound with
  | zero => rfl
  | succ bound =>
    unfold strnlen
    by_cases none_left : size = 0
    · rw [if_pos none_left]
    · obtain ⟨events, whole, quiet⟩ := load_split (nothing.resolve_left none_left)
      rw [if_neg none_left, whole]
      rfl

theorem convString_silent {sp : Spec} {p : Arg} (int : wrap sp.width = sp.width)
    (ended : (convString rd bound sp p).stop = none) :
    putches (convString rd bound sp p) = [] ↔ PrintsNothing rd sp p := by
  unfold convString at ended ⊢
  unfold PrintsNothing
  dsimp only at ended ⊢
  generalize (if p = .word 0 then Arg.const (chars "(null)") else p) = q at ended ⊢
  by_cases wide : sp.width > 0 ∧ sp.padc ≠ '-'.toNat
  · rw [if_pos wide] at ended ⊢
    have padded := (andThen_ends.mp ended).1
    refine ⟨fun silent => ?_, fun both => absurd both.1 (by omega)⟩
    exfalso
    obtain ⟨before, after⟩ := (andThen_silent ended).mp silent
    have fill := (pad_silent _ _).mp ((andThen_silent padded).mp before).2
    have nothing := ((putString_silent (andThen_ends.mp ended).2).mp after).2
    have none_counted : (strnlen rd bound q (sp.precision % WORD).toNat 0).2 = 0 := by
      apply strnlen_none
      rcases nothing with zero | nul
      · rw [zero]
        exact Or.inl rfl
      · exact Or.inr nul
    rw [none_counted, Int.natCast_zero, Int.sub_zero, int] at fill
    omega
  · rw [if_neg wide] at ended ⊢
    exact putString_silent ended

theorem messages_start : ∀ m ∈ errorString.filterMap id,
    (load (fun _ => none) (.const (chars m))).1 ≠ .ok 0 := by
  decide

theorem message_loud {cs : List UInt8} (start : (load (fun _ => none) (.const cs)).1 ≠ .ok 0)
    (ended : (vprintfmtLoop rd bound nested (argList [.const cs] fun _ => .word 0) 0 (chars "%s")).stop = none) :
    putches (vprintfmtLoop rd bound nested (argList [.const cs] fun _ => .word 0) 0 (chars "%s")) ≠ [] := by
  have same : (load rd (.const cs)).1 = (load (fun _ => none) (.const cs)).1 := by
    cases cs with
    | nil => rfl
    | cons c cs => rfl
  have text : chars "%s" = [byte '%', byte 's'] := rfl
  have scanned : scan (argList [.const cs] fun _ => .word 0) none Spec.start 0 [byte 's'] =
      ⟨Spec.start, 0, byte 's', []⟩ := scan_ends Spec.start 0 (by decide)
  have found : convert rd bound nested (argList [.const cs] fun _ => .word 0)
      (scan (argList [.const cs] fun _ => .word 0) none Spec.start 0 [byte 's']) =
        some (convString rd bound Spec.start (.const cs), 1) := by
    rw [scanned, convert_string rfl]
    rfl
  rw [text, loop_escape (by decide) found] at ended ⊢
  intro silent
  have nothing := ((convString_silent rfl (andThen_ends.mp ended).1).mp ((andThen_silent ended).mp silent).1).2
  have not_null : ¬ Arg.const cs = .word 0 := fun null => by cases null
  rw [if_neg not_null, same] at nothing
  rcases nothing with zero | nul
  · exact absurd zero (by decide)
  · exact start nul

theorem convError_loud {err : Int} (ended : (convError rd bound err).stop = none) :
    putches (convError rd bound err) ≠ [] := by
  have number : ∀ arg, (vprintfmtLoop rd bound (fun _ => Trace.done) (argList [arg] fun _ => .word 0) 0
      (chars "error %d")).stop = none → putches (vprintfmtLoop rd bound (fun _ => Trace.done)
        (argList [arg] fun _ => .word 0) 0 (chars "error %d")) ≠ [] := by
    intro arg ended silent
    have text : chars "error %d" = byte 'e' :: chars "rror %d" := rfl
    rw [text, loop_literal (by decide)] at ended silent
    exact emit_loud _ ((andThen_silent ended).mp silent).1
  unfold convError at ended ⊢
  generalize (if err < 0 then wrap (-err) else err) = e at ended ⊢
  dsimp only at ended ⊢
  split_ifs at ended ⊢ with large below
  · exact number _ ended
  · cases entry : errorString.getD e.toNat none with
    | none =>
      rw [entry] at ended
      exact number _ ended
    | some m =>
      rw [entry] at ended
      dsimp only at ended ⊢
      have listed : some m ∈ errorString := by
        have inside : e.toNat < errorString.length := by omega
        rw [List.getD_eq_getElem _ _ inside] at entry
        exact entry ▸ List.getElem_mem inside
      have start := messages_start m (List.mem_filterMap.mpr ⟨some m, listed, rfl⟩)
      exact message_loud start ended

theorem convert_silent {d : Directive} {after : Nat}
    (loud : ∀ err, (nested err).stop = none → putches (nested err) ≠ []) (int : wrap d.spec.width = d.spec.width)
    (found : convert rd bound nested args d = some (t, after)) (ended : t.stop = none) :
    putches t = [] ↔ d.conv.toNat = 's'.toNat ∧ PrintsNothing rd d.spec (args d.ap) := by
  have other : ∀ c : Char, d.conv.toNat = c.toNat → c.toNat ≠ 's'.toNat → putches t ≠ [] →
      (putches t = [] ↔ d.conv.toNat = 's'.toNat ∧ PrintsNothing rd d.spec (args d.ap)) :=
    fun c letter differs some_char =>
      ⟨fun silent => absurd silent some_char, fun both => absurd (letter.symm.trans both.1) differs⟩
  cases convert_cases found with
  | char letter => exact other 'c' letter (by decide) (emit_loud _)
  | error letter => exact other 'e' letter (by decide) (loud _ ended)
  | string letter =>
    rw [convString_silent int ended]
    exact ⟨fun nothing => ⟨letter, nothing⟩, And.right⟩
  | negative letter below =>
    exact other 'd' letter (by decide) fun silent => printnum_loud _ _ _ _ ((andThen_silent ended).mp silent).2
  | signed letter above => exact other 'd' letter (by decide) (printnum_loud _ _ _ _)
  | unsigned letter => exact other 'u' letter (by decide) (printnum_loud _ _ _ _)
  | octal letter => exact other 'o' letter (by decide) fun silent => emit_loud _ ((andThen_silent ended).mp silent).2
  | pointer letter =>
    exact other 'p' letter (by decide) fun silent => printnum_loud _ _ _ _ ((andThen_silent ended).mp silent).2
  | hex letter => exact other 'x' letter (by decide) (printnum_loud _ _ _ _)
  | percent letter => exact other '%' letter (by decide) (emit_loud _)

theorem loop_silent (loud : ∀ err, (nested err).stop = none → putches (nested err) ≠ []) (ap : Nat)
    (fmt : List UInt8) (ended : (vprintfmtLoop rd bound nested args ap fmt).stop = none) :
    putches (vprintfmtLoop rd bound nested args ap fmt) = [] ↔ silent rd args ap fmt := by
  induction ap, fmt using vprintfmtLoop.induct rd bound nested args with
  | case1 ap =>
    rw [loop_nil, silent]
    exact ⟨fun _ => trivial, fun _ => rfl⟩
  | case2 ap c fmt literal ih =>
    rw [loop_literal literal] at ended ⊢
    rw [andThen_silent ended, silent]
    exact ⟨fun both => absurd both.1 (emit_loud _), fun all => absurd all.1 literal⟩
  | case3 ap c fmt escape d t after found ih =>
    have int : wrap d.spec.width = d.spec.width := (scan_ints none Spec.start ap fmt ⟨rfl, rfl⟩ (by simp)).1
    rw [loop_escape escape found] at ended ⊢
    obtain ⟨first, later⟩ := andThen_ends.mp ended
    rw [andThen_silent ended, convert_silent loud int found first, ih later, silent]
    have percent : c.toNat = '%'.toNat := Decidable.not_not.mp escape
    have position : d.conv.toNat = 's'.toNat → after = d.ap + 1 := by
      intro string
      rw [convert_string string] at found
      exact (Prod.mk.inj (Option.some.inj found)).2.symm
    constructor
    · rintro ⟨nothing, rest⟩
      rw [position nothing.1] at rest
      exact ⟨percent, nothing, rest⟩
    · rintro ⟨_, nothing, rest⟩
      refine ⟨nothing, ?_⟩
      rw [position nothing.1]
      exact rest
  | case4 ap c fmt escape d missing ih =>
    rw [loop_unknown escape missing] at ended ⊢
    rw [andThen_silent ended, silent]
    refine ⟨fun both => absurd both.1 (emit_loud _), fun all => ?_⟩
    rw [convert_string all.2.1.1] at missing
    cases missing

end Silent

section Main
variable {rd : Nat → Option UInt8} {bound : Nat} {fmt : List UInt8} {args : Nat → Arg}

theorem putch_cells (cnt : Nat) (cs : List Int) (k : Kernel) :
    cs.foldl (fun k ch => (putch cnt k ch).1) k = ⟨k.console ++ cs, k.cells⟩ := by
  induction cs generalizing k with
  | nil => rw [List.foldl_nil, List.append_nil]
  | cons c cs ih =>
    rw [List.foldl_cons, ih]
    change Kernel.mk ((k.console ++ [c]) ++ cs) k.cells = _
    rw [List.append_assoc]
    rfl

theorem kernelVcprintf_returns (cnt : Nat) (cells : Nat → Int)
    (ended : (vprintfmt rd bound fmt args).stop = none) :
    kernelVcprintf cnt cells rd bound fmt args = some (0, putches (vprintfmt rd bound fmt args)) := by
  unfold kernelVcprintf
  dsimp only
  rw [ended, putch_cells]
  dsimp only
  rw [Function.update_self, List.nil_append]

theorem userVcprintf_returns (u : JosUserPrintf.Caller)
    (ended : (vprintfmt rd bound fmt args).stop = none) :
    ∃ out, userVcprintf u rd bound fmt args =
      some (wrap (putches (vprintfmt rd bound fmt args)).length, out) := by
  obtain ⟨out, run, _⟩ := JosUserPrintf.vcprintf_stream u (putches (vprintfmt rd bound fmt args))
  refine ⟨out, ?_⟩
  unfold userVcprintf
  dsimp only
  rw [ended, run]

/-- Both return the number of characters that vprintfmt hands to putch. -/
structure Counts (cnt : Nat) (cells : Nat → Int) (u : JosUserPrintf.Caller) (rd : Nat → Option UInt8)
    (bound : Nat) (fmt : List UInt8) (args : Nat → Arg) : Prop where
  kernel : ∃ out, kernelVcprintf cnt cells rd bound fmt args =
    some (((putches (vprintfmt rd bound fmt args)).length : Int), out)
  user : ∃ out, userVcprintf u rd bound fmt args =
    some (((putches (vprintfmt rd bound fmt args)).length : Int), out)

/-- They do so exactly when the format is silent. -/
theorem counts_iff (cnt : Nat) (cells : Nat → Int) (u : JosUserPrintf.Caller)
    (ended : (vprintfmt rd bound fmt args).stop = none) :
    Counts cnt cells u rd bound fmt args ↔ silent rd args 0 fmt := by
  have kernel := kernelVcprintf_returns cnt cells ended
  obtain ⟨out, user⟩ := userVcprintf_returns u ended
  have nothing : putches (vprintfmt rd bound fmt args) = [] ↔ silent rd args 0 fmt :=
    loop_silent (fun err => convError_loud) 0 fmt ended
  rw [← nothing]
  constructor
  · intro counts
    obtain ⟨_, returned⟩ := counts.kernel
    rw [kernel] at returned
    have length := (Prod.mk.inj (Option.some.inj returned)).1
    exact List.length_eq_zero_iff.mp (by omega)
  · intro empty
    rw [empty] at kernel user
    constructor
    · rw [empty]
      exact ⟨_, kernel⟩
    · rw [empty]
      exact ⟨out, user⟩

theorem counts_iff_empty : Counts 0 (fun _ => 0) JosUserPrintf.onePageCaller (fun _ => none) 1
    [byte '%', byte 's'] (fun _ => .const []) := by
  have nonnull : Arg.const [] ≠ .word 0 := fun null => by cases null
  have empty : StringAt (fun _ => none) (.const []) [] := .nul rfl
  obtain ⟨t, prints, run⟩ : ∃ t, Prints t _ ∧ vprintfmtLoop (fun _ => none) 1 (convError (fun _ => none) 1)
      (fun _ => .const []) 0 [byte '%', byte 's'] = t.andThen _ :=
    loop_plain_string rfl nonnull empty (Nat.lt_succ_self 0) []
  have ended : (vprintfmt (fun _ => none) 1 [byte '%', byte 's'] (fun _ => .const [])).stop = none := by
    unfold vprintfmt
    rw [run, loop_nil, Trace.andThen_done]
    exact prints.ended
  have scanned : scan (fun _ => .const []) none Spec.start 0 [byte 's'] = ⟨Spec.start, 0, byte 's', []⟩ :=
    scan_ends Spec.start 0 (by decide)
  have nothing : silent (fun _ => none) (fun _ => .const []) 0 [byte '%', byte 's'] := by
    rw [silent, scanned, silent]
    exact ⟨rfl, ⟨rfl, by decide, Or.inr rfl⟩, trivial⟩
  exact (counts_iff 0 (fun _ => 0) JosUserPrintf.onePageCaller ended).mpr nothing

/-- cprintf("a") returns 0 in the kernel. -/
theorem counts_nothing : ¬ ∀ (cnt : Nat) (cells : Nat → Int) (u : JosUserPrintf.Caller) (rd : Nat → Option UInt8)
    (bound : Nat) (fmt : List UInt8) (args : Nat → Arg), (vprintfmt rd bound fmt args).stop = none →
    Counts cnt cells u rd bound fmt args := by
  intro claim
  have stream : vprintfmt (fun _ => none) 1 [byte 'a'] (fun _ => .word 0) = emits [97] := by
    unfold vprintfmt
    rw [loop_literal (by decide), loop_nil]
    rfl
  have ended : (vprintfmt (fun _ => none) 1 [byte 'a'] (fun _ => .word 0)).stop = none := by
    rw [stream]
    rfl
  obtain ⟨_, returned⟩ := (claim 0 (fun _ => 0) JosUserPrintf.onePageCaller _ _ _ _ ended).kernel
  rw [kernelVcprintf_returns 0 (fun _ => 0) ended, stream, putches_emits] at returned
  exact absurd (Prod.mk.inj (Option.some.inj returned)).1 (by decide)

end Main

end JosPrintCount
