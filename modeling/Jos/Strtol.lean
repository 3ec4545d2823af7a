import Jos.Machine
import Jos.PrintfFields
import Jos.WhileLoop

/- snprintf of lib/printfmt.c and strtol of lib/string.c: a number that is written and read back. -/
namespace JosStrtol
open JosLayout JosMachine JosPrintfmt JosPrintfChars JosPrintfFields Numerals WhileLoop

abbrev Mem : Type := Nat → UInt8

structure Sprintbuf where
  buf : Nat
  ebuf : Nat
  cnt : Int

def sprintputch (s : Sprintbuf × Mem) (ch : Int) : Sprintbuf × Mem :=
  let b := { s.1 with cnt := wrap (s.1.cnt + 1) }
  if b.buf < b.ebuf then
    ({ b with buf := (b.buf + 1) % WORD }, Function.update s.2 b.buf (lowByte ch))
  else (b, s.2)

/-- What is returned, and the memory; an error where vprintfmt does not come to its end. -/
def vsnprintf (rd : Nat → Option UInt8) (bound buf : Nat) (n : Int) (fmt : List UInt8)
    (ap : Nat → Arg) (mem : Mem) : Except Stop (Int × Mem) :=
  if buf = 0 ∨ n < 1 then .ok (-E_INVAL, mem)
  else
    let t := vprintfmt rd bound fmt ap
    match t.stop with
    | some e => .error e
    | none =>
      let (b, mem) := (putches t).foldl sprintputch (⟨buf, (buf + n.toNat - 1) % WORD, 0⟩, mem)
      .ok (b.cnt, Function.update mem b.buf 0)

def snprintf (rd : Nat → Option UInt8) (bound buf : Nat) (n : Int) (fmt : List UInt8)
    (given : List Arg) (beyond : Nat → Arg) (mem : Mem) : Except Stop (Int × Mem) :=
  vsnprintf rd bound buf n fmt (argList given beyond) mem

section Strtol
variable (mem : Mem)

def spaceStep (s : Nat) : Option Nat :=
  if mem s = byte ' ' ∨ mem s = byte '\t' then some ((s + 1) % WORD) else none

def digitValue (c : UInt8) : Option Int :=
  if byte '0' ≤ c ∧ c ≤ byte '9' then some (c.toNat - '0'.toNat)
  else if byte 'a' ≤ c ∧ c ≤ byte 'z' then some (c.toNat - 'a'.toNat + 10)
  else if byte 'A' ≤ c ∧ c ≤ byte 'Z' then some (c.toNat - 'A'.toNat + 10)
  else none

def digitStep (base : Int) (q : Nat × Int) : Option (Nat × Int) :=
  match digitValue (mem q.1) with
  | none => none
  | some dig => if dig ≥ base then none else some ((q.1 + 1) % WORD, wrap (q.2 * base + dig))

def skipSign (s : Nat) : Nat × Bool :=
  if mem s = byte '+' then ((s + 1) % WORD, false)
  else if mem s = byte '-' then ((s + 1) % WORD, true)
  else (s, false)

def skipBase (s : Nat) (base : Int) : Nat × Int :=
  if (base = 0 ∨ base = 16) ∧ mem s = byte '0' ∧ mem ((s + 1) % WORD) = byte 'x' then
    ((s + 2) % WORD, 16)
  else if base = 0 ∧ mem s = byte '0' then ((s + 1) % WORD, 8)
  else if base = 0 then (s, 10)
  else (s, base)

/-- The value and *endptr; none if a loop takes more than fuel rounds. -/
def strtol (fuel s : Nat) (base : Int) : Option (Int × Nat) :=
  match loop (m := Id) (spaceStep mem) fuel s with
  | none => none
  | some s =>
    let (s, neg) := skipSign mem s
    let (s, base) := skipBase mem s base
    match loop (m := Id) (digitStep mem base) fuel (s, 0) with
    | none => none
    | some (s, val) => some (if neg then wrap (-val) else val, s)

end Strtol

section Memory
variable {mem : Mem} {a b x : Nat} {bs cs : List UInt8}

def Holds (mem : Mem) : Nat → List UInt8 → Prop
  | _, [] => True
  | a, b :: bs => mem a = b ∧ Holds mem (a + 1) bs

def storeBytes (mem : Mem) : Nat → List UInt8 → Mem
  | _, [] => mem
  | a, b :: bs => storeBytes (Function.update mem a b) (a + 1) bs

theorem storeBytes_before (mem : Mem) (bs : List UInt8) (before : x < a) :
    storeBytes mem a bs x = mem x := by
  induction bs generalizing mem a with
  | nil => rfl
  | cons b bs ih =>
    unfold storeBytes
    rw [ih (Function.update mem a b) (by omega), Function.update_of_ne (by omega)]

theorem storeBytes_after (mem : Mem) (after : a + bs.length ≤ x) : storeBytes mem a bs x = mem x := by
  induction bs generalizing mem a with
  | nil => rfl
  | cons b bs ih =>
    rw [List.length_cons] at after
    unfold storeBytes
    rw [ih (Function.update mem a b) (by omega), Function.update_of_ne (by omega)]

theorem storeBytes_outside (mem : Mem) (outside : x < a ∨ a + bs.length ≤ x) :
    storeBytes mem a bs x = mem x := by
  cases outside with
  | inl before => exact storeBytes_before mem bs before
  | inr after => exact storeBytes_after mem after

theorem holds_storeBytes (mem : Mem) (a : Nat) (bs : List UInt8) : Holds (storeBytes mem a bs) a bs := by
  induction bs generalizing mem a with
  | nil => trivial
  | cons b bs ih =>
    refine ⟨?_, ih (Function.update mem a b) (a + 1)⟩
    unfold storeBytes
    rw [storeBytes_before _ _ (Nat.lt_succ_self a), Function.update_self]

theorem storeBytes_last (mem : Mem) (a : Nat) (bs : List UInt8) (b : UInt8) :
    Function.update (storeBytes mem a bs) (a + bs.length) b = storeBytes mem a (bs ++ [b]) := by
  induction bs generalizing mem a with
  | nil => rfl
  | cons c bs ih =>
    have next : a + (c :: bs).length = a + 1 + bs.length := by
      rw [List.length_cons]
      omega
    rw [next]
    exact ih (Function.update mem a c) (a + 1)

theorem holds_append : Holds mem a (bs ++ cs) ↔ Holds mem a bs ∧ Holds mem (a + bs.length) cs := by
  induction bs generalizing a with
  | nil => exact ⟨fun later => ⟨trivial, later⟩, fun both => both.2⟩
  | cons b bs ih =>
    have next : a + (b :: bs).length = a + 1 + bs.length := by
      rw [List.length_cons]
      omega
    rw [next]
    change mem a = b ∧ Holds mem (a + 1) (bs ++ cs) ↔
      (mem a = b ∧ Holds mem (a + 1) bs) ∧ Holds mem (a + 1 + bs.length) cs
    rw [ih, and_assoc]

theorem holds_getD (holds : Holds mem a bs) {i : Nat} (inside : i < bs.length) :
    mem (a + i) = bs.getD i 0 := by
  induction bs generalizing a i with
  | nil => cases inside
  | cons b bs ih =>
    obtain ⟨here, later⟩ := holds
    cases i with
    | zero => exact here
    | succ i =>
      rw [Nat.add_succ, ← Nat.succ_add]
      exact ih later (Nat.lt_of_succ_lt_succ inside)

theorem holds_nonzero (holds : Holds mem a bs) (nonzero : ∀ b ∈ bs, b ≠ 0) :
    ∀ i, i < bs.length → mem (a + i) ≠ 0 := by
  intro i inside
  rw [holds_getD holds inside, List.getD_eq_getElem _ _ inside]
  exact nonzero _ (List.getElem_mem inside)

end Memory

section Writing
variable {mem : Mem} {cs : List Int}

theorem sprintputch_room {buf ebuf : Nat} (room : buf < ebuf) (space : ebuf < WORD) (cnt c : Int) :
    sprintputch (⟨buf, ebuf, cnt⟩, mem) c =
      (⟨buf + 1, ebuf, wrap (cnt + 1)⟩, Function.update mem buf (lowByte c)) := by
  unfold sprintputch
  dsimp only
  rw [if_pos room, Nat.mod_eq_of_lt (by omega)]

theorem sprintputch_full {buf ebuf : Nat} (full : ¬ buf < ebuf) (cnt c : Int) :
    sprintputch (⟨buf, ebuf, cnt⟩, mem) c = (⟨buf, ebuf, wrap (cnt + 1)⟩, mem) := if_neg full

theorem sprintputch_stores (buf ebuf : Nat) (cnt : Int) (order : buf ≤ ebuf) (space : ebuf < WORD)
    (int : wrap cnt = cnt) :
    cs.foldl sprintputch (⟨buf, ebuf, cnt⟩, mem) =
      (⟨buf + min cs.length (ebuf - buf), ebuf, wrap (cnt + cs.length)⟩,
        storeBytes mem buf ((cs.take (ebuf - buf)).map lowByte)) := by
  induction cs generalizing mem buf cnt with
  | nil =>
    rw [List.take_nil, List.length_nil, Nat.zero_min, Int.natCast_zero, Int.add_zero, int]
    rfl
  | cons c cs ih =>
    have count : wrap (wrap (cnt + 1) + cs.length) = wrap (cnt + (c :: cs).length) := by
      have total : cnt + 1 + cs.length = cnt + (c :: cs).length := by
        rw [List.length_cons]
        omega
      rw [← total]
      exact Int.bmod_add_bmod
    rw [List.foldl_cons]
    by_cases room : buf < ebuf
    · obtain ⟨k, left⟩ : ∃ k, ebuf - buf = k + 1 := ⟨ebuf - buf - 1, by omega⟩
      have fewer : ebuf - (buf + 1) = k := by omega
      have place : buf + 1 + min cs.length k = buf + min (c :: cs).length (k + 1) := by
        rw [List.length_cons]
        omega
      rw [sprintputch_room room space, ih (buf + 1) _ room (wrap_wrap _), count, fewer, left, place]
      rfl
    · have full : ebuf - buf = 0 := by omega
      rw [sprintputch_full room, ih buf _ order (wrap_wrap _), count, full, Nat.min_zero, Nat.min_zero]
      rfl

/-- A large enough buffer, in the address space, and not at 0. -/
structure Large (buf : Nat) (n : Int) (length : Nat) : Prop where
  nonnull : buf ≠ 0
  room : (length : Int) < n
  int : n < 2147483648
  space : buf + n ≤ WORD

theorem vsnprintf_run {rd : Nat → Option UInt8} {bound buf : Nat} {n : Int} {fmt : List UInt8}
    {ap : Nat → Arg} (ended : (vprintfmt rd bound fmt ap).stop = none) (nonnull : buf ≠ 0) (one : 1 ≤ n)
    (space : buf + n ≤ WORD) :
    vsnprintf rd bound buf n fmt ap mem = .ok (wrap (putches (vprintfmt rd bound fmt ap)).length,
      storeBytes mem buf (((putches (vprintfmt rd bound fmt ap)).take (n.toNat - 1)).map lowByte ++ [0])) := by
  simp only [WORD] at space
  have usable : ¬ (buf = 0 ∨ n < 1) := by omega
  have ebuf : (buf + n.toNat - 1) % WORD = buf + n.toNat - 1 := Nat.mod_eq_of_lt (by simp only [WORD]; omega)
  have room : buf + n.toNat - 1 - buf = n.toNat - 1 := by omega
  unfold vsnprintf
  rw [if_neg usable, ebuf]
  dsimp only
  rw [ended, sprintputch_stores buf _ 0 (by omega) (by simp only [WORD]; omega) rfl, room]
  dsimp only
  rw [← storeBytes_last, List.length_map, List.length_take, Nat.min_comm, Int.zero_add]

theorem vsnprintf_stores {rd : Nat → Option UInt8} {bound buf : Nat} {n : Int} {fmt : List UInt8}
    {ap : Nat → Arg} (prints : vprintfmt rd bound fmt ap = emits cs) (large : Large buf n cs.length) :
    vsnprintf rd bound buf n fmt ap mem =
      .ok (cs.length, storeBytes mem buf (cs.map lowByte ++ [0])) := by
  obtain ⟨nonnull, room, int, space⟩ := large
  have ended : (vprintfmt rd bound fmt ap).stop = none := by
    rw [prints]
    rfl
  have whole : cs.take (n.toNat - 1) = cs := List.take_of_length_le (by omega)
  rw [vsnprintf_run ended nonnull (by omega) space, prints, putches_emits, whole,
    wrap_small (by omega) (by omega)]

end Writing

section Reading
variable {mem : Mem} {fuel s : Nat}

def digitCode (d : Nat) : UInt8 := lowByte (digitChar d)

theorem digitValue_code {d : Nat} (small : d < 16) : digitValue (digitCode d) = some (d : Int) := by
  revert d
  decide

theorem digitCode_other {d : Nat} (small : d < 16) : digitCode d ≠ byte ' ' ∧ digitCode d ≠ byte '\t' ∧
    digitCode d ≠ byte '+' ∧ digitCode d ≠ byte '-' ∧ digitCode d ≠ byte 'x' ∧ digitCode d ≠ 0 := by
  revert d
  decide

theorem wrap_next (v base d : Int) : wrap (wrap v * base + d) = wrap (v * base + d) := by
  unfold wrap
  rw [← Int.bmod_add_bmod, Int.bmod_mul_bmod, Int.bmod_add_bmod]

theorem wrap_neg (v : Int) : wrap (-wrap v) = wrap (-v) := Int.bmod_neg_bmod

/-- The digit loop reads the digits up to the NUL; the value is right modulo 2^32. -/
theorem digits_read {base : Nat} (hex : base ≤ 16) (v : Nat) (ds : List Nat) (digits : ∀ d ∈ ds, d < base)
    (holds : Holds mem s (ds.map digitCode ++ [0])) (space : s + ds.length < WORD)
    (enough : ds.length < fuel) :
    loop (m := Id) (digitStep mem base) fuel (s, wrap v) =
      some (s + ds.length, wrap (readFrom base v ds : Nat)) := by
  induction ds generalizing s v fuel with
  | nil =>
    obtain ⟨n, rfl⟩ := Nat.exists_eq_add_of_lt enough
    have nul : mem s = 0 := holds.1
    have ends : digitStep mem base (s, wrap v) = none := by
      unfold digitStep
      dsimp only
      rw [nul]
      rfl
    exact loop_done (m := Id) ends
  | cons d ds ih =>
    obtain ⟨here, later⟩ := holds
    rw [List.length_cons] at space enough
    obtain ⟨n, rfl⟩ : ∃ n, fuel = n + 1 := ⟨fuel - 1, by omega⟩
    have small : d < base := digits d List.mem_cons_self
    have next : digitStep mem base (s, wrap v) = some (s + 1, wrap (v * base + d : Nat)) := by
      unfold digitStep
      dsimp only
      rw [here, digitValue_code (Nat.lt_of_lt_of_le small hex)]
      dsimp only
      rw [if_neg (by omega), wrap_next, Nat.mod_eq_of_lt (by omega)]
      rfl
    rw [loop_next (m := Id) next, ih (v * base + d)
      (fun x listed => digits x (List.mem_cons_of_mem d listed)) later (by omega) (by omega)]
    have place : s + 1 + ds.length = s + (d :: ds).length := by
      rw [List.length_cons]
      omega
    rw [place]
    rfl

theorem no_blank (blank : mem s ≠ byte ' ') (tab : mem s ≠ byte '\t') (enough : 0 < fuel) :
    loop (m := Id) (spaceStep mem) fuel s = some s := by
  obtain ⟨n, rfl⟩ : ∃ n, fuel = n + 1 := ⟨fuel - 1, by omega⟩
  have stops : spaceStep mem s = none := if_neg (not_or.mpr ⟨blank, tab⟩)
  exact loop_done (m := Id) stops

theorem skipBase_digits {base : Nat} (two : 1 < base) (hex : base ≤ 16) {d : Nat} {ds : List Nat}
    (digits : ∀ e ∈ d :: ds, e < base) (holds : Holds mem s ((d :: ds).map digitCode ++ [0]))
    (space : s + 1 < WORD) : skipBase mem s base = (s, (base : Int)) := by
  have second : mem (s + 1) ≠ byte 'x' := by
    obtain ⟨_, later⟩ := holds
    cases ds with
    | nil =>
      have nul : mem (s + 1) = 0 := later.1
      rw [nul]
      decide
    | cons e es =>
      have here : mem (s + 1) = digitCode e := later.1
      have small : e < base := digits e (List.mem_cons_of_mem d List.mem_cons_self)
      rw [here]
      exact (digitCode_other (Nat.lt_of_lt_of_le small hex)).2.2.2.2.1
  have nonzero : ¬ (base : Int) = 0 := by omega
  have not_hex : ¬ (((base : Int) = 0 ∨ (base : Int) = 16) ∧ mem s = byte '0' ∧
      mem ((s + 1) % WORD) = byte 'x') := by
    rw [Nat.mod_eq_of_lt space]
    exact fun all => second all.2.2
  unfold skipBase
  rw [if_neg not_hex, if_neg (fun both => nonzero both.1), if_neg nonzero]

theorem strtol_parts {t u e : Nat} {neg : Bool} {base based val : Int}
    (spaces : loop (m := Id) (spaceStep mem) fuel s = some t) (signs : skipSign mem t = (u, neg))
    (bases : skipBase mem u base = (u, based))
    (read : loop (m := Id) (digitStep mem based) fuel (u, 0) = some (e, val)) :
    strtol mem fuel s base = some (if neg then wrap (-val) else val, e) := by
  unfold strtol
  rw [spaces]
  dsimp only
  rw [signs]
  dsimp only
  rw [bases]
  dsimp only
  rw [read]

theorem strtol_numeral {base : Nat} (two : 1 < base) (hex : base ≤ 16) (v : Int) {ds : List Nat}
    (digits : ∀ d ∈ ds, d < base) (value : readFrom base 0 ds = v.natAbs) (some_digit : 0 < ds.length)
    (holds : Holds mem s ((sign v).map lowByte ++ (ds.map digitCode ++ [0])))
    (space : s + ((sign v).length + ds.length) < WORD) (enough : ds.length < fuel) :
    strtol mem fuel s base = some (wrap v, s + ((sign v).length + ds.length)) := by
  have zero : (0 : Int) = wrap (0 : Nat) := rfl
  cases ds with
  | nil => cases some_digit
  | cons d ds =>
    rw [List.length_cons] at space
    by_cases negative : v < 0
    · have dash : sign v = [('-'.toNat : Int)] := if_pos negative
      rw [dash] at holds space ⊢
      rw [List.length_singleton] at space ⊢
      obtain ⟨first, later⟩ := holds
      replace first : mem s = byte '-' := first
      replace later : Holds mem (s + 1) ((d :: ds).map digitCode ++ [0]) := later
      have signs : skipSign mem s = (s + 1, true) := by
        unfold skipSign
        rw [first, if_neg (by decide), if_pos rfl, Nat.mod_eq_of_lt (by omega)]
      have read := digits_read hex 0 (d :: ds) digits later (by rw [List.length_cons]; omega) enough
      rw [value, ← zero] at read
      have spaces : loop (m := Id) (spaceStep mem) fuel s = some s :=
        no_blank (by rw [first]; decide) (by rw [first]; decide) (Nat.zero_lt_of_lt enough)
      have opposite : -(v.natAbs : Int) = v := by omega
      rw [strtol_parts spaces signs (skipBase_digits two hex digits later (by omega)) read,
        if_pos rfl, wrap_neg, opposite, Nat.add_assoc]
    · have none_signed : sign v = [] := if_neg negative
      rw [none_signed] at holds space ⊢
      replace holds : Holds mem s ((d :: ds).map digitCode ++ [0]) := holds
      rw [List.length_nil, Nat.zero_add] at space ⊢
      have first : mem s = digitCode d := holds.1
      have small : d < 16 := Nat.lt_of_lt_of_le (digits d List.mem_cons_self) hex
      obtain ⟨blank, tab, plus, minus, _⟩ := digitCode_other small
      rw [← first] at blank tab plus minus
      have signs : skipSign mem s = (s, false) := by
        unfold skipSign
        rw [if_neg plus, if_neg minus]
      have read := digits_read hex 0 (d :: ds) digits holds space enough
      rw [value, ← zero] at read
      have same : (v.natAbs : Int) = v := by omega
      have spaces := no_blank blank tab (Nat.zero_lt_of_lt enough)
      rw [strtol_parts spaces signs (skipBase_digits two hex digits holds (by omega)) read, same]
      rfl

end Reading

section Main
variable {rd : Nat → Option UInt8} {bound buf : Nat} {n : Int} {args : Nat → Arg} {mem : Mem} {f : Field}

/-- %d, %u or %x, with no width or with the field filled up with zeros. -/
def Zeroed (f : Field) (args : Nat → Arg) : Prop :=
  f.longs = 0 ∧ (f.flag = .none ∧ f.width = .absent ∨ f.flag = .zero ∧ 0 ≤ f.asked args 0)

def text (f : Field) (args : Nat → Arg) : List Int :=
  written f.flag (f.asked args 0) (sign (f.value args 0)) (f.digits args 0)

theorem text_digits (zeroed : Zeroed f args) : ∃ ds : List Nat,
    (text f args).map lowByte = (sign (f.value args 0)).map lowByte ++ ds.map digitCode ∧
      (∀ d ∈ ds, d < f.conv.base) ∧ 0 < ds.length ∧
      readFrom f.conv.base 0 ds = (f.value args 0).natAbs := by
  have two := f.conv.base_two
  have codes : (f.digits args 0).map lowByte =
      (numeral f.conv.base (f.value args 0).natAbs).map digitCode := by
    unfold Field.digits digitsOf
    rw [List.map_map]
    rfl
  have zero : lowByte Flag.zero.padc = digitCode 0 := by decide
  unfold text written
  obtain ⟨_, plain | filled⟩ := zeroed
  · obtain ⟨flag, width⟩ := plain
    have asked : f.asked args 0 = -1 := by
      unfold Field.asked
      rw [width]
      rfl
    have no_fill : (-1 - ((f.digits args 0).length : Int)).toNat = 0 := by omega
    refine ⟨numeral f.conv.base (f.value args 0).natAbs, ?_, numeral_lt two _,
      numeral_length_pos two _, readFrom_numeral two _⟩
    rw [asked, no_fill, List.replicate_zero, List.nil_append, List.map_append, codes]
  · obtain ⟨flag, _⟩ := filled
    obtain ⟨k, fill⟩ : ∃ k, k = (f.asked args 0 - (f.digits args 0).length).toNat := ⟨_, rfl⟩
    refine ⟨List.replicate k 0 ++ numeral f.conv.base (f.value args 0).natAbs, ?_, ?_, ?_, ?_⟩
    · rw [flag, ← fill, List.map_append, List.map_append, List.map_append, List.map_replicate,
        List.map_replicate, zero, codes]
    · intro d listed
      cases List.mem_append.mp listed with
      | inl zeros =>
        rw [List.eq_of_mem_replicate zeros]
        exact Nat.zero_lt_of_lt two
      | inr others => exact numeral_lt two _ d others
    · rw [List.length_append]
      exact Nat.add_pos_right _ (numeral_length_pos two _)
    · rw [readFrom_zeros, readFrom_numeral two]

theorem text_nonzero (zeroed : Zeroed f args) : ∀ b ∈ (text f args).map lowByte, b ≠ 0 := by
  obtain ⟨ds, bytes, digits, _, _⟩ := text_digits zeroed
  rw [bytes]
  intro b listed
  cases List.mem_append.mp listed with
  | inl signs =>
    unfold sign at signs
    by_cases negative : f.value args 0 < 0
    · rw [if_pos negative] at signs
      cases signs with
      | head => decide
      | tail _ none_left => cases none_left
    · rw [if_neg negative] at signs
      cases signs
  | inr codes =>
    obtain ⟨d, at_d, rfl⟩ := List.mem_map.mp codes
    have small : d < 16 := Nat.lt_of_lt_of_le (digits d at_d) f.conv.base_hex
    exact (digitCode_other small).2.2.2.2.2

theorem strtol_text {s fuel : Nat} (zeroed : Zeroed f args)
    (holds : Holds mem s ((text f args).map lowByte ++ [0]))
    (space : s + (text f args).length < WORD) (enough : (text f args).length < fuel) :
    strtol mem fuel s f.conv.base = some (wrap (f.value args 0), s + (text f args).length) := by
  obtain ⟨ds, bytes, digits, some_digit, value⟩ := text_digits zeroed
  have length : (text f args).length = (sign (f.value args 0)).length + ds.length := by
    have lengths := congrArg List.length bytes
    simp only [List.length_append, List.length_map] at lengths
    exact lengths
  rw [length] at space enough ⊢
  rw [bytes, List.append_assoc] at holds
  exact strtol_numeral f.conv.base_two f.conv.base_hex (f.value args 0) digits value some_digit holds
    space (by omega)

theorem value_wrap (zeroed : Zeroed f args) {x : Nat} (argument : args (f.width.after 0) = .word x) :
    wrap (f.value args 0) = wrap x := by
  have word : f.longs = 0 := zeroed.1
  have few : ¬ f.longs ≥ 2 := by omega
  have unsigned : wrap ((x % WORD : Nat) : Int) = wrap x := by
    unfold wrap
    rw [Int.natCast_mod]
    exact Int.emod_bmod x 4294967296
  unfold Field.value
  cases f.conv with
  | d =>
    change wrap (getint args (f.width.after 0) f.longs).1 = wrap x
    unfold getint
    rw [if_neg few, argument]
    dsimp only [asInt]
    exact wrap_wrap x
  | u =>
    change wrap (getuint args (f.width.after 0) f.longs).1 = wrap x
    unfold getuint
    rw [if_neg few, argument]
    exact unsigned
  | x =>
    change wrap (getuint args (f.width.after 0) f.longs).1 = wrap x
    unfold getuint
    rw [if_neg few, argument]
    exact unsigned

theorem vprintfmt_text (zeroed : Zeroed f args) :
    vprintfmt rd bound f.format args = emits (text f args) := by
  have given : -1 ≤ f.asked args 0 := by
    obtain ⟨_, plain | filled⟩ := zeroed
    · unfold Field.asked
      rw [plain.2]
      exact Int.le_refl (-1)
    · omega
  have printed : vprintfmtLoop rd bound (convError rd bound) args 0 (f.format ++ []) = _ :=
    loop_field f [] given
  have ended : vprintfmtLoop rd bound (convError rd bound) args (f.after 0) [] = Trace.done := by
    unfold vprintfmtLoop
    rfl
  rw [ended, Trace.andThen_done, List.append_nil] at printed
  exact printed

/-- A number printed by snprintf into a large enough buffer is read back by strtol as the same
    32-bit value, up to the NUL. -/
theorem strtol_snprintf (rd : Nat → Option UInt8) (bound : Nat) (mem : Mem) (given : List Arg)
    (beyond : Nat → Arg) (x : Nat) (zeroed : Zeroed f (argList given beyond))
    (argument : argList given beyond (f.width.after 0) = .word x)
    (large : Large buf n (text f (argList given beyond)).length) {fuel : Nat}
    (enough : (text f (argList given beyond)).length < fuel) :
    ∃ len mem', snprintf rd bound buf n f.format given beyond mem = .ok ((len : Nat), mem') ∧
      strtol mem' fuel buf f.conv.base = some (wrap x, buf + len) ∧
      mem' (buf + len) = 0 ∧ ∀ i < len, mem' (buf + i) ≠ 0 := by
  have holds := holds_storeBytes mem buf ((text f (argList given beyond)).map lowByte ++ [0])
  obtain ⟨chars, nul⟩ := holds_append.mp holds
  rw [List.length_map] at nul
  have space : buf + (text f (argList given beyond)).length < WORD := by
    have room := large.room
    have end_buf := large.space
    omega
  refine ⟨(text f (argList given beyond)).length, _, vsnprintf_stores (vprintfmt_text zeroed) large,
    ?_, nul.1, ?_⟩
  · rw [strtol_text zeroed holds space enough, value_wrap zeroed argument]
  · intro i inside
    apply holds_nonzero chars (text_nonzero zeroed)
    rw [List.length_map]
    exact inside

def decimal : Field := ⟨.none, .absent, 0, .d⟩

theorem strtol_snprintf_min : ∃ len mem', snprintf (fun _ => none) 0 4096 16 decimal.format
      [.word 0x80000000] (fun _ => .word 0) (fun _ => 0) = .ok ((len : Nat), mem') ∧
    strtol mem' 12 4096 decimal.conv.base = some (wrap (0x80000000 : Nat), 4096 + len) ∧
    mem' (4096 + len) = 0 ∧ ∀ i < len, mem' (4096 + i) ≠ 0 := by
  have value : decimal.value (argList [.word 0x80000000] fun _ => .word 0) 0 = -0x80000000 := by decide
  have numerals : numeral 10 0x80000000 = [2, 1, 4, 7, 4, 8, 3, 6, 4, 8] := by
    simp [numeral]
  have length : (text decimal (argList [.word 0x80000000] fun _ => .word 0)).length = 11 := by
    have ten : (decimal.digits (argList [.word 0x80000000] fun _ => .word 0) 0).length = 10 := by
      unfold Field.digits digitsOf
      rw [value, List.length_map]
      exact congrArg List.length numerals
    unfold text written
    rw [List.length_append, List.length_append, List.length_replicate, ten, value]
    rfl
  exact strtol_snprintf (fun _ => none) 0 (fun _ => 0) [.word 0x80000000] (fun _ => .word 0) 0x80000000
    ⟨rfl, Or.inl ⟨rfl, rfl⟩⟩ rfl (by rw [length]; exact ⟨by decide, by decide, by decide, by decide⟩)
    (by rw [length]; decide)

end Main

end JosStrtol
