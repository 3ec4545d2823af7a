import Jos.Cputs
import Jos.PrintfChars
import Mathlib.Data.List.Induction
import Mathlib.Data.List.TakeWhile

/- lib/printf.c: cprintf of a user program. The characters go through a buffer of 256, from
   there through sys_cputs, and from there through the kernel's own cprintf. -/
namespace JosUserPrintf
open JosLayout FrameWords JosMachine JosPmap JosMmu JosEnv JosPrintfmt JosTrap
open JosUserMemCheck JosCputs JosPrintfChars CountedLoop

structure PrintBuf where
  idx : Nat
  cnt : Nat
  buf : Nat → UInt8

/-- A running program with a struct printbuf on its stack: the address of buf, what the stack
    held there, and the kernel's state when a system call comes with the buffer as it then is. -/
structure Caller where
  buf : Nat
  stack : Nat → UInt8
  w : Surroundings
  seen : PrintBuf → State
  nonnull : buf ≠ 0
  mapped : ∀ b i, i < 256 → kread (seen b) ((buf + i) % WORD) = some (b.buf i)
  accepted : ∀ b, b.idx < 256 → Accepted (seen b) buf b.idx
  /-- the model's bound on the characters of one string is out of reach -/
  bound : 256 ≤ w.bound

def flush (u : Caller) (b : PrintBuf) : Except Halt (List UInt8) := do
  let (t, _) ← sysCputs u.w (u.seen b) u.buf b.idx
  t.ended halted
  .ok ((putches t).map lowByte)

def putch (u : Caller) (p : PrintBuf × List UInt8) (ch : Int) :
    Except Halt (PrintBuf × List UInt8) := do
  let b := { p.1 with buf := Function.update p.1.buf p.1.idx (lowByte ch), idx := p.1.idx + 1 }
  if b.idx = 256 - 1 then do
    let out ← flush u b
    .ok ({ b with idx := 0, cnt := b.cnt + 1 }, p.2 ++ out)
  else .ok ({ b with cnt := b.cnt + 1 }, p.2)

def putchs (u : Caller) (cs : List Int) : Except Halt (PrintBuf × List UInt8) :=
  cs.foldlM (putch u) (⟨0, 0, u.stack⟩, [])

/-- vcprintf, once vprintfmt has handed over the characters cs and returned. -/
def vcprintf (u : Caller) (cs : List Int) : Except Halt (Nat × List UInt8) := do
  let (b, out) ← putchs u cs
  let last ← flush u b
  .ok (b.cnt, out ++ last)

section Kernel
variable {rd : Nat → Option UInt8}

theorem putString_prints (bound w : Nat) (width : Int) (bs : List UInt8)
    (there : ∀ i, (inside : i < bs.length) → rd ((w + i) % WORD) = some (bs.get ⟨i, inside⟩))
    (after : ∃ c, rd ((w + bs.length) % WORD) = some c) (room : bs.length < bound)
    (narrow : width ≤ 0 ∧ -1000 ≤ width - bs.length) :
    putches (putString rd false bound (.word w) bs.length width) =
        (bs.takeWhile (· ≠ 0)).map signed ∧
      (putString rd false bound (.word w) bs.length width).stop = none := by
  induction bs generalizing w width bound with
  | nil =>
    obtain ⟨c, found⟩ := after
    rw [List.length_nil, Nat.add_zero] at found
    have no_pad : width.toNat = 0 := Int.toNat_of_nonpos narrow.1
    cases bound with
    | zero => cases room
    | succ bound =>
      by_cases ends : c = 0
      · simp [putString, load, found, ends, Trace.andThen, no_pad, Trace.pad, putches]
      · simp [putString, load, found, ends, Trace.andThen, no_pad, Trace.pad, putches]
  | cons b bs ih =>
    have found : rd (w % WORD) = some b := there 0 (Nat.zero_lt_succ _)
    simp only [List.length_cons] at room narrow after
    cases bound with
    | zero => cases room
    | succ bound =>
      by_cases ends : b = 0
      · have no_pad : width.toNat = 0 := Int.toNat_of_nonpos narrow.1
        simp [putString, load, found, ends, Trace.andThen, no_pad, Trace.pad, putches]
      · have shift : ∀ i, ((w + 1) % WORD + i) % WORD = (w + (i + 1)) % WORD := by
          intro i
          simp only [WORD]
          omega
        have smaller : wrap (width - 1) = width - 1 := by
          simp only [wrap, Int.bmod]
          omega
        obtain ⟨printed, stop⟩ := ih bound ((w + 1) % WORD) (width - 1)
          (fun i inside => by
            rw [shift]
            exact there (i + 1) (Nat.succ_lt_succ inside))
          (by
            rw [shift]
            exact after)
          (by omega) ⟨by omega, by omega⟩
        have positive : ¬ ((bs.length : Int) + 1 < 0) := by omega
        have goes : 0 ≤ (bs.length : Int) := by omega
        have round : putString rd false (bound + 1) (.word w) ((b :: bs).length : Nat) width =
            (Trace.mk [.read (w % WORD), .putch (signed b)] none).andThen
              (putString rd false bound (.word ((w + 1) % WORD)) bs.length (width - 1)) := by
          simp [putString, load, found, ends, positive, goes, smaller, next, Trace.andThen,
            Trace.emit, putString.shown]
        have goes_on : (Trace.mk [.read (w % WORD), .putch (signed b)] none).stop = none := rfl
        obtain ⟨joined, last⟩ := putches_andThen
          (putString rd false bound (.word ((w + 1) % WORD)) bs.length (width - 1)) goes_on
        rw [round, joined, last, printed]
        refine ⟨?_, stop⟩
        simp [putches, ends]

end Kernel

def held (b : PrintBuf) : List UInt8 := (List.range b.idx).map b.buf

def upToNul (bs : List UInt8) : List UInt8 := bs.takeWhile (· ≠ 0)

section Chunks

theorem upToNul_length (bs : List UInt8) : (upToNul bs).length ≤ bs.length :=
  (List.takeWhile_prefix _).length_le

theorem upToNul_eq (bs : List UInt8) : upToNul bs = bs ↔ (0 : UInt8) ∉ bs := by
  unfold upToNul
  rw [List.takeWhile_eq_self_iff]
  constructor
  · intro all listed
    have bad := all 0 listed
    simp at bad
  · intro none_zero c listed
    have other : c ≠ 0 := fun same => none_zero (same ▸ listed)
    simp [other]

theorem chunks_length (chunks : List (List UInt8)) :
    (chunks.flatMap upToNul).length ≤ chunks.flatten.length := by
  induction chunks with
  | nil => simp
  | cons c chunks ih =>
    have first := upToNul_length c
    simp only [List.flatMap_cons, List.flatten_cons, List.length_append]
    omega

/-- Nothing is lost exactly when no chunk holds a NUL. -/
theorem chunks_whole (chunks : List (List UInt8)) :
    chunks.flatMap upToNul = chunks.flatten ↔ (0 : UInt8) ∉ chunks.flatten := by
  induction chunks with
  | nil => simp
  | cons c chunks ih =>
    have first := upToNul_length c
    have rest := chunks_length chunks
    rw [List.flatMap_cons, List.flatten_cons, List.mem_append, not_or, ← ih, ← upToNul_eq c]
    constructor
    · intro whole
      have total := congrArg List.length whole
      simp only [List.length_append] at total
      exact List.append_inj whole (by omega)
    · intro both
      rw [both.1, both.2]

end Chunks

section Flushing
variable {u : Caller} {b : PrintBuf}

theorem held_length (b : PrintBuf) : (held b).length = b.idx := by simp [held]

theorem flush_prints (u : Caller) (small : b.idx < 256) : flush u b = .ok (upToNul (held b)) := by
  have slen : b.idx < WORD := Nat.lt_trans small (by decide)
  have wraps : wrap b.idx = b.idx := by
    simp only [wrap, Int.bmod]
    omega
  have text : printedBy (kread (u.seen b)) u.w.bound b.idx u.buf u.w.beyond =
      putString (kread (u.seen b)) false u.w.bound (.word u.buf) (held b).length 0 := by
    unfold printedBy
    rw [vprintfmt_dot_star_s, wraps, held_length]
    simp [convString, u.nonnull]
  have reach := u.bound
  have there : ∀ i, (inside : i < (held b).length) →
      kread (u.seen b) ((u.buf + i) % WORD) = some ((held b).get ⟨i, inside⟩) := by
    intro i inside
    rw [held_length] at inside
    rw [u.mapped b i (by omega)]
    simp [held]
  have after : ∃ c, kread (u.seen b) ((u.buf + (held b).length) % WORD) = some c := by
    rw [held_length]
    exact ⟨_, u.mapped b b.idx small⟩
  obtain ⟨printed_all, stop⟩ := putString_prints u.w.bound u.buf 0 (held b) there after
    (by
      rw [held_length]
      omega)
    (by
      rw [held_length]
      omega)
  unfold flush
  rw [sysCputs_accepted (u.accepted b small), ok_bind, text]
  dsimp only
  unfold Trace.ended
  rw [stop, ok_bind, printed_all]
  simp [upToNul, Function.comp_def, lowByte_signed]

/-- The buffer after some calls of putch: the chunks it has sent, and the rest it still holds. -/
structure Buffered (cs : List Int) (p : PrintBuf × List UInt8) (chunks : List (List UInt8)) :
    Prop where
  stream : cs.map lowByte = chunks.flatten ++ held p.1
  shown : p.2 = chunks.flatMap upToNul
  idx : p.1.idx ≤ 254
  cnt : p.1.cnt = cs.length

theorem held_put (b : PrintBuf) (c : UInt8) (cnt : Nat) :
    held ⟨b.idx + 1, cnt, Function.update b.buf b.idx c⟩ = held b ++ [c] := by
  unfold held
  dsimp only
  rw [List.range_succ, List.map_append, List.map_singleton, Function.update_self]
  congr 1
  apply List.map_congr_left
  intro i listed
  have below : i ≠ b.idx := Nat.ne_of_lt (List.mem_range.mp listed)
  rw [Function.update_of_ne below]

theorem putch_buffered {cs : List Int} {p : PrintBuf × List UInt8} {chunks : List (List UInt8)}
    (kept : Buffered cs p chunks) (ch : Int) :
    ∃ p' chunks', putch u p ch = .ok p' ∧ Buffered (cs ++ [ch]) p' chunks' := by
  have stream : (cs ++ [ch]).map lowByte = chunks.flatten ++ (held p.1 ++ [lowByte ch]) := by
    rw [List.map_append, kept.stream, List.append_assoc]
    rfl
  have small := kept.idx
  have count : p.1.cnt + 1 = (cs ++ [ch]).length := by
    rw [kept.cnt, List.length_append]
    rfl
  unfold putch
  dsimp only
  by_cases full : p.1.idx + 1 = 256 - 1
  · have flushed := flush_prints u
      (b := ⟨p.1.idx + 1, p.1.cnt, Function.update p.1.buf p.1.idx (lowByte ch)⟩) (by
        change p.1.idx + 1 < 256
        omega)
    rw [held_put] at flushed
    rw [if_pos full, flushed, ok_bind]
    refine ⟨_, chunks ++ [held p.1 ++ [lowByte ch]], rfl, ?_, ?_, Nat.zero_le _, count⟩
    · rw [stream, List.flatten_append]
      simp [held]
    · simp [kept.shown]
  · rw [if_neg full]
    refine ⟨_, chunks, rfl, ?_, kept.shown, ?_, count⟩
    · rw [stream, held_put]
    · change p.1.idx + 1 ≤ 254
      omega

theorem putchs_buffered (u : Caller) (cs : List Int) :
    ∃ p chunks, putchs u cs = .ok p ∧ Buffered cs p chunks := by
  unfold putchs
  induction cs using List.reverseRecOn with
  | nil => exact ⟨_, [], rfl, rfl, rfl, Nat.zero_le _, rfl⟩
  | append_singleton cs ch ih =>
    obtain ⟨p, chunks, done, kept⟩ := ih
    obtain ⟨p', chunks', put, kept'⟩ := putch_buffered (u := u) kept ch
    refine ⟨p', chunks', ?_, kept'⟩
    rw [List.foldlM_append, done, ok_bind]
    simp only [List.foldlM_cons, List.foldlM_nil, put]
    rfl

theorem vcprintf_stream (u : Caller) (cs : List Int) :
    ∃ out, vcprintf u cs = .ok (cs.length, out) ∧
      (out = cs.map lowByte ↔ ∀ c ∈ cs, lowByte c ≠ 0) := by
  obtain ⟨p, chunks, done, kept⟩ := putchs_buffered u cs
  have small := kept.idx
  have flushed := flush_prints u (b := p.1) (by omega)
  refine ⟨p.2 ++ upToNul (held p.1), ?_, ?_⟩
  · unfold vcprintf
    rw [done, ok_bind]
    dsimp only
    rw [flushed, ok_bind, kept.cnt]
  · have whole := chunks_whole (chunks ++ [held p.1])
    rw [List.flatMap_append, List.flatten_append, List.flatMap_singleton, List.flatten_singleton,
      ← kept.shown, ← kept.stream] at whole
    rw [whole]
    simp

end Flushing

section OnePage
variable (f : Frame)

def pageWith : State := onePage.setFrame 1002 f

theorem pageWith_entry {p : Nat} (other : p ≠ 1002) (i : Nat) :
    (pageWith f).entry p i = onePage.entry p i := by
  unfold pageWith State.entry
  rw [State.setFrame_mem, Function.update_of_ne other]

theorem pageWith_walk {a : Nat} (low : 0x1000 ≤ a) (high : a < 0x2000) :
    walk (pageWith f) 1000 a = some ⟨1001 * 4096 + 7, 1002 * 4096 + 7⟩ := by
  have dir : pdx a = 0 := by
    rw [pdx_eq]
    omega
  have table : ptx a = 1 := by
    rw [ptx_eq]
    omega
  have pde : (pageWith f).entry 1000 0 = 1001 * 4096 + 7 := by
    rw [pageWith_entry f (by decide)]
    decide
  have pte : (pageWith f).entry 1001 1 = 1002 * 4096 + 7 := by
    rw [pageWith_entry f (by decide)]
    decide
  have page : ppn (1001 * 4096 + 7) = 1001 := by decide
  rw [walk_some, dir, table, pde, page, pte]
  decide

theorem pageWith_reads {a : Nat} (low : 0x1000 ≤ a) (high : a < 0x2000) :
    kread (pageWith f) a = some (f (a - 0x1000)) := by
  have offset : pgoff a = a - 0x1000 := by
    rw [pgoff_eq]
    omega
  have page : Translation.page ⟨1001 * 4096 + 7, 1002 * 4096 + 7⟩ = 1002 := by decide
  have base : (pageWith f).cr3 = 1000 := rfl
  unfold kread
  rw [base, pageWith_walk f low high, Option.map_some, page, offset]
  unfold pageWith
  rw [State.setFrame_mem, Function.update_self]

theorem pageWith_accepts {len : Nat} (small : len < 256) : Accepted (pageWith f) 0x1000 len := by
  have checked : ∃ s', userMemCheck (pageWith f) (some 0) 0x1000 len (PTE_U ||| PTE_U) =
      .ok (0, s') := by
    rw [check_zero_iff]
    intro j inside
    have first : j = 0 := by
      unfold visited roundUp roundDown at inside
      simp only [WORD, PGSIZE] at inside
      omega
    subst first
    have here : roundDown 0x1000 PGSIZE + 0 * PGSIZE = 0x1000 := by decide
    rw [here]
    have room : ppn (1001 * 4096 + 7) < 1024 := by decide
    exact ⟨by decide, 0, 1000, _, rfl, rfl, pageWith_walk f (by decide) (by decide), room,
      by decide⟩
  obtain ⟨s', checked⟩ := checked
  refine ⟨0, 0, some 0, s', rfl, rfl, ?_⟩
  unfold userMemAssert
  rw [orPanic_ok.mpr checked, ok_bind]
  rfl

end OnePage

def onePageCaller : Caller where
  buf := 0x1000
  stack := fun _ => 0
  w := ⟨fun _ => .word 0, 256, 0⟩
  seen b := pageWith b.buf
  nonnull := by decide
  mapped b i inside := by
    have here : (0x1000 + i) % WORD = 0x1000 + i := Nat.mod_eq_of_lt (by
      simp only [WORD]
      omega)
    rw [here, pageWith_reads b.buf (by omega) (by omega), Nat.add_sub_cancel_left]
  accepted b small := pageWith_accepts b.buf small
  bound := Nat.le_refl 256

/-- A completed cprintf of a user program. The buffer index stays in range at every call of
    putch, and the console shows the characters of vprintfmt exactly when no %c of the format
    prints an argument whose low eight bits are 0. -/
theorem user_console (u : Caller) {rd : Nat → Option UInt8} {bound : Nat} {fmt : List UInt8}
    {args : Nat → Arg} (text : ∀ c ∈ fmt, c ≠ 0)
    (ended : (vprintfmt rd bound fmt args).stop = none) :
    (∀ cs, cs <+: putches (vprintfmt rd bound fmt args) →
      ∃ p, putchs u cs = .ok p ∧ p.1.idx ≤ 254) ∧
    ∃ out, vcprintf u (putches (vprintfmt rd bound fmt args)) =
        .ok ((putches (vprintfmt rd bound fmt args)).length, out) ∧
      (out = (putches (vprintfmt rd bound fmt args)).map lowByte ↔ ¬ printsNul args 0 fmt) := by
  constructor
  · intro cs _
    obtain ⟨p, chunks, done, kept⟩ := putchs_buffered u cs
    exact ⟨p, done, kept.idx⟩
  · obtain ⟨out, done, whole⟩ := vcprintf_stream u (putches (vprintfmt rd bound fmt args))
    exact ⟨out, done, whole.trans (vprintfmt_solid text ended)⟩

theorem user_console_onePage : ∃ out, vcprintf onePageCaller [104, 105] = .ok (2, out) ∧
    out = [104, 105] := by
  have trace : vprintfmt (fun _ => none) 1 [104, 105] (fun _ => .word 0) =
      ⟨[.putch 104, .putch 105], none⟩ := by
    simp [vprintfmt, vprintfmtLoop, Trace.emit, Trace.andThen, Trace.done]
  have ended : (vprintfmt (fun _ => none) 1 [104, 105] (fun _ => .word 0)).stop = none := by
    rw [trace]
  have text : ∀ c ∈ ([104, 105] : List UInt8), c ≠ 0 := by simp
  obtain ⟨_, out, done, whole⟩ := user_console onePageCaller text ended
  have plain : ¬ printsNul (fun _ => .word 0) 0 [104, 105] := by simp [printsNul]
  rw [trace] at done whole
  exact ⟨out, done, whole.mpr plain⟩

/-- cprintf("a%cb", 0): the b is lost with the NUL. -/
theorem user_console_loses : ∃ out,
    vcprintf onePageCaller (putches (vprintfmt (fun _ => none) 1 (chars "a%cb") fun _ => .word 0)) =
      .ok (3, out) ∧
    out ≠ (putches (vprintfmt (fun _ => none) 1 (chars "a%cb") fun _ => .word 0)).map lowByte := by
  have text : chars "a%cb" = [97, 37, 99, 98] := by decide
  have trace : vprintfmt (fun _ => none) 1 [97, 37, 99, 98] (fun _ => .word 0) =
      ⟨[.putch 97, .putch 0, .putch 98], none⟩ := by
    simp [vprintfmt, vprintfmtLoop, scan, Spec.flush, Spec.start, isDigit, convert, asInt, wrap,
      Trace.emit, Trace.andThen, Trace.done]
  rw [text, trace]
  obtain ⟨out, done, whole⟩ := vcprintf_stream onePageCaller [97, 0, 98]
  refine ⟨out, done, ?_⟩
  intro same
  exact whole.mp same 0 (by simp) (by decide)

end JosUserPrintf
