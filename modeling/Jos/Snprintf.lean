import Jos.Strtol

/- vsnprintf of lib/printfmt.c on any stream: the buffer, and the count that is returned. -/
namespace JosSnprintf
open JosLayout JosMachine JosPrintfmt JosPrintfChars JosPrintfFields JosStrtol

/-- The n bytes from buf on hold the first characters of the stream, as many as fit beside a NUL,
    and the NUL; no other byte is changed. -/
structure Truncated (mem mem' : Mem) (buf n : Nat) (cs : List Int) : Prop where
  chars : ∀ i, i < min cs.length (n - 1) → mem' (buf + i) = lowByte (cs.getD i 0)
  nul : mem' (buf + min cs.length (n - 1)) = 0
  outside : ∀ a, a < buf ∨ buf + n ≤ a → mem' a = mem a

section Stream
variable {mem : Mem} {buf n : Nat} {cs : List Int}

theorem truncated_stores (mem : Mem) (buf : Nat) (cs : List Int) (one : 1 ≤ n) :
    Truncated mem (storeBytes mem buf ((cs.take (n - 1)).map lowByte ++ [0])) buf n cs := by
  have holds := holds_storeBytes mem buf ((cs.take (n - 1)).map lowByte ++ [0])
  obtain ⟨chars, nul⟩ := holds_append.mp holds
  have length : ((cs.take (n - 1)).map lowByte).length = min cs.length (n - 1) := by
    rw [List.length_map, List.length_take, Nat.min_comm]
  constructor
  · intro i inside
    have stored := holds_getD chars (i := i) (by omega)
    rw [stored, List.getD_eq_getElem _ _ (by omega), List.getD_eq_getElem _ _ (by omega), List.getElem_map,
      List.getElem_take]
  · rw [← length]
    exact nul.1
  · intro a outside
    apply storeBytes_outside
    rw [List.length_append, length, List.length_singleton]
    omega

theorem stream_inside {b : Sprintbuf} {mem' : Mem} (one : 1 ≤ n) (space : buf + n ≤ WORD)
    (run : cs.foldl sprintputch (⟨buf, (buf + n - 1) % WORD, 0⟩, mem) = (b, mem')) :
    buf ≤ b.buf ∧ b.buf < buf + n ∧ ∀ a, a < buf ∨ buf + n ≤ a → mem' a = mem a := by
  have ebuf : (buf + n - 1) % WORD = buf + n - 1 := Nat.mod_eq_of_lt (by omega)
  rw [ebuf, sprintputch_stores buf (buf + n - 1) 0 (by omega) (by omega) rfl] at run
  obtain ⟨rfl, rfl⟩ := Prod.mk.inj run
  refine ⟨Nat.le_add_right _ _, ?_, ?_⟩
  · dsimp only
    omega
  · intro a outside
    apply storeBytes_outside
    rw [List.length_map, List.length_take]
    omega

end Stream

section Main
variable {rd : Nat → Option UInt8} {bound buf : Nat} {n : Int} {fmt : List UInt8} {ap : Nat → Arg}

/-- vsnprintf cuts the stream off at the end of the buffer. It returns the length of the whole
    stream, as an int. -/
theorem vsnprintf_truncates (mem : Mem) (nonnull : buf ≠ 0) (one : 1 ≤ n) (space : buf + n ≤ WORD)
    (ended : (vprintfmt rd bound fmt ap).stop = none) :
    (∃ mem', vsnprintf rd bound buf n fmt ap mem =
        .ok (wrap (putches (vprintfmt rd bound fmt ap)).length, mem') ∧
      Truncated mem mem' buf n.toNat (putches (vprintfmt rd bound fmt ap))) ∧
    ∀ (cs : List Int) (b : Sprintbuf) (mem' : Mem),
      cs.foldl sprintputch (⟨buf, (buf + n.toNat - 1) % WORD, 0⟩, mem) = (b, mem') →
      buf ≤ b.buf ∧ b.buf < buf + n.toNat ∧ ∀ a, a < buf ∨ buf + n.toNat ≤ a → mem' a = mem a := by
  constructor
  · exact ⟨_, vsnprintf_run ended nonnull one space, truncated_stores mem buf _ (by omega)⟩
  · intro cs b mem' run
    exact stream_inside (by omega) (by omega) run

theorem vsnprintf_truncates_one : ∃ mem', vsnprintf (fun _ => none) 0 4096 1 [byte 'A'] (fun _ => .word 0)
      (fun _ => 7) = .ok (1, mem') ∧ Truncated (fun _ => 7) mem' 4096 1 [65] := by
  have stream : vprintfmt (fun _ => none) 0 [byte 'A'] (fun _ => .word 0) = emits [65] := by
    unfold vprintfmt
    rw [loop_literal (by decide), vprintfmtLoop]
    rfl
  have ended : (vprintfmt (fun _ => none) 0 [byte 'A'] (fun _ => .word 0)).stop = none := by
    rw [stream]
    rfl
  have run := (vsnprintf_truncates (fun _ => 7) (show (4096 : Nat) ≠ 0 by decide) (Int.le_refl 1) (by decide)
    ended).1
  have counted : wrap (([65] : List Int).length : Nat) = 1 := by decide
  rw [stream, putches_emits, counted] at run
  exact run

def wideFormat : List UInt8 := [byte '%', byte '*', byte 'd', byte '%', byte 'd']

def wideArgs (w : Nat) : Nat → Arg := argList [.word w, .word 0, .word 0] fun _ => .word 0

theorem wide_stream {w : Nat} (positive : 0 < w) (int : w < 2147483648) (rd : Nat → Option UInt8)
    (bound : Nat) : ∃ cs, vprintfmt rd bound wideFormat (wideArgs w) = emits cs ∧ cs.length = w + 1 := by
  let first : Field := ⟨.none, .star, 0, .d⟩
  let second : Field := ⟨.none, .absent, 0, .d⟩
  have format : wideFormat = first.format ++ (second.format ++ []) := rfl
  have word : asInt (.word w) = w := by
    dsimp only [asInt]
    exact wrap_small (by omega) (by omega)
  have asked : first.asked (wideArgs w) 0 = w := word
  have digits : first.digits (wideArgs w) 0 = [48] := rfl
  have unsigned : sign (first.value (wideArgs w) 0) = [] := rfl
  have last : written second.flag (second.asked (wideArgs w) 2) (sign (second.value (wideArgs w) 2))
      (second.digits (wideArgs w) 2) = [48] := rfl
  have run : vprintfmt rd bound wideFormat (wideArgs w) = emits (written .none w [] [48] ++ [48]) := by
    unfold vprintfmt
    rw [format, loop_field first _ (by rw [asked]; omega), asked, digits, unsigned]
    change (emits _).andThen (vprintfmtLoop rd bound (convError rd bound) (wideArgs w) 2 _) = _
    rw [loop_field second [] (Int.le_refl (-1)), last, loop_nil, Trace.andThen_done]
    exact emits_append _ [48]
  refine ⟨_, run, ?_⟩
  unfold written
  simp only [List.length_append, List.length_replicate, List.length_nil, List.length_singleton]
  omega

/-- The stream has one character more than an int counts to, and what is returned is negative. -/
theorem vsnprintf_miscounts : ¬ ∀ (rd : Nat → Option UInt8) (bound buf : Nat) (n : Int) (fmt : List UInt8)
    (ap : Nat → Arg) (mem : Mem), buf ≠ 0 → 1 ≤ n → n < 2147483648 → buf + n ≤ WORD →
    (vprintfmt rd bound fmt ap).stop = none →
    ∃ mem', vsnprintf rd bound buf n fmt ap mem =
        .ok ((putches (vprintfmt rd bound fmt ap)).length, mem') ∧
      Truncated mem mem' buf n.toNat (putches (vprintfmt rd bound fmt ap)) := by
  intro claim
  obtain ⟨w, widest⟩ : ∃ w, w = 2147483647 := ⟨_, rfl⟩
  obtain ⟨cs, run, length⟩ := wide_stream (by omega) (show w < 2147483648 by omega) (fun _ => none) 0
  have ended : (vprintfmt (fun _ => none) 0 wideFormat (wideArgs w)).stop = none := by
    rw [run]
    rfl
  obtain ⟨mem', returned, _⟩ := claim (fun _ => none) 0 4096 1 wideFormat (wideArgs w) (fun _ => 0)
    (by decide) (Int.le_refl 1) (by decide) (by decide) ended
  rw [vsnprintf_run ended (by decide) (Int.le_refl 1) (by decide)] at returned
  have count := (Prod.mk.inj (Except.ok.inj returned)).1
  rw [run, putches_emits, length, widest] at count
  exact absurd count (by decide)

end Main

end JosSnprintf
