import Jos.Readline
import Jos.Runcmd
import Jos.TrapPrint

/- The kernel monitor: monitor of kern/monitor.c with its commands, on what is typed at the
   console. -/
namespace JosMonitor
open JosLayout JosMachine JosPrintfmt JosPrintfChars JosPrintfFields JosPrintfStrings JosPrintfPieces
open JosReadline JosRuncmd JosTrapPrint JosStrtol CountedLoop

inductive Fault where
  | readline (f : JosReadline.Fault)
  | runcmd (f : JosRuncmd.Fault)
  | print (e : Stop)

/-- The addresses that the linker gives the kernel's symbols; its size is an int. -/
structure Symbols where
  start : UInt32
  entry : UInt32
  etext : UInt32
  edata : UInt32
  ends : UInt32
  size : (ends - entry).toNat + 1023 < 2147483648

def descs : List String := ["Display this list of commands", "Display information about the kernel"]

abbrev KERNBASE : UInt32 := 0xF0000000

def ROUNDDOWN (a n : UInt32) : UInt32 := a - a % n

def ROUNDUP (a n : UInt32) : UInt32 := ROUNDDOWN (a + n - 1) n

section Commands
variable (rd : Nat → Option UInt8) (bound : Nat)

def monHelp : Trace × Int :=
  (traces ((commands.zip descs).map fun c =>
    cprintf rd bound "%s - %s\n" [.const (chars c.1), .const (chars c.2)]), 0)

def monKerninfo (sym : Symbols) : Trace × Int :=
  let cprintf := JosPrintfmt.cprintf rd bound
  let virt (v : UInt32) : List Arg := [.word v.toNat, .word (v - KERNBASE).toNat]
  -- end - entry and the result of ROUNDUP are ints
  let size := (asInt (.word (ROUNDUP (sym.ends - sym.entry) 1024).toNat)).tdiv 1024
  (traces
    [cprintf "Special kernel symbols:\n" [],
      cprintf "  _start                  %08x (phys)\n" [.word sym.start.toNat],
      cprintf "  entry  %08x (virt)  %08x (phys)\n" (virt sym.entry),
      cprintf "  etext  %08x (virt)  %08x (phys)\n" (virt sym.etext),
      cprintf "  edata  %08x (virt)  %08x (phys)\n" (virt sym.edata),
      cprintf "  end    %08x (virt)  %08x (phys)\n" (virt sym.ends),
      cprintf "Kernel executable memory footprint: %dKB\n" [.word (size % WORD).toNat]], 0)

def func (sym : Symbols) : Nat → Trace × Int
  | 0 => monHelp rd bound
  | _ => monKerninfo rd bound sym

def finishCmd (sym : Symbols) : JosRuncmd.Outcome → Trace × Int
  | .nothing => (Trace.done, 0)
  | .tooMany text => (text, 0)
  | .runs i => func rd bound sym i
  | .unknown text => (text, 0)

end Commands

def roundsRest (rd : Nat → Option UInt8) (bound : Nat) (echoing : Int) :
    Line → List Int → Except JosReadline.Fault (JosReadline.Outcome × List Int)
  | s, [] => .ok (.waits s, [])
  | s, c :: input => do
    match ← round rd bound echoing c s with
    | .waits s => roundsRest rd bound echoing s input
    | .null s => .ok (.null s, input)
    | .returns s => .ok (.returns s, input)

def readlineRest (rd : Nat → Option UInt8) (bound : Nat) (prompt : Arg) (buf : Nat → UInt8) (input : List Int) :
    Except JosReadline.Fault (JosReadline.Outcome × List Int) := do
  let out ← printPrompt rd bound prompt
  roundsRest rd bound (iscons 0) ⟨0, buf, out⟩ input

/-- The kernel's memory, and the characters given to cputchar. -/
structure Console where
  mem : Mem
  out : List Int

inductive Round where
  | waits (k : Console)
  | again (k : Console) (rest : List Int)
  | leaves (k : Console)

/-- Where the static buffer of readline lies, what is on the stack where runcmd has argv, and a bound
    on the characters of a string and the rounds of a loop over the line. -/
structure Place where
  buf : Nat
  argv : Console → Nat → Nat
  sym : Symbols
  bound : Nat
  placed : 0 < buf ∧ buf + BUFLEN ≤ WORD
  enough : BUFLEN < bound

def withBuffer (mem : Mem) (a : Nat) (buf : Nat → UInt8) : Mem :=
  fun x => if a ≤ x ∧ x < a + BUFLEN then buf (x - a) else mem x

section Loop
variable (w : Place)

def runLine (k : Console) (rest : List Int) : Except Fault Round := do
  let (parsed, o) ← (runcmd w.bound k.mem (w.argv k) w.buf).mapError .runcmd
  let answer := finishCmd (fun x => some (parsed.mem x)) w.bound w.sym o
  match answer.1.stop with
  | some e => .error (.print e)
  | none =>
    let k := ⟨parsed.mem, k.out ++ putches answer.1⟩
    if answer.2 < 0 then .ok (.leaves k) else .ok (.again k rest)

def monitorRound (k : Console) (input : List Int) : Except Fault Round := do
  let (outcome, rest) ← (readlineRest (fun x => some (k.mem x)) w.bound (.const (chars "K> "))
    (fun i => k.mem (w.buf + i)) input).mapError .readline
  match outcome with
  | .waits s => .ok (.waits ⟨withBuffer k.mem w.buf s.buf, k.out ++ s.out⟩)
  | .null s => .ok (.again ⟨withBuffer k.mem w.buf s.buf, k.out ++ s.out⟩ rest)
  | .returns s => runLine w ⟨withBuffer k.mem w.buf s.buf, k.out ++ s.out⟩ rest

def monitorLoop : Nat → Console → List Int → Except Fault Round
  | 0, k, input => .ok (.again k input)
  | fuel + 1, k, input => do
    match ← monitorRound w k input with
    | .again k rest => monitorLoop fuel k rest
    | done => .ok done

def frameIfAny (rd : Nat → Option UInt8) : Option Shown → Trace
  | none => Trace.done
  | some f => printTrapframe rd w.bound f

def monitor (fuel : Nat) (mem : Mem) (tf : Option Shown) (input : List Int) : Except Fault Round := do
  let rd : Nat → Option UInt8 := fun x => some (mem x)
  let text := traces
    [cprintf rd w.bound "Welcome to the JOS kernel monitor!\n" [],
      cprintf rd w.bound "Type 'help' for a list of commands.\n" [],
      frameIfAny w rd tf]
  match text.stop with
  | some e => .error (.print e)
  | none => monitorLoop w fuel ⟨mem, putches text⟩ input

end Loop

/- What a session at the monitor looks like. -/

def lineOf (cs : List UInt8) : List UInt8 := cs.foldl edit' []

def helpText : List Int := shown (chars
  "help - Display this list of commands\nkerninfo - Display information about the kernel\n")

def virtLine (name : String) (v : UInt32) : List Int :=
  hexLine name 8 v.toNat " (virt)  " ++ hexLine "" 8 (v - KERNBASE).toNat " (phys)\n"

def kerninfoText (sym : Symbols) : List Int := List.flatten
  [shown (chars "Special kernel symbols:\n"), hexLine "  _start                  " 8 sym.start.toNat " (phys)\n",
    virtLine "  entry  " sym.entry, virtLine "  etext  " sym.etext, virtLine "  edata  " sym.edata,
    virtLine "  end    " sym.ends,
    shown (chars "Kernel executable memory footprint: ") ++
      (digitsOf 10 (((sym.ends - sym.entry).toNat + 1023) / 1024) ++ shown (chars "KB\n"))]

def response (sym : Symbols) (line : List UInt8) : List Int :=
  if 15 < (runsFrom 0 line).length then shown (chars "Too many arguments (max 16)\n")
  else
    match runsFrom 0 line with
    | [] => []
    | (_, word) :: _ =>
      if word = chars "help" then helpText
      else if word = chars "kerninfo" then kerninfoText sym
      else shown (chars "Unknown command '") ++ (word.map signed ++ shown (chars "'\n"))

/-- All that shows at the console after the prompt, for the rest of the input and the characters cs
    that the current line has had. -/
def transcript (sym : Symbols) : (cs input : List UInt8) → List Int
  | cs, [] => echoes edit' echoed' [] cs
  | cs, c :: input =>
    if ends c then
      echoes edit' echoed' [] cs ++ ([0x0a] ++ (response sym (lineOf cs) ++ (shown (chars "K> ") ++
        transcript sym [] input)))
    else transcript sym (cs ++ [c]) input

section Reading
variable {rd : Nat → Option UInt8} {bound : Nat} {s : Line} {line : List UInt8}

theorem roundsRest_rounds (echoing : Int) (input : List Int) (s : Line) :
    (roundsRest rd bound echoing s input).map Prod.fst = rounds rd bound echoing s input := by
  induction input generalizing s with
  | nil => rfl
  | cons c input ih =>
    unfold roundsRest rounds
    cases step : round rd bound echoing c s with
    | error e => rfl
    | ok o =>
      rw [ok_bind, ok_bind]
      cases o with
      | waits s => exact ih s
      | null s => rfl
      | returns s => rfl

theorem roundsRest_edit (holds : Holds s line) (cs : List UInt8) (goes_on : ∀ c ∈ cs, ¬ ends c)
    (input : List Int) : ∃ s', Holds s' (cs.foldl edit' line) ∧
      s'.out = s.out ++ echoes edit' echoed' line cs ∧
      roundsRest rd bound (iscons 0) s (typed cs ++ input) = roundsRest rd bound (iscons 0) s' input := by
  induction cs generalizing s line with
  | nil => exact ⟨s, holds, (List.append_nil _).symm, rfl⟩
  | cons c cs ih =>
    obtain ⟨s1, step, holds1, shown⟩ : ∃ s1, round rd bound (iscons 0) c.toNat s = .ok (.waits s1) ∧ _ :=
      round_edits holds (goes_on c List.mem_cons_self)
    obtain ⟨s', holds', out, run⟩ := ih holds1 fun x listed => goes_on x (List.mem_cons_of_mem c listed)
    refine ⟨s', holds', ?_, ?_⟩
    · rw [out, shown, List.append_assoc, echoes]
    · rw [← run]
      change roundsRest rd bound (iscons 0) s ((c.toNat : Int) :: (typed cs ++ input)) = _
      rw [roundsRest, step, ok_bind]

theorem prompt_printed (rd : Nat → Option UInt8) (enough : BUFLEN < bound) :
    printPrompt rd bound (.const (chars "K> ")) = .ok (shown (chars "K> ")) := by
  have fine : ∀ p ∈ [name "K> "], p.Fine rd bound := by
    simp only [List.forall_mem_cons]
    exact ⟨name_fine (by decide) (by decide) (by simp only [BUFLEN] at enough; omega), by simp⟩
  have prints : Prints (vprintfmt rd bound (chars "%s") (argList [.const (chars "K> ")] fun _ => .word 0)) _ :=
    cprintf_pieces (fun _ => .word 0) [name "K> "] (by decide) rfl fine
  have text : [name "K> "].flatMap Piece.output = shown (chars "K> ") := by decide
  rw [text] at prints
  unfold printPrompt
  rw [if_pos (by simp)]
  exact prints_printed _ prints

theorem lineOf_chars (cs : List UInt8) : ∀ c ∈ lineOf cs, ' '.toNat ≤ c.toNat := by
  unfold lineOf
  induction cs using List.reverseRecOn with
  | nil => simp
  | append_singleton cs c ih =>
    rw [List.foldl_append]
    simp only [List.foldl_cons, List.foldl_nil]
    generalize cs.foldl edit' [] = line at ih
    unfold edit'
    split
    · exact fun x listed => ih x (List.mem_of_mem_dropLast listed)
    · split
      · rename_i text
        intro x listed
        rcases List.mem_append.mp listed with before | last
        · exact ih x before
        · rw [List.mem_singleton.mp last]
          exact text.1
      · exact ih

theorem withBuffer_text {a : Nat} (mem : Mem) (holds : JosReadline.Holds s line) (nul : s.buf line.length = 0)
    (chars_only : ∀ c ∈ line, ' '.toNat ≤ c.toNat) (placed : a + BUFLEN ≤ WORD) :
    Text (withBuffer mem a s.buf) a line := by
  have room := holds.room
  have inside : ∀ k, k ≤ line.length → withBuffer mem a s.buf (a + k) = s.buf k := by
    intro k fits
    unfold withBuffer
    rw [if_pos ⟨Nat.le_add_right a k, by simp only [BUFLEN] at room ⊢; omega⟩, Nat.add_sub_cancel_left]
  have held : ∀ (rest : List UInt8) (n : Nat), n + rest.length = line.length → line.drop n = rest →
      JosStrtol.Holds (withBuffer mem a s.buf) (a + n) (rest ++ [0]) := by
    intro rest
    induction rest with
    | nil =>
      intro n total _
      obtain rfl : n = line.length := total
      refine ⟨?_, trivial⟩
      rw [inside _ (Nat.le_refl _)]
      exact nul
    | cons c rest ih =>
      intro n total part
      have here : n < line.length := by
        rw [List.length_cons] at total
        omega
      rw [List.drop_eq_getElem_cons here] at part
      obtain ⟨rfl, rfl⟩ := List.cons.inj part
      refine ⟨?_, ih (n + 1) ?_ rfl⟩
      · rw [inside n (Nat.le_of_lt here), holds.chars n here, List.getD_eq_getElem _ _ here]
      · rw [List.length_cons] at total
        omega
  refine ⟨held line 0 (Nat.zero_add _) rfl, ?_, ?_⟩
  · intro c listed zero
    have low := chars_only c listed
    rw [zero] at low
    exact absurd low (by decide)
  · simp only [BUFLEN] at room placed
    omega

end Reading

section Answers
variable {rd : Nat → Option UInt8} {bound : Nat}

theorem monHelp_prints (enough : 40 ≤ bound) : Prints (monHelp rd bound).1 helpText := by
  have line : ∀ a b : String,
      (∀ s ∈ [a, b], (chars s).length < 40 ∧ ∀ c ∈ chars s, c ≠ 0 ∧ c.toNat < 128) →
      Prints (cprintf rd bound "%s - %s\n" [.const (chars a), .const (chars b)])
        (shown (chars a ++ (chars " - " ++ (chars b ++ chars "\n")))) := by
    intro a b known
    obtain ⟨a_short, a_text⟩ := known a List.mem_cons_self
    obtain ⟨b_short, b_text⟩ := known b (by simp)
    have fine : ∀ p ∈ [name a, literal " - ", name b, literal "\n"], p.Fine rd bound := by
      simp only [List.forall_mem_cons]
      exact ⟨name_fine a_short (fun c listed => (a_text c listed).1) enough, literal_fine (by decide),
        name_fine b_short (fun c listed => (b_text c listed).1) enough, literal_fine (by decide), by simp⟩
    have format : chars "%s - %s\n" = [name a, literal " - ", name b, literal "\n"].flatMap Piece.format := by
      simp only [List.flatMap_cons, List.flatMap_nil, literal, name, Piece.format]
      decide
    have prints : Prints (cprintf rd bound "%s - %s\n" [.const (chars a), .const (chars b)]) _ :=
      cprintf_pieces (fun _ => .word 0) _ format rfl fine
    simpa [Piece.output, literal, name, ascii_signed fun c listed => (a_text c listed).2,
      ascii_signed fun c listed => (b_text c listed).2, shown] using prints
  have both : helpText = [shown (chars "help" ++ (chars " - " ++ (chars "Display this list of commands" ++
      chars "\n"))), shown (chars "kerninfo" ++ (chars " - " ++ (chars "Display information about the kernel" ++
      chars "\n")))].flatten := by decide
  rw [both]
  apply traces_prints
  exact .cons (line _ _ (by decide)) (.cons (line _ _ (by decide)) .nil)

theorem virt_prints {fmt before : String} (v : UInt32) (before_plain : plain before)
    (split : chars fmt = chars before ++ (byte '%' :: byte '0' :: digitByte 8 :: byte 'x' ::
      (chars " (virt)  " ++ (byte '%' :: byte '0' :: digitByte 8 :: byte 'x' :: chars " (phys)\n")))) :
    Prints (cprintf rd bound fmt [.word v.toNat, .word (v - KERNBASE).toNat])
      (virtLine before v) := by
  have eight : Width.chars (.digits 8 (by decide) (by decide)) = [digitByte 8] := hexWidth_chars _ (by decide) _
  have fine : ∀ p ∈ [literal before, .number .zero (.digits 8 (by decide) (by decide)) .x v.toNat,
      literal " (virt)  ", .number .zero (.digits 8 (by decide) (by decide)) .x (v - KERNBASE).toNat,
      literal " (phys)\n"], p.Fine rd bound := by
    simp only [List.forall_mem_cons]
    exact ⟨literal_fine before_plain, by simp [Piece.Fine], literal_fine (by decide),
      by simp [Piece.Fine], literal_fine (by decide), by simp⟩
  have format : chars fmt = [literal before, .number .zero (.digits 8 (by decide) (by decide)) .x v.toNat,
      literal " (virt)  ", .number .zero (.digits 8 (by decide) (by decide)) .x (v - KERNBASE).toNat,
      literal " (phys)\n"].flatMap Piece.format := by
    simp only [List.flatMap_cons, List.flatMap_nil, literal, Piece.format, Field.format, eight, split,
      List.append_nil]
    rfl
  have prints : Prints (cprintf rd bound fmt [.word v.toNat, .word (v - KERNBASE).toNat]) _ :=
    cprintf_pieces (fun _ => .word 0) _ format rfl fine
  have empty : shown (chars "") = [] := by decide
  simp only [List.flatMap_cons, List.flatMap_nil, hex_output _ _ v.toNat_lt,
    hex_output _ _ (v - KERNBASE).toNat_lt] at prints
  unfold virtLine hexLine
  rw [empty]
  simpa [Piece.output, literal] using prints

theorem decimalText_small {n : Nat} (small : n < 2147483648) : decimalText n = digitsOf 10 n := by
  have value : asInt (.word n) = (n : Int) :=
    wrap_small (show -2147483648 ≤ (n : Int) by omega) (show (n : Int) < 2147483648 by omega)
  unfold decimalText
  dsimp only
  rw [value, unsigned_sign n, Int.natAbs_natCast]
  rfl

theorem footprint (sym : Symbols) : (asInt (.word (ROUNDUP (sym.ends - sym.entry) 1024).toNat)).tdiv 1024 =
    (((sym.ends - sym.entry).toNat + 1023) / 1024 : Nat) := by
  have size := sym.size
  generalize sym.ends - sym.entry = d at size
  have up : (d + 1024 - 1).toNat = d.toNat + 1023 := by
    rw [UInt32.toNat_sub, UInt32.toNat_add]
    change (4294967296 - 1 + (d.toNat + 1024) % 4294967296) % 4294967296 = _
    omega
  have down : (ROUNDUP d 1024).toNat = (d.toNat + 1023) / 1024 * 1024 := by
    have part : (d + 1024 - 1) % 1024 ≤ d + 1024 - 1 := by
      rw [UInt32.le_iff_toNat_le, UInt32.toNat_mod]
      exact Nat.mod_le _ _
    unfold ROUNDUP ROUNDDOWN
    rw [UInt32.toNat_sub_of_le _ _ part, UInt32.toNat_mod, up]
    change d.toNat + 1023 - (d.toNat + 1023) % 1024 = _
    omega
  unfold asInt
  dsimp only
  rw [down, wrap_small (by omega) (by omega), Int.tdiv_eq_ediv_of_nonneg (by omega)]
  omega

theorem monKerninfo_prints (sym : Symbols) : Prints (monKerninfo rd bound sym).1 (kerninfoText sym) := by
  have size := sym.size
  have last : Prints (cprintf rd bound "Kernel executable memory footprint: %dKB\n"
      [.word ((((sym.ends - sym.entry).toNat + 1023) / 1024 : Nat) % (WORD : Int)).toNat])
      (shown (chars "Kernel executable memory footprint: ") ++
        (digitsOf 10 (((sym.ends - sym.entry).toNat + 1023) / 1024) ++ shown (chars "KB\n"))) := by
    obtain ⟨n, kilobytes⟩ : ∃ n, n = ((sym.ends - sym.entry).toNat + 1023) / 1024 := ⟨_, rfl⟩
    have small : n < 2147483648 := by omega
    have word : ((n : Int) % (WORD : Int)).toNat = n := by
      rw [Int.emod_eq_of_lt (by omega) (by simp only [WORD]; omega), Int.toNat_natCast]
    have fine : ∀ p ∈ [literal "Kernel executable memory footprint: ", .number .none .absent .d n,
        literal "KB\n"], p.Fine rd bound := by
      simp only [List.forall_mem_cons]
      exact ⟨literal_fine (by decide), by simp [Piece.Fine], literal_fine (by decide), by simp⟩
    have format : chars "Kernel executable memory footprint: %dKB\n" =
        [literal "Kernel executable memory footprint: ", .number .none .absent .d n,
          literal "KB\n"].flatMap Piece.format := by
      simp only [List.flatMap_cons, List.flatMap_nil, literal, Piece.format]
      decide
    have prints : Prints (cprintf rd bound "Kernel executable memory footprint: %dKB\n"
      [.word n]) _ := cprintf_pieces (fun _ => .word 0) _ format rfl fine
    simp only [List.flatMap_cons, List.flatMap_nil, decimalText_output, decimalText_small small] at prints
    rw [← kilobytes, word]
    simpa [Piece.output, literal] using prints
  have info : (monKerninfo rd bound sym).1 = traces _ := rfl
  rw [info, footprint sym]
  apply traces_prints
  refine .cons (bare_prints (by decide)) <| .cons ?_ <| .cons (virt_prints _ (by decide) ?_) <|
    .cons (virt_prints _ (by decide) ?_) <| .cons (virt_prints _ (by decide) ?_) <|
    .cons (virt_prints _ (by decide) ?_) <| .cons last .nil
  · exact hex_prints (by decide) (by decide) sym.start.toNat_lt (by decide) (by decide)
      (by decide)
  all_goals decide

end Answers

section Commands
variable {mem : Mem} {a p bound : Nat} {line run : List UInt8}

theorem string_word (holds : JosStrtol.Holds mem p (run ++ [0])) (nonzero : ∀ c ∈ run, c ≠ 0)
    (space : p + run.length < WORD) : StringAt (fun x => some (mem x)) (.word p) run := by
  induction run generalizing p with
  | nil =>
    have here : mem p = 0 := holds.1
    exact .nul (congrArg Prod.fst (load_char (congrArg some here) space))
  | cons c run ih =>
    rw [List.length_cons] at space
    have here : mem p = c := holds.1
    have next : (p + 1) % WORD = p + 1 := Nat.mod_eq_of_lt (by omega)
    refine .char (congrArg Prod.fst (load_char (congrArg some here) (by omega))) (nonzero c List.mem_cons_self) ?_
    unfold JosPrintfmt.next
    dsimp only
    rw [next]
    exact ih holds.2 (fun x listed => nonzero x (List.mem_cons_of_mem c listed)) (by omega)

theorem unknown_prints (holds : JosStrtol.Holds mem p (run ++ [0])) (nonzero : ∀ c ∈ run, c ≠ 0)
    (space : p + run.length < WORD) (nonnull : 0 < p) (short : run.length < BUFLEN) (enough : BUFLEN < bound) :
    Prints (cprintf (fun a => some (mem a)) bound "Unknown command '%s'\n" [.word p])
      (shown (chars "Unknown command '") ++ (run.map signed ++ shown (chars "'\n"))) := by
  have string : Piece.Fine (fun x => some (mem x)) bound (.string (.word p) run) := by
    simp only [BUFLEN] at short enough
    refine ⟨fun null => ?_, string_word holds nonzero space, by omega, by omega⟩
    cases null
    exact Nat.lt_irrefl 0 nonnull
  have fine : ∀ q ∈ [literal "Unknown command '", .string (.word p) run, literal "'\n"],
      q.Fine (fun x => some (mem x)) bound := by
    simp only [List.forall_mem_cons]
    exact ⟨literal_fine (by decide), string, literal_fine (by decide), by simp⟩
  have format : chars "Unknown command '%s'\n" =
      [literal "Unknown command '", .string (.word p) run, literal "'\n"].flatMap Piece.format := by
    simp only [List.flatMap_cons, List.flatMap_nil, literal, Piece.format]
    decide
  have prints : Prints (cprintf (fun a => some (mem a)) bound "Unknown command '%s'\n" [.word p]) _ :=
    cprintf_pieces (fun _ => .word 0) _ format rfl fine
  simpa [Piece.output, literal] using prints

theorem run_short (i : Nat) (line : List UInt8) : ∀ p run, (p, run) ∈ runsFrom i line →
    run.length ≤ line.length := by
  induction i, line using runsFrom.induct with
  | case1 i line blank =>
    intro p run listed
    rw [runsFrom_none blank] at listed
    cases listed
  | case2 i line c rest split start run ih =>
    intro p word listed
    have shorter := (List.dropWhile_suffix (l := line) white).length_le
    rw [split, List.length_cons] at shorter
    rw [runsFrom_some split] at listed
    rcases List.mem_cons.mp listed with first | later
    · obtain ⟨_, rfl⟩ := Prod.mk.inj first
      have taken := (List.takeWhile_prefix (l := rest) (! white ·)).length_le
      rw [List.length_cons]
      omega
    · have dropped := (List.dropWhile_suffix (l := rest) (! white ·)).length_le
      have inner := ih p word later
      omega

theorem commands_find (run : List UInt8) : commands.findIdx? (fun name => chars name = run) =
    if run = chars "help" then some 0 else if run = chars "kerninfo" then some 1 else none := by
  have differ : ¬ chars "help" = chars "kerninfo" := by decide
  by_cases help : run = chars "help"
  · rw [if_pos help, help]
    decide
  · rw [if_neg help]
    by_cases kerninfo : run = chars "kerninfo"
    · rw [if_pos kerninfo, kerninfo]
      decide
    · rw [if_neg kerninfo]
      simp [commands, List.findIdx?_cons, Ne.symm help, Ne.symm kerninfo]

theorem commands_find_none {run : List UInt8}
    (missing : commands.findIdx? (fun name => chars name = run) = none) :
    run ≠ chars "help" ∧ run ≠ chars "kerninfo" := by
  rw [commands_find] at missing
  have not_help : run ≠ chars "help" := by
    intro help
    rw [if_pos help] at missing
    cases missing
  refine ⟨not_help, ?_⟩
  intro kerninfo
  rw [if_neg not_help, if_pos kerninfo] at missing
  cases missing

theorem lookup_unknown {s : Parse} {t : Trace} (some_arg : s.argc ≠ 0)
    (found : lookup bound s = .unknown t) :
    t = cprintf (fun a => some (s.mem a)) bound "Unknown command '%s'\n" [.word (s.argv 0)] := by
  unfold lookup at found
  rw [if_neg some_arg] at found
  split at found
  · cases found
  · exact (JosRuncmd.Outcome.unknown.inj found).symm

theorem lookup_answers (sym : Symbols) {s : Parse} (tokens : Tokenised mem a line s) (text : Text mem a line)
    (whole : s.mem = blanked mem a line.length) (few : ¬ 15 < (runsFrom 0 line).length) (nonnull : 0 < a)
    (short : line.length < BUFLEN) (enough : BUFLEN < bound) :
    Prints (finishCmd (fun x => some (s.mem x)) bound sym (lookup bound s)).1 (response sym line) ∧
      (finishCmd (fun x => some (s.mem x)) bound sym (lookup bound s)).2 = 0 := by
  have forty : 40 ≤ bound := by
    simp only [BUFLEN] at enough
    omega
  have dispatches := lookup_dispatches bound tokens text whole
  unfold response
  rw [if_neg few]
  cases words : runsFrom 0 line with
  | nil =>
    rw [words] at dispatches
    have none_left : lookup bound s = .nothing := by
      unfold lookup
      rw [if_pos (by rw [tokens.argc, words, List.length_nil])]
    rw [none_left]
    exact ⟨⟨rfl, rfl⟩, rfl⟩
  | cons w rest =>
    obtain ⟨start, run⟩ := w
    have listed : (start, run) ∈ runsFrom 0 line := by
      rw [words]
      exact List.mem_cons_self
    obtain ⟨holds, nonzero, space⟩ := runs_hold 0 line text start run listed
    rw [Nat.zero_add, ← whole] at holds
    have place := (tokens.args 0 start run (by rw [words]; rfl)).1
    rw [words] at dispatches
    dsimp only
    cases found : lookup bound s with
    | nothing =>
      rw [found] at dispatches
      cases dispatches
    | tooMany t =>
      rw [found] at dispatches
      cases dispatches
    | runs i =>
      rw [found] at dispatches
      obtain ⟨w, first, at_i⟩ := dispatches
      cases first
      rw [commands_find] at at_i
      by_cases help : run = chars "help"
      · rw [if_pos help] at at_i ⊢
        cases at_i
        exact ⟨monHelp_prints forty, rfl⟩
      rw [if_neg help] at at_i ⊢
      by_cases kerninfo : run = chars "kerninfo"
      · rw [if_pos kerninfo] at at_i ⊢
        cases at_i
        exact ⟨monKerninfo_prints sym, rfl⟩
      · rw [if_neg kerninfo] at at_i
        cases at_i
    | unknown t =>
      have some_arg : s.argc ≠ 0 := by
        rw [tokens.argc, words, List.length_cons]
        omega
      obtain rfl := lookup_unknown some_arg found
      rw [found] at dispatches
      obtain ⟨w, first, missing⟩ := dispatches
      cases first
      obtain ⟨not_help, not_kerninfo⟩ := commands_find_none missing
      have part := run_short 0 line start run listed
      rw [if_neg not_help, if_neg not_kerninfo, place]
      exact ⟨unknown_prints holds nonzero space (by omega) (by omega) enough, rfl⟩

theorem runcmd_answers (sym : Symbols) (text : Text mem a line) (nonnull : 0 < a) (short : line.length < BUFLEN)
    (enough : BUFLEN < bound) (argv : Nat → Nat) : ∃ s o, runcmd bound mem argv a = .ok (s, o) ∧
      Prints (finishCmd (fun x => some (s.mem x)) bound sym o).1 (response sym line) ∧
      (finishCmd (fun x => some (s.mem x)) bound sym o).2 = 0 ∧
      ∀ x, x < a ∨ a + line.length ≤ x → s.mem x = mem x := by
  have cleared : setArgv argv 0 0 = .ok (Function.update argv 0 0) := if_pos (by decide)
  have start : Text mem (a + 0) line := text
  obtain ⟨fits, beyond⟩ := parse_runs 0 line bound 0 (Function.update argv 0 0) start (by omega) (by decide)
  rw [blanked_none, Nat.add_zero, Nat.zero_add, Nat.zero_add] at fits beyond
  by_cases many : 15 < (runsFrom 0 line).length
  · obtain ⟨s, m, run, whole, few⟩ := beyond many
    refine ⟨s, .tooMany (cprintf (fun a => some (s.mem a)) bound "Too many arguments (max %d)\n" [.word MAXARGS]),
      ?_, ?_, rfl, fun x outside => ?_⟩
    · unfold runcmd
      rw [cleared, ok_bind, run, ok_bind]
      rfl
    · unfold response
      rw [if_pos many]
      exact prints_tooMany s.mem bound
    · rw [whole]
      exact blanked_outside mem few outside
  · obtain ⟨argv', run, _, points⟩ := fits (by omega)
    have stored : setArgv argv' (runsFrom 0 line).length 0 =
        .ok (Function.update argv' (runsFrom 0 line).length 0) := if_pos (by simp only [MAXARGS]; omega)
    have tokens : Tokenised mem a line ⟨blanked mem a line.length, a + line.length, (runsFrom 0 line).length,
        Function.update argv' (runsFrom 0 line).length 0⟩ := by
      refine ⟨rfl, ?_, Function.update_self _ _ _, fun x outside => blanked_outside mem (Nat.le_refl _) outside⟩
      intro j p word found
      have inside : j < (runsFrom 0 line).length := (List.getElem?_eq_some_iff.mp found).1
      have place := points j p word found
      obtain ⟨holds, _, _⟩ := runs_hold 0 line text p word (List.mem_of_getElem? found)
      rw [Nat.zero_add] at place holds
      dsimp only
      rw [Function.update_of_ne (Nat.ne_of_lt inside), place]
      exact ⟨rfl, holds⟩
    obtain ⟨prints, zero⟩ := lookup_answers sym tokens text rfl many nonnull short enough
    refine ⟨_, _, ?_, prints, zero, tokens.outside⟩
    unfold runcmd
    rw [cleared, ok_bind, run, ok_bind]
    dsimp only
    rw [if_neg (by decide), stored, ok_bind]

end Commands

section Session
variable (w : Place)

theorem readlineRest_starts (k : Console) (cs : List UInt8) (goes_on : ∀ c ∈ cs, ¬ ends c) (input : List Int) :
    ∃ s, JosReadline.Holds s (lineOf cs) ∧ s.out = shown (chars "K> ") ++ echoes edit' echoed' [] cs ∧
      readlineRest (fun x => some (k.mem x)) w.bound (.const (chars "K> ")) (fun i => k.mem (w.buf + i))
        (typed cs ++ input) = roundsRest (fun x => some (k.mem x)) w.bound (iscons 0) s input := by
  have start : JosReadline.Holds ⟨0, fun i => k.mem (w.buf + i), shown (chars "K> ")⟩ [] := by
    refine ⟨rfl, by decide, ?_⟩
    intro j inside
    cases inside
  obtain ⟨s, holds, out, run⟩ := roundsRest_edit start cs goes_on input
  refine ⟨s, holds, out, ?_⟩
  unfold readlineRest
  rw [prompt_printed _ w.enough, ok_bind]
  exact run

theorem monitorRound_waits (k : Console) (cs : List UInt8) (goes_on : ∀ c ∈ cs, ¬ ends c) :
    ∃ k', monitorRound w k (typed cs) = .ok (.waits k') ∧
      k'.out = k.out ++ (shown (chars "K> ") ++ echoes edit' echoed' [] cs) ∧
      ∀ x, x < w.buf ∨ w.buf + BUFLEN ≤ x → k'.mem x = k.mem x := by
  obtain ⟨s, _, out, run⟩ := readlineRest_starts w k cs goes_on []
  rw [List.append_nil] at run
  refine ⟨⟨withBuffer k.mem w.buf s.buf, k.out ++ s.out⟩, ?_, congrArg (k.out ++ ·) out, ?_⟩
  · unfold monitorRound
    rw [run]
    rfl
  · intro x outside
    exact if_neg (by omega)

theorem monitorRound_answers (k : Console) (cs : List UInt8) (goes_on : ∀ c ∈ cs, ¬ ends c) {c : UInt8}
    (last : ends c) (input : List UInt8) :
    ∃ k', monitorRound w k (typed (cs ++ c :: input)) = .ok (.again k' (typed input)) ∧
      k'.out = k.out ++ (shown (chars "K> ") ++ (echoes edit' echoed' [] cs ++
        ([0x0a] ++ response w.sym (lineOf cs)))) ∧
      ∀ x, x < w.buf ∨ w.buf + BUFLEN ≤ x → k'.mem x = k.mem x := by
  obtain ⟨s, holds, out, run⟩ := readlineRest_starts w k cs goes_on ((c.toNat : Int) :: typed input)
  obtain ⟨s', step, holds', nul, shows⟩ : ∃ s', round (fun x => some (k.mem x)) w.bound (iscons 0) c.toNat s =
      .ok (.returns s') ∧ _ := round_ends holds last
  have split : typed (cs ++ c :: input) = typed cs ++ ((c.toNat : Int) :: typed input) := by
    unfold typed
    rw [List.map_append, List.map_cons]
  rw [roundsRest, step, ok_bind] at run
  have room := holds'.room
  have text := withBuffer_text k.mem holds' nul (lineOf_chars cs) w.placed.2
  obtain ⟨parsed, o, ran, prints, zero, outside⟩ := runcmd_answers w.sym text w.placed.1
    (by simp only [BUFLEN] at room ⊢; omega) w.enough
    (w.argv ⟨withBuffer k.mem w.buf s'.buf, k.out ++ s'.out⟩)
  refine ⟨⟨parsed.mem, k.out ++ s'.out ++ response w.sym (lineOf cs)⟩, ?_, ?_, ?_⟩
  · have returned : monitorRound w k (typed (cs ++ c :: input)) =
        runLine w ⟨withBuffer k.mem w.buf s'.buf, k.out ++ s'.out⟩ (typed input) := by
      unfold monitorRound
      rw [split, run]
      rfl
    rw [returned]
    unfold runLine
    rw [ran]
    simp only [Except.mapError, ok_bind, prints.ended, prints.chars, zero]
    rfl
  · rw [shows, out]
    simp only [List.append_assoc]
  · intro x away
    have beyond : x < w.buf ∨ w.buf + (lineOf cs).length ≤ x := by
      simp only [BUFLEN] at room away
      omega
    dsimp only
    rw [outside x beyond]
    exact if_neg (by omega)

theorem monitorLoop_transcript (input : List UInt8) : ∀ (cs : List UInt8) (fuel : Nat) (k : Console),
    (∀ c ∈ cs, ¬ ends c) → input.length < fuel →
    ∃ k', monitorLoop w fuel k (typed (cs ++ input)) = .ok (.waits k') ∧
      k'.out = k.out ++ (shown (chars "K> ") ++ transcript w.sym cs input) ∧
      ∀ x, x < w.buf ∨ w.buf + BUFLEN ≤ x → k'.mem x = k.mem x := by
  induction input with
  | nil =>
    intro cs fuel k goes_on enough
    obtain ⟨f, rfl⟩ : ∃ f, fuel = f + 1 := ⟨fuel - 1, by omega⟩
    obtain ⟨k', run, out, kept⟩ := monitorRound_waits w k cs goes_on
    refine ⟨k', ?_, out, kept⟩
    unfold monitorLoop
    rw [List.append_nil, run, ok_bind]
  | cons c input ih =>
    intro cs fuel k goes_on enough
    rw [List.length_cons] at enough
    unfold transcript
    by_cases last : ends c
    · obtain ⟨f, rfl⟩ : ∃ f, fuel = f + 1 := ⟨fuel - 1, by omega⟩
      obtain ⟨k1, run1, out1, kept1⟩ := monitorRound_answers w k cs goes_on last input
      obtain ⟨k', run, out, kept⟩ := ih [] f k1 (fun _ none => by cases none) (by omega)
      rw [if_pos last]
      refine ⟨k', ?_, ?_, fun x outside => (kept x outside).trans (kept1 x outside)⟩
      · unfold monitorLoop
        rw [run1, ok_bind]
        exact run
      · rw [out, out1]
        simp only [List.append_assoc]
    · have more : cs ++ c :: input = (cs ++ [c]) ++ input := by simp
      have goes_on' : ∀ x ∈ cs ++ [c], ¬ ends x := by
        intro x listed
        rcases List.mem_append.mp listed with before | here
        · exact goes_on x before
        · rw [List.mem_singleton.mp here]
          exact last
      rw [if_neg last, more]
      exact ih (cs ++ [c]) fuel k goes_on' (by omega)

theorem transcript_typed {sym : Symbols} (cs : List UInt8) {more : List UInt8} (rest : List UInt8)
    (goes_on : ∀ c ∈ more, ¬ ends c) :
    transcript sym cs (more ++ rest) = transcript sym (cs ++ more) rest := by
  induction more generalizing cs with
  | nil => rw [List.nil_append, List.append_nil]
  | cons c more ih =>
    rw [List.cons_append, transcript, if_neg (goes_on c List.mem_cons_self),
      ih (cs ++ [c]) fun x listed => goes_on x (List.mem_cons_of_mem c listed), List.append_assoc]
    rfl

/-- Whatever is typed, the monitor shows its welcome and the frame, answers every line in turn, and
    then waits for more; it never leaves its loop, and writes only to the buffer of readline. -/
theorem monitor_session (mem : Mem) (tf : Option Shown) (input : List UInt8) {fuel : Nat}
    (enough : input.length < fuel) : ∃ k, monitor w fuel mem tf (typed input) = .ok (.waits k) ∧
      k.out = shown (chars "Welcome to the JOS kernel monitor!\nType 'help' for a list of commands.\n") ++
        (tf.elim [] frameText ++ (shown (chars "K> ") ++ transcript w.sym [] input)) ∧
      ∀ x, x < w.buf ∨ w.buf + BUFLEN ≤ x → k.mem x = mem x := by
  have forty : 40 ≤ w.bound := by
    have large := w.enough
    simp only [BUFLEN] at large
    omega
  have frame : Prints (frameIfAny w (fun x => some (mem x)) tf) (tf.elim [] frameText) := by
    cases tf with
    | none => exact ⟨rfl, rfl⟩
    | some f => exact printTrapframe_prints f forty
  have line : ∀ text, plain text →
      Prints (cprintf (fun x => some (mem x)) w.bound text []) (shown (chars text)) :=
    fun text no_directive => bare_prints no_directive
  have welcome := traces_prints (.cons (line "Welcome to the JOS kernel monitor!\n" (by decide)) <|
    .cons (line "Type 'help' for a list of commands.\n" (by decide)) <| .cons frame .nil)
  obtain ⟨k, run, out, kept⟩ := monitorLoop_transcript w input [] fuel ⟨mem, _⟩
    (fun _ none => by cases none) enough
  refine ⟨k, ?_, ?_, kept⟩
  · unfold monitor
    dsimp only
    rw [welcome.ended, welcome.chars]
    exact run
  · have joined : shown (chars "Welcome to the JOS kernel monitor!\nType 'help' for a list of commands.\n") =
        shown (chars "Welcome to the JOS kernel monitor!\n") ++
          shown (chars "Type 'help' for a list of commands.\n") := by decide
    rw [out, joined]
    simp only [List.flatten_cons, List.flatten_nil, List.append_nil, List.append_assoc]

def somePlace : Place where
  buf := 0xF011A300
  argv := fun _ _ => 7
  sym := ⟨0x10000C, 0xF010000C, 0xF0106000, 0xF0117300, 0xF011B000, by decide⟩
  bound := 2048
  placed := by decide
  enough := by decide

theorem monitor_session_help : ∃ k, monitor somePlace 9 (fun _ => 1) none (typed (chars "help\nk")) =
      .ok (.waits k) ∧
    k.out = shown (chars ("Welcome to the JOS kernel monitor!\nType 'help' for a list of commands.\nK> help\n" ++
      "help - Display this list of commands\nkerninfo - Display information about the kernel\nK> k")) := by
  have few : (chars "help\nk").length < 9 := by decide
  obtain ⟨k, run, out, _⟩ := monitor_session somePlace (fun _ => 1) none (chars "help\nk") few
  refine ⟨k, run, ?_⟩
  have words : runsFrom 0 (chars "help") = [(0, chars "help")] := by
    have first : (chars "help").dropWhile white = byte 'h' :: chars "elp" := by decide
    have last : ((chars "elp").dropWhile (! white ·)).dropWhile white = [] := by decide
    rw [runsFrom_some first, runsFrom_none last]
    decide
  have answer : ∀ sym, response sym (chars "help") = helpText := by
    intro sym
    unfold response
    rw [words]
    rfl
  have line : lineOf (chars "help") = chars "help" := by decide
  have input : chars "help\nk" = chars "help" ++ (0x0a :: (chars "k" ++ [])) := by decide
  have stops : ends 0x0a := by decide
  have typed_help : ∀ c ∈ chars "help", ¬ ends c := by decide
  have typed_k : ∀ c ∈ chars "k", ¬ ends c := by decide
  rewrite [out, input, transcript_typed _ _ typed_help, transcript, if_pos stops, List.nil_append, line, answer,
    transcript_typed _ _ typed_k, List.nil_append, transcript]
  decide +kernel

end Session

end JosMonitor
