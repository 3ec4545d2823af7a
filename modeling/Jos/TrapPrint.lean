import Jos.Machine
import Jos.PrintfPieces

/- print_regs and print_trapframe of kern/trap.c. -/
namespace JosTrapPrint
open JosLayout JosMachine JosPrintfmt JosPrintfChars JosPrintfFields JosPrintfStrings JosPrintfPieces

def traces (ts : List Trace) : Trace := ts.foldr Trace.andThen Trace.done

def excnames : List String :=
  ["Divide error", "Debug", "Non-Maskable Interrupt", "Breakpoint", "Overflow",
    "BOUND Range Exceeded", "Invalid Opcode", "Device Not Available", "Double Fault",
    "Coprocessor Segment Overrun", "Invalid TSS", "Segment Not Present", "Stack Fault",
    "General Protection", "Page Fault", "(unknown trap)", "x87 FPU Floating-Point Error",
    "Alignment Check", "Machine-Check", "SIMD Floating-Point Exception"]

/-- The comparison with ARRAY_SIZE is unsigned. -/
def trapname (trapno : UInt32) : String :=
  if trapno.toNat < excnames.length then excnames.getD trapno.toNat ""
  else if trapno = 48 then "System call"
  else "(unknown trap)"

/-- What print_trapframe is called with, and what it finds: tf's address, whether last_tf points to it
    too, and cr2. -/
structure Shown where
  tf : Trapframe
  addr : UInt32
  last : Bool
  cr2 : UInt32

section Code
variable (rd : Nat → Option UInt8) (bound : Nat)

def printRegs (regs : PushRegs) : Trace := traces
  [cprintf rd bound "  edi  0x%08x\n" [.word regs.regEdi.toNat],
    cprintf rd bound "  esi  0x%08x\n" [.word regs.regEsi.toNat],
    cprintf rd bound "  ebp  0x%08x\n" [.word regs.regEbp.toNat],
    cprintf rd bound "  oesp 0x%08x\n" [.word regs.regOesp.toNat],
    cprintf rd bound "  ebx  0x%08x\n" [.word regs.regEbx.toNat],
    cprintf rd bound "  edx  0x%08x\n" [.word regs.regEdx.toNat],
    cprintf rd bound "  ecx  0x%08x\n" [.word regs.regEcx.toNat],
    cprintf rd bound "  eax  0x%08x\n" [.word regs.regEax.toNat]]

def printTrapframe (f : Shown) : Trace := traces
  [cprintf rd bound "TRAP frame at %p\n" [.word f.addr.toNat],
    printRegs rd bound f.tf.tfRegs,
    cprintf rd bound "  es   0x----%04x\n" [.word f.tf.tfEs.toNat],
    cprintf rd bound "  ds   0x----%04x\n" [.word f.tf.tfDs.toNat],
    cprintf rd bound "  trap 0x%08x %s\n"
      [.word f.tf.tfTrapno.toNat, .const (chars (trapname f.tf.tfTrapno))],
    if f.last = true ∧ f.tf.tfTrapno = 14 then cprintf rd bound "  cr2  0x%08x\n" [.word f.cr2.toNat]
    else Trace.done,
    cprintf rd bound "  err  0x%08x" [.word f.tf.tfErr.toNat],
    if f.tf.tfTrapno = 14 then
      cprintf rd bound " [%s, %s, %s]\n"
        [.const (chars (if f.tf.tfErr &&& 4 ≠ 0 then "user" else "kernel")),
          .const (chars (if f.tf.tfErr &&& 2 ≠ 0 then "write" else "read")),
          .const (chars (if f.tf.tfErr &&& 1 ≠ 0 then "protection" else "not-present"))]
    else cprintf rd bound "\n" [],
    cprintf rd bound "  eip  0x%08x\n" [.word f.tf.tfEip.toNat],
    cprintf rd bound "  cs   0x----%04x\n" [.word f.tf.tfCs.toNat],
    cprintf rd bound "  flag 0x%08x\n" [.word f.tf.tfEflags.toNat],
    if f.tf.tfCs &&& 3 ≠ 0 then traces
      [cprintf rd bound "  esp  0x%08x\n" [.word f.tf.tfEsp.toNat],
        cprintf rd bound "  ss   0x----%04x\n" [.word f.tf.tfSs.toNat]]
    else Trace.done]

end Code

/- The text of a frame. -/

def hexLine (before : String) (digits v : Nat) (after : String) : List Int :=
  shown (chars before) ++ (hexDigits digits v ++ shown (chars after))

def regsText (regs : PushRegs) : List Int := List.flatten
  [hexLine "  edi  0x" 8 regs.regEdi.toNat "\n", hexLine "  esi  0x" 8 regs.regEsi.toNat "\n",
    hexLine "  ebp  0x" 8 regs.regEbp.toNat "\n", hexLine "  oesp 0x" 8 regs.regOesp.toNat "\n",
    hexLine "  ebx  0x" 8 regs.regEbx.toNat "\n", hexLine "  edx  0x" 8 regs.regEdx.toNat "\n",
    hexLine "  ecx  0x" 8 regs.regEcx.toNat "\n", hexLine "  eax  0x" 8 regs.regEax.toNat "\n"]

def faultText (err : UInt32) : List Int := shown <| List.flatten
  [chars " [", chars (if err &&& 4 ≠ 0 then "user" else "kernel"), chars ", ",
    chars (if err &&& 2 ≠ 0 then "write" else "read"), chars ", ",
    chars (if err &&& 1 ≠ 0 then "protection" else "not-present"), chars "]\n"]

def frameText (f : Shown) : List Int := List.flatten
  [shown (chars "TRAP frame at 0x") ++ (digitsOf 16 f.addr.toNat ++ shown (chars "\n")),
    regsText f.tf.tfRegs,
    hexLine "  es   0x----" 4 f.tf.tfEs.toNat "\n",
    hexLine "  ds   0x----" 4 f.tf.tfDs.toNat "\n",
    hexLine "  trap 0x" 8 f.tf.tfTrapno.toNat " " ++ shown (chars (trapname f.tf.tfTrapno) ++ chars "\n"),
    if f.last = true ∧ f.tf.tfTrapno = 14 then hexLine "  cr2  0x" 8 f.cr2.toNat "\n" else [],
    hexLine "  err  0x" 8 f.tf.tfErr.toNat "",
    if f.tf.tfTrapno = 14 then faultText f.tf.tfErr else shown (chars "\n"),
    hexLine "  eip  0x" 8 f.tf.tfEip.toNat "\n",
    hexLine "  cs   0x----" 4 f.tf.tfCs.toNat "\n",
    hexLine "  flag 0x" 8 f.tf.tfEflags.toNat "\n",
    if f.tf.tfCs &&& 3 ≠ 0 then List.flatten
      [hexLine "  esp  0x" 8 f.tf.tfEsp.toNat "\n", hexLine "  ss   0x----" 4 f.tf.tfSs.toNat "\n"]
    else []]

section Text
variable {rd : Nat → Option UInt8} {bound : Nat}

theorem traces_prints {ts : List Trace} {texts : List (List Int)} (each : List.Forall₂ Prints ts texts) :
    Prints (traces ts) texts.flatten := by
  induction each with
  | nil => exact ⟨rfl, rfl⟩
  | cons first _ ih => exact prints_andThen first ih

def plain (text : String) : Prop := ∀ c ∈ chars text, c.toNat ≠ '%'.toNat

instance (text : String) : Decidable (plain text) := inferInstanceAs (Decidable (∀ c ∈ _, _))

theorem hexWidth_chars {k : Nat} (positive : 0 < k) (small : k < 10) (fits : k < 2147483648) :
    Width.chars (.digits k positive fits) = [digitByte k] := by
  change (Numerals.numeral 10 k).map digitByte = _
  rw [Numerals.numeral_small small]
  rfl

theorem hex_output {k v : Nat} (positive : 0 < k) (fits : k < 2147483648) (word : v < WORD) :
    Piece.output (.number .zero (.digits k positive fits) .x v) = hexDigits k v := by
  have value : Conv.value (fun _ => .word v) 0 0 .x = (v : Int) := by
    change ((v % WORD : Nat) : Int) = v
    rw [Nat.mod_eq_of_lt word]
  have none_less : sign (v : Int) = [] := unsigned_sign v
  have fill : ((k : Int) - (digitsOf 16 v).length).toNat = k - (digitsOf 16 v).length := by omega
  unfold Piece.output
  dsimp only
  rw [value, none_less]
  unfold written
  rw [Int.natAbs_natCast]
  change [] ++ (List.replicate ((k : Int) - (digitsOf 16 v).length).toNat ('0'.toNat : Int) ++ digitsOf 16 v) = _
  rw [fill]
  rfl

theorem hex_prints {fmt before after : String} {k v : Nat} (positive : 0 < k) (small : k < 10)
    (word : v < WORD) (before_plain : plain before) (after_plain : plain after)
    (split : chars fmt = chars before ++ (byte '%' :: byte '0' :: digitByte k :: byte 'x' :: chars after)) :
    Prints (cprintf rd bound fmt [.word v]) (hexLine before k v after) := by
  have fits : k < 2147483648 := by omega
  have format : chars fmt = [Piece.text (chars before), .number .zero (.digits k positive fits) .x v,
      .text (chars after)].flatMap Piece.format := by
    simp only [List.flatMap_cons, List.flatMap_nil, Piece.format, Field.format, hexWidth_chars positive small,
      split, List.append_nil]
    rfl
  have prints : Prints (cprintf rd bound fmt [.word v]) _ := cprintf_pieces (fun _ => .word 0) _ format rfl
    (by simpa [Piece.Fine] using ⟨before_plain, after_plain⟩)
  simp only [List.flatMap_cons, List.flatMap_nil, List.append_nil, hex_output positive fits word] at prints
  exact prints

def literal (text : String) : Piece := .text (chars text)

theorem literal_fine {text : String} (no_directive : plain text) : (literal text).Fine rd bound := no_directive

def name (s : String) : Piece := .string (.const (chars s)) (chars s)

theorem name_fine {s : String} (short : (chars s).length < 40) (nonzero : ∀ c ∈ chars s, c ≠ 0)
    (enough : 40 ≤ bound) : (name s).Fine rd bound := by
  refine ⟨by simp, string_const nonzero, ?_, ?_⟩
  · omega
  · omega

theorem ascii_signed {cs : List UInt8} (ascii : ∀ c ∈ cs, c.toNat < 128) : cs.map signed = shown cs := by
  apply List.map_congr_left
  intro c listed
  exact if_pos (ascii c listed)

theorem trapname_text (trapno : UInt32) : (chars (trapname trapno)).length < 40 ∧
    ∀ c ∈ chars (trapname trapno), c ≠ 0 ∧ c.toNat < 128 := by
  have known : ∀ name ∈ "System call" :: "(unknown trap)" :: excnames,
      (chars name).length < 40 ∧ ∀ c ∈ chars name, c ≠ 0 ∧ c.toNat < 128 := by decide
  apply known
  unfold trapname
  split
  · rename_i inside
    rw [List.getD_eq_getElem _ _ inside]
    exact List.mem_cons_of_mem _ (List.mem_cons_of_mem _ (List.getElem_mem inside))
  · split
    · exact List.mem_cons_self
    · exact List.mem_cons_of_mem _ List.mem_cons_self

theorem printRegs_prints (regs : PushRegs) : Prints (printRegs rd bound regs) (regsText regs) := by
  have line : ∀ {fmt before : String} (v : UInt32), plain before →
      chars fmt = chars before ++ (byte '%' :: byte '0' :: digitByte 8 :: byte 'x' :: chars "\n") →
      Prints (cprintf rd bound fmt [.word v.toNat]) (hexLine before 8 v.toNat "\n") :=
    fun v before_plain split =>
      hex_prints (by decide) (by decide) v.toNat_lt before_plain (by decide) split
  apply traces_prints
  repeat' first | exact List.Forall₂.nil | apply List.Forall₂.cons
  all_goals exact line _ (by decide) (by decide)

theorem fault_prints (err : UInt32) (enough : 40 ≤ bound) : Prints (cprintf rd bound " [%s, %s, %s]\n"
    [.const (chars (if err &&& 4 ≠ 0 then "user" else "kernel")),
      .const (chars (if err &&& 2 ≠ 0 then "write" else "read")),
      .const (chars (if err &&& 1 ≠ 0 then "protection" else "not-present"))]) (faultText err) := by
  have words : ∀ s ∈ ["user", "kernel", "write", "read", "protection", "not-present"],
      (chars s).length < 40 ∧ (∀ c ∈ chars s, c ≠ 0) ∧ ∀ c ∈ chars s, c.toNat < 128 := by
    decide
  obtain ⟨who, who_word⟩ : ∃ s, s = (if err &&& 4 ≠ 0 then "user" else "kernel") := ⟨_, rfl⟩
  obtain ⟨what, what_word⟩ : ∃ s, s = (if err &&& 2 ≠ 0 then "write" else "read") := ⟨_, rfl⟩
  obtain ⟨why, why_word⟩ : ∃ s, s = (if err &&& 1 ≠ 0 then "protection" else "not-present") := ⟨_, rfl⟩
  have who_known := words who (by rw [who_word]; split <;> simp)
  have what_known := words what (by rw [what_word]; split <;> simp)
  have why_known := words why (by rw [why_word]; split <;> simp)
  unfold faultText
  rw [← who_word, ← what_word, ← why_word]
  have fine : ∀ p ∈ [literal " [", name who, literal ", ", name what, literal ", ", name why, literal "]\n"],
      p.Fine rd bound := by
    simp only [List.forall_mem_cons]
    exact ⟨literal_fine (by decide), name_fine who_known.1 who_known.2.1 enough,
      literal_fine (by decide), name_fine what_known.1 what_known.2.1 enough,
      literal_fine (by decide), name_fine why_known.1 why_known.2.1 enough,
      literal_fine (by decide), by simp⟩
  have format : chars " [%s, %s, %s]\n" = [literal " [", name who, literal ", ", name what, literal ", ",
      name why, literal "]\n"].flatMap Piece.format := by
    simp only [List.flatMap_cons, List.flatMap_nil, literal, name, Piece.format]
    decide
  have prints : Prints (cprintf rd bound " [%s, %s, %s]\n" [.const (chars who), .const (chars what),
      .const (chars why)]) _ := cprintf_pieces (fun _ => .word 0) _ format rfl fine
  simpa [Piece.output, literal, name, ascii_signed who_known.2.2, ascii_signed what_known.2.2,
    ascii_signed why_known.2.2, shown] using prints

theorem bare_prints {text : String} (no_directive : plain text) :
    Prints (cprintf rd bound text []) (shown (chars text)) := by
  have prints : Prints (cprintf rd bound text []) _ :=
    cprintf_pieces (fun _ => .word 0) [literal text] (List.flatMap_singleton _ _).symm rfl
      (by simpa using literal_fine no_directive)
  simpa [Piece.output, literal] using prints

theorem trapno_prints (trapno : UInt32) (enough : 40 ≤ bound) :
    Prints (cprintf rd bound "  trap 0x%08x %s\n" [.word trapno.toNat, .const (chars (trapname trapno))])
      (hexLine "  trap 0x" 8 trapno.toNat " " ++ shown (chars (trapname trapno) ++ chars "\n")) := by
  obtain ⟨short, text⟩ := trapname_text trapno
  have eight : Width.chars (.digits 8 (by decide) (by decide)) = [digitByte 8] := hexWidth_chars _ (by decide) _
  have fine : ∀ p ∈ [literal "  trap 0x", .number .zero (.digits 8 (by decide) (by decide)) .x trapno.toNat,
      literal " ", name (trapname trapno), literal "\n"], p.Fine rd bound := by
    simp only [List.forall_mem_cons]
    exact ⟨literal_fine (by decide), by simp [Piece.Fine], literal_fine (by decide),
      name_fine short (fun c listed => (text c listed).1) enough, literal_fine (by decide), by simp⟩
  have format : chars "  trap 0x%08x %s\n" = [literal "  trap 0x",
      .number .zero (.digits 8 (by decide) (by decide)) .x trapno.toNat, literal " ", name (trapname trapno),
      literal "\n"].flatMap Piece.format := by
    simp only [List.flatMap_cons, List.flatMap_nil, literal, name, Piece.format, Field.format, eight]
    decide
  have prints : Prints (cprintf rd bound "  trap 0x%08x %s\n" [.word trapno.toNat,
      .const (chars (trapname trapno))]) _ := cprintf_pieces (fun _ => .word 0) _ format rfl fine
  simp only [List.flatMap_cons, List.flatMap_nil, hex_output _ _ trapno.toNat_lt] at prints
  simpa [Piece.output, literal, name, ascii_signed fun c listed => (text c listed).2, hexLine, shown] using prints

theorem address_prints (addr : UInt32) : Prints (cprintf rd bound "TRAP frame at %p\n" [.word addr.toNat])
    (shown (chars "TRAP frame at 0x") ++ (digitsOf 16 addr.toNat ++ shown (chars "\n"))) := by
  have fine : ∀ p ∈ [literal "TRAP frame at ", .pointer addr.toNat, literal "\n"], p.Fine rd bound := by
    simp only [List.forall_mem_cons]
    exact ⟨literal_fine (by decide), trivial, literal_fine (by decide), by simp⟩
  have format : chars "TRAP frame at %p\n" =
      [literal "TRAP frame at ", .pointer addr.toNat, literal "\n"].flatMap Piece.format := by
    simp only [List.flatMap_cons, List.flatMap_nil, literal, Piece.format]
    decide
  have prints : Prints (cprintf rd bound "TRAP frame at %p\n" [.word addr.toNat]) _ :=
    cprintf_pieces (fun _ => .word 0) _ format rfl fine
  have small : addr.toNat % WORD = addr.toNat := Nat.mod_eq_of_lt addr.toNat_lt
  have joined : chars "TRAP frame at 0x" = chars "TRAP frame at " ++ chars "0x" := by decide
  rw [joined]
  simpa [Piece.output, literal, small, shown] using prints

/-- print_trapframe always gets to its end. -/
theorem printTrapframe_prints (f : Shown) (enough : 40 ≤ bound) :
    Prints (printTrapframe rd bound f) (frameText f) := by
  have word : ∀ {fmt before after : String} (v : UInt32), plain before → plain after →
      chars fmt = chars before ++ (byte '%' :: byte '0' :: digitByte 8 :: byte 'x' :: chars after) →
      Prints (cprintf rd bound fmt [.word v.toNat]) (hexLine before 8 v.toNat after) :=
    fun v before_plain after_plain split =>
      hex_prints (by decide) (by decide) v.toNat_lt before_plain after_plain split
  have half : ∀ {fmt before after : String} (v : UInt16), plain before → plain after →
      chars fmt = chars before ++ (byte '%' :: byte '0' :: digitByte 4 :: byte 'x' :: chars after) →
      Prints (cprintf rd bound fmt [.word v.toNat]) (hexLine before 4 v.toNat after) :=
    fun v before_plain after_plain split => hex_prints (by decide) (by decide)
      (Nat.lt_trans v.toNat_lt (by decide)) before_plain after_plain split
  have nothing : Prints Trace.done [] := ⟨rfl, rfl⟩
  apply traces_prints
  repeat' first | exact List.Forall₂.nil | apply List.Forall₂.cons
  · exact address_prints f.addr
  · exact printRegs_prints f.tf.tfRegs
  · exact half _ (by decide) (by decide) (by decide)
  · exact half _ (by decide) (by decide) (by decide)
  · exact trapno_prints f.tf.tfTrapno enough
  · split
    · exact word _ (by decide) (by decide) (by decide)
    · exact nothing
  · exact word _ (by decide) (by decide) (by decide)
  · split
    · exact fault_prints f.tf.tfErr enough
    · exact bare_prints (by decide)
  · exact word _ (by decide) (by decide) (by decide)
  · exact half _ (by decide) (by decide) (by decide)
  · exact word _ (by decide) (by decide) (by decide)
  · split
    · apply traces_prints
      repeat' first | exact List.Forall₂.nil | apply List.Forall₂.cons
      · exact word _ (by decide) (by decide) (by decide)
      · exact half _ (by decide) (by decide) (by decide)
    · exact nothing

end Text

end JosTrapPrint
