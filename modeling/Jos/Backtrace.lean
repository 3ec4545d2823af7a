import Jos.CountedLoop
import Jos.StabLookup
import Jos.TrapPrint

/- mon_backtrace of kern/monitor.c, which follows the frame pointers up the stack. No command of the
   monitor calls it. -/
namespace JosBacktrace
open JosLayout JosMachine JosMmu JosPrintfmt JosPrintfChars JosPrintfFields JosPrintfStrings JosPrintfPieces
open JosTrapPrint JosKdebug JosDebuginfo JosStabSearch JosStabLookup EventLog
open CountedLoop

inductive Fault where
  /-- a load that is a page fault -/
  | load
  /-- debuginfo_eip does not return -/
  | debuginfo
  | print (e : Stop)
  | rounds

section Code
variable (kernel : UserStabData) (fuel bound : Nat)

def slot (s : State) (ebp : UInt32) (i : Nat) : Except Fault UInt32 :=
  match wordAt s (ebp.toNat + 4 * i) with
  | none => .error .load
  | some w => .ok w

def nameArg : Name → Arg
  | .unknown => .const (chars "<unknown>")
  | .at p => .word p

/-- A round of the loop: what it prints, and the next ebp. -/
def backtraceRound (s : State) (ebp : UInt32) : Except Fault (State × List Int × UInt32) := do
  let eip ← slot s ebp 1
  let arg0 ← slot s ebp 2
  let arg1 ← slot s ebp 3
  let arg2 ← slot s ebp 4
  let arg3 ← slot s ebp 5
  let arg4 ← slot s ebp 6
  let first ← printed .print (cprintf (kread s) bound "  ebp %08x  eip %08x  args %08x %08x %08x %08x %08x\n"
    [.word ebp.toNat, .word eip.toNat, .word arg0.toNat, .word arg1.toNat, .word arg2.toNat,
      .word arg3.toNat, .word arg4.toNat])
  -- what debuginfo_eip returns is not looked at
  match (debuginfoEip kernel fuel s eip).result with
  | none => .error .debuginfo
  | some (_, dbinfo, s) => do
    let second ← printed .print (cprintf (kread s) bound "         %s:%d: %.*s+%d\n"
      [nameArg dbinfo.eipFile, .word (dbinfo.eipLine % WORD).toNat,
        .word (dbinfo.eipFnNamelen % WORD).toNat, nameArg dbinfo.eipFnName,
        .word (eip - dbinfo.eipFnAddr).toNat])
    let next ← slot s ebp 0
    return (s, first ++ second, next)

def backtraceLoop : Nat → State → UInt32 → Except Fault (State × List Int)
  | 0, _, _ => .error .rounds
  | rounds + 1, s, ebp => do
    let (s, text, next) ← backtraceRound kernel fuel bound s ebp
    if next = 0 then return (s, text)
    else do
      let (s, rest) ← backtraceLoop rounds s next
      return (s, text ++ rest)

/-- What mon_backtrace prints and returns, from the ebp it reads. -/
def monBacktrace (rounds : Nat) (s : State) (ebp : UInt32) : Except Fault (State × List Int × Int) := do
  let header ← printed .print (cprintf (kread s) bound "Stack backtrace:\n" [])
  let (s, text) ← backtraceLoop kernel fuel bound rounds s ebp
  return (s, header ++ text, 0)

end Code

structure Frame where
  ebp : UInt32
  eip : UInt32
  arg0 : UInt32
  arg1 : UInt32
  arg2 : UInt32
  arg3 : UInt32
  arg4 : UInt32

structure FrameIn (s : State) (f : Frame) (next : UInt32) : Prop where
  next : slot s f.ebp 0 = .ok next
  eip : slot s f.ebp 1 = .ok f.eip
  arg0 : slot s f.ebp 2 = .ok f.arg0
  arg1 : slot s f.ebp 3 = .ok f.arg1
  arg2 : slot s f.ebp 4 = .ok f.arg2
  arg3 : slot s f.ebp 5 = .ok f.arg3
  arg4 : slot s f.ebp 6 = .ok f.arg4

/-- The frames from an ebp on, up to the one that entry.S has ended the stack with. -/
inductive Chain (s : State) : UInt32 → List Frame → Prop where
  | last {f : Frame} (here : FrameIn s f 0) : Chain s f.ebp [f]
  | more {f : Frame} {next : UInt32} {fs : List Frame} (here : FrameIn s f next) (nonzero : next ≠ 0)
      (later : Chain s next fs) : Chain s f.ebp (f :: fs)

def frameText (f : Frame) : List Int :=
  hexLine "  ebp " 8 f.ebp.toNat "  eip " ++ (hexDigits 8 f.eip.toNat ++
    (hexLine "  args " 8 f.arg0.toNat " " ++ (hexDigits 8 f.arg1.toNat ++
      (hexLine " " 8 f.arg2.toNat " " ++ (hexDigits 8 f.arg3.toNat ++ hexLine " " 8 f.arg4.toNat "\n")))))

def sourceText (file fn : List UInt8) (line offset : Nat) : List Int :=
  shown (chars "         ") ++ (file.map signed ++ (shown (chars ":") ++ (decimalText line ++
    (shown (chars ": ") ++ (fn.map signed ++ (shown (chars "+") ++ (decimalText offset ++ shown (chars "\n"))))))))

section Text
variable {rd : Nat → Option UInt8} {bound : Nat}

theorem frame_prints (f : Frame) : Prints (cprintf rd bound
    "  ebp %08x  eip %08x  args %08x %08x %08x %08x %08x\n"
    [.word f.ebp.toNat, .word f.eip.toNat, .word f.arg0.toNat, .word f.arg1.toNat, .word f.arg2.toNat,
      .word f.arg3.toNat, .word f.arg4.toNat]) (frameText f) := by
  have eight : Width.chars (.digits 8 (by decide) (by decide)) = [digitByte 8] :=
    hexWidth_chars _ (by decide) _
  let hex (w : UInt32) : Piece := .number .zero (.digits 8 (by decide) (by decide)) .x w.toNat
  have hex_fine : ∀ w, (hex w).Fine rd bound := fun w => by simp [hex, Piece.Fine]
  have fine : ∀ p ∈ [literal "  ebp ", hex f.ebp, literal "  eip ", hex f.eip, literal "  args ", hex f.arg0,
      literal " ", hex f.arg1, literal " ", hex f.arg2, literal " ", hex f.arg3, literal " ", hex f.arg4,
      literal "\n"], p.Fine rd bound := by
    simp only [List.forall_mem_cons]
    exact ⟨literal_fine (by decide), hex_fine _, literal_fine (by decide), hex_fine _,
      literal_fine (by decide), hex_fine _, literal_fine (by decide), hex_fine _,
      literal_fine (by decide), hex_fine _, literal_fine (by decide), hex_fine _,
      literal_fine (by decide), hex_fine _, literal_fine (by decide), by simp⟩
  have format : chars "  ebp %08x  eip %08x  args %08x %08x %08x %08x %08x\n" =
      [literal "  ebp ", hex f.ebp, literal "  eip ", hex f.eip, literal "  args ", hex f.arg0,
        literal " ", hex f.arg1, literal " ", hex f.arg2, literal " ", hex f.arg3, literal " ", hex f.arg4,
        literal "\n"].flatMap Piece.format := by
    simp only [List.flatMap_cons, List.flatMap_nil, hex, literal, Piece.format, Field.format, eight]
    decide
  have prints : Prints (cprintf rd bound "  ebp %08x  eip %08x  args %08x %08x %08x %08x %08x\n"
    [.word f.ebp.toNat, .word f.eip.toNat, .word f.arg0.toNat, .word f.arg1.toNat, .word f.arg2.toNat,
      .word f.arg3.toNat, .word f.arg4.toNat]) _ := cprintf_pieces (fun _ => .word 0) _ format rfl fine
  have digits : ∀ w : UInt32, (hex w).output = hexDigits 8 w.toNat :=
    fun w => hex_output (by decide) (by decide) w.toNat_lt
  simp only [List.flatMap_cons, List.flatMap_nil, digits] at prints
  simpa [frameText, hexLine, Piece.output, literal] using prints

theorem source_prints {file fn : Arg} {file_text fn_text : List UInt8} {n : Nat} (line offset : Nat)
    (file_fine : (Piece.string file file_text).Fine rd bound)
    (fn_fine : (Piece.clipped n fn fn_text).Fine rd bound) :
    Prints (cprintf rd bound "         %s:%d: %.*s+%d\n" [file, .word line, .word n, fn, .word offset])
      (sourceText file_text (fn_text.take n) line offset) := by
  have fine : ∀ p ∈ [literal "         ", .string file file_text, literal ":", .number .none .absent .d line,
      literal ": ", .clipped n fn fn_text, literal "+", .number .none .absent .d offset, literal "\n"],
      p.Fine rd bound := by
    simp only [List.forall_mem_cons]
    exact ⟨literal_fine (by decide), file_fine, literal_fine (by decide),
      by simp [Piece.Fine], literal_fine (by decide), fn_fine, literal_fine (by decide),
      by simp [Piece.Fine], literal_fine (by decide), by simp⟩
  have format : chars "         %s:%d: %.*s+%d\n" =
      [literal "         ", .string file file_text, literal ":", .number .none .absent .d line,
        literal ": ", .clipped n fn fn_text, literal "+", .number .none .absent .d offset,
        literal "\n"].flatMap Piece.format := by
    simp only [List.flatMap_cons, List.flatMap_nil, literal, Piece.format, Field.format]
    decide
  have prints : Prints (cprintf rd bound "         %s:%d: %.*s+%d\n"
    [file, .word line, .word n, fn, .word offset]) _ := cprintf_pieces (fun _ => .word 0) _ format rfl fine
  simp only [List.flatMap_cons, List.flatMap_nil, decimalText_output] at prints
  simpa [sourceText, Piece.output, literal] using prints

end Text

/-- The two lines about a frame: its words, and what the tables tell of its eip, with the name of the
    function up to a colon. -/
def Shows (s : State) (t : UserStabData) (tab : Int → Stab) (n : Nat) (f : Frame) (text : List Int) : Prop :=
  ∃ p info file fn, Describes tab n f.eip p ∧ Tells s t tab p f.eip info ∧
    StringAt (kread s) (nameArg info.eipFile) file ∧ StringAt (kread s) (nameArg info.eipFnName) fn ∧
    text = frameText f ++ sourceText file (fn.takeWhile fun c => c ≠ 0x3a) (tab p.line).nDesc.toNat
      (f.eip - info.eipFnAddr).toNat

section Names
variable {s : State} {t : UserStabData} {tab : Int → Stab} {n bound : Nat}

theorem load_byte {p : Nat} {c : UInt8} : (load (kread s) (.word p)).1 = .ok c ↔ byteAt s p = some c := by
  unfold load byteAt
  dsimp only
  cases kread s (p % WORD) with
  | none => exact iff_of_false (fun same => by cases same) (fun same => by cases same)
  | some b =>
    exact ⟨fun same => congrArg some (Except.ok.inj same),
      fun same => congrArg Except.ok (Option.some.inj same)⟩

theorem string_exists (loaded : Loaded s t tab n) {p d : Nat} (inside : t.stabstr.toNat ≤ p)
    (left : p + d + 1 = t.stabstrEnd.toNat) :
    ∃ text, StringAt (kread s) (.word p) text ∧ text.length ≤ d := by
  induction d generalizing p with
  | zero =>
    have nul := loaded.nul
    rw [← left] at nul
    exact ⟨[], .nul (load_byte.mpr nul), Nat.le_refl 0⟩
  | succ d ih =>
    obtain ⟨b, here⟩ := loaded.string p inside (by omega)
    by_cases ends : b = 0
    · rw [ends] at here
      exact ⟨[], .nul (load_byte.mpr here), Nat.zero_le _⟩
    · have small := t.stabstrEnd.toNat_lt
      have after : next (.word p) = .word (p + 1) :=
        congrArg Arg.word (Nat.mod_eq_of_lt (by simp only [WORD]; omega))
      obtain ⟨text, string, short⟩ := ih (Nat.le_succ_of_le inside) (by omega)
      refine ⟨b :: text, .char (load_byte.mpr here) ends ?_, Nat.succ_le_succ short⟩
      rw [after]
      exact string

theorem name_text (loaded : Loaded s t tab n) (nonnull : 0 < t.stabstr.toNat)
    (long : t.stabstrEnd.toNat - t.stabstr.toNat < bound) (enough : 40 ≤ bound) {name : Name}
    (found : (∃ strx, name = nameFrom t strx) ∨ name = .unknown) :
    ∃ text, (Piece.string (nameArg name) text).Fine (kread s) bound := by
  have short : (chars "<unknown>").length = 9 := by decide
  have unknown_text : (Piece.string (nameArg .unknown) (chars "<unknown>")).Fine (kread s) bound :=
    ⟨by simp [nameArg], string_const (by decide), by omega, by omega⟩
  rcases found with ⟨strx, rfl⟩ | rfl
  · unfold nameFrom
    split
    · rename_i inside
      have few := loaded.few
      obtain ⟨d, left, low, rounds⟩ := name_place loaded inside
      obtain ⟨text, string, short⟩ := string_exists loaded low left
      refine ⟨text, ?_, string, by omega, by omega⟩
      intro null
      have zero := Arg.word.inj null
      omega
    · exact ⟨_, unknown_text⟩
  · exact ⟨_, unknown_text⟩

theorem string_unique {rd : Nat → Option UInt8} {p : Arg} {a b : List UInt8} (first : StringAt rd p a)
    (second : StringAt rd p b) : a = b := by
  induction first generalizing b with
  | nul ends =>
    cases second with
    | nul => rfl
    | char here nonzero => exact absurd (Except.ok.inj (here.symm.trans ends)) nonzero
  | char here nonzero later ih =>
    cases second with
    | nul ends => exact absurd (Except.ok.inj (here.symm.trans ends)) nonzero
    | char here' nonzero' later' =>
      obtain rfl := Except.ok.inj (here.symm.trans here')
      rw [ih later']

theorem name_prefix {name : Name} {len : Int} (length : NameLength s name len) {text : List UInt8}
    (string : StringAt (kread s) (nameArg name) text) :
    ∃ k : Nat, len = k ∧ k ≤ text.length ∧ text.take k = text.takeWhile fun c => c ≠ 0x3a := by
  cases name with
  | unknown =>
    obtain rfl := string_unique string (string_const (by decide))
    exact ⟨9, length, by decide, by decide⟩
  | «at» p =>
    obtain ⟨k, rfl, before, ends⟩ := length
    refine ⟨k, rfl, ?_⟩
    change StringAt (kread s) (.word p) text at string
    generalize arg : Arg.word p = q at string
    induction string generalizing p k with
    | nul here =>
      subst arg
      cases k with
      | zero => exact ⟨Nat.le_refl 0, rfl⟩
      | succ k =>
        obtain ⟨b, there, nonzero, _⟩ := before 0 (Nat.zero_lt_succ k)
        exact absurd (Option.some.inj (there.symm.trans (load_byte.mp here))) nonzero
    | @char q c text here nonzero later ih =>
      subst arg
      have here := load_byte.mp here
      cases k with
      | zero =>
        have colon : c = 0x3a := by
          rcases ends with nul | colon
          · exact absurd (Option.some.inj (here.symm.trans nul)) nonzero
          · exact Option.some.inj (here.symm.trans colon)
        refine ⟨Nat.zero_le _, ?_⟩
        rw [List.takeWhile_cons_of_neg (by simp [colon])]
        rfl
      | succ k =>
        obtain ⟨b, there, _, other⟩ := before 0 (Nat.zero_lt_succ k)
        obtain rfl : b = c := Option.some.inj (there.symm.trans here)
        have moved : ∀ j, byteAt s ((p + 1) % WORD + j) = byteAt s (p + (j + 1)) := by
          intro j
          unfold byteAt
          rw [Nat.mod_add_mod, Nat.add_assoc, Nat.add_comm 1 j]
        obtain ⟨bound, same⟩ := ih ((p + 1) % WORD) k
          (fun j early => by rw [moved]; exact before (j + 1) (Nat.succ_lt_succ early))
          (by rw [moved]; exact ends) rfl
        refine ⟨Nat.succ_le_succ bound, ?_⟩
        rw [List.take_succ_cons, same, List.takeWhile_cons_of_pos (by simpa using other)]

end Names

section Main
variable {kernel : UserStabData} {s : State} {t : UserStabData} {tab : Int → Stab} {n fuel bound rounds : Nat}
variable {f : Frame} {fs : List Frame} {ebp next : UInt32}

def Described (kernel : UserStabData) (s : State) (t : UserStabData) (tab : Int → Stab) (n : Nat)
    (f : Frame) : Prop :=
  Taken kernel s f.eip t ∧ ∃ p, Describes tab n f.eip p

theorem backtraceRound_prints (loaded : Loaded s t tab n) (nonnull : 0 < t.stabstr.toNat)
    (here : FrameIn s f next) (described : Described kernel s t tab n f) (searches : 2 * n + 1 < fuel)
    (scans : t.stabstrEnd.toNat - t.stabstr.toNat < fuel)
    (long : t.stabstrEnd.toNat - t.stabstr.toNat < bound)
    (enough : 40 ≤ bound) : ∃ text, Shows s t tab n f text ∧
      backtraceRound kernel fuel bound s f.ebp = .ok (s, text, next) := by
  obtain ⟨taken, p, describes⟩ := described
  obtain ⟨info, found, tells⟩ := lookUp_finds loaded describes searches scans
  have debuginfo := @debuginfoEip_taken kernel s t tab n fuel f.eip loaded taken
  rw [found] at debuginfo
  have file_name : (∃ strx, info.eipFile = nameFrom t strx) ∨ info.eipFile = .unknown := by
    rcases tells.file with ⟨i, _, same⟩ | ⟨_, same⟩
    · exact Or.inl ⟨_, same⟩
    · exact Or.inr same
  have fn_name : (∃ strx, info.eipFnName = nameFrom t strx) ∨ info.eipFnName = .unknown := by
    have named := tells.fnName
    split at named
    · exact Or.inl ⟨_, named⟩
    · exact Or.inr named
  obtain ⟨file, file_fine⟩ := name_text loaded nonnull long enough file_name
  obtain ⟨fn, fn_fine⟩ := name_text loaded nonnull long enough fn_name
  obtain ⟨k, len, inside, clipped⟩ := name_prefix tells.fnNamelen fn_fine.2.1
  have clipped_fine : (Piece.clipped k (nameArg info.eipFnName) fn).Fine (kread s) bound := by
    obtain ⟨pointer, string, fits, short⟩ := fn_fine
    exact ⟨pointer, string, fits, short, by omega⟩
  have line : (info.eipLine % WORD).toNat = (tab p.line).nDesc.toNat := by
    have small := (tab p.line).nDesc.toNat_lt
    rw [tells.line]
    simp only [WORD]
    omega
  have count : (info.eipFnNamelen % WORD).toNat = k := by
    have short := fn_fine.2.2.2
    rw [len]
    simp only [WORD]
    omega
  have first := prints_printed Fault.print (@frame_prints (kread s) bound f)
  have second := prints_printed Fault.print (source_prints (tab p.line).nDesc.toNat (f.eip - info.eipFnAddr).toNat
    file_fine clipped_fine)
  rw [clipped] at second
  refine ⟨_, ⟨p, info, file, fn, describes, tells, file_fine.2.1, fn_fine.2.1, rfl⟩, ?_⟩
  unfold backtraceRound
  rw [here.eip, ok_bind, here.arg0, ok_bind, here.arg1, ok_bind, here.arg2, ok_bind, here.arg3, ok_bind,
    here.arg4, ok_bind, first, ok_bind, debuginfo]
  dsimp only [Option.map_some]
  rw [line, count, second, ok_bind, here.next]
  rfl

theorem backtraceLoop_prints (loaded : Loaded s t tab n) (nonnull : 0 < t.stabstr.toNat)
    (chain : Chain s ebp fs) (described : ∀ f ∈ fs, Described kernel s t tab n f)
    (searches : 2 * n + 1 < fuel)
    (scans : t.stabstrEnd.toNat - t.stabstr.toNat < fuel)
    (long : t.stabstrEnd.toNat - t.stabstr.toNat < bound)
    (enough : 40 ≤ bound) (all : fs.length ≤ rounds) : ∃ texts, List.Forall₂ (Shows s t tab n) fs texts ∧
      backtraceLoop kernel fuel bound rounds s ebp = .ok (s, texts.flatten) := by
  induction chain generalizing rounds with
  | @last f here =>
    obtain ⟨rounds, rfl⟩ := Nat.exists_eq_add_one_of_ne_zero (Nat.ne_of_gt all)
    obtain ⟨text, shows, round⟩ := backtraceRound_prints loaded nonnull here
      (described f List.mem_cons_self) searches scans long enough
    refine ⟨[text], .cons shows .nil, ?_⟩
    unfold backtraceLoop
    rw [round, ok_bind, List.flatten_singleton]
    rfl
  | @more f next fs here nonzero later ih =>
    obtain ⟨rounds, rfl⟩ := Nat.exists_eq_add_one_of_ne_zero (Nat.ne_of_gt (Nat.zero_lt_of_lt all))
    obtain ⟨text, shows, round⟩ := backtraceRound_prints loaded nonnull here
      (described f List.mem_cons_self) searches scans long enough
    obtain ⟨texts, each, rest⟩ := ih (fun g listed => described g (List.mem_cons_of_mem f listed))
      (Nat.le_of_succ_le_succ all)
    refine ⟨text :: texts, .cons shows each, ?_⟩
    unfold backtraceLoop
    rw [round, ok_bind]
    dsimp only
    rw [if_neg nonzero, rest]
    rfl

/-- From frames that the tables describe, mon_backtrace prints two lines for each, and comes to its end. -/
theorem mon_backtrace_prints (loaded : Loaded s t tab n) (nonnull : 0 < t.stabstr.toNat)
    (chain : Chain s ebp fs) (described : ∀ f ∈ fs, Described kernel s t tab n f)
    (searches : 2 * n + 1 < fuel)
    (scans : t.stabstrEnd.toNat - t.stabstr.toNat < fuel)
    (long : t.stabstrEnd.toNat - t.stabstr.toNat < bound)
    (enough : 40 ≤ bound) (all : fs.length ≤ rounds) : ∃ texts, List.Forall₂ (Shows s t tab n) fs texts ∧
      monBacktrace kernel fuel bound rounds s ebp =
        .ok (s, shown (chars "Stack backtrace:\n") ++ texts.flatten, 0) := by
  obtain ⟨texts, each, run⟩ :=
    backtraceLoop_prints loaded nonnull chain described searches scans long enough all
  have header : Prints (cprintf (kread s) bound "Stack backtrace:\n" []) _ := bare_prints (by decide)
  refine ⟨texts, each, ?_⟩
  unfold monBacktrace
  rw [prints_printed Fault.print header, ok_bind, run]
  rfl

def outerFrame : Frame := ⟨0xF00000A0, 0xF0100004, 3, 0, 0, 0, 0⟩

def innerFrame : Frame := ⟨0xF0000080, 0xF0100004, 2, 0, 0, 0, 0⟩

theorem slot_word {s : State} {ebp w : UInt32} {i : Nat} (there : wordAt s (ebp.toNat + 4 * i) = some w) :
    slot s ebp i = .ok w := by
  unfold slot
  rw [there]

theorem fewPage_chain : Chain fewPage 0xF0000080 [innerFrame, outerFrame] :=
  .more (f := innerFrame)
    ⟨slot_word (by decide), slot_word (by decide), slot_word (by decide),
      slot_word (by decide), slot_word (by decide), slot_word (by decide),
      slot_word (by decide)⟩
    (by decide)
    (.last (f := outerFrame)
      ⟨slot_word (by decide), slot_word (by decide), slot_word (by decide),
        slot_word (by decide), slot_word (by decide), slot_word (by decide),
        slot_word (by decide)⟩)

theorem mon_backtrace_prints_fewPage : ∃ texts,
    List.Forall₂ (Shows fewPage fewTables fewStabs 6) [innerFrame, outerFrame] texts ∧
      monBacktrace fewTables 20 40 2 fewPage 0xF0000080 =
        .ok (fewPage, shown (chars "Stack backtrace:\n") ++ texts.flatten, 0) := by
  have described : ∀ f ∈ [innerFrame, outerFrame], Described fewTables fewPage fewTables fewStabs 6 f := by
    intro f listed
    have eip : f.eip = 0xF0100004 := by
      rcases List.mem_cons.mp listed with rfl | last
      · rfl
      · rw [List.mem_singleton.mp last]
        rfl
    unfold Described
    rw [eip]
    exact ⟨Or.inl ⟨by decide, rfl⟩, fewPlace, fewStabs_describes⟩
  exact mon_backtrace_prints fewPage_loaded (by decide) fewPage_chain described (by decide) (by decide)
    (by decide) (by decide) (Nat.le_refl 2)

end Main

end JosBacktrace
