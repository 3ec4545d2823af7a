import Jos.CountedLoop
import Jos.PrintfFields

/- lib/readline.c: the line that is typed, its buffer and its echo. -/
namespace JosReadline
open JosLayout JosPrintfmt JosPrintfChars JosPrintfFields CountedLoop

abbrev BUFLEN : Nat := 1024

inductive Fault where
  | outside (i : Int)
  | print (e : Stop)

/-- The index, the static buffer, and the characters given to cputchar. -/
structure Line where
  i : Int
  buf : Nat → UInt8
  out : List Int

def store (buf : Nat → UInt8) (i : Int) (v : UInt8) : Except Fault (Nat → UInt8) :=
  if 0 ≤ i ∧ i < BUFLEN then .ok (Function.update buf i.toNat v) else .error (.outside i)

inductive Outcome where
  | waits (s : Line)
  | null (s : Line)
  | returns (s : Line)

section Code
variable (rd : Nat → Option UInt8) (bound : Nat) (echoing : Int)

def echo (c : Int) (s : Line) : Line := if echoing ≠ 0 then { s with out := s.out ++ [c] } else s

def round (c : Int) (s : Line) : Except Fault Outcome :=
  if c < 0 then do
    let text ← printed .print (cprintf rd bound "read error: %e\n" [.word (c % WORD).toNat])
    .ok (.null { s with out := s.out ++ text })
  else if (c = 0x08 ∨ c = 0x7f) ∧ s.i > 0 then
    let s := echo echoing 0x08 s
    .ok (.waits { s with i := s.i - 1 })
  else if c ≥ ' '.toNat ∧ s.i < BUFLEN - 1 then do
    let s := echo echoing c s
    let buf ← store s.buf s.i (lowByte c)
    .ok (.waits { s with buf := buf, i := s.i + 1 })
  else if c = 0x0a ∨ c = 0x0d then do
    let s := echo echoing 0x0a s
    let buf ← store s.buf s.i 0
    .ok (.returns { s with buf := buf })
  else .ok (.waits s)

def rounds : Line → List Int → Except Fault Outcome
  | s, [] => .ok (.waits s)
  | s, c :: input => do
    match ← round rd bound echoing c s with
    | .waits s => rounds s input
    | .null s => .ok (.null s)
    | .returns s => .ok (.returns s)

def iscons (_fdnum : Int) : Int := 1

def printPrompt (prompt : Arg) : Except Fault (List Int) :=
  if prompt ≠ .word 0 then printed .print (cprintf rd bound "%s" [prompt]) else .ok []

def readline (prompt : Arg) (buf : Nat → UInt8) (input : List Int) : Except Fault Outcome := do
  let out ← printPrompt rd bound prompt
  rounds rd bound (iscons 0) ⟨0, buf, out⟩ input

end Code

def typed (cs : List UInt8) : List Int := cs.map fun c => (c.toNat : Int)

def ends (c : UInt8) : Prop := c = 0x0a ∨ c = 0x0d

instance (c : UInt8) : Decidable (ends c) := inferInstanceAs (Decidable (_ ∨ _))

def removes (c : UInt8) : Prop := c = 0x08 ∨ c = 0x7f

instance (c : UInt8) : Decidable (removes c) := inferInstanceAs (Decidable (_ ∨ _))

/-- The line editor: the line after a character, and the characters that echo it. -/
def edit (line : List UInt8) (c : UInt8) : List UInt8 :=
  if removes c then line.dropLast
  else if c.toNat < ' '.toNat then line
  else if line.length < BUFLEN - 1 then line ++ [c]
  else line

def echoed (line : List UInt8) (c : UInt8) : List Int :=
  if removes c then if line = [] then [] else [0x08]
  else if c.toNat < ' '.toNat then []
  else if line.length < BUFLEN - 1 then [(c.toNat : Int)]
  else []

/-- What stands in the place of edit and echoed in the code: only on a line that is not empty does
    DEL remove. -/
def edit' (line : List UInt8) (c : UInt8) : List UInt8 :=
  if removes c ∧ line ≠ [] then line.dropLast
  else if ' '.toNat ≤ c.toNat ∧ line.length < BUFLEN - 1 then line ++ [c]
  else line

def echoed' (line : List UInt8) (c : UInt8) : List Int :=
  if removes c ∧ line ≠ [] then [0x08]
  else if ' '.toNat ≤ c.toNat ∧ line.length < BUFLEN - 1 then [(c.toNat : Int)]
  else []

def echoes (next : List UInt8 → UInt8 → List UInt8) (echo : List UInt8 → UInt8 → List Int)
    (line : List UInt8) : List UInt8 → List Int
  | [] => []
  | c :: cs => echo line c ++ echoes next echo (next line c) cs

def noEmptyDel (line : List UInt8) : List UInt8 → Prop
  | [] => True
  | c :: cs => ¬ (c = 0x7f ∧ line = []) ∧ noEmptyDel (edit line c) cs

section Editors
variable {line : List UInt8} {c : UInt8}

theorem edit'_eq (other : ¬ (c = 0x7f ∧ line = [])) :
    edit' line c = edit line c ∧ echoed' line c = echoed line c := by
  unfold edit' edit echoed' echoed
  by_cases removing : removes c
  · by_cases empty : line = []
    · have back : c = 0x08 := removing.resolve_right fun del => other ⟨del, empty⟩
      have control : ¬ (' '.toNat ≤ c.toNat ∧ line.length < BUFLEN - 1) := by
        rw [back]
        exact fun both => absurd both.1 (by decide)
      rw [if_neg (fun both => both.2 empty), if_neg control, if_pos removing, if_neg (fun both => both.2 empty),
        if_neg control, if_pos removing, if_pos empty, empty]
      exact ⟨rfl, rfl⟩
    · rw [if_pos ⟨removing, empty⟩, if_pos removing, if_pos ⟨removing, empty⟩, if_pos removing, if_neg empty]
      exact ⟨rfl, rfl⟩
  · have kept : ¬ (removes c ∧ line ≠ []) := fun both => removing both.1
    rw [if_neg kept, if_neg removing, if_neg kept, if_neg removing]
    by_cases control : c.toNat < ' '.toNat
    · have no_text : ¬ (' '.toNat ≤ c.toNat ∧ line.length < BUFLEN - 1) := by omega
      rw [if_neg no_text, if_pos control, if_neg no_text, if_pos control]
      exact ⟨rfl, rfl⟩
    · rw [if_neg control, if_neg control]
      by_cases room : line.length < BUFLEN - 1
      · rw [if_pos ⟨by omega, room⟩, if_pos room, if_pos ⟨by omega, room⟩, if_pos room]
        exact ⟨rfl, rfl⟩
      · rw [if_neg (fun both => room both.2), if_neg room, if_neg (fun both => room both.2), if_neg room]
        exact ⟨rfl, rfl⟩

theorem edited_same (cs : List UInt8) (clean : noEmptyDel line cs) :
    cs.foldl edit' line = cs.foldl edit line ∧ echoes edit' echoed' line cs = echoes edit echoed line cs := by
  induction cs generalizing line with
  | nil => exact ⟨rfl, rfl⟩
  | cons c cs ih =>
    obtain ⟨same, shown⟩ := edit'_eq clean.1
    obtain ⟨lines, shows⟩ := ih clean.2
    rw [List.foldl_cons, List.foldl_cons, echoes, echoes, same, shown]
    exact ⟨lines, congrArg _ shows⟩

theorem del_shown (cs : List UInt8) (unclean : ¬ noEmptyDel line cs) : 0x7f ∈ echoes edit' echoed' line cs := by
  induction cs generalizing line with
  | nil => exact absurd trivial unclean
  | cons c cs ih =>
    rw [echoes, List.mem_append]
    by_cases bad : c = 0x7f ∧ line = []
    · obtain ⟨rfl, rfl⟩ := bad
      exact Or.inl List.mem_cons_self
    · rw [(edit'_eq bad).1]
      exact Or.inr (ih fun clean => unclean ⟨bad, clean⟩)

theorem del_not_echoed (line cs : List UInt8) : 0x7f ∉ echoes edit echoed line cs := by
  induction cs generalizing line with
  | nil => exact List.not_mem_nil
  | cons c cs ih =>
    rw [echoes, List.mem_append]
    rintro (here | later)
    · unfold echoed at here
      split_ifs at here with removing empty control room
      · cases here
      · exact absurd (List.mem_singleton.mp here) (by decide)
      · cases here
      · have del : c = 0x7f := by
          apply UInt8.toNat_inj.mp
          have value := List.mem_singleton.mp here
          change c.toNat = 127
          omega
        exact removing (Or.inr del)
      · cases here
    · exact ih _ later

end Editors

structure Holds (s : Line) (line : List UInt8) : Prop where
  index : s.i = line.length
  room : line.length ≤ BUFLEN - 1
  chars : ∀ k, k < line.length → s.buf k = line.getD k 0

section Rounds
variable {rd : Nat → Option UInt8} {bound : Nat} {s : Line} {line : List UInt8} {c : UInt8}

theorem store_ok {buf : Nat → UInt8} {n : Nat} (inside : n < BUFLEN) (v : UInt8) :
    store buf n v = .ok (Function.update buf n v) := if_pos ⟨by omega, by omega⟩

theorem lowByte_char (c : UInt8) : lowByte (c.toNat : Int) = c := by
  have small := c.toNat_lt
  rw [← UInt8.toNat_inj]
  unfold lowByte
  rw [UInt8.toNat_ofNat']
  omega

theorem removes_int : ((c.toNat : Int) = 0x08 ∨ (c.toNat : Int) = 0x7f) ↔ removes c := by
  unfold removes
  rw [← UInt8.toNat_inj, ← UInt8.toNat_inj]
  change _ ↔ c.toNat = 8 ∨ c.toNat = 127
  omega

theorem ends_int : ((c.toNat : Int) = 0x0a ∨ (c.toNat : Int) = 0x0d) ↔ ends c := by
  unfold ends
  rw [← UInt8.toNat_inj, ← UInt8.toNat_inj]
  change _ ↔ c.toNat = 10 ∨ c.toNat = 13
  omega

theorem holds_removed (holds : Holds s line) (some_char : line ≠ []) (out : List Int) :
    Holds ⟨s.i - 1, s.buf, out⟩ line.dropLast := by
  have positive := List.length_pos_of_ne_nil some_char
  have length : line.dropLast.length = line.length - 1 := List.length_dropLast
  have room := holds.room
  constructor
  · dsimp only
    rw [length, holds.index]
    omega
  · omega
  · intro k inside
    rw [holds.chars k (by omega), List.getD_eq_getElem _ _ (by omega), List.getD_eq_getElem _ _ inside,
      List.getElem_dropLast]

theorem holds_appended (holds : Holds s line) (room : line.length < BUFLEN - 1) (c : UInt8) (out : List Int) :
    Holds ⟨s.i + 1, Function.update s.buf line.length c, out⟩ (line ++ [c]) := by
  have length : (line ++ [c]).length = line.length + 1 := List.length_append
  constructor
  · dsimp only
    rw [length, holds.index]
    rfl
  · omega
  · intro k inside
    dsimp only
    by_cases last : k = line.length
    · rw [last, Function.update_self, List.getD_append_right _ _ _ _ (Nat.le_refl _), Nat.sub_self]
      rfl
    · have before : k < line.length := by omega
      rw [Function.update_of_ne last, holds.chars k before, List.getD_append _ _ _ _ before]

theorem echo_console (z : Int) (s : Line) : echo (iscons 0) z s = { s with out := s.out ++ [z] } :=
  if_pos (by decide)

theorem round_edits (holds : Holds s line) (goes_on : ¬ ends c) :
    ∃ s', round rd bound (iscons 0) c.toNat s = .ok (.waits s') ∧ Holds s' (edit' line c) ∧
      s'.out = s.out ++ echoed' line c := by
  have not_error : ¬ (c.toNat : Int) < 0 := by omega
  have index := holds.index
  have held : (s.i > 0) ↔ line ≠ [] := by
    rw [index, ← List.length_pos_iff]
    omega
  have text : ((c.toNat : Int) ≥ (' '.toNat : Nat) ∧ s.i < ((BUFLEN : Nat) : Int) - 1) ↔
      ' '.toNat ≤ c.toNat ∧ line.length < BUFLEN - 1 := by
    rw [index]
    omega
  unfold round edit' echoed'
  rw [if_neg not_error]
  simp only [removes_int, held, text, ends_int, echo_console]
  by_cases removing : removes c ∧ line ≠ []
  · rw [if_pos removing, if_pos removing, if_pos removing]
    exact ⟨_, rfl, holds_removed holds removing.2 _, rfl⟩
  · rw [if_neg removing, if_neg removing, if_neg removing]
    by_cases adding : ' '.toNat ≤ c.toNat ∧ line.length < BUFLEN - 1
    · have stored : store s.buf s.i (lowByte c.toNat) = .ok (Function.update s.buf line.length c) := by
        rw [lowByte_char, index]
        exact store_ok (by omega) c
      rw [if_pos adding, if_pos adding, if_pos adding, stored, ok_bind]
      exact ⟨_, rfl, holds_appended holds adding.2 c _, rfl⟩
    · rw [if_neg adding, if_neg adding, if_neg adding, if_neg goes_on, List.append_nil]
      exact ⟨s, rfl, holds, rfl⟩

theorem round_ends (holds : Holds s line) (last : ends c) :
    ∃ s', round rd bound (iscons 0) c.toNat s = .ok (.returns s') ∧ Holds s' line ∧
      s'.buf line.length = 0 ∧ s'.out = s.out ++ [0x0a] := by
  have not_error : ¬ (c.toNat : Int) < 0 := by omega
  have control : c.toNat < ' '.toNat ∧ ¬ removes c := by
    rcases last with rfl | rfl
    · exact ⟨by decide, by decide⟩
    · exact ⟨by decide, by decide⟩
  have kept : ¬ (removes c ∧ s.i > 0) := fun both => control.2 both.1
  have no_text : ¬ ((c.toNat : Int) ≥ (' '.toNat : Nat) ∧ s.i < ((BUFLEN : Nat) : Int) - 1) := by omega
  have room := holds.room
  have stored : store s.buf s.i 0 = .ok (Function.update s.buf line.length 0) := by
    rw [holds.index]
    exact store_ok (by simp only [BUFLEN] at room ⊢; omega) 0
  unfold round
  simp only [removes_int, ends_int, echo_console]
  rw [if_neg not_error, if_neg kept, if_neg no_text, if_pos last, stored, ok_bind]
  refine ⟨_, rfl, ⟨holds.index, room, ?_⟩, Function.update_self _ _ _, rfl⟩
  intro k inside
  dsimp only
  rw [Function.update_of_ne (Nat.ne_of_lt inside)]
  exact holds.chars k inside

theorem rounds_edit (holds : Holds s line) (cs : List UInt8) (goes_on : ∀ c ∈ cs, ¬ ends c) (input : List Int) :
    ∃ s', Holds s' (cs.foldl edit' line) ∧ s'.out = s.out ++ echoes edit' echoed' line cs ∧
      rounds rd bound (iscons 0) s (typed cs ++ input) = rounds rd bound (iscons 0) s' input := by
  induction cs generalizing s line with
  | nil => exact ⟨s, holds, (List.append_nil _).symm, rfl⟩
  | cons c cs ih =>
    obtain ⟨s1, step, holds1, shown⟩ : ∃ s1, round rd bound (iscons 0) c.toNat s = .ok (.waits s1) ∧ _ :=
      round_edits holds (goes_on c List.mem_cons_self)
    obtain ⟨s', holds', out, run⟩ := ih holds1 fun x listed => goes_on x (List.mem_cons_of_mem c listed)
    refine ⟨s', holds', ?_, ?_⟩
    · rw [out, shown, List.append_assoc, echoes]
    · rw [← run]
      change rounds rd bound (iscons 0) s ((c.toNat : Int) :: (typed cs ++ input)) = _
      rw [rounds, step, ok_bind]

end Rounds

/-- What readline is to do with the characters before the newline, after its prompt. -/
structure Edits (s : Line) (prompted : List Int) (cs : List UInt8) : Prop where
  chars : ∀ k, k < (cs.foldl edit []).length → s.buf k = (cs.foldl edit []).getD k 0
  nul : s.buf (cs.foldl edit []).length = 0
  echo : s.out = prompted ++ (echoes edit echoed [] cs ++ [0x0a])

def before (input : List UInt8) : List UInt8 := input.takeWhile fun c => ¬ ends c

section Main
variable {rd : Nat → Option UInt8} {bound : Nat} {prompt : Arg} {prompted : List Int}

theorem before_split {input : List UInt8} (ended : ∃ c ∈ input, ends c) :
    ∃ c after, input = before input ++ c :: after ∧ ends c ∧ ∀ x ∈ before input, ¬ ends x := by
  induction input with
  | nil =>
    obtain ⟨_, listed, _⟩ := ended
    cases listed
  | cons x input ih =>
    unfold before
    by_cases here : ends x
    · rw [List.takeWhile_cons_of_neg (by simpa using here)]
      exact ⟨x, input, rfl, here, by simp⟩
    · obtain ⟨y, listed, last⟩ := ended
      have inside : y ∈ input := by
        cases listed with
        | head => exact absurd last here
        | tail _ inner => exact inner
      obtain ⟨c, after, split, stops, goes_on⟩ := ih ⟨y, inside, last⟩
      rw [List.takeWhile_cons_of_pos (by simpa using here)]
      refine ⟨c, after, congrArg (x :: ·) split, stops, ?_⟩
      intro z listed
      cases listed with
      | head => exact here
      | tail _ inner => exact goes_on z inner

theorem readline_starts (printed : printPrompt rd bound prompt = .ok prompted) (buf : Nat → UInt8)
    (cs : List UInt8) (goes_on : ∀ c ∈ cs, ¬ ends c) (input : List Int) :
    ∃ s, Holds s (cs.foldl edit' []) ∧ s.out = prompted ++ echoes edit' echoed' [] cs ∧
      readline rd bound prompt buf (typed cs ++ input) = rounds rd bound (iscons 0) s input := by
  have start : Holds ⟨0, buf, prompted⟩ [] := by
    refine ⟨rfl, by decide, ?_⟩
    intro k inside
    cases inside
  obtain ⟨s, holds, out, run⟩ := rounds_edit start cs goes_on input
  refine ⟨s, holds, out, ?_⟩
  unfold readline
  rw [printed, ok_bind]
  exact run

/-- readline edits the line, with its index inside the buffer all the time, and is the editor exactly
    when no DEL comes on an empty line. -/
theorem readline_iff (printed : printPrompt rd bound prompt = .ok prompted) (buf : Nat → UInt8)
    {input : List UInt8} (ended : ∃ c ∈ input, ends c) :
    (∀ cs, cs <+: before input → ∃ s, readline rd bound prompt buf (typed cs) = .ok (.waits s) ∧
      0 ≤ s.i ∧ s.i ≤ 1023) ∧
    ∃ s, readline rd bound prompt buf (typed input) = .ok (.returns s) ∧
      (Edits s prompted (before input) ↔ noEmptyDel [] (before input)) := by
  obtain ⟨c, after, split, last, goes_on⟩ := before_split ended
  constructor
  · intro cs part
    obtain ⟨s, holds, _, run⟩ := readline_starts printed buf cs (fun x listed => goes_on x (part.subset listed)) []
    have index := holds.index
    have room := holds.room
    simp only [BUFLEN] at room
    rw [List.append_nil] at run
    refine ⟨s, ?_, by omega, by omega⟩
    rw [run, rounds]
  · have input_split : typed input = typed (before input) ++ ((c.toNat : Int) :: typed after) := by
      conv => lhs; rw [split]
      unfold typed
      rw [List.map_append, List.map_cons]
    obtain ⟨s, holds, out, run⟩ :=
      readline_starts printed buf (before input) goes_on ((c.toNat : Int) :: typed after)
    obtain ⟨s', step, holds', nul, shown⟩ : ∃ s', round rd bound (iscons 0) c.toNat s = .ok (.returns s') ∧ _ :=
      round_ends holds last
    refine ⟨s', ?_, ?_⟩
    · rw [input_split, run, rounds, step, ok_bind]
    · rw [out, List.append_assoc] at shown
      constructor
      · intro edits
        by_contra unclean
        have same := edits.echo
        rw [shown, List.append_cancel_left_eq, List.append_cancel_right_eq] at same
        have there := del_shown (before input) unclean
        rw [same] at there
        exact del_not_echoed [] (before input) there
      · intro clean
        obtain ⟨lines, shows⟩ := edited_same (before input) clean
        rw [lines] at holds' nul
        rw [shows] at shown
        exact ⟨holds'.chars, nul, shown⟩

theorem readline_iff_abc : ∃ s, readline (fun _ => none) 0 (.word 0) (fun _ => 7)
      (typed [97, 98, 120, 0x7f, 99, 10]) = .ok (.returns s) ∧
    s.buf 2 = 99 ∧ s.buf 3 = 0 ∧ s.out = [97, 98, 120, 8, 99, 10] := by
  have printed : printPrompt (fun _ => none) 0 (.word 0) = .ok [] := if_neg (fun other => other rfl)
  have ended : ∃ c ∈ [(97 : UInt8), 98, 120, 0x7f, 99, 10], ends c := ⟨10, by decide, by decide⟩
  have text : before [97, 98, 120, 0x7f, 99, 10] = [97, 98, 120, 0x7f, 99] := by decide
  have clean : noEmptyDel [] [97, 98, 120, 0x7f, 99] :=
    ⟨by decide, by decide, by decide, by decide, by decide, trivial⟩
  obtain ⟨_, s, run, law⟩ := readline_iff printed (fun _ => 7) ended
  rw [text] at law
  have edits := law.mpr clean
  exact ⟨s, run, edits.chars 2 (by decide), edits.nul, edits.echo⟩

/-- DEL as the first character is put into the line. -/
theorem readline_del : ¬ ∀ (rd : Nat → Option UInt8) (bound : Nat) (prompt : Arg) (prompted : List Int)
    (buf : Nat → UInt8) (input : List UInt8), printPrompt rd bound prompt = .ok prompted →
    (∀ c ∈ input, c ≠ 0) → (∃ c ∈ input, ends c) →
    ∃ s, readline rd bound prompt buf (typed input) = .ok (.returns s) ∧ Edits s prompted (before input) := by
  intro claim
  have printed : printPrompt (fun _ => none) 0 (.word 0) = .ok [] := if_neg (fun other => other rfl)
  obtain ⟨s, run, edits⟩ := claim (fun _ => none) 0 (.word 0) [] (fun _ => 7) [0x7f, 0x0a] printed (by decide)
    ⟨0x0a, by decide, by decide⟩
  have typed_in : readline (fun _ => none) 0 (.word 0) (fun _ => 7) (typed [0x7f, 0x0a]) =
      .ok (.returns ⟨1, Function.update (Function.update (fun _ => 7) 0 0x7f) 1 0, [0x7f, 0x0a]⟩) := rfl
  rw [typed_in] at run
  cases run
  have echo : [0x7f, 0x0a] = [] ++ (echoes edit echoed [] [0x7f] ++ [0x0a]) := edits.echo
  exact absurd echo (by decide)

end Main

end JosReadline
