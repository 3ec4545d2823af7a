import Jos.CountedLoop
import Jos.Strtol
import Jos.PrintfStrings
import Mathlib.Data.List.TakeWhile

/- runcmd of kern/monitor.c: a command line is split in place, and its first word is looked up. -/
namespace JosRuncmd
open JosLayout JosMachine JosPrintfmt JosPrintfChars JosPrintfFields JosPrintfStrings JosStrtol CountedLoop
  WhileLoop

abbrev MAXARGS : Nat := 16

def WHITESPACE : List UInt8 := chars "\t\r\n "

def commands : List String := ["help", "kerninfo"]

inductive Fault where
  | argv (i : Nat)
  | rounds

def strchr : List UInt8 → (c : UInt8) → Option Nat
  | [], _ => none
  | x :: s, c => if x = c then some 0 else (strchr s c).map (· + 1)

def strcmp (mem : Mem) : Nat → List UInt8 → Int
  | p, [] => (mem p).toNat - 0
  | p, c :: q => if mem p ≠ 0 ∧ mem p = c then strcmp mem ((p + 1) % WORD) q else (mem p).toNat - c.toNat

def gobble (s : Mem × Nat) : Option (Mem × Nat) :=
  if s.1 s.2 ≠ 0 ∧ (strchr WHITESPACE (s.1 s.2)).isSome then
    some (Function.update s.1 s.2 0, (s.2 + 1) % WORD)
  else none

def scanArg (mem : Mem) (buf : Nat) : Option Nat :=
  if mem buf ≠ 0 ∧ ¬ (strchr WHITESPACE (mem buf)).isSome then some ((buf + 1) % WORD) else none

structure Parse where
  mem : Mem
  buf : Nat
  argc : Nat
  argv : Nat → Nat

def setArgv (argv : Nat → Nat) (argc p : Nat) : Except Fault (Nat → Nat) :=
  if argc < MAXARGS then .ok (Function.update argv argc p) else .error (.argv argc)

def finish {α : Type} : Option α → Except Fault α
  | some a => .ok a
  | none => .error .rounds

/-- The loop over the arguments, with no more rounds than bound here and in the loops inside. The
    second component says that there were too many. -/
def parse : (bound : Nat) → Parse → Except Fault (Parse × Bool)
  | 0, _ => .error .rounds
  | bound + 1, s => do
    let (mem, buf) ← finish (loop (m := Id) gobble bound (s.mem, s.buf))
    if mem buf = 0 then .ok (⟨mem, buf, s.argc, s.argv⟩, false)
    else if s.argc = MAXARGS - 1 then .ok (⟨mem, buf, s.argc, s.argv⟩, true)
    else do
      let argv ← setArgv s.argv s.argc buf
      let buf ← finish (loop (m := Id) (scanArg mem) bound buf)
      parse bound ⟨mem, buf, s.argc + 1, argv⟩

/-- What is done with the arguments: nothing, the message about too many, the function of a
    command, or the message about an unknown one. -/
inductive Outcome where
  | nothing
  | tooMany (text : Trace)
  | runs (i : Nat)
  | unknown (text : Trace)

def lookup (bound : Nat) (s : Parse) : Outcome :=
  if s.argc = 0 then .nothing
  else
    match commands.findIdx? fun name => strcmp s.mem (s.argv 0) (chars name) = 0 with
    | some i => .runs i
    | none => .unknown (cprintf (fun a => some (s.mem a)) bound "Unknown command '%s'\n" [.word (s.argv 0)])

def runcmd (bound : Nat) (mem : Mem) (argv : Nat → Nat) (buf : Nat) : Except Fault (Parse × Outcome) := do
  let argv ← setArgv argv 0 0
  let (s, tooMany) ← parse bound ⟨mem, buf, 0, argv⟩
  if tooMany then
    .ok (s, .tooMany (cprintf (fun a => some (s.mem a)) bound "Too many arguments (max %d)\n" [.word MAXARGS]))
  else do
    let argv ← setArgv s.argv s.argc 0
    let s := { s with argv := argv }
    .ok (s, lookup bound s)

def white (c : UInt8) : Bool := c = 0x09 ∨ c = 0x0d ∨ c = 0x0a ∨ c = 0x20

def runsFrom (i : Nat) (line : List UInt8) : List (Nat × List UInt8) :=
  match _split : line.dropWhile white with
  | [] => []
  | c :: rest =>
    let start := i + (line.takeWhile white).length
    let run := c :: rest.takeWhile (! white ·)
    (start, run) :: runsFrom (start + run.length) (rest.dropWhile (! white ·))
termination_by line.length
decreasing_by
  have shorter := (List.dropWhile_suffix (l := line) white).length_le
  have rest_shorter := (List.dropWhile_suffix (l := rest) (! white ·)).length_le
  rw [_split, List.length_cons] at shorter
  omega

section Blanked
variable {mem : Mem} {a i : Nat}

def blanked (mem : Mem) (a i : Nat) : Mem := fun x => if a ≤ x ∧ x < a + i ∧ white (mem x) then 0 else mem x

theorem blanked_none (mem : Mem) (a : Nat) : blanked mem a 0 = mem := by
  funext x
  exact if_neg (by omega)

theorem blanked_after (mem : Mem) {x : Nat} (after : a + i ≤ x) : blanked mem a i x = mem x := if_neg (by omega)

theorem blanked_white (here : white (mem (a + i))) :
    Function.update (blanked mem a i) (a + i) 0 = blanked mem a (i + 1) := by
  funext x
  by_cases same : x = a + i
  · rw [same, Function.update_self]
    exact (if_pos ⟨by omega, by omega, here⟩).symm
  · rw [Function.update_of_ne same]
    unfold blanked
    by_cases inside : a ≤ x ∧ x < a + i ∧ white (mem x)
    · rw [if_pos inside, if_pos ⟨inside.1, by omega, inside.2.2⟩]
    · rw [if_neg inside, if_neg (fun wider => inside ⟨wider.1, by omega, wider.2.2⟩)]

theorem blanked_text (here : ¬ white (mem (a + i))) : blanked mem a i = blanked mem a (i + 1) := by
  funext x
  unfold blanked
  by_cases inside : a ≤ x ∧ x < a + i ∧ white (mem x)
  · rw [if_pos inside, if_pos ⟨inside.1, by omega, inside.2.2⟩]
  · have wider : ¬ (a ≤ x ∧ x < a + (i + 1) ∧ white (mem x)) := by
      rintro ⟨low, high, blank⟩
      by_cases same : x = a + i
      · exact here (same ▸ blank)
      · exact inside ⟨low, by omega, blank⟩
    rw [if_neg inside, if_neg wider]

theorem strchr_white (c : UInt8) : (strchr WHITESPACE c).isSome ↔ white c := by
  have text : WHITESPACE = [0x09, 0x0d, 0x0a, 0x20] := rfl
  rw [text]
  unfold white
  by_cases tab : 0x09 = c
  · simp [strchr, ← tab]
  by_cases cr : 0x0d = c
  · simp [strchr, ← cr]
  by_cases lf : 0x0a = c
  · simp [strchr, ← lf]
  by_cases blank : 0x20 = c
  · simp [strchr, ← blank]
  · simp [strchr, tab, cr, lf, blank, Ne.symm tab, Ne.symm cr, Ne.symm lf, Ne.symm blank]

end Blanked

structure Text (mem : Mem) (a : Nat) (line : List UInt8) : Prop where
  holds : Holds mem a (line ++ [0])
  nonzero : ∀ c ∈ line, c ≠ 0
  space : a + line.length < WORD

section Words
variable {mem : Mem} {a i : Nat} {c : UInt8} {line rest : List UInt8}

theorem text_cons (text : Text mem a (c :: rest)) : mem a = c ∧ c ≠ 0 ∧ Text mem (a + 1) rest := by
  refine ⟨text.holds.1, text.nonzero c List.mem_cons_self, text.holds.2, ?_, ?_⟩
  · exact fun x listed => text.nonzero x (List.mem_cons_of_mem c listed)
  · have space := text.space
    rw [List.length_cons] at space
    omega

theorem text_append {first : List UInt8} (text : Text mem a (first ++ rest)) : Text mem (a + first.length) rest := by
  have holds := text.holds
  rw [List.append_assoc] at holds
  refine ⟨(holds_append.mp holds).2, ?_, ?_⟩
  · exact fun x listed => text.nonzero x (List.mem_append_right first listed)
  · have space := text.space
    rw [List.length_append] at space
    omega

theorem gobble_blanks (bound : Nat) (text : Text mem (a + i) line) (enough : line.length < bound) :
    loop (m := Id) gobble bound (blanked mem a i, a + i) =
      some (blanked mem a (i + (line.takeWhile white).length), a + i + (line.takeWhile white).length) := by
  induction line generalizing i bound with
  | nil =>
    obtain ⟨b, rfl⟩ := Nat.exists_eq_add_one_of_ne_zero (Nat.ne_of_gt (Nat.zero_lt_of_lt enough))
    have nul : blanked mem a i (a + i) = 0 := (blanked_after mem (Nat.le_refl _)).trans text.holds.1
    have done : gobble (blanked mem a i, a + i) = none := if_neg (fun both => both.1 nul)
    exact loop_done (m := Id) done
  | cons c line ih =>
    obtain ⟨b, rfl⟩ := Nat.exists_eq_add_one_of_ne_zero (Nat.ne_of_gt (Nat.zero_lt_of_lt enough))
    obtain ⟨here, nonzero, more⟩ := text_cons text
    have seen : blanked mem a i (a + i) = c := (blanked_after mem (Nat.le_refl _)).trans here
    by_cases blank : white c
    · have next : (a + i + 1) % WORD = a + (i + 1) := Nat.mod_eq_of_lt (by have := more.space; omega)
      have goes_on : blanked mem a i (a + i) ≠ 0 ∧ (strchr WHITESPACE (blanked mem a i (a + i))).isSome := by
        rw [seen]
        exact ⟨nonzero, (strchr_white c).mpr blank⟩
      have step : gobble (blanked mem a i, a + i) = some (blanked mem a (i + 1), a + (i + 1)) := by
        rw [← next, ← blanked_white (here.symm ▸ blank)]
        exact if_pos goes_on
      have later := ih b (show Text mem (a + (i + 1)) line from more) (Nat.lt_of_succ_lt_succ enough)
      rw [loop_next (m := Id) step, List.takeWhile_cons_of_pos blank, List.length_cons]
      rw [later]
      congr 2
      · congr 1
        omega
      · omega
    · have stops : ¬ (blanked mem a i (a + i) ≠ 0 ∧ (strchr WHITESPACE (blanked mem a i (a + i))).isSome) := by
        rw [seen]
        exact fun both => blank ((strchr_white c).mp both.2)
      have done : gobble (blanked mem a i, a + i) = none := if_neg stops
      rw [List.takeWhile_cons_of_neg blank]
      exact loop_done (m := Id) done

theorem scanArg_text (bound j : Nat) (after : i ≤ j) (text : Text mem (a + j) line) (enough : line.length < bound) :
    loop (m := Id) (scanArg (blanked mem a i)) bound (a + j) =
      some (a + j + (line.takeWhile (! white ·)).length) := by
  induction line generalizing j bound with
  | nil =>
    obtain ⟨b, rfl⟩ := Nat.exists_eq_add_one_of_ne_zero (Nat.ne_of_gt (Nat.zero_lt_of_lt enough))
    have nul : blanked mem a i (a + j) = 0 := (blanked_after mem (by omega)).trans text.holds.1
    have done : scanArg (blanked mem a i) (a + j) = none := if_neg (fun both => both.1 nul)
    exact loop_done (m := Id) done
  | cons c line ih =>
    obtain ⟨b, rfl⟩ := Nat.exists_eq_add_one_of_ne_zero (Nat.ne_of_gt (Nat.zero_lt_of_lt enough))
    obtain ⟨here, nonzero, more⟩ := text_cons text
    have seen : blanked mem a i (a + j) = c := (blanked_after mem (by omega)).trans here
    by_cases blank : white c
    · have done : scanArg (blanked mem a i) (a + j) = none := by
        unfold scanArg
        rw [seen]
        exact if_neg (fun both => both.2 ((strchr_white c).mpr blank))
      rw [List.takeWhile_cons_of_neg (by simpa using blank)]
      exact loop_done (m := Id) done
    · have next : (a + j + 1) % WORD = a + (j + 1) := Nat.mod_eq_of_lt (by have := more.space; omega)
      have step : scanArg (blanked mem a i) (a + j) = some (a + (j + 1)) := by
        unfold scanArg
        rw [seen, if_pos ⟨nonzero, fun found => blank ((strchr_white c).mp found)⟩, next]
      have later := ih b (j + 1) (by omega) more (Nat.lt_of_succ_lt_succ enough)
      rw [loop_next (m := Id) step, List.takeWhile_cons_of_pos (by simpa using blank), List.length_cons, later]
      congr 1
      omega

end Words

section Parse
variable {mem : Mem} {a i : Nat} {c : UInt8} {line rest : List UInt8}

theorem runsFrom_none (blank : line.dropWhile white = []) : runsFrom i line = [] := by
  rw [runsFrom]
  split
  · rfl
  · rename_i split
    rw [blank] at split
    cases split

theorem runsFrom_some (split : line.dropWhile white = c :: rest) :
    runsFrom i line = (i + (line.takeWhile white).length, c :: rest.takeWhile (! white ·)) ::
      runsFrom (i + (line.takeWhile white).length + (c :: rest.takeWhile (! white ·)).length)
        (rest.dropWhile (! white ·)) := by
  rw [runsFrom]
  split
  · rename_i blank
    rw [split] at blank
    cases blank
  · rename_i c' rest' same
    rw [split] at same
    cases same
    rfl

theorem text_blanks (text : Text mem (a + i) line) :
    Text mem (a + (i + (line.takeWhile white).length)) (line.dropWhile white) := by
  rw [← Nat.add_assoc]
  apply text_append
  rw [List.takeWhile_append_dropWhile]
  exact text

theorem first_text (split : line.dropWhile white = c :: rest) : ¬ white c := by
  have some_char : line.dropWhile white ≠ [] := by
    rw [split]
    exact List.cons_ne_nil c rest
  have head := List.head_dropWhile_not white some_char
  simp only [split, List.head_cons] at head
  simp [head]

theorem blanked_run (run : List UInt8) (text : Text mem (a + i) (run ++ rest)) (word : ∀ x ∈ run, ¬ white x) :
    blanked mem a i = blanked mem a (i + run.length) := by
  induction run generalizing i with
  | nil => rfl
  | cons x run ih =>
    obtain ⟨here, _, more⟩ := text_cons text
    have first : ¬ white (mem (a + i)) := by
      rw [here]
      exact word x List.mem_cons_self
    have later := ih (show Text mem (a + (i + 1)) (run ++ rest) from more)
      fun y listed => word y (List.mem_cons_of_mem x listed)
    rw [blanked_text first, later, List.length_cons]
    congr 1
    omega

def Points (a : Nat) (argv : Nat → Nat) (argc : Nat) (words : List (Nat × List UInt8)) : Prop :=
  ∀ j p run, words[j]? = some (p, run) → argv (argc + j) = a + p

theorem parse_blanks {b argc : Nat} {argv : Nat → Nat} (blank : line.dropWhile white = [])
    (text : Text mem (a + i) line) (enough : line.length < b) :
    parse (b + 1) ⟨blanked mem a i, a + i, argc, argv⟩ =
      .ok (⟨blanked mem a (i + line.length), a + (i + line.length), argc, argv⟩, false) := by
  have all : line.takeWhile white = line := by
    have parts := List.takeWhile_append_dropWhile (p := white) (l := line)
    rw [blank, List.append_nil] at parts
    exact parts
  have skipped := gobble_blanks b text enough
  have left := text_blanks text
  rw [all] at skipped left
  rw [blank] at left
  have nul : blanked mem a (i + line.length) (a + i + line.length) = 0 := by
    rw [blanked_after mem (by omega), Nat.add_assoc]
    exact left.holds.1
  unfold parse
  rw [skipped]
  change (if blanked mem a (i + line.length) (a + i + line.length) = 0 then _ else _) = _
  rw [if_pos nul, Nat.add_assoc]

theorem split_length (split : line.dropWhile white = c :: rest) :
    line.length = (line.takeWhile white).length + (c :: rest.takeWhile (! white ·)).length +
      (rest.dropWhile (! white ·)).length := by
  have parts : line.length = (line.takeWhile white).length + (c :: rest).length := by
    rw [← split, ← List.length_append, List.takeWhile_append_dropWhile]
  have whole : (rest.takeWhile (! white ·)).length + (rest.dropWhile (! white ·)).length = rest.length := by
    rw [← List.length_append, List.takeWhile_append_dropWhile]
  rw [parts, List.length_cons, List.length_cons]
  omega

theorem parse_word {b : Nat} (argc : Nat) (argv : Nat → Nat) (split : line.dropWhile white = c :: rest)
    (text : Text mem (a + i) line) (enough : line.length < b) :
    parse (b + 1) ⟨blanked mem a i, a + i, argc, argv⟩ =
      if argc = 15 then .ok (⟨blanked mem a (i + (line.takeWhile white).length),
          a + (i + (line.takeWhile white).length), argc, argv⟩, true)
      else setArgv argv argc (a + (i + (line.takeWhile white).length)) >>= fun argv' =>
        finish (loop (m := Id) (scanArg (blanked mem a (i + (line.takeWhile white).length))) b
          (a + (i + (line.takeWhile white).length))) >>= fun buf =>
            parse b ⟨blanked mem a (i + (line.takeWhile white).length), buf, argc + 1, argv'⟩ := by
  have left : Text mem (a + (i + (line.takeWhile white).length)) (c :: rest) := split ▸ text_blanks text
  obtain ⟨here, nonzero, _⟩ := text_cons left
  have skipped := gobble_blanks b text enough
  rw [Nat.add_assoc] at skipped
  have seen : blanked mem a (i + (line.takeWhile white).length)
      (a + (i + (line.takeWhile white).length)) ≠ 0 := by
    rw [blanked_after mem (Nat.le_refl _), here]
    exact nonzero
  conv => lhs; unfold parse
  rw [skipped]
  exact if_neg seen

theorem parse_next {b argc : Nat} (argv : Nat → Nat) (start : Nat) (run : List UInt8)
    (split : line.dropWhile white = c :: rest) (text : Text mem (a + i) line)
    (enough : line.length < b) (room : argc < 15) (begins : start = i + (line.takeWhile white).length)
    (word : run = c :: rest.takeWhile (! white ·)) :
    parse (b + 1) ⟨blanked mem a i, a + i, argc, argv⟩ =
        parse b ⟨blanked mem a (start + run.length), a + (start + run.length), argc + 1,
          Function.update argv argc (a + start)⟩ ∧
      Text mem (a + (start + run.length)) (rest.dropWhile (! white ·)) := by
  have left : Text mem (a + start) (c :: rest) := begins ▸ split ▸ text_blanks text
  have whole : c :: rest = run ++ rest.dropWhile (! white ·) := by
    rw [word]
    exact congrArg (c :: ·) List.takeWhile_append_dropWhile.symm
  have taken : (c :: rest).takeWhile (! white ·) = run := by
    have first : (! white c) = true := by simpa using first_text split
    rw [word]
    exact List.takeWhile_cons_of_pos (p := (! white ·)) first
  have short : (c :: rest).length < b := by
    have sum := split_length split
    have parts := congrArg List.length whole
    rw [← word] at sum
    rw [List.length_append] at parts
    omega
  have scanned : loop (m := Id) (scanArg (blanked mem a start)) b (a + start) =
      some (a + (start + run.length)) := by
    rw [scanArg_text b start (Nat.le_refl _) left short, taken, Nat.add_assoc]
  have same : blanked mem a start = blanked mem a (start + run.length) := by
    apply blanked_run run (whole ▸ left)
    intro x listed
    rw [← taken] at listed
    simpa using List.mem_takeWhile_imp listed
  have stored : setArgv argv argc (a + start) = .ok (Function.update argv argc (a + start)) :=
    if_pos (by simp only [MAXARGS]; omega)
  refine ⟨?_, ?_⟩
  · rw [parse_word argc argv split text enough, if_neg (by omega), ← begins, stored, ok_bind, scanned]
    change parse b ⟨blanked mem a start, a + (start + run.length), argc + 1, _⟩ = _
    rw [same]
  · rw [← Nat.add_assoc]
    exact text_append (whole ▸ left)

theorem points_cons {argc p : Nat} {argv argv' : Nat → Nat} {words : List (Nat × List UInt8)}
    (run : List UInt8) (before : ∀ j, j < argc + 1 → argv' j = Function.update argv argc (a + p) j)
    (points : Points a argv' (argc + 1) words) : Points a argv' argc ((p, run) :: words) := by
  intro j q word found
  cases j with
  | zero =>
    cases found
    rw [Nat.add_zero, before argc (Nat.lt_succ_self _), Function.update_self]
  | succ j =>
    have later := points j q word found
    rw [← later]
    congr 1
    omega

theorem parse_runs (i : Nat) (line : List UInt8) : ∀ (bound argc : Nat) (argv : Nat → Nat),
    Text mem (a + i) line → line.length + 1 < bound → argc ≤ 15 →
    (argc + (runsFrom i line).length ≤ 15 → ∃ argv', parse bound ⟨blanked mem a i, a + i, argc, argv⟩ =
        .ok (⟨blanked mem a (i + line.length), a + (i + line.length), argc + (runsFrom i line).length, argv'⟩,
          false) ∧ (∀ j, j < argc → argv' j = argv j) ∧ Points a argv' argc (runsFrom i line)) ∧
    (15 < argc + (runsFrom i line).length → ∃ s m, parse bound ⟨blanked mem a i, a + i, argc, argv⟩ =
      .ok (s, true) ∧ s.mem = blanked mem a m ∧ m ≤ i + line.length) := by
  induction i, line using runsFrom.induct with
  | case1 i line blank =>
    intro bound argc argv text enough few
    obtain ⟨b, rfl⟩ : ∃ b, bound = b + 1 := ⟨bound - 1, by omega⟩
    rw [runsFrom_none blank]
    refine ⟨fun _ => ⟨argv, parse_blanks blank text (by omega), fun j _ => rfl, ?_⟩, fun beyond => ?_⟩
    · intro j p run found
      cases found
    · exact absurd few (by simpa using beyond)
  | case2 i line c rest split start run ih =>
    intro bound argc argv text enough few
    obtain ⟨b, rfl⟩ : ∃ b, bound = b + 1 := ⟨bound - 1, by omega⟩
    have total : line.length = (line.takeWhile white).length + run.length +
        (rest.dropWhile (! white ·)).length := split_length split
    have some_char : 0 < run.length := Nat.zero_lt_succ _
    rw [runsFrom_some split, List.length_cons]
    by_cases full : argc = 15
    · have opened := parse_word (b := b) argc argv split text (by omega)
      rw [if_pos full] at opened
      exact ⟨fun few => absurd few (by omega), fun _ => ⟨_, start, opened, rfl, by omega⟩⟩
    · obtain ⟨opened, rest_text⟩ := parse_next (b := b) argv start run
        split text (by omega) (show argc < 15 by omega) rfl rfl
      obtain ⟨fits, beyond⟩ :=
        ih b (argc + 1) (Function.update argv argc (a + start)) rest_text (by omega) (by omega)
      have count : argc + 1 + (runsFrom (start + run.length) (rest.dropWhile (! white ·))).length =
          argc + ((runsFrom (start + run.length) (rest.dropWhile (! white ·))).length + 1) := by omega
      have ends : start + run.length + (rest.dropWhile (! white ·)).length = i + line.length := by
        omega
      rw [count, ends] at fits
      rw [count, ends] at beyond
      rw [opened]
      refine ⟨fun few => ?_, beyond⟩
      obtain ⟨argv', run', before, points⟩ := fits few
      refine ⟨argv', run', fun j below => ?_, points_cons run before points⟩
      rw [before j (by omega), Function.update_of_ne (by omega)]

end Parse

section Lookup
variable {mem : Mem} {a i n p : Nat} {line run q : List UInt8}

theorem holds_blanked (n : Nat) (run : List UInt8) (word : ∀ c ∈ run, ¬ white c) (holds : Holds mem p run) :
    Holds (blanked mem a n) p run := by
  induction run generalizing p with
  | nil => trivial
  | cons c run ih =>
    obtain ⟨here, more⟩ := holds
    refine ⟨?_, ih (fun x listed => word x (List.mem_cons_of_mem c listed)) more⟩
    have text : ¬ white (mem p) := by
      rw [here]
      exact word c List.mem_cons_self
    rw [← here]
    exact if_neg (fun inside => text inside.2.2)

theorem runs_hold (i : Nat) (line : List UInt8) : Text mem (a + i) line → ∀ p run,
    (p, run) ∈ runsFrom i line → Holds (blanked mem a (i + line.length)) (a + p) (run ++ [0]) ∧
      (∀ c ∈ run, c ≠ 0) ∧ a + p + run.length < WORD := by
  induction i, line using runsFrom.induct with
  | case1 i line blank =>
    intro _ p run listed
    rw [runsFrom_none blank] at listed
    cases listed
  | case2 i line c rest split start run ih =>
    intro text p word listed
    have left : Text mem (a + start) (c :: rest) := split ▸ text_blanks text
    have whole : c :: rest = run ++ rest.dropWhile (! white ·) :=
      congrArg (c :: ·) List.takeWhile_append_dropWhile.symm
    have parts : line.length = (line.takeWhile white).length + (c :: rest).length := by
      rw [← split, ← List.length_append, List.takeWhile_append_dropWhile]
    have total : (c :: rest).length = run.length + (rest.dropWhile (! white ·)).length := by
      rw [whole, List.length_append]
    have ends : start + run.length + (rest.dropWhile (! white ·)).length = i + line.length := by omega
    have rest_text : Text mem (a + (start + run.length)) (rest.dropWhile (! white ·)) := by
      rw [← Nat.add_assoc]
      exact text_append (whole ▸ left)
    rw [runsFrom_some split] at listed
    rcases List.mem_cons.mp listed with first | later
    · obtain ⟨rfl, rfl⟩ := Prod.mk.inj first
      have length : (c :: rest.takeWhile (! white ·)).length = run.length := rfl
      have text_run : ∀ x ∈ run, ¬ white x := by
        intro x inside
        rcases List.mem_cons.mp inside with rfl | inner
        · exact first_text split
        · simpa using List.mem_takeWhile_imp inner
      have holds := left.holds
      rw [whole, List.append_assoc] at holds
      obtain ⟨chars, after⟩ := holds_append.mp holds
      refine ⟨holds_append.mpr ⟨holds_blanked _ run text_run chars, ?_, trivial⟩, ?_, ?_⟩
      · cases tail : rest.dropWhile (! white ·) with
        | nil =>
          rw [tail] at after ends
          have last : ([] : List UInt8).length = 0 := List.length_nil
          rw [blanked_after mem (by change a + (i + line.length) ≤ a + start + run.length; omega)]
          exact after.1
        | cons d more =>
          rw [tail] at after ends
          have last : (d :: more).length = more.length + 1 := List.length_cons
          have some_char : rest.dropWhile (! white ·) ≠ [] := by
            rw [tail]
            exact List.cons_ne_nil d more
          have blank := List.head_dropWhile_not (! white ·) some_char
          simp only [tail, List.head_cons] at blank
          have here : mem (a + start + run.length) = d := after.1
          have white_here : white (mem (a + start + run.length)) := by
            rw [here]
            simpa using blank
          exact if_pos ⟨by omega, by omega, white_here⟩
      · intro x inside
        exact left.nonzero x (whole ▸ List.mem_append_left _ inside)
      · have space := left.space
        omega
    · obtain ⟨holds, nonzero, space⟩ := ih rest_text p word later
      rw [ends] at holds
      exact ⟨holds, nonzero, space⟩

theorem strcmp_zero (q : List UInt8) (nonzero : ∀ c ∈ q, c ≠ 0) (holds : Holds mem p (run ++ [0]))
    (word : ∀ c ∈ run, c ≠ 0) (space : p + run.length < WORD) : strcmp mem p q = 0 ↔ q = run := by
  induction q generalizing p run with
  | nil =>
    unfold strcmp
    cases run with
    | nil =>
      rw [holds.1]
      exact ⟨fun _ => rfl, fun _ => rfl⟩
    | cons x run =>
      rw [holds.1]
      have positive : x.toNat ≠ 0 := fun zero => word x List.mem_cons_self (UInt8.toNat_inj.mp zero)
      exact ⟨fun zero => absurd zero (by omega), fun same => by cases same⟩
  | cons c q ih =>
    unfold strcmp
    have positive : c.toNat ≠ 0 := fun zero => nonzero c List.mem_cons_self (UInt8.toNat_inj.mp zero)
    cases run with
    | nil =>
      rw [holds.1, if_neg (fun both => both.1 rfl)]
      refine ⟨fun zero => absurd zero ?_, fun same => by cases same⟩
      change (0 : Int) - c.toNat ≠ 0
      omega
    | cons x run =>
      have some_char := word x List.mem_cons_self
      rw [holds.1]
      by_cases same : x = c
      · have next : (p + 1) % WORD = p + 1 := Nat.mod_eq_of_lt (by rw [List.length_cons] at space; omega)
        rw [if_pos ⟨some_char, same⟩, next, same]
        rw [ih (fun y listed => nonzero y (List.mem_cons_of_mem c listed)) holds.2
          (fun y listed => word y (List.mem_cons_of_mem x listed)) (by rw [List.length_cons] at space; omega)]
        exact ⟨congrArg (c :: ·), fun whole => (List.cons.inj whole).2⟩
      · have other : x.toNat ≠ c.toNat := fun equal => same (UInt8.toNat_inj.mp equal)
        rw [if_neg (fun both => same both.2)]
        exact ⟨fun zero => absurd zero (by omega), fun whole => absurd (List.cons.inj whole).1.symm same⟩

theorem commands_nonzero : ∀ name ∈ commands, ∀ c ∈ chars name, c ≠ 0 := by decide

end Lookup

/-- The line is split in place into its runs, argv points to them in order, and the NULL after the
    last of them; no byte outside the line is changed. -/
structure Tokenised (mem : Mem) (a : Nat) (line : List UInt8) (s : Parse) : Prop where
  argc : s.argc = (runsFrom 0 line).length
  args : ∀ j p run, (runsFrom 0 line)[j]? = some (p, run) → s.argv j = a + p ∧ Holds s.mem (a + p) (run ++ [0])
  last : s.argv s.argc = 0
  outside : ∀ x, x < a ∨ a + line.length ≤ x → s.mem x = mem x

def Dispatches (words : List (Nat × List UInt8)) : Outcome → Prop
  | .nothing => words = []
  | .runs i => ∃ w ∈ words.head?, commands.findIdx? (fun name => chars name = w.2) = some i
  | .unknown _ => ∃ w ∈ words.head?, commands.findIdx? (fun name => chars name = w.2) = none
  | .tooMany _ => False

section Main
variable {mem : Mem} {a bound : Nat} {line : List UInt8}

theorem blanked_outside (mem : Mem) {m : Nat} (few : m ≤ line.length) {x : Nat}
    (outside : x < a ∨ a + line.length ≤ x) : blanked mem a m x = mem x := if_neg (by omega)

theorem findIdx?_same {names : List String} {p q : String → Bool} (same : ∀ name ∈ names, p name = q name) :
    names.findIdx? p = names.findIdx? q := by
  induction names with
  | nil => rfl
  | cons name names ih =>
    rw [List.findIdx?_cons, List.findIdx?_cons, same name List.mem_cons_self,
      ih fun x listed => same x (List.mem_cons_of_mem name listed)]

theorem lookup_dispatches (bound : Nat) {s : Parse} (tokens : Tokenised mem a line s) (text : Text mem a line)
    (whole : s.mem = blanked mem a line.length) : Dispatches (runsFrom 0 line) (lookup bound s) := by
  unfold lookup
  cases words : runsFrom 0 line with
  | nil =>
    have none_left : s.argc = 0 := by rw [tokens.argc, words, List.length_nil]
    rw [if_pos none_left]
    rfl
  | cons w rest =>
    obtain ⟨p, run⟩ := w
    have some_arg : ¬ s.argc = 0 := by
      rw [tokens.argc, words, List.length_cons]
      omega
    have listed : (p, run) ∈ runsFrom 0 line := by
      rw [words]
      exact List.mem_cons_self
    obtain ⟨holds, nonzero, space⟩ := runs_hold 0 line text p run listed
    rw [Nat.zero_add, ← whole] at holds
    have place := (tokens.args 0 p run (by rw [words]; rfl)).1
    have same : commands.findIdx? (fun name => strcmp s.mem (s.argv 0) (chars name) = 0) =
        commands.findIdx? (fun name => chars name = run) := by
      apply findIdx?_same
      intro name listed
      rw [place, decide_eq_decide]
      exact strcmp_zero (chars name) (commands_nonzero name listed) holds nonzero space
    rw [if_neg some_arg, same]
    cases found : commands.findIdx? (fun name => chars name = run) with
    | none => exact ⟨(p, run), rfl, found⟩
    | some i => exact ⟨(p, run), rfl, found⟩

theorem prints_tooMany (mem : Mem) (bound : Nat) :
    Prints (cprintf (fun a => some (mem a)) bound "Too many arguments (max %d)\n" [.word MAXARGS])
      (shown (chars "Too many arguments (max 16)\n")) := by
  let f : Field := ⟨.none, .absent, 0, .d⟩
  have text : chars "Too many arguments (max %d)\n" =
      chars "Too many arguments (max " ++ (f.format ++ (chars ")\n" ++ [])) := rfl
  have number : written f.flag (f.asked (argList [.word MAXARGS] fun _ => .word 0) 0)
      (sign (f.value (argList [.word MAXARGS] fun _ => .word 0) 0))
      (f.digits (argList [.word MAXARGS] fun _ => .word 0) 0) = shown (chars "16") := by decide
  have whole : chars "Too many arguments (max 16)\n" =
      chars "Too many arguments (max " ++ (chars "16" ++ chars ")\n") := rfl
  unfold cprintf vprintfmt
  rw [text, loop_literals 0 (chars "Too many arguments (max ") _ (by decide),
    loop_field f _ (Int.le_refl (-1)), number, loop_literals _ (chars ")\n") [] (by decide), loop_nil,
    Trace.andThen_done, whole]
  unfold shown
  rw [List.map_append, List.map_append]
  exact prints_andThen (prints_emits _) (prints_andThen (prints_emits _) (prints_emits _))

/-- runcmd splits every line. With 15 runs or fewer it dispatches on the first; with more it says so
    and runs no command. -/
theorem runcmd_tokenises (text : Text mem a line) (enough : line.length + 1 < bound) (argv : Nat → Nat) :
    ((runsFrom 0 line).length ≤ 15 → ∃ s o, runcmd bound mem argv a = .ok (s, o) ∧
      Tokenised mem a line s ∧ Dispatches (runsFrom 0 line) o) ∧
    (15 < (runsFrom 0 line).length → ∃ s t, runcmd bound mem argv a = .ok (s, .tooMany t) ∧
      Prints t (shown (chars "Too many arguments (max 16)\n")) ∧
      ∀ x, x < a ∨ a + line.length ≤ x → s.mem x = mem x) := by
  have cleared : setArgv argv 0 0 = .ok (Function.update argv 0 0) := if_pos (by decide)
  have start : Text mem (a + 0) line := text
  obtain ⟨fits, beyond⟩ := parse_runs 0 line bound 0 (Function.update argv 0 0) start enough (by decide)
  rw [blanked_none, Nat.add_zero, Nat.zero_add, Nat.zero_add] at fits beyond
  constructor
  · intro few
    obtain ⟨argv', run, _, points⟩ := fits few
    have stored : setArgv argv' (runsFrom 0 line).length 0 =
        .ok (Function.update argv' (runsFrom 0 line).length 0) := if_pos (by simp only [MAXARGS]; omega)
    have tokens : Tokenised mem a line
        ⟨blanked mem a line.length, a + line.length, (runsFrom 0 line).length,
          Function.update argv' (runsFrom 0 line).length 0⟩ := by
      refine ⟨rfl, ?_, Function.update_self _ _ _, fun x outside => blanked_outside mem (Nat.le_refl _) outside⟩
      intro j p word found
      have inside : j < (runsFrom 0 line).length := (List.getElem?_eq_some_iff.mp found).1
      have place := points j p word found
      obtain ⟨holds, _, _⟩ := runs_hold 0 line text p word (List.mem_of_getElem? found)
      rw [Nat.zero_add] at place holds
      dsimp only
      rw [Function.update_of_ne (Nat.ne_of_lt inside), place]
      exact ⟨rfl, holds⟩
    refine ⟨_, _, ?_, tokens, lookup_dispatches bound tokens text rfl⟩
    unfold runcmd
    rw [cleared, ok_bind, run, ok_bind]
    dsimp only
    rw [if_neg (by decide), stored, ok_bind]
  · intro many
    obtain ⟨s, m, run, whole, few⟩ := beyond many
    refine ⟨s, _, ?_, prints_tooMany s.mem bound, fun x outside => ?_⟩
    · unfold runcmd
      rw [cleared, ok_bind, run, ok_bind]
      rfl
    · rw [whole]
      exact blanked_outside mem few outside

theorem help_runs : runsFrom 0 (chars " help ") = [(1, chars "help")] := by
  have first : (chars " help ").dropWhile white = byte 'h' :: chars "elp " := by decide
  have last : ((chars "elp ").dropWhile (! white ·)).dropWhile white = [] := by decide
  rw [runsFrom_some first, runsFrom_none last]
  decide

/-- The line " help " runs the first command. -/
theorem runcmd_tokenises_help : ∃ s, runcmd 8 (storeBytes (fun _ => 1) 4096 (chars " help " ++ [0])) (fun _ => 7)
      4096 = .ok (s, .runs 0) ∧ s.argc = 1 ∧ s.argv 0 = 4097 ∧ s.argv 1 = 0 := by
  have text : Text (storeBytes (fun _ => 1) 4096 (chars " help " ++ [0])) 4096 (chars " help ") :=
    ⟨holds_storeBytes _ _ _, by decide, by decide⟩
  have few : (runsFrom 0 (chars " help ")).length ≤ 15 := by
    rw [help_runs]
    decide
  obtain ⟨s, o, run, tokens, dispatches⟩ :=
    (runcmd_tokenises text (show (chars " help ").length + 1 < 8 by decide) (fun _ => 7)).1 few
  have argc := tokens.argc
  have place := (tokens.args 0 1 (chars "help") (by rw [help_runs]; rfl)).1
  have last := tokens.last
  rw [help_runs] at argc dispatches
  rw [argc] at last
  have found : commands.findIdx? (fun name => chars name = chars "help") = some 0 := by decide
  cases o with
  | nothing => cases dispatches
  | tooMany t => cases dispatches
  | unknown t =>
    obtain ⟨w, first, missing⟩ := dispatches
    cases first
    rw [found] at missing
    cases missing
  | runs i =>
    obtain ⟨w, first, there⟩ := dispatches
    cases first
    rw [found] at there
    cases there
    exact ⟨s, run, argc, place, last⟩

end Main

end JosRuncmd
