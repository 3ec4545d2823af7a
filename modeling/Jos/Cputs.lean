import Jos.Trap
import Jos.UserMemCheck

/- sys_cputs: what cprintf("%.*s", len, s) reads through s, against the range that
   user_mem_assert has looked at. -/
namespace JosCputs
open JosLayout FrameWords JosMachine JosPmap JosMmu JosEnv JosPrintfmt JosTrap JosBoot

section PutString
variable {rd : Nat → Option UInt8} {altflag : Bool}

def Goes (rd : Nat → Option UInt8) (a : Nat) : Prop := ∃ c, rd a = some c ∧ c ≠ 0

end PutString

theorem vprintfmt_dot_star_s (rd : Nat → Option UInt8) (bound len va : Nat) (beyond : Nat → Arg) :
    vprintfmt rd bound (chars "%.*s") (argList [.word len, .word va] beyond) =
      convString rd bound ⟨' '.toNat, 0, wrap len, 0, false⟩ (.word va) := by
  have text : chars "%.*s" = [37, 46, 42, 115] := by decide
  have scanned : scan (argList [.word len, .word va] beyond) none Spec.start 0 [46, 42, 115] =
      ⟨⟨' '.toNat, 0, wrap len, 0, false⟩, 1, 115, []⟩ := by
    simp [scan, Spec.flush, Spec.start, isDigit, argList, asInt, Spec.processPrecision]
  unfold vprintfmt
  rw [text]
  unfold vprintfmtLoop
  simp [scanned, convert, argList, vprintfmtLoop]

section Printed
variable {rd : Nat → Option UInt8} {va len : Nat}

def printedBy (rd : Nat → Option UInt8) (bound len va : Nat) (beyond : Nat → Arg) : Trace :=
  vprintfmt rd bound (chars "%.*s") (argList [.word len, .word va] beyond)

theorem wrap_len (slen : len < WORD) : wrap len < 0 ∧ 2147483648 ≤ len ∨
    wrap len = len ∧ len < 2147483648 := by
  simp only [wrap, Int.bmod, WORD] at *
  omega

end Printed

def Accepted (s : State) (va len : Nat) : Prop :=
  ∃ envid r e s', sysGetenvid s = .ok envid ∧ envid2env s envid true = .ok (r, e) ∧
    userMemAssert s e va len PTE_U = .ok s'

theorem loop_keeps_state {s s' : State} {env : Option Nat} {va perm addr pages : Nat} {r : Int}
    (run : userMemCheckLoop s env va perm addr pages = .ok (r, s')) :
    (r = 0 ∧ s' = s) ∨ r = -E_FAULT := by
  induction pages generalizing addr with
  | zero =>
    simp only [userMemCheckLoop, Except.ok.injEq, Prod.mk.injEq] at run
    exact Or.inl ⟨run.1.symm, run.2.symm⟩
  | succ pages ih =>
    unfold userMemCheckLoop at run
    obtain ⟨e, _, deref⟩ := CountedLoop.bind_ok.mp run
    obtain ⟨pgdir, _, walk⟩ := CountedLoop.bind_ok.mp deref
    obtain ⟨⟨pte, s1⟩, walked, judged⟩ := CountedLoop.bind_ok.mp walk
    have same := pgdirWalk_lookup walked
    dsimp only at judged
    rw [same] at judged
    by_cases bad : badPage s pte addr perm
    · rw [if_pos bad] at judged
      cases judged
      exact Or.inr rfl
    · rw [if_neg bad] at judged
      exact ih judged

theorem assert_keeps_state {s s' : State} {env : Option Nat} {va len perm : Nat}
    (run : userMemAssert s env va len perm = .ok s') : s' = s := by
  unfold userMemAssert at run
  obtain ⟨⟨r, s1⟩, checked, judged⟩ := CountedLoop.bind_ok.mp run
  dsimp only at judged
  by_cases negative : r < 0
  · rw [if_pos negative] at judged
    obtain ⟨e, _, destroyed⟩ := CountedLoop.bind_ok.mp judged
    obtain ⟨s2, _, stopped⟩ := CountedLoop.bind_ok.mp destroyed
    cases stopped
  · rw [if_neg negative] at judged
    cases judged
    rcases loop_keeps_state (orPanic_ok.mp checked) with ⟨_, same⟩ | failed
    · exact same
    · rw [failed] at negative
      simp [E_FAULT] at negative

theorem sysCputs_accepted {s : State} {va len : Nat} (accepted : Accepted s va len)
    (w : Surroundings) :
    sysCputs w s va len = .ok (printedBy (kread s) w.bound len va w.beyond, s) := by
  obtain ⟨envid, r, e, s', named, found, passed⟩ := accepted
  have same := assert_keeps_state passed
  subst same
  unfold sysCputs printedBy
  rw [orPanic_ok.mpr named]
  simp only [bind, Except.bind, orPanic_ok.mpr found, passed]

theorem goes_iff {rd : Nat → Option UInt8} {a : Nat} :
    ¬ Goes rd a ↔ rd a = none ∨ rd a = some 0 := by
  unfold Goes
  cases rd a with
  | none => simp
  | some c => simp

/-- An environment with one page, full of the letter A, at 0x1000. -/
def onePage : State :=
  let s := { JosUserMemCheck.emptySpace with curenv := some 0, cr3 := 1000 }
  let s := s.setEntry 1000 0 (page2pa 1001 ||| PTE_U ||| PTE_W ||| PTE_P)
  let s := s.setEntry 1001 1 (page2pa 1002 ||| PTE_U ||| PTE_W ||| PTE_P)
  s.setFrame 1002 fun _ => 65

end JosCputs
