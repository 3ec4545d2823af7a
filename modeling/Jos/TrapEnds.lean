import Jos.SyscallReturn

/- The traps that do not return: they stay in the kernel monitor, where breakpoints go at once
   and env_destroy goes after it has freed an environment. -/
namespace JosTrapEnds
open JosLayout JosMachine JosPmap JosMmu JosEnv JosPrintfmt JosTrap JosCputs JosEnvIds JosEnvTable
open JosEnvSwitch JosSyscallReturn CountedLoop

/-- env_destroy has freed the current environment, or a live one; user_mem_check may have noted an
    address before. -/
def Destroyed (s s' : State) : Prop :=
  ∃ a e, (s.curenv = some e ∨ (e < NENV ∧ Live s e)) ∧
    envFree { s with userMemCheckAddr := a } e = .ok s'

section Calls
variable {w : Surroundings} {s s' : State} {α : Type}

theorem orPanic_monitor (x : Except Panic α) : orPanic x ≠ .error (Halt.monitor s') := by
  intro never
  cases x with
  | error p => cases never
  | ok a => cases never

theorem derefEnv_ok {env : Option Nat} {e : Nat} (found : derefEnv env = .ok e) : env = some e := by
  cases env with
  | none => cases found
  | some f =>
    cases found
    rfl

theorem envDestroy_stops {e : Nat} (run : @envDestroy α s e = .error (.monitor s')) :
    envFree s e = .ok s' := by
  unfold envDestroy at run
  rcases bind_error.mp run with never | ⟨s1, freed, stopped⟩
  · exact absurd never (orPanic_monitor _)
  · cases stopped
    exact orPanic_ok.mp freed

theorem envid2env_found {envid : EnvId} {checkperm : Bool} {r : Int} {e : Nat}
    (looked : envid2env s envid checkperm = .ok (r, some e)) :
    s.curenv = some e ∨ (e < NENV ∧ Live s e) := by
  have index : envx envid < NENV := by
    unfold envx
    rw [BitVec.toNat_and]
    exact Nat.lt_of_le_of_lt Nat.and_le_right (by decide)
  unfold envid2env at looked
  split at looked
  · have same := Prod.mk.inj (Except.ok.inj looked)
    exact Or.inl same.2
  · dsimp only at looked
    split at looked
    · cases looked
    · rename_i fine
      have live : Live s (envx envid) := fun free => fine (Or.inl free)
      split at looked
      · obtain ⟨caller, _, judged⟩ := bind_ok.mp looked
        split at judged
        · cases judged
        · cases judged
          exact Or.inr ⟨index, live⟩
      · cases looked
        exact Or.inr ⟨index, live⟩

theorem loop_state {env : Option Nat} {va perm addr pages : Nat} {r : Int}
    (run : userMemCheckLoop s env va perm addr pages = .ok (r, s')) :
    ∃ a, s' = { s with userMemCheckAddr := a } := by
  induction pages generalizing addr with
  | zero =>
    unfold userMemCheckLoop at run
    cases run
    exact ⟨s.userMemCheckAddr, rfl⟩
  | succ pages ih =>
    unfold userMemCheckLoop at run
    obtain ⟨e, _, run⟩ := bind_ok.mp run
    obtain ⟨pgdir, _, run⟩ := bind_ok.mp run
    obtain ⟨⟨pte, s1⟩, walked, judged⟩ := bind_ok.mp run
    have same := pgdirWalk_lookup walked
    subst same
    dsimp only at judged
    by_cases bad : badPage s1 pte addr perm
    · rw [if_pos bad] at judged
      cases judged
      exact ⟨_, rfl⟩
    · rw [if_neg bad] at judged
      exact ih judged

theorem userMemAssert_stops {env : Option Nat} {va len perm : Nat}
    (run : userMemAssert s env va len perm = .error (.monitor s')) :
    ∃ a e, env = some e ∧ envFree { s with userMemCheckAddr := a } e = .ok s' := by
  unfold userMemAssert at run
  rcases bind_error.mp run with never | ⟨⟨r, s1⟩, checked, run⟩
  · exact absurd never (orPanic_monitor _)
  · obtain ⟨a, same⟩ := loop_state (orPanic_ok.mp checked)
    dsimp only at run
    split at run
    · rcases bind_error.mp run with never | ⟨e, found, destroyed⟩
      · exact absurd never (orPanic_monitor _)
      · have freed := envDestroy_stops destroyed
        rw [same] at freed
        exact ⟨a, e, derefEnv_ok (orPanic_ok.mp found), freed⟩
    · cases run

theorem ended_monitor (t : Trace) : t.ended halted ≠ .error (.monitor s') := by
  intro never
  unfold Trace.ended at never
  split at never
  · cases never
  · rename_i e _
    cases e <;> cases never

theorem syscall_stops {n a1 a2 : UInt32} (run : syscall w s n a1 a2 = .error (.monitor s')) :
    Destroyed s s' := by
  unfold syscall at run
  split at run
  · rcases bind_error.mp run with stopped | ⟨⟨t, s1⟩, _, run⟩
    · unfold sysCputs at stopped
      rcases bind_error.mp stopped with never | ⟨envid, _, stopped⟩
      · exact absurd never (orPanic_monitor _)
      · rcases bind_error.mp stopped with never | ⟨⟨r, e⟩, looked, stopped⟩
        · exact absurd never (orPanic_monitor _)
        · rcases bind_error.mp stopped with refused | ⟨s1, _, done⟩
          · obtain ⟨a, e', same, freed⟩ := userMemAssert_stops refused
            subst same
            exact ⟨a, e', envid2env_found (orPanic_ok.mp looked), freed⟩
          · cases done
    · rcases bind_error.mp run with never | ⟨_, _, done⟩
      · exact absurd never (ended_monitor t)
      · cases done
  · split at run
    · cases run
    · split at run
      · rcases bind_error.mp run with never | ⟨envid, _, done⟩
        · exact absurd never (orPanic_monitor _)
        · cases done
      · split at run
        · rcases bind_error.mp run with stopped | ⟨got, _, done⟩
          · unfold sysEnvDestroy at stopped
            rcases bind_error.mp stopped with never | ⟨⟨r, e⟩, looked, stopped⟩
            · exact absurd never (orPanic_monitor _)
            · dsimp only at stopped
              split at stopped
              · cases stopped
              · rcases bind_error.mp stopped with never | ⟨e', found, destroyed⟩
                · exact absurd never (orPanic_monitor _)
                · have named := derefEnv_ok (orPanic_ok.mp found)
                  subst named
                  exact ⟨s.userMemCheckAddr, e', envid2env_found (orPanic_ok.mp looked),
                    envDestroy_stops destroyed⟩
          · cases done
        · cases run

theorem runningEnv_monitor : runningEnv s ≠ .error (.monitor s') := by
  intro never
  unfold runningEnv at never
  split at never <;> cases never

theorem destroyCurrent_stops
    (run : (do let c ← runningEnv s; @envDestroy α s c) = .error (.monitor s')) :
    Destroyed s s' := by
  rcases bind_error.mp run with never | ⟨c, current, destroyed⟩
  · exact absurd never runningEnv_monitor
  · exact ⟨s.userMemCheckAddr, c, Or.inl (runningEnv_ok.mp current), envDestroy_stops destroyed⟩

theorem trapDispatch_stops {tf : Trapframe} {cr2 : Nat}
    (run : trapDispatch w s tf cr2 = .error (.monitor s')) : s' = s ∨ Destroyed s s' := by
  unfold trapDispatch at run
  split at run
  · rcases bind_error.mp run with stopped | ⟨s1, _, done⟩
    · unfold pageFaultHandler at stopped
      split at stopped
      · cases stopped
      · exact Or.inr (destroyCurrent_stops stopped)
    · cases done
  · split at run
    · cases run
      exact Or.inl rfl
    · split at run
      · rcases bind_error.mp run with stopped | ⟨got, _, done⟩
        · exact Or.inr (syscall_stops stopped)
        · cases done
      · split at run
        · cases run
        · exact Or.inr (destroyCurrent_stops run)

theorem resume_monitor : resume s ≠ .error (.monitor s') := by
  intro run
  unfold resume at run
  rcases bind_error.mp run with never | ⟨c, _, run⟩
  · exact absurd never runningEnv_monitor
  · split at run
    · cases run
    · exact absurd run (orPanic_monitor _)

/-- A trap from user mode that ends in the monitor. -/
theorem trap_user_stops {tf : Trapframe} {cr2 : Nat} (user : tf.tfCs &&& 3 = 3)
    (run : trap w s tf cr2 = .error (.monitor s')) :
    s' = saveFrame s tf ∨ Destroyed (saveFrame s tf) s' := by
  cases current : s.curenv with
  | none =>
    unfold trap at run
    have missing : runningEnv s = .error (.panic .assertion) := by
      unfold runningEnv
      rw [current]
    rw [if_pos user, missing] at run
    cases run
  | some c =>
    rw [trap_user user current] at run
    rcases bind_error.mp run with stopped | ⟨got, _, ended⟩
    · exact trapDispatch_stops stopped
    · exact absurd ended resume_monitor

theorem trap_kernel_stops {tf : Trapframe} {cr2 : Nat} (kernel : tf.tfCs &&& 3 ≠ 3)
    (run : trap w s tf cr2 = .error (.monitor s')) : s' = s ∨ Destroyed s s' := by
  rw [trap_kernel kernel] at run
  rcases bind_error.mp run with stopped | ⟨got, _, ended⟩
  · exact trapDispatch_stops stopped
  · exact absurd ended resume_monitor

end Calls

end JosTrapEnds
