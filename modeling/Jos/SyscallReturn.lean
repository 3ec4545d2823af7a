import Jos.Cputs
import Jos.EnvSwitch

/- How a trap ends. The traps that return to user mode are the system calls that return; all of
   them leave the state as it was, but for the saved frame of the environment they came from. -/
namespace JosSyscallReturn
open JosLayout JosMachine JosPmap JosMmu JosEnv JosPrintfmt JosTrap JosCputs JosEnvIds JosEnvTable
open JosEnvSwitch CountedLoop

def setEax (tf : Trapframe) (eax : UInt32) : Trapframe :=
  { tf with tfRegs := { tf.tfRegs with regEax := eax } }

section Calls
variable {w : Surroundings} {s s' : State}

theorem envDestroy_never {α : Type} (s : State) (e : Nat) (a : α) :
    envDestroy s e ≠ .ok a := by
  intro run
  unfold envDestroy at run
  obtain ⟨s1, _, stopped⟩ := bind_ok.mp run
  cases stopped

theorem sysCputs_state {va len : Nat} {t : Trace} (run : sysCputs w s va len = .ok (t, s')) :
    s' = s := by
  unfold sysCputs at run
  obtain ⟨envid, _, run⟩ := bind_ok.mp run
  obtain ⟨found, _, run⟩ := bind_ok.mp run
  obtain ⟨s1, passed, run⟩ := bind_ok.mp run
  have same := assert_keeps_state passed
  cases run
  exact same

/-- sys_env_destroy returns only when envid2env has refused the id. -/
theorem sysEnvDestroy_returns {envid : EnvId} {r : Int}
    (run : sysEnvDestroy s envid = .ok (r, s')) :
    s' = s ∧ r < 0 ∧ ∃ e, envid2env s envid true = .ok (r, e) := by
  unfold sysEnvDestroy at run
  obtain ⟨found, looked, run⟩ := bind_ok.mp run
  obtain ⟨r1, e⟩ := found
  dsimp only at run
  by_cases negative : r1 < 0
  · rw [if_pos negative] at run
    cases run
    exact ⟨rfl, negative, e, orPanic_ok.mp looked⟩
  · rw [if_neg negative] at run
    obtain ⟨e1, _, destroyed⟩ := bind_ok.mp run
    exact absurd destroyed (envDestroy_never s e1 _)

theorem sysEnvDestroy_refused {envid : EnvId} {r : Int} {e : Option Nat}
    (looked : envid2env s envid true = .ok (r, e)) (negative : r < 0) :
    sysEnvDestroy s envid = .ok (r, s) := by
  unfold sysEnvDestroy
  rw [orPanic_ok.mpr looked, ok_bind]
  exact if_pos negative

theorem envid2env_error {envid : EnvId} {checkperm : Bool} {r : Int} {e : Option Nat}
    (looked : envid2env s envid checkperm = .ok (r, e)) (negative : r < 0) : r = -E_BAD_ENV := by
  unfold envid2env at looked
  split at looked
  · cases looked
    exact absurd negative (Int.lt_irrefl 0)
  · dsimp only at looked
    split at looked
    · cases looked
      rfl
    · split at looked
      · obtain ⟨caller, _, judged⟩ := bind_ok.mp looked
        split at judged
        · cases judged
          rfl
        · cases judged
          exact absurd negative (Int.lt_irrefl 0)
      · cases looked
        exact absurd negative (Int.lt_irrefl 0)

theorem syscall_state {n a1 a2 eax : UInt32} (run : syscall w s n a1 a2 = .ok (eax, s')) :
    s' = s := by
  unfold syscall at run
  split at run
  · obtain ⟨got, printing, run⟩ := bind_ok.mp run
    have same := sysCputs_state printing
    obtain ⟨_, _, run⟩ := bind_ok.mp run
    cases run
    exact same
  · split at run
    · cases run
      rfl
    · split at run
      · obtain ⟨envid, _, run⟩ := bind_ok.mp run
        cases run
        rfl
      · split at run
        · obtain ⟨got, destroyed, run⟩ := bind_ok.mp run
          have same := (sysEnvDestroy_returns destroyed).1
          cases run
          exact same
        · cases run
          rfl

theorem trapDispatch_returns {tf after : Trapframe} {cr2 : Nat}
    (run : trapDispatch w s tf cr2 = .ok (after, s')) :
    tf.tfTrapno = T_SYSCALL ∧ s' = s ∧ ∃ eax, after = setEax tf eax ∧
      syscall w s tf.tfRegs.regEax tf.tfRegs.regEdx tf.tfRegs.regEcx = .ok (eax, s) := by
  unfold trapDispatch at run
  split at run
  · obtain ⟨s1, handled, _⟩ := bind_ok.mp run
    unfold pageFaultHandler at handled
    split at handled
    · cases handled
    · obtain ⟨c, _, destroyed⟩ := bind_ok.mp handled
      exact absurd destroyed (envDestroy_never s c _)
  · split at run
    · cases run
    · split at run
      · rename_i number
        obtain ⟨got, called, run⟩ := bind_ok.mp run
        obtain ⟨eax, s1⟩ := got
        have same := syscall_state called
        cases run
        subst same
        exact ⟨number, rfl, eax, rfl, called⟩
      · split at run
        · cases run
        · obtain ⟨c, _, destroyed⟩ := bind_ok.mp run
          exact absurd destroyed (envDestroy_never s c _)

theorem runningEnv_ok {c : Nat} : runningEnv s = .ok c ↔ s.curenv = some c := by
  unfold runningEnv
  cases s.curenv with
  | none => simp
  | some d => simp

end Calls

section Traps
variable {w : Surroundings} {s s' : State} {tf : Trapframe} {cr2 c : Nat}

theorem saveFrame_eq (current : s.curenv = some c) (tf : Trapframe) :
    saveFrame s tf = s.setEnv c { s.envs c with envTf := tf } := by
  unfold saveFrame
  rw [current]

theorem saveFrame_twice (s : State) (tf after : Trapframe) :
    saveFrame (saveFrame s tf) after = saveFrame s after := by
  cases current : s.curenv with
  | none =>
    unfold saveFrame
    rw [current]
    simp only [current]
  | some c =>
    have current' : (saveFrame s tf).curenv = some c := (saveFrame_fields s tf).1.trans current
    rw [saveFrame_eq current' after, saveFrame_eq current tf, saveFrame_eq current after]
    simp [State.setEnv]

def resume (s : State) : Except Halt State := do
  let c ← runningEnv s
  if (s.envs c).envStatus ≠ ENV_RUNNING then .error (.panic .assertion)
  else orPanic (envRun s c)

theorem resume_ok : resume s = .ok s' ↔ s' = s ∧ ∃ c, s.curenv = some c ∧ Running s c := by
  unfold resume
  constructor
  · intro run
    obtain ⟨c, current, run⟩ := bind_ok.mp run
    rw [runningEnv_ok] at current
    by_cases running : Running s c
    · rw [if_neg (not_not.mpr running), orPanic_ok, envRun_same current] at run
      cases run
      exact ⟨rfl, c, current, running⟩
    · rw [if_pos running] at run
      cases run
  · intro ended
    obtain ⟨same, c, current, running⟩ := ended
    rw [same, runningEnv_ok.mpr current, ok_bind, if_neg (not_not.mpr running), orPanic_ok]
    exact envRun_same current

theorem trap_kernel (kernel : tf.tfCs &&& 3 ≠ 3) :
    trap w s tf cr2 = trapDispatch w s tf cr2 >>= fun got => resume got.2 := by
  unfold trap
  rw [if_neg kernel]
  rfl

theorem trap_user (user : tf.tfCs &&& 3 = 3) (current : s.curenv = some c) :
    trap w s tf cr2 = trapDispatch w (saveFrame s tf) tf cr2 >>= fun got =>
      resume (got.2.setEnv c { got.2.envs c with envTf := got.1 }) := by
  unfold trap
  rw [if_pos user, runningEnv_ok.mpr current, ok_bind, saveFrame_eq current]
  rfl

/-- A trap from user mode that returns is a system call of a running environment, and leaves
    behind the result in eax of its saved frame. -/
theorem trap_user_returns (user : tf.tfCs &&& 3 = 3) (current : s.curenv = some c) :
    trap w s tf cr2 = .ok s' ↔ tf.tfTrapno = T_SYSCALL ∧ Running s c ∧
      ∃ eax, syscall w (saveFrame s tf) tf.tfRegs.regEax tf.tfRegs.regEdx tf.tfRegs.regEcx =
        .ok (eax, saveFrame s tf) ∧ s' = saveFrame s (setEax tf eax) := by
  have saved : ∀ after, (saveFrame s tf).setEnv c
      { (saveFrame s tf).envs c with envTf := after } = saveFrame s after := by
    intro after
    have current' : (saveFrame s tf).curenv = some c := (saveFrame_fields s tf).1.trans current
    rw [← saveFrame_eq current', saveFrame_twice]
  have running : ∀ after, (∃ d, (saveFrame s after).curenv = some d ∧
      Running (saveFrame s after) d) ↔ Running s c := by
    intro after
    obtain ⟨curenv, _, _, same⟩ := saveFrame_fields s after
    obtain ⟨tf', here⟩ := same c
    rw [curenv, current]
    constructor
    · intro found
      obtain ⟨d, at_d, runs⟩ := found
      cases at_d
      unfold Running at runs
      rwa [here] at runs
    · intro runs
      refine ⟨c, rfl, ?_⟩
      unfold Running
      rw [here]
      exact runs
  rw [trap_user user current]
  constructor
  · intro run
    obtain ⟨⟨after, s1⟩, dispatched, ended⟩ := bind_ok.mp run
    obtain ⟨number, same, eax, left, called⟩ := trapDispatch_returns dispatched
    dsimp only at ended
    rw [same, left, saved, resume_ok, running] at ended
    exact ⟨number, ended.2, eax, called, ended.1⟩
  · intro returned
    obtain ⟨number, runs, eax, called, left⟩ := returned
    have dispatched : trapDispatch w (saveFrame s tf) tf cr2 =
        .ok (setEax tf eax, saveFrame s tf) := by
      have not_fault : tf.tfTrapno ≠ T_PGFLT := by
        rw [number]
        decide
      have not_break : tf.tfTrapno ≠ T_BRKPT := by
        rw [number]
        decide
      unfold trapDispatch
      rw [if_neg not_fault, if_neg not_break, if_pos number, called]
      rfl
    rw [dispatched, ok_bind]
    dsimp only
    rw [saved, resume_ok, running]
    exact ⟨left, runs⟩

theorem trap_kernel_returns (kernel : tf.tfCs &&& 3 ≠ 3) (run : trap w s tf cr2 = .ok s') :
    s' = s := by
  rw [trap_kernel kernel] at run
  obtain ⟨got, dispatched, ended⟩ := bind_ok.mp run
  have same := (trapDispatch_returns dispatched).2.1
  rw [(resume_ok.mp ended).1]
  exact same

end Traps

abbrev NSYSCALLS : UInt32 := 4

/-- eax is what the handler of system call n returned, or -E_INVAL where there is none. sys_cputs
    returns nothing. -/
structure Delivered (w : Surroundings) (s : State) (n a1 eax : UInt32) : Prop where
  cgetc : n = SYS_cgetc → eax = w.input
  getenvid : n = SYS_getenvid → ∀ envid, sysGetenvid s = .ok envid → eax = UInt32.ofBitVec envid
  envDestroy : n = SYS_env_destroy → ∀ r s', sysEnvDestroy s a1.toBitVec = .ok (r, s') →
    eax = UInt32.ofInt r
  unknown : NSYSCALLS ≤ n → eax = UInt32.ofInt (-E_INVAL)

section Delivery
variable {w : Surroundings} {s s' : State} {n a1 a2 eax : UInt32}

theorem syscall_result (run : syscall w s n a1 a2 = .ok (eax, s')) :
    (n ≠ SYS_env_destroy ∧ Delivered w s n a1 eax) ∨
      (n = SYS_env_destroy ∧ eax = 0 ∧ ∃ r, sysEnvDestroy s a1.toBitVec = .ok (r, s)) := by
  unfold syscall at run
  by_cases cputs : n = SYS_cputs
  · subst cputs
    rw [if_pos rfl] at run
    left
    refine ⟨by decide, ⟨?_, ?_, ?_, ?_⟩⟩ <;> intro never <;> exact absurd never (by decide)
  · rw [if_neg cputs] at run
    by_cases cgetc : n = SYS_cgetc
    · subst cgetc
      rw [if_pos rfl] at run
      cases run
      left
      refine ⟨by decide, ⟨fun _ => rfl, ?_, ?_, ?_⟩⟩ <;> intro never <;>
        exact absurd never (by decide)
    · rw [if_neg cgetc] at run
      by_cases getenvid : n = SYS_getenvid
      · subst getenvid
        rw [if_pos rfl] at run
        obtain ⟨envid, named, run⟩ := bind_ok.mp run
        cases run
        left
        refine ⟨by decide, ⟨?_, ?_, ?_, ?_⟩⟩
        · intro never
          exact absurd never (by decide)
        · intro _ envid' named'
          rw [orPanic_ok.mp named] at named'
          cases named'
          rfl
        · intro never
          exact absurd never (by decide)
        · intro never
          exact absurd never (by decide)
      · rw [if_neg getenvid] at run
        by_cases destroy : n = SYS_env_destroy
        · subst destroy
          rw [if_pos rfl] at run
          obtain ⟨⟨r, s1⟩, destroyed, run⟩ := bind_ok.mp run
          have same := (sysEnvDestroy_returns destroyed).1
          cases run
          subst same
          exact Or.inr ⟨rfl, rfl, r, destroyed⟩
        · rw [if_neg destroy] at run
          cases run
          exact Or.inl ⟨destroy, fun h => absurd h cgetc, fun h => absurd h getenvid,
            fun h => absurd h destroy, fun _ => rfl⟩

theorem envid2env_saveFrame (s : State) (tf : Trapframe) (envid : EnvId) (checkperm : Bool) :
    envid2env (saveFrame s tf) envid checkperm = envid2env s envid checkperm := by
  obtain ⟨curenv, _, _, same⟩ := saveFrame_fields s tf
  have caller : curenvId (saveFrame s tf) = curenvId s := by
    unfold curenvId
    rw [curenv]
    cases s.curenv with
    | none => rfl
    | some c =>
      obtain ⟨tf', here⟩ := same c
      simp only [here]
  obtain ⟨tf', here⟩ := same (envx envid)
  unfold envid2env
  simp only [curenv, caller, here]

end Delivery

section SmallMachine

theorem minus_one_refused {s : State} {el : List Nat} (slots : Slots s el) (checkperm : Bool) :
    envid2env s (-1) checkperm = .ok (-E_BAD_ENV, none) := by
  have other : (s.envs 1023).envId ≠ -1 := by
    intro same
    rcases slots.ids 1023 (by decide) with zero | ⟨g, named⟩
    · rw [same] at zero
      exact absurd zero (by decide)
    · have positive := idOf_positive (by decide) named
      rw [same] at positive
      exact absurd positive (by decide)
  have index : envx (-1) = 1023 := by decide
  unfold envid2env
  rw [if_neg (by decide)]
  simp only [index]
  rw [if_pos (Or.inr other)]

def destroyCall : Trapframe :=
  { zeroTrapframe with
    tfCs := GD_UT ||| 3
    tfTrapno := T_SYSCALL
    tfRegs := { zeroTrapframe.tfRegs with regEax := SYS_env_destroy, regEdx := 0xFFFFFFFF } }

def nothingTyped : Surroundings := ⟨fun _ => .word 0, 0, 0⟩

theorem smallMachine_runs : ∃ s, Reached (fun _ _ => True) s ∧ s.curenv = some 0 ∧
    Running s 0 ∧ envid2env s (-1) true = .ok (-E_BAD_ENV, none) := by
  obtain ⟨s, p, q, rest, _, reached, _, none_yet, live, dir, _, _⟩ :=
    first_run (fun _ _ => True) (fun _ _ _ => trivial)
  have other : s.curenv ≠ some 0 := by simp [none_yet]
  have run := envRun_switch other dir
  have reached' := reached.step (.run (by decide) (Or.inl live) trivial run zeroTrapframe)
  obtain ⟨el, kept⟩ := reached_switching reached'
  obtain ⟨curenv, _, _, same⟩ := saveFrame_fields (switched s 0 p) zeroTrapframe
  obtain ⟨tf, here⟩ := same 0
  refine ⟨_, reached', curenv, ?_, minus_one_refused kept.slots true⟩
  unfold Running
  rw [here, switched_here]

end SmallMachine

/-- In the environment that made a system call, eax is the result if and only if the call is
    not sys_env_destroy. That call, when refused, changes nothing else and reports success. -/
theorem syscall_delivers (w : Surroundings) {s : State} {c : Nat} (current : s.curenv = some c)
    (running : Running s c) {tf : Trapframe} (user : tf.tfCs &&& 3 = 3)
    (number : tf.tfTrapno = T_SYSCALL) (cr2 : Nat) :
    (∀ s', trap w s tf cr2 = .ok s' →
      (Delivered w (saveFrame s tf) tf.tfRegs.regEax tf.tfRegs.regEdx
        (s'.envs c).envTf.tfRegs.regEax ↔ tf.tfRegs.regEax ≠ SYS_env_destroy)) ∧
    ∀ r e, tf.tfRegs.regEax = SYS_env_destroy →
      envid2env s tf.tfRegs.regEdx.toBitVec true = .ok (r, e) → r < 0 →
      r = -E_BAD_ENV ∧ trap w s tf cr2 = .ok (saveFrame s (setEax tf 0)) := by
  constructor
  · intro s' run
    obtain ⟨_, _, eax, called, rfl⟩ := (trap_user_returns user current).mp run
    have result : ((saveFrame s (setEax tf eax)).envs c).envTf.tfRegs.regEax = eax := by
      rw [saveFrame_eq current]
      simp [State.setEnv, setEax]
    rw [result]
    rcases syscall_result called with ⟨other, delivered⟩ | ⟨destroy, zero, r, destroyed⟩
    · exact ⟨fun _ => other, fun _ => delivered⟩
    · constructor
      · intro delivered
        have told := delivered.envDestroy destroy r _ destroyed
        obtain ⟨_, negative, e, looked⟩ := sysEnvDestroy_returns destroyed
        rw [zero, envid2env_error looked negative] at told
        exact absurd told (by decide)
      · intro other
        exact absurd destroy other
  · intro r e destroy looked negative
    have refused : envid2env (saveFrame s tf) tf.tfRegs.regEdx.toBitVec true = .ok (r, e) := by
      rw [envid2env_saveFrame]
      exact looked
    have called : syscall w (saveFrame s tf) tf.tfRegs.regEax tf.tfRegs.regEdx
        tf.tfRegs.regEcx = .ok (0, saveFrame s tf) := by
      unfold syscall
      rw [destroy, if_neg (by decide), if_neg (by decide), if_neg (by decide), if_pos rfl,
        sysEnvDestroy_refused refused negative]
      rfl
    exact ⟨envid2env_error looked negative,
      (trap_user_returns user current).mpr ⟨number, running, 0, called, rfl⟩⟩

theorem syscall_delivers_smallMachine : ∃ s, s.curenv = some 0 ∧ Running s 0 ∧
    trap nothingTyped s destroyCall 0 = .ok (saveFrame s (setEax destroyCall 0)) := by
  obtain ⟨s, _, current, running, refused⟩ := smallMachine_runs
  have user : destroyCall.tfCs &&& 3 = 3 := by decide
  have delivers := syscall_delivers nothingTyped current running user rfl 0
  exact ⟨s, current, running, (delivers.2 _ _ rfl refused (by decide)).2⟩

/-- sys_env_destroy(-1) is refused by envid2env, and its caller reads 0. -/
theorem refused_destroy_reads_zero : ∃ s s', Reached (fun _ _ => True) s ∧ s.curenv = some 0 ∧
    Running s 0 ∧ envid2env s destroyCall.tfRegs.regEdx.toBitVec true = .ok (-E_BAD_ENV, none) ∧
    trap nothingTyped s destroyCall 0 = .ok s' ∧ (s'.envs 0).envTf.tfRegs.regEax = 0 ∧
    (s'.envs 0).envTf.tfRegs.regEax ≠ UInt32.ofInt (-E_BAD_ENV) := by
  obtain ⟨s, reached, current, running, refused⟩ := smallMachine_runs
  have destroyed := sysEnvDestroy_refused (s := saveFrame s destroyCall)
    ((envid2env_saveFrame s destroyCall (-1) true).trans refused) (by decide)
  have called : syscall nothingTyped (saveFrame s destroyCall) SYS_env_destroy 0xFFFFFFFF 0 =
      .ok (0, saveFrame s destroyCall) := by
    unfold syscall
    rw [if_neg (by decide), if_neg (by decide), if_neg (by decide), if_pos rfl]
    change (sysEnvDestroy (saveFrame s destroyCall) (-1) >>= _) = _
    rw [destroyed]
    rfl
  have user : destroyCall.tfCs &&& 3 = 3 := by decide
  have returned : trap nothingTyped s destroyCall 0 = .ok (saveFrame s (setEax destroyCall 0)) :=
    (trap_user_returns user current).mpr ⟨rfl, running, 0, called, rfl⟩
  have result : ((saveFrame s (setEax destroyCall 0)).envs 0).envTf.tfRegs.regEax = 0 := by
    rw [saveFrame_eq current]
    simp [State.setEnv, setEax]
  refine ⟨s, _, reached, current, running, refused, returned, result, ?_⟩
  rw [result]
  decide

end JosSyscallReturn
