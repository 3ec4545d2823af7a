import Jos.UserRuns

/- What a program cannot change, however long it runs: other environments, and every page that is
   not its own. -/
namespace JosIsolation
open JosLayout JosMachine JosPmap JosMmu JosEnv JosTrap JosBoot JosAccounting JosMapping JosEnvSpace
open JosPageRuns JosEnvTable JosEnvSwitch JosSyscallReturn JosUserStores JosKernelRuns JosEnvFrames
open JosUserRuns

section Confined
variable {m : Machine} {s s' s'' : State} {c e : Fin NENV} {pgdir va p q : Nat}

def Reaches (s : State) (q : Nat) : Prop :=
  ∃ va t, va < UTOP ∧ walk s s.cr3 va = some t ∧ Translation.page t = q

/-- From s to s' only the saved registers of c and the pages that c reaches have changed. -/
structure Confined (c : Fin NENV) (s s' : State) : Prop where
  rest : s' = { s with mem := s'.mem, envs := s'.envs }
  envs : ∃ tf, s'.envs = Function.update s.envs c { s.envs c with envTf := tf }
  spaces : ∀ (e : Fin NENV) pgdir va, Live s e → (s.envs e).envPgdir = some pgdir → va < UTOP →
    walk s' pgdir va = walk s pgdir va ∧ (e ≠ c → byteAt s' pgdir va = byteAt s pgdir va)
  elsewhere : ∀ q, ¬ Reaches s q → s'.mem q = s.mem q

theorem confined_refl (c : Fin NENV) (s : State) : Confined c s s := by
  refine ⟨rfl, ⟨(s.envs c).envTf, ?_⟩, fun _ _ _ _ _ _ => ⟨rfl, fun _ => rfl⟩, fun _ _ => rfl⟩
  exact (Function.update_eq_self _ _).symm

theorem Confined.cr3 (first : Confined c s s') : s'.cr3 = s.cr3 := by rw [first.rest]

theorem Confined.living (first : Confined c s s') (e : Fin NENV) :
    (Live s' e ↔ Live s e) ∧ (s'.envs e).envPgdir = (s.envs e).envPgdir := by
  obtain ⟨tf, envs⟩ := first.envs
  unfold Live
  rw [envs]
  by_cases same : e = c
  · subst same
    rw [Function.update_self]
    exact ⟨Iff.rfl, rfl⟩
  · rw [Function.update_of_ne fun index => same (Fin.ext index)]
    exact ⟨Iff.rfl, rfl⟩

theorem Confined.trans (mode : UserMode s c) (first : Confined c s s') (second : Confined c s' s'') :
    Confined c s s'' := by
  obtain ⟨tf, envs⟩ := first.envs
  obtain ⟨tf', envs'⟩ := second.envs
  have live : Live s c := mode.live
  refine ⟨?_, ⟨tf', ?_⟩, ?_, ?_⟩
  · have rest := second.rest
    rw [first.rest] at rest
    exact rest
  · rw [envs', envs, Function.update_idem, Function.update_self]
  · intro e pgdir va lives dir user
    obtain ⟨still, same⟩ := first.living e
    obtain ⟨walk1, byte1⟩ := first.spaces e pgdir va lives dir user
    obtain ⟨walk2, byte2⟩ := second.spaces e pgdir va (still.mpr lives) (same.trans dir) user
    exact ⟨walk2.trans walk1, fun other => (byte2 other).trans (byte1 other)⟩
  · intro q away
    refine (second.elsewhere q ?_).trans (first.elsewhere q away)
    rintro ⟨va, t, user, walked, page⟩
    rw [first.cr3, (first.spaces c s.cr3 va live mode.space user).1] at walked
    exact away ⟨va, t, user, walked, page⟩

theorem store_confined (inv : KernelInv m s) (mode : UserMode s c) (word : va < WORD)
    (writes : userWritable s s.cr3 va p) (b : UInt8) : Confined c s (s.setByte p (pgoff va) b) := by
  have tidy := inv.tidy
  have he : dirsOf s c = some s.cr3 := dirsOf_some.mpr ⟨mode.live, mode.space⟩
  have below := writable_below tidy.view he word writes
  obtain ⟨t, walked, _, _, page⟩ := writes
  have held := walk_page (s := s) he (user_slot below)
  rw [walked, Option.map_some, page] at held
  have same := setByte_untouched tidy held.symm (pgoff va) b
  refine ⟨rfl, ⟨(s.envs c).envTf, (Function.update_eq_self _ _).symm⟩, ?_, ?_⟩
  · intro e pgdir va' lives dir user
    have there : dirsOf s e = some pgdir := dirsOf_some.mpr ⟨lives, dir⟩
    refine ⟨same.walk there (user_slot user), fun other => ?_⟩
    rw [setByte_byteAt tidy below held.symm b there user]
    exact if_neg fun both => other both.1
  · intro q away
    have differ : q ≠ p := fun here => away ⟨va, t, below, walked, page.trans here.symm⟩
    simp [State.setByte, differ]

theorem trap_confined {w : Surroundings} {tf : Trapframe} {cr2 : Nat} (mode : UserMode s c)
    (user : tf.tfCs &&& 3 = 3) (run : trap w s tf cr2 = .ok s') : Confined c s s' := by
  obtain ⟨_, _, eax, _, same⟩ := (trap_user_returns user mode.current).mp run
  rw [saveFrame_eq mode.current] at same
  subst same
  refine ⟨rfl, ⟨setEax tf eax, rfl⟩, ?_, fun _ _ => rfl⟩
  intro e pgdir va _ _ _
  exact ⟨rfl, fun _ => rfl⟩

end Confined

/-- However long a program runs, storing where it may and trapping, no other environment changes in
    its table slot, its address space or its memory; the program's own address space stays as it is
    too, and of physical memory only the pages it leads to are ever written. -/
theorem user_run_isolated {m : Machine} {s s' : State} {c : Fin NENV} (reached : Reached m loadsLow s)
    (mode : UserMode s c) (run : UserRun s s') : Confined c s s' := by
  induction run with
  | start => exact confined_refl c s
  | store before word writes ih =>
    obtain ⟨reached', mode'⟩ := userRun_keeps reached mode before
    exact ih.trans mode (store_confined (reached_inv loadsLow_keeps reached') mode' word writes _)
  | trap before cs _ run ih =>
    obtain ⟨_, mode'⟩ := userRun_keeps reached mode before
    exact ih.trans mode (trap_confined mode' cs run)

theorem user_run_isolated_smallMachine : ∃ s s', UserMode s 0 ∧ UserRun s s' ∧ Confined 0 s s' := by
  obtain ⟨s, reached, mode⟩ := first_running
  have run := @idCall_returns _ ⟨fun _ => .word 0, WORD, 0⟩ _ _ 0
    (reached_inv loadsLow_keeps reached) mode
  have back := UserRun.trap .start (by decide) (by decide) run
  exact ⟨s, _, mode, back, user_run_isolated reached mode back⟩

end JosIsolation
