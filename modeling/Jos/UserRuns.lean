import Jos.Loader
import Jos.UserMemFault

/- What a program in user mode can do to the kernel. It stores into its memory and traps, in any
   order; every trap comes back to it or ends in the monitor, but for one system call whose string
   may run off the memory that is mapped. -/
namespace JosUserRuns
open JosLayout FrameWords JosMachine JosPmap JosMmu JosEnv JosPrintfmt JosTrap JosBoot JosCputs
open JosAccounting JosEnvSpace JosNewEnv JosStaticMap JosKernelView JosPageRuns JosDirRights JosUserMemRights
open JosUserMemFault JosEnvIds JosEnvTable JosEnvSwitch JosSyscallReturn JosTrapEnds JosUserStores
open JosLoading JosKernelRuns JosEnvFrames JosLoader CountedLoop

section Strings
variable {rd : Nat → Option UInt8} {altflag : Bool}

theorem putString_stops {bound w : Nat} {precision width : Int}
    (ends : ∃ i, i < bound ∧ ¬ Goes rd ((w + i) % WORD)) :
    (putString rd altflag bound (.word w) precision width).stop = none ∨
      ∃ i, (putString rd altflag bound (.word w) precision width).stop =
          some (.fault ((w + i) % WORD)) ∧ rd ((w + i) % WORD) = none ∧
        (precision < 0 ∨ (i : Int) ≤ max precision 0) ∧ ∀ j, j < i → Goes rd ((w + j) % WORD) := by
  induction bound generalizing w precision width with
  | zero =>
    obtain ⟨i, never, _⟩ := ends
    omega
  | succ bound ih =>
    have shift : ∀ i, ((w + 1) % WORD + i) % WORD = (w + (i + 1)) % WORD := by
      intro i
      simp only [WORD]
      omega
    cases found : rd (w % WORD) with
    | none =>
      refine Or.inr ⟨0, ?_, by simpa using found, by omega, fun j none_before => by omega⟩
      simp [putString, load, found]
    | some c =>
      by_cases nul : c = 0
      · left
        simp [putString, load, found, nul, Trace.andThen, Trace.pad]
      · have goes : Goes rd (w % WORD) := ⟨c, found, nul⟩
        have later : ∃ i, i < bound ∧ ¬ Goes rd (((w + 1) % WORD + i) % WORD) := by
          obtain ⟨i, small, stuck⟩ := ends
          cases i with
          | zero => exact absurd (by simpa using goes) stuck
          | succ i => exact ⟨i, by omega, by rw [shift]; exact stuck⟩
        have on : ∀ p width', (p < 0 ↔ precision < 0) → (p < 0 ∨ p = precision - 1 ∧ 0 ≤ p) →
            (putString rd altflag bound (.word ((w + 1) % WORD)) p width').stop = none ∨
            ∃ i, (putString rd altflag bound (.word ((w + 1) % WORD)) p width').stop =
                some (.fault ((w + i) % WORD)) ∧ rd ((w + i) % WORD) = none ∧
              (precision < 0 ∨ (i : Int) ≤ max precision 0) ∧
              ∀ j, j < i → Goes rd ((w + j) % WORD) := by
          intro p width' sign limit
          rcases @ih _ p width' later with fine | ⟨i, stop, absent, room, before⟩
          · exact Or.inl fine
          · rw [shift] at stop absent
            refine Or.inr ⟨i + 1, stop, absent, by omega, ?_⟩
            intro j small
            cases j with
            | zero => simpa using goes
            | succ j =>
              have earlier := before j (by omega)
              rwa [shift] at earlier
        by_cases unlimited : precision < 0
        · have tail := on precision (wrap (width - 1)) Iff.rfl (Or.inl unlimited)
          simpa [putString, load, found, nul, unlimited, Trace.andThen, Trace.emit, next] using tail
        · by_cases more : 1 ≤ precision
          · have tail := on (precision - 1) (wrap (width - 1)) (by omega) (by omega)
            simpa [putString, load, found, nul, unlimited, more, Trace.andThen, Trace.emit, next]
              using tail
          · left
            simp [putString, load, found, nul, unlimited, more, Trace.andThen, Trace.pad]

theorem putString_const_stops {bound : Nat} {text : List UInt8} {precision width : Int}
    (enough : text.length < bound) :
    (putString rd altflag bound (.const text) precision width).stop = none := by
  induction bound generalizing text precision width with
  | zero => omega
  | succ bound ih =>
    cases text with
    | nil => simp [putString, load, Trace.andThen, Trace.pad]
    | cons c text =>
      have shorter : text.length < bound := by simpa using enough
      unfold putString
      simp only [load]
      split
      · simp [Trace.andThen, Trace.pad]
      · split
        · simpa [Trace.andThen, Trace.emit, next] using ih shorter
        · split
          · simpa [Trace.andThen, Trace.emit, next] using ih shorter
          · simp [Trace.andThen, Trace.pad]

/-- What sys_cputs prints is printed to its end, or comes to an address that is not mapped. -/
theorem printedBy_stops {bound len va : Nat} {beyond : Nat → Arg} (slen : len < WORD)
    (enough : 7 < bound) (ends : ∃ i, i < bound ∧ ¬ Goes rd ((va + i) % WORD)) :
    (printedBy rd bound len va beyond).stop = none ∨ va ≠ 0 ∧
      ∃ i, (printedBy rd bound len va beyond).stop = some (.fault ((va + i) % WORD)) ∧
        rd ((va + i) % WORD) = none ∧ (2147483648 ≤ len ∨ i ≤ len) ∧
        ∀ j, j < i → Goes rd ((va + j) % WORD) := by
  unfold printedBy
  rw [vprintfmt_dot_star_s]
  by_cases null : va = 0
  · left
    have text : convString rd bound ⟨' '.toNat, 0, wrap len, 0, false⟩ (.word va) =
        putString rd false bound (.const (chars "(null)")) (wrap len) 0 := by
      simp [convString, null]
    have short : (chars "(null)").length < bound :=
      Nat.lt_of_lt_of_le (show (chars "(null)").length < 8 by decide) enough
    rw [text]
    exact putString_const_stops short
  · have text : convString rd bound ⟨' '.toNat, 0, wrap len, 0, false⟩ (.word va) =
        putString rd false bound (.word va) (wrap len) 0 := by
      simp [convString, null]
    rw [text]
    rcases @putString_stops rd false bound va (wrap len) 0 ends with
      fine | ⟨i, stop, absent, room, before⟩
    · exact Or.inl fine
    · refine Or.inr ⟨null, i, stop, absent, ?_, before⟩
      have sign := wrap_len slen
      omega

theorem putString_faults {bound w i : Nat} {precision width : Int} (inside : i < bound)
    (string : ∀ j, j < i → Goes rd ((w + j) % WORD)) (absent : rd ((w + i) % WORD) = none)
    (room : precision < 0 ∨ (i : Int) ≤ max precision 0) :
    (putString rd altflag bound (.word w) precision width).stop =
      some (.fault ((w + i) % WORD)) := by
  induction i generalizing bound w precision width with
  | zero =>
    have found : rd (w % WORD) = none := by simpa using absent
    cases bound with
    | zero => omega
    | succ bound => simp [putString, load, found]
  | succ i ih =>
    cases bound with
    | zero => omega
    | succ bound =>
      obtain ⟨c, found, nul⟩ : Goes rd (w % WORD) := by simpa using string 0 (Nat.succ_pos i)
      have shift : ∀ j, ((w + 1) % WORD + j) % WORD = (w + (j + 1)) % WORD := by
        intro j
        simp only [WORD]
        omega
      have tail : ∀ p width', (p < 0 ∨ (i : Int) ≤ max p 0) →
          (putString rd altflag bound (.word ((w + 1) % WORD)) p width').stop =
            some (.fault ((w + (i + 1)) % WORD)) := by
        intro p width' room'
        rw [← shift i]
        apply ih (Nat.lt_of_succ_lt_succ inside) _ _ room'
        · intro j small
          rw [shift]
          exact string (j + 1) (Nat.succ_lt_succ small)
        · rw [shift]
          exact absent
      by_cases unlimited : precision < 0
      · have rest := tail precision (wrap (width - 1)) (Or.inl unlimited)
        simpa [putString, load, found, nul, unlimited, Trace.andThen, Trace.emit, next] using rest
      · have more : 1 ≤ precision := by omega
        have rest := tail (precision - 1) (wrap (width - 1)) (by omega)
        simpa [putString, load, found, nul, unlimited, more, Trace.andThen, Trace.emit, next]
          using rest

theorem printedBy_faults {bound len va i : Nat} {beyond : Nat → Arg} (slen : len < WORD)
    (nonnull : va ≠ 0) (inside : i < bound) (room : 2147483648 ≤ len ∨ i ≤ len)
    (string : ∀ j, j < i → Goes rd ((va + j) % WORD)) (absent : rd ((va + i) % WORD) = none) :
    (printedBy rd bound len va beyond).stop = some (.fault ((va + i) % WORD)) := by
  have text : convString rd bound ⟨' '.toNat, 0, wrap len, 0, false⟩ (.word va) =
      putString rd false bound (.word va) (wrap len) 0 := by
    simp [convString, nonnull]
  have sign := wrap_len slen
  unfold printedBy
  rw [vprintfmt_dot_star_s, text]
  exact putString_faults inside string absent (by omega)

end Strings

structure UserMode (s : State) (c : Fin NENV) : Prop where
  current : s.curenv = some c.val
  running : Running s c
  space : (s.envs c).envPgdir = some s.cr3

/-- SYS_cputs has let a range pass, and the string in it runs on to an address that is not
    mapped. -/
structure RunsOff (s : State) (tf : Trapframe) (a : Nat) : Prop where
  number : tf.tfTrapno = T_SYSCALL
  call : tf.tfRegs.regEax = SYS_cputs
  accepted : Accepted s tf.tfRegs.regEdx.toNat tf.tfRegs.regEcx.toNat
  nonnull : tf.tfRegs.regEdx.toNat ≠ 0
  unmapped : kread s a = none
  string : ∃ i, a = (tf.tfRegs.regEdx.toNat + i) % WORD ∧
    (2147483648 ≤ tf.tfRegs.regEcx.toNat ∨ i ≤ tf.tfRegs.regEcx.toNat) ∧
    ∀ j, j < i → Goes (kread s) ((tf.tfRegs.regEdx.toNat + j) % WORD)

/-- The kernel has dealt with a trap from user mode with frame tf. -/
inductive Handled (s : State) (tf : Trapframe) : Except Halt State → Prop where
  /-- a system call returns to the environment, with a value in eax -/
  | back (number : tf.tfTrapno = T_SYSCALL) (eax : UInt32) :
      Handled s tf (.ok (saveFrame s (setEax tf eax)))
  | breakpoint (number : tf.tfTrapno = T_BRKPT) :
      Handled s tf (.error (.monitor (saveFrame s tf)))
  | destroyed {s' : State} (number : tf.tfTrapno ≠ T_BRKPT) (gone : Destroyed (saveFrame s tf) s') :
      Handled s tf (.error (.monitor s'))

section Traps
variable {m : Machine} {w : Surroundings} {s s' : State} {c : Fin NENV} {tf : Trapframe} {cr2 : Nat}

theorem UserMode.live (mode : UserMode s c) : Live s c := by
  intro free
  exact running_not_free (mode.running.symm.trans free)

theorem UserMode.saved (mode : UserMode s c) (tf : Trapframe) : UserMode (saveFrame s tf) c := by
  obtain ⟨curenv, cr3, _, same⟩ := saveFrame_fields s tf
  obtain ⟨tf', here⟩ := same c
  refine ⟨curenv.trans mode.current, ?_, ?_⟩
  · unfold Running
    rw [here]
    exact mode.running
  · rw [here, cr3]
    exact mode.space

theorem envDestroy_total {α : Type} {e : Fin NENV} (inv : KernelInv m s) (live : Live s e) :
    ∃ s', @envDestroy α s e = .error (.monitor s') ∧ envFree s e = .ok s' := by
  obtain ⟨fl, acc⟩ := inv.tidy.view.kept.books
  obtain ⟨pgdir, he⟩ := inv.dir live
  obtain ⟨s', freed, _⟩ := envFree_spec acc inv.tidy.view.kept.bounded he (dirsOf_some.mp he).2
  refine ⟨s', ?_, freed⟩
  unfold envDestroy
  rw [orPanic_ok.mpr freed]
  rfl

theorem own_id (inv : KernelInv m s) (mode : UserMode s c) :
    sysGetenvid s = .ok (s.envs c).envId ∧ envid2env s (s.envs c).envId true = .ok (0, some c.val) := by
  obtain ⟨el, slots⟩ := inv.table
  obtain ⟨g, named⟩ := slots.live c c.isLt mode.live
  have nonzero : (s.envs c).envId ≠ 0 := by
    intro zero
    have positive := idOf_positive c.isLt named
    rw [zero] at positive
    exact absurd positive (by decide)
  have index := idOf_envx c.isLt named
  constructor
  · unfold sysGetenvid curenvId
    rw [mode.current]
  · unfold envid2env
    rw [if_neg nonzero]
    dsimp only
    rw [index, if_neg (not_or.mpr ⟨mode.live, fun differ => differ rfl⟩), mode.current,
      if_neg fun other => other.2 rfl]

def idCall : Trapframe :=
  { initialTrapframe with
    tfTrapno := T_SYSCALL
    tfRegs := { zeroTrapframe.tfRegs with regEax := SYS_getenvid } }

theorem getenvid_call (inv : KernelInv m s) (mode : UserMode s c) (a1 a2 : UInt32) :
    syscall w s SYS_getenvid a1 a2 = .ok (UInt32.ofBitVec (s.envs c).envId, s) := by
  have other : SYS_getenvid ≠ SYS_cputs ∧ SYS_getenvid ≠ SYS_cgetc := by decide
  unfold syscall
  rw [if_neg other.1, if_neg other.2, if_pos rfl, orPanic_ok.mpr (own_id inv mode).1, ok_bind]

theorem idCall_returns (inv : KernelInv m s) (mode : UserMode s c) : trap w s idCall cr2 =
    .ok (saveFrame s (setEax idCall (UInt32.ofBitVec (s.envs c).envId))) := by
  have called := @getenvid_call _ w _ _ (saved_inv inv idCall) (mode.saved idCall)
    idCall.tfRegs.regEdx idCall.tfRegs.regEcx
  obtain ⟨_, _, _, slots⟩ := saveFrame_fields s idCall
  obtain ⟨_, slot⟩ := slots c
  have id : ((saveFrame s idCall).envs c).envId = (s.envs c).envId := by
    refine (congrArg Env.envId slot).trans ?_
    rfl
  rw [id] at called
  exact (trap_user_returns (by decide : idCall.tfCs &&& 3 = 3) mode.current).mpr
    ⟨rfl, mode.running, _, called, rfl⟩

theorem userMemAssert_total (inv : KernelInv m s) (mode : UserMode s c) (va len perm : Nat) :
    userMemAssert s (some c.val) va len perm = .ok s ∨
      ∃ a s', userMemAssert s (some c.val) va len perm = .error (.monitor s') ∧
        envFree { s with userMemCheckAddr := a } c = .ok s' := by
  have he : dirsOf s c = some s.cr3 := dirsOf_some.mpr ⟨mode.live, mode.space⟩
  have tables := env_walkable inv.tidy.view he
  unfold userMemAssert userMemCheck
  rcases @loop_reports s c s.cr3 va (perm ||| PTE_U) mode.space tables (roundDown va PGSIZE)
      ((roundUp ((va + len) % WORD) PGSIZE - roundDown va PGSIZE) / PGSIZE) with
    ⟨j, _, _, _, run⟩ | ⟨_, run⟩
  · right
    obtain ⟨s', stopped, freed⟩ := @envDestroy_total m _ State c
      (noted_inv inv (if roundDown va PGSIZE + j * PGSIZE < va then va
        else roundDown va PGSIZE + j * PGSIZE)) mode.live
    refine ⟨_, s', ?_, freed⟩
    have negative : -E_FAULT < 0 := by decide
    rw [run, orPanic_ok.mpr rfl, ok_bind]
    dsimp only
    rw [if_pos negative, orPanic_ok.mpr (show derefEnv (some c.val) = .ok c.val from rfl), ok_bind]
    exact stopped
  · left
    rw [run, orPanic_ok.mpr rfl, ok_bind]
    rfl

theorem unmapped_somewhere (inv : KernelInv m s) (mode : UserMode s c) :
    kread s (KSTACKTOP - PTSIZE) = none := by
  have he : dirsOf s c = some s.cr3 := dirsOf_some.mpr ⟨mode.live, mode.space⟩
  have static : StaticPde (pdx (KSTACKTOP - PTSIZE)) := by
    unfold StaticPde
    decide
  have nothing : kernPte s (KSTACKTOP - PTSIZE) = 0 := by
    have place : vpn (KSTACKTOP - PTSIZE) = 982016 := by decide
    rw [inv.mapped _ static, bootPte_entry, place, if_neg (by decide), if_neg (by decide),
      if_neg (by decide), if_neg (by decide)]
  unfold kread
  cases walked : walk s s.cr3 (KSTACKTOP - PTSIZE) with
  | none => rfl
  | some t =>
    obtain ⟨_, _, entry⟩ := walk_static inv.tidy.view he static walked
    obtain ⟨_, present, same⟩ := walk_some.mp walked
    rw [same] at entry
    dsimp only at entry
    rw [entry, nothing] at present
    exact absurd present (by decide)

theorem string_ends (inv : KernelInv m s) (mode : UserMode s c) (va : UInt32) :
    ∃ i, i < WORD ∧ ¬ Goes (kread s) ((va.toNat + i) % WORD) := by
  have word := va.toNat_lt
  refine ⟨(KSTACKTOP - PTSIZE + WORD - va.toNat) % WORD, Nat.mod_lt _ (by decide), ?_⟩
  have place : (va.toNat + (KSTACKTOP - PTSIZE + WORD - va.toNat) % WORD) % WORD =
      KSTACKTOP - PTSIZE := by
    simp only [KSTACKTOP, KERNBASE, PTSIZE, PGSIZE, NPTENTRIES, WORD]
    omega
  rw [place, goes_iff]
  exact Or.inl (unmapped_somewhere inv mode)

theorem cputs_total (inv : KernelInv m s) (mode : UserMode s c) (enough : WORD ≤ w.bound)
    (number : tf.tfTrapno = T_SYSCALL) (call : tf.tfRegs.regEax = SYS_cputs) :
    (∃ s', syscall w s SYS_cputs tf.tfRegs.regEdx tf.tfRegs.regEcx = .error (.monitor s')) ∨
      syscall w s SYS_cputs tf.tfRegs.regEdx tf.tfRegs.regEcx = .ok (0, s) ∨ ∃ a, RunsOff s tf a := by
  obtain ⟨named, found⟩ := own_id inv mode
  unfold syscall
  rw [if_pos rfl]
  rcases userMemAssert_total inv mode tf.tfRegs.regEdx.toNat tf.tfRegs.regEcx.toNat PTE_U with
    passed | ⟨_, s', refused, _⟩
  · right
    have accepted : Accepted s tf.tfRegs.regEdx.toNat tf.tfRegs.regEcx.toNat :=
      ⟨_, _, _, s, named, found, passed⟩
    rw [sysCputs_accepted accepted, ok_bind]
    obtain ⟨i, small, stuck⟩ := string_ends inv mode tf.tfRegs.regEdx
    have word : 7 < w.bound := Nat.lt_of_lt_of_le (by decide) enough
    rcases @printedBy_stops _ _ _ _ w.beyond tf.tfRegs.regEcx.toNat_lt word
      ⟨i, Nat.lt_of_lt_of_le small enough, stuck⟩ with
      fine | ⟨nonnull, i, _, absent, room, before⟩
    · left
      dsimp only
      unfold Trace.ended
      rw [fine]
      rfl
    · exact Or.inr ⟨_, number, call, accepted, nonnull, absent, i, rfl, room, before⟩
  · left
    refine ⟨s', ?_⟩
    unfold sysCputs
    rw [orPanic_ok.mpr named, ok_bind, orPanic_ok.mpr found, ok_bind]
    dsimp only
    rw [refused]
    rfl

/-- A string that runs off is a page fault of the kernel. -/
theorem RunsOff.faults {a : Nat} (off : RunsOff s tf a) (inv : KernelInv m s) (mode : UserMode s c)
    (enough : WORD ≤ w.bound) : syscall w s tf.tfRegs.regEax tf.tfRegs.regEdx tf.tfRegs.regEcx =
      .error (.panic (.kernelPageFault a)) := by
  obtain ⟨i, rfl, room, before⟩ := off.string
  obtain ⟨k, small, stuck⟩ := string_ends inv mode tf.tfRegs.regEdx
  have inside : i ≤ k := by
    by_contra later
    exact stuck (before k (Nat.lt_of_not_le later))
  have stop := @printedBy_faults _ w.bound _ _ _ w.beyond tf.tfRegs.regEcx.toNat_lt off.nonnull
    (by omega) room before off.unmapped
  unfold syscall
  rw [if_pos off.call, sysCputs_accepted off.accepted, ok_bind]
  dsimp only
  unfold Trace.ended
  rw [stop]
  rfl

theorem envDestroy_call_total (inv : KernelInv m s) (mode : UserMode s c) (a1 a2 : UInt32) :
    (∃ s', syscall w s SYS_env_destroy a1 a2 = .error (.monitor s')) ∨
      syscall w s SYS_env_destroy a1 a2 = .ok (0, s) := by
  have other : SYS_env_destroy ≠ SYS_cputs ∧ SYS_env_destroy ≠ SYS_cgetc ∧
      SYS_env_destroy ≠ SYS_getenvid := by decide
  have caller : curenvId s = .ok (s.envs c).envId := (own_id inv mode).1
  have looked : envid2env s a1.toBitVec true = .ok (-E_BAD_ENV, none) ∨
      ∃ e, envid2env s a1.toBitVec true = .ok (0, some e) := by
    unfold envid2env
    split
    · exact Or.inr ⟨c, by rw [mode.current]⟩
    · dsimp only
      split
      · exact Or.inl rfl
      · split
        · rw [caller, ok_bind]
          split
          · exact Or.inl rfl
          · exact Or.inr ⟨_, rfl⟩
        · exact Or.inr ⟨_, rfl⟩
  unfold syscall
  rw [if_neg other.1, if_neg other.2.1, if_neg other.2.2, if_pos rfl]
  unfold sysEnvDestroy
  rcases looked with refused | ⟨e, found⟩
  · right
    rw [orPanic_ok.mpr refused, ok_bind]
    rfl
  · left
    have known : ∃ f : Fin NENV, f.val = e ∧ Live s f := by
      rcases envid2env_found found with current | ⟨slot, live⟩
      · rw [mode.current] at current
        exact ⟨c, Option.some.inj current, mode.live⟩
      · exact ⟨⟨e, slot⟩, rfl, live⟩
    obtain ⟨f, rfl, live⟩ := known
    obtain ⟨s', stopped, _⟩ := @envDestroy_total m s (Int × State) f inv live
    refine ⟨s', ?_⟩
    rw [orPanic_ok.mpr found, ok_bind]
    dsimp only
    rw [if_neg (Int.lt_irrefl 0), orPanic_ok.mpr (show derefEnv (some f.val) = .ok f.val from rfl),
      ok_bind, stopped]
    rfl

theorem runningEnv_saved (mode : UserMode s c) (tf : Trapframe) :
    runningEnv (saveFrame s tf) = .ok c.val := runningEnv_ok.mpr (mode.saved tf).current

theorem own_destroyed {α : Type} (inv : KernelInv m s) (mode : UserMode s c) (tf : Trapframe) :
    ∃ s', @envDestroy α (saveFrame s tf) c = .error (.monitor s') ∧
      Destroyed (saveFrame s tf) s' := by
  have mode1 := mode.saved tf
  obtain ⟨s', stopped, freed⟩ := @envDestroy_total m _ α c (saved_inv inv tf) mode1.live
  exact ⟨s', stopped, _, c, Or.inl mode1.current, freed⟩

theorem fault_handled (inv : KernelInv m s) (mode : UserMode s c) (user : tf.tfCs &&& 3 = 3)
    (fault : tf.tfTrapno = T_PGFLT) : Handled s tf (trap w s tf cr2) := by
  have not_kernel : ¬ tf.tfCs &&& 3 = 0 := by
    rw [user]
    decide
  obtain ⟨s', stopped, gone⟩ := @own_destroyed m s c State inv mode tf
  have ends : trap w s tf cr2 = .error (.monitor s') := by
    rw [trap_user user mode.current]
    unfold trapDispatch pageFaultHandler
    rw [if_pos fault, if_neg not_kernel, runningEnv_saved mode, ok_bind, stopped]
    rfl
  rw [ends]
  refine .destroyed ?_ gone
  rw [fault]
  decide

theorem breakpoint_handled (mode : UserMode s c) (user : tf.tfCs &&& 3 = 3)
    (breakpoint : tf.tfTrapno = T_BRKPT) : Handled s tf (trap w s tf cr2) := by
  have not_fault : tf.tfTrapno ≠ T_PGFLT := by
    rw [breakpoint]
    decide
  have ends : trap w s tf cr2 = .error (.monitor (saveFrame s tf)) := by
    rw [trap_user user mode.current]
    unfold trapDispatch
    rw [if_neg not_fault, if_pos breakpoint]
    rfl
  rw [ends]
  exact .breakpoint breakpoint

theorem unexpected_handled (inv : KernelInv m s) (mode : UserMode s c) (user : tf.tfCs &&& 3 = 3)
    (not_fault : tf.tfTrapno ≠ T_PGFLT) (not_breakpoint : tf.tfTrapno ≠ T_BRKPT)
    (not_syscall : tf.tfTrapno ≠ T_SYSCALL) : Handled s tf (trap w s tf cr2) := by
  have not_kernel : ¬ tf.tfCs = GD_KT := by
    intro kernel
    rw [kernel] at user
    exact absurd user (by decide)
  obtain ⟨s', stopped, gone⟩ := @own_destroyed m s c (Trapframe × State) inv mode tf
  have ends : trap w s tf cr2 = .error (.monitor s') := by
    rw [trap_user user mode.current]
    unfold trapDispatch
    rw [if_neg not_fault, if_neg not_breakpoint, if_neg not_syscall, if_neg not_kernel,
      runningEnv_saved mode, ok_bind, stopped]
    rfl
  rw [ends]
  exact .destroyed not_breakpoint gone

theorem syscall_stops_trap {h : Halt} (mode : UserMode s c) (user : tf.tfCs &&& 3 = 3)
    (number : tf.tfTrapno = T_SYSCALL) (called : syscall w (saveFrame s tf) tf.tfRegs.regEax
      tf.tfRegs.regEdx tf.tfRegs.regEcx = .error h) : trap w s tf cr2 = .error h := by
  have not_fault : tf.tfTrapno ≠ T_PGFLT := by
    rw [number]
    decide
  have not_breakpoint : tf.tfTrapno ≠ T_BRKPT := by
    rw [number]
    decide
  rw [trap_user user mode.current]
  unfold trapDispatch
  rw [if_neg not_fault, if_neg not_breakpoint, if_pos number, called]
  rfl

theorem freed_handled (mode : UserMode s c) (user : tf.tfCs &&& 3 = 3)
    (number : tf.tfTrapno = T_SYSCALL) (called : syscall w (saveFrame s tf) tf.tfRegs.regEax
      tf.tfRegs.regEdx tf.tfRegs.regEcx = .error (.monitor s')) : Handled s tf (trap w s tf cr2) := by
  have not_breakpoint : tf.tfTrapno ≠ T_BRKPT := by
    rw [number]
    decide
  rw [syscall_stops_trap mode user number called]
  exact .destroyed not_breakpoint (syscall_stops called)

theorem return_handled {eax : UInt32} (mode : UserMode s c) (user : tf.tfCs &&& 3 = 3)
    (number : tf.tfTrapno = T_SYSCALL) (called : syscall w (saveFrame s tf) tf.tfRegs.regEax
      tf.tfRegs.regEdx tf.tfRegs.regEcx = .ok (eax, saveFrame s tf)) :
    Handled s tf (trap w s tf cr2) := by
  have run : trap w s tf cr2 = .ok (saveFrame s (setEax tf eax)) :=
    (trap_user_returns user mode.current).mpr ⟨number, mode.running, eax, called, rfl⟩
  rw [run]
  exact .back number eax

theorem syscall_handled (inv : KernelInv m s) (mode : UserMode s c) (user : tf.tfCs &&& 3 = 3)
    (enough : WORD ≤ w.bound) (number : tf.tfTrapno = T_SYSCALL) :
    Handled s tf (trap w s tf cr2) ∨ ∃ a, RunsOff (saveFrame s tf) tf a := by
  have inv1 := saved_inv inv tf
  have mode1 := mode.saved tf
  by_cases cputs : tf.tfRegs.regEax = SYS_cputs
  · have outcome := cputs_total (w := w) inv1 mode1 enough number cputs
    rw [← cputs] at outcome
    rcases outcome with ⟨s', called⟩ | called | off
    · exact Or.inl (freed_handled mode user number called)
    · exact Or.inl (return_handled mode user number called)
    · exact Or.inr off
  left
  by_cases cgetc : tf.tfRegs.regEax = SYS_cgetc
  · apply @return_handled w s c tf cr2 w.input mode user number
    unfold syscall
    rw [if_neg cputs, if_pos cgetc]
  by_cases getenvid : tf.tfRegs.regEax = SYS_getenvid
  · apply @return_handled w s c tf cr2 (UInt32.ofBitVec ((saveFrame s tf).envs c).envId) mode user number
    rw [getenvid]
    exact getenvid_call inv1 mode1 _ _
  by_cases destroy : tf.tfRegs.regEax = SYS_env_destroy
  · have outcome := envDestroy_call_total (w := w) inv1 mode1 tf.tfRegs.regEdx tf.tfRegs.regEcx
    rw [← destroy] at outcome
    rcases outcome with ⟨s', called⟩ | called
    · exact freed_handled mode user number called
    · exact return_handled mode user number called
  · apply @return_handled w s c tf cr2 (UInt32.ofInt (-E_INVAL)) mode user number
    unfold syscall
    rw [if_neg cputs, if_neg cgetc, if_neg getenvid, if_neg destroy]

/-- A trap that a program takes in user mode: one system call alone can stop the kernel. -/
theorem trap_handled (inv : KernelInv m s) (mode : UserMode s c) (user : tf.tfCs &&& 3 = 3)
    (enough : WORD ≤ w.bound) :
    Handled s tf (trap w s tf cr2) ∨ ∃ a, RunsOff (saveFrame s tf) tf a := by
  by_cases fault : tf.tfTrapno = T_PGFLT
  · exact Or.inl (fault_handled inv mode user fault)
  by_cases breakpoint : tf.tfTrapno = T_BRKPT
  · exact Or.inl (breakpoint_handled mode user breakpoint)
  by_cases number : tf.tfTrapno = T_SYSCALL
  · exact syscall_handled inv mode user enough number
  · exact Or.inl (unexpected_handled inv mode user fault breakpoint number)

theorem RunsOff.panics {a : Nat} (off : RunsOff (saveFrame s tf) tf a) (inv : KernelInv m s)
    (mode : UserMode s c) (user : tf.tfCs &&& 3 = 3) (enough : WORD ≤ w.bound) :
    trap w s tf cr2 = .error (.panic (.kernelPageFault a)) :=
  syscall_stops_trap mode user off.number (off.faults (saved_inv inv tf) (mode.saved tf) enough)

theorem handled_iff (inv : KernelInv m s) (mode : UserMode s c) (user : tf.tfCs &&& 3 = 3)
    (enough : WORD ≤ w.bound) :
    Handled s tf (trap w s tf cr2) ↔ ∀ a, ¬ RunsOff (saveFrame s tf) tf a := by
  constructor
  · intro handled a off
    rw [off.panics inv mode user enough] at handled
    cases handled
  · intro stays
    rcases @trap_handled m w s c tf cr2 inv mode user enough with handled | ⟨a, off⟩
    · exact handled
    · exact absurd off (stays a)

end Traps

section Runs
variable {m : Machine} {s s' : State} {c : Fin NENV}

/-- A program runs: it stores a byte where it may, or traps and gets back. -/
inductive UserRun (s : State) : State → Prop where
  | start : UserRun s s
  | store {s' : State} {va p : Nat} {b : UInt8} (before : UserRun s s') (word : va < WORD)
      (writes : userWritable s' s'.cr3 va p) : UserRun s (s'.setByte p (pgoff va) b)
  | trap {s' s'' : State} {w : Surroundings} {tf : Trapframe} {cr2 : Nat} (before : UserRun s s')
      (cs : tf.tfCs &&& 3 = 3) (ss : tf.tfSs &&& 3 = 3) (run : trap w s' tf cr2 = .ok s'') :
      UserRun s s''

theorem userRun_keeps {load : State → Fin NENV → State → Prop} (reached : Reached m load s)
    (mode : UserMode s c) (run : UserRun s s') : Reached m load s' ∧ UserMode s' c := by
  induction run with
  | start => exact ⟨reached, mode⟩
  | store _ word writes ih =>
    obtain ⟨reached', mode'⟩ := ih
    exact ⟨reached'.step (.store mode'.current mode'.live mode'.space word writes), mode'.current,
      mode'.running, mode'.space⟩
  | trap _ cs ss run ih =>
    obtain ⟨reached', mode'⟩ := ih
    obtain ⟨_, _, eax, _, same⟩ := (trap_user_returns cs mode'.current).mp run
    refine ⟨reached'.step (.userTrap cs ss (Or.inl run)), ?_⟩
    rw [same]
    exact mode'.saved _

theorem switched_mode {e : Fin NENV} {pgdir : Nat} (dir : (s.envs e).envPgdir = some pgdir) :
    UserMode (switched s e pgdir) e := by
  refine ⟨rfl, ?_, ?_⟩
  · unfold Running
    rw [switched_here]
  · rw [switched_here]
    exact dir

/-- Whatever a program has done since env_run switched to it, its next trap brings it back, or ends
    in the monitor at a breakpoint or after env_destroy; unless it is a call of sys_cputs whose
    string runs off, which is a page fault of the kernel, and a panic. -/
theorem no_user_panic (reached : Reached m loadsLow s) {e : Fin NENV} (live : Live s e)
    (other : s.curenv ≠ some e.val) {s1 s2 : State} (switch : envRun s e = .ok s1)
    (run : UserRun s1 s2) :
    UserMode s2 e ∧ ∀ (w : Surroundings) (tf : Trapframe) (cr2 : Nat), tf.tfCs &&& 3 = 3 →
      WORD ≤ w.bound →
      (Handled s2 tf (trap w s2 tf cr2) ↔ ∀ a, ¬ RunsOff (saveFrame s2 tf) tf a) ∧
        ∀ a, RunsOff (saveFrame s2 tf) tf a →
          trap w s2 tf cr2 = .error (.panic (.kernelPageFault a)) := by
  have reached1 : Reached m loadsLow s1 := reached.step (.run live switch)
  have mode1 : UserMode s1 e := by
    rcases envRun_cases switch with ⟨same, _⟩ | ⟨_, pgdir, dir, rfl⟩
    · exact absurd same other
    · exact switched_mode dir
  obtain ⟨reached2, mode2⟩ := userRun_keeps reached1 mode1 run
  have inv2 := reached_inv loadsLow_keeps reached2
  refine ⟨mode2, fun w tf cr2 user enough => ⟨handled_iff inv2 mode2 user enough, ?_⟩⟩
  exact fun a off => off.panics inv2 mode2 user enough

theorem first_idle : ∃ p s, Reached smallMachine loadsLow s ∧ dirsOf s 0 = some p ∧
    s.curenv = none := by
  obtain ⟨p, s, fl, first⟩ := @first_env loadsLow
  have cost : (touched smallImage).card + (tablesOf (touched smallImage)).card = 5 := by decide
  have enough := first.enough
  obtain ⟨_, _, s', _, run, placed⟩ := load_placed first.inv first.books first.dir first.tables
    smallImage_wellFormed (by omega)
  have low : ∀ k, k < smallImage.phCount → Loadable smallImage (smallImage.ph k) :=
    fun _ within => wellFormed_loadable smallImage_wellFormed within
  have live := (dirsOf_some.mp first.dir).1
  refine ⟨p, s', first.reached.step (.load live ⟨smallImage, low, run⟩), ?_, ?_⟩
  · rw [placed.same.dirsOf]
    exact first.dir
  · rw [placed.curenv]
    exact first.idle

theorem first_running : ∃ s, Reached smallMachine loadsLow s ∧ UserMode s 0 := by
  obtain ⟨p, s, reached, first, idle⟩ := first_idle
  obtain ⟨live, dir⟩ := dirsOf_some.mp first
  have other : s.curenv ≠ some (0 : Fin NENV).val := by simp [idle]
  exact ⟨_, reached.step (.run live (envRun_switch other dir)), switched_mode dir⟩

theorem no_user_panic_smallMachine : ∃ s s' w, UserMode s 0 ∧ trap w s idCall 0 = .ok s' ∧
    Handled s' idCall (trap w s' idCall 0) := by
  obtain ⟨p, s, reached, first, idle⟩ := first_idle
  obtain ⟨live, dir⟩ := dirsOf_some.mp first
  have other : s.curenv ≠ some (0 : Fin NENV).val := by simp [idle]
  have switch := envRun_switch other dir
  have inv := reached_inv loadsLow_keeps (reached.step (.run live switch))
  have mode := @switched_mode s 0 p dir
  have run := @idCall_returns _ ⟨fun _ => .word 0, WORD, 0⟩ _ _ 0 inv mode
  have back := UserRun.trap .start (by decide) (by decide) run
  obtain ⟨_, safe⟩ := no_user_panic reached live other switch back
  refine ⟨_, _, _, mode, run, (safe _ _ 0 (by decide) (Nat.le_refl WORD)).1.mpr fun a off => ?_⟩
  exact absurd off.call (by decide)

/-- In runs whose images ask for user addresses only, every live environment is resumed in user
    mode, and traps from kernel mode leave the saved frames alone. -/
theorem no_kernel_privilege {m : Machine} {s : State} (reached : Reached m loadsLow s) :
    UserFrames s ∧ ∀ w tf cr2 s', tf.tfCs &&& 3 = 0 → Ends w s tf cr2 s' →
      ∀ f, (s'.envs f).envTf = (s.envs f).envTf :=
  ⟨(reached_frames reached).2, fun _ _ _ _ kernel ends f => kernelTrap_tf kernel ends f⟩

def kernelBreakpoint : Trapframe := { zeroTrapframe with tfTrapno := T_BRKPT, tfCs := GD_KT }

theorem no_kernel_privilege_smallMachine : ∃ s s', UserMode s 0 ∧
    (s.envs (0 : Fin NENV)).envTf.tfRegs.regEax = UInt32.ofBitVec (s.envs (0 : Fin NENV)).envId ∧
    trap ⟨fun _ => .word 0, WORD, 0⟩ s kernelBreakpoint 0 = .error (.monitor s') ∧
    UserFrame (s.envs (0 : Fin NENV)).envTf ∧
    (s'.envs (0 : Fin NENV)).envTf = (s.envs (0 : Fin NENV)).envTf := by
  obtain ⟨s, reached, mode⟩ := first_running
  obtain ⟨w, at_w⟩ : ∃ w : Surroundings, w = ⟨fun _ => .word 0, WORD, 0⟩ := ⟨_, rfl⟩
  have run := @idCall_returns _ w _ _ 0 (reached_inv loadsLow_keeps reached) mode
  obtain ⟨frames, kept⟩ :=
    no_kernel_privilege (reached.step (.userTrap (by decide) (by decide) (Or.inl run)))
  have mode' := mode.saved (setEax idCall (UInt32.ofBitVec (s.envs (0 : Fin NENV)).envId))
  have breaks : ∀ s : State, trap w s kernelBreakpoint 0 = .error (.monitor s) := fun _ => rfl
  rw [← at_w]
  refine ⟨_, _, mode', ?_, breaks _, frames 0 mode'.live,
    kept w kernelBreakpoint 0 _ (by decide) (Or.inr (breaks _)) 0⟩
  rw [saveFrame_eq mode.current]
  simp [State.setEnv, setEax]

/-- With any images, kernelImage among them, an environment can be resumed in ring 0. -/
theorem kernel_privilege : ¬ ∀ s, Reached smallMachine loadsAny s → UserFrames s := by
  intro claim
  obtain ⟨p, s, fl, first⟩ := @first_env loadsAny
  obtain ⟨s', run, live, cs⟩ := kernelImage_load first
  have known := (dirsOf_some.mp first.dir).1
  have reached := first.reached.step (.load (e := 0) known ⟨kernelImage, run⟩)
  have user := (claim s' reached 0 live).1
  have ring : (s'.envs (0 : Fin NENV)).envTf.tfCs = GD_KT := cs
  rw [ring] at user
  exact absurd user (by decide)

end Runs

end JosUserRuns
