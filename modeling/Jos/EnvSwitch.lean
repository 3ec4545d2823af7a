import Jos.EnvTable

/- Which environment runs: curenv, the status words and CR3 over any sequence of env_alloc,
   env_run and env_free. Nothing is assumed of the page allocator. -/
namespace JosEnvSwitch
open JosLayout JosMachine JosPmap JosMmu JosEnv JosBoot JosAccounting JosPageOps JosMapping
open JosEnvSpace JosBootPages JosNewEnv JosEnvTable IntrusiveList Ledger TableForest CountedLoop

/-- What trap does with a frame from user mode: it becomes the env_tf of curenv. -/
def saveFrame (s : State) (tf : Trapframe) : State :=
  match s.curenv with
  | none => s
  | some c => s.setEnv c { s.envs c with envTf := tf }

def switched (s : State) (e pgdir : Nat) : State :=
  let running := { s.envs e with envStatus := ENV_RUNNING, envRuns := (s.envs e).envRuns + 1 }
  lcr3 ({ s with curenv := some e }.setEnv e running) pgdir

section Effects
variable {s s' : State} {e pgdir : Nat}

@[simp] theorem switched_curenv (s : State) (e pgdir : Nat) :
    (switched s e pgdir).curenv = some e := rfl

@[simp] theorem switched_cr3 (s : State) (e pgdir : Nat) : (switched s e pgdir).cr3 = pgdir := rfl

theorem switched_here (s : State) (e pgdir : Nat) : (switched s e pgdir).envs e =
    { s.envs e with envStatus := ENV_RUNNING, envRuns := (s.envs e).envRuns + 1 } :=
  Function.update_self _ _ _

theorem switched_elsewhere (s : State) {e f : Nat} (pgdir : Nat) (other : f ≠ e) :
    (switched s e pgdir).envs f = s.envs f :=
  Function.update_of_ne other _ _

theorem envRun_switch (other : s.curenv ≠ some e) (dir : (s.envs e).envPgdir = some pgdir) :
    envRun s e = .ok (switched s e pgdir) := by
  have found : paddrPgdir ((switched s e pgdir).envs e) = .ok pgdir := by
    rw [switched_here]
    simp only [paddrPgdir, dir]
  unfold envRun
  rw [if_pos other]
  change (paddrPgdir ((switched s e pgdir).envs e) >>= _) = _
  rw [found]
  rfl

theorem envRun_same (same : s.curenv = some e) : envRun s e = .ok s := by
  unfold envRun
  rw [if_neg (not_not.mpr same)]

theorem envRun_cases (run : envRun s e = .ok s') :
    (s.curenv = some e ∧ s' = s) ∨
      (s.curenv ≠ some e ∧ ∃ pgdir, (s.envs e).envPgdir = some pgdir ∧ s' = switched s e pgdir) := by
  by_cases same : s.curenv = some e
  · rw [envRun_same same] at run
    cases run
    exact Or.inl ⟨same, rfl⟩
  · right
    refine ⟨same, ?_⟩
    cases dir : (s.envs e).envPgdir with
    | none =>
      unfold envRun at run
      rw [if_pos same] at run
      simp only [State.setEnv, Function.update_self, paddrPgdir, dir] at run
      cases run
    | some pgdir =>
      rw [envRun_switch same dir] at run
      cases run
      exact ⟨pgdir, rfl, rfl⟩

theorem envSetupVm_processor {r : Int} (run : envSetupVm s e = .ok (r, s')) :
    s'.curenv = s.curenv ∧ s'.cr3 = s.cr3 := by
  unfold envSetupVm at run
  obtain ⟨got, alloc, run⟩ := bind_ok.mp run
  obtain ⟨page, s1⟩ := got
  have quiet := pageAlloc_quiet alloc
  cases page with
  | none =>
    cases run
    exact ⟨quiet.curenv, quiet.cr3⟩
  | some p =>
    obtain ⟨frame, _, run⟩ := bind_ok.mp run
    cases run
    exact ⟨quiet.curenv, quiet.cr3⟩

theorem envAlloc_processor {parentId : EnvId} {r : Int} {out : Option Nat}
    (run : envAlloc s parentId = .ok (r, out, s')) :
    s'.curenv = s.curenv ∧ s'.cr3 = s.cr3 := by
  unfold envAlloc at run
  split at run
  · cases run
    exact ⟨rfl, rfl⟩
  · obtain ⟨got, setup, run⟩ := bind_ok.mp run
    have kept := envSetupVm_processor setup
    by_cases negative : got.1 < 0
    · simp only [if_pos negative] at run
      cases run
      exact kept
    · simp only [if_neg negative] at run
      cases run
      exact kept

theorem envFree_processor (run : envFree s e = .ok s') :
    s'.curenv = s.curenv ∧ s'.cr3 = if s.curenv = some e then s.kernPgdir else s.cr3 := by
  unfold envFree at run
  obtain ⟨s1, looped, run⟩ := bind_ok.mp run
  obtain ⟨frame, _, run⟩ := bind_ok.mp run
  obtain ⟨page, _, run⟩ := bind_ok.mp run
  cases run
  have quiet : Quiet (leaveDir s e) s1 := envFreePdes_quiet looped
  have dropped := (pageDecref_quiet s1 page).1
  have rest := leaveDir_rest s e
  have curenv : s1.curenv = s.curenv := by
    rw [quiet.curenv, rest]
  have cr3 : s1.cr3 = if s.curenv = some e then s.kernPgdir else s.cr3 := by
    rw [quiet.cr3, rest]
  simp only [pageDecref_setEnv]
  simp only [State.setEnv]
  exact ⟨dropped.curenv.trans curenv, dropped.cr3.trans cr3⟩

end Effects

theorem running_not_free : ENV_RUNNING ≠ ENV_FREE := by decide

theorem free_not_running : ENV_FREE ≠ ENV_RUNNING := by decide

abbrev Running (s : State) (e : Nat) : Prop := (s.envs e).envStatus = ENV_RUNNING

/-- Calls of env_alloc, of env_free for a live environment, and of env_run for an environment
    that is live or current. Before an env_run the calls may check may; after it the environment
    traps into the kernel with some frame. -/
inductive Call (may : State → Nat → Prop) : State → State → Prop where
  | alloc {s s' : State} {parentId : EnvId} {r : Int} {out : Option Nat}
      (run : envAlloc s parentId = .ok (r, out, s')) : Call may s s'
  | free {s s' : State} {e : Nat} (slot : e < NENV) (live : Live s e)
      (run : envFree s e = .ok s') : Call may s s'
  | run {s s' : State} {e : Nat} (slot : e < NENV) (known : Live s e ∨ s.curenv = some e)
      (allowed : may s e) (run : envRun s e = .ok s') (tf : Trapframe) :
      Call may s (saveFrame s' tf)

/-- The states such calls reach from env_init on a table whose slots are all free. -/
inductive Reached (may : State → Nat → Prop) : State → Prop where
  | init {s : State} (free : ∀ e, e < NENV → (s.envs e).envStatus = ENV_FREE)
      (empty : s.envFreeList = none) (idle : s.curenv = none) : Reached may (envInit s)
  | step {s s' : State} (before : Reached may s) (call : Call may s s') : Reached may s'

structure Switching (s : State) (el : List Nat) : Prop where
  slots : Slots s el
  slot : ∀ c, s.curenv = some c → c < NENV
  space : ∀ c, s.curenv = some c → Running s c → (s.envs c).envPgdir = some s.cr3

section Steps
variable {s s' : State} {el : List Nat} {e : Nat}

theorem saveFrame_fields (s : State) (tf : Trapframe) :
    (saveFrame s tf).curenv = s.curenv ∧ (saveFrame s tf).cr3 = s.cr3 ∧
      (saveFrame s tf).envFreeList = s.envFreeList ∧
      ∀ f, ∃ tf', (saveFrame s tf).envs f = { s.envs f with envTf := tf' } := by
  unfold saveFrame
  split
  · exact ⟨rfl, rfl, rfl, fun f => ⟨(s.envs f).envTf, rfl⟩⟩
  · rename_i c _
    refine ⟨rfl, rfl, rfl, ?_⟩
    intro f
    by_cases same : f = c
    · subst same
      exact ⟨tf, Function.update_self _ _ _⟩
    · exact ⟨(s.envs f).envTf, Function.update_of_ne same _ _⟩

theorem slots_congr (slots : Slots s el) (list : s'.envFreeList = s.envFreeList)
    (same : ∀ f, (s'.envs f).envLink = (s.envs f).envLink ∧
      (s'.envs f).envId = (s.envs f).envId ∧
      ((s'.envs f).envStatus = ENV_FREE ↔ (s.envs f).envStatus = ENV_FREE)) : Slots s' el := by
  refine ⟨?_, slots.nodup, ?_, ?_, ?_⟩
  · unfold EnvFreeList
    rw [list]
    apply chain_congr slots.list
    intro f _
    exact (same f).1
  · intro f
    rw [slots.free f, (same f).2.2]
  · intro f bound
    rw [(same f).2.1]
    exact slots.ids f bound
  · intro f bound live
    rw [(same f).2.1]
    apply slots.live f bound
    intro free
    exact live ((same f).2.2.mpr free)

theorem switched_slots (slots : Slots s el) (live : Live s e) (pgdir : Nat) :
    Slots (switched s e pgdir) el := by
  have list : (switched s e pgdir).envFreeList = s.envFreeList := rfl
  apply slots_congr slots list
  intro f
  by_cases same : f = e
  · subst same
    rw [switched_here]
    refine ⟨rfl, rfl, ?_⟩
    constructor
    · intro never
      exact absurd never running_not_free
    · intro free
      exact absurd free live
  · rw [switched_elsewhere s pgdir same]
    exact ⟨rfl, rfl, Iff.rfl⟩

theorem saveFrame_slots (slots : Slots s el) (tf : Trapframe) : Slots (saveFrame s tf) el := by
  obtain ⟨_, _, list, same⟩ := saveFrame_fields s tf
  apply slots_congr slots list
  intro f
  obtain ⟨tf', here⟩ := same f
  rw [here]
  exact ⟨rfl, rfl, Iff.rfl⟩

theorem run_switching (kept : Switching s el) (slot : e < NENV)
    (known : Live s e ∨ s.curenv = some e) (run : envRun s e = .ok s') (tf : Trapframe) :
    Switching (saveFrame s' tf) el := by
  have ran : Switching s' el := by
    rcases envRun_cases run with ⟨_, rfl⟩ | ⟨other, pgdir, dir, rfl⟩
    · exact kept
    · have live : Live s e := known.resolve_right other
      refine ⟨switched_slots kept.slots live pgdir, ?_, ?_⟩
      · intro c current
        cases current
        exact slot
      · intro c current _
        cases current
        rw [switched_here]
        exact dir
  obtain ⟨curenv, cr3, _, same⟩ := saveFrame_fields s' tf
  refine ⟨saveFrame_slots ran.slots tf, ?_, ?_⟩
  · rw [curenv]
    exact ran.slot
  · intro c current running
    obtain ⟨tf', here⟩ := same c
    rw [curenv] at current
    unfold Running at running
    rw [here] at running
    rw [here, cr3]
    exact ran.space c current running

theorem call_switching {may : State → Nat → Prop} (kept : Switching s el)
    (call : Call may s s') : ∃ el', Switching s' el' := by
  cases call with
  | alloc run =>
    obtain ⟨el', slots'⟩ := envAlloc_keeps kept.slots run
    obtain ⟨curenv, cr3⟩ := envAlloc_processor run
    refine ⟨el', slots', ?_, ?_⟩
    · rw [curenv]
      exact kept.slot
    · intro c current running
      rw [curenv] at current
      rw [cr3]
      unfold Running at running
      rcases envAlloc_slots run with ⟨_, _, envs, _⟩ | ⟨_, f, new, _, _, fresh, envs, _⟩
      · rw [envs] at running ⊢
        exact kept.space c current running
      · rw [envs] at running ⊢
        by_cases same : c = f
        · subst same
          rw [Function.update_self, fresh.envStatus] at running
          exact absurd running (by decide)
        · rw [Function.update_of_ne same] at running ⊢
          exact kept.space c current running
  | @free _ f slot live run =>
    have slots' := envFree_keeps kept.slots slot live run
    obtain ⟨curenv, cr3⟩ := envFree_processor run
    refine ⟨f :: el, slots', ?_, ?_⟩
    · rw [curenv]
      exact kept.slot
    · intro c current running
      rw [curenv] at current
      unfold Running at running
      rw [(envFree_slots run).1] at running ⊢
      by_cases same : c = f
      · subst same
        rw [Function.update_self] at running
        exact absurd running free_not_running
      · have other : s.curenv ≠ some f := by
          rw [current]
          intro eq
          exact same (Option.some.inj eq)
        rw [Function.update_of_ne same] at running ⊢
        rw [cr3, if_neg other]
        exact kept.space c current running
  | run slot known _ run tf => exact ⟨el, run_switching kept slot known run tf⟩

theorem reached_switching {may : State → Nat → Prop} (reached : Reached may s) :
    ∃ el, Switching s el := by
  induction reached with
  | @init s free empty idle =>
    have none_yet : (envInit s).curenv = none := by
      rw [envInit_rest]
      exact idle
    refine ⟨_, envInit_slots free empty, ?_, ?_⟩
    · intro c current
      rw [none_yet] at current
      cases current
    · intro c current
      rw [none_yet] at current
      cases current
  | step _ call ih =>
    obtain ⟨el, kept⟩ := ih
    exact call_switching kept call

end Steps

/-- At most one environment runs, and it is the current one. -/
structure SingleRunning (s : State) : Prop where
  one : ∀ e f, e < NENV → f < NENV → Running s e → Running s f → e = f
  current : ∀ e, e < NENV → Running s e → s.curenv = some e

def SetBack (s : State) (e : Nat) (s' : State) : Prop :=
  ∀ c, s.curenv = some c → c ≠ e → Running s c → (s'.envs c).envStatus = ENV_RUNNABLE

/-- env_run is not about to switch away from a running environment. -/
def leavesNone (s : State) (e : Nat) : Prop := ∀ c, s.curenv = some c → c ≠ e → ¬ Running s c

section Single
variable {s s' : State} {e : Nat}

theorem single_of_current (current : ∀ e, e < NENV → Running s e → s.curenv = some e) :
    SingleRunning s := by
  refine ⟨?_, current⟩
  intro e f slot_e slot_f running_e running_f
  have at_e := current e slot_e running_e
  have at_f := current f slot_f running_f
  rw [at_e] at at_f
  exact Option.some.inj at_f

theorem envRun_single (single : SingleRunning s) (may : leavesNone s e)
    (run : envRun s e = .ok s') : SingleRunning s' := by
  rcases envRun_cases run with ⟨_, rfl⟩ | ⟨other, pgdir, _, rfl⟩
  · exact single
  · apply single_of_current
    intro f slot running
    by_cases same : f = e
    · subst same
      rfl
    · unfold Running at running
      rw [switched_elsewhere s pgdir same] at running
      have current := single.current f slot running
      exact absurd running (may f current same)

theorem saveFrame_single (single : SingleRunning s) (tf : Trapframe) :
    SingleRunning (saveFrame s tf) := by
  obtain ⟨curenv, _, _, same⟩ := saveFrame_fields s tf
  apply single_of_current
  intro f slot running
  obtain ⟨tf', here⟩ := same f
  unfold Running at running
  rw [here] at running
  rw [curenv]
  exact single.current f slot running

theorem call_single (single : SingleRunning s) (call : Call leavesNone s s') :
    SingleRunning s' := by
  cases call with
  | alloc run =>
    apply single_of_current
    intro f slot running
    unfold Running at running
    rw [(envAlloc_processor run).1]
    rcases envAlloc_slots run with ⟨_, _, envs, _⟩ | ⟨_, g, new, _, _, fresh, envs, _⟩
    · rw [envs] at running
      exact single.current f slot running
    · rw [envs] at running
      by_cases same : f = g
      · subst same
        rw [Function.update_self, fresh.envStatus] at running
        exact absurd running (by decide)
      · rw [Function.update_of_ne same] at running
        exact single.current f slot running
  | @free _ g _ _ run =>
    apply single_of_current
    intro f slot running
    unfold Running at running
    rw [(envFree_processor run).1]
    rw [(envFree_slots run).1] at running
    by_cases same : f = g
    · subst same
      rw [Function.update_self] at running
      exact absurd running free_not_running
    · rw [Function.update_of_ne same] at running
      exact single.current f slot running
  | run _ _ may run tf => exact saveFrame_single (envRun_single single may run) tf

theorem reached_single (reached : Reached leavesNone s) : SingleRunning s := by
  induction reached with
  | @init s free _ _ =>
    apply single_of_current
    intro f slot running
    have status := (envInitLoop_slots NENV s f).1
    unfold Running envInit at running
    rw [status, free f slot] at running
    exact absurd running (by decide)
  | step _ call ih => exact call_single ih call

theorem envRun_setBack (run : envRun s e = .ok s') : SetBack s e s' ↔ leavesNone s e := by
  constructor
  · intro back c current other running
    have status := back c current other running
    rcases envRun_cases run with ⟨same, _⟩ | ⟨_, pgdir, _, rfl⟩
    · rw [current] at same
      exact other (Option.some.inj same)
    · rw [switched_elsewhere s pgdir other, running] at status
      exact absurd status (by decide)
  · intro may c current other running
    exact absurd running (may c current other)

end Single

section SmallMachine

theorem smallMachine_ready (may : State → Nat → Prop) : ∃ s p q rest, Reached may s ∧
    Accounted (fun _ => none) none s (p :: q :: rest) ∧ s.envFreeList = some 0 ∧
    (s.envs 0).envLink = some 1 ∧ s.curenv = none := by
  obtain ⟨s0, fl, _, booted, acc, all⟩ := memInitAlloc_fits smallMachine smallMachine_fits
  obtain ⟨free, empty⟩ := smallMachine_table booted
  have start := envInit_slots free empty
  have idle : (envInit s0).curenv = none := by
    rw [envInit_rest]
    exact booted.curenv
  have acc0 := (envInit_same s0).books acc
  have reached : Reached may (envInit s0) := .init free empty booted.curenv
  generalize envInit s0 = s at start idle acc0 reached
  obtain ⟨head, tail⟩ := chain_cons_head start.list
  obtain ⟨link, _⟩ := chain_cons_head tail
  have page1 : 1 ∈ fl := by
    rw [all]
    unfold Managed
    rw [booted.npages, booted.nextfree]
    decide
  have page2 : 2 ∈ fl := by
    rw [all]
    unfold Managed
    rw [booted.npages, booted.nextfree]
    decide
  match fl, acc0, page1, page2 with
  | p :: q :: rest, acc0, _, _ => exact ⟨s, p, q, rest, reached, acc0, head, link, idle⟩
  | [p], _, page1, page2 =>
    have first := List.mem_singleton.mp page1
    have second := List.mem_singleton.mp page2
    omega
  | [], _, page1, _ => cases page1

theorem newEnv_here (s : State) (e p : Nat) :
    ((newEnv s e p 0).envs e).envPgdir = some p ∧ Live (newEnv s e p 0) e ∧
      ((newEnv s e p 0).envs e).envStatus = ENV_RUNNABLE := by
  have slot : (newEnv s e p 0).envs e = filledSlot (s.envs e) e p 0 := by
    rw [newEnv_envs, Function.update_self]
  unfold Live
  rw [slot]
  exact ⟨rfl, (by decide : ENV_RUNNABLE ≠ ENV_FREE), rfl⟩

theorem first_run (may : State → Nat → Prop) (may_switch : ∀ s e, s.curenv = none → may s e) : ∃ s p q rest,
    Accounted (Function.update (fun _ => none) (0 : Fin NENV) (some p)) none s (q :: rest) ∧
    Reached may s ∧ s.envFreeList = some 1 ∧ s.curenv = none ∧ Live s 0 ∧
    (s.envs 0).envPgdir = some p ∧ (∀ x, refs (target
      (Function.update (fun _ => none) (0 : Fin NENV) (some p)) none s) x ≤ 1) ∧ may s 0 := by
  obtain ⟨s, p, q, rest, reached, acc, head, link, idle⟩ := smallMachine_ready may
  obtain ⟨dir, live, _⟩ := newEnv_here s 0 p
  have idle1 : (newEnv s 0 p 0).curenv = none := by
    rw [newEnv_rest]
    exact idle
  exact ⟨newEnv s 0 p 0, p, q, rest, (newEnv_books (e := (0 : Fin NENV)) acc rfl 0).1,
    reached.step (.alloc (envAlloc_take acc head 0)), link, idle1, live, dir,
    newEnv_refs_le (e := (0 : Fin NENV)) acc rfl 0 (Nat.le_refl 1) (refs_without_envs acc),
    may_switch _ _ idle1⟩

theorem first_of_two (may : State → Nat → Prop) (may_switch : ∀ s e, s.curenv = none → may s e) :
    ∃ s q, Reached may s ∧ s.curenv = some 0 ∧ Running s 0 ∧ Live s 1 ∧
      (s.envs 1).envPgdir = some q := by
  obtain ⟨s1, p, q, rest, acc, reached, head, none_yet, live, dir, _, _⟩ := first_run may may_switch
  have reached2 := reached.step (.alloc (envAlloc_take acc head 0))
  obtain ⟨dir1, live1, _⟩ := newEnv_here s1 1 q
  have here0 : (newEnv s1 1 q 0).envs 0 = s1.envs 0 := by
    rw [newEnv_envs, Function.update_of_ne (by decide)]
  have idle : (newEnv s1 1 q 0).curenv = none := by
    rw [newEnv_rest]
    exact none_yet
  generalize newEnv s1 1 q 0 = s2 at reached2 dir1 live1 here0 idle
  have other : s2.curenv ≠ some 0 := by simp [idle]
  have run := envRun_switch other (here0.symm ▸ dir)
  have known : Live s2 0 := by
    unfold Live
    rw [here0]
    exact live
  have reached3 := reached2.step (.run (by decide) (Or.inl known) (may_switch _ _ idle) run zeroTrapframe)
  obtain ⟨curenv, _, _, same⟩ := saveFrame_fields (switched s2 0 p) zeroTrapframe
  rw [switched_curenv] at curenv
  obtain ⟨tf0, at0⟩ := same 0
  obtain ⟨tf1, at1⟩ := same 1
  rw [switched_here] at at0
  rw [switched_elsewhere s2 p (by decide)] at at1
  refine ⟨_, q, reached3, curenv, ?_, ?_, ?_⟩
  · unfold Running
    rw [at0]
  · unfold Live
    rw [at1]
    exact live1
  · rw [at1]
    exact dir1

end SmallMachine

/-- In runs whose switches leave no running environment behind there is one running environment
    at most, and those are the only switches that keep what env_run promises. -/
theorem single_running {s : State} (reached : Reached leavesNone s) :
    SingleRunning s ∧ ∀ e s', envRun s e = .ok s' →
      (SingleRunning s' ∧ SetBack s e s' ↔ leavesNone s e) := by
  have single := reached_single reached
  refine ⟨single, ?_⟩
  intro e s' run
  constructor
  · intro kept
    exact (envRun_setBack run).mp kept.2
  · intro may
    exact ⟨envRun_single single may run, (envRun_setBack run).mpr may⟩

theorem single_running_smallMachine : ∃ s, Running s 0 ∧ Live s 1 ∧ SingleRunning s := by
  have idle : ∀ s e, s.curenv = none → leavesNone s e := by
    intro s e none_yet c current
    rw [none_yet] at current
    cases current
  obtain ⟨s, q, reached, _, running, live, _⟩ := first_of_two leavesNone idle
  exact ⟨s, running, live, (single_running reached).1⟩

/-- Two environments run one after the other: the first is left ENV_RUNNING. -/
theorem two_running : ∃ s s', Reached (fun _ _ => True) s ∧ envRun s 1 = .ok s' ∧
    ¬ SetBack s 1 s' ∧ Reached (fun _ _ => True) (saveFrame s' zeroTrapframe) ∧
    ¬ SingleRunning (saveFrame s' zeroTrapframe) := by
  obtain ⟨s3, q, reached3, curenv, running, live3, dir3⟩ :=
    first_of_two (fun _ _ => True) (fun _ _ _ => trivial)
  have other : s3.curenv ≠ some 1 := by
    rw [curenv]
    decide
  have run3 := envRun_switch other dir3
  have reached4 := reached3.step (.run (by decide) (Or.inl live3) trivial run3 zeroTrapframe)
  refine ⟨s3, switched s3 1 q, reached3, run3, ?_, reached4, ?_⟩
  · intro back
    exact (envRun_setBack run3).mp back 0 curenv (by decide) running
  · intro single
    obtain ⟨_, _, _, same4⟩ := saveFrame_fields (switched s3 1 q) zeroTrapframe
    obtain ⟨tf2, first⟩ := same4 0
    obtain ⟨tf3, second⟩ := same4 1
    rw [switched_elsewhere s3 q (by decide)] at first
    rw [switched_here] at second
    have running0 : Running (saveFrame (switched s3 1 q) zeroTrapframe) 0 := by
      unfold Running
      rw [first]
      exact running
    have running1 : Running (saveFrame (switched s3 1 q) zeroTrapframe) 1 := by
      unfold Running
      rw [second]
    have same_slot := single.one 0 1 (by decide) (by decide) running0 running1
    exact absurd same_slot (by decide)

/-- What env_pop_tf is entered with when env_run has got there. -/
structure Entered (s : State) (e : Nat) : Prop where
  current : s.curenv = some e
  running : Running s e
  space : (s.envs e).envPgdir = some s.cr3

def switchesOrRuns (s : State) (e : Nat) : Prop := s.curenv ≠ some e ∨ Running s e

theorem env_run_enters {s : State} (reached : Reached (fun _ _ => True) s) (e : Nat) (s' : State)
    (run : envRun s e = .ok s') : Entered s' e ↔ switchesOrRuns s e := by
  obtain ⟨el, kept⟩ := reached_switching reached
  rcases envRun_cases run with ⟨same, rfl⟩ | ⟨other, pgdir, dir, rfl⟩
  · constructor
    · intro entered
      exact Or.inr entered.running
    · intro may
      have running : Running s' e := may.resolve_left (not_not.mpr same)
      exact ⟨same, running, kept.space e same running⟩
  · constructor
    · intro _
      exact Or.inl other
    · intro _
      refine ⟨rfl, ?_, ?_⟩
      · unfold Running
        rw [switched_here]
      · rw [switched_here]
        exact dir

theorem env_run_enters_smallMachine : ∃ s s', envRun s 0 = .ok s' ∧ Entered s' 0 := by
  obtain ⟨s, p, q, rest, _, reached, _, none_yet, live, dir, _, _⟩ :=
    first_run (fun _ _ => True) (fun _ _ _ => trivial)
  have other : s.curenv ≠ some 0 := by simp [none_yet]
  have run := envRun_switch other dir
  exact ⟨s, switched s 0 p, run, (env_run_enters reached 0 _ run).mpr (Or.inl other)⟩

/-- The current environment is freed and its slot taken again: env_run then runs a new
    environment that is not ENV_RUNNING, in the address space of the kernel. -/
theorem env_run_reused_slot : ∃ s s', Reached (fun _ _ => True) s ∧ Live s 0 ∧
    envRun s 0 = .ok s' ∧ s'.cr3 = s'.kernPgdir ∧ ¬ Entered s' 0 := by
  obtain ⟨s1, p, q, rest, acc, reached, _, none_yet, live, dir, few, _⟩ :=
    first_run (fun _ _ => True) (fun _ _ _ => trivial)
  have other : s1.curenv ≠ some 0 := by simp [none_yet]
  have run := envRun_switch other dir
  have reached2 := reached.step (.run (by decide) (Or.inl live) trivial run zeroTrapframe)
  obtain ⟨curenv, _, _, same⟩ := saveFrame_fields (switched s1 0 p) zeroTrapframe
  rw [switched_curenv] at curenv
  obtain ⟨tf, here⟩ := same 0
  rw [switched_here] at here
  have unchanged : SamePages s1 (saveFrame (switched s1 0 p) zeroTrapframe) := by
    unfold saveFrame
    rw [switched_curenv]
    exact ⟨rfl, rfl, rfl, rfl, rfl, rfl⟩
  have books := unchanged.books acc
  have few2 : Bounded (Function.update (fun _ => none) (0 : Fin NENV) (some p)) none
      (saveFrame (switched s1 0 p) zeroTrapframe) := by
    intro x
    rw [unchanged.target]
    exact Nat.lt_of_le_of_lt (few x) (by decide)
  have dir2 : ((saveFrame (switched s1 0 p) zeroTrapframe).envs 0).envPgdir = some p := by
    rw [here]
    exact dir
  have live2 : Live (saveFrame (switched s1 0 p) zeroTrapframe) 0 := by
    unfold Live
    rw [here]
    exact running_not_free
  generalize saveFrame (switched s1 0 p) zeroTrapframe = s2 at reached2 curenv books few2 dir2 live2
  obtain ⟨s3, done, free⟩ := envFree_spec books few2 (Function.update_self _ _ _) dir2
  have freed : envFree s2 0 = .ok s3 := done
  have reached3 := reached2.step (.free (by decide) live2 freed)
  obtain ⟨curenv3, cr3⟩ := envFree_processor freed
  rw [if_pos curenv] at cr3
  have stocked : ∃ fl, q ∈ fl ∧ Accounted (Function.update (Function.update (fun _ => none)
      (0 : Fin NENV) (some p)) 0 none) none s3 fl :=
    ⟨_, (mem_unlinkAll_free _ _ q).mpr (Or.inl (by simp)), free.books⟩
  obtain ⟨fl, page, books3⟩ := stocked
  have head : s3.envFreeList = some 0 := free.listed
  have kern : s3.kernPgdir = s2.kernPgdir := by rw [free.rest]
  cases fl with
  | nil => cases page
  | cons x rest' =>
    rw [Function.update_idem, Function.update_eq_self] at books3
    have alloc := envAlloc_take books3 head 0
    obtain ⟨_, live4, status⟩ := newEnv_here s3 0 x
    have reached4 := reached3.step (.alloc alloc)
    obtain ⟨curenv4, cr4⟩ := envAlloc_processor alloc
    have kern4 : (newEnv s3 0 x 0).kernPgdir = s3.kernPgdir := by rw [newEnv_rest]
    have again := envRun_same ((curenv4.trans curenv3).trans curenv)
    refine ⟨newEnv s3 0 x 0, newEnv s3 0 x 0, reached4, live4, again, ?_, ?_⟩
    · rw [cr4, cr3, kern4, kern]
    · intro entered
      have running := entered.running
      unfold Running at running
      rw [status] at running
      exact absurd running (by decide)

end JosEnvSwitch
