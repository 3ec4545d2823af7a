import Jos.EnvIds
import Jos.NewEnv

/- The environment table: what env_init, env_alloc and env_free do to the slots and to their
   free list, whatever the page allocator does meanwhile. -/
namespace JosEnvTable
open JosLayout JosMachine JosPmap JosMmu JosEnv JosBoot JosAccounting JosPageOps JosMapping
open JosEnvSpace JosBootPages JosNewEnv JosEnvIds IntrusiveList Ledger TableForest CountedLoop

section Quiet
variable {s s' : State}

theorem pageAlloc_quiet {zero : Bool} {r : Option Nat} (run : pageAlloc s zero = .ok (r, s')) :
    Quiet s s' := by
  unfold pageAlloc at run
  split at run
  · cases run
    exact quiet_refl s
  · rename_i page head
    cases zero with
    | false =>
      cases run
      rfl
    | true =>
      simp only [if_true] at run
      obtain ⟨frame, _, run⟩ := bind_ok.mp run
      cases run
      rfl

theorem pageRemove_quiet {pgdir va : Nat} (run : pageRemove s pgdir va = .ok s') : Quiet s s' := by
  unfold pageRemove at run
  obtain ⟨found, _, run⟩ := bind_ok.mp run
  split at run
  · cases run
    exact quiet_refl s
  · rename_i pg p _
    cases run
    exact clearLeaf_quiet s p.table p.idx pg va

theorem envFreePte_quiet {e pdeno table pteno : Nat}
    (run : envFreePte e pdeno table pteno s = .ok s') : Quiet s s' := by
  unfold envFreePte at run
  split at run
  · obtain ⟨pgdir, _, run⟩ := bind_ok.mp run
    exact pageRemove_quiet run
  · cases run
    exact quiet_refl s

theorem envFreePde_quiet {e pdeno : Nat} (run : envFreePde e pdeno s = .ok s') : Quiet s s' := by
  unfold envFreePde at run
  obtain ⟨pgdir, _, run⟩ := bind_ok.mp run
  split at run
  · cases run
    exact quiet_refl s
  · obtain ⟨table, _, run⟩ := bind_ok.mp run
    obtain ⟨s1, looped, run⟩ := bind_ok.mp run
    obtain ⟨page, _, run⟩ := bind_ok.mp run
    cases run
    have first : Quiet s s1 :=
      times_keeps (fun _ a => Quiet s a) (quiet_refl s)
        (fun _ _ _ _ before done => quiet_trans before (envFreePte_quiet done)) looped
    have cleared : Quiet s1 (s1.setEntry pgdir pdeno 0) := rfl
    exact quiet_trans first (quiet_trans cleared (pageDecref_quiet _ page).1)

theorem envFreePdes_quiet {e n : Nat} (looped : times (envFreePde e) n s = .ok s') : Quiet s s' :=
  times_keeps (fun _ a => Quiet s a) (quiet_refl s)
    (fun _ _ _ _ before done => quiet_trans before (envFreePde_quiet done)) looped

theorem envFree_slots {e : Nat} (run : envFree s e = .ok s') :
    s'.envs = Function.update s.envs e
      { s.envs e with envPgdir := none, envStatus := ENV_FREE, envLink := s.envFreeList } ∧
    s'.envFreeList = some e := by
  unfold envFree at run
  obtain ⟨s1, looped, run⟩ := bind_ok.mp run
  obtain ⟨pgdir, _, run⟩ := bind_ok.mp run
  obtain ⟨page, _, run⟩ := bind_ok.mp run
  cases run
  have quiet : Quiet (leaveDir s e) s1 := envFreePdes_quiet looped
  have envs : s1.envs = s.envs := quiet.envs.trans (leaveDir_mem s e).2.2.2.1
  have list : s1.envFreeList = s.envFreeList := by
    rw [quiet.envFreeList]
    unfold leaveDir
    split <;> rfl
  refine ⟨?_, rfl⟩
  simp only [pageDecref_setEnv]
  obtain ⟨envs', list'⟩ := pageDecref_envs s1 page
  simp [State.setEnv, envs', list', envs, list]

theorem envSetupVm_slots {e : Nat} {r : Int} (run : envSetupVm s e = .ok (r, s')) :
    s'.envFreeList = s.envFreeList ∧
      ((r < 0 ∧ s'.envs = s.envs) ∨
        (r = 0 ∧ ∃ p, s'.envs = Function.update s.envs e { s.envs e with envPgdir := p })) := by
  unfold envSetupVm at run
  obtain ⟨got, alloc, run⟩ := bind_ok.mp run
  obtain ⟨page, s1⟩ := got
  have quiet := pageAlloc_quiet alloc
  cases page with
  | none =>
    cases run
    exact ⟨quiet.envFreeList, Or.inl ⟨by decide, quiet.envs⟩⟩
  | some p =>
    obtain ⟨pgdir, _, run⟩ := bind_ok.mp run
    cases run
    refine ⟨quiet.envFreeList, Or.inr ⟨rfl, some pgdir, ?_⟩⟩
    change Function.update s1.envs e { s1.envs e with envPgdir := some pgdir } = _
    rw [quiet.envs]

/-- What a successful env_alloc has put into slot e. -/
structure Fresh (parentId : EnvId) (e : Nat) (old new : Env) : Prop where
  envId : new.envId = nextEnvId old.envId e
  envParentId : new.envParentId = parentId
  envStatus : new.envStatus = ENV_RUNNABLE
  envRuns : new.envRuns = 0
  envTf : new.envTf = initialTrapframe
  envLink : new.envLink = old.envLink

theorem envAlloc_slots {parentId : EnvId} {r : Int} {out : Option Nat}
    (run : envAlloc s parentId = .ok (r, out, s')) :
    (r < 0 ∧ out = none ∧ s'.envs = s.envs ∧ s'.envFreeList = s.envFreeList) ∨
    (r = 0 ∧ ∃ e new, out = some e ∧ s.envFreeList = some e ∧ Fresh parentId e (s.envs e) new ∧
      s'.envs = Function.update s.envs e new ∧ s'.envFreeList = (s.envs e).envLink) := by
  unfold envAlloc at run
  split at run
  · cases run
    exact Or.inl ⟨by decide, rfl, rfl, rfl⟩
  · rename_i e head
    obtain ⟨got, setup, run⟩ := bind_ok.mp run
    obtain ⟨r1, s1⟩ := got
    obtain ⟨list, failed | ⟨done, p, envs⟩⟩ := envSetupVm_slots setup
    · obtain ⟨negative, envs⟩ := failed
      simp only [if_pos negative] at run
      cases run
      exact Or.inl ⟨negative, rfl, envs, list⟩
    · subst done
      have positive : ¬ (0 : Int) < 0 := by decide
      simp only [if_neg positive] at run
      cases run
      right
      have slot : s1.envs e = { s.envs e with envPgdir := p } := by
        rw [envs, Function.update_self]
      refine ⟨rfl, e, { s1.envs e with
        envId := nextEnvId (s1.envs e).envId e
        envParentId := parentId
        envType := .user
        envStatus := ENV_RUNNABLE
        envRuns := 0
        envTf := initialTrapframe }, rfl, head, ⟨?_, rfl, rfl, rfl, rfl, ?_⟩, ?_, ?_⟩
      · rw [slot]
      · rw [slot]
      · change Function.update s1.envs e _ = _
        rw [envs, Function.update_idem]
      · simp [State.setEnv, slot]

end Quiet

/-- The free Env structures, front first. -/
def EnvFreeList (s : State) (el : List Nat) : Prop :=
  Chain (fun e => (s.envs e).envLink) s.envFreeList el

abbrev Live (s : State) (e : Nat) : Prop := (s.envs e).envStatus ≠ ENV_FREE

/-- The free list is the slots that are free, and a slot's id is 0 or one of its own. -/
structure Slots (s : State) (el : List Nat) : Prop where
  list : EnvFreeList s el
  nodup : el.Nodup
  free : ∀ e, e ∈ el ↔ e < NENV ∧ (s.envs e).envStatus = ENV_FREE
  ids : ∀ e, e < NENV → (s.envs e).envId = 0 ∨ ∃ g, IdOf e g (s.envs e).envId
  live : ∀ e, e < NENV → Live s e → ∃ g, IdOf e g (s.envs e).envId

section Init
variable {s : State}

theorem envInitLoop_list (n : Nat) (s : State) (bound : n ≤ NENV)
    (list : EnvFreeList s (List.range' n (NENV - n))) :
    EnvFreeList (envInitLoop n s) (List.range' 0 NENV) := by
  induction n generalizing s with
  | zero => exact list
  | succ n ih =>
    apply ih (envInitStep s n) (by omega)
    have length : NENV - n = NENV - (n + 1) + 1 := by omega
    have fresh : n ∉ List.range' (n + 1) (NENV - (n + 1)) := by
      intro listed
      have := (List.mem_range'_1.mp listed).1
      omega
    have pushed := chain_push list fresh
    rw [length, List.range'_succ]
    unfold EnvFreeList
    have head : (envInitStep s n).envFreeList = some n := rfl
    rw [head]
    apply chain_congr pushed
    intro e _
    by_cases same : e = n
    · subst same
      simp [envInitStep, State.setEnv]
    · simp [envInitStep, State.setEnv, same]

theorem envInitLoop_slots (n : Nat) (s : State) (e : Nat) :
    ((envInitLoop n s).envs e).envStatus = (s.envs e).envStatus ∧
      (e < n → ((envInitLoop n s).envs e).envId = 0) ∧
      (¬ e < n → ((envInitLoop n s).envs e).envId = (s.envs e).envId) := by
  induction n generalizing s with
  | zero => exact ⟨rfl, fun never => absurd never (Nat.not_lt_zero e), fun _ => rfl⟩
  | succ n ih =>
    obtain ⟨status, below, above⟩ := ih (envInitStep s n)
    have step_status : ((envInitStep s n).envs e).envStatus = (s.envs e).envStatus := by
      by_cases same : e = n
      · subst same
        simp [envInitStep, State.setEnv]
      · simp [envInitStep, State.setEnv, same]
    refine ⟨status.trans step_status, ?_, ?_⟩
    · intro small
      by_cases same : e = n
      · subst same
        rw [envInitLoop, above (Nat.lt_irrefl e)]
        simp [envInitStep, State.setEnv]
      · exact below (by omega)
    · intro large
      have other : e ≠ n := by omega
      rw [envInitLoop, above (by omega)]
      simp [envInitStep, State.setEnv, other]

theorem envInit_slots (free : ∀ e, e < NENV → (s.envs e).envStatus = ENV_FREE)
    (empty : s.envFreeList = none) : Slots (envInit s) (List.range' 0 NENV) := by
  have none_yet : EnvFreeList s (List.range' NENV (NENV - NENV)) := by
    unfold EnvFreeList
    rw [empty, Nat.sub_self]
    exact .nil
  have slots := envInitLoop_slots NENV s
  unfold envInit
  refine ⟨envInitLoop_list NENV s (Nat.le_refl _) none_yet, List.nodup_range', ?_, ?_, ?_⟩
  · intro e
    rw [List.mem_range'_1]
    constructor
    · intro within
      have small : e < NENV := by omega
      exact ⟨small, (slots e).1.trans (free e small)⟩
    · intro within
      exact ⟨Nat.zero_le e, by omega⟩
  · intro e small
    exact Or.inl ((slots e).2.1 small)
  · intro e small live
    exact absurd ((slots e).1.trans (free e small)) live

end Init

section Steps
variable {s s' : State} {el : List Nat}

theorem next_id {e : Nat} {old : EnvId} (slot : e < NENV)
    (ids : old = 0 ∨ ∃ g, IdOf e g old) : ∃ g, IdOf e g (nextEnvId old e) := by
  rcases ids with zero | ⟨g, named⟩
  · subst zero
    exact ⟨1, nextEnvId_first slot⟩
  · exact ⟨_, nextEnvId_next slot named⟩

theorem envAlloc_keeps (slots : Slots s el) {parentId : EnvId} {r : Int} {out : Option Nat}
    (run : envAlloc s parentId = .ok (r, out, s')) : ∃ el', Slots s' el' := by
  rcases envAlloc_slots run with ⟨_, _, envs, list⟩ | ⟨_, e, new, _, head, fresh, envs, list⟩
  · refine ⟨el, ?_, slots.nodup, ?_, ?_, ?_⟩
    · unfold EnvFreeList
      rw [envs, list]
      exact slots.list
    · rw [envs]
      exact slots.free
    · rw [envs]
      exact slots.ids
    · unfold Live
      rw [envs]
      exact slots.live
  · have chain := slots.list
    unfold EnvFreeList at chain
    rw [head] at chain
    obtain ⟨rest, rfl, tail⟩ := chain_some.mp chain
    obtain ⟨gone, nodup⟩ := List.nodup_cons.mp slots.nodup
    obtain ⟨slot, _⟩ := (slots.free e).mp (by simp)
    have named : ∃ g, IdOf e g new.envId := by
      rw [fresh.envId]
      exact next_id slot (slots.ids e slot)
    have here : s'.envs e = new := by
      rw [envs, Function.update_self]
    have elsewhere : ∀ f, f ≠ e → s'.envs f = s.envs f := by
      intro f other
      rw [envs, Function.update_of_ne other]
    refine ⟨rest, ?_, nodup, ?_, ?_, ?_⟩
    · unfold EnvFreeList
      rw [list]
      apply chain_congr tail
      intro f listed
      have other : f ≠ e := fun same => gone (same ▸ listed)
      rw [elsewhere f other]
    · intro f
      by_cases same : f = e
      · subst same
        rw [here, fresh.envStatus]
        constructor
        · intro listed
          exact absurd listed gone
        · intro free
          exact absurd free.2 (by decide)
      · rw [elsewhere f same, ← slots.free f]
        simp [same]
    · intro f bound
      by_cases same : f = e
      · subst same
        rw [here]
        exact Or.inr named
      · rw [elsewhere f same]
        exact slots.ids f bound
    · intro f bound live
      by_cases same : f = e
      · subst same
        rw [here]
        exact named
      · unfold Live at live
        rw [elsewhere f same] at live ⊢
        exact slots.live f bound live

theorem envFree_keeps (slots : Slots s el) {e : Nat} (slot : e < NENV) (live : Live s e)
    (run : envFree s e = .ok s') : Slots s' (e :: el) := by
  obtain ⟨envs, list⟩ := envFree_slots run
  have fresh : e ∉ el := fun listed => live ((slots.free e).mp listed).2
  have here : s'.envs e =
      { s.envs e with envPgdir := none, envStatus := ENV_FREE, envLink := s.envFreeList } := by
    rw [envs, Function.update_self]
  have elsewhere : ∀ f, f ≠ e → s'.envs f = s.envs f := by
    intro f other
    rw [envs, Function.update_of_ne other]
  refine ⟨?_, List.nodup_cons.mpr ⟨fresh, slots.nodup⟩, ?_, ?_, ?_⟩
  · have pushed := chain_push slots.list fresh
    unfold EnvFreeList
    rw [list]
    apply chain_congr pushed
    intro f _
    by_cases same : f = e
    · subst same
      rw [here, Function.update_self]
    · rw [elsewhere f same, Function.update_of_ne same]
  · intro f
    by_cases same : f = e
    · subst same
      rw [here]
      simp [slot]
    · rw [elsewhere f same, ← slots.free f]
      simp [same]
  · intro f bound
    by_cases same : f = e
    · subst same
      rw [here]
      exact slots.ids f bound
    · rw [elsewhere f same]
      exact slots.ids f bound
  · intro f bound live_f
    by_cases same : f = e
    · subst same
      rw [here]
      exact slots.live f bound live
    · unfold Live at live_f
      rw [elsewhere f same] at live_f ⊢
      exact slots.live f bound live_f

end Steps

inductive EnvStep : State → State → Prop where
  | alloc {s s' : State} {parentId : EnvId} {r : Int} {out : Option Nat}
      (run : envAlloc s parentId = .ok (r, out, s')) : EnvStep s s'
  | free {s s' : State} {e : Nat} (slot : e < NENV) (live : Live s e)
      (run : envFree s e = .ok s') : EnvStep s s'

/-- The states such calls reach from env_init on a table whose slots are all free. -/
inductive EnvReached : State → Prop where
  | init {s : State} (free : ∀ e, e < NENV → (s.envs e).envStatus = ENV_FREE)
      (empty : s.envFreeList = none) : EnvReached (envInit s)
  | step {s s' : State} (before : EnvReached s) (step : EnvStep s s') : EnvReached s'

/-- Such calls lead from s to s', and k of them allocated slot e. -/
inductive Since (e : Nat) (s : State) : Nat → State → Prop where
  | refl : Since e s 0 s
  | alloc {s1 s' : State} {k : Nat} {parentId : EnvId} {r : Int} {out : Option Nat}
      (before : Since e s k s1) (run : envAlloc s1 parentId = .ok (r, out, s')) :
      Since e s (if out = some e then k + 1 else k) s'
  | free {s1 s' : State} {k f : Nat} (before : Since e s k s1) (slot : f < NENV)
      (live : Live s1 f) (run : envFree s1 f = .ok s') : Since e s k s'

/-- What callers may rely on. -/
structure TableSound (s : State) : Prop where
  list : ∃ el, EnvFreeList s el ∧ el.Nodup ∧
    ∀ e, e ∈ el ↔ e < NENV ∧ (s.envs e).envStatus = ENV_FREE
  named : ∀ e, e < NENV → Live s e → 0 < (s.envs e).envId.toInt ∧ envx (s.envs e).envId = e
  distinct : ∀ e f, e < NENV → f < NENV → Live s e → Live s f →
    (s.envs e).envId = (s.envs f).envId → e = f
  found : ∀ e, e < NENV → Live s e → envid2env s (s.envs e).envId false = .ok (0, some e)

section Runs
variable {s s1 s2 : State} {el : List Nat}

theorem step_keeps (slots : Slots s el) (step : EnvStep s s1) : ∃ el', Slots s1 el' := by
  cases step with
  | alloc run => exact envAlloc_keeps slots run
  | free slot live run => exact ⟨_, envFree_keeps slots slot live run⟩

theorem reached_slots (reached : EnvReached s) : ∃ el, Slots s el := by
  induction reached with
  | init free empty => exact ⟨_, envInit_slots free empty⟩
  | step _ step ih =>
    obtain ⟨el, slots⟩ := ih
    exact step_keeps slots step

theorem positive_ne_zero {id : EnvId} (positive : 0 < id.toInt) : id ≠ 0 := by
  rintro rfl
  exact absurd positive (by decide)

theorem slots_sound (slots : Slots s el) : TableSound s := by
  have named : ∀ e, e < NENV → Live s e →
      0 < (s.envs e).envId.toInt ∧ envx (s.envs e).envId = e := by
    intro e slot live
    obtain ⟨g, id⟩ := slots.live e slot live
    exact ⟨idOf_positive slot id, idOf_envx slot id⟩
  refine ⟨⟨el, slots.list, slots.nodup, slots.free⟩, named, ?_, ?_⟩
  · intro e f slot_e slot_f live_e live_f same
    rw [← (named e slot_e live_e).2, same, (named f slot_f live_f).2]
  · intro e slot live
    obtain ⟨positive, index⟩ := named e slot live
    have here : ¬ ((s.envs e).envStatus = ENV_FREE ∨ (s.envs e).envId ≠ (s.envs e).envId) := by
      intro bad
      rcases bad with free | differ
      · exact live free
      · exact differ rfl
    unfold envid2env
    rw [if_neg (positive_ne_zero positive)]
    simp only [index]
    rw [if_neg here]
    simp

theorem since_generation {e g : Nat} (slot : e < NENV) (slots : Slots s el)
    (free : (s.envs e).envStatus = ENV_FREE) (named : IdOf e g (s.envs e).envId) {k : Nat}
    (since : Since e s k s1) : (∃ el', Slots s1 el') ∧
      IdOf e (nextGeneration^[k] g) (s1.envs e).envId ∧
        (k = 0 → (s1.envs e).envStatus = ENV_FREE) := by
  induction since with
  | refl => exact ⟨⟨el, slots⟩, named, fun _ => free⟩
  | @alloc s1 s' k parentId r out _ run ih =>
    obtain ⟨⟨el1, slots1⟩, named1, free1⟩ := ih
    refine ⟨envAlloc_keeps slots1 run, ?_⟩
    rcases envAlloc_slots run with ⟨_, rfl, envs, _⟩ | ⟨_, f, new, rfl, _, fresh, envs, _⟩
    · rw [envs, if_neg (by simp)]
      exact ⟨named1, free1⟩
    · by_cases same : f = e
      · subst same
        rw [if_pos rfl, envs, Function.update_self, fresh.envId, Function.iterate_succ_apply']
        exact ⟨nextEnvId_next slot named1, fun never => absurd never (Nat.succ_ne_zero k)⟩
      · have other : some f ≠ some e := fun eq => same (Option.some.inj eq)
        rw [if_neg other, envs, Function.update_of_ne (Ne.symm same)]
        exact ⟨named1, free1⟩
  | @free s1 s' k f _ slot_f live run ih =>
    obtain ⟨⟨el1, slots1⟩, named1, free1⟩ := ih
    refine ⟨⟨_, envFree_keeps slots1 slot_f live run⟩, ?_⟩
    rw [(envFree_slots run).1]
    by_cases same : e = f
    · subst same
      rw [Function.update_self]
      exact ⟨named1, fun _ => rfl⟩
    · rw [Function.update_of_ne same]
      exact ⟨named1, free1⟩

theorem stale_refused {e : Nat} (slot : e < NENV) (slots : Slots s el) (live : Live s e)
    (freed : envFree s e = .ok s1) {k : Nat} (since : Since e s1 k s2) (few : k < GENERATIONS)
    (checkperm : Bool) : envid2env s2 (s.envs e).envId checkperm = .ok (-E_BAD_ENV, none) := by
  obtain ⟨g, named⟩ := slots.live e slot live
  have slots1 := envFree_keeps slots slot live freed
  have here : s1.envs e =
      { s.envs e with envPgdir := none, envStatus := ENV_FREE, envLink := s.envFreeList } := by
    rw [(envFree_slots freed).1, Function.update_self]
  have named1 : IdOf e g (s1.envs e).envId := by
    rw [here]
    exact named
  have free1 : (s1.envs e).envStatus = ENV_FREE := by rw [here]
  obtain ⟨_, named2, free2⟩ := since_generation slot slots1 free1 named1 since
  have index := idOf_envx slot named
  have bad : (s2.envs e).envStatus = ENV_FREE ∨ (s2.envs e).envId ≠ (s.envs e).envId := by
    by_cases first : k = 0
    · exact Or.inl (free2 first)
    · right
      have moved := nextGeneration_fresh named.1 named.2.1 (Nat.pos_of_ne_zero first) few
      exact idOf_ne named2 named moved
  unfold envid2env
  rw [if_neg (positive_ne_zero (idOf_positive slot named))]
  simp only [index]
  rw [if_pos bad]

end Runs

theorem env_table {s : State} (reached : EnvReached s) :
    TableSound s ∧
      ∀ e s1 k s2, e < NENV → Live s e → envFree s e = .ok s1 → Since e s1 k s2 → k < 524287 →
        ∀ checkperm, envid2env s2 (s.envs e).envId checkperm = .ok (-E_BAD_ENV, none) := by
  obtain ⟨el, slots⟩ := reached_slots reached
  refine ⟨slots_sound slots, ?_⟩
  intro e s1 k s2 slot live freed since few checkperm
  exact stale_refused slot slots live freed since few checkperm

section SmallMachine

theorem smallMachine_table {s : State} (booted : Booted smallMachine s) :
    (∀ e, e < NENV → (s.envs e).envStatus = ENV_FREE) ∧ s.envFreeList = none := by
  refine ⟨?_, booted.envFreeList⟩
  intro e _
  rw [booted.envs]
  rfl

theorem env_table_smallMachine : ∃ s s1, Live s 0 ∧ envFree s 0 = .ok s1 ∧
    envid2env s1 (s.envs 0).envId false = .ok (-E_BAD_ENV, none) := by
  obtain ⟨s0, fl, _, booted, acc, all⟩ := memInitAlloc_fits smallMachine smallMachine_fits
  obtain ⟨free, empty⟩ := smallMachine_table booted
  have start := envInit_slots free empty
  have head : (envInit s0).envFreeList = some 0 := (chain_cons_head start.list).1
  have acc0 := (envInit_same s0).books acc
  have reached0 : EnvReached (envInit s0) := .init free empty
  generalize envInit s0 = s at head acc0 reached0
  have some_page : 1 ∈ fl := by
    rw [all]
    unfold Managed
    rw [booted.npages, booted.nextfree]
    decide
  cases fl with
  | nil => cases some_page
  | cons p rest =>
    have alloc := envAlloc_take acc0 head 0
    have slot : (newEnv s 0 p 0).envs 0 = filledSlot (s.envs 0) 0 p 0 := by
      rw [newEnv_envs, Function.update_self]
    have live : Live (newEnv s 0 p 0) 0 := by
      unfold Live
      rw [slot]
      exact (by decide : ENV_RUNNABLE ≠ ENV_FREE)
    have reached : EnvReached (newEnv s 0 p 0) := reached0.step (.alloc alloc)
    have books := (newEnv_books (e := (0 : Fin NENV)) acc0 rfl (0 : EnvId)).1
    have few := newEnv_refs_le (e := (0 : Fin NENV)) acc0 rfl (0 : EnvId) (Nat.le_refl 1)
      (refs_without_envs acc0)
    have dir : ((newEnv s 0 p 0).envs 0).envPgdir = some p := by
      rw [slot]
      rfl
    obtain ⟨s1, freed, _⟩ := envFree_spec books
      (fun q => Nat.lt_of_le_of_lt (few q) (by decide)) (Function.update_self _ _ _) dir
    exact ⟨_, s1, live, freed,
      (env_table reached).2 0 s1 0 s1 (by decide) live freed .refl (by decide) false⟩

end SmallMachine

end JosEnvTable
