import Jos.BootPages
import Jos.EnvSpace

/- env_init and env_alloc against the books of the page allocator. -/
namespace JosNewEnv
open JosLayout FrameWords JosMachine JosPmap JosMmu JosEnv JosAccounting JosPageOps JosMapping
open JosEnvSpace IntrusiveList Ledger TableForest CountedLoop

theorem envInitLoop_rest (n : Nat) (s : State) : envInitLoop n s =
    { s with envs := (envInitLoop n s).envs, envFreeList := (envInitLoop n s).envFreeList } := by
  induction n generalizing s with
  | zero => rfl
  | succ n ih =>
    have later := ih (envInitStep s n)
    rw [envInitLoop, later]
    rfl

theorem envInit_rest (s : State) : envInit s =
    { s with envs := (envInit s).envs, envFreeList := (envInit s).envFreeList } :=
  envInitLoop_rest NENV s

theorem envInit_same (s : State) : SamePages s (envInit s) := by
  have rest := envInit_rest s
  generalize envInit s = s' at rest
  rw [rest]
  exact ⟨rfl, rfl, rfl, rfl, rfl, rfl⟩

section Alloc
variable {dirs : Dirs} {s : State} {fl rest : List Nat} {e : Fin NENV} {p : Nat}

def filledSlot (old : Env) (e p : Nat) (parentId : EnvId) : Env :=
  { old with
    envPgdir := some p
    envId := nextEnvId old.envId e
    envParentId := parentId
    envType := .user
    envStatus := ENV_RUNNABLE
    envRuns := 0
    envTf := initialTrapframe }

/-- The state after env_alloc has given slot e the directory p. -/
def newEnv (s : State) (e p : Nat) (parentId : EnvId) : State :=
  { (newDir s e p).setEnv e (filledSlot (s.envs e) e p parentId) with
    envFreeList := (s.envs e).envLink }

theorem newEnv_same (s : State) (e p : Nat) (parentId : EnvId) :
    SamePages (newDir s e p) (newEnv s e p parentId) := ⟨rfl, rfl, rfl, rfl, rfl, rfl⟩

theorem newEnv_mem_of_ne {q e : Nat} (differ : q ≠ p) (parentId : EnvId) :
    (newEnv s e p parentId).mem q = s.mem q := by
  rw [(newEnv_same s e p parentId).mem]
  exact newDir_mem_of_ne differ

theorem newEnv_envs (s : State) (e p : Nat) (parentId : EnvId) :
    (newEnv s e p parentId).envs =
      Function.update s.envs e (filledSlot (s.envs e) e p parentId) := by
  change Function.update (newDir s e p).envs e _ = _
  rw [newDir_envs, Function.update_idem]

theorem newEnv_rest (s : State) (e p : Nat) (parentId : EnvId) : newEnv s e p parentId =
    { s with
      mem := (newEnv s e p parentId).mem, pages := (newEnv s e p parentId).pages,
      pageFreeList := (newEnv s e p parentId).pageFreeList,
      envs := (newEnv s e p parentId).envs, envFreeList := (s.envs e).envLink } := rfl

theorem envAlloc_none (head : s.envFreeList = none) (parentId : EnvId) :
    envAlloc s parentId = .ok (-E_NO_FREE_ENV, none, s) := by
  unfold envAlloc
  rw [head]

theorem envAlloc_full {e : Nat} (acc : Accounted dirs none s []) (head : s.envFreeList = some e)
    (parentId : EnvId) : envAlloc s parentId = .ok (-E_NO_MEM, none, s) := by
  unfold envAlloc
  rw [head]
  simp only [envSetupVm_empty acc, ok_bind]
  exact if_pos (by decide)

theorem envAlloc_take {e : Nat} (acc : Accounted dirs none s (p :: rest))
    (head : s.envFreeList = some e) (parentId : EnvId) :
    envAlloc s parentId = .ok (0, some e, newEnv s e p parentId) := by
  have slot : (newDir s e p).envs e = { s.envs e with envPgdir := some p } := by
    rw [newDir_envs, Function.update_self]
  have filled : ∀ v, (((newDir s e p).setEnv e v).envs e) = v := by
    intro v
    simp [State.setEnv]
  unfold envAlloc
  rw [head]
  simp only [envSetupVm_take acc, ok_bind]
  rw [if_neg (by decide)]
  simp only [slot, filled]
  rfl

theorem newEnv_books (acc : Accounted dirs none s (p :: rest)) (free_slot : dirs e = none)
    (parentId : EnvId) :
    Accounted (Function.update dirs e (some p)) none (newEnv s e p parentId) rest ∧
      target (Function.update dirs e (some p)) none (newEnv s e p parentId) =
        Function.update (target dirs none s) (.root e) (some p) := by
  obtain ⟨books, moved⟩ := newDir_books acc free_slot
  have same := newEnv_same s e p parentId
  exact ⟨same.books books, same.target.trans moved⟩

theorem newEnv_refs_le (acc : Accounted dirs none s (p :: rest)) (free_slot : dirs e = none)
    (parentId : EnvId) {bound : Nat} (positive : 1 ≤ bound)
    (few : ∀ q, refs (target dirs none s) q ≤ bound) (q : Nat) :
    refs (target (Function.update dirs e (some p)) none (newEnv s e p parentId)) q ≤ bound := by
  have empty : target dirs none s (.root e) = none := free_slot
  rw [(newEnv_books acc free_slot parentId).2]
  exact refs_point_le empty (free_refs acc (by simp)) positive few q

/-- Without environments a page has at most one reference, from kern_pgdir. -/
theorem refs_without_envs (acc : Accounted (fun _ => none) none s fl) (p : Nat) :
    refs (target (fun _ => none) none s) p ≤ 1 := by
  apply refs_le_one
  have fixed : ∀ x : PageSlot, target (fun _ => none) none s x = some p → x.Structural := by
    intro x held
    cases x with
    | hand => cases held
    | root e => cases held
    | table e d => cases held
    | leaf e d i => cases held
    | fixed k => trivial
  intro x y hx hy
  exact acc.apart x y p (fixed x hx) (fixed y hy) hx hy

end Alloc

end JosNewEnv
