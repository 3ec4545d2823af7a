import Jos.EnvSpace

/- One page of region_alloc: a page from the allocator, put into the directory of e. -/
namespace JosRegions
open JosLayout FrameWords JosMachine JosPmap JosMmu JosEnv JosAccounting JosPageOps JosMapping
open JosEnvSpace IntrusiveList Ledger TableForest CountedLoop

def Below (va len : Nat) : Prop := roundUp ((va + len) % WORD) PGSIZE ≤ UTOP

instance (va len : Nat) : Decidable (Below va len) := inferInstanceAs (Decidable (_ ≤ _))

def rounds (va len : Nat) : Nat :=
  (roundUp ((va + len) % WORD) PGSIZE - roundDown va PGSIZE) / PGSIZE

theorem regionAlloc_eq (got : List Grant × State) (e va len : Nat) :
    regionAlloc got e va len =
      times (fun k got => regionAllocStep e (roundDown va PGSIZE + k * PGSIZE) got)
        (rounds va len) got := rfl

theorem below_user {va len k : Nat} (below : Below va len) (within : k < rounds va len) :
    roundDown va PGSIZE + k * PGSIZE + PGSIZE ≤ UTOP ∧
      pdx (roundDown va PGSIZE + k * PGSIZE) < userPdes := by
  unfold Below at below
  unfold rounds at within
  have fits : roundDown va PGSIZE + k * PGSIZE + PGSIZE ≤ UTOP := by
    simp only [PGSIZE] at *
    omega
  refine ⟨fits, ?_⟩
  have top : UTOP < WORD := by decide
  have small : roundDown va PGSIZE + k * PGSIZE < UTOP := by
    simp only [PGSIZE] at *
    omega
  exact (pdx_user (Nat.lt_trans small top)).mpr small

section Step
variable {dirs : Dirs} {s : State} {fl : List Nat} {e : Fin NENV} {pgdir va : Nat}
  {grants : List Grant}

theorem bounded_takeFree {p : Nat} {rest : List Nat} (acc : Accounted dirs none s (p :: rest))
    (bounded : Bounded dirs none s) (zero : Bool) : Bounded dirs none (takeFree s p zero) := by
  intro q
  rw [takeFree_target acc]
  exact bounded q

theorem managed_quiet {s' : State} (quiet : Quiet s s') (p : Nat) : Managed s' p ↔ Managed s p := by
  unfold Managed
  rw [quiet.npages, quiet.nextfree]

theorem regionAllocStep_take {p : Nat} {rest : List Nat} (acc : Accounted dirs none s (p :: rest))
    (dir : (s.envs e).envPgdir = some pgdir) (va : Nat) (grants : List Grant) :
    regionAllocStep e va (grants, s) =
      (pageInsert (takeFree s p false) pgdir p va (PTE_W ||| PTE_U) >>= fun got =>
        .ok (⟨p, got.1⟩ :: grants, got.2)) := by
  have found : derefPgdir ((takeFree s p false).envs e) va = .ok pgdir := by
    unfold derefPgdir
    rw [(takeFree_quiet s p false).envs, dir]
  unfold regionAllocStep
  rw [pageAlloc_take acc, ok_bind]
  change (derefPgdir ((takeFree s p false).envs e) va >>= _) = _
  rw [found]
  rfl

/-- One round of region_alloc panics without a page; with the last page it takes that page and
    leaves it unmapped if a page table is missing; otherwise it maps the page. -/
theorem regionAllocStep_spec (acc : Accounted dirs none s fl) (bounded : Bounded dirs none s)
    (he : dirs e = some pgdir) (dir : (s.envs e).envPgdir = some pgdir)
    (user : pdx va < userPdes) (grants : List Grant) :
    (fl = [] ∧ regionAllocStep e va (grants, s) = .error .regionAllocFailed) ∨
    (∃ p, fl = [p] ∧ target dirs none s (.table e ⟨pdx va, user⟩) = none ∧
      regionAllocStep e va (grants, s) = .ok (⟨p, -E_NO_MEM⟩ :: grants, takeFree s p false)) ∨
    ∃ p rest t s1 fl1 s' fl', fl = p :: rest ∧
      Walked dirs none e ⟨pdx va, user⟩ pgdir (takeFree s p false) rest t s1 fl1 ∧
      regionAllocStep e va (grants, s) = .ok (⟨p, 0⟩ :: grants, s') ∧
      Inserted dirs e ⟨pdx va, user⟩ ⟨ptx va, ptx_lt va⟩ pgdir p (PTE_W ||| PTE_U)
        (takeFree s p false) t s1 fl1 s' fl' := by
  cases fl with
  | nil =>
    left
    refine ⟨rfl, ?_⟩
    unfold regionAllocStep
    rw [pageAlloc_empty acc]
    rfl
  | cons p rest =>
    right
    have taken := takeFree_books acc false
    have quiet := takeFree_quiet s p false
    have start := regionAllocStep_take acc dir va grants
    have managed := (managed_quiet quiet p).mpr (acc.managed p (by simp))
    have busy := (List.nodup_cons.mp acc.nodup).1
    rcases pageInsert_spec taken (bounded_takeFree acc bounded false) he user managed busy
      (show PTE_W ||| PTE_U < 4096 by decide) with ⟨empty, full, failed⟩ | inserted
    · left
      refine ⟨p, by rw [full], ?_, ?_⟩
      · rw [takeFree_target acc] at empty
        exact empty
      · rw [start, failed]
        rfl
    · right
      obtain ⟨t, s1, fl1, s', fl', walked, done, inserted⟩ := inserted
      refine ⟨p, rest, t, s1, fl1, s', fl', rfl, walked, ?_, inserted⟩
      rw [start, done]
      rfl

end Step

end JosRegions
