import Jos.Loader

/- What load_icode may change: its environment, and free pages. An image whose headers reach above
   UTOP is not refused, and changes the kernel's part of memory. -/
namespace JosKernelPart
open JosLayout FrameWords JosMachine JosPmap JosMmu JosEnv JosBoot JosAccounting JosPageOps
open JosMapping JosEnvSpace JosNewEnv JosRegions JosBootPages JosStaticMap JosKernelView JosPageRuns
open JosEnvTable JosDirRights JosUserStores JosLoading JosTrapEntry JosKernelRuns JosEnvFrames JosLoader
open IntrusiveList Ledger TableForest CountedLoop

section Kept
variable {m : Machine} {dirs : Dirs} {s s' : State} {e : Fin NENV} {fl : List Nat}
  {binary : Binary} {grants : List Grant} {q pgdir va : Nat}

end Kept

def emptyImage : Binary := oneHeader 1 0x100 0x1000 0 0 fun _ => 0

theorem emptyImage_stack {e : Fin NENV} {p : Nat} {s s' : State} {grants : List Grant}
    (dir : (s.envs e).envPgdir = some p)
    (stack : regionAlloc ([], lcr3 ((lcr3 s p).setEnv e { s.envs e with
        envTf := { (s.envs e).envTf with tfEip := UInt32.ofNat emptyImage.eEntry } }) s.kernPgdir)
      e (USTACKTOP - PGSIZE) PGSIZE = .ok (grants, s')) :
    loadIcode s e emptyImage = .ok (grants, s') := by
  have magic : emptyImage.eMagic = ELF_MAGIC := by decide
  have no_page : rounds (emptyImage.pVa (emptyImage.ph 0)) (emptyImage.pMemsz (emptyImage.ph 0)) =
      0 := by decide
  have no_byte : emptyImage.pMemsz (emptyImage.ph 0) = 0 := by decide
  have no_file : emptyImage.pFilesz (emptyImage.ph 0) = 0 := by decide
  have count : emptyImage.phCount = 1 := by decide
  have segment : loadSegment e emptyImage (emptyImage.ph 0) ([], lcr3 s p) = .ok ([], lcr3 s p) := by
    refine @loadSegment_run _ _ _ _ _ [] [] (lcr3 s p) (lcr3 s p) ?_ ?_ ?_
    · rw [regionAlloc_eq, no_page]
      rfl
    · rw [no_byte]
      rfl
    · rw [no_file]
      rfl
  have looped : times (fun k got => loadSegment e emptyImage (emptyImage.ph k) got)
      emptyImage.phCount ([], lcr3 s p) = .ok ([], lcr3 s p) := by
    rw [count]
    exact bind_ok.mpr ⟨_, rfl, segment⟩
  exact loadIcode_run magic dir looped stack

end JosKernelPart
