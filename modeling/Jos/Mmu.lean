import Jos.Pmap

/- The x86 side of paging, as far as the kernel relies on it: the two-level walk, the rights
   it grants to kernel-mode code under CR0_WP and to user-mode code, and kernel-mode byte
   accesses through the directory in CR3. A fault taken in kernel mode ends in the panic of
   page_fault_handler. -/
namespace JosMmu
open JosLayout FrameWords JosMachine

def walk (s : State) (pgdir va : Nat) : Option Translation :=
  let pde := s.entry pgdir (pdx va)
  if Present pde then
    let pte := s.entry (ppn pde) (ptx va)
    if Present pte then some ⟨pde, pte⟩ else none
  else none

theorem walk_some {s : State} {pgdir va : Nat} {t : Translation} :
    walk s pgdir va = some t ↔
      Present (s.entry pgdir (pdx va)) ∧
        Present (s.entry (ppn (s.entry pgdir (pdx va))) (ptx va)) ∧
        t = ⟨s.entry pgdir (pdx va), s.entry (ppn (s.entry pgdir (pdx va))) (ptx va)⟩ := by
  unfold walk
  dsimp only
  constructor
  · intro walked
    split at walked
    · rename_i pde
      split at walked
      · rename_i pte
        cases walked
        exact ⟨pde, pte, rfl⟩
      · cases walked
    · cases walked
  · intro h
    obtain ⟨pde, pte, rfl⟩ := h
    rw [if_pos pde, if_pos pte]

def Translation.page (t : Translation) : Nat := ppn t.pte

def Translation.writable (t : Translation) : Prop := Writable t.pde ∧ Writable t.pte

def Translation.user (t : Translation) : Prop := UserBit t.pde ∧ UserBit t.pte

instance (t : Translation) : Decidable (Translation.writable t) :=
  inferInstanceAs (Decidable (_ ∧ _))

instance (t : Translation) : Decidable (Translation.user t) :=
  inferInstanceAs (Decidable (_ ∧ _))

def userReadable (s : State) (pgdir va : Nat) (p : Nat) : Prop :=
  ∃ t, walk s pgdir va = some t ∧ Translation.user t ∧ Translation.page t = p

def userWritable (s : State) (pgdir va : Nat) (p : Nat) : Prop :=
  ∃ t, walk s pgdir va = some t ∧ Translation.user t ∧ Translation.writable t ∧
    Translation.page t = p

/-- A kernel-mode load of one byte; none is a page fault. -/
def kread (s : State) (va : Nat) : Option UInt8 :=
  (walk s s.cr3 va).map fun t => s.mem (Translation.page t) (pgoff va)

def kwrite (s : State) (va : Nat) (b : UInt8) : Except Panic State :=
  match walk s s.cr3 va with
  | none => .error (.kernelPageFault va)
  | some t =>
    if Translation.writable t then .ok (s.setByte (Translation.page t) (pgoff va) b)
    else .error (.kernelPageFault va)

/-- Loading CR3 drops the translations held so far. -/
def lcr3 (s : State) (pgdir : Nat) : State := { s with cr3 := pgdir, tlb := fun _ => none }

end JosMmu
