import Jos.Descriptors
import Jos.TrapReturn
import Jos.UserRuns

/- The gdt of kern/env.c and trap_init of kern/trap.c, and what the processor makes of the tables
   when a trap is due in user mode. -/
namespace JosGates
open JosLayout JosMachine JosEnv JosTrap JosBoot JosEnvTable JosEnvSwitch JosSyscallReturn JosUserStores
open JosKernelRuns JosTrapEnds JosTrapEntry JosTrapReturn JosUserRuns JosDescriptors
open JosEnvFrames BitFields

abbrev GD_TSS0 : Nat := 0x28

abbrev T_OFLOW : Nat := 4
abbrev T_DBLFLT : Nat := 8
abbrev T_TSS : Nat := 10
abbrev T_SEGNP : Nat := 11
abbrev T_STACK : Nat := 12
abbrev T_GPFLT : Nat := 13

def gdt : List Segdesc :=
  [SEG_NULL, SEG (STA_X ||| STA_R) 0x0 0xffffffff 0, SEG STA_W 0x0 0xffffffff 0,
    SEG (STA_X ||| STA_R) 0x0 0xffffffff 3, SEG STA_W 0x0 0xffffffff 3, SEG_NULL]

structure Taskstate where
  tsEsp0 : Nat
  tsSs0 : Nat
  tsIomb : Nat
  deriving DecidableEq

abbrev sizeofTaskstate : Nat := 104

/-- The tables in memory, the address of ts, and what ltr has put in the task register. -/
structure Tables where
  gdt : List Segdesc
  idt : Nat → Gatedesc
  ts : Taskstate
  tsAddr : Nat
  tr : Nat

def linkedTables (tsAddr : Nat) : Tables where
  gdt := gdt
  idt := fun _ => ⟨0, 0, 0, 0, 0, 0, 0, 0, 0⟩
  ts := ⟨0, 0, 0⟩
  tsAddr := tsAddr
  tr := 0

def gateRound (vectors : Nat → Nat) (idt : Nat → Gatedesc) (i : Nat) : Nat → Gatedesc :=
  if i = T_BRKPT.toNat then Function.update idt i (SETGATE false GD_KT.toNat (vectors i) 3)
  else if i ≠ 2 ∧ i ≠ 15 then Function.update idt i (SETGATE false GD_KT.toNat (vectors i) 0)
  else idt

def trapInitPercpu (t : Tables) : Tables :=
  let d := { SEG16 STS_T32A t.tsAddr (sizeofTaskstate - 1) 0 with sdS := 0 }
  { t with
    ts := ⟨KSTACKTOP, GD_KD.toNat, sizeofTaskstate⟩
    gdt := t.gdt.set (GD_TSS0 >>> 3) { d with sdType := d.sdType ||| 2 }
    tr := GD_TSS0 }

def trapInit (vectors : Nat → Nat) (t : Tables) : Tables :=
  let idt := (List.range 17).foldl (gateRound vectors) t.idt
  trapInitPercpu { t with idt := Function.update idt 48 (SETGATE false GD_KT.toNat (vectors 48) 3) }

/- The processor. -/

def segment (t : Tables) (sel : Nat) : Option Segment :=
  if sel / 4 % 2 = 1 then none else (t.gdt[sel / 8]?).map fun d => readSegment d.bits

def Segment.code (d : Segment) : Prop := d.application = true ∧ 8 ≤ d.type

def Segment.conforming (d : Segment) : Prop := d.type / 4 % 2 = 1

def Segment.stack (d : Segment) : Prop := d.application = true ∧ d.type < 8 ∧ d.type / 2 % 2 = 1

instance (d : Segment) : Decidable (Segment.code d) := inferInstanceAs (Decidable (_ ∧ _))

instance (d : Segment) : Decidable (Segment.conforming d) := inferInstanceAs (Decidable (_ = _))

instance (d : Segment) : Decidable (Segment.stack d) := inferInstanceAs (Decidable (_ ∧ _ ∧ _))

/-- ss and esp for an inner ring, from the task state that the task register leads to, or the vector
    of the fault; ts has a stack for ring 0 only. -/
def taskStack (t : Tables) (ring : Nat) : Except Nat (Nat × Nat) :=
  match segment t t.tr, segment t t.ts.tsSs0 with
  | some task, some ss =>
    if ring = 0 ∧ task.base = t.tsAddr ∧ 103 ≤ task.limit ∧ t.ts.tsSs0 % 4 = 0 ∧ Segment.stack ss ∧
        ss.dpl = 0 then
      if ss.present then .ok (t.ts.tsSs0, t.ts.tsEsp0) else .error T_STACK
    else .error T_TSS
  | _, _ => .error T_TSS

/-- How the processor takes a trap: it comes to the entry point eip, or has another trap to take. -/
inductive Delivery where
  | enters (k : Cpu) (eip : Nat)
  | fault (n err : Nat)

def pushFrame (u : Cpu) (esp ss cs : Nat) (code : Bool) (err : UInt32) : Cpu :=
  let k := { u with reg := { u.reg with esp := UInt32.ofNat esp, ss := UInt16.ofNat ss, cs := UInt16.ofNat cs } }
  let k := push k (selector k u.reg.ss)
  let k := push k u.reg.esp
  let k := push k u.reg.eflags
  let k := push k (selector k u.reg.cs)
  let k := push k u.reg.eip
  if code then push k err else k

def pushSame (u : Cpu) (cs : Nat) (code : Bool) (err : UInt32) : Cpu :=
  let k := push u u.reg.eflags
  let k := push k (selector k u.reg.cs)
  let k := push k u.reg.eip
  let k := if code then push k err else k
  { k with reg := { k.reg with cs := UInt16.ofNat (cs + 3) } }

/-- Vector n below 256 is due in user mode, by int n or as an exception, which comes with an error
    code for some vectors and is external as error codes say. No table has a task gate or a
    16-bit gate. -/
def deliver (t : Tables) (u : Cpu) (n : Nat) (soft : Bool) (err : UInt32) : Delivery :=
  let ext := if soft then 0 else 1
  let code := !soft && decide (pushesErrorCode n)
  let g := readGate (t.idt n).bits
  let sel := g.selector / 4 * 4
  if g.application ∨ ¬ (g.type = STS_IG32 ∨ g.type = STS_TG32) then .fault T_GPFLT (8 * n + 2 + ext)
  else if soft ∧ g.dpl < 3 then .fault T_GPFLT (8 * n + 2)
  else if ¬ g.present then .fault T_SEGNP (8 * n + 2 + ext)
  else
    match segment t g.selector with
    | none => .fault T_GPFLT (sel + ext)
    | some c =>
      if ¬ Segment.code c then .fault T_GPFLT (sel + ext)
      else if ¬ c.present then .fault T_SEGNP (sel + ext)
      else if Segment.conforming c ∨ c.dpl = 3 then .enters (pushSame u sel code err) g.offset
      else
        match taskStack t c.dpl with
        | .error n' => .fault n' (t.ts.tsSs0 / 4 * 4 + ext)
        | .ok (ss, esp) => .enters (pushFrame u esp ss (sel + c.dpl) code err) g.offset

def contributory (n : Nat) : Prop := n = 0 ∨ 10 ≤ n ∧ n ≤ 14

instance (n : Nat) : Decidable (contributory n) := inferInstanceAs (Decidable (_ ∨ _ ∧ _))

/-- The exceptions that an instruction asks for, int3 and into: the privilege of the gate counts for
    them as for int. -/
def Asked (n : Nat) : Prop := n = 3 ∨ n = T_OFLOW

instance (n : Nat) : Decidable (Asked n) := inferInstanceAs (Decidable (_ ∨ _))

/-- An exception in user mode; a fault on the way to its handler is an exception of its own. -/
def raise (t : Tables) (u : Cpu) (n : Nat) (err : UInt32) : Delivery :=
  match deliver t u n (decide (Asked n)) err with
  | .fault n' err' =>
    if contributory n then deliver t u T_DBLFLT false 0 else deliver t u n' false (UInt32.ofNat err')
  | entered => entered

def advance (u : Cpu) (next : UInt32) : Cpu := { u with reg := { u.reg with eip := next } }

def int (t : Tables) (u : Cpu) (n : Nat) (next : UInt32) : Delivery :=
  match deliver t (advance u next) n true 0 with
  | .fault n' err' => raise t u n' (UInt32.ofNat err')
  | entered => entered

def HasGate (n : Nat) : Prop := n = 48 ∨ n < 17 ∧ n ≠ 2 ∧ n ≠ 15

instance (n : Nat) : Decidable (HasGate n) := inferInstanceAs (Decidable (_ ∨ _ ∧ _ ∧ _))

def Invited (n : Nat) : Prop := n = 3 ∨ n = 48

instance (n : Nat) : Decidable (Invited n) := inferInstanceAs (Decidable (_ ∨ _))

section Tables
variable {vectors : Nat → Nat} {tsAddr : Nat}

theorem gateRounds (vectors : Nat → Nat) (idt : Nat → Gatedesc) (k n : Nat) :
    (List.range k).foldl (gateRound vectors) idt n = if n < k ∧ n ≠ 2 ∧ n ≠ 15
      then SETGATE false 8 (vectors n) (if n = 3 then 3 else 0) else idt n := by
  induction k with
  | zero => simp
  | succ k ih =>
    rw [List.range_succ, List.foldl_append]
    simp only [List.foldl_cons, List.foldl_nil]
    generalize (List.range k).foldl (gateRound vectors) idt = before at ih
    have brkpt : T_BRKPT.toNat = 3 := rfl
    have text : GD_KT.toNat = 8 := rfl
    unfold gateRound
    rw [brkpt, text]
    by_cases here : n = k
    · subst here
      split
      · rename_i three
        simp [three]
      · rename_i not_three
        split
        · rename_i fine
          simp [fine]
        · rename_i barred
          rw [ih, if_neg (by omega), if_neg (by omega)]
    · have elsewhere : ∀ g, Function.update before k g n = before n :=
        fun g => Function.update_of_ne here _ _
      have same : (n < k + 1 ∧ n ≠ 2 ∧ n ≠ 15) ↔ (n < k ∧ n ≠ 2 ∧ n ≠ 15) := by omega
      rw [if_congr same rfl rfl, ← ih]
      split
      · exact elsewhere _
      · split
        · exact elsewhere _
        · rfl

theorem idt_at (v : Nat → Nat) (tsAddr n : Nat) : (trapInit v (linkedTables tsAddr)).idt n =
    if HasGate n then SETGATE false 8 (v n) (if Invited n then 3 else 0)
    else ⟨0, 0, 0, 0, 0, 0, 0, 0, 0⟩ := by
  have rounds := gateRounds v (linkedTables tsAddr).idt 17 n
  have text : GD_KT.toNat = 8 := rfl
  change Function.update ((List.range 17).foldl (gateRound v) (linkedTables tsAddr).idt) 48
    (SETGATE false GD_KT.toNat (v 48) 3) n = _
  rw [text]
  by_cases last : n = 48
  · subst last
    simp [HasGate, Invited]
  · have gate : HasGate n ↔ n < 17 ∧ n ≠ 2 ∧ n ≠ 15 := by simp [HasGate, last]
    have invited : Invited n ↔ n = 3 := by simp [Invited, last]
    rw [Function.update_of_ne last, rounds, if_congr gate rfl rfl, if_congr invited rfl rfl]
    rfl

theorem gate_at {v : Nat → Nat} {n : Nat} (tsAddr : Nat) (located : v n < WORD) :
    readGate ((trapInit v (linkedTables tsAddr)).idt n).bits = if HasGate n
      then ⟨v n, 8, STS_IG32, false, if Invited n then 3 else 0, true⟩
      else ⟨0, 0, 0, false, 0, false⟩ := by
  have ring : (if Invited n then 3 else 0) < 4 := by split <;> decide
  rw [idt_at]
  by_cases gate : HasGate n
  · rw [if_pos gate, if_pos gate]
    exact SETGATE_read false located (by decide) ring
  · rw [if_neg gate, if_neg gate]
    decide

theorem kernel_text (v : Nat → Nat) (tsAddr : Nat) : segment (trapInit v (linkedTables tsAddr)) 8 =
    some ⟨0, 0xffffffff, 10, true, 0, true⟩ := by
  have text := @SEG_read (STA_X ||| STA_R) 0 0xffffffff 0 (by decide) (by decide) (by decide)
    (by decide)
  change some (readSegment (SEG (STA_X ||| STA_R) 0 0xffffffff 0).bits) = _
  rw [text]
  rfl

theorem kernel_data (v : Nat → Nat) (tsAddr : Nat) :
    segment (trapInit v (linkedTables tsAddr)) 0x10 = some ⟨0, 0xffffffff, 2, true, 0, true⟩ := by
  have data := @SEG_read STA_W 0 0xffffffff 0 (by decide) (by decide) (by decide) (by decide)
  change some (readSegment (SEG STA_W 0 0xffffffff 0).bits) = _
  rw [data]

theorem task_segment (v : Nat → Nat) {tsAddr : Nat} (located : tsAddr < WORD) :
    segment (trapInit v (linkedTables tsAddr)) GD_TSS0 = some ⟨tsAddr, 103, 11, false, 0, true⟩ := by
  have place := base_pieces located
  change some (readSegment { SEG16 STS_T32A tsAddr (sizeofTaskstate - 1) 0 with
    sdS := 0, sdType := STS_T32A ||| 2 }.bits) = _
  rw [readSegment_bits]
  simpa [SEG16, sizeofTaskstate, STS_T32A] using place

theorem kernel_stack (v : Nat → Nat) {tsAddr : Nat} (located : tsAddr < WORD) :
    taskStack (trapInit v (linkedTables tsAddr)) 0 = .ok (0x10, KSTACKTOP) := by
  have tr : (trapInit v (linkedTables tsAddr)).tr = GD_TSS0 := rfl
  have ss0 : (trapInit v (linkedTables tsAddr)).ts.tsSs0 = 0x10 := rfl
  have same : (trapInit v (linkedTables tsAddr)).tsAddr = tsAddr := rfl
  unfold taskStack
  rw [tr, ss0, same, task_segment v located, kernel_data]
  simp [Segment.stack]
  rfl

theorem pushFrame_interrupt (u : Cpu) (n : Nat) (err : UInt32) :
    pushFrame u KSTACKTOP 0x10 8 (decide (pushesErrorCode n)) err = interrupt u n err := by
  unfold pushFrame interrupt
  by_cases code : pushesErrorCode n
  · rw [decide_eq_true code, if_pos code]
    rfl
  · rw [decide_eq_false code, if_neg code]
    rfl

theorem invited_bare {n : Nat} (invited : Invited n) : HasGate n ∧ ¬ pushesErrorCode n := by
  rcases invited with rfl | rfl <;> decide

section Delivery
variable {v : Nat → Nat} {u : Cpu} {n : Nat} {soft : Bool} {err : UInt32}

theorem deliver_gate (u : Cpu) (err : UInt32) (task : tsAddr < WORD) (located : v n < WORD)
    (gate : HasGate n) (allowed : soft = true → Invited n) :
    deliver (trapInit v (linkedTables tsAddr)) u n soft err = .enters (interrupt u n err) (v n) := by
  have code : (!soft && decide (pushesErrorCode n)) = decide (pushesErrorCode n) := by
    cases soft with
    | false => rfl
    | true =>
      rw [decide_eq_false (invited_bare (allowed rfl)).2]
      rfl
  have ring : ¬ (soft = true ∧ (if Invited n then 3 else 0) < 3) := by
    rintro ⟨named, low⟩
    rw [if_pos (allowed named)] at low
    exact Nat.lt_irrefl 3 low
  have text : ¬ ¬ Segment.code ⟨0, 0xffffffff, 10, true, 0, true⟩ := by decide
  have inner : ¬ (Segment.conforming ⟨0, 0xffffffff, 10, true, 0, true⟩ ∨ 0 = 3) := by decide
  unfold deliver
  rw [gate_at tsAddr located, if_pos gate]
  simp only [if_neg ring, kernel_text, if_neg text, if_neg inner, kernel_stack v task, code]
  rw [← pushFrame_interrupt]
  rfl

theorem deliver_forbidden (u : Cpu) (err : UInt32) (located : v n < WORD) (uninvited : ¬ Invited n) :
    deliver (trapInit v (linkedTables tsAddr)) u n true err = .fault T_GPFLT (8 * n + 2) := by
  unfold deliver
  rw [gate_at tsAddr located, if_neg uninvited]
  by_cases gate : HasGate n
  · rw [if_pos gate]
    simp [STS_IG32]
  · rw [if_neg gate]
    simp [STS_IG32, STS_TG32]

theorem deliver_absent (u : Cpu) (err : UInt32) (located : v n < WORD) (absent : ¬ HasGate n) :
    deliver (trapInit v (linkedTables tsAddr)) u n false err = .fault T_GPFLT (8 * n + 3) := by
  unfold deliver
  rw [gate_at tsAddr located, if_neg absent]
  simp [STS_IG32, STS_TG32]

theorem raise_eq (u : Cpu) (err : UInt32) (task : tsAddr < WORD) (located : ∀ n, v n < WORD) :
    raise (trapInit v (linkedTables tsAddr)) u n err =
      if n = T_OFLOW then .enters (interrupt u T_GPFLT 0x22) (v T_GPFLT)
      else if HasGate n then .enters (interrupt u n err) (v n)
      else .enters (interrupt u T_GPFLT (UInt32.ofNat (8 * n + 3))) (v T_GPFLT) := by
  have protection : HasGate T_GPFLT := by decide
  have gives : ∀ err', deliver (trapInit v (linkedTables tsAddr)) u T_GPFLT false err' =
      .enters (interrupt u T_GPFLT err') (v T_GPFLT) :=
    fun err' => deliver_gate u err' task (located _) protection (by simp)
  unfold raise
  by_cases overflow : n = T_OFLOW
  · subst overflow
    have asked : Asked T_OFLOW := Or.inr rfl
    rw [if_pos rfl, decide_eq_true asked, deliver_forbidden u err (located _) (by decide)]
    dsimp only
    rw [if_neg (by decide)]
    exact gives _
  have allowed : decide (Asked n) = true → Invited n := by
    intro asked
    exact Or.inl ((of_decide_eq_true asked).resolve_right overflow)
  rw [if_neg overflow]
  by_cases gate : HasGate n
  · rw [deliver_gate u err task (located n) gate allowed, if_pos gate]
  · have quiet : ¬ Asked n := by
      rintro (rfl | rfl)
      · exact gate (by decide)
      · exact overflow rfl
    have benign : ¬ contributory n := by
      intro bad
      apply gate
      unfold contributory at bad
      unfold HasGate
      omega
    rw [decide_eq_false quiet, deliver_absent u err (located n) gate, if_neg gate]
    dsimp only
    rw [if_neg benign]
    exact gives _

theorem int_eq (u : Cpu) (next : UInt32) (task : tsAddr < WORD) (located : ∀ n, v n < WORD) :
    int (trapInit v (linkedTables tsAddr)) u n next =
      if Invited n then .enters (interrupt (advance u next) n 0) (v n)
      else .enters (interrupt u T_GPFLT (UInt32.ofNat (8 * n + 2))) (v T_GPFLT) := by
  have protection : HasGate T_GPFLT := by decide
  unfold int
  by_cases invited : Invited n
  · rw [deliver_gate _ 0 task (located n) (invited_bare invited).1 (fun _ => invited), if_pos invited]
  · rw [deliver_forbidden _ 0 (located n) invited, if_neg invited]
    dsimp only
    rw [raise_eq u _ task located, if_neg (by decide), if_pos protection]

end Delivery

end Tables

section Arrival
variable {m : Machine} {w : Surroundings} {s : State} {c : Fin NENV} {u : Cpu} {v : Nat → UInt32}

/-- The processor comes to the entry point of a vector, and the code there calls trap with tf. -/
def Arrives (v : Nat → UInt32) (d : Delivery) (back : UInt32) (tf : Trapframe) : Prop :=
  ∃ k i stub, d = .enters k (v i).toNat ∧ JosTrapEntry.vectors.getD i none = some stub ∧
    loadTrapframe (exec k (stub.code ++ alltraps back)).mem
      (argument (exec k (stub.code ++ alltraps back))).toNat = tf

theorem gate_stub {n : Nat} (gate : HasGate n) :
    ∃ stub, JosTrapEntry.vectors.getD n none = some stub := by
  have table : ∀ i, i < 49 → HasGate i → (JosTrapEntry.vectors.getD i none).isSome := by decide
  apply Option.isSome_iff_exists.mp
  apply table n _ gate
  unfold HasGate at gate
  omega

theorem arrives_interrupt (u : Cpu) {n : Nat} (gate : HasGate n) (err back : UInt32) :
    Arrives v (.enters (interrupt u n err) (v n).toNat) back (savedFrame u n err) := by
  obtain ⟨stub, entry⟩ := gate_stub gate
  exact ⟨_, n, stub, rfl, entry, entry_layout u (vectors_fit entry) err back⟩

theorem trap_destroys {tf : Trapframe} (inv : KernelInv m s) (mode : UserMode s c)
    (user : tf.tfCs &&& 3 = 3) (enough : WORD ≤ w.bound) (not_brkpt : tf.tfTrapno ≠ T_BRKPT)
    (not_syscall : tf.tfTrapno ≠ T_SYSCALL) (cr2 : Nat) :
    ∃ s', trap w s tf cr2 = .error (.monitor s') ∧ Destroyed (saveFrame s tf) s' := by
  have handled : Handled s tf (trap w s tf cr2) :=
    (handled_iff inv mode user enough).mpr fun _ off => not_syscall off.number
  generalize trap w s tf cr2 = result at handled
  cases handled with
  | back number eax => exact absurd number not_syscall
  | breakpoint number => exact absurd number not_brkpt
  | destroyed _ gone => exact ⟨_, rfl, gone⟩

theorem trap_breaks {tf : Trapframe} (inv : KernelInv m s) (mode : UserMode s c)
    (user : tf.tfCs &&& 3 = 3) (enough : WORD ≤ w.bound) (brkpt : tf.tfTrapno = T_BRKPT) (cr2 : Nat) :
    trap w s tf cr2 = .error (.monitor (saveFrame s tf)) := by
  have differ : T_BRKPT ≠ T_SYSCALL := by decide
  have handled : Handled s tf (trap w s tf cr2) :=
    (handled_iff inv mode user enough).mpr fun _ off => differ (brkpt.symm.trans off.number)
  generalize trap w s tf cr2 = result at handled
  cases handled with
  | back number eax => exact absurd (brkpt.symm.trans number) differ
  | breakpoint _ => rfl
  | destroyed other _ => exact absurd brkpt other

theorem ofNat_trapno {n k : Nat} (gate : HasGate n) (word : k < 4294967296)
    (same : UInt32.ofNat n = UInt32.ofNat k) : n = k := by
  have small : n < 4294967296 := by
    unfold HasGate at gate
    omega
  have values := congrArg UInt32.toNat same
  rwa [UInt32.toNat_ofNat', UInt32.toNat_ofNat', Nat.mod_eq_of_lt small, Nat.mod_eq_of_lt word]
    at values

/-- With the tables of trap_init, a program that executes int n makes a system call for 48, stops in
    the monitor for 3, and for any other n takes a general protection fault and is destroyed; so is
    it by any exception but a breakpoint, which comes with its own vector where that has a gate and
    is not the one of into. -/
theorem user_interrupts (reached : Reached m loadsLow s) (mode : UserMode s c)
    (user : u.reg.cs &&& 3 = 3) (enough : WORD ≤ w.bound) (v : Nat → UInt32) (ts back : UInt32) (n : Nat) :
    let t := trapInit (fun i => (v i).toNat) (linkedTables ts.toNat)
    (∀ next, ∃ tf, Arrives v (int t u n next) back tf ∧
      ((n = 48 ∧ tf = savedFrame (advance u next) n 0 ∧
          ∀ cr2, Handled s tf (trap w s tf cr2) ↔ ∀ a, ¬ RunsOff (saveFrame s tf) tf a) ∨
        (n = 3 ∧ tf = savedFrame (advance u next) n 0 ∧
          ∀ cr2, trap w s tf cr2 = .error (.monitor (saveFrame s tf))) ∨
        (¬ Invited n ∧ tf = savedFrame u T_GPFLT (UInt32.ofNat (8 * n + 2)) ∧
          ∀ cr2, ∃ s', trap w s tf cr2 = .error (.monitor s') ∧ Destroyed (saveFrame s tf) s'))) ∧
    ∀ err, ¬ Invited n → ∃ tf, Arrives v (raise t u n err) back tf ∧
      (tf = if n = T_OFLOW then savedFrame u T_GPFLT 0x22
        else if HasGate n then savedFrame u n err
        else savedFrame u T_GPFLT (UInt32.ofNat (8 * n + 3))) ∧
      ∀ cr2, ∃ s', trap w s tf cr2 = .error (.monitor s') ∧ Destroyed (saveFrame s tf) s' := by
  intro t
  have inv := reached_inv loadsLow_keeps reached
  have located : ∀ i, (v i).toNat < WORD := fun i => (v i).toNat_lt
  have protection : HasGate T_GPFLT := by decide
  have not_brkpt : UInt32.ofNat T_GPFLT ≠ T_BRKPT := by decide
  have not_syscall : UInt32.ofNat T_GPFLT ≠ T_SYSCALL := by decide
  have faulted : ∀ err cr2, ∃ s', trap w s (savedFrame u T_GPFLT err) cr2 = .error (.monitor s') ∧
      Destroyed (saveFrame s (savedFrame u T_GPFLT err)) s' :=
    fun err cr2 => trap_destroys inv mode user enough not_brkpt not_syscall cr2
  constructor
  · intro next
    have taken := int_eq (n := n) u next ts.toNat_lt located
    by_cases invited : Invited n
    · rw [if_pos invited] at taken
      have arrives := arrives_interrupt (v := v) (advance u next)
        (invited_bare invited).1 0 back
      rw [← taken] at arrives
      refine ⟨_, arrives, ?_⟩
      rcases invited with rfl | rfl
      · exact Or.inr (Or.inl ⟨rfl, rfl, fun cr2 => trap_breaks inv mode user enough rfl cr2⟩)
      · exact Or.inl ⟨rfl, rfl, fun cr2 => handled_iff inv mode user enough⟩
    · rw [if_neg invited] at taken
      have arrives := arrives_interrupt (v := v) u protection (UInt32.ofNat (8 * n + 2)) back
      rw [← taken] at arrives
      exact ⟨_, arrives, Or.inr (Or.inr ⟨invited, rfl, faulted _⟩)⟩
  · intro err uninvited
    have taken := raise_eq (n := n) u err ts.toNat_lt located
    by_cases overflow : n = T_OFLOW
    · rw [if_pos overflow] at taken
      have arrives := arrives_interrupt (v := v) u protection 0x22 back
      rw [← taken] at arrives
      exact ⟨_, arrives, (if_pos overflow).symm, faulted _⟩
    rw [if_neg overflow] at taken ⊢
    by_cases gate : HasGate n
    · rw [if_pos gate] at taken
      have arrives := arrives_interrupt (v := v) u gate err back
      rw [← taken] at arrives
      refine ⟨_, arrives, (if_pos gate).symm, fun cr2 => ?_⟩
      apply trap_destroys inv mode user enough
      · intro brkpt
        exact uninvited (Or.inl (ofNat_trapno gate (by decide) brkpt))
      · intro syscall
        exact uninvited (Or.inr (ofNat_trapno gate (by decide) syscall))
    · rw [if_neg gate] at taken
      have arrives := arrives_interrupt (v := v) u protection (UInt32.ofNat (8 * n + 3)) back
      rw [← taken] at arrives
      exact ⟨_, arrives, (if_neg gate).symm, faulted _⟩

theorem user_interrupts_smallMachine : ∃ s tf, Arrives (fun i => UInt32.ofNat (4 * i))
      (int (trapInit (fun i => (UInt32.ofNat (4 * i)).toNat) (linkedTables 0xF0190000)) busyUser 13 7)
      0 tf ∧ tf.tfErr = 106 ∧
    ∃ s', trap ⟨fun _ => .word 0, WORD, 0⟩ s tf 0 = .error (.monitor s') ∧
      Destroyed (saveFrame s tf) s' := by
  obtain ⟨s, reached, mode⟩ := first_running
  obtain ⟨tf, arrives, outcome⟩ := (@user_interrupts smallMachine ⟨fun _ => .word 0, WORD, 0⟩ _ 0
    busyUser reached mode (by decide) (Nat.le_refl WORD)
    (fun i => UInt32.ofNat (4 * i)) 0xF0190000 0 13).1 7
  rcases outcome with ⟨syscall, _⟩ | ⟨brkpt, _⟩ | ⟨_, rfl, ends⟩
  · cases syscall
  · cases brkpt
  · exact ⟨_, _, arrives, by decide, ends 0⟩

end Arrival

end JosGates
