import Jos.Machine
import Jos.WordStack

/- kern/trapentry.S and env_pop_tf, as lists of the instructions they are made of, with the
   part of the processor that they touch. Stacks are word aligned. The eip and eflags of kernel
   code are not followed: the lists stand for the one, and nothing here tests the other. -/
namespace JosTrapEntry
open JosLayout FrameWords WordStack JosMachine

abbrev GD_KD : UInt16 := 0x10

structure Registers where
  eax : UInt32
  ecx : UInt32
  edx : UInt32
  ebx : UInt32
  esp : UInt32
  ebp : UInt32
  esi : UInt32
  edi : UInt32
  ds : UInt16
  es : UInt16
  cs : UInt16
  ss : UInt16
  eip : UInt32
  eflags : UInt32
  deriving DecidableEq

/-- The registers, memory by address, and what a push of a selector leaves in the upper half of
    the word it fills. -/
structure Cpu where
  reg : Registers
  mem : Frame
  upper : UInt32 → UInt16

inductive Instr where
  | pushl (v : UInt32)
  | pushlEsp
  | pushlDs
  | pushlEs
  | pushal
  | movwAx (v : UInt16)
  | movwDs
  | movwEs
  | movlEsp (v : UInt32)
  | popal
  | poplEs
  | poplDs
  | addlEsp (v : UInt32)
  /-- the address to return to is pushed -/
  | call (back : UInt32)
  | iret

def peek (c : Cpu) (k : Nat) : UInt32 :=
  UInt32.ofNat (word c.mem ((c.reg.esp.toNat + 4 * k) % WORD / 4))

def push (c : Cpu) (v : UInt32) : Cpu :=
  let esp := c.reg.esp - 4
  { c with reg := { c.reg with esp := esp }, mem := setWord c.mem (esp.toNat / 4) v.toNat }

def selector (c : Cpu) (v : UInt16) : UInt32 :=
  UInt32.ofNat (v.toNat + 65536 * (c.upper (c.reg.esp - 4)).toNat)

def step (c : Cpu) : Instr → Cpu
  | .pushl v => push c v
  | .pushlEsp => push c c.reg.esp
  | .pushlDs => push c (selector c c.reg.ds)
  | .pushlEs => push c (selector c c.reg.es)
  | .pushal =>
    let esp := c.reg.esp
    let c := push (push (push (push c c.reg.eax) c.reg.ecx) c.reg.edx) c.reg.ebx
    push (push (push (push c esp) c.reg.ebp) c.reg.esi) c.reg.edi
  | .movwAx v =>
    let eax := (c.reg.eax >>> 16 <<< 16) ||| v.toUInt32
    { c with reg := { c.reg with eax := eax } }
  | .movwDs => { c with reg := { c.reg with ds := c.reg.eax.toUInt16 } }
  | .movwEs => { c with reg := { c.reg with es := c.reg.eax.toUInt16 } }
  | .movlEsp v => { c with reg := { c.reg with esp := v } }
  | .popal => { c with reg := { c.reg with
      edi := peek c 0, esi := peek c 1, ebp := peek c 2, ebx := peek c 4
      edx := peek c 5, ecx := peek c 6, eax := peek c 7, esp := c.reg.esp + 32 } }
  | .poplEs => { c with reg := { c.reg with es := (peek c 0).toUInt16, esp := c.reg.esp + 4 } }
  | .poplDs => { c with reg := { c.reg with ds := (peek c 0).toUInt16, esp := c.reg.esp + 4 } }
  | .addlEsp v => { c with reg := { c.reg with esp := c.reg.esp + v } }
  | .call back => push c back
  | .iret =>
    let cs := (peek c 1).toUInt16
    let reg := { c.reg with eip := peek c 0, cs := cs, eflags := peek c 2 }
    -- only a return to an outer ring takes esp and ss along
    if cs &&& 3 = 0 then { c with reg := { reg with esp := c.reg.esp + 12 } }
    else { c with reg := { reg with esp := peek c 3, ss := (peek c 4).toUInt16 } }

def exec (c : Cpu) (code : List Instr) : Cpu := code.foldl step c

/-- The two shapes of entry point, with the number they push. -/
inductive Stub where
  | ec (num : UInt32)
  | noec (num : UInt32)
  deriving DecidableEq

def Stub.code : Stub → List Instr
  | .ec num => [.pushl num]
  | .noec num => [.pushl 0, .pushl num]

def vectors : List (Option Stub) :=
  [some (.noec 0), some (.noec 1), none, some (.noec 3), some (.noec 4), some (.noec 5),
    some (.noec 6), some (.noec 7), some (.ec 8), some (.noec 9), some (.ec 10), some (.ec 11),
    some (.ec 12), some (.ec 13), some (.ec 14), none, some (.noec 16)] ++
  List.replicate 31 none ++ [some (.noec 48)]

def alltraps (back : UInt32) : List Instr :=
  [.pushlDs, .pushlEs, .pushal, .movwAx GD_KD, .movwDs, .movwEs, .pushlEsp, .call back]

def envPopTf (tf : UInt32) : List Instr :=
  [.movlEsp tf, .popal, .poplEs, .poplDs, .addlEsp 8, .iret]

def pushesErrorCode (n : Nat) : Prop := n ∈ [8, 10, 11, 12, 13, 14, 17]

instance (n : Nat) : Decidable (pushesErrorCode n) := inferInstanceAs (Decidable (n ∈ _))

/-- A trap from user mode: the processor takes the stack from the task segment, where
    trap_init_percpu put KSTACKTOP and GD_KD, and cs from the gate. -/
def interrupt (u : Cpu) (n : Nat) (err : UInt32) : Cpu :=
  let k := { u with reg := { u.reg with esp := UInt32.ofNat KSTACKTOP, ss := GD_KD, cs := GD_KT } }
  let k := push k (selector k u.reg.ss)
  let k := push k u.reg.esp
  let k := push k u.reg.eflags
  let k := push k (selector k u.reg.cs)
  let k := push k u.reg.eip
  if pushesErrorCode n then push k err else k

/-- From the trap in user mode to the first instruction of trap. -/
def enter (u : Cpu) (n : Nat) (stub : Stub) (err back : UInt32) : Cpu :=
  exec (interrupt u n err) (stub.code ++ alltraps back)

def argument (c : Cpu) : UInt32 := peek c 1

def loadTrapframe (m : Frame) (a : Nat) : Trapframe where
  tfRegs :=
    { regEdi := .ofNat (long m a)
      regEsi := .ofNat (long m (a + 4))
      regEbp := .ofNat (long m (a + 8))
      regOesp := .ofNat (long m (a + 12))
      regEbx := .ofNat (long m (a + 16))
      regEdx := .ofNat (long m (a + 20))
      regEcx := .ofNat (long m (a + 24))
      regEax := .ofNat (long m (a + 28)) }
  tfEs := .ofNat (half m (a + 32))
  tfPadding1 := .ofNat (half m (a + 34))
  tfDs := .ofNat (half m (a + 36))
  tfPadding2 := .ofNat (half m (a + 38))
  tfTrapno := .ofNat (long m (a + 40))
  tfErr := .ofNat (long m (a + 44))
  tfEip := .ofNat (long m (a + 48))
  tfCs := .ofNat (half m (a + 52))
  tfPadding3 := .ofNat (half m (a + 54))
  tfEflags := .ofNat (long m (a + 56))
  tfEsp := .ofNat (long m (a + 60))
  tfSs := .ofNat (half m (a + 64))
  tfPadding4 := .ofNat (half m (a + 66))

/-- The seventeen words of a struct Trapframe. -/
def trapframeWords (tf : Trapframe) : List Nat :=
  [tf.tfRegs.regEdi.toNat, tf.tfRegs.regEsi.toNat, tf.tfRegs.regEbp.toNat,
    tf.tfRegs.regOesp.toNat, tf.tfRegs.regEbx.toNat, tf.tfRegs.regEdx.toNat,
    tf.tfRegs.regEcx.toNat, tf.tfRegs.regEax.toNat,
    tf.tfEs.toNat + 65536 * tf.tfPadding1.toNat, tf.tfDs.toNat + 65536 * tf.tfPadding2.toNat,
    tf.tfTrapno.toNat, tf.tfErr.toNat, tf.tfEip.toNat,
    tf.tfCs.toNat + 65536 * tf.tfPadding3.toNat, tf.tfEflags.toNat, tf.tfEsp.toNat,
    tf.tfSs.toNat + 65536 * tf.tfPadding4.toNat]

def storeTrapframe (m : Frame) (a : Nat) (tf : Trapframe) : Frame :=
  setWords m (a / 4) (trapframeWords tf)

section Struct

def trapframeOf (w : Nat → Nat) : Trapframe where
  tfRegs :=
    { regEdi := .ofNat (w 0)
      regEsi := .ofNat (w 1)
      regEbp := .ofNat (w 2)
      regOesp := .ofNat (w 3)
      regEbx := .ofNat (w 4)
      regEdx := .ofNat (w 5)
      regEcx := .ofNat (w 6)
      regEax := .ofNat (w 7) }
  tfEs := .ofNat (w 8 % 65536)
  tfPadding1 := .ofNat (w 8 / 65536)
  tfDs := .ofNat (w 9 % 65536)
  tfPadding2 := .ofNat (w 9 / 65536)
  tfTrapno := .ofNat (w 10)
  tfErr := .ofNat (w 11)
  tfEip := .ofNat (w 12)
  tfCs := .ofNat (w 13 % 65536)
  tfPadding3 := .ofNat (w 13 / 65536)
  tfEflags := .ofNat (w 14)
  tfEsp := .ofNat (w 15)
  tfSs := .ofNat (w 16 % 65536)
  tfPadding4 := .ofNat (w 16 / 65536)

theorem loadTrapframe_words (m : Frame) (b : Nat) :
    loadTrapframe m (4 * b) = trapframeOf fun k => word m (b + k) := by
  have long_at : ∀ k, long m (4 * b + 4 * k) = word m (b + k) := by
    intro k
    rw [← Nat.mul_add, long_word]
  have low_at : ∀ k, half m (4 * b + 4 * k) = word m (b + k) % 65536 := by
    intro k
    rw [← Nat.mul_add, half_low]
  have high_at : ∀ k, half m (4 * b + (4 * k + 2)) = word m (b + k) / 65536 := by
    intro k
    rw [← Nat.add_assoc, ← Nat.mul_add, half_high]
  unfold loadTrapframe trapframeOf
  rw [long_at 1, long_at 2, long_at 3, long_at 4, long_at 5, long_at 6, long_at 7, low_at 8,
    high_at 8, low_at 9, high_at 9, long_at 10, long_at 11, long_at 12, low_at 13, high_at 13,
    long_at 14, long_at 15, low_at 16, high_at 16, long_word]
  rfl

theorem split_halves (a b : UInt16) : (a.toNat + 65536 * b.toNat) % 65536 = a.toNat ∧
    (a.toNat + 65536 * b.toNat) / 65536 = b.toNat ∧ a.toNat + 65536 * b.toNat < 4294967296 := by
  have ha := a.toNat_lt
  have hb := b.toNat_lt
  omega

theorem trapframeWords_small (tf : Trapframe) : ∀ v ∈ trapframeWords tf, v < 4294967296 := by
  intro v listed
  simp only [trapframeWords, List.mem_cons, List.not_mem_nil, or_false] at listed
  rcases listed with rfl | rfl | rfl | rfl | rfl | rfl | rfl | rfl | rfl | rfl | rfl | rfl | rfl |
    rfl | rfl | rfl | rfl
  all_goals first
    | exact UInt32.toNat_lt _
    | exact (split_halves _ _).2.2

theorem trapframeOf_words (tf : Trapframe) :
    trapframeOf (fun k => (trapframeWords tf).getD k 0) = tf := by
  obtain ⟨es_low, es_high, _⟩ := split_halves tf.tfEs tf.tfPadding1
  obtain ⟨ds_low, ds_high, _⟩ := split_halves tf.tfDs tf.tfPadding2
  obtain ⟨cs_low, cs_high, _⟩ := split_halves tf.tfCs tf.tfPadding3
  obtain ⟨ss_low, ss_high, _⟩ := split_halves tf.tfSs tf.tfPadding4
  simp [trapframeOf, trapframeWords, es_low, es_high, ds_low, ds_high, cs_low, cs_high, ss_low,
    ss_high]

theorem word_storeTrapframe (m : Frame) (b : Nat) (tf : Trapframe) {k : Nat} (inside : k < 17) :
    word (storeTrapframe m (4 * b) tf) (b + k) = (trapframeWords tf).getD k 0 := by
  unfold storeTrapframe
  rw [Nat.mul_div_cancel_left b (by decide)]
  exact word_setWords (trapframeWords_small tf) inside

end Struct

section Entry

def pushes (c : Cpu) (vs : List UInt32) : Cpu := vs.foldl push c

theorem pushes_spec {c : Cpu} {t : Nat} (vs : List UInt32) (top : c.reg.esp.toNat = 4 * t)
    (room : vs.length ≤ t) :
    (pushes c vs).mem = pushWords c.mem t (vs.map UInt32.toNat) ∧
      (pushes c vs).reg.esp.toNat = 4 * (t - vs.length) := by
  induction vs generalizing c t with
  | nil => exact ⟨rfl, top⟩
  | cons v vs ih =>
    simp only [List.length_cons] at room
    have lower : (c.reg.esp - 4).toNat = 4 * (t - 1) := by
      have above : (4 : UInt32) ≤ c.reg.esp := by
        rw [UInt32.le_iff_toNat_le, top]
        change 4 ≤ 4 * t
        omega
      rw [UInt32.toNat_sub_of_le _ _ above, top]
      change 4 * t - 4 = _
      omega
    obtain ⟨mem, esp⟩ := ih (c := push c v) (t := t - 1) lower (by omega)
    have pushed : (push c v).mem = setWord c.mem (t - 1) v.toNat := by
      change setWord c.mem ((c.reg.esp - 4).toNat / 4) v.toNat = _
      rw [lower, Nat.mul_div_cancel_left _ (by decide)]
    constructor
    · rw [pushed] at mem
      exact mem
    · rw [List.length_cons, Nat.sub_add_eq, Nat.sub_right_comm]
      exact esp

abbrev stackTop : UInt32 := UInt32.ofNat KSTACKTOP

def below (top : UInt32) : Nat → UInt32
  | 0 => top
  | k + 1 => below top k - 4

def selectorAt (u : Cpu) (v : UInt16) (a : UInt32) : UInt32 :=
  UInt32.ofNat (v.toNat + 65536 * (u.upper a).toNat)

def kernelStack (top : UInt32) (u : Cpu) : Cpu :=
  { u with reg := { u.reg with esp := below top 0, ss := GD_KD, cs := GD_KT } }

theorem below_add (top : UInt32) (j k : Nat) : below (below top j) k = below top (j + k) := by
  induction k with
  | zero => rfl
  | succ k ih =>
    change below (below top j) k - 4 = below top (j + k) - 4
    rw [ih]

theorem pushes_reg (c : Cpu) (vs : List UInt32) : (pushes c vs).upper = c.upper ∧
    (pushes c vs).reg = { c.reg with esp := below c.reg.esp vs.length } := by
  induction vs generalizing c with
  | nil => exact ⟨rfl, rfl⟩
  | cons v vs ih =>
    obtain ⟨upper, reg⟩ := ih (push c v)
    refine ⟨upper, ?_⟩
    have lower : below (c.reg.esp - 4) vs.length = below c.reg.esp (v :: vs).length := by
      have first : c.reg.esp - 4 = below c.reg.esp 1 := rfl
      rw [first, below_add, List.length_cons, Nat.add_comm]
    rw [← lower]
    exact reg

theorem pushes_append (c : Cpu) (xs ys : List UInt32) :
    pushes (pushes c xs) ys = pushes c (xs ++ ys) := List.foldl_append.symm

theorem exec_append (c : Cpu) (xs ys : List Instr) :
    exec c (xs ++ ys) = exec (exec c xs) ys := List.foldl_append

theorem pushes_congr {c c' : Cpu} (mem : c'.mem = c.mem) (esp : c'.reg.esp = c.reg.esp)
    (vs : List UInt32) : (pushes c' vs).mem = (pushes c vs).mem ∧
      (pushes c' vs).reg.esp = (pushes c vs).reg.esp := by
  induction vs generalizing c c' with
  | nil => exact ⟨mem, esp⟩
  | cons v vs ih =>
    apply ih
    · change setWord c'.mem ((c'.reg.esp - 4).toNat / 4) v.toNat = setWord c.mem _ v.toNat
      rw [mem, esp]
    · change c'.reg.esp - 4 = c.reg.esp - 4
      rw [esp]

theorem exec_selectors (c : Cpu) : exec c [.pushlDs, .pushlEs] =
    pushes c [selectorAt c c.reg.ds (below c.reg.esp 1), selectorAt c c.reg.es
      (below c.reg.esp 2)] := rfl

theorem push_kept (c : Cpu) (v : UInt32) : (push c v).reg.ecx = c.reg.ecx ∧ (push c v).reg.edx = c.reg.edx ∧
    (push c v).reg.ebx = c.reg.ebx ∧ (push c v).reg.ebp = c.reg.ebp ∧ (push c v).reg.esi = c.reg.esi ∧
    (push c v).reg.edi = c.reg.edi := ⟨rfl, rfl, rfl, rfl, rfl, rfl⟩

theorem exec_pushal (c : Cpu) : exec c [.pushal] =
    pushes c [c.reg.eax, c.reg.ecx, c.reg.edx, c.reg.ebx, c.reg.esp, c.reg.ebp, c.reg.esi,
      c.reg.edi] := by
  unfold exec pushes
  simp only [List.foldl_cons, List.foldl_nil, step, push_kept]

def allWords (c : Cpu) (back : UInt32) : List UInt32 :=
  [selectorAt c c.reg.ds (below c.reg.esp 1), selectorAt c c.reg.es (below c.reg.esp 2),
    c.reg.eax, c.reg.ecx, c.reg.edx, c.reg.ebx, below c.reg.esp 2, c.reg.ebp, c.reg.esi,
    c.reg.edi, below c.reg.esp 10, back]

theorem allWords_pushes (c : Cpu) (ws : List UInt32) (back : UInt32) :
    allWords (pushes c ws) back =
      [selectorAt c c.reg.ds (below c.reg.esp (ws.length + 1)),
        selectorAt c c.reg.es (below c.reg.esp (ws.length + 2)), c.reg.eax, c.reg.ecx, c.reg.edx,
        c.reg.ebx, below c.reg.esp (ws.length + 2), c.reg.ebp, c.reg.esi, c.reg.edi,
        below c.reg.esp (ws.length + 10), back] := by
  obtain ⟨upper, reg⟩ := pushes_reg c ws
  simp only [allWords, selectorAt, upper, reg, below_add]

theorem exec_segments (c : Cpu) :
    (exec c [.movwAx GD_KD, .movwDs, .movwEs]).mem = c.mem ∧
      (exec c [.movwAx GD_KD, .movwDs, .movwEs]).reg.esp = c.reg.esp := ⟨rfl, rfl⟩

theorem exec_call (c : Cpu) (back : UInt32) :
    exec c [.pushlEsp, .call back] = pushes c [c.reg.esp, back] := rfl

theorem exec_alltraps (c : Cpu) (back : UInt32) :
    (exec c (alltraps back)).mem = (pushes c (allWords c back)).mem ∧
      (exec c (alltraps back)).reg.esp = (pushes c (allWords c back)).reg.esp := by
  have code : alltraps back = [Instr.pushlDs, Instr.pushlEs] ++ ([Instr.pushal] ++
      ([Instr.movwAx GD_KD, Instr.movwDs, Instr.movwEs] ++ [Instr.pushlEsp, Instr.call back])) := rfl
  obtain ⟨_, reg⟩ := pushes_reg c [selectorAt c c.reg.ds (below c.reg.esp 1),
    selectorAt c c.reg.es (below c.reg.esp 2)]
  rw [code, exec_append, exec_append, exec_append, exec_selectors, exec_pushal, exec_call]
  simp only [reg, pushes_append, List.cons_append, List.nil_append, List.length_cons,
    List.length_nil]
  have split : allWords c back = [selectorAt c c.reg.ds (below c.reg.esp 1),
      selectorAt c c.reg.es (below c.reg.esp 2), c.reg.eax, c.reg.ecx, c.reg.edx, c.reg.ebx,
      below c.reg.esp 2, c.reg.ebp, c.reg.esi, c.reg.edi] ++ [below c.reg.esp 10, back] := rfl
  have ten : ∀ ws : List UInt32, ws.length = 10 →
      (pushes c ws).reg.esp = below c.reg.esp 10 := by
    intro ws length
    rw [(pushes_reg c ws).2, length]
  rw [split, ← pushes_append]
  obtain ⟨mem, esp⟩ := exec_segments (pushes c [selectorAt c c.reg.ds (below c.reg.esp 1),
    selectorAt c c.reg.es (below c.reg.esp 2), c.reg.eax, c.reg.ecx, c.reg.edx, c.reg.ebx,
    below c.reg.esp 2, c.reg.ebp, c.reg.esi, c.reg.edi])
  rw [esp, ten _ rfl]
  exact pushes_congr mem esp _

def hardwareWords (u : Cpu) : List UInt32 :=
  [selectorAt u u.reg.ss (below stackTop 1), u.reg.esp, u.reg.eflags,
    selectorAt u u.reg.cs (below stackTop 4), u.reg.eip]

theorem interrupt_words (u : Cpu) (n : Nat) (err : UInt32) : interrupt u n err =
    pushes (kernelStack stackTop u)
      (hardwareWords u ++ if pushesErrorCode n then [err] else []) := by
  unfold interrupt
  by_cases code : pushesErrorCode n
  · rw [if_pos code, if_pos code, ← pushes_append]
    rfl
  · rw [if_neg code, if_neg code, List.append_nil]
    rfl

/-- All that a trap pushes, whichever of the two stubs it goes through. -/
def enterWords (u : Cpu) (num err back : UInt32) : List UInt32 :=
  hardwareWords u ++ [err, num, selectorAt u u.reg.ds (below stackTop 8),
    selectorAt u u.reg.es (below stackTop 9), u.reg.eax, u.reg.ecx, u.reg.edx, u.reg.ebx,
    below stackTop 9, u.reg.ebp, u.reg.esi, u.reg.edi, below stackTop 17, back]

def Fits (stub : Stub) (n : Nat) : Prop :=
  (pushesErrorCode n ∧ stub = .ec (UInt32.ofNat n)) ∨
    (¬ pushesErrorCode n ∧ stub = .noec (UInt32.ofNat n))

instance (stub : Stub) (n : Nat) : Decidable (Fits stub n) :=
  inferInstanceAs (Decidable (_ ∨ _))

theorem vectors_fit {n : Nat} {stub : Stub} (entry : vectors.getD n none = some stub) :
    Fits stub n := by
  have table : ∀ i, i < 49 → ((vectors.getD i none).all fun st => decide (Fits st i)) = true := by
    decide
  by_cases inside : n < 49
  · have fits := table n inside
    rw [entry] at fits
    exact of_decide_eq_true fits
  · have beyond : vectors.length ≤ n := Nat.le_of_not_lt inside
    rw [List.getD_eq_default _ _ beyond] at entry
    cases entry

theorem enter_words (u : Cpu) {n : Nat} {stub : Stub} (fits : Fits stub n) (err back : UInt32) :
    let words := enterWords u (UInt32.ofNat n) (if pushesErrorCode n then err else 0) back
    (enter u n stub err back).mem = (pushes (kernelStack stackTop u) words).mem ∧
      (enter u n stub err back).reg.esp = (pushes (kernelStack stackTop u) words).reg.esp := by
  have stubbed : exec (interrupt u n err) stub.code = pushes (kernelStack stackTop u)
      (hardwareWords u ++ [if pushesErrorCode n then err else 0, UInt32.ofNat n]) := by
    rw [interrupt_words]
    rcases fits with ⟨code, rfl⟩ | ⟨code, rfl⟩
    · have pushed : ∀ c, exec c (Stub.ec (UInt32.ofNat n)).code =
          pushes c [UInt32.ofNat n] := fun _ => rfl
      rw [if_pos code, if_pos code, pushed, pushes_append, List.append_assoc]
      rfl
    · have pushed : ∀ c, exec c (Stub.noec (UInt32.ofNat n)).code =
          pushes c [0, UInt32.ofNat n] := fun _ => rfl
      rw [if_neg code, if_neg code, pushed, pushes_append, List.append_nil]
  obtain ⟨mem, esp⟩ := exec_alltraps (exec (interrupt u n err) stub.code) back
  unfold enter
  rw [exec_append, mem, esp, stubbed, allWords_pushes, pushes_append, List.append_assoc]
  exact ⟨rfl, rfl⟩

theorem trapframeOf_congr {w w' : Nat → Nat} (same : ∀ k, k < 17 → w k = w' k) :
    trapframeOf w = trapframeOf w' := by
  unfold trapframeOf
  rw [same 0 (by decide), same 1 (by decide), same 2 (by decide), same 3 (by decide),
    same 4 (by decide), same 5 (by decide), same 6 (by decide), same 7 (by decide),
    same 8 (by decide), same 9 (by decide), same 10 (by decide), same 11 (by decide),
    same 12 (by decide), same 13 (by decide), same 14 (by decide), same 15 (by decide),
    same 16 (by decide)]

theorem loadTrapframe_eq {m : Frame} {b : Nat} {tf : Trapframe}
    (same : ∀ k, k < 17 → word m (b + k) = (trapframeWords tf).getD k 0) :
    loadTrapframe m (4 * b) = tf := by
  rw [loadTrapframe_words, trapframeOf_congr same, trapframeOf_words]

/-- The struct Trapframe that stands for user state u, with the error code when there is one. -/
def savedFrame (u : Cpu) (n : Nat) (err : UInt32) : Trapframe where
  tfRegs :=
    { regEdi := u.reg.edi
      regEsi := u.reg.esi
      regEbp := u.reg.ebp
      regOesp := below stackTop 9
      regEbx := u.reg.ebx
      regEdx := u.reg.edx
      regEcx := u.reg.ecx
      regEax := u.reg.eax }
  tfEs := u.reg.es
  tfPadding1 := u.upper (below stackTop 9)
  tfDs := u.reg.ds
  tfPadding2 := u.upper (below stackTop 8)
  tfTrapno := UInt32.ofNat n
  tfErr := if pushesErrorCode n then err else 0
  tfEip := u.reg.eip
  tfCs := u.reg.cs
  tfPadding3 := u.upper (below stackTop 4)
  tfEflags := u.reg.eflags
  tfEsp := u.reg.esp
  tfSs := u.reg.ss
  tfPadding4 := u.upper (below stackTop 1)

theorem selectorAt_toNat (u : Cpu) (v : UInt16) (a : UInt32) :
    (selectorAt u v a).toNat = v.toNat + 65536 * (u.upper a).toNat := by
  unfold selectorAt
  rw [UInt32.toNat_ofNat']
  exact Nat.mod_eq_of_lt (split_halves _ _).2.2

theorem enterWords_eq (u : Cpu) (n : Nat) (err back : UInt32) :
    (enterWords u (UInt32.ofNat n) (if pushesErrorCode n then err else 0) back).map UInt32.toNat =
      (trapframeWords (savedFrame u n err)).reverse ++ [(below stackTop 17).toNat, back.toNat] := by
  simp only [enterWords, hardwareWords, trapframeWords, savedFrame, List.cons_append,
    List.nil_append, List.map_cons, List.map_nil, selectorAt_toNat, List.reverse_cons,
    List.reverse_nil]

theorem getD_reverse {xs tail : List Nat} {n k : Nat} (length : xs.length = n + 1) (inside : k ≤ n) :
    (xs.reverse ++ tail).getD (n - k) 0 = xs.getD k 0 := by
  have within : n - k < xs.reverse.length := by
    rw [List.length_reverse]
    omega
  have index : xs.length - 1 - (n - k) = k := by omega
  rw [List.getD_eq_getElem?_getD, List.getElem?_append_left within, List.getElem?_reverse (by omega),
    index, List.getD_eq_getElem?_getD]

theorem frame_on_stack {c : Cpu} {m : Frame} {t : Nat} {tf : Trapframe} {a back : UInt32}
    (room : 19 ≤ t) (word_size : 4 * t < WORD)
    (stack : c.mem = pushWords m t ((trapframeWords tf).reverse ++ [a.toNat, back.toNat]))
    (bottom : c.reg.esp.toNat = 4 * (t - 19)) (here : a.toNat = 4 * (t - 17)) :
    argument c = a ∧ loadTrapframe c.mem a.toNat = tf := by
  have length : (trapframeWords tf).length = 16 + 1 := rfl
  have total : ((trapframeWords tf).reverse ++ [a.toNat, back.toNat]).length = 19 := rfl
  have small : ∀ v ∈ (trapframeWords tf).reverse ++ [a.toNat, back.toNat], v < 4294967296 := by
    intro v listed
    rw [List.mem_append, List.mem_reverse] at listed
    rcases listed with field | last
    · exact trapframeWords_small tf v field
    · simp only [List.mem_cons, List.not_mem_nil, or_false] at last
      rcases last with rfl | rfl <;> exact UInt32.toNat_lt _
  have read : ∀ k, k < 19 → word c.mem (t - 1 - k) =
      ((trapframeWords tf).reverse ++ [a.toNat, back.toNat]).getD k 0 := by
    intro k inside
    rw [stack]
    exact word_pushWords small (total.symm ▸ room) (total.symm ▸ inside)
  constructor
  · have slot : (c.reg.esp.toNat + 4 * 1) % WORD / 4 = t - 1 - 17 := by
      rw [bottom, Nat.mod_eq_of_lt (by omega)]
      omega
    have address : word c.mem (t - 1 - 17) = a.toNat := read 17 (by decide)
    unfold argument peek
    rw [slot, address, UInt32.ofNat_toNat]
  · rw [here]
    apply loadTrapframe_eq
    intro k inside
    have index : t - 17 + k = t - 1 - (16 - k) := by omega
    rw [index, read (16 - k) (by omega), getD_reverse length (by omega)]

/-- The stack a trap builds is a struct Trapframe, and trap is called with its address. -/
theorem entry_layout (u : Cpu) {n : Nat} {stub : Stub} (fits : Fits stub n) (err back : UInt32) :
    loadTrapframe (enter u n stub err back).mem (argument (enter u n stub err back)).toNat =
      savedFrame u n err := by
  obtain ⟨mem, esp⟩ := enter_words u fits err back
  have top : (kernelStack stackTop u).reg.esp.toNat = 4 * (KSTACKTOP / 4) := by
    change (UInt32.ofNat KSTACKTOP).toNat = _
    decide
  have here : (below stackTop 17).toNat = 4 * (KSTACKTOP / 4 - 17) := by decide
  have room : 19 ≤ KSTACKTOP / 4 ∧ 4 * (KSTACKTOP / 4) < WORD := by decide
  obtain ⟨stack, bottom⟩ := pushes_spec (enterWords u (UInt32.ofNat n)
    (if pushesErrorCode n then err else 0) back) top room.1
  rw [← mem, enterWords_eq] at stack
  rw [← esp] at bottom
  obtain ⟨address, frame⟩ := frame_on_stack room.1 room.2 stack bottom here
  rw [address]
  exact frame

end Entry

end JosTrapEntry
