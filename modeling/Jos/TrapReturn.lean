import Jos.SyscallReturn
import Jos.TrapEntry

/- The way back: env_pop_tf on the frame that trap has saved. -/
namespace JosTrapReturn
open JosLayout FrameWords WordStack JosMachine JosEnv JosTrap JosEnvSwitch JosSyscallReturn
open JosTrapEntry CountedLoop

def registersOf (tf : Trapframe) : Registers where
  eax := tf.tfRegs.regEax
  ecx := tf.tfRegs.regEcx
  edx := tf.tfRegs.regEdx
  ebx := tf.tfRegs.regEbx
  esp := tf.tfEsp
  ebp := tf.tfRegs.regEbp
  esi := tf.tfRegs.regEsi
  edi := tf.tfRegs.regEdi
  ds := tf.tfDs
  es := tf.tfEs
  cs := tf.tfCs
  ss := tf.tfSs
  eip := tf.tfEip
  eflags := tf.tfEflags

theorem selector_part (v pad : UInt16) :
    (UInt32.ofNat (v.toNat + 65536 * pad.toNat)).toUInt16 = v := by
  obtain ⟨low, _, small⟩ := split_halves v pad
  rw [← UInt16.toNat_inj, UInt32.toNat_toUInt16, UInt32.toNat_ofNat', Nat.mod_eq_of_lt small]
  exact low

theorem toNat_advance {a d : UInt32} {x y z : Nat} (ha : a.toNat = x) (hd : d.toNat = y)
    (sum : x + y = z) (room : z < 4294967296) : (a + d).toNat = z := by
  rw [UInt32.toNat_add, ha, hd, sum]
  exact Nat.mod_eq_of_lt room

/-- The stack pointer is at word j of the frame tf at word b. -/
structure Popping (m : Frame) (b : Nat) (tf : Trapframe) (j : Nat) (c : Cpu) : Prop where
  mem : c.mem = storeTrapframe m (4 * b) tf
  esp : c.reg.esp.toNat = 4 * (b + j)

section Popping
variable {c : Cpu} {m : Frame} {b j k : Nat} {tf : Trapframe}

theorem Popping.peek (popping : Popping m b tf j c) (room : 4 * b + 68 ≤ WORD) (inside : j + k < 17) :
    JosTrapEntry.peek c k = UInt32.ofNat ((trapframeWords tf).getD (j + k) 0) := by
  have index : (4 * (b + j) + 4 * k) % WORD / 4 = b + (j + k) := by
    rw [Nat.mod_eq_of_lt (by omega)]
    omega
  unfold JosTrapEntry.peek
  rw [popping.mem, popping.esp, index, word_storeTrapframe m b tf inside]

theorem Popping.step {c' : Cpu} {d : UInt32} (popping : Popping m b tf j c) (room : 4 * b + 68 ≤ WORD)
    (mem : c'.mem = c.mem) (esp : c'.reg.esp = c.reg.esp + d) (words : 4 * j + d.toNat = 4 * k)
    (inside : k < 17) : Popping m b tf k c' := by
  have small : 4 * b + 68 ≤ 4294967296 := room
  refine ⟨mem.trans popping.mem, ?_⟩
  rw [esp]
  exact toNat_advance popping.esp rfl (by omega) (by omega)

end Popping

/-- env_pop_tf leaves the kernel with the registers of the frame it is given. -/
theorem envPopTf_registers {c : Cpu} {m : Frame} {b : Nat} {tf : Trapframe} {a : UInt32}
    (mem : c.mem = storeTrapframe m (4 * b) tf) (here : a.toNat = 4 * b)
    (room : 4 * b + 68 ≤ WORD) (user : tf.tfCs &&& 3 = 3) :
    (exec c (envPopTf a)).reg = registersOf tf := by
  obtain ⟨c0, at0⟩ : ∃ c0, c0 = step c (.movlEsp a) := ⟨_, rfl⟩
  obtain ⟨c1, at1⟩ : ∃ c1, c1 = step c0 .popal := ⟨_, rfl⟩
  obtain ⟨c2, at2⟩ : ∃ c2, c2 = step c1 .poplEs := ⟨_, rfl⟩
  obtain ⟨c3, at3⟩ : ∃ c3, c3 = step c2 .poplDs := ⟨_, rfl⟩
  obtain ⟨c4, at4⟩ : ∃ c4, c4 = step c3 (.addlEsp 8) := ⟨_, rfl⟩
  have ended : exec c (envPopTf a) = step c4 .iret := by
    rw [at4, at3, at2, at1, at0]
    rfl
  have pop0 : Popping m b tf 0 c0 := by
    rw [at0]
    exact ⟨mem, here⟩
  have pop1 : Popping m b tf 8 c1 := by
    rw [at1]
    exact pop0.step room rfl rfl (by decide) (by decide)
  have pop2 : Popping m b tf 9 c2 := by
    rw [at2]
    exact pop1.step room rfl rfl (by decide) (by decide)
  have pop3 : Popping m b tf 10 c3 := by
    rw [at3]
    exact pop2.step room rfl rfl (by decide) (by decide)
  have pop4 : Popping m b tf 12 c4 := by
    rw [at4]
    exact pop3.step room rfl rfl (by decide) (by decide)
  have general : ∀ k, k < 8 → peek c0 k = UInt32.ofNat ((trapframeWords tf).getD k 0) := by
    intro k inside
    rw [pop0.peek room (by omega), Nat.zero_add]
  have es : (peek c1 0).toUInt16 = tf.tfEs := by
    rw [pop1.peek room (by decide)]
    exact selector_part _ _
  have ds : (peek c2 0).toUInt16 = tf.tfDs := by
    rw [pop2.peek room (by decide)]
    exact selector_part _ _
  have outer : ∀ k, k < 5 → peek c4 k = UInt32.ofNat ((trapframeWords tf).getD (12 + k) 0) :=
    fun k inside => pop4.peek room (by omega)
  have cs : (peek c4 1).toUInt16 = tf.tfCs := by
    rw [outer 1 (by decide)]
    exact selector_part _ _
  have ss : (peek c4 4).toUInt16 = tf.tfSs := by
    rw [outer 4 (by decide)]
    exact selector_part _ _
  have ring : ¬ (peek c4 1).toUInt16 &&& 3 = 0 := by
    rw [cs, user]
    decide
  have kept : c4.reg = { c.reg with
      edi := peek c0 0, esi := peek c0 1, ebp := peek c0 2, ebx := peek c0 4, edx := peek c0 5
      ecx := peek c0 6, eax := peek c0 7, es := (peek c1 0).toUInt16
      ds := (peek c2 0).toUInt16, esp := c4.reg.esp } := by
    rw [at4, at3, at2, at1, at0]
    rfl
  have left : (step c4 .iret).reg = { c4.reg with
      eip := peek c4 0, cs := (peek c4 1).toUInt16, eflags := peek c4 2, esp := peek c4 3
      ss := (peek c4 4).toUInt16 } := by
    unfold step
    rw [if_neg ring]
  rw [ended, left, kept, cs, ss, es, ds, general 0 (by decide), general 1 (by decide),
    general 2 (by decide), general 4 (by decide), general 5 (by decide), general 6 (by decide),
    general 7 (by decide), outer 0 (by decide), outer 2 (by decide), outer 3 (by decide)]
  simp [registersOf, trapframeWords]

theorem trap_without_environment {w : Surroundings} {s s' : State} {tf : Trapframe} {cr2 : Nat}
    (user : tf.tfCs &&& 3 = 3) (idle : s.curenv = none) : trap w s tf cr2 ≠ .ok s' := by
  intro run
  unfold trap at run
  rw [if_pos user] at run
  have stopped : runningEnv s = .error (.panic .assertion) := by
    unfold runningEnv
    rw [idle]
  rw [stopped] at run
  cases run

/-- A processor about to execute env_pop_tf, with tf stored at the address it is given. -/
def AboutToPop (c : Cpu) (a : UInt32) (tf : Trapframe) : Prop :=
  ∃ m b, c.mem = storeTrapframe m (4 * b) tf ∧ a.toNat = 4 * b ∧ 4 * b + 68 ≤ WORD

/-- The frame a vector stub builds is the user's registers, under the names of struct Trapframe.
    env_pop_tf on a copy of it resumes them; after a trap that returns, eax is the result of the
    system call. -/
theorem trap_entry_return (u : Cpu) (user : u.reg.cs &&& 3 = 3) {n : Nat} {stub : Stub}
    (entry : vectors.getD n none = some stub) (err back : UInt32) :
    loadTrapframe (enter u n stub err back).mem (argument (enter u n stub err back)).toNat =
        savedFrame u n err ∧
      (∀ c a, AboutToPop c a (savedFrame u n err) → (exec c (envPopTf a)).reg = u.reg) ∧
      ∀ w s s' cr2, trap w s (savedFrame u n err) cr2 = .ok s' →
        UInt32.ofNat n = T_SYSCALL ∧ ∃ e eax, s.curenv = some e ∧ s'.curenv = some e ∧
          syscall w (saveFrame s (savedFrame u n err)) u.reg.eax u.reg.edx u.reg.ecx =
            .ok (eax, saveFrame s (savedFrame u n err)) ∧
          ∀ c a, AboutToPop c a (s'.envs e).envTf →
            (exec c (envPopTf a)).reg = { u.reg with eax := eax } := by
  have in_frame : (savedFrame u n err).tfCs &&& 3 = 3 := user
  refine ⟨entry_layout u (vectors_fit entry) err back, ?_, ?_⟩
  · rintro c a ⟨m, b, mem, here, room⟩
    exact envPopTf_registers mem here room in_frame
  · intro w s s' cr2 run
    cases current : s.curenv with
    | none => exact absurd run (trap_without_environment in_frame current)
    | some e =>
      obtain ⟨number, _, eax, called, ended⟩ := (trap_user_returns in_frame current).mp run
      have frame : (s'.envs e).envTf = setEax (savedFrame u n err) eax := by
        rw [ended, saveFrame_eq current]
        simp [State.setEnv]
      have still : s'.curenv = some e := by
        rw [ended, (saveFrame_fields s _).1, current]
      refine ⟨number, e, eax, rfl, still, called, ?_⟩
      rintro c a ⟨m, b, mem, here, room⟩
      rw [frame] at mem
      have in_after : (setEax (savedFrame u n err) eax).tfCs &&& 3 = 3 := user
      exact envPopTf_registers mem here room in_after

def busyUser : Cpu where
  reg :=
    { eax := 1, ecx := 2, edx := 3, ebx := 4, esp := 0xEEBFDFF0, ebp := 5, esi := 6, edi := 7
      ds := 0x23, es := 0x2B, cs := 0x1B, ss := 0x33, eip := 0x800020, eflags := 0x202 }
  mem := zeroFrame
  upper := fun _ => 0

theorem trap_entry_return_busyUser :
    loadTrapframe (enter busyUser 14 (.ec 14) 6 0).mem
        (argument (enter busyUser 14 (.ec 14) 6 0)).toNat = savedFrame busyUser 14 6 ∧
      (exec { busyUser with mem := storeTrapframe zeroFrame 0x1000 (savedFrame busyUser 14 6) }
        (envPopTf 0x1000)).reg = busyUser.reg := by
  have user : busyUser.reg.cs &&& 3 = 3 := by decide
  have entry : vectors.getD 14 none = some (.ec 14) := by decide
  obtain ⟨layout, resumes, _⟩ := trap_entry_return busyUser user entry 6 0
  exact ⟨layout, resumes _ 0x1000 ⟨zeroFrame, 0x400, rfl, by decide, by decide⟩⟩

end JosTrapReturn
