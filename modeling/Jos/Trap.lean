import Jos.Env
import Jos.Printfmt

/- kern/syscall.c and kern/trap.c. A trap ends by running the current environment again, or
   in a panic, or in the kernel monitor, which no command leaves. -/
namespace JosTrap
open JosLayout JosMachine JosPmap JosMmu JosEnv JosPrintfmt

inductive Halt where
  | panic (p : Panic)
  | monitor (s : State)
  /-- still printing when the bound on the characters of one string ran out -/
  | printing

instance : Coe Panic Halt := ⟨.panic⟩

def envDestroy {α : Type} (s : State) (e : Nat) : Except Halt α := do
  let s ← orPanic (envFree s e)
  .error (.monitor s)

def userMemAssert (s : State) (env : Option Nat) (va len perm : Nat) : Except Halt State := do
  let (r, s) ← orPanic (userMemCheck s env va len (perm ||| PTE_U))
  if r < 0 then do
    let e ← orPanic (derefEnv env)
    envDestroy s e
  else .ok s

/-- What surrounds a call: the words on the stack after its arguments, a bound on the
    characters of one string, and what the console has to read. -/
structure Surroundings where
  beyond : Nat → Arg
  bound : Nat
  input : UInt32

def sysGetenvid (s : State) : Except Panic EnvId := curenvId s

def sysCputs (w : Surroundings) (s : State) (va len : Nat) : Except Halt (Trace × State) := do
  let envid ← orPanic (sysGetenvid s)
  let (_, e) ← orPanic (envid2env s envid true)
  let s ← userMemAssert s e va len PTE_U
  .ok (vprintfmt (kread s) w.bound (chars "%.*s") (argList [.word len, .word va] w.beyond), s)

def halted : Stop → Halt
  | .fault a => .panic (.kernelPageFault a)
  | _ => .printing

def sysEnvDestroy (s : State) (envid : EnvId) : Except Halt (Int × State) := do
  let (r, e) ← orPanic (envid2env s envid true)
  if r < 0 then .ok (r, s)
  else do
    let e ← orPanic (derefEnv e)
    envDestroy s e

abbrev SYS_cputs : UInt32 := 0
abbrev SYS_cgetc : UInt32 := 1
abbrev SYS_getenvid : UInt32 := 2
abbrev SYS_env_destroy : UInt32 := 3

/-- The cases SYS_cputs, SYS_cgetc, SYS_getenvid, SYS_env_destroy and default. No call looks at
    more than two of the five arguments, and SYS_env_destroy returns 0 whatever it did. -/
def syscall (w : Surroundings) (s : State) (syscallno a1 a2 : UInt32) :
    Except Halt (UInt32 × State) :=
  if syscallno = SYS_cputs then do
    let (t, s) ← sysCputs w s a1.toNat a2.toNat
    t.ended halted
    .ok (0, s)
  else if syscallno = SYS_cgetc then .ok (w.input, s)
  else if syscallno = SYS_getenvid then do
    let envid ← orPanic (sysGetenvid s)
    .ok (UInt32.ofBitVec envid, s)
  else if syscallno = SYS_env_destroy then do
    let (_, s) ← sysEnvDestroy s a1.toBitVec
    .ok (0, s)
  else .ok (UInt32.ofInt (-E_INVAL), s)

abbrev T_BRKPT : UInt32 := 3
abbrev T_PGFLT : UInt32 := 14
abbrev T_SYSCALL : UInt32 := 48

def runningEnv (s : State) : Except Halt Nat :=
  match s.curenv with
  | none => .error (.panic .assertion)
  | some c => .ok c

def pageFaultHandler (s : State) (tf : Trapframe) (cr2 : Nat) : Except Halt State :=
  if tf.tfCs &&& 3 = 0 then .error (.panic (.kernelPageFault cr2))
  else do
    let c ← runningEnv s
    envDestroy s c

/-- The frame tf is what tf points to; only a system call changes it. -/
def trapDispatch (w : Surroundings) (s : State) (tf : Trapframe) (cr2 : Nat) :
    Except Halt (Trapframe × State) :=
  if tf.tfTrapno = T_PGFLT then do
    let s ← pageFaultHandler s tf cr2
    .ok (tf, s)
  else if tf.tfTrapno = T_BRKPT then .error (.monitor s)
  else if tf.tfTrapno = T_SYSCALL then do
    let (eax, s) ← syscall w s tf.tfRegs.regEax tf.tfRegs.regEdx tf.tfRegs.regEcx
    .ok ({ tf with tfRegs := { tf.tfRegs with regEax := eax } }, s)
  else if tf.tfCs = GD_KT then .error (.panic .unhandledTrap)
  else do
    let c ← runningEnv s
    envDestroy s c

/-- From user mode tf comes to lie in curenv->env_tf; from kernel mode it stays on the stack. -/
def trap (w : Surroundings) (s : State) (tf : Trapframe) (cr2 : Nat) : Except Halt State := do
  let s ←
    if tf.tfCs &&& 3 = 3 then do
      let c ← runningEnv s
      let s := s.setEnv c { s.envs c with envTf := tf }
      let (after, s) ← trapDispatch w s tf cr2
      .ok (s.setEnv c { s.envs c with envTf := after })
    else do
      let (_, s) ← trapDispatch w s tf cr2
      .ok s
  let c ← runningEnv s
  if (s.envs c).envStatus ≠ ENV_RUNNING then .error (.panic .assertion)
  else orPanic (envRun s c)

end JosTrap
